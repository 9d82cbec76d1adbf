import HigeMaster.FloatingPoint
import HigeMaster.UIKit.Image

/-!
# Numbers

The arithmetic of `Int` and `Int32` stops the program when it overflows.  That
of `Double` and `Float` rounds, and its results can be infinite or not a number,
which is not equal to itself.
-/

namespace HigeMaster

/-! ## Integers -/

/-- The number is an `Int`. -/
def FitsInt (n : ℤ) : Prop :=
  -2 ^ 63 ≤ n ∧ n < 2 ^ 63

instance (n : ℤ) : Decidable (FitsInt n) :=
  inferInstanceAs (Decidable (_ ∧ _))

/-- The result of arithmetic on `Int`. -/
def intResult (n : ℤ) : Option ℤ :=
  if FitsInt n then some n else none

theorem intResult_eq_some {n result : ℤ} :
    intResult n = some result ↔ FitsInt n ∧ n = result := by
  rw [intResult, Option.ite_none_right_eq_some, Option.some_inj]

theorem intResult_natCast (n : ℕ) :
    intResult n = if n < 2 ^ 63 then some (n : ℤ) else none := by
  rw [intResult]
  by_cases less : n < 2 ^ 63
  · rw [if_pos less, if_pos ⟨by omega, by omega⟩]
  · rw [if_neg less, if_neg (fun fits => less (by exact_mod_cast fits.2))]

/-- The integers that fit into 32 bits. -/
abbrev Int32Value := {n : ℤ // -2 ^ 31 ≤ n ∧ n < 2 ^ 31}

/-- The result of arithmetic on `Int32`. -/
def Int32Value.ofResult (n : ℤ) : Option Int32Value :=
  if fits : -2 ^ 31 ≤ n ∧ n < 2 ^ 31 then some ⟨n, fits⟩ else none

/-! ## Floating-point numbers -/

abbrev Double := FloatingPoint .binary64
abbrev Float := FloatingPoint .binary32

/-- `Float(_:)`. -/
def Float.ofCGFloat (x : CGFloat) : Float :=
  (.ofRat x : Double).convert

theorem Float.lessEq_ofCGFloat {x y : CGFloat} (order : x ≤ y) :
    (Float.ofCGFloat x).lessEq (Float.ofCGFloat y) = true :=
  FloatingPoint.lessEq_convert (FloatingPoint.lessEq_ofRat_of_le order)

theorem Float.lt_of_less_ofCGFloat {x y : CGFloat}
    (less : (Float.ofCGFloat x).less (Float.ofCGFloat y) = true) : x < y := by
  by_contra order
  have atMost := Float.lessEq_ofCGFloat (not_lt.mp order)
  rw [FloatingPoint.less_eq_false atMost] at less
  cases less

/-! ## Comparing -/

/-- `<` and `==`. -/
class Comparable (T : Type) where
  less : T → T → Bool
  equal : T → T → Bool

instance : Comparable Int32Value where
  less x y := x.1 < y.1
  equal x y := x.1 = y.1

instance (format : FloatFormat) : Comparable (FloatingPoint format) where
  less := FloatingPoint.less
  equal := FloatingPoint.equal

/-- `clamp(_:min:max:)`. -/
def clamp {T : Type} [Comparable T] (x min max : T) : T :=
  if Comparable.less x min then min
  else if Comparable.less max x then max
  else x

end HigeMaster
