import HigeMaster.Geometry.Rect

/-!
# Affine transforms of the plane

A transform is stored as the six numbers of its matrix and acts on row
vectors, so `concatenating first second` applies `first` and then `second`.
-/

namespace Geometry

@[ext] structure AffineTransform (K : Type*) where
  a : K
  b : K
  c : K
  d : K
  tx : K
  ty : K
  deriving DecidableEq

namespace AffineTransform

variable {K : Type*} [Field K]

def identity : AffineTransform K :=
  { a := 1, b := 0, c := 0, d := 1, tx := 0, ty := 0 }

def scale (x y : K) : AffineTransform K :=
  { a := x, b := 0, c := 0, d := y, tx := 0, ty := 0 }

def translation (x y : K) : AffineTransform K :=
  { a := 1, b := 0, c := 0, d := 1, tx := x, ty := y }

/-- The same scale on both axes. -/
def uniform (factor : K) : AffineTransform K :=
  scale factor factor

def concatenating (first second : AffineTransform K) : AffineTransform K :=
  { a := first.a * second.a + first.b * second.c
    b := first.a * second.b + first.b * second.d
    c := first.c * second.a + first.d * second.c
    d := first.c * second.b + first.d * second.d
    tx := first.tx * second.a + first.ty * second.c + second.tx
    ty := first.tx * second.b + first.ty * second.d + second.ty }

theorem identity_eq_uniform : (identity : AffineTransform K) = uniform 1 :=
  rfl

@[simp] theorem uniform_a (factor : K) : (uniform factor).a = factor :=
  rfl

theorem uniform_injective :
    Function.Injective (uniform : K → AffineTransform K) := by
  intro left right equality
  exact congrArg AffineTransform.a equality

@[simp] theorem uniform_inj {left right : K} :
    uniform left = uniform right ↔ left = right :=
  uniform_injective.eq_iff

/-- A uniform scale that can be undone. -/
def IsInvertibleScale (transform : AffineTransform K) : Prop :=
  transform = .uniform transform.a ∧ transform.a ≠ 0

instance [DecidableEq K] (transform : AffineTransform K) :
    Decidable transform.IsInvertibleScale :=
  inferInstanceAs (Decidable (_ ∧ _))

theorem isInvertibleScale_uniform {factor : K} :
    (uniform factor).IsInvertibleScale ↔ factor ≠ 0 := by
  simp [IsInvertibleScale]

/-- Scale about the origin, and then move. -/
def placing (factor : K) (offset : Point K) : AffineTransform K :=
  (uniform factor).concatenating (translation offset.x offset.y)

theorem placing_eq (factor : K) (offset : Point K) :
    placing factor offset =
      { a := factor, b := 0, c := 0, d := factor
        tx := offset.x, ty := offset.y } := by
  simp [placing, uniform, scale, translation, concatenating]

theorem identity_eq_placing :
    (identity : AffineTransform K) = placing 1 0 := by
  rw [placing_eq]
  rfl

@[simp] theorem placing_inj {factor other : K} {offset elsewhere : Point K} :
    placing factor offset = placing other elsewhere ↔
      factor = other ∧ offset = elsewhere := by
  rw [placing_eq, placing_eq]
  constructor
  · intro same
    refine ⟨congrArg AffineTransform.a same, Point.ext ?_ ?_⟩
    · exact congrArg AffineTransform.tx same
    · exact congrArg AffineTransform.ty same
  · intro given
    rcases given with ⟨rfl, rfl⟩
    rfl

end AffineTransform

end Geometry
