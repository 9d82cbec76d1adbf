import Mathlib.Data.Int.Log
import Mathlib.Data.Rat.Floor
import Mathlib.Tactic.Linarith
import Mathlib.Tactic.Positivity
import Mathlib.Tactic.Ring

/-!
# Binary floating-point numbers

The finite numbers of a format are multiples of powers of two with a bounded
significand.  A result between two of them is rounded to the nearer one, and in
the middle to the one with the even significand; a result beyond all of them
becomes infinite.  The sign of zero is not kept, so a quotient by zero takes it
for positive.
-/

/-- The nearest integer, and in the middle of two integers the even one. -/
def Rat.roundEven (q : ℚ) : ℤ :=
  let above := ⌊q + 1 / 2⌋
  if above - q = 1 / 2 ∧ above % 2 = 1 then above - 1 else above

namespace Rat

theorem abs_roundEven_sub_le (q : ℚ) : |(q.roundEven : ℚ) - q| ≤ 1 / 2 := by
  have low := Int.floor_le (q + 1 / 2)
  have high := Int.lt_floor_add_one (q + 1 / 2)
  rw [roundEven, abs_le]
  split_ifs with tie
  · push_cast
    constructor <;> linarith [tie.1]
  · constructor <;> linarith

theorem even_roundEven {q : ℚ} (middle : |(q.roundEven : ℚ) - q| = 1 / 2) :
    q.roundEven % 2 = 0 := by
  have low := Int.floor_le (q + 1 / 2)
  have high := Int.lt_floor_add_one (q + 1 / 2)
  rw [roundEven] at middle ⊢
  split_ifs at middle ⊢ with tie
  · omega
  · rw [abs_eq (by norm_num)] at middle
    rcases middle with above | below
    · have even := mt (And.intro above) tie
      omega
    · linarith

/-- What is nearest, and even in the middle, is the only such integer. -/
theorem roundEven_unique {q : ℚ} {n : ℤ} (near : |(n : ℚ) - q| ≤ 1 / 2)
    (even : |(n : ℚ) - q| = 1 / 2 → n % 2 = 0) : q.roundEven = n := by
  have nearest := q.abs_roundEven_sub_le
  rw [abs_le] at near nearest
  have apart : |((q.roundEven - n : ℤ) : ℚ)| ≤ 1 := by
    push_cast
    rw [abs_le]
    constructor <;> linarith
  have difference : |q.roundEven - n| ≤ 1 := by exact_mod_cast apart
  rw [abs_le] at difference
  by_contra other
  have neighbours : q.roundEven = n + 1 ∨ q.roundEven = n - 1 := by omega
  rcases neighbours with above | below
  · have middle : (n : ℚ) - q = -(1 / 2) := by
      rw [above] at nearest
      push_cast at nearest
      linarith
    have nEven := even (by rw [middle]; norm_num)
    have roundedEven := even_roundEven (q := q) (by
      rw [above]
      push_cast
      rw [show (n : ℚ) + 1 - q = 1 / 2 by linarith]
      norm_num)
    omega
  · have middle : (n : ℚ) - q = 1 / 2 := by
      rw [below] at nearest
      push_cast at nearest
      linarith
    have nEven := even (by rw [middle]; norm_num)
    have roundedEven := even_roundEven (q := q) (by
      rw [below]
      push_cast
      rw [show (n : ℚ) - 1 - q = -(1 / 2) by linarith]
      norm_num)
    omega

@[simp] theorem roundEven_intCast (n : ℤ) : (n : ℚ).roundEven = n := by
  apply roundEven_unique
  · simp
  · intro middle
    simp at middle

theorem roundEven_neg (q : ℚ) : (-q).roundEven = -q.roundEven := by
  have mirrored : ((-q.roundEven : ℤ) : ℚ) - -q = -((q.roundEven : ℚ) - q) := by
    push_cast
    ring
  apply roundEven_unique
  · rw [mirrored, abs_neg]
    exact q.abs_roundEven_sub_le
  · intro middle
    rw [mirrored, abs_neg] at middle
    have even := even_roundEven middle
    omega

theorem roundEven_mono {q r : ℚ} (less : q ≤ r) :
    q.roundEven ≤ r.roundEven := by
  by_contra greater
  have apart : ((r.roundEven + 1 : ℤ) : ℚ) ≤ q.roundEven := by
    exact_mod_cast not_le.mp greater
  have nearQ := abs_le.mp q.abs_roundEven_sub_le
  have nearR := abs_le.mp r.abs_roundEven_sub_le
  push_cast at apart
  have same : q = r := by linarith
  subst same
  linarith

/-- The place of the leading bit. -/
def exponent (q : ℚ) : ℤ :=
  let estimate : ℤ := q.num.natAbs.log2 - q.den.log2
  if 2 ^ estimate ≤ |q| then estimate else estimate - 1

private theorem zpow_log2_sub_le_div {n d : ℕ} (numerator : n ≠ 0)
    (denominator : d ≠ 0) :
    (2 : ℚ) ^ ((n.log2 : ℤ) - d.log2 - 1) ≤ n / d := by
  have positive : (0 : ℚ) < d := by exact_mod_cast denominator.pos
  have low : (2 : ℚ) ^ n.log2 ≤ n := by
    exact_mod_cast Nat.log2_self_le numerator
  have high : (d : ℚ) ≤ 2 ^ (d.log2 + 1) := by
    exact_mod_cast Nat.lt_log2_self.le
  have halved : (2 : ℚ) ^ ((n.log2 : ℤ) - d.log2 - 1) =
      2 ^ n.log2 / 2 ^ (d.log2 + 1) := by
    rw [← zpow_natCast, ← zpow_natCast, ← zpow_sub₀ two_ne_zero]
    push_cast
    rw [sub_sub]
  rw [halved]
  calc (2 : ℚ) ^ n.log2 / 2 ^ (d.log2 + 1)
      ≤ n / 2 ^ (d.log2 + 1) := by gcongr
    _ ≤ n / d := by gcongr

private theorem div_lt_zpow_log2_sub (n : ℕ) {d : ℕ} (denominator : d ≠ 0) :
    (n / d : ℚ) < 2 ^ ((n.log2 : ℤ) - d.log2 + 1) := by
  have low : (2 : ℚ) ^ d.log2 ≤ d := by
    exact_mod_cast Nat.log2_self_le denominator
  have high : (n : ℚ) < 2 ^ (n.log2 + 1) := by
    exact_mod_cast Nat.lt_log2_self
  have doubled : (2 : ℚ) ^ ((n.log2 : ℤ) - d.log2 + 1) =
      2 ^ (n.log2 + 1) / 2 ^ d.log2 := by
    rw [← zpow_natCast, ← zpow_natCast, ← zpow_sub₀ two_ne_zero]
    push_cast
    rw [sub_add_eq_add_sub]
  rw [doubled]
  calc (n / d : ℚ) ≤ n / 2 ^ d.log2 := by gcongr
    _ < 2 ^ (n.log2 + 1) / 2 ^ d.log2 := by gcongr

theorem exponent_eq_log {q : ℚ} (nonzero : q ≠ 0) :
    q.exponent = Int.log 2 |q| := by
  have positive : 0 < |q| := abs_pos.mpr nonzero
  have quotient : |q| = (q.num.natAbs : ℚ) / q.den := by
    conv_lhs => rw [← q.num_div_den]
    rw [abs_div, Nat.abs_cast, Nat.cast_natAbs, Int.cast_abs]
  -- The estimate from the two lengths is at most one too large.
  have numerator : q.num.natAbs ≠ 0 := by simpa using nonzero
  have low := zpow_log2_sub_le_div numerator q.den_nz
  have high := div_lt_zpow_log2_sub q.num.natAbs q.den_nz
  rw [← quotient] at low high
  have above : (q.num.natAbs.log2 : ℤ) - q.den.log2 - 1 ≤ Int.log 2 |q| :=
    (Int.zpow_le_iff_le_log one_lt_two positive).mp low
  have below : Int.log 2 |q| < (q.num.natAbs.log2 : ℤ) - q.den.log2 + 1 :=
    (Int.lt_zpow_iff_log_lt one_lt_two positive).mp high
  rw [exponent]
  split_ifs with reached
  · have least : (q.num.natAbs.log2 : ℤ) - q.den.log2 ≤ Int.log 2 |q| :=
      (Int.zpow_le_iff_le_log one_lt_two positive).mp reached
    omega
  · have less : Int.log 2 |q| < (q.num.natAbs.log2 : ℤ) - q.den.log2 :=
      (Int.lt_zpow_iff_log_lt one_lt_two positive).mp (not_le.mp reached)
    omega

theorem zpow_exponent_le {q : ℚ} (positive : 0 < q) :
    (2 : ℚ) ^ q.exponent ≤ q := by
  rw [exponent_eq_log positive.ne', abs_of_pos positive]
  exact Int.zpow_log_le_self one_lt_two positive

theorem exponent_mono {q r : ℚ} (positive : 0 < q) (less : q ≤ r) :
    q.exponent ≤ r.exponent := by
  have greater : 0 < r := positive.trans_le less
  rw [exponent_eq_log positive.ne', exponent_eq_log greater.ne',
    abs_of_pos positive, abs_of_pos greater]
  exact Int.log_mono_right positive less

end Rat

structure FloatFormat where
  /-- The number of bits of a significand. -/
  precision : ℕ
  /-- The smallest positive number is this power of two. -/
  minExponent : ℤ
  /-- The finite numbers stay below this power of two. -/
  maxExponent : ℤ
  precision_pos : 0 < precision

namespace FloatFormat

def binary32 : FloatFormat :=
  { precision := 24
    minExponent := -149
    maxExponent := 128
    precision_pos := by decide }

def binary64 : FloatFormat :=
  { precision := 53
    minExponent := -1074
    maxExponent := 1024
    precision_pos := by decide }

/-- The place of the last bit. -/
def lastPlace (format : FloatFormat) (q : ℚ) : ℤ :=
  max (q.exponent + 1 - format.precision) format.minExponent

/-- The nearest number with the precision of the format, however large. -/
def nearest (format : FloatFormat) (q : ℚ) : ℚ :=
  (q / 2 ^ format.lastPlace q).roundEven * 2 ^ format.lastPlace q

/-- The finite numbers of the format. -/
def Represents (format : FloatFormat) (q : ℚ) : Prop :=
  format.nearest q = q ∧ |q| < 2 ^ format.maxExponent

instance (format : FloatFormat) (q : ℚ) : Decidable (format.Represents q) :=
  inferInstanceAs (Decidable (_ ∧ _))

end FloatFormat

/-! ## Grids -/

/-- A multiple of a power of two with a bounded number of bits. -/
def OnGrid (bits : ℕ) (place : ℤ) (q : ℚ) : Prop :=
  ∃ n : ℤ, |n| ≤ 2 ^ bits ∧ q = n * 2 ^ place

namespace OnGrid

variable {bits otherBits : ℕ} {place otherPlace : ℤ} {q r : ℚ}

theorem zero (bits : ℕ) (place : ℤ) : OnGrid bits place 0 :=
  ⟨0, by simp, by simp⟩

theorem mono (onGrid : OnGrid bits place q) (more : bits ≤ otherBits) :
    OnGrid otherBits place q := by
  obtain ⟨n, bounded, rfl⟩ := onGrid
  exact ⟨n, bounded.trans (pow_le_pow_right₀ one_le_two more), rfl⟩

theorem neg (onGrid : OnGrid bits place q) : OnGrid bits place (-q) := by
  obtain ⟨n, bounded, rfl⟩ := onGrid
  refine ⟨-n, by rwa [abs_neg], ?_⟩
  push_cast
  ring

theorem abs (onGrid : OnGrid bits place q) : OnGrid bits place |q| := by
  rcases abs_choice q with same | negated
  · rwa [same]
  · rw [negated]
    exact onGrid.neg

theorem add (first : OnGrid bits place q) (second : OnGrid bits place r) :
    OnGrid (bits + 1) place (q + r) := by
  obtain ⟨n, nBounded, rfl⟩ := first
  obtain ⟨m, mBounded, rfl⟩ := second
  refine ⟨n + m, ?_, ?_⟩
  · calc |n + m| ≤ |n| + |m| := abs_add_le n m
      _ ≤ 2 ^ bits + 2 ^ bits := add_le_add nBounded mBounded
      _ = 2 ^ (bits + 1) := by ring
  · push_cast
    ring

theorem sub (first : OnGrid bits place q) (second : OnGrid bits place r) :
    OnGrid (bits + 1) place (q - r) := by
  rw [sub_eq_add_neg]
  exact first.add second.neg

theorem mul (first : OnGrid bits place q)
    (second : OnGrid otherBits otherPlace r) :
    OnGrid (bits + otherBits) (place + otherPlace) (q * r) := by
  obtain ⟨n, nBounded, rfl⟩ := first
  obtain ⟨m, mBounded, rfl⟩ := second
  refine ⟨n * m, ?_, ?_⟩
  · rw [abs_mul, pow_add]
    exact mul_le_mul nBounded mBounded (abs_nonneg m) (by positivity)
  · rw [zpow_add₀ two_ne_zero]
    push_cast
    ring

theorem max (first : OnGrid bits place q) (second : OnGrid bits place r) :
    OnGrid bits place (max q r) := by
  rcases max_choice q r with left | right
  · rwa [left]
  · rwa [right]

theorem min (first : OnGrid bits place q) (second : OnGrid bits place r) :
    OnGrid bits place (min q r) := by
  rcases min_choice q r with left | right
  · rwa [left]
  · rwa [right]

theorem abs_le (onGrid : OnGrid bits place q) :
    |q| ≤ 2 ^ (place + bits) := by
  obtain ⟨n, bounded, rfl⟩ := onGrid
  have positive : (0 : ℚ) < 2 ^ place := zpow_pos two_pos _
  have cast : |(n : ℚ)| ≤ 2 ^ bits := by exact_mod_cast bounded
  rw [abs_mul, abs_of_pos positive, zpow_add₀ two_ne_zero, zpow_natCast,
    mul_comm]
  exact mul_le_mul_of_nonneg_left cast positive.le

theorem exists_eq (onGrid : OnGrid bits place q) (finer : otherPlace ≤ place) :
    ∃ n : ℤ, q = n * 2 ^ otherPlace := by
  obtain ⟨n, _, rfl⟩ := onGrid
  obtain ⟨steps, rfl⟩ := Int.le.dest finer
  refine ⟨n * 2 ^ steps, ?_⟩
  rw [zpow_add₀ two_ne_zero, zpow_natCast]
  push_cast
  ring

end OnGrid

/-! ## Rounding -/

namespace FloatFormat

variable (format : FloatFormat) {q r : ℚ}

theorem abs_lt_lastPlace (q : ℚ) :
    |q| < 2 ^ (format.lastPlace q + format.precision) := by
  by_cases zero : q = 0
  · subst zero
    rw [abs_zero]
    exact zpow_pos two_pos _
  · have bounded := Int.lt_zpow_succ_log_self one_lt_two |q|
    rw [← Rat.exponent_eq_log zero] at bounded
    have places : q.exponent + 1 ≤ format.lastPlace q + format.precision := by
      have place := le_max_left (q.exponent + 1 - format.precision)
        format.minExponent
      rw [lastPlace]
      omega
    exact bounded.trans_le (zpow_le_zpow_right₀ one_le_two places)

theorem nearest_eq_of_multiple {n : ℤ}
    (multiple : q = n * 2 ^ format.lastPlace q) : format.nearest q = q := by
  have place : (2 : ℚ) ^ format.lastPlace q ≠ 0 :=
    zpow_ne_zero _ two_ne_zero
  have quotient : q / 2 ^ format.lastPlace q = n := by
    rw [div_eq_iff place]
    exact multiple
  rw [nearest, quotient, Rat.roundEven_intCast]
  exact multiple.symm

/-- Numbers with few enough bits are not rounded. -/
theorem nearest_of_onGrid {place : ℤ} (bounded : format.minExponent ≤ place)
    (onGrid : OnGrid format.precision place q) : format.nearest q = q := by
  by_cases zero : q = 0
  · apply format.nearest_eq_of_multiple (n := 0)
    rw [Int.cast_zero, zero_mul, zero]
  have positive : 0 < |q| := abs_pos.mpr zero
  rcases onGrid.abs_le.lt_or_eq with less | equal
  · have exponent : q.exponent < place + format.precision := by
      rw [Rat.exponent_eq_log zero]
      exact (Int.lt_zpow_iff_log_lt one_lt_two positive).mp less
    have finer : format.lastPlace q ≤ place := by
      rw [lastPlace]
      omega
    obtain ⟨n, multiple⟩ := onGrid.exists_eq finer
    exact format.nearest_eq_of_multiple multiple
  · have exponent : q.exponent = place + format.precision := by
      rw [Rat.exponent_eq_log zero, equal]
      exact Int.log_zpow one_lt_two _
    have some_bit := format.precision_pos
    have next : format.lastPlace q = place + 1 := by
      rw [lastPlace]
      omega
    have power : OnGrid 0 (place + format.precision) q := by
      rcases abs_choice q with same | negated
      · exact ⟨1, by simp, by rw [← equal, same]; simp⟩
      · exact ⟨-1, by simp, by rw [← equal, negated]; simp⟩
    obtain ⟨n, multiple⟩ : ∃ n : ℤ, q = n * 2 ^ (place + 1) :=
      power.exists_eq (by omega)
    apply format.nearest_eq_of_multiple (n := n)
    rw [next]
    exact multiple

theorem onGrid_nearest (q : ℚ) :
    OnGrid format.precision (format.lastPlace q) (format.nearest q) := by
  refine ⟨_, ?_, rfl⟩
  have positive : (0 : ℚ) < 2 ^ format.lastPlace q := zpow_pos two_pos _
  have scaled : |q / 2 ^ format.lastPlace q| ≤
      ((2 ^ format.precision : ℤ) : ℚ) := by
    have bounded := (format.abs_lt_lastPlace q).le
    rw [zpow_add₀ two_ne_zero, zpow_natCast] at bounded
    rw [abs_div, abs_of_pos positive, div_le_iff₀ positive, mul_comm]
    exact_mod_cast bounded
  have bounds := abs_le.mp scaled
  rw [abs_le]
  constructor
  · have low := Rat.roundEven_mono bounds.1
    rwa [Rat.roundEven_neg, Rat.roundEven_intCast] at low
  · have high := Rat.roundEven_mono bounds.2
    rwa [Rat.roundEven_intCast] at high

@[simp] theorem nearest_nearest (q : ℚ) :
    format.nearest (format.nearest q) = format.nearest q :=
  format.nearest_of_onGrid (le_max_right _ _) (format.onGrid_nearest q)

theorem lastPlace_neg (q : ℚ) : format.lastPlace (-q) = format.lastPlace q := by
  rw [lastPlace, lastPlace, Rat.exponent, Rat.exponent, Rat.neg_num,
    Rat.neg_den, Int.natAbs_neg, abs_neg]

theorem nearest_neg (q : ℚ) : format.nearest (-q) = -format.nearest q := by
  rw [nearest, nearest, lastPlace_neg, neg_div, Rat.roundEven_neg]
  push_cast
  ring

/-- The multiples of the last place are not passed by rounding. -/
theorem le_nearest {n : ℤ} (less : n * 2 ^ format.lastPlace q ≤ q) :
    n * 2 ^ format.lastPlace q ≤ format.nearest q := by
  have positive : (0 : ℚ) < 2 ^ format.lastPlace q := zpow_pos two_pos _
  have rounded := Rat.roundEven_mono ((le_div_iff₀ positive).mpr less)
  rw [Rat.roundEven_intCast] at rounded
  exact mul_le_mul_of_nonneg_right (by exact_mod_cast rounded) positive.le

theorem nearest_nonneg (nonneg : 0 ≤ q) : 0 ≤ format.nearest q := by
  have multiple := format.le_nearest (n := 0) (q := q) (by simpa using nonneg)
  simpa using multiple

theorem zpow_exponent_le_nearest (positive : 0 < q)
    (normal : format.lastPlace q = q.exponent + 1 - format.precision) :
    2 ^ q.exponent ≤ format.nearest q := by
  obtain ⟨bits, precision⟩ := Nat.exists_eq_add_of_lt format.precision_pos
  have power : (2 : ℚ) ^ q.exponent =
      ((2 ^ bits : ℤ) : ℚ) * 2 ^ format.lastPlace q := by
    have places : q.exponent = bits + format.lastPlace q := by omega
    rw [places, zpow_add₀ two_ne_zero, zpow_natCast]
    push_cast
    rfl
  have reached := Rat.zpow_exponent_le positive
  rw [power] at reached ⊢
  exact format.le_nearest reached

private theorem nearest_mono_of_pos (positive : 0 < q) (less : q ≤ r) :
    format.nearest q ≤ format.nearest r := by
  have exponents : q.exponent ≤ r.exponent := Rat.exponent_mono positive less
  have places : format.lastPlace q ≤ format.lastPlace r :=
    max_le_max_right _ (by omega)
  rcases places.eq_or_lt with same | coarser
  · have unit : (0 : ℚ) < 2 ^ format.lastPlace r := zpow_pos two_pos _
    have rounded := Rat.roundEven_mono
      (div_le_div_of_nonneg_right less unit.le)
    rw [nearest, nearest, same]
    exact mul_le_mul_of_nonneg_right (by exact_mod_cast rounded) unit.le
  · -- A power of two lies between the numbers, and it is not rounded.
    have normal : format.lastPlace r = r.exponent + 1 - format.precision := by
      rw [lastPlace] at coarser ⊢
      rw [lastPlace] at coarser
      omega
    calc format.nearest q
        ≤ 2 ^ (format.lastPlace q + format.precision) :=
          (le_abs_self _).trans (format.onGrid_nearest q).abs_le
      _ ≤ 2 ^ r.exponent := zpow_le_zpow_right₀ one_le_two (by omega)
      _ ≤ format.nearest r :=
          format.zpow_exponent_le_nearest (positive.trans_le less) normal

theorem nearest_mono : Monotone format.nearest := by
  intro q r less
  rcases lt_trichotomy 0 q with positive | zero | negative
  · exact format.nearest_mono_of_pos positive less
  · subst zero
    have fixed : format.nearest 0 = 0 :=
      format.nearest_of_onGrid le_rfl (OnGrid.zero _ _)
    rw [fixed]
    exact format.nearest_nonneg less
  · rcases lt_or_ge r 0 with alsoNegative | nonneg
    · have mirrored := format.nearest_mono_of_pos (neg_pos.mpr alsoNegative)
        (neg_le_neg less)
      rw [nearest_neg, nearest_neg] at mirrored
      exact neg_le_neg_iff.mp mirrored
    · have below : format.nearest q ≤ 0 := by
        have mirrored := format.nearest_nonneg (neg_nonneg.mpr negative.le)
        rw [nearest_neg] at mirrored
        exact neg_nonneg.mp mirrored
      exact below.trans (format.nearest_nonneg nonneg)

variable {format}

theorem Represents.of_onGrid {bits : ℕ} {place : ℤ}
    (onGrid : OnGrid bits place q) (few : bits ≤ format.precision)
    (bounded : format.minExponent ≤ place)
    (small : place + bits < format.maxExponent) : format.Represents q := by
  constructor
  · exact format.nearest_of_onGrid bounded (onGrid.mono few)
  · exact onGrid.abs_le.trans_lt (zpow_lt_zpow_right₀ one_lt_two small)

end FloatFormat

/-! ## Numbers of a format -/

/-- Not a number, infinite or finite. -/
inductive FloatingPoint (format : FloatFormat) where
  | nan
  | infinity (negative : Bool)
  | finite (value : ℚ) (represented : format.Represents value)

namespace FloatingPoint

variable {format otherFormat : FloatFormat}

def ofRat (q : ℚ) : FloatingPoint format :=
  if fits : |format.nearest q| < 2 ^ format.maxExponent then
    .finite (format.nearest q) ⟨format.nearest_nearest q, fits⟩
  else
    .infinity (q < 0)

def add : FloatingPoint format → FloatingPoint format → FloatingPoint format
  | .finite x _, .finite y _ => ofRat (x + y)
  | .infinity s, .infinity t => if s = t then .infinity s else .nan
  | .infinity s, .finite _ _ => .infinity s
  | .finite _ _, .infinity t => .infinity t
  | .nan, _ => .nan
  | _, .nan => .nan

def sub : FloatingPoint format → FloatingPoint format → FloatingPoint format
  | .finite x _, .finite y _ => ofRat (x - y)
  | .infinity s, .infinity t => if s = t then .nan else .infinity s
  | .infinity s, .finite _ _ => .infinity s
  | .finite _ _, .infinity t => .infinity !t
  | .nan, _ => .nan
  | _, .nan => .nan

def mul : FloatingPoint format → FloatingPoint format → FloatingPoint format
  | .finite x _, .finite y _ => ofRat (x * y)
  | .infinity s, .infinity t => .infinity (s ^^ t)
  | .infinity s, .finite y _ => if y = 0 then .nan else .infinity (s ^^ (y < 0))
  | .finite x _, .infinity t => if x = 0 then .nan else .infinity ((x < 0) ^^ t)
  | .nan, _ => .nan
  | _, .nan => .nan

def div : FloatingPoint format → FloatingPoint format → FloatingPoint format
  | .finite x _, .finite y _ =>
      if y = 0 then if x = 0 then .nan else .infinity (x < 0)
      else ofRat (x / y)
  | .infinity _, .infinity _ => .nan
  | .infinity s, .finite y _ => .infinity (s ^^ (y < 0))
  | .finite _ _, .infinity _ => ofRat 0
  | .nan, _ => .nan
  | _, .nan => .nan

instance : Add (FloatingPoint format) := ⟨add⟩
instance : Sub (FloatingPoint format) := ⟨sub⟩
instance : Mul (FloatingPoint format) := ⟨mul⟩
instance : Div (FloatingPoint format) := ⟨div⟩

/-- `<`. -/
def less : FloatingPoint format → FloatingPoint format → Bool
  | .finite x _, .finite y _ => x < y
  | .infinity s, .infinity t => s && !t
  | .infinity s, .finite _ _ => s
  | .finite _ _, .infinity t => !t
  | .nan, _ => false
  | _, .nan => false

/-- `<=`. -/
def lessEq : FloatingPoint format → FloatingPoint format → Bool
  | .finite x _, .finite y _ => x ≤ y
  | .infinity s, .infinity t => s || !t
  | .infinity s, .finite _ _ => s
  | .finite _ _, .infinity t => !t
  | .nan, _ => false
  | _, .nan => false

/-- `==`. -/
def equal : FloatingPoint format → FloatingPoint format → Bool
  | .finite x _, .finite y _ => x = y
  | .infinity s, .infinity t => s = t
  | _, _ => false

def max (x y : FloatingPoint format) : FloatingPoint format :=
  if lessEq x y then y else x

def min (x y : FloatingPoint format) : FloatingPoint format :=
  if less y x then y else x

/-- The same number in another format, or the nearest one. -/
def convert : FloatingPoint format → FloatingPoint otherFormat
  | .nan => .nan
  | .infinity s => .infinity s
  | .finite x _ => ofRat x

protected theorem add_comm (x y : FloatingPoint format) : x + y = y + x := by
  change add x y = add y x
  cases x with
  | nan => cases y <;> rfl
  | infinity s =>
      cases y with
      | nan => rfl
      | infinity t => cases s <;> cases t <;> rfl
      | finite value represented => rfl
  | finite value represented =>
      cases y with
      | nan => rfl
      | infinity t => rfl
      | finite other alsoRepresented =>
          rw [add, add, add_comm value]

/-! ## Arithmetic without rounding -/

section Exact

variable {q r : ℚ}

theorem ofRat_of_represents (represented : format.Represents q) :
    ofRat q = .finite q represented := by
  have fits : |format.nearest q| < 2 ^ format.maxExponent := by
    rw [represented.1]
    exact represented.2
  rw [ofRat, dif_pos fits]
  congr 1
  exact represented.1

theorem ofRat_add_ofRat (first : format.Represents q)
    (second : format.Represents r) :
    (ofRat q + ofRat r : FloatingPoint format) = ofRat (q + r) := by
  rw [ofRat_of_represents first, ofRat_of_represents second]
  rfl

theorem ofRat_sub_ofRat (first : format.Represents q)
    (second : format.Represents r) :
    (ofRat q - ofRat r : FloatingPoint format) = ofRat (q - r) := by
  rw [ofRat_of_represents first, ofRat_of_represents second]
  rfl

theorem ofRat_mul_ofRat (first : format.Represents q)
    (second : format.Represents r) :
    (ofRat q * ofRat r : FloatingPoint format) = ofRat (q * r) := by
  rw [ofRat_of_represents first, ofRat_of_represents second]
  rfl

theorem ofRat_div_ofRat (first : format.Represents q)
    (second : format.Represents r) (nonzero : r ≠ 0) :
    (ofRat q / ofRat r : FloatingPoint format) = ofRat (q / r) := by
  rw [ofRat_of_represents first, ofRat_of_represents second]
  exact if_neg nonzero

theorem less_ofRat (first : format.Represents q)
    (second : format.Represents r) :
    less (ofRat q : FloatingPoint format) (ofRat r) = decide (q < r) := by
  rw [ofRat_of_represents first, ofRat_of_represents second]
  rfl

theorem lessEq_ofRat (first : format.Represents q)
    (second : format.Represents r) :
    lessEq (ofRat q : FloatingPoint format) (ofRat r) = decide (q ≤ r) := by
  rw [ofRat_of_represents first, ofRat_of_represents second]
  rfl

theorem max_ofRat (first : format.Represents q)
    (second : format.Represents r) :
    max (ofRat q : FloatingPoint format) (ofRat r) = ofRat (Max.max q r) := by
  rw [max, lessEq_ofRat first second]
  by_cases less : q ≤ r
  · rw [if_pos (decide_eq_true less), max_eq_right less]
  · rw [if_neg (by simpa using less), max_eq_left (le_of_not_ge less)]

theorem min_ofRat (first : format.Represents q)
    (second : format.Represents r) :
    min (ofRat q : FloatingPoint format) (ofRat r) = ofRat (Min.min q r) := by
  rw [min, less_ofRat second first]
  by_cases less : r < q
  · rw [if_pos (decide_eq_true less), min_eq_right less.le]
  · rw [if_neg (by simpa using less), min_eq_left (not_lt.mp less)]

end Exact

/-! ## Order -/

/-- How a result is rounded. -/
inductive Rounded (format : FloatFormat) (q : ℚ) :
    FloatingPoint format → Prop where
  | low (below : format.nearest q ≤ -2 ^ format.maxExponent) :
      Rounded format q (.infinity true)
  | finite (represented : format.Represents (format.nearest q)) :
      Rounded format q (.finite (format.nearest q) represented)
  | high (above : 2 ^ format.maxExponent ≤ format.nearest q) :
      Rounded format q (.infinity false)

theorem rounded (q : ℚ) : Rounded format q (ofRat q) := by
  have positive : (0 : ℚ) < 2 ^ format.maxExponent := zpow_pos two_pos _
  rw [ofRat]
  split_ifs with fits
  · exact .finite _
  · by_cases negative : q < 0
    · have below := format.nearest_nonneg (neg_nonneg.mpr negative.le)
      rw [FloatFormat.nearest_neg] at below
      rw [decide_eq_true negative]
      rw [abs_of_nonpos (neg_nonneg.mp below), not_lt] at fits
      exact .low (le_neg.mpr fits)
    · rw [decide_eq_false negative]
      rw [abs_of_nonneg (format.nearest_nonneg (not_lt.mp negative)),
        not_lt] at fits
      exact .high fits

theorem ofRat_ne_nan (q : ℚ) : (ofRat q : FloatingPoint format) ≠ .nan := by
  intro undefined
  have outcome : Rounded format q (ofRat q) := rounded q
  rw [undefined] at outcome
  cases outcome

/-- Where a number lies among the finite and infinite ones. -/
def position : FloatingPoint format → WithBot (WithTop ℚ)
  | .nan | .infinity true => ⊥
  | .infinity false => ((⊤ : WithTop ℚ) : WithBot (WithTop ℚ))
  | .finite x _ => ((x : WithTop ℚ) : WithBot (WithTop ℚ))

section Order

variable {x y : FloatingPoint format}

theorem lessEq_iff (xDefined : x ≠ .nan) (yDefined : y ≠ .nan) :
    lessEq x y = true ↔ position x ≤ position y := by
  cases x with
  | nan => exact absurd rfl xDefined
  | infinity s =>
      cases y with
      | nan => exact absurd rfl yDefined
      | infinity t => cases s <;> cases t <;> simp [lessEq, position]
      | finite value represented => cases s <;> simp [lessEq, position]
  | finite value represented =>
      cases y with
      | nan => exact absurd rfl yDefined
      | infinity t => cases t <;> simp [lessEq, position]
      | finite other alsoRepresented => simp [lessEq, position]

theorem less_iff (xDefined : x ≠ .nan) (yDefined : y ≠ .nan) :
    less x y = true ↔ position x < position y := by
  cases x with
  | nan => exact absurd rfl xDefined
  | infinity s =>
      cases y with
      | nan => exact absurd rfl yDefined
      | infinity t => cases s <;> cases t <;> simp [less, position]
      | finite value represented => cases s <;> simp [less, position]
  | finite value represented =>
      cases y with
      | nan => exact absurd rfl yDefined
      | infinity t =>
          cases t with
          | false =>
              simpa [less, position] using
                WithBot.coe_lt_coe.mpr (WithTop.coe_lt_top value)
          | true => simp [less, position]
      | finite other alsoRepresented => simp [less, position]

theorem position_inj (xDefined : x ≠ .nan) (yDefined : y ≠ .nan) :
    position x = position y ↔ x = y := by
  cases x with
  | nan => exact absurd rfl xDefined
  | infinity s =>
      cases y with
      | nan => exact absurd rfl yDefined
      | infinity t => cases s <;> cases t <;> simp [position]
      | finite value represented => cases s <;> simp [position]
  | finite value represented =>
      cases y with
      | nan => exact absurd rfl yDefined
      | infinity t => cases t <;> simp [position]
      | finite other alsoRepresented => simp [position]

theorem ne_nan_of_lessEq (order : lessEq x y = true) : x ≠ .nan ∧ y ≠ .nan := by
  constructor
  · rintro rfl
    cases order
  · rintro rfl
    cases x <;> cases order

theorem less_eq_false (order : lessEq x y = true) : less y x = false := by
  obtain ⟨xDefined, yDefined⟩ := ne_nan_of_lessEq order
  rw [Bool.eq_false_iff, ne_eq, less_iff yDefined xDefined, not_lt]
  exact (lessEq_iff xDefined yDefined).mp order

theorem max_comm (xDefined : x ≠ .nan) (yDefined : y ≠ .nan) :
    max x y = max y x := by
  rw [max, max]
  simp only [lessEq_iff xDefined yDefined, lessEq_iff yDefined xDefined]
  rcases lt_trichotomy (position x) (position y) with less | equal | greater
  · rw [if_pos less.le, if_neg (not_le.mpr less)]
  · rw [if_pos equal.le, if_pos equal.ge,
      (position_inj xDefined yDefined).mp equal]
  · rw [if_neg (not_le.mpr greater), if_pos greater.le]

theorem min_comm (xDefined : x ≠ .nan) (yDefined : y ≠ .nan) :
    min x y = min y x := by
  rw [min, min]
  simp only [less_iff xDefined yDefined, less_iff yDefined xDefined]
  rcases lt_trichotomy (position x) (position y) with less | equal | greater
  · rw [if_neg less.not_gt, if_pos less]
  · rw [if_neg equal.not_lt, if_neg equal.not_gt,
      (position_inj xDefined yDefined).mp equal]
  · rw [if_pos greater, if_neg greater.not_gt]

end Order

/-- Rounding keeps the order. -/
theorem lessEq_ofRat_of_le {q r : ℚ} (less : q ≤ r) :
    lessEq (ofRat q : FloatingPoint format) (ofRat r) = true := by
  have order := format.nearest_mono less
  have positive : (0 : ℚ) < 2 ^ format.maxExponent := zpow_pos two_pos _
  have first : Rounded format q (ofRat q) := rounded q
  have second : Rounded format r (ofRat r) := rounded r
  generalize (ofRat q : FloatingPoint format) = x at first ⊢
  generalize (ofRat r : FloatingPoint format) = y at second ⊢
  cases first with
  | low below => cases second <;> rfl
  | finite represented =>
      cases second with
      | low below =>
          have bounds := abs_lt.mp represented.2
          linarith
      | finite other => exact decide_eq_true order
      | high above => rfl
  | high above =>
      cases second with
      | low below => linarith
      | finite other =>
          have bounds := abs_lt.mp other.2
          linarith
      | high other => rfl

private theorem lessEq_infinity {x : FloatingPoint format} (defined : x ≠ .nan) :
    lessEq x (.infinity false) = true ∧ lessEq (.infinity true) x = true := by
  cases x with
  | nan => exact absurd rfl defined
  | infinity s => cases s <;> exact ⟨rfl, rfl⟩
  | finite value represented => exact ⟨rfl, rfl⟩

theorem lessEq_convert {x y : FloatingPoint format}
    (order : lessEq x y = true) :
    lessEq (convert x : FloatingPoint otherFormat) (convert y) = true := by
  cases x with
  | nan => cases order
  | infinity s =>
      cases y with
      | nan => cases order
      | infinity t => exact order
      | finite value represented =>
          cases s with
          | false => cases order
          | true => exact (lessEq_infinity (ofRat_ne_nan value)).2
  | finite value represented =>
      cases y with
      | nan => cases order
      | infinity t =>
          cases t with
          | false => exact (lessEq_infinity (ofRat_ne_nan value)).1
          | true => cases order
      | finite other alsoRepresented =>
          exact lessEq_ofRat_of_le (of_decide_eq_true order)

end FloatingPoint
