import HigeMaster.Geometry.Rect
import Mathlib.Tactic.FieldSimp
import Mathlib.Tactic.Positivity

/-!
# The eight ways a picture can be stored

A picture can be stored rotated by quarter turns and mirrored.  An orientation
names how the stored raster has to be turned to show the picture.  On points
it acts as a symmetry of the unit square, whose origin is the top left corner;
on pixels it acts as a reindexing of the raster.  The two actions agree on the
centres of the pixels.
-/

namespace Geometry

inductive Orientation where
  | up
  | down
  | left
  | right
  | upMirrored
  | downMirrored
  | leftMirrored
  | rightMirrored
  deriving DecidableEq

namespace Orientation

/-- The size of the stored raster of a picture of the given size, and the size
of the picture that a stored raster of the given size shows. -/
def turnedSize {α : Type*} (orientation : Orientation) (width height : α) :
    α × α :=
  match orientation with
  | .up | .down | .upMirrored | .downMirrored => (width, height)
  | .left | .right | .leftMirrored | .rightMirrored => (height, width)

@[simp] theorem turnedSize_turnedSize {α : Type*} (orientation : Orientation)
    (width height : α) :
    orientation.turnedSize (orientation.turnedSize width height).1
        (orientation.turnedSize width height).2 = (width, height) := by
  cases orientation <;> rfl

section Point

variable {K : Type*} [Field K]

/-- Where a point of the shown picture lies in the stored one, both in the
unit square. -/
def stored : Orientation → Point K → Point K
  | .up, p => p
  | .down, p => { x := 1 - p.x, y := 1 - p.y }
  | .left, p => { x := 1 - p.y, y := p.x }
  | .right, p => { x := p.y, y := 1 - p.x }
  | .upMirrored, p => { x := 1 - p.x, y := p.y }
  | .downMirrored, p => { x := p.x, y := 1 - p.y }
  | .leftMirrored, p => { x := p.y, y := p.x }
  | .rightMirrored, p => { x := 1 - p.y, y := 1 - p.x }

/-- The points of the unit square that storing leaves in place. -/
def Fixes : Orientation → Point K → Prop
  | .up, _ => True
  | .down, p | .left, p | .right, p => p.x = half 1 ∧ p.y = half 1
  | .upMirrored, p => p.x = half 1
  | .downMirrored, p => p.y = half 1
  | .leftMirrored, p => p.x = p.y
  | .rightMirrored, p => p.x + p.y = 1

variable [CharZero K]

private theorem reflected_iff {value : K} :
    1 - value = value ↔ value = half 1 := by
  rw [half]
  constructor
  · intro equality
    have doubled : 1 = value * 2 := by
      rw [mul_two]
      exact sub_eq_iff_eq_add.mp equality
    have two : (2 : K) ≠ 0 := by norm_num
    exact (eq_div_iff two).mpr doubled.symm
  · intro equality
    rw [equality]
    norm_num

private theorem quarterTurn_iff {x y : K} :
    1 - y = x ∧ x = y ↔ x = half 1 ∧ y = half 1 := by
  constructor
  · intro given
    rcases given with ⟨turned, same⟩
    subst same
    have middle := reflected_iff.mp turned
    exact ⟨middle, middle⟩
  · intro given
    rcases given with ⟨rfl, rfl⟩
    exact ⟨reflected_iff.mpr rfl, rfl⟩

theorem stored_eq_self_iff (orientation : Orientation) (p : Point K) :
    orientation.stored p = p ↔ orientation.Fixes p := by
  rw [Point.ext_iff]
  cases orientation with
  | up => simp [stored, Fixes]
  | down =>
      simp only [stored, Fixes]
      rw [reflected_iff, reflected_iff]
  | left =>
      simp only [stored, Fixes]
      exact quarterTurn_iff
  | right =>
      simp only [stored, Fixes]
      rw [and_comm, eq_comm (a := p.y), and_comm (a := p.x = half 1)]
      rw [← quarterTurn_iff, eq_comm (a := p.x)]
  | upMirrored =>
      simp only [stored, Fixes, and_true]
      exact reflected_iff
  | downMirrored =>
      simp only [stored, Fixes, true_and]
      exact reflected_iff
  | leftMirrored =>
      simp only [stored, Fixes]
      constructor
      · intro given
        rcases given with ⟨_, same⟩
        exact same
      · intro same
        exact ⟨same.symm, same⟩
  | rightMirrored =>
      simp only [stored, Fixes]
      constructor
      · intro given
        rcases given with ⟨left, _⟩
        rw [← left]
        ring
      · intro total
        rw [← total]
        constructor <;> ring

end Point

/-! ## Pixels -/

/-- Which pixel of the stored raster shows the pixel `x, y` of a picture of
the given size. -/
def storedPixel (orientation : Orientation) (width height x y : ℕ) : ℕ × ℕ :=
  match orientation with
  | .up => (x, y)
  | .down => (width - 1 - x, height - 1 - y)
  | .left => (height - 1 - y, x)
  | .right => (y, width - 1 - x)
  | .upMirrored => (width - 1 - x, y)
  | .downMirrored => (x, height - 1 - y)
  | .leftMirrored => (y, x)
  | .rightMirrored => (height - 1 - y, width - 1 - x)

/-- Which pixel of a picture of the given size the pixel `x, y` of its stored
raster shows. -/
def shownPixel (orientation : Orientation) (width height x y : ℕ) : ℕ × ℕ :=
  match orientation with
  | .up => (x, y)
  | .down => (width - 1 - x, height - 1 - y)
  | .left => (y, height - 1 - x)
  | .right => (width - 1 - y, x)
  | .upMirrored => (width - 1 - x, y)
  | .downMirrored => (x, height - 1 - y)
  | .leftMirrored => (y, x)
  | .rightMirrored => (width - 1 - y, height - 1 - x)

theorem shownPixel_storedPixel (orientation : Orientation)
    {width height x y : ℕ} (inWidth : x < width) (inHeight : y < height) :
    orientation.shownPixel width height
        (orientation.storedPixel width height x y).1
        (orientation.storedPixel width height x y).2 = (x, y) := by
  cases orientation <;>
    simp only [shownPixel, storedPixel, Prod.mk.injEq, true_and, and_true] <;>
    omega

theorem storedPixel_lt (orientation : Orientation)
    {width height x y : ℕ} (inWidth : x < width) (inHeight : y < height) :
    (orientation.storedPixel width height x y).1 <
        (orientation.turnedSize width height).1 ∧
      (orientation.storedPixel width height x y).2 <
        (orientation.turnedSize width height).2 := by
  cases orientation <;>
    simp only [storedPixel, turnedSize] <;> omega

/-- The centre of a pixel, in the unit square. -/
def pixelCentre (K : Type*) [Field K] (size pixel : ℕ × ℕ) : Point K :=
  { x := (pixel.1 + half 1) / size.1
    y := (pixel.2 + half 1) / size.2 }

private theorem reflected_centre {K : Type*} [Field K] [CharZero K]
    {index count : ℕ} (inRange : index < count) :
    1 - ((index : K) + half 1) / count =
      ((count - 1 - index : ℕ) + half 1) / count := by
  obtain ⟨rest, rfl⟩ := Nat.exists_eq_add_of_lt inRange
  have positive : ((index + rest + 1 : ℕ) : K) ≠ 0 :=
    Nat.cast_ne_zero.mpr (Nat.succ_ne_zero _)
  have mirrored : index + rest + 1 - 1 - index = rest := by omega
  rw [mirrored, eq_div_iff positive, sub_mul, div_mul_cancel₀ _ positive]
  push_cast
  rw [half]
  ring

/-- The action on points and the action on pixels agree. -/
theorem stored_pixelCentre {K : Type*} [Field K] [CharZero K]
    (orientation : Orientation) {width height x y : ℕ}
    (inWidth : x < width) (inHeight : y < height) :
    orientation.stored (pixelCentre K (width, height) (x, y)) =
      pixelCentre K (orientation.turnedSize width height)
        (orientation.storedPixel width height x y) := by
  cases orientation <;>
    simp only [stored, pixelCentre, turnedSize, storedPixel,
      reflected_centre inWidth, reflected_centre inHeight]

end Orientation

end Geometry
