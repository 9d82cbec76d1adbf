import Mathlib.Algebra.Order.Field.Basic
import Mathlib.Algebra.Order.Floor.Ring
import Mathlib.Tactic.Abel
import Mathlib.Tactic.Linarith
import Mathlib.Tactic.Ring

/-!
# Points, sizes and rectangles of a drawing plane

The plane has its origin at the top left.  A rectangle stores an origin and a
signed size; only the accessors `width`, `height`, `minX` and so on hide the
signs.  Coordinates range over an arbitrary ordered field, so all arithmetic
is exact.
-/

namespace Geometry

/-- Half of a length. -/
def half {K : Type*} [Field K] (length : K) : K :=
  length / 2

@[ext] structure Point (K : Type*) where
  x : K
  y : K
  deriving DecidableEq

@[ext] structure Size (K : Type*) where
  width : K
  height : K
  deriving DecidableEq

@[ext] structure Rect (K : Type*) where
  origin : Point K
  size : Size K
  deriving DecidableEq

namespace Point

variable {K : Type*}

section AddCommGroup

variable [AddCommGroup K]

instance : Zero (Point K) := ⟨⟨0, 0⟩⟩
instance : Add (Point K) := ⟨fun p q => ⟨p.x + q.x, p.y + q.y⟩⟩
instance : Neg (Point K) := ⟨fun p => ⟨-p.x, -p.y⟩⟩
instance : Sub (Point K) := ⟨fun p q => ⟨p.x - q.x, p.y - q.y⟩⟩

@[simp] theorem zero_x : (0 : Point K).x = 0 := rfl
@[simp] theorem zero_y : (0 : Point K).y = 0 := rfl
@[simp] theorem add_x (p q : Point K) : (p + q).x = p.x + q.x := rfl
@[simp] theorem add_y (p q : Point K) : (p + q).y = p.y + q.y := rfl
@[simp] theorem neg_x (p : Point K) : (-p).x = -p.x := rfl
@[simp] theorem neg_y (p : Point K) : (-p).y = -p.y := rfl
@[simp] theorem sub_x (p q : Point K) : (p - q).x = p.x - q.x := rfl
@[simp] theorem sub_y (p q : Point K) : (p - q).y = p.y - q.y := rfl

/-- Points double as displacements, which add up coordinatewise. -/
instance : AddCommGroup (Point K) where
  add_assoc p q r := by ext <;> simp [add_assoc]
  zero_add p := by ext <;> simp
  add_zero p := by ext <;> simp
  nsmul := nsmulRec
  zsmul := zsmulRec
  neg_add_cancel p := by ext <;> simp
  add_comm p q := by ext <;> simp [add_comm]
  sub_eq_add_neg p q := by ext <;> simp [sub_eq_add_neg]

end AddCommGroup

end Point

namespace Rect

section Translation

variable {K : Type*} [AddCommGroup K]

/-- The rectangle moved by a displacement. -/
def translate (rect : Rect K) (displacement : Point K) : Rect K :=
  { rect with origin := rect.origin + displacement }

@[simp] theorem translate_size (rect : Rect K) (displacement : Point K) :
    (rect.translate displacement).size = rect.size :=
  rfl

@[simp] theorem translate_origin (rect : Rect K) (displacement : Point K) :
    (rect.translate displacement).origin = rect.origin + displacement :=
  rfl

@[simp] theorem translate_zero (rect : Rect K) : rect.translate 0 = rect := by
  simp [translate]

theorem translate_translate (rect : Rect K) (first second : Point K) :
    (rect.translate first).translate second =
      rect.translate (first + second) := by
  simp [translate, add_assoc]

theorem translate_eq_self_iff {rect : Rect K} {displacement : Point K} :
    rect.translate displacement = rect ↔ displacement = 0 := by
  constructor
  · intro equality
    have origin := congrArg Rect.origin equality
    simpa using origin
  · intro same
    subst same
    exact translate_zero rect

end Translation

section Accessors

variable {K : Type*} [Field K] [LinearOrder K]

/-- The width without its sign. -/
def width (rect : Rect K) : K :=
  |rect.size.width|

/-- The height without its sign. -/
def height (rect : Rect K) : K :=
  |rect.size.height|

def minX (rect : Rect K) : K :=
  min rect.origin.x (rect.origin.x + rect.size.width)

def maxX (rect : Rect K) : K :=
  max rect.origin.x (rect.origin.x + rect.size.width)

def minY (rect : Rect K) : K :=
  min rect.origin.y (rect.origin.y + rect.size.height)

def maxY (rect : Rect K) : K :=
  max rect.origin.y (rect.origin.y + rect.size.height)

/-- The middle of the rectangle. -/
def mid (rect : Rect K) : Point K :=
  { x := rect.origin.x + half rect.size.width
    y := rect.origin.y + half rect.size.height }

/-- Half-open membership: the left and top edges belong to the rectangle, the
right and bottom edges do not. -/
def contains (rect : Rect K) (point : Point K) : Bool :=
  rect.minX ≤ point.x ∧ point.x < rect.maxX ∧
    rect.minY ≤ point.y ∧ point.y < rect.maxY

theorem contains_iff {rect : Rect K} {point : Point K} :
    rect.contains point = true ↔
      (rect.minX ≤ point.x ∧ point.x < rect.maxX) ∧
        rect.minY ≤ point.y ∧ point.y < rect.maxY := by
  simp [contains, and_assoc]

theorem not_contains_of_width_eq_zero {rect : Rect K}
    (empty : rect.size.width = 0) (point : Point K) :
    rect.contains point = false := by
  rw [← Bool.not_eq_true, contains_iff]
  intro given
  rcases given with ⟨⟨left, right⟩, _⟩
  simp only [minX, maxX, empty, add_zero, min_self, max_self] at left right
  exact absurd right (not_lt.mpr left)

theorem contains_translate [IsStrictOrderedRing K] (rect : Rect K)
    (displacement point : Point K) :
    (rect.translate displacement).contains (point + displacement) =
      rect.contains point := by
  rw [Bool.eq_iff_iff, contains_iff, contains_iff]
  simp only [minX, maxX, minY, maxY, translate_origin, translate_size,
    Point.add_x, Point.add_y, add_right_comm _ _ rect.size.width,
    add_right_comm _ _ rect.size.height, min_add_add_right,
    max_add_add_right, add_le_add_iff_right, add_lt_add_iff_right]

end Accessors

end Rect

end Geometry
