import HigeMaster.Geometry.Rect

/-!
# Dragging rectangles along a path

A finger moves along a path, and a rectangle follows every step that starts
inside it.  Once inside, the finger stays inside, so the rectangle ends where
the rest of the path takes it; a rectangle that no step starts in stays where
it is.
-/

namespace Geometry

namespace Rect

variable {K : Type*} [Field K] [LinearOrder K]

/-- The rectangle after one step of the finger. -/
def dragged (rect : Rect K) (previous location : Point K) : Rect K :=
  if rect.contains previous then
    rect.translate (location - previous)
  else
    rect

/-- The rectangle after the finger went from `start` through the points of
`path`. -/
def draggedAlong (rect : Rect K) : Point K → List (Point K) → Rect K
  | _, [] => rect
  | start, next :: path => (rect.dragged start next).draggedAlong next path

/-- The first point inside the rectangle from which the finger steps on. -/
def grabbedAt (rect : Rect K) (start : Point K) (path : List (Point K)) :
    Option (Point K) :=
  (start :: path).dropLast.find? rect.contains

@[simp] theorem draggedAlong_nil (rect : Rect K) (start : Point K) :
    rect.draggedAlong start [] = rect :=
  rfl

@[simp] theorem draggedAlong_cons (rect : Rect K) (start next : Point K)
    (path : List (Point K)) :
    rect.draggedAlong start (next :: path) =
      (rect.dragged start next).draggedAlong next path :=
  rfl

theorem dragged_of_contains {rect : Rect K} {previous : Point K}
    (inside : rect.contains previous = true) (location : Point K) :
    rect.dragged previous location = rect.translate (location - previous) := by
  rw [dragged, if_pos inside]

theorem dragged_of_not_contains {rect : Rect K} {previous : Point K}
    (outside : rect.contains previous = false) (location : Point K) :
    rect.dragged previous location = rect := by
  rw [dragged, outside]
  rfl

theorem grabbedAt_cons (rect : Rect K) (start next : Point K)
    (path : List (Point K)) :
    rect.grabbedAt start (next :: path) =
      if rect.contains start then some start
      else rect.grabbedAt next path := by
  rw [grabbedAt, List.dropLast_cons_of_ne_nil (List.cons_ne_nil next path),
    List.find?_cons]
  cases rect.contains start <;> rfl

section Ordered

variable [IsStrictOrderedRing K]

theorem contains_dragged {rect : Rect K} {previous : Point K}
    (inside : rect.contains previous = true) (location : Point K) :
    (rect.dragged previous location).contains location = true := by
  have moved : previous + (location - previous) = location :=
    add_sub_cancel previous location
  rw [dragged_of_contains inside, ← inside,
    ← rect.contains_translate (location - previous) previous, moved]

theorem draggedAlong_of_contains {rect : Rect K} {start : Point K}
    (inside : rect.contains start = true) (path : List (Point K)) :
    rect.draggedAlong start path =
      rect.translate (path.getLastD start - start) := by
  induction path generalizing rect start with
  | nil => simp
  | cons next path induction =>
      have followed := contains_dragged inside next
      rw [draggedAlong_cons, induction followed, dragged_of_contains inside,
        translate_translate, List.getLastD_cons]
      have total : next - start + (path.getLastD next - next) =
          path.getLastD next - start := by
        abel
      rw [total]

/-- A rectangle that the path starts in never loses the finger. -/
theorem contains_draggedAlong {rect : Rect K} {start : Point K}
    (inside : rect.contains start = true) (path : List (Point K)) :
    (rect.draggedAlong start path).contains (path.getLastD start) = true := by
  induction path generalizing rect start with
  | nil => exact inside
  | cons next path induction =>
      rw [draggedAlong_cons, List.getLastD_cons]
      exact induction (contains_dragged inside next)

/-- Where a path leaves a rectangle depends only on the point at which the
finger entered it and the point at which the path ends. -/
theorem draggedAlong_eq (rect : Rect K) (start : Point K)
    (path : List (Point K)) :
    rect.draggedAlong start path =
      match rect.grabbedAt start path with
      | some grabbed => rect.translate (path.getLastD start - grabbed)
      | none => rect := by
  induction path generalizing start with
  | nil => rfl
  | cons next path induction =>
      rw [grabbedAt_cons]
      cases inside : rect.contains start with
      | true =>
          simp only [if_true]
          exact draggedAlong_of_contains inside (next :: path)
      | false =>
          rw [draggedAlong_cons, dragged_of_not_contains inside,
            List.getLastD_cons]
          exact induction next

theorem draggedAlong_ne_self_iff {rect : Rect K} {start : Point K}
    {path : List (Point K)} :
    rect.draggedAlong start path ≠ rect ↔
      ∃ grabbed, rect.grabbedAt start path = some grabbed ∧
        grabbed ≠ path.getLastD start := by
  rw [draggedAlong_eq]
  cases rect.grabbedAt start path with
  | none => simp
  | some grabbed =>
      simp only [ne_eq, translate_eq_self_iff, sub_eq_zero,
        Option.some.injEq, exists_eq_left']
      rw [eq_comm]

end Ordered

end Rect

end Geometry
