import HigeMaster.Geometry.Transform

/-!
# Views that are scaled about their centre

A view stores its bounds, the position of its centre in the coordinates of
the view around it, and a transform about that centre.  The frame is not
stored: reading it computes the box of the transformed bounds, and assigning
it moves the centre and resizes the bounds.  Assigning is only defined for a
uniform scale that can be inverted.
-/

namespace Geometry

@[ext] structure View (K : Type*) where
  bounds : Rect K
  center : Point K
  transform : AffineTransform K
  deriving DecidableEq

namespace View

variable {K : Type*} [Field K] [LinearOrder K]

/-- The box around a rectangle of size `size` after the linear part of a
transform. -/
def transformedSize (size : Size K) (transform : AffineTransform K) : Size K :=
  { width := |transform.a| * |size.width| + |transform.c| * |size.height|
    height := |transform.b| * |size.width| + |transform.d| * |size.height| }

/-- The box of the transformed bounds, about the centre. -/
def frame (view : View K) : Rect K :=
  let size := transformedSize view.bounds.size view.transform
  { origin :=
      { x := view.center.x + view.transform.tx - half size.width
        y := view.center.y + view.transform.ty - half size.height }
    size := size }

/-- Assign the frame; `none` where assigning it is undefined. -/
def setFrame (view : View K) (rect : Rect K) : Option (View K) :=
  if view.transform.IsInvertibleScale then
    some
      { view with
        center := rect.mid
        bounds :=
          { view.bounds with
            size :=
              { width := rect.width / |view.transform.a|
                height := rect.height / |view.transform.a| } } }
  else
    none

/-- A new view with the given frame and no transform. -/
def ofFrame (rect : Rect K) : View K :=
  { bounds := { origin := 0, size := rect.size }
    center := rect.mid
    transform := .identity }

section Ordered

variable [IsStrictOrderedRing K]

theorem frame_of_uniform {view : View K} {factor : K}
    (uniform : view.transform = .uniform factor) :
    view.frame =
      { origin :=
          { x := view.center.x - half (|factor| * |view.bounds.size.width|)
            y := view.center.y - half (|factor| * |view.bounds.size.height|) }
        size :=
          { width := |factor| * |view.bounds.size.width|
            height := |factor| * |view.bounds.size.height| } } := by
  simp [frame, transformedSize, uniform, AffineTransform.uniform,
    AffineTransform.scale]

theorem not_frame_contains_of_scale_zero {view : View K}
    (collapsed : view.transform = .uniform 0) (point : Point K) :
    view.frame.contains point = false := by
  apply Rect.not_contains_of_width_eq_zero
  simp [frame_of_uniform collapsed]

/-- Moving the frame of a uniformly scaled view moves its centre and leaves
its bounds and its transform alone. -/
theorem setFrame_translate {view : View K} {factor : K}
    (uniform : view.transform = .uniform factor) (invertible : factor ≠ 0)
    (width : 0 ≤ view.bounds.size.width)
    (height : 0 ≤ view.bounds.size.height) (displacement : Point K) :
    view.setFrame (view.frame.translate displacement) =
      some { view with center := view.center + displacement } := by
  have assignable : view.transform.IsInvertibleScale := by
    rw [uniform]
    exact AffineTransform.isInvertibleScale_uniform.mpr invertible
  have positive : |factor| ≠ 0 := abs_ne_zero.mpr invertible
  have scaleA : view.transform.a = factor := by
    rw [uniform, AffineTransform.uniform_a]
  rw [setFrame, if_pos assignable, frame_of_uniform uniform]
  refine congrArg some (View.ext ?_ ?_ rfl)
  · simp only [Rect.width, Rect.height, Rect.translate_size, abs_mul, abs_abs,
      scaleA, mul_div_cancel_left₀ _ positive, abs_of_nonneg width,
      abs_of_nonneg height]
  · ext
    · simp only [Rect.mid, Rect.translate_origin, Rect.translate_size,
        Point.add_x, half]
      ring
    · simp only [Rect.mid, Rect.translate_origin, Rect.translate_size,
        Point.add_y, half]
      ring

theorem frame_setFrame {view moved : View K} {rect : Rect K}
    (width : 0 ≤ rect.size.width) (height : 0 ≤ rect.size.height)
    (assigned : view.setFrame rect = some moved) : moved.frame = rect := by
  unfold setFrame at assigned
  by_cases assignable : view.transform.IsInvertibleScale
  · rw [if_pos assignable, Option.some.injEq] at assigned
    obtain ⟨uniform, invertible⟩ := assignable
    have positive : |view.transform.a| ≠ 0 := abs_ne_zero.mpr invertible
    have unchanged : moved.transform = .uniform view.transform.a := by
      rw [← assigned]
      exact uniform
    rw [frame_of_uniform unchanged]
    subst assigned
    simp only [Rect.width, Rect.height, abs_div, abs_abs,
      mul_div_cancel₀ _ positive, abs_of_nonneg width, abs_of_nonneg height]
    ext
    · simp [Rect.mid]
    · simp [Rect.mid]
    · rfl
    · rfl
  · rw [if_neg assignable] at assigned
    cases assigned

end Ordered

end View

end Geometry
