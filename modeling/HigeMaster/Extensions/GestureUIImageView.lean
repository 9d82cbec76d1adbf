import HigeMaster.UIKit.Gestures

/-!
# An image view that follows gestures

`GestureUIImageView` is panned and pinched with two fingers and put back with
a tap.  It remembers how far it has been moved and how much it has been
enlarged; while a gesture changes, it computes its transform from what it
remembers and what the gesture has measured.
-/

namespace HigeMaster

open Geometry

structure GestureUIImageView extends UIImageView where
  gestureEnabled : Bool
  beforePoint : CGPoint
  currentScale : CGFloat

namespace GestureUIImageView

/-- `init(frame:)`. -/
def ofFrame (rect : CGRect) : GestureUIImageView :=
  { UIImageView.ofFrame rect with
    isUserInteractionEnabled := true
    gestureEnabled := true
    beforePoint := { x := 0, y := 0 }
    currentScale := 1 }

/-- The translation of a pan, to which the earlier pans are added unless they
cancel out. -/
def panTranslation (view : GestureUIImageView) (translation : CGPoint) :
    CGPoint :=
  if |view.beforePoint.x| > 0 ∨ |view.beforePoint.y| > 0 then
    { x := view.beforePoint.x + translation.x
      y := view.beforePoint.y + translation.y }
  else
    translation

def pan (view : GestureUIImageView) (gesture : UIPanGestureRecognizer) :
    GestureUIImageView :=
  if view.gestureEnabled then
    match gesture.translationInView with
    | none => view
    | some measured =>
        let translation := view.panTranslation measured
        match gesture.state with
        | .changed =>
            let scaleTransform :=
              AffineTransform.scale view.currentScale view.currentScale
            let translationTransform :=
              AffineTransform.translation translation.x translation.y
            { view with
              transform := scaleTransform.concatenating translationTransform }
        | .ended | .cancelled => { view with beforePoint := translation }
        | .possible | .began | .failed => view
  else
    view

def tap (view : GestureUIImageView) (_ : UITapGestureRecognizer) :
    GestureUIImageView :=
  if view.gestureEnabled then
    { view with
      beforePoint := { x := 0, y := 0 }
      currentScale := 1
      transform := .identity }
  else
    view

/-- The scale of a pinch, to which an earlier enlargement is added. -/
def pinchScale (view : GestureUIImageView) (scale : CGFloat) : CGFloat :=
  if view.currentScale > 1 then view.currentScale + (scale - 1) else scale

def pinch (view : GestureUIImageView) (gesture : UIPinchGestureRecognizer) :
    GestureUIImageView :=
  if view.gestureEnabled then
    let scale := view.pinchScale gesture.scale
    match gesture.state with
    | .changed =>
        let scaleTransform := AffineTransform.scale scale scale
        let transitionTransform :=
          AffineTransform.translation view.beforePoint.x view.beforePoint.y
        { view with
          transform := scaleTransform.concatenating transitionTransform }
    | .ended | .cancelled =>
        if scale ≤ 1 then
          { view with currentScale := 1, transform := .identity }
        else
          { view with currentScale := scale }
    | .possible | .began | .failed => view
  else
    view

def handleGesture (view : GestureUIImageView) :
    UIGestureRecognizer → GestureUIImageView
  | .tap gesture => view.tap gesture
  | .pinch gesture => view.pinch gesture
  | .pan gesture => view.pan gesture
  | .longPress _ => view

/-- The view after a complete gesture. -/
def perform (view : GestureUIImageView) (gesture : Gesture) :
    GestureUIImageView :=
  gesture.calls.foldl handleGesture view

/-! ## What a complete gesture does -/

/-- The view with another transform. -/
def transformed (view : GestureUIImageView)
    (transform : AffineTransform CGFloat) : GestureUIImageView :=
  { view with transform := transform }

/-- Adding the earlier pans only if they do not cancel out makes no
difference. -/
theorem panTranslation_eq (view : GestureUIImageView) (measured : CGPoint) :
    view.panTranslation measured = view.beforePoint + measured := by
  unfold panTranslation
  by_cases moved : |view.beforePoint.x| > 0 ∨ |view.beforePoint.y| > 0
  · rw [if_pos moved]
    rfl
  · rw [if_neg moved]
    simp only [gt_iff_lt, abs_pos, not_or, not_not] at moved
    obtain ⟨x, y⟩ := moved
    ext
    · simp [x]
    · simp [y]

theorem pinchScale_eq {view : GestureUIImageView}
    (enlarged : 1 ≤ view.currentScale) (scale : CGFloat) :
    view.pinchScale scale = view.currentScale + (scale - 1) := by
  unfold pinchScale
  by_cases larger : view.currentScale > 1
  · rw [if_pos larger]
  · have natural : view.currentScale = 1 :=
      le_antisymm (not_lt.mp larger) enlarged
    rw [if_neg larger, natural]
    ring

/-- If only the transform follows the changes of a gesture, and it does not
depend on the transform before, then the gesture ends where its last change
has put the view. -/
private theorem foldl_course {α : Type} {view : GestureUIImageView}
    {call : UIGestureRecognizerState × α → UIGestureRecognizer}
    {target : α → AffineTransform CGFloat}
    (begins : ∀ measured, view.handleGesture (call (.began, measured)) = view)
    (follows : ∀ current measured,
      (view.transformed current).handleGesture (call (.changed, measured)) =
        view.transformed (target measured))
    (course : Course α) :
    (course.calls.map call).foldl handleGesture view =
      (view.transformed (target course.last)).handleGesture
        (call (course.ending.state, course.last)) := by
  have changes (steps : List α) (current : AffineTransform CGFloat) :
      (((steps ++ [course.last]).map fun measured =>
            (UIGestureRecognizerState.changed, measured)).map call).foldl
          handleGesture (view.transformed current) =
        view.transformed (target course.last) := by
    induction steps generalizing current with
    | nil => exact follows current course.last
    | cons measured steps induction =>
        rw [List.cons_append, List.map_cons, List.map_cons, List.foldl_cons,
          follows]
        exact induction (target measured)
  rw [Course.calls, List.cons_append, List.map_cons, List.foldl_cons, begins,
    List.map_append, List.foldl_append]
  exact congrArg
    (handleGesture · (call (course.ending.state, course.last)))
    (changes course.steps view.transform)

section Enabled

variable {view : GestureUIImageView}

theorem pan_changed (enabled : view.gestureEnabled = true)
    (measured : CGPoint) :
    view.handleGesture (Gesture.panCall (.changed, measured)) =
      view.transformed
        (.placing view.currentScale (view.beforePoint + measured)) := by
  rw [Gesture.panCall, handleGesture, pan, if_pos enabled]
  simp only [panTranslation_eq]
  rfl

theorem pan_finished (enabled : view.gestureEnabled = true)
    (ending : GestureEnding) (measured : CGPoint) :
    view.handleGesture (Gesture.panCall (ending.state, measured)) =
      { view with beforePoint := view.beforePoint + measured } := by
  rw [Gesture.panCall, handleGesture, pan, if_pos enabled]
  simp only [panTranslation_eq]
  cases ending <;> rfl

theorem pinch_changed (enabled : view.gestureEnabled = true)
    (scale : CGFloat) :
    view.handleGesture (Gesture.pinchCall (.changed, scale)) =
      view.transformed
        (.placing (view.pinchScale scale) view.beforePoint) := by
  rw [Gesture.pinchCall, handleGesture, pinch, if_pos enabled]
  rfl

theorem pinch_finished (enabled : view.gestureEnabled = true)
    (ending : GestureEnding) (scale : CGFloat) :
    view.handleGesture (Gesture.pinchCall (ending.state, scale)) =
      if view.pinchScale scale ≤ 1 then
        { view with currentScale := 1, transform := .identity }
      else
        { view with currentScale := view.pinchScale scale } := by
  rw [Gesture.pinchCall, handleGesture, pinch, if_pos enabled]
  cases ending <;> rfl

theorem perform_tap (enabled : view.gestureEnabled = true) :
    view.perform .tap =
      { view with
        beforePoint := { x := 0, y := 0 }
        currentScale := 1
        transform := .identity } := by
  rw [perform, Gesture.calls, List.foldl_cons, handleGesture, tap,
    if_pos enabled]
  rfl

/-- A pan moves the view and remembers how far. -/
theorem perform_pan (enabled : view.gestureEnabled = true)
    (course : Course CGPoint) :
    view.perform (.pan course) =
      { view with
        beforePoint := view.beforePoint + course.last
        transform :=
          .placing view.currentScale (view.beforePoint + course.last) } := by
  have enabledStill (current : AffineTransform CGFloat) :
      (view.transformed current).gestureEnabled = true := enabled
  have begins (measured : CGPoint) :
      view.handleGesture (Gesture.panCall (.began, measured)) = view := by
    rw [Gesture.panCall, handleGesture, pan, if_pos enabled]
  have follows (current : AffineTransform CGFloat) (measured : CGPoint) :
      (view.transformed current).handleGesture
          (Gesture.panCall (.changed, measured)) =
        view.transformed
          (.placing view.currentScale (view.beforePoint + measured)) :=
    pan_changed (enabledStill current) measured
  rw [perform, Gesture.calls, foldl_course begins follows,
    pan_finished (enabledStill _)]
  rfl

/-- A pinch that enlarges scales the view and remembers the scale; any other
pinch puts the view back, but still remembers how far it had been moved. -/
theorem perform_pinch (enabled : view.gestureEnabled = true)
    (course : Course CGFloat) :
    view.perform (.pinch course) =
      if view.pinchScale course.last ≤ 1 then
        { view with currentScale := 1, transform := .identity }
      else
        { view with
          currentScale := view.pinchScale course.last
          transform :=
            .placing (view.pinchScale course.last) view.beforePoint } := by
  have enabledStill (current : AffineTransform CGFloat) :
      (view.transformed current).gestureEnabled = true := enabled
  have begins (scale : CGFloat) :
      view.handleGesture (Gesture.pinchCall (.began, scale)) = view := by
    rw [Gesture.pinchCall, handleGesture, pinch, if_pos enabled]
  have follows (current : AffineTransform CGFloat) (scale : CGFloat) :
      (view.transformed current).handleGesture
          (Gesture.pinchCall (.changed, scale)) =
        view.transformed
          (.placing (view.pinchScale scale) view.beforePoint) :=
    pinch_changed (enabledStill current) scale
  rw [perform, Gesture.calls, foldl_course begins follows,
    pinch_finished (enabledStill _)]
  rfl

end Enabled

end GestureUIImageView

end HigeMaster
