import HigeMaster.EventRun
import HigeMaster.Extensions.GestureUIImageView

/-!
# What a gesture view remembers and what it shows

Between gestures the transform of a gesture view should be the one that its
remembered scale and offset stand for, or else the next gesture jumps.  A tap
and a pan always leave it so, and a pinch that enlarges does too.  A pinch
that does not enlarge resets the transform and the scale but not the offset,
so it does only if the view had not been moved.
-/

namespace HigeMaster

open Geometry

namespace GestureUIImageView

/-- The transform is the one that the view remembers, and a gesture that
starts without measuring anything does not change the view. -/
structure InStep (view : GestureUIImageView) : Prop where
  placed : view.transform = .placing view.currentScale view.beforePoint
  panRests :
    view.handleGesture
        (.pan
          { state := .changed
            translationInView := some { x := 0, y := 0 } }) =
      view
  pinchRests :
    view.handleGesture (.pinch { state := .changed, scale := 1 }) = view

/-- The view follows gestures, and it has never been made smaller. -/
structure Usable (view : GestureUIImageView) : Prop where
  enabled : view.gestureEnabled = true
  enlarged : 1 ≤ view.currentScale

def step (view : GestureUIImageView) (gesture : Gesture) :
    Option GestureUIImageView :=
  some (view.perform gesture)

/-- A pinch after which the remembered scale would not exceed the natural one
arrives while the view has not been moved. -/
def KeepsStep (view : GestureUIImageView) : Gesture → Prop
  | .tap | .pan _ => True
  | .pinch course =>
      view.currentScale + (course.last - 1) ≤ 1 → view.beforePoint = 0

theorem usable_ofFrame (rect : CGRect) : (ofFrame rect).Usable :=
  { enabled := rfl
    enlarged := le_refl 1 }

section Usable

variable {view : GestureUIImageView}

theorem Usable.perform (usable : view.Usable) (gesture : Gesture) :
    (view.perform gesture).Usable := by
  cases gesture with
  | tap =>
      rw [perform_tap usable.enabled]
      exact { enabled := usable.enabled, enlarged := le_refl 1 }
  | pan course =>
      rw [perform_pan usable.enabled]
      exact { enabled := usable.enabled, enlarged := usable.enlarged }
  | pinch course =>
      rw [perform_pinch usable.enabled]
      by_cases shrinks : view.pinchScale course.last ≤ 1
      · rw [if_pos shrinks]
        exact { enabled := usable.enabled, enlarged := le_refl 1 }
      · rw [if_neg shrinks]
        exact
          { enabled := usable.enabled
            enlarged := (not_le.mp shrinks).le }

private theorem transformed_eq_self_iff {transform : AffineTransform CGFloat} :
    view.transformed transform = view ↔ view.transform = transform := by
  constructor
  · intro same
    rw [← same]
    rfl
  · intro same
    rw [← same]
    rfl

theorem Usable.inStep_iff (usable : view.Usable) :
    view.InStep ↔
      view.transform = .placing view.currentScale view.beforePoint := by
  constructor
  · intro inStep
    exact inStep.placed
  · intro placed
    refine { placed := placed, panRests := ?_, pinchRests := ?_ }
    · apply (pan_changed usable.enabled 0).trans
      rw [add_zero, transformed_eq_self_iff]
      exact placed
    · apply (pinch_changed usable.enabled 1).trans
      rw [pinchScale_eq usable.enlarged, sub_self, add_zero,
        transformed_eq_self_iff]
      exact placed

/-- After a gesture the view is in step exactly if the gesture keeps step,
whatever was the case before. -/
theorem Usable.inStep_perform_iff (usable : view.Usable) (gesture : Gesture) :
    (view.perform gesture).InStep ↔ view.KeepsStep gesture := by
  rw [(usable.perform gesture).inStep_iff]
  cases gesture with
  | tap =>
      rw [perform_tap usable.enabled]
      simp only [KeepsStep, iff_true]
      exact AffineTransform.identity_eq_placing
  | pan course =>
      rw [perform_pan usable.enabled]
      simp only [KeepsStep]
  | pinch course =>
      rw [perform_pinch usable.enabled, pinchScale_eq usable.enlarged]
      unfold KeepsStep
      by_cases shrinks : view.currentScale + (course.last - 1) ≤ 1
      · rw [if_pos shrinks, AffineTransform.identity_eq_placing,
          AffineTransform.placing_inj]
        constructor
        · intro given _
          exact given.2.symm
        · intro unmoved
          exact ⟨rfl, (unmoved shrinks).symm⟩
      · rw [if_neg shrinks]
        simp only [shrinks, IsEmpty.forall_iff]

end Usable

/-- A new view stays in step through a series of gestures exactly if every
pinch that does not enlarge arrives while the view has not been moved. -/
theorem always_inStep_iff (rect : CGRect) (gestures : List Gesture) :
    EventRun.Always step InStep (ofFrame rect) gestures ↔
      EventRun.EveryStep step (fun before gesture _ => before.KeepsStep gesture)
        (ofFrame rect) gestures := by
  apply EventRun.always_iff_everyStep (usable_ofFrame rect)
  · rw [(usable_ofFrame rect).inStep_iff]
    exact AffineTransform.identity_eq_placing
  · intro before gesture after usable taken
    cases taken
    exact usable.perform gesture
  · intro before gesture after usable _ taken
    cases taken
    exact usable.inStep_perform_iff gesture

/-- The view is moved to the right and then made smaller. -/
def moveAndShrink : List Gesture :=
  [.pan
      { first := { x := 0, y := 0 }
        steps := []
        last := { x := 10, y := 0 }
        ending := .ended },
    .pinch { first := 1, steps := [], last := 1 / 2, ending := .ended }]

/-- The pinch puts the view back, but the view remembers that it was moved. -/
theorem moveAndShrink_outOfStep :
    ∃ final,
      EventRun.run step
          (ofFrame
            { origin := { x := 0, y := 0 }
              size := { width := 50, height := 50 } })
          moveAndShrink =
        some final ∧ ¬final.InStep := by
  refine ⟨_, rfl, ?_⟩
  intro inStep
  have offset := congrArg AffineTransform.tx inStep.placed
  revert offset
  decide +kernel

end GestureUIImageView

end HigeMaster
