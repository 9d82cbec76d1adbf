import HigeMaster.Geometry.Drag
import HigeMaster.Scenes.EditViewController

/-!
# What a touch does to the stamps

The loop of `touchesMoved` tests and moves the stamp views one by one, and no
turn of it looks at another stamp.  So a touch maps a function over the stamp
views, which fails where a frame cannot be assigned.  On scaled views it never
fails, and it drags every frame on its own.
-/

namespace HigeMaster

open Geometry

namespace UIImageView

/-- The view after a touch: it follows a touch that was inside its frame. -/
def touched (touch : UITouch) (imgView : UIImageView) : Option UIImageView :=
  if imgView.frame.contains touch.previousLocation then
    imgView.setFrame
      (imgView.frame.translate (touch.location - touch.previousLocation))
  else
    some imgView

/-- The view is scaled uniformly, possibly to nothing. -/
def IsScaled (imgView : UIImageView) : Prop :=
  ∃ factor, imgView.transform = .uniform factor

theorem touched_of_contains {touch : UITouch} {imgView : UIImageView}
    (inside : imgView.frame.contains touch.previousLocation = true) :
    imgView.touched touch =
      imgView.setFrame
        (imgView.frame.translate (touch.location - touch.previousLocation)) := by
  rw [touched, if_pos inside]

theorem touched_of_not_contains {touch : UITouch} {imgView : UIImageView}
    (outside : imgView.frame.contains touch.previousLocation = false) :
    imgView.touched touch = some imgView := by
  rw [touched, outside]
  rfl

/-- A view that has shrunk to nothing has no point to touch. -/
theorem isInvertibleScale_of_contains {imgView : UIImageView}
    (scaled : imgView.IsScaled) {point : CGPoint}
    (inside : imgView.frame.contains point = true) :
    imgView.transform.IsInvertibleScale := by
  obtain ⟨factor, uniform⟩ := scaled
  have visible : factor ≠ 0 := by
    intro collapsed
    subst collapsed
    rw [View.not_frame_contains_of_scale_zero uniform point] at inside
    cases inside
  rw [uniform]
  exact AffineTransform.isInvertibleScale_uniform.mpr visible

private theorem frame_size_nonneg (imgView : UIImageView) :
    0 ≤ imgView.frame.size.width ∧ 0 ≤ imgView.frame.size.height := by
  simp only [View.frame, View.transformedSize]
  constructor <;> positivity

theorem IsScaled.touched {imgView : UIImageView} (scaled : imgView.IsScaled)
    (touch : UITouch) :
    ∃ moved, imgView.touched touch = some moved ∧ moved.IsScaled ∧
      moved.frame =
        imgView.frame.dragged touch.previousLocation touch.location := by
  cases inside : imgView.frame.contains touch.previousLocation with
  | false =>
      refine ⟨imgView, touched_of_not_contains inside, scaled, ?_⟩
      rw [Rect.dragged_of_not_contains inside]
  | true =>
      have assignable := isInvertibleScale_of_contains scaled inside
      let target := imgView.frame.translate
        (touch.location - touch.previousLocation)
      obtain ⟨view, assigned⟩ :
          ∃ view, imgView.toView.setFrame target = some view := by
        rw [View.setFrame, if_pos assignable]
        exact ⟨_, rfl⟩
      have kept : view.transform = imgView.transform := by
        rw [View.setFrame, if_pos assignable, Option.some.injEq] at assigned
        rw [← assigned]
      obtain ⟨width, height⟩ := frame_size_nonneg imgView
      have reads : view.frame = target :=
        View.frame_setFrame width height assigned
      refine ⟨{ imgView with toView := view }, ?_, ?_, ?_⟩
      · rw [touched_of_contains inside, setFrame, assigned]
        rfl
      · obtain ⟨factor, uniform⟩ := scaled
        exact ⟨factor, kept.trans uniform⟩
      · rw [Rect.dragged_of_contains inside]
        exact reads

end UIImageView

namespace EditViewController

/-- The controller with other stamp views, and with the views on top of the
image view in some other order. -/
def moved (controller : EditViewController) (subviews : List ℕ)
    (manualStampViews : List UIImageView) : EditViewController :=
  { controller with
    imageView := { controller.imageView with subviews := subviews }
    manualStampViews := manualStampViews }

/-! ## The loop -/

private theorem moveStamp_eq {controller : EditViewController}
    {passed rest : List UIImageView} {imgView next : UIImageView}
    {touch : UITouch}
    (views : controller.manualStampViews = passed ++ imgView :: rest)
    (touched : imgView.touched touch = some next) :
    ∃ subviews,
      controller.moveStamp touch passed.length =
        some (controller.moved subviews (passed ++ next :: rest)) := by
  have found : controller.manualStampViews[passed.length]? =
      some imgView := by
    rw [views]
    simp
  rw [moveStamp, found]
  simp only [Option.bind_eq_bind, Option.bind_some]
  cases inside : imgView.frame.contains touch.previousLocation with
  | true =>
      rw [UIImageView.touched_of_contains inside] at touched
      rw [if_pos rfl, touched, views]
      refine ⟨(controller.imageView.addSubview passed.length).subviews, ?_⟩
      simp [moved, UIImageView.addSubview]
  | false =>
      rw [UIImageView.touched_of_not_contains inside,
        Option.some.injEq] at touched
      subst touched
      rw [if_neg Bool.false_ne_true, ← views]
      exact ⟨controller.imageView.subviews, rfl⟩

/-- The rest of the loop touches the stamps that it has not passed yet. -/
private theorem moveStamps_from {touch : UITouch}
    {rest next : List UIImageView}
    (touched : rest.mapM (UIImageView.touched touch) = some next)
    {controller : EditViewController} {passed : List UIImageView}
    (views : controller.manualStampViews = passed ++ rest) :
    ∃ subviews,
      (List.range' passed.length rest.length).foldlM (moveStamp touch)
          controller =
        some (controller.moved subviews (passed ++ next)) := by
  induction rest generalizing controller passed next with
  | nil =>
      simp only [List.mapM_nil, Option.pure_def, Option.some.injEq] at touched
      subst touched
      refine ⟨controller.imageView.subviews, ?_⟩
      simp [moved, ← views]
  | cons imgView rest induction =>
      simp only [List.mapM_cons, Option.bind_eq_bind, Option.pure_def,
        Option.bind_eq_some_iff, Option.some.injEq] at touched
      obtain ⟨first, touchedFirst, others, touchedOthers, rfl⟩ := touched
      obtain ⟨middle, taken⟩ := moveStamp_eq views touchedFirst
      have later : (controller.moved middle
          (passed ++ first :: rest)).manualStampViews =
          (passed ++ [first]) ++ rest := by
        rw [List.append_assoc]
        rfl
      obtain ⟨subviews, completed⟩ := induction touchedOthers later
      refine ⟨subviews, ?_⟩
      rw [List.length_cons, List.range'_succ, List.foldlM_cons, taken]
      rw [List.length_append, List.length_singleton] at completed
      rw [Option.bind_eq_bind, Option.bind_some, completed,
        List.append_assoc]
      rfl

/-- The inner loop of `touchesMoved` touches every stamp. -/
theorem moveStamps_eq {controller : EditViewController} {touch : UITouch}
    {next : List UIImageView}
    (touched :
      controller.manualStampViews.mapM (UIImageView.touched touch) =
        some next) :
    ∃ subviews,
      controller.moveStamps touch = some (controller.moved subviews next) := by
  rw [moveStamps, List.range_eq_range']
  exact moveStamps_from touched (List.nil_append _).symm

/-! ## Frames -/

/-- The frame of the stamp at `index`. -/
def frameAt (index : ℕ) (controller : EditViewController) : Option CGRect :=
  controller.manualStampViews[index]?.map fun imgView => imgView.frame

/-- All stamps are scaled uniformly. -/
def StampsScaled (controller : EditViewController) : Prop :=
  ∀ imgView ∈ controller.manualStampViews, imgView.IsScaled

private theorem touched_all {imgViews : List UIImageView}
    (scaled : ∀ imgView ∈ imgViews, imgView.IsScaled) (touch : UITouch) :
    ∃ next, imgViews.mapM (UIImageView.touched touch) = some next ∧
      (∀ imgView ∈ next, imgView.IsScaled) ∧
        ∀ index : ℕ, next[index]?.map (fun imgView => imgView.frame) =
          imgViews[index]?.map fun imgView =>
            imgView.frame.dragged touch.previousLocation touch.location := by
  induction imgViews with
  | nil => exact ⟨[], rfl, scaled, fun _ => rfl⟩
  | cons imgView imgViews induction =>
      obtain ⟨first, touchedFirst, scaledFirst, frame⟩ :=
        (scaled imgView List.mem_cons_self).touched touch
      obtain ⟨others, touchedOthers, scaledOthers, frames⟩ :=
        induction fun other member =>
          scaled other (List.mem_cons_of_mem imgView member)
      refine ⟨first :: others, ?_, ?_, ?_⟩
      · simp [List.mapM_cons, touchedFirst, touchedOthers]
      · exact List.forall_mem_cons.mpr ⟨scaledFirst, scaledOthers⟩
      · intro index
        cases index with
        | zero => exact congrArg some frame
        | succ index => exact frames index

theorem StampsScaled.touch {controller : EditViewController}
    (scaled : controller.StampsScaled) (touch : UITouch) :
    ∃ after, step controller (.touchesMoved [touch]) = some after ∧
      after.StampsScaled ∧
        ∀ index, after.frameAt index =
          (controller.frameAt index).map fun frame =>
            frame.dragged touch.previousLocation touch.location := by
  obtain ⟨next, touched, kept, frames⟩ := touched_all scaled touch
  obtain ⟨subviews, taken⟩ := moveStamps_eq touched
  refine ⟨controller.moved subviews next, ?_, kept, ?_⟩
  · rw [step, touchesMoved, List.foldlM_cons, taken]
    rfl
  · intro index
    rw [frameAt, frameAt, Option.map_map]
    exact frames index

end EditViewController

end HigeMaster
