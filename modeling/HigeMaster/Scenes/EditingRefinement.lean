import HigeMaster.EventRun.Refinement
import HigeMaster.Scenes.Editing

/-!
# The controller refines the editor

A loaded controller represents a state of the editor: its flags and fields
agree, its stamp views are the views of the stamps, and its image view shows
the automatic picture.  Every event that the program survives is an action of
the editor; the program stops only at a selection outside the collection and
at a face with too few lip points.
-/

namespace HigeMaster

open Geometry

/-- What stays the same while an image is edited. -/
structure Canvas where
  base : UIImage
  higeImages : List UIImage
  center : CGPoint

namespace EditViewController

open Editing (Action)

/-- The fields of the controller agree with the state of the editor. -/
structure Agrees (canvas : Canvas) (controller : EditViewController)
    (editing : Editing) : Prop where
  image : controller.image = some canvas.base
  higeImages : controller.higeImages = some canvas.higeImages
  center : controller.imageView.center = canvas.center
  sizeSlider : controller.sizeSlider.IsSizeSlider
  value : controller.sizeSlider.value = editing.slider
  mode : controller.mode = some editing.mode.number
  sizeRatio : controller.sizeRatio = editing.picture.ratio
  selectedHige : controller.selectedHige = some editing.picture.hige
  autoImageRect : controller.autoImageRect = editing.picture.faces
  manualStampViews :
    controller.manualStampViews = editing.stamps.map Stamp.view

/-- The controller represents the state of the editor: the fields agree, and
the image view shows the automatic picture. -/
structure Represents (canvas : Canvas) (controller : EditViewController)
    (editing : Editing) : Prop extends Agrees canvas controller editing where
  shown :
    ∃ shown, controller.imageView.image = some shown ∧
      shown.layers = editing.picture.layers canvas.base

/-- The rectangle that an observation with enough lip points contributes. -/
def faceRect (base : UIImage) (observation : VNFaceObservation) :
    Option CGRect := do
  let mouse ← observation.mouse
  mouthRect (lipPoints base mouse)

/-- What `putHige` records of an observation: `none` if it stops the program,
and `some none` if the observation has no outer lips. -/
def recorded (base : UIImage) (observation : VNFaceObservation) :
    Option (Option CGRect) :=
  match observation.mouse with
  | none => some none
  | some mouse => (mouthRect (lipPoints base mouse)).map some

/-- The action that an event stands for; `none` if it stops the program. -/
def Event.action (canvas : Canvas) : Event → Option Action
  | .pushAutoBtn => some (.enter .automatic)
  | .pushManualBtn => some (.enter .manual)
  | .slide value => some (.slide value.value)
  | .didSelectItemAt row => canvas.higeImages[row]?.map .select
  | .touchesMoved touches => some (.drag touches)
  | .putHige observation => (recorded canvas.base observation).map .record

theorem faceRect_of_recorded {base : UIImage}
    {observation : VNFaceObservation} {face : Option CGRect}
    (found : recorded base observation = some face) :
    faceRect base observation = face := by
  unfold recorded at found
  unfold faceRect
  cases lips : observation.mouse with
  | none =>
      simp only [lips, Option.some.injEq] at found
      subst found
      rfl
  | some mouse =>
      simp only [lips, Option.map_eq_some_iff] at found
      obtain ⟨rect, read, rfl⟩ := found
      exact read

/-- The actions of the events that the program survives, case by case. -/
inductive Event.Means (canvas : Canvas) : Event → Action → Prop where
  | pushAutoBtn : Means canvas .pushAutoBtn (.enter .automatic)
  | pushManualBtn : Means canvas .pushManualBtn (.enter .manual)
  | slide (value : SliderValue) :
      Means canvas (.slide value) (.slide value.value)
  | didSelectItemAt (row : ℕ) {image : UIImage}
      (found : canvas.higeImages[row]? = some image) :
      Means canvas (.didSelectItemAt row) (.select image)
  | touchesMoved (touches : List UITouch) :
      Means canvas (.touchesMoved touches) (.drag touches)
  | putHige (observation : VNFaceObservation) :
      Means canvas (.putHige observation)
        (.record (faceRect canvas.base observation))

theorem Event.means_of_action {canvas : Canvas} {event : Event}
    {action : Action} (translated : event.action canvas = some action) :
    event.Means canvas action := by
  cases event with
  | pushAutoBtn =>
      cases translated
      exact .pushAutoBtn
  | pushManualBtn =>
      cases translated
      exact .pushManualBtn
  | slide value =>
      cases translated
      exact .slide value
  | didSelectItemAt row =>
      simp only [Event.action, Option.map_eq_some_iff] at translated
      obtain ⟨image, found, rfl⟩ := translated
      exact .didSelectItemAt row found
  | touchesMoved touches =>
      cases translated
      exact .touchesMoved touches
  | putHige observation =>
      simp only [Event.action, Option.map_eq_some_iff] at translated
      obtain ⟨face, found, rfl⟩ := translated
      rw [← faceRect_of_recorded found]
      exact .putHige observation

/-! ## Drawing -/

/-- The controller after its picture has been drawn anew. -/
def redrawn (controller : EditViewController) (base hige : UIImage) :
    EditViewController :=
  let picture : AutomaticPicture :=
    { ratio := controller.sizeRatio
      hige := hige
      faces := controller.autoImageRect }
  { controller with
    imageView :=
      { controller.imageView with
        image := some (.drawn
          { size := base.size, drawn := picture.layers base }) } }

private theorem drawStamps (hige : UIImage) (ratio : CGFloat)
    (rects : List CGRect) (context : GraphicsContext) :
    rects.foldlM (m := Option)
        (fun context rect =>
          pure (context.draw hige (autoStampRect ratio rect)))
        context =
      some
        { context with
          drawn := context.drawn ++
            rects.map fun rect =>
              { image := hige, rect := autoStampRect ratio rect } } := by
  induction rects generalizing context with
  | nil => simp
  | cons rect rects induction =>
      simp only [List.foldlM_cons, Option.pure_def, Option.bind_eq_bind,
        Option.bind_some] at induction ⊢
      rw [induction]
      simp [GraphicsContext.draw]

theorem drawAutoImage_eq {controller : EditViewController}
    {base hige : UIImage} (image : controller.image = some base)
    (selected : controller.selectedHige = some hige) :
    controller.drawAutoImage = some (controller.redrawn base hige) := by
  rw [drawAutoImage, image, selected]
  simp only [Option.bind_eq_bind, Option.bind_some, drawStamps]
  simp [redrawn, image, selected, GraphicsContext.ofSize,
    GraphicsContext.draw, AutomaticPicture.layers, UIImage.fullRect]

theorem Agrees.drawAutoImage {canvas : Canvas}
    {controller : EditViewController} {editing : Editing}
    (agrees : Agrees canvas controller editing) :
    ∃ drawn, controller.drawAutoImage = some drawn ∧
      Represents canvas drawn editing := by
  refine ⟨_, drawAutoImage_eq agrees.image agrees.selectedHige, ?_⟩
  exact
    { agrees with
      shown := by
        refine ⟨_, rfl, ?_⟩
        rw [Picture.layers, agrees.sizeRatio, agrees.autoImageRect] }

/-! ## Dragging -/

private theorem mapM_touched (stamps : List Stamp) (touch : UITouch) :
    (stamps.map Stamp.view).mapM (UIImageView.touched touch) =
      some ((Editing.dragAll stamps touch).map Stamp.view) := by
  have drags : UIImageView.touched touch ∘ Stamp.view =
      fun stamp => pure (stamp.drag touch).view := by
    funext stamp
    exact stamp.touched_view touch
  rw [List.mapM_map, drags, List.mapM_pure, Editing.dragAll, List.map_map]
  rfl

/-- The inner loop of `touchesMoved` drags every stamp. -/
theorem moveStamps_drags {controller : EditViewController}
    {stamps : List Stamp}
    (views : controller.manualStampViews = stamps.map Stamp.view)
    (touch : UITouch) :
    ∃ subviews,
      controller.moveStamps touch =
        some (controller.moved subviews
          ((Editing.dragAll stamps touch).map Stamp.view)) := by
  apply moveStamps_eq
  rw [views]
  exact mapM_touched stamps touch

/-! ## Events -/

section Events

variable {canvas : Canvas} {controller : EditViewController}
  {editing : Editing}

theorem Represents.moved {stamps : List Stamp}
    (represents : Represents canvas controller editing)
    (subviews : List ℕ) :
    Represents canvas (controller.moved subviews (stamps.map Stamp.view))
      { editing with stamps := stamps } :=
  { represents with manualStampViews := rfl }

theorem Represents.moveStamps
    (represents : Represents canvas controller editing) (touch : UITouch) :
    ∃ next, controller.moveStamps touch = some next ∧
      Represents canvas next
        { editing with stamps := Editing.dragAll editing.stamps touch } := by
  obtain ⟨subviews, taken⟩ :=
    moveStamps_drags represents.manualStampViews touch
  exact ⟨_, taken, represents.moved subviews⟩

theorem Represents.touchesMoved (touches : List UITouch)
    (represents : Represents canvas controller editing) :
    ∃ next, controller.touchesMoved touches = some next ∧
      Represents canvas next
        (editing.apply canvas.center (.drag touches)) := by
  induction touches generalizing controller editing with
  | nil => exact ⟨controller, rfl, represents⟩
  | cons touch touches induction =>
      obtain ⟨middle, first, kept⟩ := represents.moveStamps touch
      obtain ⟨next, rest, holds⟩ := induction kept
      refine ⟨next, ?_, holds⟩
      rw [EditViewController.touchesMoved, List.foldlM_cons, first]
      exact rest

theorem Represents.setAutoMode
    (represents : Represents canvas controller editing) :
    Represents canvas controller.setAutoMode
      (editing.apply canvas.center (.enter .automatic)) :=
  { represents with
    sizeSlider := represents.sizeSlider.setValue (1 / 2)
    value :=
      represents.sizeSlider.value_setValue (by norm_num) (by norm_num)
    mode := rfl }

theorem Represents.setManualMode
    (represents : Represents canvas controller editing) :
    Represents canvas controller.setManualMode
      (editing.apply canvas.center (.enter .manual)) :=
  { represents with
    sizeSlider := represents.sizeSlider.setValue (1 / 2)
    value :=
      represents.sizeSlider.value_setValue (by norm_num) (by norm_num)
    mode := rfl }

theorem Represents.slide (value : SliderValue)
    (represents : Represents canvas controller editing) :
    ∃ next, controller.slide value = some next ∧
      Represents canvas next
        (editing.apply canvas.center (.slide value.value)) := by
  have sizeSlider := represents.sizeSlider.setValue value.value
  have slid := represents.sizeSlider.value_setValue value.nonneg value.le_one
  have sends : (controller.sizeSlider.setValue value.value).sendsChangeSize =
      true := sizeSlider.2.2
  have mode := represents.mode
  rw [EditViewController.slide]
  simp only [sends, if_true, changeSize, mode,
    EditMode.some_number_eq_zero_iff]
  cases entered : editing.mode with
  | automatic =>
      rw [if_pos rfl]
      apply Agrees.drawAutoImage
      simp only [Editing.apply, entered]
      exact
        { represents.toAgrees with
          sizeSlider := sizeSlider
          value := slid
          mode := rfl
          sizeRatio := congrArg (· * 2) slid }
  | manual =>
      rw [if_neg EditMode.noConfusion]
      refine ⟨_, rfl, ?_⟩
      simp only [Editing.apply, entered]
      exact
        { represents with
          sizeSlider := sizeSlider
          value := slid
          mode := rfl
          manualStampViews := by
            rw [slid, represents.manualStampViews, List.map_map,
              List.map_map]
            rfl }

theorem Represents.didSelectItemAt {row : ℕ} {image : UIImage}
    (represents : Represents canvas controller editing)
    (found : canvas.higeImages[row]? = some image) :
    ∃ next, controller.didSelectItemAt row = some next ∧
      Represents canvas next
        (editing.apply canvas.center (.select image)) := by
  have mode := represents.mode
  rw [EditViewController.didSelectItemAt, represents.higeImages]
  simp only [Option.bind_eq_bind, Option.bind_some, found, mode,
    EditMode.some_number_eq_zero_iff]
  cases entered : editing.mode with
  | automatic =>
      rw [if_pos rfl]
      apply Agrees.drawAutoImage
      simp only [Editing.apply, entered]
      exact
        { represents.toAgrees with
          higeImages := rfl
          mode := rfl
          selectedHige := rfl }
  | manual =>
      rw [if_neg EditMode.noConfusion]
      refine ⟨_, rfl, ?_⟩
      simp only [Editing.apply, entered]
      exact
        { represents with
          higeImages := rfl
          mode := rfl
          manualStampViews := by
            rw [represents.manualStampViews, represents.center,
              List.map_append]
            rfl }

theorem Represents.putHige {observation : VNFaceObservation}
    {face : Option CGRect}
    (represents : Represents canvas controller editing)
    (found : recorded canvas.base observation = some face) :
    ∃ next, controller.putHige observation = some next ∧
      Represents canvas next
        (editing.apply canvas.center (.record face)) := by
  unfold recorded at found
  unfold EditViewController.putHige
  cases lips : observation.mouse with
  | none =>
      simp only [lips, Option.some.injEq] at found
      subst found
      refine ⟨controller, rfl, ?_⟩
      simpa [Editing.apply] using represents
  | some mouse =>
      simp only [lips, Option.map_eq_some_iff] at found
      obtain ⟨rect, read, rfl⟩ := found
      simp only [represents.image, Option.bind_eq_bind, Option.bind_some,
        read]
      apply Agrees.drawAutoImage
      exact
        { represents.toAgrees with
          image := rfl
          autoImageRect := by
            rw [represents.autoImageRect]
            rfl }

/-- The controller does what the editor does, and stops exactly at the events
that are no action. -/
theorem step_refines (canvas : Canvas) :
    EventRun.Refines step (Represents canvas) (Event.action canvas)
      (Editing.apply canvas.center) := by
  intro controller editing event represents
  cases event with
  | pushAutoBtn => exact ⟨_, rfl, represents.setAutoMode⟩
  | pushManualBtn => exact ⟨_, rfl, represents.setManualMode⟩
  | slide value => exact represents.slide value
  | didSelectItemAt row =>
      cases found : canvas.higeImages[row]? with
      | none =>
          simp only [Event.action, found, Option.map_none]
          rw [step, EditViewController.didSelectItemAt, represents.higeImages]
          simp [found]
      | some image =>
          simp only [Event.action, found, Option.map_some]
          exact represents.didSelectItemAt found
  | touchesMoved touches => exact represents.touchesMoved touches
  | putHige observation =>
      cases found : recorded canvas.base observation with
      | none =>
          simp only [Event.action, found, Option.map_none]
          rw [step, EditViewController.putHige]
          unfold recorded at found
          cases lips : observation.mouse with
          | none => simp [lips] at found
          | some mouse =>
              simp only [lips, Option.map_eq_none_iff] at found
              simp [represents.image, found]
      | some face =>
          simp only [Event.action, found, Option.map_some]
          exact represents.putHige found

/-- Every step is an action of the editor. -/
theorem Represents.step_cases {event : Event} {next : EditViewController}
    (represents : Represents canvas controller editing)
    (taken : step controller event = some next) :
    ∃ action, event.Means canvas action ∧
      Represents canvas next (editing.apply canvas.center action) := by
  obtain ⟨action, translated, kept⟩ :=
    (step_refines canvas).step_eq_some represents taken
  exact ⟨action, Event.means_of_action translated, kept⟩

/-- The controller represents some state of an editor of this canvas. -/
def Edits (canvas : Canvas) (controller : EditViewController) : Prop :=
  ∃ editing, Represents canvas controller editing

theorem Edits.of_step {event : Event} {next : EditViewController}
    (edits : Edits canvas controller)
    (taken : step controller event = some next) : Edits canvas next :=
  (step_refines canvas).preserves controller event next edits taken

theorem Edits.of_run {events : List Event} {final : EditViewController}
    (edits : Edits canvas controller)
    (completed : EventRun.run step controller events = some final) :
    Edits canvas final :=
  EventRun.invariant edits (step_refines canvas).preserves completed

end Events

end EditViewController

end HigeMaster
