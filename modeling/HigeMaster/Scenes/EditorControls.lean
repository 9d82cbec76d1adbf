import HigeMaster.Scenes.EditorLoading

/-!
# The controls of the editor

In every run of a loaded editor the highlighted button tells the mode, the
slider stays over the unit interval, and a tap on a cell uses the moustache
that the cell shows.  The collection offers exactly the rows that can be
selected without stopping the program, so the program survives a run exactly
if its selections are offered and its faces have enough lip points.
-/

namespace HigeMaster

open Geometry

/-- A mode button, highlighted or not. -/
def UIButton.modeBtn (highlighted : Bool) : UIButton :=
  if highlighted then
    { backgroundColor := some .accent, titleColor := some .paper }
  else
    { backgroundColor := some .paper, titleColor := some .accent }

namespace UISlider

theorem IsSizeSlider.setValue_mem {slider : UISlider}
    (sizes : slider.IsSizeSlider) (value : CGFloat) :
    0 ≤ (slider.setValue value).value ∧ (slider.setValue value).value ≤ 1 := by
  obtain ⟨minimum, maximum, _⟩ := sizes
  rw [UISlider.setValue, minimum, maximum]
  constructor
  · exact le_max_left 0 _
  · apply max_le zero_le_one
    exact min_le_left 1 value

end UISlider

namespace EditViewController

/-- Exactly the button of the current mode is highlighted, and the slider is
the one that was set up when the view was loaded, with a value that it can
have. -/
structure ControlsAgree (controller : EditViewController) : Prop where
  mode :
    ∃ mode : EditMode, controller.mode = some mode.number ∧
      controller.manualBtn = .modeBtn (mode == .manual) ∧
        controller.autoBtn = .modeBtn (mode == .automatic)
  sizeSlider : controller.sizeSlider.IsSizeSlider
  value :
    0 ≤ controller.sizeSlider.value ∧ controller.sizeSlider.value ≤ 1
  minimumTrackTintColor :
    controller.sizeSlider.minimumTrackTintColor = some .accent
  maximumTrackTintColor :
    controller.sizeSlider.maximumTrackTintColor = some .paper

/-- The controls are untouched. -/
structure SameControls (before after : EditViewController) : Prop where
  mode : after.mode = before.mode
  manualBtn : after.manualBtn = before.manualBtn
  autoBtn : after.autoBtn = before.autoBtn
  sizeSlider : after.sizeSlider = before.sizeSlider

variable {canvas : Canvas} {controller next : EditViewController}
  {editing : Editing}

theorem ControlsAgree.of_same (agree : controller.ControlsAgree)
    (same : SameControls controller next) : next.ControlsAgree where
  mode := by
    rw [same.mode, same.manualBtn, same.autoBtn]
    exact agree.mode
  sizeSlider := by
    rw [same.sizeSlider]
    exact agree.sizeSlider
  value := by
    rw [same.sizeSlider]
    exact agree.value
  minimumTrackTintColor := by
    rw [same.sizeSlider]
    exact agree.minimumTrackTintColor
  maximumTrackTintColor := by
    rw [same.sizeSlider]
    exact agree.maximumTrackTintColor

theorem ControlsAgree.setAutoMode (agree : controller.ControlsAgree) :
    controller.setAutoMode.ControlsAgree where
  mode := ⟨.automatic, rfl, rfl, rfl⟩
  sizeSlider := agree.sizeSlider.setValue (1 / 2)
  value := agree.sizeSlider.setValue_mem (1 / 2)
  minimumTrackTintColor := agree.minimumTrackTintColor
  maximumTrackTintColor := agree.maximumTrackTintColor

theorem ControlsAgree.setManualMode (agree : controller.ControlsAgree) :
    controller.setManualMode.ControlsAgree where
  mode := ⟨.manual, rfl, rfl, rfl⟩
  sizeSlider := agree.sizeSlider.setValue (1 / 2)
  value := agree.sizeSlider.setValue_mem (1 / 2)
  minimumTrackTintColor := agree.minimumTrackTintColor
  maximumTrackTintColor := agree.maximumTrackTintColor

private theorem drawAutoImage_controls
    (drawn : controller.drawAutoImage = some next) :
    SameControls controller next := by
  simp only [drawAutoImage, Option.bind_eq_bind, Option.bind_eq_some_iff,
    Option.pure_def, Option.some.injEq] at drawn
  obtain ⟨_, _, _, _, rfl⟩ := drawn
  exact ⟨rfl, rfl, rfl, rfl⟩

theorem ControlsAgree.slide {value : SliderValue}
    (agree : controller.ControlsAgree)
    (taken : controller.slide value = some next) : next.ControlsAgree := by
  have slid :
      ({ controller with
          sizeSlider :=
            controller.sizeSlider.setValue value.value } :
        EditViewController).ControlsAgree :=
    { mode := agree.mode
      sizeSlider := agree.sizeSlider.setValue value.value
      value := agree.sizeSlider.setValue_mem value.value
      minimumTrackTintColor := agree.minimumTrackTintColor
      maximumTrackTintColor := agree.maximumTrackTintColor }
  unfold EditViewController.slide changeSize at taken
  simp only at taken
  split at taken
  · split at taken
    · have same := drawAutoImage_controls taken
      exact slid.of_same ⟨same.mode, same.manualBtn, same.autoBtn,
        same.sizeSlider⟩
    · obtain rfl := Option.some.inj taken
      exact slid.of_same ⟨rfl, rfl, rfl, rfl⟩
  · obtain rfl := Option.some.inj taken
    exact slid

private theorem touchesMoved_controls {touches : List UITouch}
    (represents : Represents canvas controller editing)
    (taken : controller.touchesMoved touches = some next) :
    SameControls controller next := by
  induction touches generalizing controller editing with
  | nil =>
      simp only [touchesMoved, List.foldlM_nil, Option.pure_def,
        Option.some.injEq] at taken
      subst taken
      exact ⟨rfl, rfl, rfl, rfl⟩
  | cons touch touches induction =>
      rw [touchesMoved, List.foldlM_cons, Option.bind_eq_bind,
        Option.bind_eq_some_iff] at taken
      obtain ⟨middle, first, rest⟩ := taken
      obtain ⟨subviews, drags⟩ :=
        moveStamps_drags represents.manualStampViews touch
      rw [first, Option.some.injEq] at drags
      subst drags
      have same := induction (represents.moved subviews) rest
      exact ⟨same.mode, same.manualBtn, same.autoBtn, same.sizeSlider⟩

/-- Every step keeps the controls in agreement. -/
theorem ControlsAgree.of_step {event : Event}
    (represents : Represents canvas controller editing)
    (agree : controller.ControlsAgree)
    (taken : step controller event = some next) : next.ControlsAgree := by
  cases event with
  | pushAutoBtn =>
      obtain rfl := Option.some.inj taken
      exact agree.setAutoMode
  | pushManualBtn =>
      obtain rfl := Option.some.inj taken
      exact agree.setManualMode
  | slide value => exact agree.slide taken
  | didSelectItemAt row =>
      simp only [step, didSelectItemAt, Option.bind_eq_bind,
        Option.bind_eq_some_iff] at taken
      obtain ⟨_, _, _, _, taken⟩ := taken
      split at taken
      · have same := drawAutoImage_controls taken
        exact agree.of_same ⟨same.mode, same.manualBtn, same.autoBtn,
          same.sizeSlider⟩
      · obtain rfl := Option.some.inj taken
        exact agree.of_same ⟨rfl, rfl, rfl, rfl⟩
  | touchesMoved touches =>
      exact agree.of_same (touchesMoved_controls represents taken)
  | putHige observation =>
      unfold step putHige at taken
      cases lips : observation.mouse with
      | none =>
          simp only [lips, Option.some.injEq] at taken
          subst taken
          exact agree
      | some mouse =>
          simp only [lips, Option.bind_eq_bind, Option.bind_eq_some_iff]
            at taken
          obtain ⟨_, _, _, _, drawn⟩ := taken
          have same := drawAutoImage_controls drawn
          exact agree.of_same ⟨same.mode, same.manualBtn, same.autoBtn,
            same.sizeSlider⟩

/-- The controller edits an image with controls that agree. -/
def EditsInAgreement (canvas : Canvas) (controller : EditViewController) :
    Prop :=
  Edits canvas controller ∧ controller.ControlsAgree

theorem EditsInAgreement.of_step {event : Event}
    (edits : EditsInAgreement canvas controller)
    (taken : step controller event = some next) :
    EditsInAgreement canvas next := by
  obtain ⟨⟨editing, represents⟩, agree⟩ := edits
  exact ⟨Edits.of_step ⟨editing, represents⟩ taken,
    agree.of_step represents taken⟩

section Loaded

variable {outlets : EditOutlets} {image : UIImage} {assets : HigeAssets}
  {detector : VNFaceLandmarksDetector} {start final : EditViewController}
  {events : List Event}

theorem editsInAgreement_opened :
    EditsInAgreement (canvasFor outlets image assets)
      (opened outlets image assets) := by
  have represents := represents_opened outlets image assets
  refine ⟨⟨_, represents⟩, ?_⟩
  exact
    { mode := ⟨.automatic, rfl, rfl, rfl⟩
      sizeSlider := represents.sizeSlider
      value := by
        rw [represents.value]
        norm_num [opening]
      minimumTrackTintColor := rfl
      maximumTrackTintColor := rfl }

theorem editsInAgreement_loaded
    (loaded :
      (instantiate outlets (some image)).viewDidLoad assets detector =
        some start) :
    EditsInAgreement (canvasFor outlets image assets) start := by
  rw [viewDidLoad_eq, Option.bind_eq_some_iff] at loaded
  obtain ⟨found, _, completed⟩ := loaded
  exact EventRun.invariant editsInAgreement_opened
    (fun _ _ _ edits taken => edits.of_step taken) completed

/-- In every state of a run of a loaded editor the controls agree. -/
theorem controls_agree
    (loaded :
      (instantiate outlets (some image)).viewDidLoad assets detector =
        some start) :
    EventRun.Always step ControlsAgree start events := by
  have always : EventRun.Always step
      (EditsInAgreement (canvasFor outlets image assets)) start events :=
    EventRun.always_of_invariant (editsInAgreement_loaded loaded)
      fun _ _ _ edits taken => edits.of_step taken
  refine EventRun.Always.mono ?_ always
  intro state edits
  exact edits.2

theorem controls_agree_blank :
    EventRun.Always step ControlsAgree blank
      [.pushManualBtn, .slide .highest, .pushAutoBtn] :=
  controls_agree blank_loaded

/-! ## Which events stop the program -/

/-- The program survives an event exactly if the event can occur. -/
theorem translates_iff_occurs {event : Event} :
    (∃ action, event.action (canvasFor outlets image assets) = some action) ↔
      event.Occurs := by
  constructor
  · intro translates
    cases event with
    | pushAutoBtn | pushManualBtn | slide | touchesMoved => trivial
    | didSelectItemAt row =>
        obtain ⟨action, selected⟩ := translates
        rw [Event.action, Option.map_eq_some_iff] at selected
        obtain ⟨_, found, _⟩ := selected
        exact (List.getElem?_eq_some_iff.mp found).1
    | putHige observation => exact putHige_translates_iff.mp translates
  · exact occurs_translates

theorem Edits.survives_iff
    (edits : Edits (canvasFor outlets image assets) controller)
    {event : Event} :
    (∃ next, step controller event = some next) ↔ event.Occurs := by
  obtain ⟨editing, represents⟩ := edits
  have refines := step_refines (canvasFor outlets image assets)
  constructor
  · intro survived
    obtain ⟨next, taken⟩ := survived
    obtain ⟨action, translated, _⟩ := refines.step_eq_some represents taken
    exact translates_iff_occurs.mp ⟨action, translated⟩
  · intro occurs
    obtain ⟨action, translated⟩ := translates_iff_occurs.mpr occurs
    obtain ⟨next, taken, _⟩ := refines.step_succeeds represents translated
    exact ⟨next, taken⟩

/-- The view loads exactly if there is an image, the detection is not without
results and all faces found have enough lip points. -/
theorem loads_iff {image : Option UIImage} :
    (∃ start,
        (instantiate outlets image).viewDidLoad assets detector =
          some start) ↔
      ∃ base found, image = some base ∧
        observations detector base = some found ∧
          ∀ observation ∈ found, HasLipPoints observation := by
  constructor
  · intro given
    obtain ⟨start, loaded⟩ := given
    obtain ⟨base, rfl⟩ := image_of_loaded loaded
    obtain ⟨found, detected, _⟩ := represents_viewDidLoad loaded
    refine ⟨base, found, rfl, detected, ?_⟩
    rw [viewDidLoad_eq, detected, Option.bind_some] at loaded
    have opens := represents_opened outlets base assets
    exact opens.putHiges_complete_iff.mp ⟨start, loaded⟩
  · intro given
    obtain ⟨base, found, rfl, detected, enough⟩ := given
    have loads : ∃ start,
        (instantiate outlets (some base)).viewDidLoad assets detector =
            some start ∧
          Represents (canvasFor outlets base assets) start
            (loadedEditing base assets found) :=
      viewDidLoad_succeeds detected enough
    obtain ⟨start, loaded, _⟩ := loads
    exact ⟨start, loaded⟩

/-- An editor is loaded and survives a run exactly if it has an image, the
detection is not without results, all faces found have enough lip points, and
all events can occur. -/
theorem editor_survives_iff {image : Option UIImage} :
    (∃ start final,
        (instantiate outlets image).viewDidLoad assets detector =
            some start ∧
          EventRun.run step start events = some final) ↔
      ∃ base found, image = some base ∧
        observations detector base = some found ∧
          (∀ observation ∈ found, HasLipPoints observation) ∧
            ∀ event ∈ events, event.Occurs := by
  constructor
  · intro given
    obtain ⟨start, final, loaded, completed⟩ := given
    obtain ⟨base, found, rfl, detected, enough⟩ := loads_iff.mp ⟨start, loaded⟩
    obtain ⟨_, _, represents⟩ := represents_viewDidLoad loaded
    refine ⟨base, found, rfl, detected, enough, ?_⟩
    intro event among
    apply translates_iff_occurs.mp
    exact (step_refines (canvasFor outlets base assets)).translates
      represents completed event among
  · intro given
    obtain ⟨base, found, rfl, detected, enough, occurs⟩ := given
    obtain ⟨start, loaded⟩ :=
      loads_iff.mpr ⟨base, found, rfl, detected, enough⟩
    obtain ⟨_, _, represents⟩ := represents_viewDidLoad loaded
    have translates : ∀ event ∈ events, ∃ action,
        event.action (canvasFor outlets base assets) = some action :=
      fun event among => occurs_translates (occurs event among)
    obtain ⟨final, completed, _⟩ :=
      (step_refines (canvasFor outlets base assets)).completes represents
        translates
    exact ⟨start, final, loaded, completed⟩

/-! ## What a cell shows -/

/-- The image that a drawing of the automatic picture stamps on a face. -/
def stampImages (controller : EditViewController) : Option (List UIImage) :=
  controller.imageView.image.map fun shown =>
    shown.layers.tail.map Drawing.image

/-- Selecting a row uses this moustache: for every face in automatic mode, and
for one new stamp in manual mode. -/
def Uses (before after : EditViewController) (hige : UIImage) : Prop :=
  (before.mode = some 0 →
    after.manualStampViews = before.manualStampViews ∧
      stampImages after =
        some (before.autoImageRect.map fun _ => hige)) ∧
  (before.mode = some 1 →
    after.imageView.image.map Picture.layers =
        before.imageView.image.map Picture.layers ∧
      after.manualStampViews = before.manualStampViews ++
        [newHige hige before.imageView.center])

private theorem Represents.uses {row : ℕ} {hige : UIImage}
    (represents : Represents canvas controller editing)
    (offered : canvas.higeImages[row]? = some hige)
    (taken : controller.didSelectItemAt row = some next) :
    Uses controller next hige := by
  obtain ⟨other, sameStep, kept⟩ := represents.didSelectItemAt offered
  rw [taken, Option.some.injEq] at sameStep
  subst sameStep
  have shown := represents.shown
  obtain ⟨picture, shows, layers⟩ := shown
  obtain ⟨nextPicture, nextShows, nextLayers⟩ := kept.shown
  unfold Uses
  rw [represents.mode, EditMode.some_number_eq_zero_iff]
  cases entered : editing.mode with
  | automatic =>
      simp only [Editing.apply, entered] at kept nextLayers
      constructor
      · intro _
        rw [kept.manualStampViews, represents.manualStampViews, stampImages,
          nextShows, Option.map_some, nextLayers, represents.autoImageRect]
        simp [AutomaticPicture.layers, Function.comp_def]
      · intro manual
        cases manual
  | manual =>
      simp only [Editing.apply, entered] at kept nextLayers
      constructor
      · intro automatic
        cases automatic
      · intro _
        rw [kept.manualStampViews, represents.manualStampViews, shows,
          nextShows, Option.map_some, Option.map_some, layers, nextLayers,
          represents.center, List.map_append]
        exact ⟨rfl, rfl⟩

/-- In every run of a loaded editor the collection offers three rows; these
are the rows for which there is a cell and which can be selected.  A selection
uses the moustache that the cell shows, whatever the cell showed before. -/
theorem tapped_cell_is_used
    (loaded :
      (instantiate outlets (some image)).viewDidLoad assets detector =
        some start)
    (completed : EventRun.run step start events = some final)
    (dequeued : HigeCollectionViewCell) (row : ℕ) :
    final.numberOfItemsInSection = some 3 ∧
      ((final.cellForItemAt dequeued row).isSome = true ↔ row < 3) ∧
        ((step final (.didSelectItemAt row)).isSome = true ↔ row < 3) ∧
          ∀ cell next, final.cellForItemAt dequeued row = some cell →
            step final (.didSelectItemAt row) = some next →
              ∃ hige, cell.imageView.image = some (.image hige) ∧
                Uses final next hige := by
  have edits : Edits (canvasFor outlets image assets) start :=
    (editsInAgreement_loaded loaded).1
  obtain ⟨editing, represents⟩ := edits.of_run completed
  have shows : final.cellForItemAt dequeued row =
      assets.all[row]?.map fun hige =>
        { imageView :=
            { dequeued.imageView with image := some (.image hige) }
          backgroundColor := some .paper } := by
    rw [cellForItemAt, represents.higeImages]
    change assets.all[row]?.bind _ = _
    cases assets.all[row]? with
    | none => rfl
    | some hige => rfl
  refine ⟨?_, ?_, ?_, ?_⟩
  · rw [numberOfItemsInSection, represents.higeImages]
    rfl
  · simp [shows, HigeAssets.all]
  · rw [Option.isSome_iff_exists]
    exact Edits.survives_iff ⟨editing, represents⟩
  · intro cell next dequeues taken
    rw [shows, Option.map_eq_some_iff] at dequeues
    obtain ⟨hige, offered, rfl⟩ := dequeues
    exact ⟨hige, rfl, represents.uses offered taken⟩

theorem tapped_cell_is_used_blank :
    ∃ next hige,
      step blank.setManualMode (.didSelectItemAt 2) = some next ∧
        Uses blank.setManualMode next hige := by
  have completed : EventRun.run step blank [.pushManualBtn] =
      some blank.setManualMode :=
    rfl
  let dequeued : HigeCollectionViewCell :=
    { imageView := .ofFrame ⟨0, ⟨95, 95⟩⟩, backgroundColor := none }
  obtain ⟨_, shown, selected, used⟩ :=
    tapped_cell_is_used blank_loaded completed dequeued 2
  obtain ⟨cell, dequeues⟩ :=
    Option.isSome_iff_exists.mp (shown.mpr (by decide))
  obtain ⟨next, taken⟩ :=
    Option.isSome_iff_exists.mp (selected.mpr (by decide))
  obtain ⟨hige, _, uses⟩ := used cell next dequeues taken
  exact ⟨next, hige, taken, uses⟩

end Loaded

end EditViewController

end HigeMaster
