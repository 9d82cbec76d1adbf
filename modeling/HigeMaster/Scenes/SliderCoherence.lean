import HigeMaster.Scenes.EditorLoading

/-!
# The slider and the sizes

The slider is meant to tell the size of what the current mode edits.  A slide
writes both the slider and that size, but entering a mode writes only the
slider, and a new manual stamp has a size of its own.  The slider tells the
truth throughout a run exactly when these events arrive while the sizes are
natural.
-/

namespace HigeMaster

open Geometry

namespace Editing

/-- The slider tells the size of what the mode edits. -/
def Coherent (editing : Editing) : Prop :=
  match editing.mode with
  | .automatic => editing.picture.ratio = 2 * editing.slider
  | .manual => ∀ stamp ∈ editing.stamps, stamp.factor = 2 * editing.slider

/-- An action that leaves the slider coherent. -/
def Action.Coherent (editing : Editing) : Action → Prop
  | .enter .automatic => editing.picture.ratio = 1
  | .enter .manual => ∀ stamp ∈ editing.stamps, stamp.factor = 1
  | .select _ => editing.mode = .manual → editing.slider = 1 / 2
  | .slide _ | .drag _ | .record _ => True

private theorem factors_iff {stamps : List Stamp} {factor : CGFloat} :
    (∀ stamp ∈ stamps, stamp.factor = factor) ↔
      ∀ other ∈ stamps.map Stamp.factor, other = factor := by
  rw [List.forall_mem_map]

theorem coherent_apply_iff {center : CGPoint} {editing : Editing}
    {action : Action} (coherent : editing.Coherent) :
    (editing.apply center action).Coherent ↔ action.Coherent editing := by
  cases action with
  | enter mode =>
      cases mode with
      | automatic => norm_num [Coherent, Action.Coherent, apply]
      | manual => norm_num [Coherent, Action.Coherent, apply]
  | slide value =>
      simp only [Action.Coherent, iff_true]
      cases entered : editing.mode with
      | automatic =>
          simp only [Coherent, apply, entered]
          exact mul_comm value 2
      | manual =>
          simp only [Coherent, apply, entered, List.forall_mem_map]
          intro stamp _
          exact mul_comm value 2
  | select image =>
      cases entered : editing.mode with
      | automatic =>
          simp only [Coherent, entered] at coherent
          simpa [Coherent, Action.Coherent, apply, entered] using coherent
      | manual =>
          simp only [Coherent, entered] at coherent
          simp only [Coherent, Action.Coherent, apply, entered,
            List.forall_mem_append, List.forall_mem_singleton, Stamp.new,
            forall_const]
          constructor
          · intro given
            rcases given with ⟨_, natural⟩
            linarith
          · intro middle
            refine ⟨coherent, ?_⟩
            linarith
  | drag touches =>
      simp only [Action.Coherent, iff_true]
      cases entered : editing.mode with
      | automatic =>
          simp only [Coherent, entered] at coherent
          simpa only [Coherent, apply, entered] using coherent
      | manual =>
          simp only [Coherent, entered] at coherent
          simp only [Coherent, apply, entered]
          rw [factors_iff, foldl_dragAll_factors, ← factors_iff]
          exact coherent
  | record face =>
      simp only [Action.Coherent, iff_true]
      exact coherent

end Editing

namespace EditViewController

/-- In automatic mode the slider tells the ratio of the automatic picture, and
in manual mode it tells the scale of every manual stamp. -/
def SliderCoherent (controller : EditViewController) : Prop :=
  (controller.mode = some 0 →
    controller.sizeRatio = 2 * controller.sizeSlider.value) ∧
  (controller.mode = some 1 →
    ∀ imgView ∈ controller.manualStampViews,
      imgView.transform = .uniform (2 * controller.sizeSlider.value))

/-- The event arrives while it keeps the slider coherent: automatic mode is
entered with the natural ratio, manual mode is entered with stamps of natural
size, and a stamp is added with the slider in the middle. -/
def KeepsSlider (before : EditViewController) : Event → Prop
  | .pushAutoBtn => before.sizeRatio = 1
  | .pushManualBtn =>
      ∀ imgView ∈ before.manualStampViews, imgView.transform = .identity
  | .didSelectItemAt _ =>
      before.mode = some 1 → before.sizeSlider.value = 1 / 2
  | .slide _ | .touchesMoved _ | .putHige _ => True

section Coherence

variable {canvas : Canvas} {controller : EditViewController}
  {editing : Editing}

private theorem Represents.transforms_iff
    (represents : Represents canvas controller editing) {factor : CGFloat} :
    (∀ imgView ∈ controller.manualStampViews,
        imgView.transform = .uniform factor) ↔
      ∀ stamp ∈ editing.stamps, stamp.factor = factor := by
  rw [represents.manualStampViews, List.forall_mem_map]
  simp only [Stamp.view, AffineTransform.uniform_inj]

theorem Represents.sliderCoherent_iff
    (represents : Represents canvas controller editing) :
    SliderCoherent controller ↔ editing.Coherent := by
  unfold SliderCoherent Editing.Coherent
  rw [represents.mode, represents.sizeRatio, represents.value,
    represents.transforms_iff]
  cases editing.mode <;> simp [EditMode.number]

theorem Represents.keepsSlider_iff {event : Event} {action : Editing.Action}
    (represents : Represents canvas controller editing)
    (means : event.Means canvas action) :
    KeepsSlider controller event ↔ action.Coherent editing := by
  cases means with
  | pushAutoBtn =>
      simp only [KeepsSlider, Editing.Action.Coherent, represents.sizeRatio]
  | pushManualBtn =>
      simp only [KeepsSlider, Editing.Action.Coherent,
        AffineTransform.identity_eq_uniform]
      exact represents.transforms_iff
  | didSelectItemAt row found =>
      simp only [KeepsSlider, Editing.Action.Coherent, represents.mode,
        represents.value]
      cases editing.mode <;> simp [EditMode.number]
  | slide | touchesMoved | putHige =>
      simp only [KeepsSlider, Editing.Action.Coherent]

end Coherence

/-- The slider is coherent in every state of a run exactly when every event of
the run arrives while it keeps the slider coherent. -/
theorem always_sliderCoherent_iff {outlets : EditOutlets}
    {image : Option UIImage} {assets : HigeAssets}
    {detector : VNFaceLandmarksDetector} {start : EditViewController}
    {events : List Event}
    (loaded :
      (instantiate outlets image).viewDidLoad assets detector = some start) :
    EventRun.Always step SliderCoherent start events ↔
      EventRun.EveryStep step (fun before event _ => KeepsSlider before event)
        start events := by
  obtain ⟨base, rfl⟩ := image_of_loaded loaded
  obtain ⟨found, _, represents⟩ := represents_viewDidLoad loaded
  have initial : Edits (canvasFor outlets base assets) start :=
    ⟨_, represents⟩
  apply EventRun.always_iff_everyStep initial
  · rw [represents.sliderCoherent_iff]
    norm_num [Editing.Coherent, loadedEditing, opening]
  · intro before event after edits taken
    exact edits.of_step taken
  · intro before event after edits coherent taken
    rcases edits with ⟨editing, kept⟩
    obtain ⟨action, means, next⟩ := kept.step_cases taken
    rw [next.sliderCoherent_iff, kept.keepsSlider_iff means]
    exact Editing.coherent_apply_iff (kept.sliderCoherent_iff.mp coherent)

/-- The user makes the automatic stamps twice as large, looks at the manual
mode and returns. -/
def slideAndReturn : List Event :=
  [.slide .highest, .pushManualBtn, .pushAutoBtn]

/-- After the return the stamps are still twice as large, and the slider is in
the middle. -/
theorem slideAndReturn_incoherent :
    (instantiate .storyboard (some .onePixel)).viewDidLoad blankAssets
        noFaces = some blank ∧
      ∃ final, EventRun.run step blank slideAndReturn = some final ∧
        ¬SliderCoherent final := by
  have represents :=
    represents_opened .storyboard .onePixel blankAssets
  have translated :
      slideAndReturn.mapM
          (Event.action (canvasFor .storyboard .onePixel blankAssets)) =
        some [.slide 1, .enter .manual, .enter .automatic] :=
    rfl
  obtain ⟨final, completed, holds⟩ :=
    (step_refines _).run represents translated
  refine ⟨blank_loaded, final, completed, ?_⟩
  rw [holds.sliderCoherent_iff]
  norm_num [Editing.Coherent, Editing.apply, opening]

theorem always_sliderCoherent_iff_slideAndReturn :
    EventRun.Always step SliderCoherent blank slideAndReturn ↔
      EventRun.EveryStep step (fun before event _ => KeepsSlider before event)
        blank slideAndReturn :=
  always_sliderCoherent_iff blank_loaded

end EditViewController

end HigeMaster
