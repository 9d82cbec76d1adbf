import HigeMaster.EventRun.Visits
import HigeMaster.Scenes.EditorLoading

/-!
# The automatic picture over whole runs

Every handler that changes the faces, the ratio or the stamp image draws the
picture anew from the base image, and no handler writes these in manual mode.
So the picture shown at any time is determined by the faces recorded so far
and by what was last sent and last selected in automatic mode; what happens in
manual mode can be left out of a run.
-/

namespace HigeMaster

open Geometry

namespace EditViewController

/-! ## What the picture depends on -/

/-- Twice the value of a slide that arrives in automatic mode. -/
def automaticRatio (visit : EditViewController × Event) : Option CGFloat :=
  match visit.2 with
  | .slide value =>
      if visit.1.mode = some 0 then some (2 * value.value) else none
  | _ => none

/-- The row of a selection that arrives in automatic mode. -/
def automaticSelection (visit : EditViewController × Event) : Option ℕ :=
  match visit.2 with
  | .didSelectItemAt row => if visit.1.mode = some 0 then some row else none
  | _ => none

/-- The observation that an event hands to `putHige`. -/
def Event.observation : Event → Option VNFaceObservation
  | .putHige observation => some observation
  | _ => none

/-- Twice the last value sent in automatic mode, or the natural ratio. -/
def lastRatio (start : EditViewController) (events : List Event) : CGFloat :=
  ((EventRun.visits step start events).filterMap automaticRatio).getLastD 1

/-- The last row selected in automatic mode, or the first row. -/
def lastSelection (start : EditViewController) (events : List Event) : ℕ :=
  ((EventRun.visits step start events).filterMap automaticSelection).getLastD 0

/-- The rectangles of all faces with outer lips, first those found while the
view loads and then those of the run. -/
def faceRects (base : UIImage) (found : List VNFaceObservation)
    (events : List Event) : List CGRect :=
  (found ++ events.filterMap Event.observation).filterMap (faceRect base)

/-- All but touches, and slides and selections in manual mode. -/
def reachesPicture (visit : EditViewController × Event) : Bool :=
  match visit.2 with
  | .slide _ | .didSelectItemAt _ => visit.1.mode = some 0
  | .touchesMoved _ => false
  | .pushAutoBtn | .pushManualBtn | .putHige _ => true

/-- The run without its touches and its slides and selections in manual
mode. -/
def automaticEvents (start : EditViewController) (events : List Event) :
    List Event :=
  EventRun.visibleEvents step reachesPicture start events

/-- The picture of the base image and one stamp for each face. -/
def ShowsStamps (controller : EditViewController) (base hige : UIImage)
    (ratio : CGFloat) (faces : List CGRect) : Prop :=
  ∃ shown, controller.imageView.image = some shown ∧
    shown.layers =
      { image := base, rect := base.fullRect } ::
        faces.map fun rect =>
          { image := hige, rect := autoStampRect ratio rect }

section Steps

variable {canvas : Canvas} {before after : EditViewController}
  {editing : Editing} {event : Event}

/-- What one step does to the fields that the picture depends on. -/
private theorem automaticStep
    (represents : Represents canvas before editing)
    (taken : step before event = some after) :
    after.sizeRatio =
        (automaticRatio (before, event)).getD before.sizeRatio ∧
      after.selectedHige =
        ((automaticSelection (before, event)).map
          fun row => canvas.higeImages[row]?).getD before.selectedHige ∧
      after.autoImageRect =
        before.autoImageRect ++
          (event.observation.bind (faceRect canvas.base)).toList := by
  obtain ⟨action, means, kept⟩ := represents.step_cases taken
  rw [kept.sizeRatio, kept.selectedHige, kept.autoImageRect,
    represents.sizeRatio, represents.selectedHige, represents.autoImageRect]
  have mode := represents.mode
  cases means with
  | pushAutoBtn | pushManualBtn | touchesMoved =>
      simp [Editing.apply, automaticRatio, automaticSelection,
        Event.observation]
  | slide value =>
      cases entered : editing.mode with
      | automatic =>
          rw [entered] at mode
          simp [Editing.apply, automaticRatio, automaticSelection,
            Event.observation, entered, mode, EditMode.number, mul_comm]
      | manual =>
          rw [entered] at mode
          simp [Editing.apply, automaticRatio, automaticSelection,
            Event.observation, entered, mode, EditMode.number]
  | didSelectItemAt row found =>
      cases entered : editing.mode with
      | automatic =>
          rw [entered] at mode
          simp [Editing.apply, automaticRatio, automaticSelection,
            Event.observation, entered, mode, EditMode.number, found]
      | manual =>
          rw [entered] at mode
          simp [Editing.apply, automaticRatio, automaticSelection,
            Event.observation, entered, mode, EditMode.number]
  | putHige observation =>
      simp [Editing.apply, automaticRatio, automaticSelection,
        Event.observation]

theorem Represents.showsStamps (represents : Represents canvas before editing)
    {hige : UIImage} (selected : before.selectedHige = some hige) :
    ShowsStamps before canvas.base hige before.sizeRatio
      before.autoImageRect := by
  obtain ⟨shown, image, layers⟩ := represents.shown
  have same : editing.picture.hige = hige := by
    rw [represents.selectedHige, Option.some.injEq] at selected
    exact selected
  refine ⟨shown, image, ?_⟩
  rw [layers, AutomaticPicture.layers, represents.sizeRatio,
    represents.autoImageRect, same]

end Steps

/-! ## Runs -/

section Runs

variable {outlets : EditOutlets} {base : UIImage} {assets : HigeAssets}
  {detector : VNFaceLandmarksDetector} {start final : EditViewController}
  {events : List Event}

private theorem automaticRun {canvas : Canvas} {editing : Editing}
    (represents : Represents canvas start editing)
    (completed : EventRun.run step start events = some final) :
    final.sizeRatio =
        ((EventRun.visits step start events).filterMap
          automaticRatio).getLastD start.sizeRatio ∧
      final.selectedHige =
        (((EventRun.visits step start events).filterMap
          automaticSelection).map
            fun row => canvas.higeImages[row]?).getLastD start.selectedHige ∧
      final.autoImageRect =
        start.autoImageRect ++
          (events.filterMap Event.observation).filterMap
            (faceRect canvas.base) := by
  have initial : Edits canvas start := ⟨editing, represents⟩
  have preserved (before : EditViewController) (event : Event)
      (after : EditViewController) (edits : Edits canvas before)
      (taken : step before event = some after) : Edits canvas after :=
    edits.of_step taken
  refine ⟨?_, ?_, ?_⟩
  · apply EventRun.last_write sizeRatio automaticRatio initial preserved _
      completed
    intro before event after edits taken
    rcases edits with ⟨editing, represents⟩
    exact (automaticStep represents taken).1
  · rw [List.map_filterMap]
    apply EventRun.last_write selectedHige _ initial preserved _ completed
    intro before event after edits taken
    rcases edits with ⟨editing, represents⟩
    exact (automaticStep represents taken).2.1
  · have recording : (events.filterMap Event.observation).filterMap
          (faceRect canvas.base) =
        (EventRun.visits step start events).flatMap fun visit =>
          (visit.2.observation.bind (faceRect canvas.base)).toList := by
      conv => lhs; rw [← EventRun.visits_map_snd completed]
      rw [List.filterMap_filterMap, List.filterMap_map,
        List.filterMap_eq_flatMap_toList]
      rfl
    rw [recording]
    apply EventRun.all_appended autoImageRect _ initial preserved _ completed
    intro before event after edits taken
    rcases edits with ⟨editing, represents⟩
    exact (automaticStep represents taken).2.2

/-- Two controllers that differ at most in their slider and their manual
stamps. -/
def SamePicture (canvas : Canvas) (left right : EditViewController) : Prop :=
  ∃ leftEditing rightEditing,
    Represents canvas left leftEditing ∧
      Represents canvas right rightEditing ∧
        rightEditing.mode = leftEditing.mode ∧
          rightEditing.picture = leftEditing.picture

theorem SamePicture.showsStamps {canvas : Canvas}
    {left right : EditViewController} {hige : UIImage}
    (same : SamePicture canvas left right)
    (selected : left.selectedHige = some hige) :
    ShowsStamps right canvas.base hige left.sizeRatio left.autoImageRect := by
  obtain ⟨leftEditing, rightEditing, leftHolds, rightHolds, _, picture⟩ := same
  rw [leftHolds.sizeRatio, leftHolds.autoImageRect, ← picture,
    ← rightHolds.sizeRatio, ← rightHolds.autoImageRect]
  apply rightHolds.showsStamps
  rw [rightHolds.selectedHige, picture, ← leftHolds.selectedHige]
  exact selected

private theorem apply_picture_congr {center : CGPoint}
    {left right : Editing} (mode : right.mode = left.mode)
    (picture : right.picture = left.picture) (action : Editing.Action) :
    (right.apply center action).mode = (left.apply center action).mode ∧
      (right.apply center action).picture =
        (left.apply center action).picture := by
  cases action with
  | enter entered => exact ⟨rfl, picture⟩
  | slide value =>
      cases entered : left.mode <;> simp [Editing.apply, mode, picture, entered]
  | select image =>
      cases entered : left.mode <;> simp [Editing.apply, mode, picture, entered]
  | drag touches => exact ⟨mode, picture⟩
  | record face =>
      refine ⟨mode, ?_⟩
      simp only [Editing.apply, picture]

private theorem apply_of_not_reachesPicture {canvas : Canvas}
    {controller : EditViewController} {editing : Editing} {event : Event}
    {action : Editing.Action}
    (represents : Represents canvas controller editing)
    (hidden : reachesPicture (controller, event) = false)
    (means : event.Means canvas action) :
    (editing.apply canvas.center action).mode = editing.mode ∧
      (editing.apply canvas.center action).picture = editing.picture := by
  have mode := represents.mode
  cases means with
  | pushAutoBtn | pushManualBtn | putHige => cases hidden
  | slide value =>
      cases entered : editing.mode with
      | automatic =>
          simp [reachesPicture, mode, entered, EditMode.number] at hidden
      | manual => simp [Editing.apply, entered]
  | didSelectItemAt row found =>
      cases entered : editing.mode with
      | automatic =>
          simp [reachesPicture, mode, entered, EditMode.number] at hidden
      | manual => simp [Editing.apply, entered]
  | touchesMoved touches => exact ⟨rfl, rfl⟩

/-- The automatic events alone lead to the same picture. -/
private theorem run_automaticEvents {canvas : Canvas}
    (edits : Edits canvas start)
    (completed : EventRun.run step start events = some final) :
    ∃ other, EventRun.run step start (automaticEvents start events) =
        some other ∧
      SamePicture canvas final other := by
  obtain ⟨editing, represents⟩ := edits
  have refines := step_refines canvas
  have related : SamePicture canvas start start :=
    ⟨editing, editing, represents, represents, rfl, rfl⟩
  apply EventRun.run_visibleEvents _ _ related completed
  · intro before other event after
      ⟨left, right, leftHolds, rightHolds, mode, picture⟩ hidden taken
    obtain ⟨action, means, kept⟩ := leftHolds.step_cases taken
    obtain ⟨sameMode, samePicture⟩ :=
      apply_of_not_reachesPicture leftHolds hidden means
    exact ⟨_, right, kept, rightHolds, mode.trans sameMode.symm,
      picture.trans samePicture.symm⟩
  · intro before other event after
      ⟨left, right, leftHolds, rightHolds, mode, picture⟩ _ taken
    obtain ⟨action, translated, kept⟩ :=
      refines.step_eq_some leftHolds taken
    obtain ⟨next, follows, holds⟩ :=
      refines.step_succeeds rightHolds translated
    obtain ⟨sameMode, samePicture⟩ :=
      apply_picture_congr mode picture action
    exact ⟨next, follows, _, _, kept, holds, sameMode, samePicture⟩

/-- After every run, the picture is the base image and one stamp for each face
in the order of arrival, drawn with what was last sent and last selected in
automatic mode; and so it is without touches and without what was sent and
selected in manual mode. -/
theorem automatic_picture
    (loaded :
      (instantiate outlets (some base)).viewDidLoad assets detector =
        some start)
    (occurs : ∀ event ∈ events, event.Occurs) :
    ∃ found hige final,
      observations detector base = some found ∧
      assets.all[lastSelection start events]? = some hige ∧
      EventRun.run step start events = some final ∧
      ShowsStamps final base hige (lastRatio start events)
        (faceRects base found events) ∧
      ∃ other,
        EventRun.run step start (automaticEvents start events) = some other ∧
        ShowsStamps other base hige (lastRatio start events)
          (faceRects base found events) := by
  obtain ⟨found, detected, represents⟩ := represents_viewDidLoad loaded
  have edits : Edits (canvasFor outlets base assets) start :=
    ⟨_, represents⟩
  obtain ⟨final, completed, editing, holds⟩ :=
    (step_refines (canvasFor outlets base assets)).completes represents
      fun event member => occurs_translates (occurs event member)
  obtain ⟨other, reached, same⟩ := run_automaticEvents edits completed
  obtain ⟨ratio, selected, faces⟩ := automaticRun represents completed
  have ratioEq : final.sizeRatio = lastRatio start events := by
    rw [ratio, represents.sizeRatio]
    rfl
  have higeEq : final.selectedHige =
      assets.all[lastSelection start events]? := by
    rw [selected, represents.selectedHige]
    exact List.getLastD_map (f := fun row : ℕ => assets.all[row]?) (a := 0)
  have facesEq : final.autoImageRect = faceRects base found events := by
    rw [faces, represents.autoImageRect, faceRects, List.filterMap_append]
    rfl
  refine ⟨found, editing.picture.hige, final, detected, ?_, completed, ?_,
    other, reached, ?_⟩
  · rw [← higeEq]
    exact holds.selectedHige
  · rw [← ratioEq, ← facesEq]
    exact holds.showsStamps holds.selectedHige
  · rw [← ratioEq, ← facesEq]
    exact same.showsStamps holds.selectedHige

end Runs

/-- A face whose outer lips are ten points in a row. -/
def lipsInARow : VNFaceObservation :=
  { landmarks := some
      { outerLips := some
          { faceBoundingBox :=
              { origin := { x := 0, y := 0 }
                size := { width := 1, height := 1 } }
            normalizedPoints :=
              (List.range 10).map fun index =>
                { x := index / 10, y := 1 / 2 } } } }

/-- The user slides and selects in both modes, and a face arrives late. -/
def slideInBothModes : List Event :=
  [.slide .highest, .didSelectItemAt 1, .pushManualBtn, .didSelectItemAt 2,
    .slide .lowest, .putHige lipsInARow]

theorem slideInBothModes_occurs : ∀ event ∈ slideInBothModes, event.Occurs := by
  have lips : HasLipPoints lipsInARow := by
    intro mouse found
    cases found
    exact le_refl 10
  simp [slideInBothModes, Event.Occurs, lips]

theorem automatic_picture_slideInBothModes :
    ∃ found hige final,
      observations noFaces .onePixel = some found ∧
      blankAssets.all[lastSelection blank slideInBothModes]? = some hige ∧
      EventRun.run step blank slideInBothModes = some final ∧
      ShowsStamps final .onePixel hige (lastRatio blank slideInBothModes)
        (faceRects .onePixel found slideInBothModes) ∧
      ∃ other,
        EventRun.run step blank (automaticEvents blank slideInBothModes) =
          some other ∧
        ShowsStamps other .onePixel hige (lastRatio blank slideInBothModes)
          (faceRects .onePixel found slideInBothModes) :=
  automatic_picture blank_loaded slideInBothModes_occurs

end EditViewController

end HigeMaster
