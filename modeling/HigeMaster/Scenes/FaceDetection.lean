import HigeMaster.Scenes.EditorLoading

/-!
# Outcomes of face detection

Detection can fail, and what it finds need not be usable.  The editor copes
with an observation without outer lips, and with a `perform` that throws
before its handler is called.  It stops at a handler that is called without
results, which is how a failed request is reported, and at outer lips with
fewer than ten points.
-/

namespace HigeMaster

open Geometry

namespace VNOutcome

/-- The observations of a request that succeeded; `none` if it failed, whether
`perform` threw or the handler was called without results. -/
def reported (outcome : VNOutcome) : Option (List VNFaceObservation) := do
  let completion ← outcome.completion
  completion.results

end VNOutcome

namespace EditViewController

/-- If the handler is called at all, it gets observations, and these have
enough lip points. -/
def Readable (outcome : VNOutcome) : Prop :=
  ∀ completion, outcome.completion = some completion →
    ∃ found, completion.results = some found ∧
      ∀ observation ∈ found, HasLipPoints observation

/-- What detection should do to an editor of `image`: nothing if the request
failed, and otherwise record the rectangles of the usable observations in
their order and show all recorded rectangles. -/
structure DetectionHandled (image : UIImage) (outcome : VNOutcome)
    (before after : EditViewController) : Prop where
  failed : outcome.reported = none → after = before
  recorded : ∀ found, outcome.reported = some found →
    after.autoImageRect =
      before.autoImageRect ++ found.filterMap (faceRect image)
  shown : ∀ found, outcome.reported = some found →
    ∃ hige picture, after.selectedHige = some hige ∧
      after.imageView.image = some picture ∧
        picture.layers =
          { image := image, rect := image.fullRect } ::
            after.autoImageRect.map fun rect =>
              { image := hige, rect := autoStampRect after.sizeRatio rect }

section Detection

variable {canvas : Canvas} {before : EditViewController}
  {editing : Editing} {raster : CGImage}
  {detector : VNFaceLandmarksDetector}

private theorem observations_of_called {completion : VNCompletion}
    (backed : canvas.base.cgImage = some raster)
    (called : (detector raster).completion = some completion) :
    observations detector canvas.base = completion.results := by
  simp only [observations, backed, called]

private theorem observations_of_silent
    (backed : canvas.base.cgImage = some raster)
    (silent : (detector raster).completion = none) :
    observations detector canvas.base = some [] := by
  simp only [observations, backed, silent]

theorem Represents.readable_of_detected {after : EditViewController}
    (represents : Represents canvas before editing)
    (backed : canvas.base.cgImage = some raster)
    (detected : before.detectFaceLandmark detector = some after) :
    Readable (detector raster) := by
  intro completion called
  rw [detectFaceLandmark_eq represents.image,
    observations_of_called backed called, Option.bind_eq_some_iff] at detected
  obtain ⟨found, results, completed⟩ := detected
  exact ⟨found, results,
    represents.putHiges_complete_iff.mp ⟨after, completed⟩⟩

/-- A failed request may leave the editor as it is. -/
private theorem detectionHandled_of_failed {outcome : VNOutcome}
    (failed : outcome.reported = none) :
    DetectionHandled canvas.base outcome before before :=
  { failed := fun _ => rfl
    recorded := fun found reported => by
      rw [failed] at reported
      cases reported
    shown := fun found reported => by
      rw [failed] at reported
      cases reported }

private theorem Represents.detectionHandled_of_reported {outcome : VNOutcome}
    {found : List VNFaceObservation} {after : EditViewController}
    (represents : Represents canvas before editing)
    (succeeded : outcome.reported = some found)
    (completed :
      EventRun.run step before (found.map .putHige) = some after) :
    DetectionHandled canvas.base outcome before after := by
  have holds := represents.putHiges completed
  have same (other : List VNFaceObservation)
      (reported : outcome.reported = some other) : found = other := by
    rw [succeeded, Option.some.injEq] at reported
    exact reported
  refine { failed := ?_, recorded := ?_, shown := ?_ }
  · intro reported
    rw [succeeded] at reported
    cases reported
  · intro other reported
    rw [holds.autoImageRect, represents.autoImageRect, same other reported]
  · intro other _
    obtain ⟨picture, there, layers⟩ := holds.shown
    refine ⟨_, picture, holds.selectedHige, there, ?_⟩
    rw [layers, holds.autoImageRect, holds.sizeRatio]
    rfl

theorem Represents.detection_handled
    (represents : Represents canvas before editing)
    (backed : canvas.base.cgImage = some raster)
    (readable : Readable (detector raster)) :
    ∃ after, before.detectFaceLandmark detector = some after ∧
      DetectionHandled canvas.base (detector raster) before after := by
  rw [detectFaceLandmark_eq represents.image]
  cases called : (detector raster).completion with
  | none =>
      have failed : (detector raster).reported = none := by
        rw [VNOutcome.reported, called]
        rfl
      rw [observations_of_silent backed called]
      exact ⟨before, rfl, detectionHandled_of_failed failed⟩
  | some completion =>
      obtain ⟨found, results, enough⟩ := readable completion called
      have succeeded : (detector raster).reported = some found := by
        rw [VNOutcome.reported, called]
        exact results
      obtain ⟨after, completed⟩ :=
        represents.putHiges_complete_iff.mpr enough
      rw [observations_of_called backed called, results]
      exact ⟨after, completed,
        represents.detectionHandled_of_reported succeeded completed⟩

end Detection

/-- Detection is handled as it should be exactly if its outcome is readable,
when it starts while the view loads and also after any events. -/
theorem detection_handled_iff {outlets : EditOutlets} {image : UIImage}
    {assets : HigeAssets} {raster : CGImage} {events : List Event}
    {before : EditViewController} {detector : VNFaceLandmarksDetector}
    (backed : image.cgImage = some raster)
    (reached :
      EventRun.run step (opened outlets image assets) events = some before) :
    (∃ after, before.detectFaceLandmark detector = some after ∧
        DetectionHandled image (detector raster) before after) ↔
      Readable (detector raster) := by
  have initial : Edits (canvasFor outlets image assets)
      (opened outlets image assets) :=
    ⟨_, represents_opened outlets image assets⟩
  obtain ⟨editing, represents⟩ := initial.of_run reached
  constructor
  · intro given
    rcases given with ⟨after, detected, _⟩
    exact represents.readable_of_detected backed detected
  · intro readable
    exact represents.detection_handled backed readable

/-! ## Three outcomes -/

/-- Outer lips with this many points, all in the middle of the face. -/
def lipsOf (count : ℕ) : VNFaceObservation :=
  { landmarks := some
      { outerLips := some
          { faceBoundingBox :=
              { origin := { x := 0, y := 0 }
                size := { width := 1, height := 1 } }
            normalizedPoints :=
              List.replicate count { x := 1 / 2, y := 1 / 2 } } } }

/-- Faces without landmarks, without outer lips and with ten lip points. -/
def mixedFaces : VNFaceLandmarksDetector := fun _ =>
  { completion := some
      { results := some
          [{ landmarks := none },
            { landmarks := some { outerLips := none } },
            lipsOf 10]
        error := none }
    thrown := none }

/-- The request fails, and its handler is called with the error. -/
def failedRequest : VNFaceLandmarksDetector := fun _ =>
  { completion := some { results := none, error := some { code := 9 } }
    thrown := some { code := 9 } }

/-- A face whose outer lips have nine points. -/
def fewLips : VNFaceLandmarksDetector := fun _ =>
  { completion := some { results := some [lipsOf 9], error := none }
    thrown := none }

theorem detection_handled_iff_mixedFaces :
    ∃ raster, UIImage.onePixel.cgImage = some raster ∧
      ((∃ after, blank.detectFaceLandmark mixedFaces = some after ∧
          DetectionHandled .onePixel (mixedFaces raster) blank after) ↔
        Readable (mixedFaces raster)) := by
  obtain ⟨raster, backed⟩ : ∃ raster, UIImage.onePixel.cgImage = some raster :=
    ⟨_, rfl⟩
  have reached : EventRun.run step (opened .storyboard .onePixel blankAssets)
      [] = some blank :=
    rfl
  exact ⟨raster, backed, detection_handled_iff backed reached⟩

/-- The editor survives neither a failed request nor lips with too few
points. -/
theorem detection_unhandled :
    ∃ raster, UIImage.onePixel.cgImage = some raster ∧
      (¬∃ after, blank.detectFaceLandmark failedRequest = some after ∧
          DetectionHandled .onePixel (failedRequest raster) blank after) ∧
        ¬∃ after, blank.detectFaceLandmark fewLips = some after ∧
          DetectionHandled .onePixel (fewLips raster) blank after := by
  refine ⟨_, rfl, ?_, ?_⟩
  · intro given
    rcases given with ⟨after, detected, _⟩
    have stopped : blank.detectFaceLandmark failedRequest = none := rfl
    rw [stopped] at detected
    cases detected
  · intro given
    rcases given with ⟨after, detected, _⟩
    have stopped : blank.detectFaceLandmark fewLips = none := rfl
    rw [stopped] at detected
    cases detected

end EditViewController

end HigeMaster
