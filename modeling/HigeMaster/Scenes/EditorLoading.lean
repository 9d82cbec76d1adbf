import HigeMaster.Scenes.EditingRefinement
import HigeMaster.Scenes.Mouth

/-!
# Loading the editor

While its view loads, the editor hands every face that Vision finds to
`putHige`, so loading is a run from a state without faces.  An editor loads
unless it has no image, detection has no results, or a face has too few lip
points; from then on it survives every event that can occur.
-/

namespace HigeMaster

open Geometry

namespace EditViewController

/-- The observations that detection hands to `putHige` while the view loads;
`none` if it stops the program first. -/
def observations (detector : VNFaceLandmarksDetector) (image : UIImage) :
    Option (List VNFaceObservation) :=
  match image.cgImage with
  | none => some []
  | some cgImage =>
      match (detector cgImage).completion with
      | none => some []
      | some completion => completion.results

/-- What an editor of this image edits. -/
def canvasFor (outlets : EditOutlets) (image : UIImage) (assets : HigeAssets) :
    Canvas :=
  { base := image
    higeImages := assets.all
    center := outlets.imageView.center }

/-- The editor before any face has been recorded. -/
def opening (assets : HigeAssets) : Editing :=
  { mode := .automatic
    slider := 1 / 2
    picture := { ratio := 1, hige := assets.hige1, faces := [] }
    stamps := [] }

/-- The controller just before detection starts. -/
def opened (outlets : EditOutlets) (image : UIImage) (assets : HigeAssets) :
    EditViewController :=
  let loading := instantiate outlets (some image)
  initSlider
      { loading with
        imageView := { outlets.imageView with image := some (.image image) }
        higeImages := some assets.all
        selectedHige := some assets.hige1 }
    |>.setAutoMode

private theorem run_putHiges (controller : EditViewController)
    (found : List VNFaceObservation) :
    EventRun.run step controller (found.map .putHige) =
      found.foldlM putHige controller := by
  rw [EventRun.run, List.foldlM_map]
  rfl

/-- Detection is a run over the observations that it hands on. -/
theorem detectFaceLandmark_eq {controller : EditViewController}
    {image : UIImage} (shows : controller.image = some image)
    (detector : VNFaceLandmarksDetector) :
    controller.detectFaceLandmark detector =
      (observations detector image).bind fun found =>
        EventRun.run step controller (found.map .putHige) := by
  simp only [run_putHiges]
  rw [detectFaceLandmark, shows, observations]
  simp only [Option.bind_eq_bind, Option.bind_some]
  cases image.cgImage with
  | none => rfl
  | some cgImage =>
      simp only
      cases (detector cgImage).completion <;> rfl

theorem viewDidLoad_eq (outlets : EditOutlets) (image : UIImage)
    (assets : HigeAssets) (detector : VNFaceLandmarksDetector) :
    (instantiate outlets (some image)).viewDidLoad assets detector =
      (observations detector image).bind fun found =>
        EventRun.run step (opened outlets image assets)
          (found.map .putHige) := by
  change detectFaceLandmark (opened outlets image assets) detector = _
  exact detectFaceLandmark_eq rfl detector

theorem represents_opened (outlets : EditOutlets) (image : UIImage)
    (assets : HigeAssets) :
    Represents (canvasFor outlets image assets) (opened outlets image assets)
      (opening assets) := by
  have ranged : ((outlets.sizeSlider.setMaximumValue 1).setMinimumValue
      0).minimumValue = 0 ∧
        ((outlets.sizeSlider.setMaximumValue 1).setMinimumValue
          0).maximumValue = 1 := by
    constructor
    · rfl
    · exact max_eq_left zero_le_one
  have sizes : (opened outlets image assets).sizeSlider.IsSizeSlider :=
    ⟨ranged.1, ranged.2, rfl⟩
  exact
    { image := rfl
      higeImages := rfl
      center := rfl
      sizeSlider := sizes
      value := sizes.value_setValue (by norm_num) (by norm_num)
      mode := rfl
      sizeRatio := rfl
      selectedHige := rfl
      autoImageRect := rfl
      manualStampViews := rfl
      shown := ⟨_, rfl, rfl⟩ }

theorem Represents.putHiges {canvas : Canvas}
    {controller final : EditViewController} {editing : Editing}
    (represents : Represents canvas controller editing)
    {found : List VNFaceObservation}
    (completed :
      EventRun.run step controller (found.map .putHige) = some final) :
    Represents canvas final
      { editing with
        picture :=
          { editing.picture with
            faces := editing.picture.faces ++
              found.filterMap (faceRect canvas.base) } } := by
  induction found generalizing controller editing with
  | nil =>
      rw [List.map_nil, EventRun.run_nil, Option.some.injEq] at completed
      subst completed
      simpa using represents
  | cons observation found induction =>
      obtain ⟨next, taken, completed⟩ :=
        EventRun.run_cons_eq_some.mp completed
      obtain ⟨_, ⟨⟩, kept⟩ := represents.step_cases taken
      have holds := induction kept completed
      cases face : faceRect canvas.base observation with
      | none => simpa [Editing.apply, face] using holds
      | some rect => simpa [Editing.apply, face] using holds

/-- The editor once its view is loaded. -/
def loadedEditing (image : UIImage) (assets : HigeAssets)
    (found : List VNFaceObservation) : Editing :=
  { opening assets with
    picture :=
      { (opening assets).picture with
        faces := found.filterMap (faceRect image) } }

theorem represents_viewDidLoad {outlets : EditOutlets} {image : UIImage}
    {assets : HigeAssets} {detector : VNFaceLandmarksDetector}
    {start : EditViewController}
    (loaded :
      (instantiate outlets (some image)).viewDidLoad assets detector =
        some start) :
    ∃ found, observations detector image = some found ∧
      Represents (canvasFor outlets image assets) start
        (loadedEditing image assets found) := by
  rw [viewDidLoad_eq, Option.bind_eq_some_iff] at loaded
  obtain ⟨found, detected, completed⟩ := loaded
  exact ⟨found, detected,
    (represents_opened outlets image assets).putHiges completed⟩

/-! ## Events that can occur -/

/-- The outer lips, if there are any, have the points that `putHige` reads. -/
def HasLipPoints (observation : VNFaceObservation) : Prop :=
  ∀ mouse, observation.mouse = some mouse →
    10 ≤ mouse.normalizedPoints.length

/-- The event selects a row of the collection, if it is a selection, and has
enough lip points, if it is an observation. -/
def Event.Occurs : Event → Prop
  | .didSelectItemAt row => row < 3
  | .putHige observation => HasLipPoints observation
  | _ => True

/-- `putHige` survives exactly the observations with enough lip points. -/
theorem putHige_translates_iff {canvas : Canvas}
    {observation : VNFaceObservation} :
    (∃ action, (Event.putHige observation).action canvas = some action) ↔
      HasLipPoints observation := by
  unfold HasLipPoints
  cases lips : observation.mouse with
  | none => simp [Event.action, recorded, lips]
  | some mouse =>
      simp only [Event.action, recorded, lips, Option.map_eq_some_iff,
        Option.some.injEq, forall_eq']
      rw [← length_lipPoints canvas.base mouse, ← exists_mouthRect_iff]
      constructor
      · intro given
        rcases given with ⟨_, _, ⟨rect, read, _⟩, _⟩
        exact ⟨rect, read⟩
      · intro given
        rcases given with ⟨rect, read⟩
        exact ⟨_, some rect, ⟨rect, read, rfl⟩, rfl⟩

theorem Represents.putHiges_complete_iff {canvas : Canvas}
    {controller : EditViewController} {editing : Editing}
    {found : List VNFaceObservation}
    (represents : Represents canvas controller editing) :
    (∃ final,
        EventRun.run step controller (found.map .putHige) = some final) ↔
      ∀ observation ∈ found, HasLipPoints observation := by
  constructor
  · intro given observation member
    rcases given with ⟨final, completed⟩
    apply putHige_translates_iff.mp
    exact (step_refines canvas).translates represents completed _
      (List.mem_map_of_mem member)
  · intro enough
    have translates : ∀ event ∈ found.map Event.putHige,
        ∃ action, event.action canvas = some action := by
      intro event member
      obtain ⟨observation, among, rfl⟩ := List.mem_map.mp member
      exact putHige_translates_iff.mpr (enough observation among)
    obtain ⟨final, completed, _⟩ :=
      (step_refines canvas).completes represents translates
    exact ⟨final, completed⟩

theorem occurs_translates {outlets : EditOutlets} {base : UIImage}
    {assets : HigeAssets} {event : Event} (occurs : event.Occurs) :
    ∃ action, event.action (canvasFor outlets base assets) = some action := by
  cases event with
  | pushAutoBtn | pushManualBtn | slide | touchesMoved => exact ⟨_, rfl⟩
  | didSelectItemAt row =>
      have inRange : row < (canvasFor outlets base assets).higeImages.length :=
        occurs
      simp [Event.action, List.getElem?_eq_getElem inRange]
  | putHige observation => exact putHige_translates_iff.mpr occurs

theorem viewDidLoad_succeeds {outlets : EditOutlets} {image : UIImage}
    {assets : HigeAssets} {detector : VNFaceLandmarksDetector}
    {found : List VNFaceObservation}
    (observed : observations detector image = some found)
    (enough : ∀ observation ∈ found, HasLipPoints observation) :
    ∃ start,
      (instantiate outlets (some image)).viewDidLoad assets detector =
          some start ∧
        Represents (canvasFor outlets image assets) start
          (loadedEditing image assets found) := by
  have represents := represents_opened outlets image assets
  obtain ⟨start, completed⟩ := represents.putHiges_complete_iff.mpr enough
  refine ⟨start, ?_, represents.putHiges completed⟩
  rw [viewDidLoad_eq, observed]
  exact completed

theorem image_of_loaded {outlets : EditOutlets} {image : Option UIImage}
    {assets : HigeAssets} {detector : VNFaceLandmarksDetector}
    {start : EditViewController}
    (loaded :
      (instantiate outlets image).viewDidLoad assets detector = some start) :
    ∃ base, image = some base := by
  cases image with
  | none => cases loaded
  | some base => exact ⟨base, rfl⟩

/-! ## A blank editor -/

/-- A detector that finds no face. -/
def noFaces : VNFaceLandmarksDetector := fun _ =>
  { completion := some { results := some [], error := none }
    thrown := none }

def blankAssets : HigeAssets :=
  { hige1 := .onePixel, hige2 := .onePixel, hige3 := .onePixel }

/-- The editor of a blank image. -/
def blank : EditViewController :=
  opened .storyboard .onePixel blankAssets

theorem blank_loaded :
    (instantiate .storyboard (some .onePixel)).viewDidLoad blankAssets
      noFaces = some blank :=
  rfl

end EditViewController

end HigeMaster
