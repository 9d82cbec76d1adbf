import HigeMaster.Scenes.EditorLoading

/-!
# Stamping pictures stored in other orientations

Vision measures in the raster as it is stored, while the size of an image and
drawing follow its orientation.  The points that `putHige` computes are the
places of the stored lips, so a picture is stamped like the same picture
stored upright exactly if its orientation leaves every lip point in place.
-/

namespace HigeMaster

open Geometry

/-- A point of the unit square, measured from the lower left instead of the
upper left. -/
def fromLowerLeft (p : CGPoint) : CGPoint :=
  { x := p.x, y := 1 - p.y }

/-- Given this raster, the detector finds one face, and its outer lips lie at
these places of the raster, measured from the upper left. -/
def ReportsLips (detector : VNFaceLandmarksDetector) (raster : CGImage)
    (lips : List CGPoint) (mouse : VNFaceLandmarkRegion2D) : Prop :=
  ∃ error observation,
    (detector raster).completion =
        some { results := some [observation], error := error } ∧
      observation.mouse = some mouse ∧
        mouse.unitPoints = lips.map fromLowerLeft

namespace EditViewController

/-- A point of the unit square in a picture of the given size. -/
def placeIn (size : CGSize) (p : CGPoint) : CGPoint :=
  { x := p.x * size.width, y := p.y * size.height }

/-- The rectangles in which the shown picture draws. -/
def drawnRects (controller : EditViewController) : List CGRect :=
  match controller.imageView.image with
  | some shown => shown.layers.map Drawing.rect
  | none => []

/-- The points of the lips are their places in the picture, as they are if the
picture is stored upright, and the same rectangles are recorded and drawn. -/
def StampsLikeUpright (size : CGSize) (lips turned upright : List CGPoint)
    (turnedEditor uprightEditor : EditViewController) : Prop :=
  turned = upright ∧ turned = lips.map (placeIn size) ∧
    turnedEditor.autoImageRect = uprightEditor.autoImageRect ∧
      turnedEditor.drawnRects = uprightEditor.drawnRects

theorem placeIn_inj {size : CGSize} (width : size.width ≠ 0)
    (height : size.height ≠ 0) {left right : CGPoint} :
    placeIn size left = placeIn size right ↔ left = right := by
  simp [placeIn, Point.ext_iff, width, height]

/-- The computed points are the places of the reported lips in the raster,
scaled to the size of the image. -/
theorem lipPoints_of_reports {detector : VNFaceLandmarksDetector}
    {raster : CGImage} {lips : List CGPoint} {mouse : VNFaceLandmarkRegion2D}
    (reports : ReportsLips detector raster lips mouse) (image : UIImage) :
    lipPoints image mouse = lips.map (placeIn image.size) := by
  obtain ⟨_, _, _, _, unitPoints⟩ := reports
  rw [lipPoints, VNFaceLandmarkRegion2D.pointsInImage, unitPoints,
    List.map_map, List.map_map]
  apply List.map_congr_left
  intro lip _
  ext
  · rfl
  · simp only [Function.comp_apply, fromLowerLeft, placeIn]
    ring

private theorem placeIn_picture_inj {picture : CGImage} {scale : CGFloat}
    (scale_pos : 0 < scale) {left right : CGPoint} :
    placeIn { width := picture.width / scale, height := picture.height / scale }
        left =
      placeIn
        { width := picture.width / scale, height := picture.height / scale }
        right ↔
      left = right := by
  apply placeIn_inj
  · exact div_ne_zero (Nat.cast_ne_zero.mpr picture.width_pos.ne')
      scale_pos.ne'
  · exact div_ne_zero (Nat.cast_ne_zero.mpr picture.height_pos.ne')
      scale_pos.ne'

section Loading

variable (outlets : EditOutlets) (assets : HigeAssets)
  {detector : VNFaceLandmarksDetector} {image : UIImage} {raster : CGImage}
  {lips : List CGPoint} {mouse : VNFaceLandmarkRegion2D}

/-- The editor of an image in which Vision finds one mouth loads, and it
records and draws the rectangle of that mouth. -/
private theorem loads_of_reports (stored : image.cgImage = some raster)
    (reports : ReportsLips detector raster lips mouse)
    (enough : 10 ≤ lips.length) :
    ∃ rect editor, mouthRect (lipPoints image mouse) = some rect ∧
      (instantiate outlets (some image)).viewDidLoad assets detector =
          some editor ∧
        editor.autoImageRect = [rect] ∧
          editor.drawnRects = [image.fullRect, autoStampRect 1 rect] := by
  have counted : (lipPoints image mouse).length = lips.length := by
    rw [lipPoints_of_reports reports, List.length_map]
  obtain ⟨rect, read⟩ := exists_mouthRect_iff.mpr (enough.trans_eq counted.symm)
  obtain ⟨error, observation, completion, found, _⟩ := reports
  have observed : observations detector image = some [observation] := by
    simp only [observations, stored, completion]
  have lipped : ∀ other ∈ [observation], HasLipPoints other := by
    intro other member mouth same
    rw [List.mem_singleton.mp member, found, Option.some.injEq] at same
    rw [← same, ← length_lipPoints image mouse, counted]
    exact enough
  obtain ⟨editor, loaded, represents⟩ :=
    viewDidLoad_succeeds observed lipped
  have faces : (loadedEditing image assets [observation]).picture.faces =
      [rect] := by
    simp [loadedEditing, faceRect, found, read]
  obtain ⟨shown, picture, layers⟩ := represents.shown
  refine ⟨rect, editor, read, loaded, ?_, ?_⟩
  · rw [represents.autoImageRect, faces]
  · simp only [drawnRects, picture]
    rw [layers, AutomaticPicture.layers, faces]
    rfl

end Loading

section Orientations

variable {detector : VNFaceLandmarksDetector} {picture : CGImage}
  {scale : CGFloat} {orientation : Orientation} {lips : List CGPoint}
  {turnedMouse uprightMouse : VNFaceLandmarkRegion2D}

theorem lipPoints_eq_upright_iff (scale_pos : 0 < scale)
    (turned :
      ReportsLips detector (picture.storedAs orientation)
        (lips.map orientation.stored) turnedMouse)
    (upright :
      ReportsLips detector (picture.storedAs .up) lips uprightMouse) :
    lipPoints (.ofPicture picture scale scale_pos orientation) turnedMouse =
        lipPoints (.ofPicture picture scale scale_pos .up) uprightMouse ↔
      ∀ lip ∈ lips, orientation.Fixes lip := by
  rw [lipPoints_of_reports turned, lipPoints_of_reports upright,
    UIImage.size_ofPicture, UIImage.size_ofPicture, List.map_map,
    List.map_inj_left]
  apply forall₂_congr
  intro lip _
  rw [Function.comp_apply, placeIn_picture_inj scale_pos]
  exact orientation.stored_eq_self_iff lip

/-- A picture in which Vision finds one mouth is stamped like the same picture
stored upright exactly if its orientation leaves every lip point in place. -/
theorem stampsLikeUpright_iff {outlets : EditOutlets} {assets : HigeAssets}
    (scale_pos : 0 < scale) (enough : 10 ≤ lips.length)
    (turned :
      ReportsLips detector (picture.storedAs orientation)
        (lips.map orientation.stored) turnedMouse)
    (upright :
      ReportsLips detector (picture.storedAs .up) lips uprightMouse) :
    ∃ turnedEditor uprightEditor,
      (instantiate outlets
          (some (.ofPicture picture scale scale_pos orientation))).viewDidLoad
        assets detector = some turnedEditor ∧
      (instantiate outlets
          (some (.ofPicture picture scale scale_pos .up))).viewDidLoad
        assets detector = some uprightEditor ∧
      (StampsLikeUpright
          { width := picture.width / scale, height := picture.height / scale }
          lips
          (lipPoints (.ofPicture picture scale scale_pos orientation)
            turnedMouse)
          (lipPoints (.ofPicture picture scale scale_pos .up) uprightMouse)
          turnedEditor uprightEditor ↔
        ∀ lip ∈ lips, orientation.Fixes lip) := by
  have enoughTurned : 10 ≤ (lips.map orientation.stored).length := by
    rw [List.length_map]
    exact enough
  obtain ⟨turnedRect, turnedEditor, turnedRead, turnedLoaded, turnedRecorded,
    turnedDrawn⟩ :=
    loads_of_reports outlets assets
      (UIImage.cgImage_ofPicture picture scale scale_pos orientation) turned
      enoughTurned
  obtain ⟨uprightRect, uprightEditor, uprightRead, uprightLoaded,
    uprightRecorded, uprightDrawn⟩ :=
    loads_of_reports outlets assets
      (UIImage.cgImage_ofPicture picture scale scale_pos .up) upright enough
  refine ⟨turnedEditor, uprightEditor, turnedLoaded, uprightLoaded, ?_⟩
  rw [← lipPoints_eq_upright_iff scale_pos turned upright]
  constructor
  · intro given
    rcases given with ⟨same, _⟩
    exact same
  · intro same
    have places := lipPoints_of_reports upright
      (.ofPicture picture scale scale_pos .up)
    rw [UIImage.size_ofPicture] at places
    have sameRect : turnedRect = uprightRect := by
      rw [same, uprightRead, Option.some.injEq] at turnedRead
      exact turnedRead.symm
    refine ⟨same, same.trans places, ?_, ?_⟩
    · rw [turnedRecorded, uprightRecorded, sameRect]
    · rw [turnedDrawn, uprightDrawn, sameRect, UIImage.fullRect,
        UIImage.fullRect, UIImage.size_ofPicture, UIImage.size_ofPicture]

end Orientations

/-! ## A picture with marked lips -/

/-- Twelve pixels, numbered from 1 in their red components. -/
def numbered : CGImage :=
  { width := 4
    height := 3
    pixel := fun x y =>
      { red := (1 + x + 4 * y).toUInt8, green := 0, blue := 0, alpha := 255 }
    width_pos := by decide
    height_pos := by decide }

/-- The pixel of a raster that has this number. -/
def numberedPixel (raster : CGImage) (number : ℕ) : Option (ℕ × ℕ) :=
  ((List.range raster.width).product (List.range raster.height)).find?
    fun pixel => (raster.pixel pixel.1 pixel.2).red.toNat = number

/-- The outer lips go through the pixels numbered from 1 to 10. -/
def numberedMouse (raster : CGImage) : VNFaceLandmarkRegion2D :=
  { faceBoundingBox :=
      { origin := { x := 0, y := 0 }, size := { width := 1, height := 1 } }
    normalizedPoints :=
      ((List.range' 1 10).filterMap (numberedPixel raster)).map fun pixel =>
        fromLowerLeft
          (Orientation.pixelCentre CGFloat (raster.width, raster.height)
            pixel) }

/-- A detector that looks for the numbers. -/
def findsNumbers : VNFaceLandmarksDetector := fun raster =>
  { completion := some
      { results := some
          [{ landmarks := some { outerLips := some (numberedMouse raster) } }]
        error := none }
    thrown := none }

def numberedLips : List CGPoint :=
  (List.range 10).map fun index =>
    Orientation.pixelCentre CGFloat (4, 3) (index % 4, index / 4)

theorem findsNumbers_turned :
    ReportsLips findsNumbers (numbered.storedAs .right)
      (numberedLips.map Orientation.right.stored)
      (numberedMouse (numbered.storedAs .right)) :=
  ⟨none, _, rfl, rfl, by decide +kernel⟩

theorem findsNumbers_upright :
    ReportsLips findsNumbers (numbered.storedAs .up) numberedLips
      (numberedMouse (numbered.storedAs .up)) :=
  ⟨none, _, rfl, rfl, by decide +kernel⟩

/-- A photo of the picture, stored in the given orientation. -/
def photo (orientation : Orientation) : UIImage :=
  .ofPicture numbered 1 UIImage.naturalScale_pos orientation

theorem stampsLikeUpright_iff_photo :
    ∃ turnedEditor uprightEditor,
      (instantiate .storyboard (some (photo .right))).viewDidLoad blankAssets
          findsNumbers = some turnedEditor ∧
      (instantiate .storyboard (some (photo .up))).viewDidLoad blankAssets
          findsNumbers = some uprightEditor ∧
      (StampsLikeUpright { width := 4 / 1, height := 3 / 1 } numberedLips
          (lipPoints (photo .right) (numberedMouse (numbered.storedAs .right)))
          (lipPoints (photo .up) (numberedMouse (numbered.storedAs .up)))
          turnedEditor uprightEditor ↔
        ∀ lip ∈ numberedLips, Orientation.right.Fixes lip) :=
  stampsLikeUpright_iff UIImage.naturalScale_pos (le_refl 10) findsNumbers_turned
    findsNumbers_upright

/-- The photo that the camera stores turned to the right is not stamped where
its lips are. -/
theorem photo_right_stampedElsewhere :
    (numbered.storedAs .right).Stores numbered .right ∧
    (numbered.storedAs .up).Stores numbered .up ∧
    ReportsLips findsNumbers (numbered.storedAs .right)
        (numberedLips.map Orientation.right.stored)
        (numberedMouse (numbered.storedAs .right)) ∧
    ReportsLips findsNumbers (numbered.storedAs .up) numberedLips
        (numberedMouse (numbered.storedAs .up)) ∧
    ∃ turnedEditor uprightEditor,
      (instantiate .storyboard (some (photo .right))).viewDidLoad blankAssets
          findsNumbers = some turnedEditor ∧
      (instantiate .storyboard (some (photo .up))).viewDidLoad blankAssets
          findsNumbers = some uprightEditor ∧
      ¬StampsLikeUpright { width := 4, height := 3 } numberedLips
          (lipPoints (photo .right) (numberedMouse (numbered.storedAs .right)))
          (lipPoints (photo .up) (numberedMouse (numbered.storedAs .up)))
          turnedEditor uprightEditor := by
  obtain ⟨_, turnedEditor, _, turnedLoaded, _⟩ :=
    loads_of_reports .storyboard blankAssets
      (UIImage.cgImage_ofPicture numbered 1 UIImage.naturalScale_pos .right)
      findsNumbers_turned (le_refl 10)
  obtain ⟨_, uprightEditor, _, uprightLoaded, _⟩ :=
    loads_of_reports .storyboard blankAssets
      (UIImage.cgImage_ofPicture numbered 1 UIImage.naturalScale_pos .up)
      findsNumbers_upright (le_refl 10)
  refine ⟨numbered.stores_storedAs .right, numbered.stores_storedAs .up,
    findsNumbers_turned, findsNumbers_upright, turnedEditor, uprightEditor,
    turnedLoaded, uprightLoaded, ?_⟩
  intro given
  rcases given with ⟨same, _⟩
  have fixed := (lipPoints_eq_upright_iff UIImage.naturalScale_pos
    findsNumbers_turned findsNumbers_upright).mp same
  have first : (Orientation.pixelCentre CGFloat (4, 3) (0, 0)).x = half 1 :=
    (fixed _ (List.mem_map.mpr ⟨0, by simp, rfl⟩)).1
  norm_num [Orientation.pixelCentre, half] at first

end EditViewController

end HigeMaster
