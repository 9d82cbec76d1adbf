import HigeMaster.Scenes.EditorLoading

/-!
# Where the automatic stamp sits

`putHige` builds the rectangle of a mouth from signed differences, and
`drawAutoImage` reads its width and height without their signs, but its origin
as it is.  The width is compensated by centring, so the stamp has the right
middle and the right size for every mouth.  Nothing compensates the height, so
the stamp rests on the upper lip only if the mouth is not upside down.
-/

namespace HigeMaster

open Geometry

namespace Mouth

/-- The stamp is centred on the upper lip and as large as the ratio makes
it. -/
structure Fits (mouth : Mouth) (ratio : CGFloat) (stamp : CGRect) : Prop where
  middle : stamp.mid.x = mouth.upper.x
  width : stamp.size.width = ratio * |mouth.right.x - mouth.left.x|
  height : stamp.size.height = ratio * |mouth.lower.y - mouth.upper.y| / 2

/-- The stamp has an edge on the line of the upper lip and lies on the side of
this line where the lower lip is not. -/
structure Rests (mouth : Mouth) (stamp : CGRect) : Prop where
  edge : stamp.minY = mouth.upper.y ∨ stamp.maxY = mouth.upper.y
  upright : mouth.upper.y ≤ mouth.lower.y → stamp.maxY ≤ mouth.upper.y
  upsideDown : mouth.lower.y < mouth.upper.y → mouth.upper.y ≤ stamp.minY

/-! ## The drawn rectangle -/

theorem fits_autoStampRect (mouth : Mouth) (ratio : CGFloat) :
    mouth.Fits ratio
      (EditViewController.autoStampRect ratio mouth.rect) := by
  refine { middle := ?_, width := ?_, height := ?_ }
  · simp only [Rect.mid, EditViewController.autoStampRect, rect, half]
    ring
  · simp only [EditViewController.autoStampRect, rect, Rect.width]
    ring
  · simp only [EditViewController.autoStampRect, rect, Rect.height, abs_div,
      abs_two]
    ring

/-- The vertical extent of the stamp that is drawn at its natural size. -/
private theorem extent_autoStampRect (mouth : Mouth) :
    let stamp := EditViewController.autoStampRect 1 mouth.rect
    let height := (mouth.lower.y - mouth.upper.y) / 2
    stamp.minY = mouth.upper.y - height ∧
      stamp.maxY = mouth.upper.y - height + |height| := by
  have nonneg : 0 ≤ |(mouth.lower.y - mouth.upper.y) / 2| := abs_nonneg _
  simp only [EditViewController.autoStampRect, rect, Rect.height, Rect.minY,
    Rect.maxY, mul_one, min_eq_left (le_add_of_nonneg_right nonneg),
    max_eq_right (le_add_of_nonneg_right nonneg), and_self]

theorem rests_autoStampRect_iff (mouth : Mouth) :
    mouth.Rests (EditViewController.autoStampRect 1 mouth.rect) ↔
      mouth.upper.y ≤ mouth.lower.y := by
  obtain ⟨top, bottom⟩ := extent_autoStampRect mouth
  constructor
  · intro rests
    by_contra upsideDown
    have negative : (mouth.lower.y - mouth.upper.y) / 2 < 0 := by linarith
    rw [abs_of_neg negative] at bottom
    rcases rests.edge with edge | edge
    · linarith
    · linarith
  · intro upright
    have nonneg : 0 ≤ (mouth.lower.y - mouth.upper.y) / 2 := by linarith
    rw [abs_of_nonneg nonneg, sub_add_cancel] at bottom
    exact
      { edge := .inr bottom
        upright := fun _ => bottom.le
        upsideDown := fun upsideDown =>
          absurd upright (not_le.mpr upsideDown) }

end Mouth

namespace EditViewController

/-- The rectangle of the last stamp when the picture is drawn with this
ratio. -/
def lastStampRect (controller : EditViewController) (ratio : CGFloat) :
    Option CGRect := do
  let drawn ← drawAutoImage { controller with sizeRatio := ratio }
  let picture ← drawn.imageView.image
  let stamp ← picture.layers.getLast?
  return stamp.rect

/-- Whatever the ratio, the last stamp fits the mouth, and at its natural size
it rests on the upper lip. -/
def StampsMouth (controller : EditViewController) (mouth : Mouth) : Prop :=
  (∀ ratio, 0 ≤ ratio →
    ∃ stamp, controller.lastStampRect ratio = some stamp ∧
      mouth.Fits ratio stamp) ∧
  ∃ stamp, controller.lastStampRect 1 = some stamp ∧ mouth.Rests stamp

theorem lastStampRect_eq {controller : EditViewController}
    {image hige : UIImage} {earlier : List CGRect} {rect : CGRect}
    (shows : controller.image = some image)
    (selected : controller.selectedHige = some hige)
    (rects : controller.autoImageRect = earlier ++ [rect])
    (ratio : CGFloat) :
    controller.lastStampRect ratio = some (autoStampRect ratio rect) := by
  let resized : EditViewController := { controller with sizeRatio := ratio }
  have drawn : resized.drawAutoImage = some (resized.redrawn image hige) :=
    drawAutoImage_eq shows selected
  rw [lastStampRect, drawn]
  simp [redrawn, Picture.layers, AutomaticPicture.layers, rects,
    List.getLast?_cons, resized]

/-- The controller after the rectangle of the mouth has been recorded. -/
def stamped (controller : EditViewController) (image hige : UIImage)
    (mouth : Mouth) : EditViewController :=
  let recorded : EditViewController :=
    { controller with
      autoImageRect := controller.autoImageRect ++ [mouth.rect] }
  recorded.redrawn image hige

section Placement

variable {controller : EditViewController} {image hige : UIImage}
  {mouth : Mouth}

theorem putHige_eq_stamped {observation : VNFaceObservation}
    {mouse : VNFaceLandmarkRegion2D}
    (shows : controller.image = some image)
    (selected : controller.selectedHige = some hige)
    (lips : observation.mouse = some mouse)
    (among : mouth.Among (lipPoints image mouse)) :
    controller.putHige observation =
      some (controller.stamped image hige mouth) := by
  simp only [putHige, lips, Option.bind_eq_bind, Option.bind_eq_some_iff]
  exact ⟨image, shows, mouth.rect, among.mouthRect,
    drawAutoImage_eq shows selected⟩

theorem stampsMouth_stamped_iff (shows : controller.image = some image)
    (selected : controller.selectedHige = some hige) :
    (controller.stamped image hige mouth).StampsMouth mouth ↔
      mouth.upper.y ≤ mouth.lower.y := by
  have showsStill : (controller.stamped image hige mouth).image =
      some image := shows
  have selectedStill :
      (controller.stamped image hige mouth).selectedHige = some hige :=
    selected
  have placed := lastStampRect_eq showsStill selectedStill rfl
  unfold StampsMouth
  simp only [placed, Option.some.injEq, exists_eq_left']
  rw [mouth.rests_autoStampRect_iff]
  constructor
  · intro given
    exact given.2
  · intro upright
    exact ⟨fun ratio _ => mouth.fits_autoStampRect ratio, upright⟩

end Placement

/-- A recorded face is stamped where its mouth is exactly if the mouth is not
upside down. -/
theorem stampsMouth_iff {controller : EditViewController}
    {image hige : UIImage} {observation : VNFaceObservation}
    {mouse : VNFaceLandmarkRegion2D}
    (shows : controller.image = some image)
    (selected : controller.selectedHige = some hige)
    (lips : observation.mouse = some mouse)
    (enough : 10 ≤ (mouse.pointsInImage image.size).length) :
    ∃ mouth recorded,
      mouth.Among (lipPoints image mouse) ∧
        controller.putHige observation = some recorded ∧
          (recorded.StampsMouth mouth ↔ mouth.upper.y ≤ mouth.lower.y) := by
  have counted : 10 ≤ (lipPoints image mouse).length := by
    rw [lipPoints, List.length_map]
    exact enough
  obtain ⟨mouth, among⟩ := Mouth.exists_among counted
  exact ⟨mouth, controller.stamped image hige mouth, among,
    putHige_eq_stamped shows selected lips among,
    stampsMouth_stamped_iff shows selected⟩

/-! ## A mouth either way up -/

/-- Outer lips that go around the middle of the raster, measured from the
lower left and starting at the left corner. -/
def ringMouse (upperLip lowerLip : CGFloat) : VNFaceLandmarkRegion2D :=
  { faceBoundingBox :=
      { origin := { x := 0, y := 0 }, size := { width := 1, height := 1 } }
    normalizedPoints :=
      [{ x := 1 / 4, y := 1 / 2 }, { x := 3 / 8, y := upperLip },
        { x := 1 / 2, y := upperLip }, { x := 5 / 8, y := upperLip },
        { x := 11 / 16, y := upperLip }, { x := 3 / 4, y := 1 / 2 },
        { x := 5 / 8, y := lowerLip }, { x := 1 / 2, y := lowerLip },
        { x := 3 / 8, y := lowerLip }, { x := 5 / 16, y := 1 / 2 }] }

def ringFace (upperLip lowerLip : CGFloat) : VNFaceObservation :=
  { landmarks := some { outerLips := some (ringMouse upperLip lowerLip) } }

theorem stampsMouth_iff_ringFace :
    ∃ mouth recorded,
      mouth.Among (lipPoints .onePixel (ringMouse (3 / 4) (1 / 4))) ∧
        blank.putHige (ringFace (3 / 4) (1 / 4)) = some recorded ∧
          (recorded.StampsMouth mouth ↔ mouth.upper.y ≤ mouth.lower.y) :=
  stampsMouth_iff rfl rfl rfl (by decide)

/-- The mouth of the ring with its upper lip below its lower lip. -/
def upsideDownMouth : Mouth :=
  { upper := { x := 1 / 2, y := 3 / 4 }
    right := { x := 3 / 4, y := 1 / 2 }
    lower := { x := 1 / 2, y := 1 / 4 }
    left := { x := 5 / 16, y := 1 / 2 } }

/-- The stamp of a mouth that is upside down does not rest on its upper
lip. -/
theorem upsideDownMouth_misplaced :
    ∃ recorded,
      upsideDownMouth.Among
          (lipPoints .onePixel (ringMouse (1 / 4) (3 / 4))) ∧
        blank.putHige (ringFace (1 / 4) (3 / 4)) = some recorded ∧
          ¬recorded.StampsMouth upsideDownMouth := by
  have among : upsideDownMouth.Among
      (lipPoints .onePixel (ringMouse (1 / 4) (3 / 4))) := by
    constructor <;> decide +kernel
  refine ⟨blank.stamped .onePixel .onePixel upsideDownMouth, among,
    putHige_eq_stamped rfl rfl rfl among, ?_⟩
  rw [stampsMouth_stamped_iff rfl rfl]
  norm_num [upsideDownMouth]

end EditViewController

end HigeMaster
