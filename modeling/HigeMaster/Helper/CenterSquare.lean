import HigeMaster.UIKit.Image

/-!
# The centre square of an image

`croppingCenterSquare` cuts the longer side of a raster down to the shorter
one, around the middle.  It stops the program on an image without a raster.
If the sides differ by an odd number of pixels, the square would begin and end
in the middle of a pixel; `cropping` keeps both halves, so the result is not a
square.
-/

namespace HigeMaster

open Geometry

namespace CGImage

/-- The square that `croppingCenterSquare` asks for. -/
def centerSquareRect (cgImage : CGImage) : CGRect :=
  let newWidth : CGFloat := cgImage.width
  let newHeight : CGFloat := cgImage.height
  let newSize : CGSize :=
    if newWidth > newHeight then
      { width := newHeight, height := newHeight }
    else
      { width := newWidth, height := newWidth }
  let x := ((cgImage.width : CGFloat) - newSize.width) / 2
  let y := ((cgImage.height : CGFloat) - newSize.height) / 2
  { origin := { x := x, y := y }, size := newSize }

end CGImage

namespace UIImage

/-- `none` models the two forced unwraps. -/
def croppingCenterSquare (image : UIImage) : Option UIImage := do
  let cgImage ← image.cgImage
  let croppedCGImage ← cgImage.cropping cgImage.centerSquareRect
  return {
    contents := .coreGraphics croppedCGImage
    scale := image.scale
    imageOrientation := image.imageOrientation
    scale_pos := image.scale_pos }

end UIImage

namespace CGImage

/-- The side of the centre square. -/
def shorterSide (cgImage : CGImage) : ℕ :=
  min cgImage.width cgImage.height

theorem shorterSide_pos (cgImage : CGImage) : 0 < cgImage.shorterSide :=
  lt_min cgImage.width_pos cgImage.height_pos

theorem centerSquareRect_eq (cgImage : CGImage) :
    cgImage.centerSquareRect =
      { origin :=
          { x := ((cgImage.width : CGFloat) - cgImage.shorterSide) / 2
            y := ((cgImage.height : CGFloat) - cgImage.shorterSide) / 2 }
        size :=
          { width := cgImage.shorterSide, height := cgImage.shorterSide } } := by
  unfold centerSquareRect shorterSide
  by_cases wide : cgImage.height < cgImage.width
  · have wider : (cgImage.width : CGFloat) > cgImage.height :=
      Nat.cast_lt.mpr wide
    simp only [if_pos wider, Nat.min_eq_right (Nat.le_of_lt wide)]
  · have tall : ¬(cgImage.width : CGFloat) > cgImage.height := by
      intro wider
      exact wide (Nat.cast_lt.mp wider)
    simp only [if_neg tall, Nat.min_eq_left (Nat.le_of_not_lt wide)]

/-- The whole pixels on either side of the square along an axis. -/
def margin (count side : ℕ) : ℕ :=
  (count - side) / 2

private theorem floor_squareAxis {count side : ℕ} (fits : side ≤ count) :
    ⌊((count : CGFloat) - side) / 2⌋ = margin count side := by
  have quotient : ((count : CGFloat) - side) / 2 =
      ((count - side : ℕ) : CGFloat) / ((2 : ℕ) : CGFloat) := by
    rw [Nat.cast_sub fits]
    rfl
  rw [quotient, Rat.floor_natCast_div_natCast, margin]
  rfl

/-- The square ends as far from one end of the axis as it begins from the
other. -/
private theorem ceil_squareAxis {count side : ℕ} (fits : side ≤ count) :
    ⌈((count : CGFloat) - side) / 2 + side⌉ =
      (count : ℤ) - margin count side := by
  have mirrored : ((count : CGFloat) - side) / 2 + side =
      -(((count : CGFloat) - side) / 2) + (count : ℤ) := by
    push_cast
    ring
  rw [mirrored, Int.ceil_add_intCast, Int.ceil_neg, floor_squareAxis fits]
  ring

private theorem clip_squareAxis {count side : ℕ} (fits : side ≤ count) :
    let origin := ((count : CGFloat) - side) / 2
    max 0 ⌊min origin (origin + side)⌋ = margin count side ∧
      min (count : ℤ) ⌈max origin (origin + side)⌉ =
        count - margin count side := by
  have nonneg : (0 : CGFloat) ≤ side := Nat.cast_nonneg side
  intro origin
  rw [min_eq_left (le_add_of_nonneg_right nonneg),
    max_eq_right (le_add_of_nonneg_right nonneg), floor_squareAxis fits,
    ceil_squareAxis fits]
  constructor
  · exact max_eq_right (Int.natCast_nonneg _)
  · exact min_eq_right (Int.sub_le_self _ (Int.natCast_nonneg _))

/-- `cut` is what is left of the raster when these margins are removed. -/
structure CutFrom (cut raster : CGImage) (left right top bottom : ℕ) :
    Prop where
  width : left + cut.width + right = raster.width
  height : top + cut.height + bottom = raster.height
  pixel : ∀ x y, x < cut.width → y < cut.height →
    cut.pixel x y = raster.pixel (left + x) (top + y)

/-- The same whole pixels have been removed on both sides of each axis. -/
def CutEvenly (cut raster : CGImage) : Prop :=
  cut.CutFrom raster
    (margin raster.width raster.shorterSide)
    (margin raster.width raster.shorterSide)
    (margin raster.height raster.shorterSide)
    (margin raster.height raster.shorterSide)

/-- Cropping to the square cuts evenly, also where the square begins in the
middle of a pixel. -/
theorem cropping_centerSquareRect (raster : CGImage) :
    ∃ cut, raster.cropping raster.centerSquareRect = some cut ∧
      cut.CutEvenly raster := by
  have fitsWidth : raster.shorterSide ≤ raster.width := min_le_left _ _
  have fitsHeight : raster.shorterSide ≤ raster.height := min_le_right _ _
  obtain ⟨left, right⟩ := clip_squareAxis fitsWidth
  obtain ⟨top, bottom⟩ := clip_squareAxis fitsHeight
  have positive := raster.shorterSide_pos
  have smallX : 2 * margin raster.width raster.shorterSide +
      raster.shorterSide ≤ raster.width := by
    rw [margin]
    omega
  have smallY : 2 * margin raster.height raster.shorterSide +
      raster.shorterSide ≤ raster.height := by
    rw [margin]
    omega
  unfold CutEvenly cropping
  simp only [centerSquareRect_eq, Rect.minX, Rect.maxX, Rect.minY, Rect.maxY,
    left, top, right, bottom]
  rw [dif_pos (by omega)]
  refine ⟨_, rfl, ?_⟩
  refine { width := ?_, height := ?_, pixel := ?_ }
  · simp only
    omega
  · simp only
    omega
  · intro x y _ _
    simp only [Int.toNat_natCast]

end CGImage

namespace UIImage

theorem croppingCenterSquare_eq {image : UIImage} {raster cut : CGImage}
    (backed : image.cgImage = some raster)
    (cropped : raster.cropping raster.centerSquareRect = some cut) :
    image.croppingCenterSquare =
      some
        { contents := .coreGraphics cut
          scale := image.scale
          imageOrientation := image.imageOrientation
          scale_pos := image.scale_pos } := by
  simp [croppingCenterSquare, backed, cropped]

theorem croppingCenterSquare_isSome {image : UIImage} {raster : CGImage}
    (backed : image.cgImage = some raster) :
    ∃ cropped, image.croppingCenterSquare = some cropped := by
  obtain ⟨cut, cropped, _⟩ := raster.cropping_centerSquareRect
  exact ⟨_, croppingCenterSquare_eq backed cropped⟩

end UIImage

namespace CGImage

/-- `cut` is a centred square of the raster: nothing is removed along the
shorter side, and the margins along the longer side differ by at most one
pixel. -/
def IsCenterSquareOf (cut raster : CGImage) : Prop :=
  (cut.width = raster.shorterSide ∧ cut.height = raster.shorterSide) ∧
  ∃ left right top bottom, cut.CutFrom raster left right top bottom ∧
    (left ≤ right + 1 ∧ right ≤ left + 1) ∧
    (top ≤ bottom + 1 ∧ bottom ≤ top + 1) ∧
    (raster.width ≤ raster.height → left = 0 ∧ right = 0) ∧
    (raster.height ≤ raster.width → top = 0 ∧ bottom = 0)

/-- What is left between the margins is the centre square exactly if no pixel
would have to be halved. -/
theorem CutEvenly.isCenterSquareOf_iff {cut raster : CGImage}
    (evenly : cut.CutEvenly raster) :
    cut.IsCenterSquareOf raster ↔
      raster.width % 2 = raster.height % 2 := by
  have width := evenly.width
  have height := evenly.height
  simp only [margin, shorterSide] at width height
  constructor
  · intro given
    rcases given with ⟨⟨sameWidth, sameHeight⟩, _⟩
    simp only [shorterSide] at sameWidth sameHeight
    omega
  · intro parity
    refine ⟨⟨?_, ?_⟩, _, _, _, _, evenly, ⟨?_, ?_⟩, ⟨?_, ?_⟩, ?_, ?_⟩
    · simp only [shorterSide]
      omega
    · simp only [shorterSide]
      omega
    · exact Nat.le_succ _
    · exact Nat.le_succ _
    · exact Nat.le_succ _
    · exact Nat.le_succ _
    · intro tall
      simp only [margin, shorterSide]
      omega
    · intro wide
      simp only [margin, shorterSide]
      omega

end CGImage

namespace UIImage

/-- Cropping yields the centre square exactly if the sides of the raster are
both even or both odd. -/
theorem croppingCenterSquare_isCenterSquare_iff {image : UIImage}
    {raster : CGImage} (backed : image.cgImage = some raster) :
    (∃ cropped cut, image.croppingCenterSquare = some cropped ∧
        cropped.cgImage = some cut ∧ cut.IsCenterSquareOf raster) ↔
      raster.width % 2 = raster.height % 2 := by
  obtain ⟨cut, cropped, evenly⟩ := raster.cropping_centerSquareRect
  rw [← evenly.isCenterSquareOf_iff, croppingCenterSquare_eq backed cropped]
  simp [cgImage]

/-- A white strip, one pixel high. -/
def strip (width : ℕ) (width_pos : 0 < width) : CGImage :=
  { width := width
    height := 1
    pixel := fun _ _ => { red := 255, green := 255, blue := 255, alpha := 255 }
    width_pos := width_pos
    height_pos := Nat.one_pos }

/-- The image that shows this raster as it is. -/
def showing (raster : CGImage) : UIImage :=
  { contents := .coreGraphics raster
    scale := 1
    imageOrientation := .up
    scale_pos := naturalScale_pos }

theorem croppingCenterSquare_isCenterSquare_iff_strip :
    (∃ cropped cut,
        (showing (strip 3 (by decide))).croppingCenterSquare = some cropped ∧
          cropped.cgImage = some cut ∧
            cut.IsCenterSquareOf (strip 3 (by decide))) ↔
      3 % 2 = 1 % 2 :=
  croppingCenterSquare_isCenterSquare_iff rfl

/-- Of two pixels side by side, both are kept. -/
theorem strip_two_notSquare :
    ¬∃ cropped cut,
        (showing (strip 2 (by decide))).croppingCenterSquare = some cropped ∧
          cropped.cgImage = some cut ∧
            cut.IsCenterSquareOf (strip 2 (by decide)) := by
  intro given
  rcases given with ⟨cropped, cut, taken, shows, square⟩
  obtain ⟨whole, wholeCropped, evenly⟩ :=
    (strip 2 (by decide)).cropping_centerSquareRect
  rw [croppingCenterSquare_eq rfl wholeCropped, Option.some.injEq] at taken
  subst taken
  cases shows
  have parity := evenly.isCenterSquareOf_iff.mp square
  cases parity

end UIImage

end HigeMaster
