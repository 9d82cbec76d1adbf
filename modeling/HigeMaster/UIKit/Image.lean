import HigeMaster.Geometry.Orientation
import HigeMaster.Geometry.View
import Mathlib.Data.Rat.Floor

/-!
# Images

Every coordinate of the program is a `CGFloat`; the model computes with exact
rationals.  A `CGImage` is a raster that is never empty.  A `UIImage` wraps a
raster (or, when it comes from Core Image, only an extent) with a scale and
the orientation in which the raster is stored; its size and what it shows take
the orientation into account, its raster does not.
-/

namespace HigeMaster

open Geometry

abbrev CGFloat := ℚ
abbrev CGPoint := Point CGFloat
abbrev CGSize := Size CGFloat
abbrev CGRect := Rect CGFloat

structure Pixel where
  red : UInt8
  green : UInt8
  blue : UInt8
  alpha : UInt8
  deriving DecidableEq

/-- A raster.  Only the pixels inside `width` and `height` are meaningful. -/
structure CGImage where
  width : ℕ
  height : ℕ
  pixel : ℕ → ℕ → Pixel
  width_pos : 0 < width
  height_pos : 0 < height

namespace CGImage

/-- Two rasters show the same pixels. -/
def SamePixels (first second : CGImage) : Prop :=
  first.width = second.width ∧ first.height = second.height ∧
    ∀ x y, x < first.width → y < first.height →
      first.pixel x y = second.pixel x y

/-- `cropping(to:)`: the rectangle is expanded to integral bounds and then cut
down to the image; `none` if nothing is left. -/
def cropping (image : CGImage) (rect : CGRect) : Option CGImage :=
  let left := max 0 ⌊rect.minX⌋
  let top := max 0 ⌊rect.minY⌋
  let right := min (image.width : ℤ) ⌈rect.maxX⌉
  let bottom := min (image.height : ℤ) ⌈rect.maxY⌉
  if nonempty : left < right ∧ top < bottom then
    some
      { width := (right - left).toNat
        height := (bottom - top).toNat
        pixel := fun x y => image.pixel (left.toNat + x) (top.toNat + y)
        width_pos := by omega
        height_pos := by omega }
  else
    none

/-- The raster that stores this picture in the given orientation. -/
def storedAs (picture : CGImage) (orientation : Orientation) : CGImage :=
  { width := (orientation.turnedSize picture.width picture.height).1
    height := (orientation.turnedSize picture.width picture.height).2
    pixel := fun x y =>
      let shown :=
        orientation.shownPixel picture.width picture.height x y
      picture.pixel shown.1 shown.2
    width_pos := by
      cases orientation <;>
        first | exact picture.width_pos | exact picture.height_pos
    height_pos := by
      cases orientation <;>
        first | exact picture.width_pos | exact picture.height_pos }

/-- The picture that this raster shows when it is stored in the given
orientation. -/
def shownFrom (raster : CGImage) (orientation : Orientation) : CGImage :=
  let size := orientation.turnedSize raster.width raster.height
  { width := size.1
    height := size.2
    pixel := fun x y =>
      let stored := orientation.storedPixel size.1 size.2 x y
      raster.pixel stored.1 stored.2
    width_pos := by
      cases orientation <;>
        first | exact raster.width_pos | exact raster.height_pos
    height_pos := by
      cases orientation <;>
        first | exact raster.width_pos | exact raster.height_pos }

/-- The raster shows the picture in this orientation, and has every pixel, and
its centre, where the orientation puts it. -/
structure Stores (raster picture : CGImage) (orientation : Orientation) :
    Prop where
  shown : (raster.shownFrom orientation).SamePixels picture
  pixels : ∀ x y, x < picture.width → y < picture.height →
    let stored := orientation.storedPixel picture.width picture.height x y
    (stored.1 < raster.width ∧ stored.2 < raster.height) ∧
      raster.pixel stored.1 stored.2 = picture.pixel x y ∧
        Orientation.pixelCentre CGFloat (raster.width, raster.height) stored =
          orientation.stored
            (Orientation.pixelCentre CGFloat (picture.width, picture.height)
              (x, y))

private theorem shownFrom_storedAs (picture : CGImage)
    (orientation : Orientation) :
    ((picture.storedAs orientation).shownFrom orientation).SamePixels
      picture := by
  have size :
      orientation.turnedSize (picture.storedAs orientation).width
          (picture.storedAs orientation).height =
        (picture.width, picture.height) :=
    orientation.turnedSize_turnedSize picture.width picture.height
  have width :
      ((picture.storedAs orientation).shownFrom orientation).width =
        picture.width :=
    congrArg Prod.fst size
  have height :
      ((picture.storedAs orientation).shownFrom orientation).height =
        picture.height :=
    congrArg Prod.snd size
  refine ⟨width, height, ?_⟩
  intro x y inWidth inHeight
  rw [width] at inWidth
  rw [height] at inHeight
  simp only [shownFrom, storedAs, orientation.turnedSize_turnedSize,
    orientation.shownPixel_storedPixel inWidth inHeight]

theorem stores_storedAs (picture : CGImage) (orientation : Orientation) :
    (picture.storedAs orientation).Stores picture orientation where
  shown := picture.shownFrom_storedAs orientation
  pixels x y inWidth inHeight := by
    refine ⟨orientation.storedPixel_lt inWidth inHeight, ?_, ?_⟩
    · simp only [storedAs,
        orientation.shownPixel_storedPixel inWidth inHeight]
    · exact (orientation.stored_pixelCentre inWidth inHeight).symm

end CGImage

/-- What a `UIImage` is backed by. -/
inductive ImageContents where
  | coreGraphics (image : CGImage)
  | coreImage (extent : CGSize)

namespace ImageContents

/-- The size of the contents as they are stored. -/
def pixelSize : ImageContents → CGSize
  | .coreGraphics image => { width := image.width, height := image.height }
  | .coreImage extent => extent

end ImageContents

structure UIImage where
  contents : ImageContents
  scale : CGFloat
  imageOrientation : Orientation
  scale_pos : 0 < scale

namespace UIImage

/-- The raster behind the image, in its stored orientation. -/
def cgImage (image : UIImage) : Option CGImage :=
  match image.contents with
  | .coreGraphics raster => some raster
  | .coreImage _ => none

/-- The size in points of what the image shows. -/
def size (image : UIImage) : CGSize :=
  let stored := image.contents.pixelSize
  let shown := image.imageOrientation.turnedSize stored.width stored.height
  { width := shown.1 / image.scale, height := shown.2 / image.scale }

/-- The rectangle that the image fills when it is drawn at its own size. -/
def fullRect (image : UIImage) : CGRect :=
  { origin := { x := 0, y := 0 }
    size := { width := image.size.width, height := image.size.height } }

/-- The image that shows `picture`, stored in the given orientation. -/
def ofPicture (picture : CGImage) (scale : CGFloat) (scale_pos : 0 < scale)
    (orientation : Orientation) : UIImage :=
  { contents := .coreGraphics (picture.storedAs orientation)
    scale := scale
    imageOrientation := orientation
    scale_pos := scale_pos }

@[simp] theorem cgImage_ofPicture (picture : CGImage) (scale : CGFloat)
    (scale_pos : 0 < scale) (orientation : Orientation) :
    (ofPicture picture scale scale_pos orientation).cgImage =
      some (picture.storedAs orientation) :=
  rfl

theorem size_ofPicture (picture : CGImage) (scale : CGFloat)
    (scale_pos : 0 < scale) (orientation : Orientation) :
    (ofPicture picture scale scale_pos orientation).size =
      { width := picture.width / scale, height := picture.height / scale } := by
  cases orientation <;> rfl

theorem naturalScale_pos : 0 < (1 : CGFloat) :=
  one_pos

/-- A single white pixel. -/
def onePixel : UIImage :=
  { contents := .coreGraphics
      { width := 1
        height := 1
        pixel := fun _ _ => { red := 255, green := 255, blue := 255, alpha := 255 }
        width_pos := Nat.one_pos
        height_pos := Nat.one_pos }
    scale := 1
    imageOrientation := .up
    scale_pos := naturalScale_pos }

end UIImage

end HigeMaster
