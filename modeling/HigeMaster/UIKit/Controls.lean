import HigeMaster.UIKit.Image

/-!
# Controls and image views

The parts of buttons, sliders, touches and image views that the scenes read or
write.  A slider clamps what is assigned to it.  An image view shows either an
image or what was drawn in a graphics context.  The views on top of an image
view are named by numbers, from back to front.
-/

namespace HigeMaster

open Geometry

structure UIColor where
  red : CGFloat
  green : CGFloat
  blue : CGFloat
  alpha : CGFloat
  deriving DecidableEq

structure UIButton where
  backgroundColor : Option UIColor
  titleColor : Option UIColor
  deriving DecidableEq

/-! ## Sliders -/

/-- A value that the user can slide to. -/
structure SliderValue where
  value : CGFloat
  nonneg : 0 ≤ value
  le_one : value ≤ 1
  deriving DecidableEq

namespace SliderValue

def lowest : SliderValue :=
  { value := 0
    nonneg := le_refl 0
    le_one := zero_le_one }

def highest : SliderValue :=
  { value := 1
    nonneg := zero_le_one
    le_one := le_refl 1 }

end SliderValue

structure UISlider where
  minimumValue : CGFloat
  maximumValue : CGFloat
  value : CGFloat
  minimumTrackTintColor : Option UIColor
  maximumTrackTintColor : Option UIColor
  /-- Whether a change by the user is sent to `changeSize`. -/
  sendsChangeSize : Bool
  deriving DecidableEq

namespace UISlider

/-- Assign the value, which is clamped to the range of the slider. -/
def setValue (slider : UISlider) (value : CGFloat) : UISlider :=
  { slider with
    value := max slider.minimumValue (min slider.maximumValue value) }

def setMaximumValue (slider : UISlider) (maximum : CGFloat) : UISlider :=
  { slider with
    maximumValue := maximum
    minimumValue := min slider.minimumValue maximum
    value := min slider.value maximum }

def setMinimumValue (slider : UISlider) (minimum : CGFloat) : UISlider :=
  { slider with
    minimumValue := minimum
    maximumValue := max slider.maximumValue minimum
    value := max slider.value minimum }

/-- A slider over the unit interval whose changes resize something. -/
def IsSizeSlider (slider : UISlider) : Prop :=
  slider.minimumValue = 0 ∧ slider.maximumValue = 1 ∧
    slider.sendsChangeSize = true

theorem IsSizeSlider.setValue {slider : UISlider}
    (sizes : slider.IsSizeSlider) (value : CGFloat) :
    (slider.setValue value).IsSizeSlider :=
  sizes

theorem IsSizeSlider.value_setValue {slider : UISlider}
    (sizes : slider.IsSizeSlider) {value : CGFloat} (nonneg : 0 ≤ value)
    (le_one : value ≤ 1) : (slider.setValue value).value = value := by
  obtain ⟨minimum, maximum, _⟩ := sizes
  rw [UISlider.setValue, minimum, maximum, min_eq_right le_one,
    max_eq_right nonneg]

end UISlider

/-! ## Touches -/

/-- A touch that moved, in the coordinates of the view it is asked for. -/
structure UITouch where
  previousLocation : CGPoint
  location : CGPoint
  deriving DecidableEq

/-! ## Pictures -/

/-- An image drawn into a rectangle. -/
structure Drawing where
  image : UIImage
  rect : CGRect

/-- A graphics context with what has been drawn in it, first to last. -/
structure GraphicsContext where
  size : CGSize
  drawn : List Drawing

namespace GraphicsContext

/-- `UIGraphicsBeginImageContextWithOptions`. -/
def ofSize (size : CGSize) : GraphicsContext :=
  { size := size, drawn := [] }

def draw (context : GraphicsContext) (image : UIImage) (rect : CGRect) :
    GraphicsContext :=
  { context with drawn := context.drawn ++ [{ image := image, rect := rect }] }

end GraphicsContext

/-- What an image view shows. -/
inductive Picture where
  | image (image : UIImage)
  | drawn (context : GraphicsContext)

/-- The drawings that make up a picture.  An image by itself is that image
drawn at its own size. -/
def Picture.layers : Picture → List Drawing
  | .image shown => [{ image := shown, rect := shown.fullRect }]
  | .drawn context => context.drawn

/-! ## Image views -/

inductive ContentMode where
  | scaleToFill
  | scaleAspectFit
  | scaleAspectFill
  deriving DecidableEq

structure UIImageView extends View CGFloat where
  image : Option Picture
  contentMode : ContentMode
  isUserInteractionEnabled : Bool
  subviews : List ℕ

namespace UIImageView

/-- `UIImageView(frame:)`. -/
def ofFrame (rect : CGRect) : UIImageView :=
  { View.ofFrame rect with
    image := none
    contentMode := .scaleToFill
    isUserInteractionEnabled := false
    subviews := [] }

/-- Assign the frame; `none` where assigning it is undefined. -/
def setFrame (view : UIImageView) (rect : CGRect) : Option UIImageView := do
  let moved ← view.toView.setFrame rect
  return { view with toView := moved }

/-- Put a view on top; if it is already there, it comes to the front. -/
def addSubview (view : UIImageView) (subview : ℕ) : UIImageView :=
  { view with subviews := view.subviews.erase subview ++ [subview] }

end UIImageView

/-! ## Sharing -/

/-- An image view drawn with the views on top of it, from back to front. -/
structure Rendering where
  size : CGSize
  picture : Option Picture
  contentMode : ContentMode
  subviews : List UIImageView

/-- Draw the layer of an image view into a new context, given which views its
subviews are.  There is no context without a size. -/
def UIImageView.render (view : UIImageView)
    (named : ℕ → Option UIImageView) : Option Rendering :=
  if 0 < view.bounds.size.width ∧ 0 < view.bounds.size.height then do
    let subviews ← view.subviews.mapM named
    return {
      size := view.bounds.size
      picture := view.image
      contentMode := view.contentMode
      subviews := subviews }
  else
    none

inductive UIActivityType where
  | postToWeibo
  | postToTencentWeibo
  deriving DecidableEq

/-- The sheet on which the user chooses what to do with the items.  On a large
screen it points at `sourceRect`. -/
structure UIActivityViewController where
  activityItems : List Rendering
  excludedActivityTypes : List UIActivityType
  sourceRect : CGRect

end HigeMaster
