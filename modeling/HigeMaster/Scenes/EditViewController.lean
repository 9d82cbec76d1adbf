import HigeMaster.EventRun
import HigeMaster.UIKit.Controls
import HigeMaster.Vision.FaceLandmarks

/-!
# The editor

`EditViewController` shows an image on which moustaches are stamped.  In
automatic mode it stamps every detected face by drawing on a copy of the image;
in manual mode the user adds stamps as views on top of the image view, drags
them and resizes them.  A stamp is named by its position in
`manualStampViews`, from which nothing is ever removed.  A step handles one
event; `none` means that the program stops.
-/

namespace HigeMaster

open Geometry

/-- The colours of the application. -/
def UIColor.accent : UIColor :=
  { red := 0.2926914692
    green := 0.8806881309
    blue := 0.5701341033
    alpha := 1 }

def UIColor.paper : UIColor :=
  { red := 0.9782002568
    green := 0.9782230258
    blue := 0.9782107472
    alpha := 1 }

/-- The three moustaches among the assets. -/
structure HigeAssets where
  hige1 : UIImage
  hige2 : UIImage
  hige3 : UIImage

def HigeAssets.all (assets : HigeAssets) : List UIImage :=
  [assets.hige1, assets.hige2, assets.hige3]

/-- The controls that the storyboard connects. -/
structure EditOutlets where
  imageView : UIImageView
  manualBtn : UIButton
  autoBtn : UIButton
  sizeSlider : UISlider

/-- The controls as `Main.storyboard` lays them out. -/
def EditOutlets.storyboard : EditOutlets :=
  let green : UIColor :=
    { red := 0.25882354378700256
      green := 0.87058824300765991
      blue := 0.49803921580314636
      alpha := 1 }
  let white : UIColor :=
    { red := 0.97254902124404907
      green := 0.97254902124404907
      blue := 0.97254902124404907
      alpha := 1 }
  { imageView :=
      { UIImageView.ofFrame
          { origin := { x := 0, y := 88 }
            size := { width := 375, height := 375 } } with
        contentMode := .scaleAspectFill }
    manualBtn := { backgroundColor := some white, titleColor := some green }
    autoBtn := { backgroundColor := some green, titleColor := some white }
    sizeSlider :=
      { minimumValue := 0
        maximumValue := 1
        value := 1 / 2
        minimumTrackTintColor := none
        maximumTrackTintColor := none
        sendsChangeSize := false } }

structure HigeCollectionViewCell where
  imageView : UIImageView
  backgroundColor : Option UIColor

structure EditViewController extends EditOutlets where
  image : Option UIImage
  mode : Option ℤ
  higeImages : Option (List UIImage)
  selectedHige : Option UIImage
  sizeRatio : CGFloat
  autoImageRect : List CGRect
  manualStampViews : List UIImageView

namespace EditViewController

/-- The controller before its view is loaded, with the image that the preview
screen hands over. -/
def instantiate (outlets : EditOutlets) (image : Option UIImage) :
    EditViewController :=
  { outlets with
    image := image
    mode := none
    higeImages := none
    selectedHige := none
    sizeRatio := 1
    autoImageRect := []
    manualStampViews := [] }

/-! ## Drawing the automatic picture -/

/-- Where `drawAutoImage` draws the stamp of a recorded rectangle. -/
def autoStampRect (sizeRatio : CGFloat) (rect : CGRect) : CGRect :=
  { origin :=
      { x := rect.origin.x - rect.width * sizeRatio / 2
        y := rect.origin.y }
    size :=
      { width := rect.width * sizeRatio
        height := rect.height * sizeRatio } }

def drawAutoImage (controller : EditViewController) :
    Option EditViewController := do
  let image ← controller.image
  let background :=
    (GraphicsContext.ofSize image.size).draw image
      { origin := { x := 0, y := 0 }
        size := { width := image.size.width, height := image.size.height } }
  let context ← controller.autoImageRect.foldlM
    (fun context rect => do
      let selectedHige ← controller.selectedHige
      return context.draw selectedHige
        (autoStampRect controller.sizeRatio rect))
    background
  return { controller with
    imageView := { controller.imageView with image := some (.drawn context) } }

/-! ## Recording faces -/

/-- The points of the outer lips on the shown image. -/
def lipPoints (image : UIImage) (mouse : VNFaceLandmarkRegion2D) :
    List CGPoint :=
  (mouse.pointsInImage image.size).map fun p =>
    { x := p.x, y := image.size.height - p.y }

/-- The rectangle that `putHige` records; `none` if one of the points that it
reads is missing. -/
def mouthRect (points : List CGPoint) : Option CGRect := do
  let point5 ← points[(5 : ℕ)]?
  let point9 ← points[(9 : ℕ)]?
  let width := point5.x - point9.x
  let point7 ← points[(7 : ℕ)]?
  let point2 ← points[(2 : ℕ)]?
  let height := (point7.y - point2.y) / 2
  let x := point2.x
  let y := point2.y - height
  return {
    origin := { x := x, y := y }
    size := { width := width, height := height } }

def putHige (controller : EditViewController)
    (observation : VNFaceObservation) : Option EditViewController :=
  match observation.mouse with
  | none => some controller
  | some mouse => do
      let image ← controller.image
      let rect ← mouthRect (lipPoints image mouse)
      drawAutoImage
        { controller with autoImageRect := controller.autoImageRect ++ [rect] }

/-- The forced cast of the results stops the program if there are none; what
`perform` throws is ignored. -/
def detectFaceLandmark (controller : EditViewController)
    (detector : VNFaceLandmarksDetector) : Option EditViewController := do
  let image ← controller.image
  match image.cgImage with
  | none => return controller
  | some cgImage =>
      match (detector cgImage).completion with
      | none => return controller
      | some completion => do
          let observations ← completion.results
          observations.foldlM putHige controller

def putStamp (controller : EditViewController)
    (detector : VNFaceLandmarksDetector) : Option EditViewController :=
  if controller.mode = some 0 then
    controller.detectFaceLandmark detector
  else
    some controller

/-! ## Modes and sizes -/

def setAutoMode (controller : EditViewController) : EditViewController :=
  { controller with
    manualBtn := { backgroundColor := some .paper, titleColor := some .accent }
    autoBtn := { backgroundColor := some .accent, titleColor := some .paper }
    sizeSlider := controller.sizeSlider.setValue (1 / 2)
    mode := some 0 }

def setManualMode (controller : EditViewController) : EditViewController :=
  { controller with
    manualBtn := { backgroundColor := some .accent, titleColor := some .paper }
    autoBtn := { backgroundColor := some .paper, titleColor := some .accent }
    sizeSlider := controller.sizeSlider.setValue (1 / 2)
    mode := some 1 }

def initSlider (controller : EditViewController) : EditViewController :=
  let ranged :=
    ((controller.sizeSlider.setMaximumValue 1).setMinimumValue 0).setValue
      (1 / 2)
  { controller with
    sizeSlider :=
      { ranged with
        maximumTrackTintColor := some .paper
        minimumTrackTintColor := some .accent
        sendsChangeSize := true } }

def changeSize (controller : EditViewController) (sender : UISlider) :
    Option EditViewController :=
  let sizeOpe := sender.value * 2
  if controller.mode = some 0 then
    drawAutoImage { controller with sizeRatio := sizeOpe }
  else
    some
      { controller with
        manualStampViews := controller.manualStampViews.map fun imgView =>
          { imgView with transform := .scale sizeOpe sizeOpe } }

/-! ## Stamps -/

/-- A new manual stamp. -/
def newHige (image : UIImage) (center : CGPoint) : UIImageView :=
  let created := UIImageView.ofFrame
    { origin := { x := 0, y := 0 }, size := { width := 50, height := 50 } }
  { created with
    image := some (.image image)
    contentMode := .scaleAspectFill
    center := center
    isUserInteractionEnabled := true }

def didSelectItemAt (controller : EditViewController) (row : ℕ) :
    Option EditViewController := do
  let higeImages ← controller.higeImages
  let image ← higeImages[row]?
  if controller.mode = some 0 then
    drawAutoImage { controller with selectedHige := some image }
  else
    return { controller with
      imageView :=
        controller.imageView.addSubview controller.manualStampViews.length
      manualStampViews := controller.manualStampViews ++
        [newHige image controller.imageView.center] }

/-- One turn of the inner loop of `touchesMoved`. -/
def moveStamp (touch : UITouch) (controller : EditViewController)
    (index : ℕ) : Option EditViewController := do
  let imgView ← controller.manualStampViews[index]?
  if imgView.frame.contains touch.previousLocation then
    let prev := touch.previousLocation
    let dest := touch.location
    let moved ← imgView.setFrame (imgView.frame.translate (dest - prev))
    return { controller with
      imageView := controller.imageView.addSubview index
      manualStampViews := controller.manualStampViews.set index moved }
  else
    return controller

def moveStamps (controller : EditViewController) (touch : UITouch) :
    Option EditViewController :=
  (List.range controller.manualStampViews.length).foldlM (moveStamp touch)
    controller

def touchesMoved (controller : EditViewController) (touches : List UITouch) :
    Option EditViewController :=
  touches.foldlM moveStamps controller

/-! ## The collection of moustaches -/

/-- `none` while there are no moustaches to count. -/
def numberOfItemsInSection (controller : EditViewController) : Option ℕ :=
  controller.higeImages.map List.length

/-- The dequeued cell may have been used before. -/
def cellForItemAt (controller : EditViewController)
    (cell : HigeCollectionViewCell) (row : ℕ) :
    Option HigeCollectionViewCell := do
  let higeImages ← controller.higeImages
  let image ← higeImages[row]?
  return {
    imageView := { cell.imageView with image := some (.image image) }
    backgroundColor := some .paper }

/-! ## Sharing -/

/-- The sheet that is presented; `none` if there is nothing to draw in. -/
def pushShareBtn (controller : EditViewController) :
    Option UIActivityViewController := do
  let shareImage ← controller.imageView.render fun name =>
    controller.manualStampViews[name]?
  return {
    activityItems := [shareImage]
    excludedActivityTypes := [.postToWeibo, .postToTencentWeibo]
    sourceRect :=
      { origin := { x := 0, y := 0 }, size := { width := 20, height := 20 } } }

/-! ## The controller as UIKit runs it -/

def viewDidLoad (controller : EditViewController) (assets : HigeAssets)
    (detector : VNFaceLandmarksDetector) : Option EditViewController :=
  let shown :=
    match controller.image with
    | some image =>
        { controller with
          imageView :=
            { controller.imageView with image := some (.image image) } }
    | none => controller
  let equipped :=
    { shown with
      higeImages := some assets.all
      selectedHige := some assets.hige1 }
  equipped.initSlider.setAutoMode.putStamp detector

/-- The user slides to a value, which UIKit sends to the target of the
slider. -/
def slide (controller : EditViewController) (value : SliderValue) :
    Option EditViewController :=
  let slid :=
    { controller with sizeSlider := controller.sizeSlider.setValue value.value }
  if slid.sizeSlider.sendsChangeSize then
    slid.changeSize slid.sizeSlider
  else
    some slid

inductive Event where
  | pushAutoBtn
  | pushManualBtn
  | slide (value : SliderValue)
  | didSelectItemAt (row : ℕ)
  | touchesMoved (touches : List UITouch)
  | putHige (observation : VNFaceObservation)

def step (controller : EditViewController) :
    Event → Option EditViewController
  | .pushAutoBtn => some controller.setAutoMode
  | .pushManualBtn => some controller.setManualMode
  | .slide value => controller.slide value
  | .didSelectItemAt row => controller.didSelectItemAt row
  | .touchesMoved touches => controller.touchesMoved touches
  | .putHige observation => controller.putHige observation

end EditViewController

end HigeMaster
