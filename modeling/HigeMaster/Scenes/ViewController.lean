import HigeMaster.EventRun
import HigeMaster.Helper.CameraHelper
import HigeMaster.Helper.CenterSquare

/-!
# The camera screen

`ViewController` owns a capture session, the camera helper and the image it
hands to the preview screen.  Around it stands what UIKit keeps track of:
whether the view is visible, which picker dismissals are still running, and
which segues have been performed.  A step handles one event; `none` means that
the program stops or that the event cannot occur.
-/

namespace HigeMaster

/-- The view that shows the camera, with the preview layers among the
sublayers of its layer. -/
structure CameraView where
  bounds : CGRect
  sublayers : List AVCaptureVideoPreviewLayer

/-- The preview screen, of which the camera screen only sets the image. -/
structure PreviewViewController where
  image : Option UIImage

/-- A value of the dictionary that the picker reports. -/
inductive InfoValue where
  | image (image : UIImage)
  | other

/-- The dictionary that the picker reports. -/
abbrev PickerInfo := String → Option InfoValue

def UIImagePickerControllerEditedImage : String :=
  "UIImagePickerControllerEditedImage"

/-- The edited image among the reported values, if there is one. -/
def PickerInfo.editedImage (info : PickerInfo) : Option UIImage :=
  match info UIImagePickerControllerEditedImage with
  | some (.image image) => some image
  | _ => none

/-- The one callback that the camera screen passes to `takePhoto`. -/
inductive PhotoCompletion where
  | showResult
  deriving DecidableEq

structure ViewController where
  session : AVCaptureSession
  cameraHelper : CameraHelper PhotoCompletion
  image : Option UIImage
  cameraFlag : Bool
  cameraView : CameraView

/-- Where the image of a segue to the preview comes from. -/
inductive Acquisition where
  | capture (photo : UIImage)
  | pick (edited : Option UIImage)

/-- A performed segue: the visit during which it was performed, the
acquisition that performed it, and the screen it leads to. -/
structure Segue where
  visit : ℕ
  acquisition : Acquisition
  destination : PreviewViewController

/-- The controller as UIKit runs it.  `visit` counts the arrivals at the
screen, and `dismissing` lists the edited images of the pickers that are
still being dismissed. -/
structure Screen where
  controller : ViewController
  visible : Bool
  visit : ℕ
  dismissing : List (Option UIImage)
  segues : List Segue

namespace ViewController

/-- The session without its inputs and outputs, and stopped. -/
def tearDown (session : AVCaptureSession) : AVCaptureSession :=
  let stopped := session.stopRunning
  let withoutOutputs :=
    stopped.outputs.foldl AVCaptureSession.removeOutput stopped
  withoutOutputs.inputs.foldl AVCaptureSession.removeInput withoutOutputs

def setupCamera (controller : ViewController) (av : AVFoundation)
    (position : AVCaptureDevice.Position) : Option ViewController := do
  let device := CameraHelper.findDevice av position
  let (session, layer) ←
    controller.cameraHelper.createView av controller.session device
  -- a missing layer is the fatal error "cannot setup layer"
  let videoLayer ← layer
  let placed : AVCaptureVideoPreviewLayer :=
    { videoLayer with
      frame := controller.cameraView.bounds
      videoGravity := .resizeAspectFill }
  return {
    controller with
    session := session.startRunning
    cameraView :=
      { controller.cameraView with
        sublayers := controller.cameraView.sublayers ++ [placed] } }

def viewDidAppear (controller : ViewController) (av : AVFoundation) :
    Option ViewController :=
  controller.setupCamera av .back

def viewDidDisappear (controller : ViewController) : ViewController :=
  { controller with session := tearDown controller.session }

def pushChangeCameraBtn (controller : ViewController) (av : AVFoundation) :
    Option ViewController := do
  let stopped := { controller with session := tearDown controller.session }
  if controller.cameraFlag then
    let switched ← stopped.setupCamera av .back
    return { switched with cameraFlag := false }
  else
    let switched ← stopped.setupCamera av .front
    return { switched with cameraFlag := true }

/-- `capturePhoto` raises an exception unless the output belongs to a running
session with a camera. -/
def capturePhoto (controller : ViewController) (request : CaptureRequest) :
    Option Unit :=
  if controller.session.isRunning = true ∧
      request.output ∈ controller.session.outputs ∧
      controller.session.inputs ≠ [] then
    some ()
  else
    none

def pushCameraBtn (controller : ViewController) : Option ViewController := do
  let (helper, request) := controller.cameraHelper.takePhoto .showResult
  controller.capturePhoto request
  return { controller with cameraHelper := helper }

def cropImage (controller : ViewController) : Option ViewController := do
  let image ← controller.image
  let cropped ← image.croppingCenterSquare
  return { controller with image := some cropped }

def prepare (controller : ViewController) (identifier : String)
    (destination : PreviewViewController) : PreviewViewController :=
  if identifier = "toResultView" then
    { destination with image := controller.image }
  else
    destination

def didFinishPicking (controller : ViewController) (info : PickerInfo) :
    ViewController :=
  { controller with image := PickerInfo.editedImage info }

end ViewController

namespace Screen

inductive Event where
  | viewDidAppear
  | viewDidDisappear
  | pushCameraBtn
  | pushPickerBtn
  | pushChangeCameraBtn
  | photoOutput (photo : AVCapturePhoto) (error : Option AVError)
  | didFinishPicking (info : PickerInfo)
  | dismissed (index : ℕ)

/-- The screen before its first appearance, with the camera view laid out in
`bounds`. -/
def initial (bounds : CGRect) : Screen :=
  { controller :=
      { session := .new
        cameraHelper :=
          { imageOutput := { identity := 0 }, completion := none }
        image := none
        cameraFlag := false
        cameraView := { bounds := bounds, sublayers := [] } }
    visible := false
    visit := 0
    dismissing := []
    segues := [] }

/-- UIKit instantiates the destination and has the controller prepare it. -/
def performSegue (screen : Screen) (identifier : String)
    (acquisition : Acquisition) : Screen :=
  { screen with
    segues := screen.segues ++
      [{ visit := screen.visit
         acquisition := acquisition
         destination := screen.controller.prepare identifier { image := none } }] }

/-- The body of the completion that the camera button passes on. -/
def showResult (screen : Screen) (photo : UIImage) : Option Screen := do
  let received := { screen.controller with image := some photo }
  let controller ← received.cropImage
  return { screen with controller := controller }.performSegue "toResultView"
    (.capture photo)

section Step

variable (av : AVFoundation) (decode : Data → Option UIImage)

def step (screen : Screen) : Event → Option Screen
  | .viewDidAppear => do
      let controller ← screen.controller.viewDidAppear av
      return {
        screen with
        controller := controller
        visible := true
        visit := screen.visit + 1 }
  | .viewDidDisappear =>
      some
        { screen with
          controller := screen.controller.viewDidDisappear
          visible := false }
  | .pushCameraBtn => do
      let controller ← screen.controller.pushCameraBtn
      return { screen with controller := controller }
  | .pushPickerBtn => some screen
  | .pushChangeCameraBtn => do
      let controller ← screen.controller.pushChangeCameraBtn av
      return { screen with controller := controller }
  | .photoOutput photo error => do
      match ← screen.controller.cameraHelper.photoOutput decode photo error with
      | none => return screen
      | some call =>
          match call.completion with
          | .showResult => screen.showResult call.image
  | .didFinishPicking info =>
      let controller := screen.controller.didFinishPicking info
      some
        { screen with
          controller := controller
          dismissing := screen.dismissing ++ [controller.image] }
  | .dismissed index => do
      let edited ← screen.dismissing[index]?
      return { screen with
        dismissing := screen.dismissing.eraseIdx index }.performSegue
          "toResultView" (.pick edited)

end Step

end Screen

end HigeMaster
