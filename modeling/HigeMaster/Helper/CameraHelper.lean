import HigeMaster.AVFoundation.Session

/-!
# The camera helper

The helper owns the photo output and remembers the completion of a photo
request until AVFoundation delivers the photo.  `none` stands for a stopped
program: a forced unwrap or a forced `try` that fails.
-/

namespace HigeMaster

/-- The bytes of an encoded image. -/
abbrev Data := List UInt8

/-- A file that can be decoded. -/
def onePixelFile : Data := [255, 216]

/-- Decodes this file and no other. -/
def decodeOnePixel (data : Data) : Option UIImage :=
  if data = onePixelFile then some .onePixel else none

structure AVError where
  localizedDescription : String
  deriving DecidableEq

/-- A captured photo, of which the program only reads the encoded data. -/
structure AVCapturePhoto where
  fileDataRepresentation : Option Data
  deriving DecidableEq

/-- The helper.  `Completion` is the type of the callbacks it can remember. -/
structure CameraHelper (Completion : Type) where
  imageOutput : AVCapturePhotoOutput
  completion : Option Completion

/-- A call of `capturePhoto` on an output. -/
structure CaptureRequest where
  output : AVCapturePhotoOutput
  deriving DecidableEq

/-- A call of a completion with an image. -/
structure CompletionCall (Completion : Type) where
  completion : Completion
  image : UIImage

namespace CameraHelper

variable {Completion : Type}

def findDevice (av : AVFoundation) (position : AVCaptureDevice.Position) :
    Option AVCaptureDevice :=
  av.defaultDevice position

/-- The session with what could be added to it, and a preview layer for it if
there is a device.  The session itself is never missing here. -/
def createView (helper : CameraHelper Completion) (av : AVFoundation)
    (session : AVCaptureSession) (device : Option AVCaptureDevice) :
    Option (AVCaptureSession × Option AVCaptureVideoPreviewLayer) :=
  match device with
  | none => some (session, none)
  | some device =>
      if av.opensDevice device then
        let videoInput : AVCaptureDeviceInput := { device := device }
        let withInput :=
          if av.canAddInput session videoInput then
            session.addInput videoInput
          else
            session
        let withOutput :=
          if av.canAddOutput withInput helper.imageOutput then
            withInput.addOutput helper.imageOutput
          else
            withInput
        some (withOutput, some .new)
      else
        none

/-- Remember the completion and ask the output for a photo. -/
def takePhoto (helper : CameraHelper Completion) (completion : Completion) :
    CameraHelper Completion × CaptureRequest :=
  ({ helper with completion := some completion },
    { output := helper.imageOutput })

/-- The delegate callback: the completion call it makes, if it makes one.
`decode` is the failable initializer of an image from its data. -/
def photoOutput (helper : CameraHelper Completion)
    (decode : Data → Option UIImage) (photo : AVCapturePhoto)
    (error : Option AVError) : Option (Option (CompletionCall Completion)) :=
  match error with
  | some _ => some none
  | none =>
      match photo.fileDataRepresentation with
      | some data => do
          let completion ← helper.completion
          let image ← decode data
          return some { completion := completion, image := image }
      | none => some none

/-- The image of a capture that succeeded with data. -/
def photoImage (decode : Data → Option UIImage) (photo : AVCapturePhoto)
    (error : Option AVError) : Option UIImage :=
  match error with
  | some _ => none
  | none => photo.fileDataRepresentation.bind decode

section PhotoOutput

variable {helper : CameraHelper Completion} {decode : Data → Option UIImage}
  {photo : AVCapturePhoto} {error : Option AVError}

theorem photoOutput_of_failure
    (failed : error.isSome = true ∨ photo.fileDataRepresentation = none) :
    helper.photoOutput decode photo error = some none := by
  cases error with
  | some error => rfl
  | none =>
      have missing : photo.fileDataRepresentation = none := by
        simpa using failed
      simp [photoOutput, missing]

theorem photoOutput_of_image {image : UIImage} {completion : Completion}
    (shown : photoImage decode photo error = some image)
    (remembered : helper.completion = some completion) :
    helper.photoOutput decode photo error =
      some (some { completion := completion, image := image }) := by
  cases error with
  | some error => simp [photoImage] at shown
  | none =>
      simp only [photoImage, Option.bind_eq_some_iff] at shown
      obtain ⟨data, represented, decoded⟩ := shown
      simp [photoOutput, represented, decoded, remembered]

/-- Every call passes on the image of the capture that is being delivered. -/
theorem photoImage_of_photoOutput {call : Option (CompletionCall Completion)}
    (delivered : helper.photoOutput decode photo error = some call) :
    photoImage decode photo error = call.map CompletionCall.image := by
  cases error with
  | some error =>
      simp only [photoOutput, Option.some.injEq] at delivered
      subst delivered
      rfl
  | none =>
      cases represented : photo.fileDataRepresentation with
      | none =>
          simp only [photoOutput, represented, Option.some.injEq] at delivered
          subst delivered
          simp [photoImage, represented]
      | some data =>
          simp only [photoOutput, represented, Option.bind_eq_bind,
            Option.bind_eq_some_iff, Option.pure_def, Option.some.injEq]
            at delivered
          obtain ⟨completion, _, image, decoded, rfl⟩ := delivered
          simp [photoImage, represented, decoded]

end PhotoOutput

end CameraHelper

end HigeMaster
