import HigeMaster.UIKit.Image

/-!
# Capture sessions

The part of AVFoundation that the program drives.  Adding, removing, starting
and stopping are defined; which devices exist and what a session accepts is
left to a parameter, with the documented behaviour as named properties.
-/

namespace HigeMaster

inductive AVCaptureDevice.Position where
  | back
  | front
  deriving DecidableEq

structure AVCaptureDevice where
  position : AVCaptureDevice.Position
  deriving DecidableEq

structure AVCaptureDeviceInput where
  device : AVCaptureDevice
  deriving DecidableEq

/-- A photo output; two outputs are told apart by their identity. -/
structure AVCapturePhotoOutput where
  identity : ℕ
  deriving DecidableEq

structure AVCaptureSession where
  inputs : List AVCaptureDeviceInput
  outputs : List AVCapturePhotoOutput
  isRunning : Bool
  deriving DecidableEq

inductive AVLayerVideoGravity where
  | resizeAspect
  | resizeAspectFill
  deriving DecidableEq

/-- A layer that shows what a session captures. -/
structure AVCaptureVideoPreviewLayer where
  frame : CGRect
  videoGravity : AVLayerVideoGravity
  deriving DecidableEq

namespace AVCaptureVideoPreviewLayer

/-- A new layer has no extent and keeps the aspect of the video. -/
def new : AVCaptureVideoPreviewLayer :=
  { frame := { origin := 0, size := { width := 0, height := 0 } }
    videoGravity := .resizeAspect }

end AVCaptureVideoPreviewLayer

namespace AVCaptureSession

def new : AVCaptureSession :=
  { inputs := [], outputs := [], isRunning := false }

def addInput (session : AVCaptureSession) (input : AVCaptureDeviceInput) :
    AVCaptureSession :=
  { session with inputs := session.inputs ++ [input] }

def addOutput (session : AVCaptureSession) (output : AVCapturePhotoOutput) :
    AVCaptureSession :=
  { session with outputs := session.outputs ++ [output] }

def removeInput (session : AVCaptureSession) (input : AVCaptureDeviceInput) :
    AVCaptureSession :=
  { session with inputs := session.inputs.erase input }

def removeOutput (session : AVCaptureSession) (output : AVCapturePhotoOutput) :
    AVCaptureSession :=
  { session with outputs := session.outputs.erase output }

def startRunning (session : AVCaptureSession) : AVCaptureSession :=
  { session with isRunning := true }

def stopRunning (session : AVCaptureSession) : AVCaptureSession :=
  { session with isRunning := false }

private theorem foldl_erase_self {α : Type*} [DecidableEq α] (items : List α) :
    items.foldl List.erase items = [] := by
  induction items with
  | nil => rfl
  | cons item items induction =>
      rw [List.foldl_cons, List.erase_cons_head]
      exact induction

private theorem foldl_removeOutput (session : AVCaptureSession)
    (outputs : List AVCapturePhotoOutput) :
    outputs.foldl removeOutput session =
      { session with outputs := outputs.foldl List.erase session.outputs } := by
  induction outputs generalizing session with
  | nil => rfl
  | cons output outputs induction =>
      rw [List.foldl_cons, induction]
      rfl

private theorem foldl_removeInput (session : AVCaptureSession)
    (inputs : List AVCaptureDeviceInput) :
    inputs.foldl removeInput session =
      { session with inputs := inputs.foldl List.erase session.inputs } := by
  induction inputs generalizing session with
  | nil => rfl
  | cons input inputs induction =>
      rw [List.foldl_cons, induction]
      rfl

theorem foldl_removeOutput_outputs (session : AVCaptureSession) :
    session.outputs.foldl removeOutput session =
      { session with outputs := [] } := by
  rw [foldl_removeOutput, foldl_erase_self]

theorem foldl_removeInput_inputs (session : AVCaptureSession) :
    session.inputs.foldl removeInput session =
      { session with inputs := [] } := by
  rw [foldl_removeInput, foldl_erase_self]

end AVCaptureSession

/-- What the program asks AVFoundation about the machine it runs on. -/
structure AVFoundation where
  /-- The wide angle video camera at a position. -/
  defaultDevice : AVCaptureDevice.Position → Option AVCaptureDevice
  /-- Whether creating an input for a device succeeds. -/
  opensDevice : AVCaptureDevice → Bool
  canAddInput : AVCaptureSession → AVCaptureDeviceInput → Bool
  canAddOutput : AVCaptureSession → AVCapturePhotoOutput → Bool

namespace AVFoundation

/-- There is a camera on the back and one on the front. -/
def FindsBothCameras (av : AVFoundation) : Prop :=
  ∀ position, ∃ device,
    av.defaultDevice position = some device ∧ device.position = position

/-- Both cameras can be opened. -/
def OpensCameras (av : AVFoundation) : Prop :=
  ∀ position device, av.defaultDevice position = some device →
    av.opensDevice device = true

/-- A session without a camera accepts one. -/
def AcceptsFirstInput (av : AVFoundation) : Prop :=
  ∀ session input, session.inputs = [] →
    av.canAddInput session input = true

/-- A session accepts a camera exactly when it has none. -/
def AcceptsOneInput (av : AVFoundation) : Prop :=
  ∀ session input,
    av.canAddInput session input = true ↔ session.inputs = []

/-- A session accepts an output exactly when it does not hold it yet. -/
def AcceptsNewOutput (av : AVFoundation) : Prop :=
  ∀ session output,
    av.canAddOutput session output = true ↔ output ∉ session.outputs

/-- A machine with two working cameras. -/
def twoCameras : AVFoundation :=
  { defaultDevice := fun position => some { position := position }
    opensDevice := fun _ => true
    canAddInput := fun session _ => session.inputs.isEmpty
    canAddOutput := fun session output => !session.outputs.contains output }

theorem twoCameras_findsBothCameras : twoCameras.FindsBothCameras := by
  intro position
  exact ⟨{ position := position }, rfl, rfl⟩

theorem twoCameras_opensCameras : twoCameras.OpensCameras := by
  intro position device _
  rfl

theorem twoCameras_acceptsOneInput : twoCameras.AcceptsOneInput := by
  intro session input
  exact List.isEmpty_iff

theorem twoCameras_acceptsNewOutput : twoCameras.AcceptsNewOutput := by
  intro session output
  simp [twoCameras]

theorem AcceptsOneInput.acceptsFirstInput {av : AVFoundation}
    (accepts : av.AcceptsOneInput) : av.AcceptsFirstInput := by
  intro session input empty
  exact (accepts session input).mpr empty

end AVFoundation

end HigeMaster
