import HigeMaster.Scenes.ViewController

/-!
# What a step does to the camera

Only four events touch the capture session: the two appearance callbacks, the
change button, and (by reading it) the shutter.  `CameraChange` says for every
event what it does to the session, the camera flag, the preview layers and the
visibility of the screen; the invariants of the camera are derived from it.
-/

namespace HigeMaster

namespace ViewController

@[simp] theorem tearDown_eq (session : AVCaptureSession) :
    tearDown session = .new := by
  unfold tearDown
  simp only [AVCaptureSession.foldl_removeOutput_outputs,
    AVCaptureSession.foldl_removeInput_inputs]
  rfl

/-- The session after `createView` has tried to add a camera and an output. -/
def connect (av : AVFoundation) (session : AVCaptureSession)
    (output : AVCapturePhotoOutput) (device : AVCaptureDevice) :
    AVCaptureSession :=
  let withInput :=
    if av.canAddInput session { device := device } then
      session.addInput { device := device }
    else
      session
  if av.canAddOutput withInput output then
    withInput.addOutput output
  else
    withInput

/-- The controller after `setupCamera` has found and opened `device`. -/
def withCamera (controller : ViewController) (av : AVFoundation)
    (device : AVCaptureDevice) : ViewController :=
  { controller with
    session :=
      (connect av controller.session controller.cameraHelper.imageOutput
        device).startRunning
    cameraView :=
      { controller.cameraView with
        sublayers := controller.cameraView.sublayers ++
          [{ frame := controller.cameraView.bounds
             videoGravity := .resizeAspectFill }] } }

theorem setupCamera_eq_some {controller next : ViewController}
    {av : AVFoundation} {position : AVCaptureDevice.Position} :
    controller.setupCamera av position = some next ↔
      ∃ device, av.defaultDevice position = some device ∧
        av.opensDevice device = true ∧
        next = controller.withCamera av device := by
  unfold setupCamera CameraHelper.findDevice CameraHelper.createView
  cases found : av.defaultDevice position with
  | none => simp
  | some device =>
      by_cases opens : av.opensDevice device = true
      · simp only [opens, if_true, Option.bind_eq_bind, Option.bind_some,
          Option.pure_def, Option.some.injEq]
        constructor
        · intro placed
          exact ⟨device, rfl, opens, placed.symm⟩
        · intro given
          rcases given with ⟨_, rfl, _, rfl⟩
          rfl
      · simp [opens]

@[simp] theorem withCamera_cameraFlag (controller : ViewController)
    (av : AVFoundation) (device : AVCaptureDevice) :
    (controller.withCamera av device).cameraFlag = controller.cameraFlag :=
  rfl

theorem connect_inputs {av : AVFoundation} (accepts : av.AcceptsFirstInput)
    {session : AVCaptureSession} (empty : session.inputs = [])
    (output : AVCapturePhotoOutput) (device : AVCaptureDevice) :
    (connect av session output device).inputs = [{ device := device }] := by
  unfold connect
  rw [if_pos (accepts session _ empty)]
  dsimp only
  split
  · simp [AVCaptureSession.addInput, AVCaptureSession.addOutput, empty]
  · simp [AVCaptureSession.addInput, empty]

/-- A new output is attached, whether or not the camera was. -/
theorem connect_outputs {av : AVFoundation} (accepts : av.AcceptsNewOutput)
    {session : AVCaptureSession} (empty : session.outputs = [])
    (output : AVCapturePhotoOutput) (device : AVCaptureDevice) :
    (connect av session output device).outputs = [output] := by
  unfold connect
  dsimp only
  split
  · rw [if_pos ((accepts _ _).mpr (by
      simp [AVCaptureSession.addInput, empty]))]
    simp [AVCaptureSession.addInput, AVCaptureSession.addOutput, empty]
  · rw [if_pos ((accepts _ _).mpr (by simp [empty]))]
    simp [AVCaptureSession.addOutput, empty]

end ViewController

namespace Screen

variable {av : AVFoundation} {decode : Data → Option UIImage}

/-- The camera of a screen is untouched. -/
structure SameCamera (before after : Screen) : Prop where
  session : after.controller.session = before.controller.session
  imageOutput : after.controller.cameraHelper.imageOutput =
    before.controller.cameraHelper.imageOutput
  cameraFlag : after.controller.cameraFlag = before.controller.cameraFlag
  cameraView : after.controller.cameraView = before.controller.cameraView
  visible : after.visible = before.visible
  visit : after.visit = before.visit

/-- The position that the change button switches to. -/
def nextPosition (cameraFlag : Bool) : AVCaptureDevice.Position :=
  if cameraFlag then .back else .front

/-- What an event does to the camera. -/
def CameraChange (av : AVFoundation) (before : Screen) (event : Event)
    (after : Screen) : Prop :=
  match event with
  | .viewDidAppear =>
      ∃ device, av.defaultDevice .back = some device ∧
        after =
          { before with
            controller := before.controller.withCamera av device
            visible := true
            visit := before.visit + 1 }
  | .viewDidDisappear =>
      after =
        { before with
          controller := { before.controller with session := .new }
          visible := false }
  | .pushChangeCameraBtn =>
      ∃ device,
        av.defaultDevice (nextPosition before.controller.cameraFlag) =
            some device ∧
          after =
            { before with
              controller :=
                { ({ before.controller with session := .new }
                    : ViewController).withCamera av device with
                  cameraFlag := !before.controller.cameraFlag } }
  | _ => SameCamera before after

theorem showResult_sameCamera {screen next : Screen} {photo : UIImage}
    (shown : screen.showResult photo = some next) :
    SameCamera screen next := by
  simp only [showResult, ViewController.cropImage, Option.bind_eq_bind,
    Option.bind_some, Option.bind_eq_some_iff, Option.pure_def,
    Option.some.injEq] at shown
  obtain ⟨controller, ⟨cropped, _, rfl⟩, rfl⟩ := shown
  exact ⟨rfl, rfl, rfl, rfl, rfl, rfl⟩

theorem step_cameraChange {before after : Screen} {event : Event}
    (taken : step av decode before event = some after) :
    CameraChange av before event after := by
  cases event with
  | viewDidAppear =>
      simp only [step, ViewController.viewDidAppear, Option.bind_eq_bind,
        Option.bind_eq_some_iff, ViewController.setupCamera_eq_some,
        Option.pure_def, Option.some.injEq] at taken
      obtain ⟨controller, ⟨device, found, _, rfl⟩, rfl⟩ := taken
      exact ⟨device, found, rfl⟩
  | viewDidDisappear =>
      simp only [step, ViewController.viewDidDisappear,
        ViewController.tearDown_eq, Option.some.injEq] at taken
      exact taken.symm
  | pushCameraBtn =>
      simp only [step, ViewController.pushCameraBtn, CameraHelper.takePhoto,
        Option.bind_eq_bind, Option.bind_eq_some_iff, Option.pure_def,
        Option.some.injEq] at taken
      obtain ⟨controller, ⟨_, _, rfl⟩, rfl⟩ := taken
      exact ⟨rfl, rfl, rfl, rfl, rfl, rfl⟩
  | pushPickerBtn =>
      simp only [step, Option.some.injEq] at taken
      subst taken
      exact ⟨rfl, rfl, rfl, rfl, rfl, rfl⟩
  | pushChangeCameraBtn =>
      simp only [step, ViewController.pushChangeCameraBtn,
        ViewController.tearDown_eq, Option.bind_eq_bind,
        Option.bind_eq_some_iff, Option.pure_def, Option.some.injEq] at taken
      obtain ⟨controller, switched, rfl⟩ := taken
      cases flag : before.controller.cameraFlag with
      | true =>
          simp only [flag, if_true, Option.bind_eq_some_iff,
            ViewController.setupCamera_eq_some, Option.some.injEq] at switched
          obtain ⟨_, ⟨device, found, _, rfl⟩, rfl⟩ := switched
          exact ⟨device, by simpa [nextPosition, flag] using found,
            by simp [flag]⟩
      | false =>
          simp only [flag, Bool.false_eq_true, if_false,
            Option.bind_eq_some_iff, ViewController.setupCamera_eq_some,
            Option.some.injEq] at switched
          obtain ⟨_, ⟨device, found, _, rfl⟩, rfl⟩ := switched
          exact ⟨device, by simpa [nextPosition, flag] using found,
            by simp [flag]⟩
  | photoOutput photo error =>
      simp only [step, Option.bind_eq_bind, Option.bind_eq_some_iff] at taken
      obtain ⟨call, _, result⟩ := taken
      cases call with
      | none =>
          simp only [Option.pure_def, Option.some.injEq] at result
          subst result
          exact ⟨rfl, rfl, rfl, rfl, rfl, rfl⟩
      | some call => exact showResult_sameCamera result
  | didFinishPicking info =>
      simp only [step, Option.some.injEq] at taken
      subst taken
      exact ⟨rfl, rfl, rfl, rfl, rfl, rfl⟩
  | dismissed index =>
      simp only [step, Option.bind_eq_bind, Option.bind_eq_some_iff,
        Option.pure_def, Option.some.injEq] at taken
      obtain ⟨edited, _, rfl⟩ := taken
      exact ⟨rfl, rfl, rfl, rfl, rfl, rfl⟩

/-! ## Disciplined runs -/

/-- The appearance callbacks alternate, and the change button is pressed only
while the screen is visible. -/
def Alternating (screen : Screen) : Event → Prop
  | .viewDidAppear => screen.visible = false
  | .viewDidDisappear => screen.visible = true
  | .pushChangeCameraBtn => screen.visible = true
  | _ => True

/-- A hidden session has nothing attached. -/
def HiddenIsEmpty (screen : Screen) : Prop :=
  screen.visible = false →
    screen.controller.session.inputs = [] ∧
      screen.controller.session.outputs = []

theorem hiddenIsEmpty_initial (bounds : CGRect) :
    HiddenIsEmpty (initial bounds) := by
  intro _
  exact ⟨rfl, rfl⟩

theorem HiddenIsEmpty.step {before after : Screen} {event : Event}
    (empty : HiddenIsEmpty before)
    (visible : event = .pushChangeCameraBtn → before.visible = true)
    (taken : step av decode before event = some after) :
    HiddenIsEmpty after := by
  have change := step_cameraChange taken
  intro hidden
  cases event with
  | viewDidAppear =>
      obtain ⟨device, _, rfl⟩ := change
      simp at hidden
  | viewDidDisappear =>
      obtain rfl := change
      exact ⟨rfl, rfl⟩
  | pushChangeCameraBtn =>
      obtain ⟨device, _, rfl⟩ := change
      rw [visible rfl] at hidden
      cases hidden
  | pushCameraBtn | pushPickerBtn | photoOutput | didFinishPicking | dismissed =>
      rw [change.session]
      exact empty (change.visible ▸ hidden)

end Screen

end HigeMaster
