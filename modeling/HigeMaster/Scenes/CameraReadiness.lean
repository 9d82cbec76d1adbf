import HigeMaster.Scenes.CameraSession

/-!
# The camera is ready whenever the shutter can be pressed

While the screen is visible its session runs with one camera and the photo
output of the helper; while it is hidden its session is stopped and empty.
This holds for every order of appearances, disappearances (which may repeat)
and switches, so no addition to the session is ever skipped and none of these
events, nor the shutter, can stop the program.
-/

namespace HigeMaster

namespace Screen

variable {av : AVFoundation} {decode : Data → Option UIImage}

/-- Appearances need a hidden screen and buttons a visible one; after the
first appearance the screen may be told to disappear at any time. -/
def Occurs (screen : Screen) : Event → Prop
  | .viewDidAppear => screen.visible = false
  | .viewDidDisappear => screen.visit ≠ 0
  | .pushChangeCameraBtn => screen.visible = true
  | .pushCameraBtn => screen.visible = true
  | _ => True

/-- The events that set up, tear down or use the camera. -/
def Event.IsCameraEvent : Event → Prop
  | .viewDidAppear | .viewDidDisappear | .pushChangeCameraBtn
  | .pushCameraBtn => True
  | _ => False

/-- The session runs with exactly one camera and holds the photo output
exactly once. -/
def SessionReady (screen : Screen) : Prop :=
  screen.controller.session.isRunning = true ∧
    (∃ device, screen.controller.session.inputs = [{ device := device }]) ∧
    screen.controller.session.outputs =
      [screen.controller.cameraHelper.imageOutput]

/-- The session is stopped and has neither inputs nor outputs. -/
def SessionStopped (screen : Screen) : Prop :=
  screen.controller.session.isRunning = false ∧
    screen.controller.session.inputs = [] ∧
    screen.controller.session.outputs = []

/-- The session that an event hands to `createView`, if it sets up the
camera. -/
def setupSession (screen : Screen) : Event → Option AVCaptureSession
  | .viewDidAppear => some screen.controller.session
  | .pushChangeCameraBtn =>
      some (ViewController.tearDown screen.controller.session)
  | _ => none

/-- The camera that an event sets up. -/
def setupPosition (screen : Screen) : Event → AVCaptureDevice.Position
  | .pushChangeCameraBtn => nextPosition screen.controller.cameraFlag
  | _ => .back

/-- These are the session and the camera that the event passes on to
`setupCamera`, and its session is the one that the event leaves. -/
theorem session_step {screen : Screen} {event : Event}
    {session : AVCaptureSession}
    (setup : screen.setupSession event = some session) :
    (step av decode screen event).map (fun after => after.controller.session) =
      (({ screen.controller with session := session }
        : ViewController).setupCamera av (screen.setupPosition event)).map
          ViewController.session := by
  cases event with
  | viewDidAppear =>
      obtain rfl := Option.some_inj.mp setup
      simp only [step, ViewController.viewDidAppear, setupPosition]
      cases screen.controller.setupCamera av .back <;> rfl
  | pushChangeCameraBtn =>
      obtain rfl := Option.some_inj.mp setup
      simp only [step, ViewController.pushChangeCameraBtn, setupPosition,
        nextPosition]
      cases screen.controller.cameraFlag with
      | true =>
          simp only [if_true]
          cases ViewController.setupCamera _ av .back <;> rfl
      | false =>
          simp only [Bool.false_eq_true, if_false]
          cases ViewController.setupCamera _ av .front <;> rfl
  | viewDidDisappear | pushCameraBtn | pushPickerBtn | photoOutput
    | didFinishPicking | dismissed =>
      cases setup

/-- Neither guard of `createView` skips an addition, whichever camera is set
up. -/
def NothingSkipped (av : AVFoundation) (screen : Screen) (event : Event) :
    Prop :=
  ∀ session, screen.setupSession event = some session →
    ∀ device : AVCaptureDevice,
      av.canAddInput session { device := device } = true ∧
        av.canAddOutput (session.addInput { device := device })
          screen.controller.cameraHelper.imageOutput = true

/-- What the invariant says of the session. -/
def SessionMatchesVisibility (screen : Screen) : Prop :=
  (screen.visible = true → SessionReady screen) ∧
    (screen.visible = false → SessionStopped screen)

theorem sessionMatchesVisibility_initial (bounds : CGRect) :
    SessionMatchesVisibility (initial bounds) := by
  constructor
  · intro visible
    cases visible
  · intro _
    exact ⟨rfl, rfl, rfl⟩

section Readiness

variable (finds : av.FindsBothCameras) (opens : av.OpensCameras)
  (oneInput : av.AcceptsOneInput) (newOutput : av.AcceptsNewOutput)

private theorem withCamera_ready {controller : ViewController}
    (oneInput : av.AcceptsOneInput) (newOutput : av.AcceptsNewOutput)
    (noInputs : controller.session.inputs = [])
    (noOutputs : controller.session.outputs = [])
    (device : AVCaptureDevice) :
    (controller.withCamera av device).session =
      { inputs := [{ device := device }]
        outputs := [controller.cameraHelper.imageOutput]
        isRunning := true } := by
  have inputs := ViewController.connect_inputs oneInput.acceptsFirstInput
    noInputs controller.cameraHelper.imageOutput device
  have outputs := ViewController.connect_outputs newOutput noOutputs
    controller.cameraHelper.imageOutput device
  simp only [ViewController.withCamera, AVCaptureSession.startRunning, inputs,
    outputs]

include oneInput newOutput in
theorem SessionMatchesVisibility.step {before after : Screen} {event : Event}
    (ready : SessionMatchesVisibility before) (occurs : Occurs before event)
    (taken : Screen.step av decode before event = some after) :
    SessionMatchesVisibility after := by
  have change := step_cameraChange taken
  cases event with
  | viewDidAppear =>
      obtain ⟨device, _, rfl⟩ := change
      obtain ⟨_, noInputs, noOutputs⟩ := ready.2 occurs
      have session :=
        withCamera_ready oneInput newOutput noInputs noOutputs device
      constructor
      · intro _
        unfold SessionReady
        rw [session]
        exact ⟨rfl, ⟨device, rfl⟩, rfl⟩
      · intro hidden
        cases hidden
  | viewDidDisappear =>
      obtain rfl := change
      constructor
      · intro visible
        cases visible
      · intro _
        exact ⟨rfl, rfl, rfl⟩
  | pushChangeCameraBtn =>
      obtain ⟨device, _, rfl⟩ := change
      let emptied : ViewController :=
        { before.controller with session := .new }
      have session : (emptied.withCamera av device).session = _ :=
        withCamera_ready oneInput newOutput rfl rfl device
      constructor
      · intro _
        unfold SessionReady
        rw [show ({ emptied.withCamera av device with
          cameraFlag := !before.controller.cameraFlag }
            : ViewController).session = _ from session]
        exact ⟨rfl, ⟨device, rfl⟩, rfl⟩
      · intro hidden
        rw [show before.visible = true from occurs] at hidden
        cases hidden
  | pushCameraBtn | pushPickerBtn | photoOutput | didFinishPicking
    | dismissed =>
      unfold SessionMatchesVisibility SessionReady SessionStopped
      rw [change.session, change.imageOutput, change.visible]
      exact ready

include finds opens in
private theorem setupCamera_succeeds (controller : ViewController)
    (position : AVCaptureDevice.Position) :
    ∃ next, controller.setupCamera av position = some next := by
  obtain ⟨device, found, _⟩ := finds position
  exact ⟨_, ViewController.setupCamera_eq_some.mpr
    ⟨device, found, opens position device found, rfl⟩⟩

include finds opens in
private theorem setup_succeeds {screen : Screen} {event : Event}
    {session : AVCaptureSession}
    (setup : screen.setupSession event = some session) :
    ∃ next, Screen.step av decode screen event = some next := by
  obtain ⟨next, placed⟩ := setupCamera_succeeds finds opens
    { screen.controller with session := session } (screen.setupPosition event)
  have left : (Screen.step av decode screen event).map
      (fun after => after.controller.session) = some next.session := by
    rw [session_step setup, placed, Option.map_some]
  obtain ⟨after, taken, _⟩ := Option.map_eq_some_iff.mp left
  exact ⟨after, taken⟩

/-- At every press of the shutter the output belongs to a running session with
a camera. -/
theorem capturePhoto_succeeds {screen : Screen}
    (ready : SessionMatchesVisibility screen)
    (occurs : Occurs screen .pushCameraBtn) :
    screen.controller.capturePhoto
      (screen.controller.cameraHelper.takePhoto .showResult).2 = some () := by
  obtain ⟨running, ⟨device, inputs⟩, outputs⟩ := ready.1 occurs
  simp [CameraHelper.takePhoto, ViewController.capturePhoto, running, inputs,
    outputs]

include finds opens in
/-- From a state that satisfies the invariant, a camera event that can occur
does not stop the program. -/
theorem cameraEvent_succeeds {screen : Screen} {event : Event}
    (ready : SessionMatchesVisibility screen) (occurs : Occurs screen event)
    (camera : event.IsCameraEvent) :
    ∃ next, Screen.step av decode screen event = some next := by
  cases event with
  | viewDidAppear => exact setup_succeeds finds opens rfl
  | viewDidDisappear => exact ⟨_, rfl⟩
  | pushChangeCameraBtn => exact setup_succeeds finds opens rfl
  | pushCameraBtn =>
      have captured := capturePhoto_succeeds ready occurs
      simp [Screen.step, ViewController.pushCameraBtn, captured]
  | pushPickerBtn | photoOutput | didFinishPicking | dismissed =>
      exact camera.elim

include oneInput newOutput in
theorem nothingSkipped {screen : Screen} {event : Event}
    (ready : SessionMatchesVisibility screen) (occurs : Occurs screen event) :
    NothingSkipped av screen event := by
  intro session setup device
  have empty : session.inputs = [] ∧ session.outputs = [] := by
    cases event with
    | viewDidAppear =>
        simp only [setupSession, Option.some.injEq] at setup
        subst setup
        exact (ready.2 occurs).2
    | pushChangeCameraBtn =>
        simp only [setupSession, ViewController.tearDown_eq,
          Option.some.injEq] at setup
        subst setup
        exact ⟨rfl, rfl⟩
    | viewDidDisappear | pushCameraBtn | pushPickerBtn | photoOutput
      | didFinishPicking | dismissed =>
        simp [setupSession] at setup
  refine ⟨(oneInput session _).mpr empty.1, (newOutput _ _).mpr ?_⟩
  simp [AVCaptureSession.addInput, empty.2]

end Readiness

end Screen

end HigeMaster
