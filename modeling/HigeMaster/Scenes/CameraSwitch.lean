import HigeMaster.Scenes.CameraSession
import Mathlib.Algebra.Ring.Parity

/-!
# The camera flag and the attached camera

`pushChangeCameraBtn` keeps `cameraFlag` in step with the camera it attaches,
but `viewDidAppear` always attaches the back camera and leaves the flag alone.
The two agree throughout a run exactly when the screen is only ever entered
after an even number of presses of the change button.
-/

namespace HigeMaster

namespace Screen

variable {av : AVFoundation} {decode : Data → Option UIImage}

/-- The only camera of the session. -/
def AttachedCamera (screen : Screen) (position : AVCaptureDevice.Position) :
    Prop :=
  ∃ device, screen.controller.session.inputs = [{ device := device }] ∧
    device.position = position

/-- While the screen is visible, its only camera is the front camera if and
only if the flag is set. -/
def FlagAgrees (screen : Screen) : Prop :=
  screen.visible = true →
    (screen.AttachedCamera .front ↔ screen.controller.cameraFlag = true)

/-- A press of the change button attaches the other camera. -/
def PressSwitches (before : Screen) (event : Event) (after : Screen) : Prop :=
  event = .pushChangeCameraBtn →
    ∃ left right, before.AttachedCamera left ∧ after.AttachedCamera right ∧
      left ≠ right

/-- The number of presses of the change button. -/
def presses (events : List Event) : ℕ :=
  events.countP fun event =>
    match event with
    | .pushChangeCameraBtn => true
    | _ => false

/-- Before every appearance the change button has been pressed an even number
of times. -/
def AppearsAfterEvenPresses (events : List Event) : Prop :=
  ∀ earlier later, events = earlier ++ .viewDidAppear :: later →
    Even (presses earlier)

theorem AttachedCamera.unique {screen : Screen}
    {left right : AVCaptureDevice.Position}
    (first : screen.AttachedCamera left)
    (second : screen.AttachedCamera right) : left = right := by
  obtain ⟨device, inputs, rfl⟩ := first
  obtain ⟨other, otherInputs, rfl⟩ := second
  rw [inputs] at otherInputs
  simp only [List.cons.injEq, AVCaptureDeviceInput.mk.injEq, and_true]
    at otherInputs
  rw [otherInputs]

theorem attachedCamera_of_sameCamera {before after : Screen}
    (same : SameCamera before after) (position : AVCaptureDevice.Position) :
    after.AttachedCamera position ↔ before.AttachedCamera position := by
  unfold AttachedCamera
  rw [same.session]

theorem cameraFlag_iff_odd_presses {start final : Screen}
    {events : List Event}
    (completed : EventRun.run (step av decode) start events = some final) :
    final.controller.cameraFlag =
      (start.controller.cameraFlag ^^ decide (Odd (presses events))) := by
  induction events generalizing start with
  | nil =>
      simp only [EventRun.run_nil, Option.some.injEq] at completed
      subst completed
      simp [presses]
  | cons event events induction =>
      obtain ⟨next, taken, completed⟩ :=
        EventRun.run_cons_eq_some.mp completed
      have change := step_cameraChange taken
      rw [induction completed]
      cases event with
      | viewDidAppear =>
          obtain ⟨device, _, rfl⟩ := change
          rfl
      | viewDidDisappear =>
          obtain rfl := change
          rfl
      | pushChangeCameraBtn =>
          obtain ⟨device, _, rfl⟩ := change
          have counted : presses (.pushChangeCameraBtn :: events) =
              presses events + 1 := by
            simp [presses]
          rw [counted]
          by_cases odd : Odd (presses events)
          · have even : ¬Odd (presses events + 1) := by
              rw [Nat.not_odd_iff_even]
              exact odd.add_one
            simp [odd, even]
          · have flipped : Odd (presses events + 1) :=
              (Nat.not_odd_iff_even.mp odd).add_one
            simp [odd, flipped]
      | pushCameraBtn | pushPickerBtn | photoOutput | didFinishPicking
        | dismissed =>
          rw [change.cameraFlag]
          rfl

section Agreement

variable (finds : av.FindsBothCameras) (accepts : av.AcceptsFirstInput)

/-- The camera that an appearance or a press leaves attached. -/
private theorem attachedCamera_withCamera {controller : ViewController}
    {device : AVCaptureDevice} {position : AVCaptureDevice.Position}
    (accepts : av.AcceptsFirstInput) (finds : av.FindsBothCameras)
    (empty : controller.session.inputs = [])
    (found : av.defaultDevice position = some device) :
    (controller.withCamera av device).session.inputs =
        [{ device := device }] ∧
      device.position = position := by
  refine ⟨ViewController.connect_inputs accepts empty _ device, ?_⟩
  obtain ⟨other, otherFound, sameWay⟩ := finds position
  rw [found, Option.some.injEq] at otherFound
  rw [otherFound]
  exact sameWay

/-- Exactly one camera is attached while the screen is visible, and none
while it is hidden. -/
def CameraWhileVisible (screen : Screen) : Prop :=
  HiddenIsEmpty screen ∧
    (screen.visible = true → ∃ position, screen.AttachedCamera position)

theorem cameraWhileVisible_initial (bounds : CGRect) :
    CameraWhileVisible (initial bounds) := by
  refine ⟨hiddenIsEmpty_initial bounds, ?_⟩
  intro visible
  cases visible

include finds accepts in
theorem CameraWhileVisible.step {before after : Screen} {event : Event}
    (camera : CameraWhileVisible before) (enabled : Alternating before event)
    (taken : Screen.step av decode before event = some after) :
    CameraWhileVisible after := by
  have pressed : event = .pushChangeCameraBtn → before.visible = true := by
    intro same
    subst same
    exact enabled
  refine ⟨camera.1.step pressed taken, ?_⟩
  have change := step_cameraChange taken
  intro visible
  cases event with
  | viewDidAppear =>
      obtain ⟨device, found, rfl⟩ := change
      exact ⟨.back, device,
        attachedCamera_withCamera accepts finds (camera.1 enabled).1 found⟩
  | viewDidDisappear =>
      obtain rfl := change
      cases visible
  | pushChangeCameraBtn =>
      obtain ⟨device, found, rfl⟩ := change
      exact ⟨_, device, attachedCamera_withCamera accepts finds rfl found⟩
  | pushCameraBtn | pushPickerBtn | photoOutput | didFinishPicking
    | dismissed =>
      obtain ⟨position, attached⟩ := camera.2 (change.visible ▸ visible)
      exact ⟨position, (attachedCamera_of_sameCamera change position).mpr
        attached⟩

include finds accepts in
/-- Agreement of the flag survives every step but an appearance with the flag
set. -/
theorem flagAgrees_step_iff {before after : Screen} {event : Event}
    (camera : CameraWhileVisible before) (enabled : Alternating before event)
    (agrees : FlagAgrees before)
    (taken : Screen.step av decode before event = some after) :
    FlagAgrees after ↔
      (event = .viewDidAppear → before.controller.cameraFlag = false) := by
  have change := step_cameraChange taken
  cases event with
  | viewDidAppear =>
      obtain ⟨device, found, rfl⟩ := change
      obtain ⟨inputs, back⟩ :=
        attachedCamera_withCamera accepts finds (camera.1 enabled).1 found
      have notFront : ¬AttachedCamera
          { before with
            controller := before.controller.withCamera av device
            visible := true
            visit := before.visit + 1 } .front := by
        intro front
        have same := front.unique ⟨device, inputs, back⟩
        cases same
      simp [FlagAgrees, notFront]
  | viewDidDisappear =>
      obtain rfl := change
      simp [FlagAgrees]
  | pushChangeCameraBtn =>
      obtain ⟨device, found, rfl⟩ := change
      have emptied :
          ({ before.controller with session := .new }
            : ViewController).session.inputs = [] :=
        rfl
      obtain ⟨inputs, position⟩ :=
        attachedCamera_withCamera accepts finds emptied found
      simp only [reduceCtorEq, false_implies, iff_true]
      intro _
      constructor
      · intro front
        have same := front.unique ⟨device, inputs, position⟩
        cases flag : before.controller.cameraFlag with
        | true => simp [nextPosition, flag] at same
        | false => rfl
      · intro flipped
        have flag : before.controller.cameraFlag = false := by
          simpa using flipped
        refine ⟨device, inputs, ?_⟩
        rw [position, nextPosition, flag]
        rfl
  | pushCameraBtn | pushPickerBtn | photoOutput | didFinishPicking
    | dismissed =>
      simp only [reduceCtorEq, false_implies, iff_true]
      intro visible
      rw [attachedCamera_of_sameCamera change, change.cameraFlag]
      exact agrees (change.visible ▸ visible)

include finds accepts in
theorem pressSwitches_of_flagAgrees {before after : Screen} {event : Event}
    (camera : CameraWhileVisible before) (enabled : Alternating before event)
    (agrees : FlagAgrees before)
    (taken : Screen.step av decode before event = some after) :
    PressSwitches before event after := by
  intro same
  subst same
  have visible : before.visible = true := enabled
  obtain ⟨left, attached⟩ := camera.2 visible
  obtain ⟨device, found, rfl⟩ := step_cameraChange taken
  refine ⟨left, nextPosition before.controller.cameraFlag, attached,
    ⟨device, attachedCamera_withCamera accepts finds rfl found⟩, ?_⟩
  intro same
  subst same
  have frontIff := agrees visible
  cases flag : before.controller.cameraFlag with
  | true =>
      have front := frontIff.mpr flag
      have same := front.unique attached
      simp [nextPosition, flag] at same
  | false =>
      rw [flag] at attached
      have set := frontIff.mp attached
      rw [flag] at set
      cases set

include finds accepts in
/-- The flag agrees with the camera in every state of a run, and every press
switches the camera, exactly when the screen is entered after even numbers of
presses only. -/
theorem cameraFlag_agrees_iff {bounds : CGRect} {events : List Event}
    {final : Screen}
    (alternating : EventRun.Disciplined (Screen.step av decode) Alternating
      (initial bounds) events)
    (completed :
      EventRun.run (Screen.step av decode) (initial bounds) events =
        some final) :
    (EventRun.Always (Screen.step av decode) FlagAgrees (initial bounds)
        events ∧
      EventRun.EveryStep (Screen.step av decode) PressSwitches
        (initial bounds) events) ↔
      AppearsAfterEvenPresses events := by
  have camera : EventRun.Always (Screen.step av decode) CameraWhileVisible
      (initial bounds) events :=
    EventRun.always_of_disciplined (cameraWhileVisible_initial bounds)
      (fun _ _ _ => CameraWhileVisible.step finds accepts) alternating
  have agreement : EventRun.Always (Screen.step av decode) FlagAgrees
      (initial bounds) events ↔
        EventRun.EveryStep (Screen.step av decode)
          (fun before event _ =>
            event = .viewDidAppear → before.controller.cameraFlag = false)
          (initial bounds) events := by
    apply EventRun.always_iff_everyStep_of_disciplined
      (cameraWhileVisible_initial bounds)
    · intro visible
      cases visible
    · intro before event after
      exact CameraWhileVisible.step finds accepts
    · intro before event after kept enabled agrees taken
      exact flagAgrees_step_iff finds accepts kept enabled agrees taken
    · exact alternating
  have switching : EventRun.Always (Screen.step av decode) FlagAgrees
      (initial bounds) events →
        EventRun.EveryStep (Screen.step av decode) PressSwitches
          (initial bounds) events := by
    intro agrees
    refine EventRun.everyStep_of_always ?_ (camera.and agrees) alternating
    intro before event after kept enabled taken
    exact pressSwitches_of_flagAgrees finds accepts kept.1 enabled kept.2 taken
  rw [and_iff_left_of_imp switching, agreement]
  constructor
  · intro every earlier later split
    rw [split] at completed
    obtain ⟨before, reached, rest⟩ := EventRun.run_append_eq_some.mp completed
    obtain ⟨after, taken, _⟩ := EventRun.run_cons_eq_some.mp rest
    have unset := every earlier .viewDidAppear later split before after
      reached taken rfl
    rw [cameraFlag_iff_odd_presses reached] at unset
    simpa [initial] using unset
  · intro even earlier event later split before after reached taken appears
    subst appears
    have counted := even earlier later split
    rw [cameraFlag_iff_odd_presses reached]
    simpa [initial] using counted

end Agreement

/-- The user switches to the front camera, leaves the screen and returns. -/
def returnAfterSwitch : List Event :=
  [.viewDidAppear, .pushChangeCameraBtn, .viewDidDisappear, .viewDidAppear]

theorem returnAfterSwitch_alternating (decode : Data → Option UIImage)
    (bounds : CGRect) :
    EventRun.Disciplined (Screen.step .twoCameras decode) Alternating
      (initial bounds) returnAfterSwitch := by
  refine EventRun.disciplined_cons.mpr ⟨rfl, ?_⟩
  intro appeared taken
  obtain ⟨_, _, rfl⟩ := step_cameraChange taken
  refine EventRun.disciplined_cons.mpr ⟨rfl, ?_⟩
  intro switched taken
  obtain ⟨_, _, rfl⟩ := step_cameraChange taken
  refine EventRun.disciplined_cons.mpr ⟨rfl, ?_⟩
  intro left taken
  obtain rfl := step_cameraChange taken
  refine EventRun.disciplined_cons.mpr ⟨rfl, ?_⟩
  intro returned _
  exact EventRun.disciplined_nil

/-- After the return the back camera is attached and the flag is still set. -/
theorem returnAfterSwitch_disagrees :
    EventRun.Disciplined (Screen.step .twoCameras fun _ => none) Alternating
        (initial ⟨0, ⟨375, 375⟩⟩) returnAfterSwitch ∧
      ∃ final,
        EventRun.run (Screen.step .twoCameras fun _ => none)
            (initial ⟨0, ⟨375, 375⟩⟩) returnAfterSwitch = some final ∧
          ¬FlagAgrees final := by
  refine ⟨returnAfterSwitch_alternating _ _, _, rfl, ?_⟩
  intro agrees
  obtain ⟨device, inputs, front⟩ := (agrees rfl).mpr rfl
  cases inputs
  cases front

theorem cameraFlag_agrees_iff_returnAfterSwitch :
    (EventRun.Always (Screen.step .twoCameras fun _ => none) FlagAgrees
          (initial ⟨0, ⟨375, 375⟩⟩) returnAfterSwitch ∧
        EventRun.EveryStep (Screen.step .twoCameras fun _ => none)
          PressSwitches (initial ⟨0, ⟨375, 375⟩⟩) returnAfterSwitch) ↔
      AppearsAfterEvenPresses returnAfterSwitch :=
  cameraFlag_agrees_iff AVFoundation.twoCameras_findsBothCameras
    AVFoundation.twoCameras_acceptsOneInput.acceptsFirstInput
    (returnAfterSwitch_alternating _ _) rfl

end Screen

end HigeMaster
