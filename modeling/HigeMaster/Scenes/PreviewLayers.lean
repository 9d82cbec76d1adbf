import HigeMaster.Scenes.CameraSession

/-!
# Preview layers of the camera view

Every set-up of the camera adds a preview layer to the camera view, and the
tear-downs only undo what was done to the session.  The view therefore holds
one layer for every set-up of the run, and the layers accumulate from the
second set-up on.
-/

namespace HigeMaster

namespace Screen

variable {av : AVFoundation} {decode : Data → Option UIImage}

def Event.isSetup : Event → Bool
  | .viewDidAppear | .pushChangeCameraBtn => true
  | _ => false

/-- The number of times the camera is set up. -/
def setups (events : List Event) : ℕ :=
  events.countP Event.isSetup

/-- The camera view has at most one preview layer, and one while the screen
is visible. -/
def OnePreviewLayer (screen : Screen) : Prop :=
  screen.controller.cameraView.sublayers.length ≤ 1 ∧
    (screen.visible = true →
      screen.controller.cameraView.sublayers.length = 1)

theorem sublayers_length_step {before after : Screen} {event : Event}
    (taken : step av decode before event = some after) :
    after.controller.cameraView.sublayers.length =
      before.controller.cameraView.sublayers.length + setups [event] := by
  have change := step_cameraChange taken
  cases event with
  | viewDidAppear =>
      obtain ⟨device, _, rfl⟩ := change
      simp [ViewController.withCamera, setups, Event.isSetup]
  | viewDidDisappear =>
      obtain rfl := change
      rfl
  | pushChangeCameraBtn =>
      obtain ⟨device, _, rfl⟩ := change
      simp [ViewController.withCamera, setups, Event.isSetup]
  | pushCameraBtn | pushPickerBtn | photoOutput | didFinishPicking
    | dismissed =>
      rw [change.cameraView]
      rfl

/-- There is a preview layer for every set-up of the run. -/
theorem sublayers_length_run {start final : Screen} {events : List Event}
    (completed : EventRun.run (step av decode) start events = some final) :
    final.controller.cameraView.sublayers.length =
      start.controller.cameraView.sublayers.length + setups events := by
  induction events generalizing start with
  | nil =>
      simp only [EventRun.run_nil, Option.some.injEq] at completed
      subst completed
      rfl
  | cons event events induction =>
      obtain ⟨next, taken, completed⟩ :=
        EventRun.run_cons_eq_some.mp completed
      have split : setups (event :: events) =
          setups [event] + setups events := by
        rw [setups, setups, setups, ← List.singleton_append,
          List.countP_append]
      rw [induction completed, sublayers_length_step taken, split]
      omega

theorem setups_pos_of_visible {bounds : CGRect} {events : List Event}
    {final : Screen}
    (completed : EventRun.run (step av decode) (initial bounds) events =
      some final)
    (visible : final.visible = true) : 0 < setups events := by
  have always : EventRun.Always (step av decode)
      (fun screen => screen.visible = true →
        0 < screen.controller.cameraView.sublayers.length)
      (initial bounds) events := by
    apply EventRun.always_of_invariant
    · intro shown
      cases shown
    · intro before event after kept taken
      have change := step_cameraChange taken
      have length := sublayers_length_step taken
      cases event with
      | viewDidAppear | pushChangeCameraBtn =>
          intro _
          rw [length]
          exact Nat.succ_pos _
      | viewDidDisappear =>
          obtain rfl := change
          intro shown
          cases shown
      | pushCameraBtn | pushPickerBtn | photoOutput | didFinishPicking
        | dismissed =>
          intro shown
          rw [change.cameraView]
          exact kept (change.visible ▸ shown)
  have positive := always.final completed visible
  rw [sublayers_length_run completed] at positive
  simpa [initial] using positive

/-- Layers do not accumulate exactly as long as the camera is set up at most
once. -/
theorem onePreviewLayer_iff {bounds : CGRect} {events : List Event}
    {final : Screen}
    (completed : EventRun.run (step av decode) (initial bounds) events =
      some final) :
    EventRun.Always (step av decode) OnePreviewLayer (initial bounds) events ↔
      setups events ≤ 1 := by
  have counted : ∀ {handled : List Event} {state : Screen},
      EventRun.run (step av decode) (initial bounds) handled = some state →
        state.controller.cameraView.sublayers.length = setups handled := by
    intro handled state reached
    rw [sublayers_length_run reached]
    exact Nat.zero_add _
  constructor
  · intro always
    rw [← counted completed]
    exact (always.final completed).1
  · intro atMostOne handled short state reached
    have fewer : setups handled ≤ setups events :=
      List.Sublist.countP_le short.sublist
    rw [OnePreviewLayer, counted reached]
    refine ⟨fewer.trans atMostOne, ?_⟩
    intro visible
    have positive := setups_pos_of_visible reached visible
    omega

/-- The screen is left and entered again. -/
def visitTwice : List Event :=
  [.viewDidAppear, .viewDidDisappear, .viewDidAppear]

/-- The second visit starts with two preview layers. -/
theorem visitTwice_twoLayers :
    EventRun.Disciplined (step .twoCameras fun _ => none) Alternating
        (initial ⟨0, ⟨375, 375⟩⟩) visitTwice ∧
      ∃ final,
        EventRun.run (step .twoCameras fun _ => none)
            (initial ⟨0, ⟨375, 375⟩⟩) visitTwice = some final ∧
          ¬OnePreviewLayer final := by
  constructor
  · refine EventRun.disciplined_cons.mpr ⟨rfl, ?_⟩
    rintro _ ⟨⟩
    refine EventRun.disciplined_cons.mpr ⟨rfl, ?_⟩
    rintro _ ⟨⟩
    refine EventRun.disciplined_cons.mpr ⟨rfl, ?_⟩
    rintro _ ⟨⟩
    exact EventRun.disciplined_nil
  · refine ⟨_, rfl, ?_⟩
    intro given
    rcases given with ⟨atMostOne, _⟩
    exact absurd atMostOne (by decide)

theorem onePreviewLayer_iff_visitTwice :
    EventRun.Always (step .twoCameras fun _ => none) OnePreviewLayer
        (initial ⟨0, ⟨375, 375⟩⟩) visitTwice ↔
      setups visitTwice ≤ 1 :=
  onePreviewLayer_iff rfl

end Screen

end HigeMaster
