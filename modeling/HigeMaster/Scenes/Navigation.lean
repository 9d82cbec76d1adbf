import HigeMaster.EventRun.Components
import HigeMaster.Scenes.EditorControls
import HigeMaster.Scenes.PreviewHandover
import HigeMaster.Scenes.PreviewViewController

/-!
# The application

A navigation controller keeps a stack of screens.  Its root is the camera
screen; the segues of the camera screen push previews, the segue of a preview
pushes an editor, and the buttons of both take screens away.  The screens on
the stack get their events in any order: while one of them is on top, a photo
that was asked for earlier can still arrive and push another one.  A step
handles one event of one screen; `none` means that the program stops or that
the event cannot occur.
-/

namespace HigeMaster

/-- A screen above the camera screen. -/
inductive Scene where
  | preview (scene : PreviewScene)
  | editor (controller : EditViewController)

namespace Scene

def preview? : Scene → Option PreviewScene
  | .preview scene => some scene
  | .editor _ => none

def editor? : Scene → Option EditViewController
  | .preview _ => none
  | .editor controller => some controller

theorem preview?_eq_some {scene : Scene} {preview : PreviewScene} :
    scene.preview? = some preview ↔ scene = .preview preview := by
  cases scene with
  | preview other => simp [preview?]
  | editor controller => simp [preview?]

theorem editor?_eq_some {scene : Scene} {controller : EditViewController} :
    scene.editor? = some controller ↔ scene = .editor controller := by
  cases scene with
  | preview other => simp [editor?]
  | editor other => simp [editor?]

end Scene

/-- The screens of the navigation stack above the camera screen, from bottom
to top, and the sheets that have been presented. -/
structure App where
  camera : Screen
  pushed : List Scene
  shared : List UIActivityViewController

namespace App

inductive Event where
  | camera (event : Screen.Event)
  | pushOkBtn (index : ℕ)
  | pushBackBtn (index : ℕ)
  | editor (index : ℕ) (event : EditViewController.Event)
  | pushShareBtn (index : ℕ)
  | pushCancelBtn (index : ℕ)

def initial (bounds : CGRect) : App :=
  { camera := .initial bounds
    pushed := []
    shared := [] }

def previewAt (app : App) (index : ℕ) : Option PreviewScene :=
  app.pushed[index]?.bind Scene.preview?

def editorAt (app : App) (index : ℕ) : Option EditViewController :=
  app.pushed[index]?.bind Scene.editor?

/-- The previews that the segues performed in between lead to. -/
def arrivals (before after : Screen) : List Scene :=
  (after.segues.drop before.segues.length).map fun segue =>
    .preview (PreviewScene.instantiate segue.destination).viewDidLoad

/-- `popViewController`. -/
def popViewController (app : App) : App :=
  { app with pushed := app.pushed.dropLast }

/-- `popToRootViewController`. -/
def popToRootViewController (app : App) : App :=
  { app with pushed := [] }

section Step

variable (av : AVFoundation) (decode : Data → Option UIImage)
  (assets : HigeAssets) (detector : VNFaceLandmarksDetector)

def step (app : App) : Event → Option App
  | .camera event => do
      let camera ← app.camera.step av decode event
      return {
        app with
        camera := camera
        pushed := app.pushed ++ arrivals app.camera camera }
  | .pushOkBtn index => do
      let scene ← app.previewAt index
      let controller ← scene.pushOkBtn assets detector
      return { app with pushed := app.pushed ++ [.editor controller] }
  | .pushBackBtn index => do
      let _ ← app.previewAt index
      return app.popViewController
  | .editor index event => do
      let controller ← app.editorAt index
      let next ← controller.step event
      return { app with pushed := app.pushed.set index (.editor next) }
  | .pushShareBtn index => do
      let controller ← app.editorAt index
      let sheet ← controller.pushShareBtn
      return { app with shared := app.shared ++ [sheet] }
  | .pushCancelBtn index => do
      let _ ← app.editorAt index
      return app.popToRootViewController

end Step

/-- The event that the camera screen gets, if it gets one. -/
def Event.camera? : Event → Option Screen.Event
  | .camera event => some event
  | _ => none

variable {av : AVFoundation} {decode : Data → Option UIImage}
  {assets : HigeAssets} {detector : VNFaceLandmarksDetector}

/-- No event of another screen reaches the camera screen. -/
theorem camera_isComponent :
    EventRun.IsComponent (step av decode assets detector) App.camera
      (Screen.step av decode) Event.camera? where
  rests := by
    intro before event after taken elsewhere
    cases event with
    | camera event => cases elsewhere
    | pushOkBtn index | pushShareBtn index | editor index event =>
        simp only [step, Option.bind_eq_bind, Option.bind_eq_some_iff,
          Option.pure_def, Option.some.injEq] at taken
        obtain ⟨_, _, _, _, rfl⟩ := taken
        rfl
    | pushBackBtn index | pushCancelBtn index =>
        simp only [step, Option.bind_eq_bind, Option.bind_eq_some_iff,
          Option.pure_def, Option.some.injEq] at taken
        obtain ⟨_, _, rfl⟩ := taken
        rfl
  moves := by
    intro before event after action taken routed
    cases event with
    | camera event =>
        obtain rfl := Option.some.inj routed
        simp only [step, Option.bind_eq_bind, Option.bind_eq_some_iff,
          Option.pure_def, Option.some.injEq] at taken
        obtain ⟨camera, stepped, rfl⟩ := taken
        exact stepped
    | pushOkBtn | pushBackBtn | editor | pushShareBtn | pushCancelBtn =>
        cases routed

/-! ## Steps that succeed -/

section Succeeds

variable {app : App} {index : ℕ}

theorem step_camera {event : Screen.Event} {camera : Screen}
    (stepped : app.camera.step av decode event = some camera) :
    step av decode assets detector app (.camera event) =
      some
        { app with
          camera := camera
          pushed := app.pushed ++ arrivals app.camera camera } := by
  rw [step, stepped]
  rfl

theorem step_pushOkBtn {scene : PreviewScene}
    {controller : EditViewController}
    (there : app.previewAt index = some scene)
    (loaded : scene.pushOkBtn assets detector = some controller) :
    step av decode assets detector app (.pushOkBtn index) =
      some { app with pushed := app.pushed ++ [.editor controller] } := by
  rw [step, there, Option.bind_eq_bind, Option.bind_some, loaded]
  rfl

theorem step_editor {controller next : EditViewController}
    {event : EditViewController.Event}
    (there : app.editorAt index = some controller)
    (stepped : controller.step event = some next) :
    step av decode assets detector app (.editor index event) =
      some { app with pushed := app.pushed.set index (.editor next) } := by
  rw [step, there, Option.bind_eq_bind, Option.bind_some, stepped]
  rfl

theorem step_pushShareBtn {controller : EditViewController}
    {sheet : UIActivityViewController}
    (there : app.editorAt index = some controller)
    (shares : controller.pushShareBtn = some sheet) :
    step av decode assets detector app (.pushShareBtn index) =
      some { app with shared := app.shared ++ [sheet] } := by
  rw [step, there, Option.bind_eq_bind, Option.bind_some, shares]
  rfl

end Succeeds

end App

end HigeMaster
