import HigeMaster.Scenes.EditViewController
import HigeMaster.Scenes.ViewController

/-!
# The preview

`PreviewViewController` shows the image that the camera screen hands over.
The user either goes back or confirms, and then the preview hands the same
image on to an editor.
-/

namespace HigeMaster

/-- The preview screen with its outlet and with what its navigation item
hides. -/
structure PreviewScene extends PreviewViewController where
  previewImageView : UIImageView
  hidesBackButton : Bool

namespace PreviewScene

/-- The screen before its view is loaded, as `Main.storyboard` lays it
out. -/
def instantiate (controller : PreviewViewController) : PreviewScene :=
  { controller with
    previewImageView :=
      { UIImageView.ofFrame
          { origin := { x := 0, y := 88 }
            size := { width := 375, height := 375 } } with
        contentMode := .scaleAspectFill }
    hidesBackButton := false }

def viewDidLoad (scene : PreviewScene) : PreviewScene :=
  let shown :=
    match scene.image with
    | some image =>
        { scene with
          previewImageView :=
            { scene.previewImageView with image := some (.image image) } }
    | none => scene
  { shown with hidesBackButton := true }

def prepare (scene : PreviewScene) (identifier : String)
    (destination : EditViewController) : EditViewController :=
  if identifier = "toEditView" then
    { destination with image := scene.image }
  else
    destination

/-- The editor that the segue leads to, once its view is loaded. -/
def pushOkBtn (scene : PreviewScene) (assets : HigeAssets)
    (detector : VNFaceLandmarksDetector) : Option EditViewController :=
  (scene.prepare "toEditView" (.instantiate .storyboard none)).viewDidLoad
    assets detector

theorem pushOkBtn_eq (scene : PreviewScene) (assets : HigeAssets)
    (detector : VNFaceLandmarksDetector) :
    scene.pushOkBtn assets detector =
      (EditViewController.instantiate .storyboard scene.image).viewDidLoad
        assets detector :=
  rfl

/-- A loaded preview shows its image and hides the way back that UIKit would
offer. -/
structure IsLoaded (scene : PreviewScene) : Prop where
  shows : scene.previewImageView.image = scene.image.map .image
  hidesBackButton : scene.hidesBackButton = true

theorem image_viewDidLoad (controller : PreviewViewController) :
    (instantiate controller).viewDidLoad.image = controller.image := by
  cases controller with
  | mk image =>
      cases image with
      | none => rfl
      | some image => rfl

theorem isLoaded_viewDidLoad (controller : PreviewViewController) :
    (instantiate controller).viewDidLoad.IsLoaded := by
  cases controller with
  | mk image =>
      cases image with
      | none => exact ⟨rfl, rfl⟩
      | some image => exact ⟨rfl, rfl⟩

end PreviewScene

end HigeMaster
