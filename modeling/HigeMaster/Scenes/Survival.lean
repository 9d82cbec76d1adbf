import HigeMaster.Scenes.Provenance

/-!
# What stops the application

Above the camera screen the program stops only in two places.  Confirming a
preview stops it if the preview has no image, which takes a pick without an
edited image, or if the detection of faces in an acquired image has no results
or finds a face with too few lip points.  And an editor stops it at the events
that cannot occur.  All other buttons of all screens always work.
-/

namespace HigeMaster

open EditViewController (HasLipPoints canvasFor instantiate observations)

/-- The detection has no results, or a face has too few lip points. -/
def Unreadable (detector : VNFaceLandmarksDetector) (base : UIImage) : Prop :=
  ∀ found, observations detector base = some found →
    ∃ observation ∈ found, ¬HasLipPoints observation

namespace App

/-- The event is one of a screen that is on the stack above the camera
screen. -/
def Addresses (app : App) : Event → Prop
  | .camera _ => False
  | .pushOkBtn index | .pushBackBtn index =>
      ∃ scene, app.previewAt index = some scene
  | .editor index _ | .pushShareBtn index | .pushCancelBtn index =>
      ∃ controller, app.editorAt index = some controller

/-- Confirming a preview with this image stops the program. -/
def StopsOk (detector : VNFaceLandmarksDetector) :
    Option UIImage → Prop
  | none => True
  | some base => Unreadable detector base

/-- The events that stop the program. -/
inductive Stops (detector : VNFaceLandmarksDetector)
    (acquired : List (Option UIImage)) (app : App) : Event → Prop where
  | pushOkBtn {index : ℕ} {scene : PreviewScene}
      (there : app.previewAt index = some scene)
      (among : scene.image ∈ acquired)
      (stops : StopsOk detector scene.image) :
      Stops detector acquired app (.pushOkBtn index)
  | editor {index : ℕ} {event : EditViewController.Event}
      (impossible : ¬event.Occurs) :
      Stops detector acquired app (.editor index event)

variable {av : AVFoundation} {decode : Data → Option UIImage}
  {assets : HigeAssets} {detector : VNFaceLandmarksDetector} {app : App}
  {bounds : CGRect} {events : List Event} {final : App}

theorem pushOkBtn_eq_none_iff {scene : PreviewScene} :
    scene.pushOkBtn assets detector = none ↔
      StopsOk detector scene.image := by
  rw [PreviewScene.pushOkBtn_eq, ← Option.not_isSome_iff_eq_none,
    Option.isSome_iff_exists, EditViewController.loads_iff]
  cases scene.image with
  | none => simp [StopsOk]
  | some base => simp [StopsOk, Unreadable]

/-- In every run an event of a screen above the camera screen stops the
program exactly if it confirms an acquired image that no editor can load, or
cannot occur in an editor. -/
theorem screen_stops_iff
    (completed :
      EventRun.run (step av decode assets detector) (initial bounds) events =
        some final) {event : Event} (addressed : final.Addresses event) :
    step av decode assets detector final event = none ↔
      Stops detector (acquired decode events) final event := by
  have traced := traced_of_run completed
  cases event with
  | camera event => cases addressed
  | pushOkBtn index =>
      obtain ⟨scene, there⟩ := addressed
      have among : scene.image ∈ acquired decode events := by
        have member := List.mem_of_getElem? (previewAt_eq_some.mp there)
        obtain ⟨_, segue, performed, handed⟩ := traced.preview member
        rw [← handed]
        exact segues_acquired completed segue performed
      have stops : step av decode assets detector final (.pushOkBtn index) =
          none ↔ scene.pushOkBtn assets detector = none := by
        rw [step, there, Option.bind_eq_bind, Option.bind_some]
        cases scene.pushOkBtn assets detector <;> simp
      rw [stops, pushOkBtn_eq_none_iff]
      constructor
      · intro unloadable
        exact .pushOkBtn there among unloadable
      · intro stopped
        cases stopped with
        | pushOkBtn other _ unloadable =>
            rw [there, Option.some.injEq] at other
            subst other
            exact unloadable
  | pushBackBtn index =>
      obtain ⟨scene, there⟩ := addressed
      constructor
      · intro stopped
        simp [step, there] at stopped
      · intro stopped
        cases stopped
  | editor index event =>
      obtain ⟨controller, there⟩ := addressed
      obtain ⟨_, base, _, _, offered, _⟩ := traced.editor there
      have stops : step av decode assets detector final
            (.editor index event) = none ↔
          controller.step event = none := by
        rw [step, there, Option.bind_eq_bind, Option.bind_some]
        cases controller.step event <;> simp
      rw [stops, ← Option.not_isSome_iff_eq_none, Option.isSome_iff_exists,
        offered.edits.survives_iff]
      constructor
      · intro impossible
        exact .editor impossible
      · intro stopped
        cases stopped with
        | editor impossible => exact impossible
  | pushShareBtn index =>
      obtain ⟨controller, there⟩ := addressed
      obtain ⟨_, _, _, _, _, stacked⟩ := traced.editor there
      obtain ⟨_, _, _, pushed⟩ := stacked.pushShareBtn_eq
      have visible :
          0 < EditOutlets.storyboard.imageView.bounds.size.width ∧
            0 < EditOutlets.storyboard.imageView.bounds.size.height := by
        decide +kernel
      rw [if_pos visible] at pushed
      rw [step_pushShareBtn there pushed]
      constructor
      · intro stopped
        cases stopped
      · intro stopped
        cases stopped
  | pushCancelBtn index =>
      obtain ⟨controller, there⟩ := addressed
      constructor
      · intro stopped
        simp [step, there] at stopped
      · intro stopped
        cases stopped

/-- After the photo has been edited and shared, the program still works, but
it does not survive the selection of a fourth moustache. -/
theorem screen_stops_iff_confirmAndShare :
    ∃ final,
      EventRun.run
          (step .twoCameras decodeOnePixel
            EditViewController.blankAssets EditViewController.noFaces)
          (initial ⟨0, ⟨375, 375⟩⟩) confirmAndShare = some final ∧
        step .twoCameras decodeOnePixel
          EditViewController.blankAssets EditViewController.noFaces final
          (.editor 1 (.didSelectItemAt 3)) = none := by
  obtain ⟨final, controller, _, completed, there, _⟩ :=
    confirmAndShare_completes
  have addressed : final.Addresses (.editor 1 (.didSelectItemAt 3)) :=
    ⟨controller, there⟩
  refine ⟨final, completed, (screen_stops_iff completed addressed).mpr ?_⟩
  exact .editor (lt_irrefl 3)

end App

end HigeMaster
