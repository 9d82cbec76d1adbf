import HigeMaster.Scenes.CameraSession

/-!
# One preview per visit, with the right image

The shutter and the picker both store what they acquire in the field `image`
and hand the field to the preview screen.  A capture stores and hands over in
one step; a pick stores its image when the user picks and hands over whatever
the field holds when the picker has been dismissed.  The preview therefore
gets the right image exactly when nothing else is acquired in between, and
there is one preview per visit exactly when one acquisition completes per
visit.
-/

namespace HigeMaster

open CameraHelper (photoImage)

/-- The image that an acquisition is meant to show. -/
def Acquisition.image : Acquisition → Option UIImage
  | .capture photo => photo.croppingCenterSquare
  | .pick edited => edited

namespace Screen

/-- The edited images of the pickers that are still being dismissed. -/
def pendingPicks (events : List Event) : List (Option UIImage) :=
  events.foldl
    (fun pending event =>
      match event with
      | .didFinishPicking info => pending ++ [PickerInfo.editedImage info]
      | .dismissed index => pending.eraseIdx index
      | _ => pending)
    []

section Events

variable (decode : Data → Option UIImage)

/-- The image that an event stores in the field, if it stores one. -/
def Event.acquired : Event → Option (Option UIImage)
  | .photoOutput photo error =>
      (photoImage decode photo error).map UIImage.croppingCenterSquare
  | .didFinishPicking info => some (PickerInfo.editedImage info)
  | _ => none

/-- Whether an event completes an acquisition and leads to the preview. -/
def Event.completes : Event → Bool
  | .photoOutput photo error => (photoImage decode photo error).isSome
  | .dismissed _ => true
  | _ => false

/-- The image that was acquired last. -/
def latestImage (events : List Event) : Option UIImage :=
  (events.filterMap (Event.acquired decode)).getLast?.join

/-- For every acquisition that completes, the visit in which it does; the
visits are counted from `visit`. -/
def completionVisits (visit : ℕ) : List Event → List ℕ
  | [] => []
  | .viewDidAppear :: events => completionVisits (visit + 1) events
  | event :: events =>
      if event.completes decode then
        visit :: completionVisits visit events
      else
        completionVisits visit events

/-- No two acquisitions complete in the same visit. -/
def OneCompletionPerVisit (events : List Event) : Prop :=
  (completionVisits decode 0 events).Nodup

/-- When the dismissal of a picker completes, the image acquired last is still
the one that was picked there. -/
def PicksStayLatest (events : List Event) : Prop :=
  ∀ earlier index later, events = earlier ++ .dismissed index :: later →
    ∀ edited, (pendingPicks earlier)[index]? = some edited →
      latestImage decode earlier = edited

end Events

/-- In every visit at most one segue is performed. -/
def OneSeguePerVisit (segues : List Segue) : Prop :=
  ∀ visit, (segues.filter fun segue => segue.visit = visit).length ≤ 1

/-- Every segue hands over the image of the acquisition that performed it. -/
def HandsOverOwnImage (segues : List Segue) : Prop :=
  ∀ segue ∈ segues, segue.destination.image = segue.acquisition.image

/-! ## What a step does to the image and the segues -/

/-- Nothing is acquired and no segue is performed. -/
structure SameAcquisitions (before after : Screen) : Prop where
  image : after.controller.image = before.controller.image
  dismissing : after.dismissing = before.dismissing
  segues : after.segues = before.segues

variable {av : AVFoundation} {decode : Data → Option UIImage}

/-- What an event does to the image, the dismissals and the segues. -/
def AcquisitionChange (decode : Data → Option UIImage) (before : Screen)
    (event : Event) (after : Screen) : Prop :=
  match event with
  | .photoOutput photo error =>
      match photoImage decode photo error with
      | none => after = before
      | some image =>
          image.croppingCenterSquare.isSome = true ∧
            after.controller.image = image.croppingCenterSquare ∧
            after.dismissing = before.dismissing ∧
            after.visit = before.visit ∧
            after.segues = before.segues ++
              [{ visit := before.visit
                 acquisition := .capture image
                 destination := { image := image.croppingCenterSquare } }]
  | .didFinishPicking info =>
      after =
        { before with
          controller := before.controller.didFinishPicking info
          dismissing := before.dismissing ++ [PickerInfo.editedImage info] }
  | .dismissed index =>
      ∃ edited, before.dismissing[index]? = some edited ∧
        after =
          { before with
            dismissing := before.dismissing.eraseIdx index
            segues := before.segues ++
              [{ visit := before.visit
                 acquisition := .pick edited
                 destination := { image := before.controller.image } }] }
  | .viewDidAppear =>
      SameAcquisitions before after ∧ after.visit = before.visit + 1
  | _ => SameAcquisitions before after ∧ after.visit = before.visit

theorem showResult_eq_some {screen next : Screen} {photo : UIImage} :
    screen.showResult photo = some next ↔
      ∃ cropped, photo.croppingCenterSquare = some cropped ∧
        next =
          { screen with
            controller := { screen.controller with image := some cropped }
            segues := screen.segues ++
              [{ visit := screen.visit
                 acquisition := .capture photo
                 destination := { image := some cropped } }] } := by
  cases cropped : photo.croppingCenterSquare with
  | none => simp [showResult, ViewController.cropImage, cropped]
  | some image =>
      simp [showResult, ViewController.cropImage, cropped, performSegue,
        ViewController.prepare, eq_comm]

theorem step_acquisitionChange {before after : Screen} {event : Event}
    (taken : step av decode before event = some after) :
    AcquisitionChange decode before event after := by
  cases event with
  | viewDidAppear =>
      obtain ⟨device, _, rfl⟩ := step_cameraChange taken
      exact ⟨⟨rfl, rfl, rfl⟩, rfl⟩
  | viewDidDisappear =>
      obtain rfl := step_cameraChange taken
      exact ⟨⟨rfl, rfl, rfl⟩, rfl⟩
  | pushCameraBtn =>
      simp only [step, ViewController.pushCameraBtn, CameraHelper.takePhoto,
        Option.bind_eq_bind, Option.bind_eq_some_iff, Option.pure_def,
        Option.some.injEq] at taken
      obtain ⟨controller, ⟨_, _, rfl⟩, rfl⟩ := taken
      exact ⟨⟨rfl, rfl, rfl⟩, rfl⟩
  | pushPickerBtn =>
      simp only [step, Option.some.injEq] at taken
      subst taken
      exact ⟨⟨rfl, rfl, rfl⟩, rfl⟩
  | pushChangeCameraBtn =>
      obtain ⟨device, _, rfl⟩ := step_cameraChange taken
      exact ⟨⟨rfl, rfl, rfl⟩, rfl⟩
  | photoOutput photo error =>
      simp only [step, Option.bind_eq_bind, Option.bind_eq_some_iff] at taken
      obtain ⟨call, delivered, result⟩ := taken
      have shown := CameraHelper.photoImage_of_photoOutput delivered
      cases call with
      | none =>
          simp only [Option.pure_def, Option.some.injEq] at result
          simp only [AcquisitionChange, shown, Option.map_none]
          exact result.symm
      | some call =>
          obtain ⟨cropped, square, rfl⟩ := showResult_eq_some.mp result
          simp only [AcquisitionChange, shown, Option.map_some, square]
          exact ⟨rfl, trivial, trivial, trivial, trivial⟩
  | didFinishPicking info =>
      simp only [step, ViewController.didFinishPicking, Option.some.injEq]
        at taken
      exact taken.symm
  | dismissed index =>
      simp only [step, Option.bind_eq_bind, Option.bind_eq_some_iff,
        Option.pure_def, Option.some.injEq] at taken
      obtain ⟨edited, pending, rfl⟩ := taken
      exact ⟨edited, pending, rfl⟩

/-! ## Runs -/

theorem latestImage_snoc (events : List Event) (event : Event) :
    latestImage decode (events ++ [event]) =
      ((event.acquired decode).getD (latestImage decode events)) := by
  unfold latestImage
  rw [List.filterMap_append]
  cases acquired : event.acquired decode with
  | none => simp [acquired]
  | some image => simp [acquired]

theorem pendingPicks_snoc (events : List Event) (event : Event) :
    pendingPicks (events ++ [event]) =
      match event with
      | .didFinishPicking info =>
          pendingPicks events ++ [PickerInfo.editedImage info]
      | .dismissed index => (pendingPicks events).eraseIdx index
      | _ => pendingPicks events := by
  unfold pendingPicks
  rw [List.foldl_append]
  rfl

/-- The field and the dismissals are determined by the events. -/
theorem acquisitions_of_run {bounds : CGRect} {events : List Event}
    {final : Screen}
    (completed : EventRun.run (step av decode) (initial bounds) events =
      some final) :
    final.controller.image = latestImage decode events ∧
      final.dismissing = pendingPicks events := by
  induction events using List.reverseRecOn generalizing final with
  | nil =>
      simp only [EventRun.run_nil, Option.some.injEq] at completed
      subst completed
      exact ⟨rfl, rfl⟩
  | append_singleton events event induction =>
      obtain ⟨before, reached, taken⟩ :=
        EventRun.run_snoc_eq_some.mp completed
      obtain ⟨image, dismissing⟩ := induction reached
      have change := step_acquisitionChange taken
      rw [latestImage_snoc, pendingPicks_snoc]
      cases event with
      | photoOutput photo error =>
          cases shown : photoImage decode photo error with
          | none =>
              simp only [AcquisitionChange, shown] at change
              subst change
              simp [Event.acquired, shown, image, dismissing]
          | some photo =>
              simp only [AcquisitionChange, shown] at change
              obtain ⟨_, stored, kept, _, _⟩ := change
              simp [Event.acquired, shown, stored, kept, dismissing]
      | didFinishPicking info =>
          obtain rfl := change
          simp [Event.acquired, ViewController.didFinishPicking, dismissing]
      | dismissed index =>
          obtain ⟨edited, _, rfl⟩ := change
          simp [Event.acquired, image, dismissing]
      | viewDidAppear | viewDidDisappear | pushCameraBtn | pushPickerBtn
        | pushChangeCameraBtn =>
          obtain ⟨same, _⟩ := change
          rw [same.image, same.dismissing]
          simp [Event.acquired, image, dismissing]

/-- One segue is performed for every acquisition that completes, in the same
visit. -/
theorem segueVisits_of_run {start final : Screen} {events : List Event}
    (completed : EventRun.run (step av decode) start events = some final) :
    final.segues.map Segue.visit =
      start.segues.map Segue.visit ++
        completionVisits decode start.visit events := by
  induction events generalizing start with
  | nil =>
      simp only [EventRun.run_nil, Option.some.injEq] at completed
      subst completed
      simp [completionVisits]
  | cons event events induction =>
      obtain ⟨next, taken, completed⟩ :=
        EventRun.run_cons_eq_some.mp completed
      have change := step_acquisitionChange taken
      rw [induction completed]
      cases event with
      | photoOutput photo error =>
          cases shown : photoImage decode photo error with
          | none =>
              simp only [AcquisitionChange, shown] at change
              subst change
              simp [completionVisits, Event.completes, shown]
          | some photo =>
              simp only [AcquisitionChange, shown] at change
              obtain ⟨_, _, _, visit, segues⟩ := change
              simp [completionVisits, Event.completes, shown, visit, segues]
      | didFinishPicking info =>
          obtain rfl := change
          simp [completionVisits, Event.completes]
      | dismissed index =>
          obtain ⟨edited, _, rfl⟩ := change
          simp [completionVisits, Event.completes]
      | viewDidAppear =>
          obtain ⟨same, visit⟩ := change
          simp [completionVisits, same.segues, visit]
      | viewDidDisappear | pushCameraBtn | pushPickerBtn
        | pushChangeCameraBtn =>
          obtain ⟨same, visit⟩ := change
          simp [completionVisits, Event.completes, same.segues, visit]

theorem oneSeguePerVisit_iff_nodup {segues : List Segue} :
    OneSeguePerVisit segues ↔ (segues.map Segue.visit).Nodup := by
  rw [List.nodup_iff_count_le_one]
  have counted : ∀ visit,
      (segues.map Segue.visit).count visit =
        (segues.filter fun segue => segue.visit = visit).length := by
    intro visit
    rw [List.count, List.countP_map, List.countP_eq_length_filter]
    rfl
  simp only [counted, OneSeguePerVisit]

theorem picksStayLatest_snoc {events : List Event} {event : Event} :
    PicksStayLatest decode (events ++ [event]) ↔
      PicksStayLatest decode events ∧
        ∀ index, event = .dismissed index →
          ∀ edited, (pendingPicks events)[index]? = some edited →
            latestImage decode events = edited := by
  constructor
  · intro stay
    constructor
    · intro earlier index later equality
      apply stay earlier index (later ++ [event])
      rw [equality, List.append_assoc]
      rfl
    · intro index dismissal
      apply stay events index []
      rw [dismissal]
  · intro given earlier index later equality
    rcases given with ⟨stay, last⟩
    rcases List.eq_nil_or_concat later with rfl | ⟨middle, final, rfl⟩
    · obtain ⟨rfl, dismissal⟩ := List.append_inj' equality rfl
      simp only [List.cons.injEq, and_true] at dismissal
      exact last index dismissal
    · rw [List.concat_eq_append, ← List.cons_append, ← List.append_assoc]
        at equality
      obtain ⟨split, _⟩ := List.append_inj' equality rfl
      exact stay earlier index middle split

theorem handsOverOwnImage_snoc {segues : List Segue} {segue : Segue} :
    HandsOverOwnImage (segues ++ [segue]) ↔
      HandsOverOwnImage segues ∧
        segue.destination.image = segue.acquisition.image := by
  simp [HandsOverOwnImage, or_imp, forall_and]

/-- The images that are handed over are right exactly when every pick is the
latest acquisition until its picker has been dismissed. -/
theorem handsOverOwnImage_iff_picksStayLatest {bounds : CGRect}
    {events : List Event} {final : Screen}
    (completed : EventRun.run (step av decode) (initial bounds) events =
      some final) :
    HandsOverOwnImage final.segues ↔ PicksStayLatest decode events := by
  induction events using List.reverseRecOn generalizing final with
  | nil =>
      simp only [EventRun.run_nil, Option.some.injEq] at completed
      subst completed
      simp [HandsOverOwnImage, PicksStayLatest, initial]
  | append_singleton events event induction =>
      obtain ⟨before, reached, taken⟩ :=
        EventRun.run_snoc_eq_some.mp completed
      obtain ⟨image, dismissing⟩ := acquisitions_of_run reached
      have change := step_acquisitionChange taken
      rw [picksStayLatest_snoc, ← induction reached]
      cases event with
      | photoOutput photo error =>
          cases shown : photoImage decode photo error with
          | none =>
              simp only [AcquisitionChange, shown] at change
              subst change
              simp
          | some photo =>
              simp only [AcquisitionChange, shown] at change
              obtain ⟨_, _, _, _, segues⟩ := change
              rw [segues, handsOverOwnImage_snoc]
              simp [Acquisition.image]
      | didFinishPicking info =>
          obtain rfl := change
          simp
      | dismissed index =>
          obtain ⟨edited, pending, rfl⟩ := change
          rw [handsOverOwnImage_snoc]
          simp only [Acquisition.image, image, ← dismissing]
          constructor
          · intro given
            rcases given with ⟨hands, right⟩
            refine ⟨hands, ?_⟩
            rintro other ⟨⟩ picked found
            rw [pending, Option.some.injEq] at found
            rw [← found]
            exact right
          · intro given
            rcases given with ⟨hands, last⟩
            exact ⟨hands, last index rfl edited pending⟩
      | viewDidAppear | viewDidDisappear | pushCameraBtn | pushPickerBtn
        | pushChangeCameraBtn =>
          obtain ⟨same, _⟩ := change
          rw [same.segues]
          simp

/-- A run performs at most one segue per visit and hands over the right image
with each exactly when at most one acquisition completes per visit and nothing
else is acquired while a picker is being dismissed. -/
theorem preview_handover_iff {bounds : CGRect} {events : List Event}
    {final : Screen}
    (completed : EventRun.run (step av decode) (initial bounds) events =
      some final) :
    (OneSeguePerVisit final.segues ∧ HandsOverOwnImage final.segues) ↔
      (OneCompletionPerVisit decode events ∧
        PicksStayLatest decode events) := by
  rw [oneSeguePerVisit_iff_nodup, segueVisits_of_run completed,
    handsOverOwnImage_iff_picksStayLatest completed]
  rfl

theorem step_photoOutput {screen : Screen} {photo : AVCapturePhoto}
    {error : Option AVError} {image square : UIImage}
    (remembered :
      screen.controller.cameraHelper.completion = some .showResult)
    (shown : photoImage decode photo error = some image)
    (cropped : image.croppingCenterSquare = some square) :
    step av decode screen (.photoOutput photo error) =
      some
        { screen with
          controller := { screen.controller with image := some square }
          segues := screen.segues ++
            [{ visit := screen.visit
               acquisition := .capture image
               destination := { image := some square } }] } := by
  have called := CameraHelper.photoOutput_of_image shown remembered
  simp only [step, called, Option.bind_eq_bind, Option.bind_some]
  exact showResult_eq_some.mpr ⟨square, cropped, rfl⟩

/-- A delivered photo of one pixel. -/
def onePhoto : Event :=
  .photoOutput { fileDataRepresentation := some onePixelFile } none

/-- The shutter is pressed twice before the first photo arrives. -/
def pressTwice : List Event :=
  [.viewDidAppear, .pushCameraBtn, .pushCameraBtn, onePhoto, onePhoto]

/-- The user picks an image while a capture is in flight, and the photo
arrives before the picker has been dismissed. -/
def photoDuringDismissal : List Event :=
  [.viewDidAppear, .pushCameraBtn, .pushPickerBtn, .viewDidDisappear,
    .didFinishPicking fun _ => none, onePhoto, .viewDidAppear, .dismissed 0]

private theorem onePixel_cropped :
    ∃ square, UIImage.onePixel.croppingCenterSquare = some square :=
  UIImage.croppingCenterSquare_isSome rfl

private theorem pressTwice_completes :
    ∃ final,
      EventRun.run (step .twoCameras decodeOnePixel)
          (initial ⟨0, ⟨375, 375⟩⟩) pressTwice = some final := by
  obtain ⟨square, cropped⟩ := onePixel_cropped
  refine EventRun.exists_run_cons.mpr ⟨_, rfl, ?_⟩
  refine EventRun.exists_run_cons.mpr ⟨_, rfl, ?_⟩
  refine EventRun.exists_run_cons.mpr ⟨_, rfl, ?_⟩
  refine EventRun.exists_run_cons.mpr
    ⟨_, step_photoOutput rfl rfl cropped, ?_⟩
  exact EventRun.exists_run_cons.mpr
    ⟨_, step_photoOutput rfl rfl cropped, _, rfl⟩

private theorem photoDuringDismissal_completes :
    ∃ final,
      EventRun.run (step .twoCameras decodeOnePixel)
          (initial ⟨0, ⟨375, 375⟩⟩) photoDuringDismissal = some final := by
  obtain ⟨square, cropped⟩ := onePixel_cropped
  refine EventRun.exists_run_cons.mpr ⟨_, rfl, ?_⟩
  refine EventRun.exists_run_cons.mpr ⟨_, rfl, ?_⟩
  refine EventRun.exists_run_cons.mpr ⟨_, rfl, ?_⟩
  refine EventRun.exists_run_cons.mpr ⟨_, rfl, ?_⟩
  refine EventRun.exists_run_cons.mpr ⟨_, rfl, ?_⟩
  refine EventRun.exists_run_cons.mpr
    ⟨_, step_photoOutput rfl rfl cropped, ?_⟩
  refine EventRun.exists_run_cons.mpr ⟨_, rfl, ?_⟩
  exact EventRun.exists_run_cons.mpr ⟨_, rfl, _, rfl⟩

/-- Two presses lead to two segues in one visit, and a photo that arrives
during a dismissal replaces the picked image. -/
theorem preview_handover_fails :
    (∃ final,
      EventRun.run (step .twoCameras decodeOnePixel)
          (initial ⟨0, ⟨375, 375⟩⟩) pressTwice = some final ∧
        ¬OneSeguePerVisit final.segues) ∧
    ∃ final,
      EventRun.run (step .twoCameras decodeOnePixel)
          (initial ⟨0, ⟨375, 375⟩⟩) photoDuringDismissal = some final ∧
        ¬HandsOverOwnImage final.segues := by
  constructor
  · obtain ⟨final, completed⟩ := pressTwice_completes
    refine ⟨final, completed, ?_⟩
    rw [oneSeguePerVisit_iff_nodup, segueVisits_of_run completed]
    have visits : completionVisits decodeOnePixel 0
        pressTwice = [1, 1] :=
      rfl
    simp [initial, visits]
  · obtain ⟨final, completed⟩ := photoDuringDismissal_completes
    refine ⟨final, completed, ?_⟩
    rw [handsOverOwnImage_iff_picksStayLatest completed]
    intro stay
    have replaced := stay
      [.viewDidAppear, .pushCameraBtn, .pushPickerBtn, .viewDidDisappear,
        .didFinishPicking fun _ => none, onePhoto, .viewDidAppear]
      0 [] rfl none rfl
    obtain ⟨square, cropped⟩ := onePixel_cropped
    have latest : UIImage.onePixel.croppingCenterSquare = none := replaced
    rw [cropped] at latest
    cases latest

/-- One photo in the first visit and one pick in the second. -/
def photoThenPick : List Event :=
  [.viewDidAppear, .pushCameraBtn, onePhoto, .viewDidDisappear,
    .viewDidAppear, .pushPickerBtn, .didFinishPicking fun _ => none,
    .dismissed 0]

private theorem photoThenPick_completes :
    ∃ final,
      EventRun.run (step .twoCameras decodeOnePixel)
          (initial ⟨0, ⟨375, 375⟩⟩) photoThenPick = some final := by
  obtain ⟨square, cropped⟩ := onePixel_cropped
  refine EventRun.exists_run_cons.mpr ⟨_, rfl, ?_⟩
  refine EventRun.exists_run_cons.mpr ⟨_, rfl, ?_⟩
  refine EventRun.exists_run_cons.mpr
    ⟨_, step_photoOutput rfl rfl cropped, ?_⟩
  refine EventRun.exists_run_cons.mpr ⟨_, rfl, ?_⟩
  refine EventRun.exists_run_cons.mpr ⟨_, rfl, ?_⟩
  refine EventRun.exists_run_cons.mpr ⟨_, rfl, ?_⟩
  refine EventRun.exists_run_cons.mpr ⟨_, rfl, ?_⟩
  exact EventRun.exists_run_cons.mpr ⟨_, rfl, _, rfl⟩

theorem preview_handover_iff_photoThenPick :
    ∃ final,
      EventRun.run (step .twoCameras decodeOnePixel)
          (initial ⟨0, ⟨375, 375⟩⟩) photoThenPick = some final ∧
        ((OneSeguePerVisit final.segues ∧ HandsOverOwnImage final.segues) ↔
          (OneCompletionPerVisit decodeOnePixel
              photoThenPick ∧
            PicksStayLatest decodeOnePixel
              photoThenPick)) := by
  obtain ⟨final, completed⟩ := photoThenPick_completes
  exact ⟨final, completed, preview_handover_iff completed⟩

end Screen

end HigeMaster
