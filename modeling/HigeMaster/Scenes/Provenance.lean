import HigeMaster.Scenes.Navigation
import HigeMaster.Scenes.StackingOrder

/-!
# Where images come from

Whatever the order of events, the image that an editor edits is the one that a
preview below it shows, and that image was acquired by the camera screen: it
is the centre of a delivered photo or the edited image of a pick.  So every
picture that is ever shared consists of such an image and, in front of it,
moustaches from the assets.
-/

namespace HigeMaster

/-! ## The camera screen -/

namespace Screen

variable {av : AVFoundation} {decode : Data → Option UIImage}

theorem acquired_snoc (events : List Event) (event : Event) :
    (events ++ [event]).filterMap (Event.acquired decode) =
      events.filterMap (Event.acquired decode) ++
        (event.acquired decode).toList := by
  rw [List.filterMap_append]
  cases acquired : event.acquired decode with
  | none => simp [acquired]
  | some image => simp [acquired]

private theorem pendingPicks_of_unacquired {events : List Event}
    (unacquired : events.filterMap (Event.acquired decode) = []) :
    pendingPicks events = [] := by
  induction events using List.reverseRecOn with
  | nil => rfl
  | append_singleton events event induction =>
      rw [acquired_snoc, List.append_eq_nil_iff] at unacquired
      obtain ⟨earlier, last⟩ := unacquired
      rw [pendingPicks_snoc, induction earlier]
      cases event with
      | didFinishPicking info => simp [Event.acquired] at last
      | dismissed index => rfl
      | viewDidAppear | viewDidDisappear | pushCameraBtn | pushPickerBtn
        | pushChangeCameraBtn | photoOutput => rfl

theorem segues_acquired {bounds : CGRect} {events : List Event}
    {final : Screen}
    (completed : EventRun.run (step av decode) (initial bounds) events =
      some final) :
    ∀ segue ∈ final.segues,
      segue.destination.image ∈
        events.filterMap (Event.acquired decode) := by
  induction events using List.reverseRecOn generalizing final with
  | nil =>
      simp only [EventRun.run_nil, Option.some.injEq] at completed
      subst completed
      intro segue member
      cases member
  | append_singleton events event induction =>
      obtain ⟨before, reached, taken⟩ :=
        EventRun.run_snoc_eq_some.mp completed
      have earlier : ∀ segue ∈ before.segues,
          segue.destination.image ∈
            (events ++ [event]).filterMap (Event.acquired decode) := by
        intro segue member
        rw [acquired_snoc]
        exact List.mem_append_left _ (induction reached segue member)
      have change := step_acquisitionChange taken
      cases event with
      | photoOutput photo error =>
          cases shown : CameraHelper.photoImage decode photo error with
          | none =>
              simp only [AcquisitionChange, shown] at change
              subst change
              exact earlier
          | some image =>
              simp only [AcquisitionChange, shown] at change
              obtain ⟨_, _, _, _, segues⟩ := change
              rw [segues]
              intro segue member
              rcases List.mem_append.mp member with old | new
              · exact earlier segue old
              · rw [List.mem_singleton] at new
                subst new
                rw [acquired_snoc]
                simp [Event.acquired, shown]
      | didFinishPicking info =>
          obtain rfl := change
          exact earlier
      | dismissed index =>
          obtain ⟨edited, pending, rfl⟩ := change
          obtain ⟨image, dismissing⟩ := acquisitions_of_run reached
          intro segue member
          rcases List.mem_append.mp member with old | new
          · exact earlier segue old
          · rw [List.mem_singleton] at new
            subst new
            rw [acquired_snoc]
            apply List.mem_append_left
            cases last : (events.filterMap
                (Event.acquired decode)).getLast? with
            | none =>
                have nothing := pendingPicks_of_unacquired
                  (List.getLast?_eq_none_iff.mp last)
                rw [dismissing, nothing] at pending
                cases pending
            | some latest =>
                simp only [image, latestImage, last, Option.join_some]
                exact List.mem_of_getLast? last
      | viewDidAppear | viewDidDisappear | pushCameraBtn | pushPickerBtn
        | pushChangeCameraBtn =>
          obtain ⟨same, _⟩ := change
          rw [same.segues]
          exact earlier

theorem segues_prefix {before after : Screen} {event : Event}
    (taken : step av decode before event = some after) :
    before.segues <+: after.segues := by
  have change := step_acquisitionChange taken
  cases event with
  | photoOutput photo error =>
      cases shown : CameraHelper.photoImage decode photo error with
      | none =>
          simp only [AcquisitionChange, shown] at change
          subst change
          exact List.prefix_refl _
      | some image =>
          simp only [AcquisitionChange, shown] at change
          obtain ⟨_, _, _, _, segues⟩ := change
          rw [segues]
          exact List.prefix_append _ _
  | didFinishPicking info =>
      obtain rfl := change
      exact List.prefix_refl _
  | dismissed index =>
      obtain ⟨edited, _, rfl⟩ := change
      exact List.prefix_append _ _
  | viewDidAppear | viewDidDisappear | pushCameraBtn | pushPickerBtn
    | pushChangeCameraBtn =>
      obtain ⟨same, _⟩ := change
      rw [same.segues]

end Screen

/-! ## The editor -/

/-- Only these moustaches are on the picture. -/
structure Editing.OnlyOffered (higeImages : List UIImage) (editing : Editing) :
    Prop where
  picture : editing.picture.hige ∈ higeImages
  stamps : ∀ stamp ∈ editing.stamps, stamp.image ∈ higeImages

namespace Editing

theorem dragAll_images (stamps : List Stamp) (touch : UITouch) :
    (dragAll stamps touch).map Stamp.image = stamps.map Stamp.image := by
  rw [dragAll, List.map_map]
  rfl

theorem foldl_dragAll_images (touches : List UITouch) (stamps : List Stamp) :
    (touches.foldl dragAll stamps).map Stamp.image =
      stamps.map Stamp.image := by
  induction touches generalizing stamps with
  | nil => rfl
  | cons touch touches induction =>
      rw [List.foldl_cons, induction, dragAll_images]

private theorem offered_congr {higeImages : List UIImage}
    {before after : List Stamp}
    (images : after.map Stamp.image = before.map Stamp.image)
    (offered : ∀ stamp ∈ before, stamp.image ∈ higeImages) :
    ∀ stamp ∈ after, stamp.image ∈ higeImages := by
  intro stamp member
  have among := List.mem_map_of_mem (f := Stamp.image) member
  rw [images] at among
  obtain ⟨other, there, same⟩ := List.mem_map.mp among
  rw [← same]
  exact offered other there

theorem OnlyOffered.apply {higeImages : List UIImage} {center : CGPoint}
    {editing : Editing} (offered : editing.OnlyOffered higeImages)
    {action : Action}
    (chosen : ∀ image, action = .select image → image ∈ higeImages) :
    (editing.apply center action).OnlyOffered higeImages := by
  cases action with
  | enter mode =>
      exact { picture := offered.picture, stamps := offered.stamps }
  | slide value =>
      cases entered : editing.mode with
      | automatic =>
          simp only [Editing.apply, entered]
          exact { picture := offered.picture, stamps := offered.stamps }
      | manual =>
          simp only [Editing.apply, entered]
          refine { picture := offered.picture, stamps := ?_ }
          apply offered_congr _ offered.stamps
          rw [List.map_map]
          rfl
  | select image =>
      cases entered : editing.mode with
      | automatic =>
          simp only [Editing.apply, entered]
          exact { picture := chosen image rfl, stamps := offered.stamps }
      | manual =>
          simp only [Editing.apply, entered]
          refine { picture := offered.picture, stamps := ?_ }
          intro stamp member
          rcases List.mem_append.mp member with old | new
          · exact offered.stamps stamp old
          · rw [List.mem_singleton] at new
            subst new
            exact chosen image rfl
  | drag touches =>
      refine { picture := offered.picture, stamps := ?_ }
      exact offered_congr (foldl_dragAll_images touches editing.stamps)
        offered.stamps
  | record face =>
      exact { picture := offered.picture, stamps := offered.stamps }

end Editing

/-- The sheet offers one picture: the base image, and in front of it only
moustaches from the assets. -/
def ShowsEdited (assets : HigeAssets) (base : UIImage)
    (sheet : UIActivityViewController) : Prop :=
  ∃ rendering shown stamped, sheet.activityItems = [rendering] ∧
    rendering.picture = some shown ∧
      shown.layers = { image := base, rect := base.fullRect } :: stamped ∧
        (∀ drawing ∈ stamped, drawing.image ∈ assets.all) ∧
          ∀ imgView ∈ rendering.subviews, ∃ hige ∈ assets.all,
            imgView.image = some (.image hige)

namespace EditViewController

/-- The controller edits an image with the moustaches that its collection
offers. -/
def EditsOffered (canvas : Canvas) (controller : EditViewController) : Prop :=
  ∃ editing, Represents canvas controller editing ∧
    editing.OnlyOffered canvas.higeImages

theorem EditsOffered.edits {canvas : Canvas} {controller : EditViewController}
    (edits : EditsOffered canvas controller) : Edits canvas controller := by
  obtain ⟨editing, represents, _⟩ := edits
  exact ⟨editing, represents⟩

variable {canvas : Canvas} {controller next : EditViewController}

theorem EditsOffered.of_step {event : Event}
    (edits : EditsOffered canvas controller)
    (taken : step controller event = some next) :
    EditsOffered canvas next := by
  obtain ⟨editing, represents, offered⟩ := edits
  obtain ⟨action, means, kept⟩ := represents.step_cases taken
  refine ⟨_, kept, offered.apply ?_⟩
  intro image selects
  cases means with
  | didSelectItemAt row found =>
      obtain rfl := Editing.Action.select.inj selects
      exact List.mem_of_getElem? found
  | pushAutoBtn | pushManualBtn | slide | touchesMoved | putHige =>
      cases selects

theorem editsOffered_loaded {outlets : EditOutlets} {image : UIImage}
    {assets : HigeAssets} {detector : VNFaceLandmarksDetector}
    (loaded :
      (instantiate outlets (some image)).viewDidLoad assets detector =
        some controller) :
    EditsOffered (canvasFor outlets image assets) controller := by
  obtain ⟨found, _, represents⟩ := represents_viewDidLoad loaded
  refine ⟨_, represents, ?_⟩
  constructor
  · exact List.mem_cons_self
  · intro stamp member
    cases member

theorem EditsOffered.share {outlets : EditOutlets} {base : UIImage}
    {assets : HigeAssets} {sheet : UIActivityViewController}
    (edits : EditsOffered (canvasFor outlets base assets) controller)
    (shared : controller.pushShareBtn = some sheet) :
    ShowsEdited assets base sheet := by
  obtain ⟨editing, represents, offered⟩ := edits
  obtain ⟨shown, shows, layers⟩ := represents.shown
  simp only [pushShareBtn, UIImageView.render, Option.bind_eq_bind,
    Option.bind_eq_some_iff, Option.ite_none_right_eq_some, Option.pure_def,
    Option.some.injEq] at shared
  obtain ⟨_, ⟨_, subviews, looked, rfl⟩, rfl⟩ := shared
  refine ⟨_, shown, _, rfl, shows, layers, ?_, ?_⟩
  · intro drawing member
    obtain ⟨rect, _, rfl⟩ := List.mem_map.mp member
    exact offered.picture
  · intro imgView member
    have among := Stacking.mem_of_lookup looked imgView member
    rw [represents.manualStampViews] at among
    obtain ⟨stamp, there, rfl⟩ := List.mem_map.mp among
    exact ⟨stamp.image, offered.stamps stamp there, rfl⟩

end EditViewController

/-! ## The application -/

namespace App

open EditViewController (EditsOffered blankAssets canvasFor instantiate
  noFaces observations opened viewDidLoad_eq)

theorem previewAt_eq_some {app : App} {index : ℕ} {scene : PreviewScene} :
    app.previewAt index = some scene ↔
      app.pushed[index]? = some (.preview scene) := by
  rw [previewAt, Option.bind_eq_some_iff]
  constructor
  · intro given
    obtain ⟨pushed, found, preview⟩ := given
    rw [found, Scene.preview?_eq_some.mp preview]
  · intro found
    exact ⟨_, found, rfl⟩

theorem editorAt_eq_some {app : App} {index : ℕ}
    {controller : EditViewController} :
    app.editorAt index = some controller ↔
      app.pushed[index]? = some (.editor controller) := by
  rw [editorAt, Option.bind_eq_some_iff]
  constructor
  · intro given
    obtain ⟨pushed, found, editor⟩ := given
    rw [found, Scene.editor?_eq_some.mp editor]
  · intro found
    exact ⟨_, found, rfl⟩

/-- A preview shows the image of a segue that led to it, and an editor edits
the image of a preview below it. -/
inductive SceneTraced (assets : HigeAssets) (segues : List Segue)
    (below : List Scene) : Scene → Prop where
  | preview {scene : PreviewScene} (loaded : scene.IsLoaded) {segue : Segue}
      (performed : segue ∈ segues)
      (handed : segue.destination.image = scene.image) :
      SceneTraced assets segues below (.preview scene)
  | editor {controller : EditViewController} {scene : PreviewScene}
      {base : UIImage} (under : Scene.preview scene ∈ below)
      (shows : scene.image = some base)
      (edits : EditsOffered (canvasFor .storyboard base assets) controller)
      (stacked : controller.Stacked EditOutlets.storyboard.imageView.bounds) :
      SceneTraced assets segues below (.editor controller)

/-- A sheet shows an image that was handed to a preview. -/
def SheetTraced (assets : HigeAssets) (segues : List Segue)
    (sheet : UIActivityViewController) : Prop :=
  ∃ segue ∈ segues, ∃ base, segue.destination.image = some base ∧
    ShowsEdited assets base sheet

/-- Every image on the stack and every shared one can be traced back to a
segue of the camera screen. -/
structure Traced (assets : HigeAssets) (app : App) : Prop where
  pushed :
    Stacking.Supported (SceneTraced assets app.camera.segues) app.pushed
  shared : ∀ sheet ∈ app.shared, SheetTraced assets app.camera.segues sheet

theorem traced_initial (assets : HigeAssets) (bounds : CGRect) :
    (initial bounds).Traced assets where
  pushed := Stacking.supported_nil
  shared := by
    intro sheet member
    cases member

theorem SceneTraced.mono {assets : HigeAssets} {before after : List Segue}
    {below : List Scene} {scene : Scene} (longer : before <+: after)
    (traced : SceneTraced assets before below scene) :
    SceneTraced assets after below scene := by
  cases traced with
  | preview loaded performed handed =>
      exact .preview loaded (longer.subset performed) handed
  | editor under shows edits stacked =>
      exact .editor under shows edits stacked

theorem SheetTraced.mono {assets : HigeAssets} {before after : List Segue}
    {sheet : UIActivityViewController} (longer : before <+: after)
    (traced : SheetTraced assets before sheet) :
    SheetTraced assets after sheet := by
  obtain ⟨segue, member, shows⟩ := traced
  exact ⟨segue, longer.subset member, shows⟩

/-- Every arrival shows the image of the segue that led to it. -/
theorem arrivals_traced (assets : HigeAssets) {before after : Screen}
    {scene : Scene} (arrived : scene ∈ arrivals before after)
    (below : List Scene) :
    SceneTraced assets after.segues below scene := by
  obtain ⟨segue, performed, rfl⟩ := List.mem_map.mp arrived
  apply SceneTraced.preview (PreviewScene.isLoaded_viewDidLoad _)
    (List.mem_of_mem_drop performed)
  exact (PreviewScene.image_viewDidLoad segue.destination).symm

private theorem preview_mem_set {stack : List Scene} {index : ℕ}
    {old new : EditViewController} {scene : PreviewScene}
    (there : stack[index]? = some (.editor old))
    (member : Scene.preview scene ∈ stack) :
    Scene.preview scene ∈ stack.set index (.editor new) := by
  obtain ⟨place, found⟩ := List.getElem?_of_mem member
  have different : index ≠ place := by
    intro same
    subst same
    rw [there] at found
    cases found
  apply List.mem_of_getElem? (i := place)
  rw [List.getElem?_set_ne different, found]

section Step

variable {av : AVFoundation} {decode : Data → Option UIImage}
  {assets : HigeAssets} {detector : VNFaceLandmarksDetector}
  {app next : App}

private theorem Traced.confirmed {index : ℕ} {scene : PreviewScene}
    {controller : EditViewController}
    (there : app.previewAt index = some scene)
    (loaded : scene.pushOkBtn assets detector = some controller) :
    SceneTraced assets app.camera.segues app.pushed (.editor controller) := by
  rw [PreviewScene.pushOkBtn_eq] at loaded
  obtain ⟨base, shows⟩ := EditViewController.image_of_loaded loaded
  rw [shows] at loaded
  exact .editor (List.mem_of_getElem? (previewAt_eq_some.mp there)) shows
    (EditViewController.editsOffered_loaded loaded)
    (EditViewController.editsStacked_loaded rfl loaded).2

theorem Traced.preview (traced : app.Traced assets)
    {scene : PreviewScene} (member : Scene.preview scene ∈ app.pushed) :
    scene.IsLoaded ∧ ∃ segue ∈ app.camera.segues,
      segue.destination.image = scene.image := by
  obtain ⟨index, found⟩ := List.getElem?_of_mem member
  cases traced.pushed index _ found with
  | preview loaded performed handed => exact ⟨loaded, _, performed, handed⟩

/-- What an editor on the stack edits. -/
theorem Traced.editor (traced : app.Traced assets) {index : ℕ}
    {controller : EditViewController}
    (there : app.editorAt index = some controller) :
    ∃ scene base, Scene.preview scene ∈ app.pushed.take index ∧
      scene.image = some base ∧
        EditsOffered (canvasFor .storyboard base assets) controller ∧
          controller.Stacked EditOutlets.storyboard.imageView.bounds := by
  cases traced.pushed index _ (editorAt_eq_some.mp there) with
  | editor under shows edits stacked =>
      exact ⟨_, _, under, shows, edits, stacked⟩

private theorem Traced.sheet (traced : app.Traced assets) {index : ℕ}
    {controller : EditViewController} {sheet : UIActivityViewController}
    (there : app.editorAt index = some controller)
    (shared : controller.pushShareBtn = some sheet) :
    SheetTraced assets app.camera.segues sheet := by
  obtain ⟨scene, base, under, shows, edits, _⟩ := traced.editor there
  obtain ⟨_, segue, performed, handed⟩ :=
    traced.preview (List.mem_of_mem_take under)
  exact ⟨segue, performed, base, handed.trans shows, edits.share shared⟩

/-- Every step keeps the images traced. -/
theorem Traced.of_step {event : Event} (traced : app.Traced assets)
    (taken : step av decode assets detector app event = some next) :
    next.Traced assets := by
  cases event with
  | camera event =>
      simp only [step, Option.bind_eq_bind, Option.bind_eq_some_iff,
        Option.pure_def, Option.some.injEq] at taken
      obtain ⟨camera, stepped, rfl⟩ := taken
      have longer := Screen.segues_prefix stepped
      constructor
      · apply Stacking.Supported.append
        · exact traced.pushed.mono fun below scene => SceneTraced.mono longer
        · intro scene arrived below
          exact arrivals_traced assets arrived below
      · intro sheet member
        exact (traced.shared sheet member).mono longer
  | pushOkBtn index =>
      simp only [step, Option.bind_eq_bind, Option.bind_eq_some_iff,
        Option.pure_def, Option.some.injEq] at taken
      obtain ⟨scene, there, controller, loaded, rfl⟩ := taken
      exact
        { pushed := traced.pushed.push (Traced.confirmed there loaded)
          shared := traced.shared }
  | pushBackBtn index =>
      simp only [step, Option.bind_eq_bind, Option.bind_eq_some_iff,
        Option.pure_def, Option.some.injEq] at taken
      obtain ⟨scene, _, rfl⟩ := taken
      exact
        { pushed := traced.pushed.pop
          shared := traced.shared }
  | editor index event =>
      simp only [step, Option.bind_eq_bind, Option.bind_eq_some_iff,
        Option.pure_def, Option.some.injEq] at taken
      obtain ⟨controller, there, edited, stepped, rfl⟩ := taken
      rw [editorAt_eq_some] at there
      refine { pushed := ?_, shared := traced.shared }
      apply traced.pushed.replace there
      · cases traced.pushed index _ there with
        | editor under shows edits stacked =>
            obtain ⟨editing, represents⟩ := edits.edits
            exact .editor under shows (edits.of_step stepped)
              (stacked.of_step represents stepped)
      · intro below scene found stands
        cases stands with
        | preview loaded performed handed =>
            exact .preview loaded performed handed
        | editor under shows edits stacked =>
            exact .editor (preview_mem_set found under) shows edits stacked
  | pushShareBtn index =>
      simp only [step, Option.bind_eq_bind, Option.bind_eq_some_iff,
        Option.pure_def, Option.some.injEq] at taken
      obtain ⟨controller, there, sheet, shared, rfl⟩ := taken
      refine { pushed := traced.pushed, shared := ?_ }
      intro other member
      rcases List.mem_append.mp member with old | new
      · exact traced.shared other old
      · rw [List.mem_singleton] at new
        subst new
        exact traced.sheet there shared
  | pushCancelBtn index =>
      simp only [step, Option.bind_eq_bind, Option.bind_eq_some_iff,
        Option.pure_def, Option.some.injEq] at taken
      obtain ⟨controller, _, rfl⟩ := taken
      exact
        { pushed := Stacking.supported_nil
          shared := traced.shared }

end Step

/-! ## Runs of the application -/

section Runs

variable {av : AVFoundation} {decode : Data → Option UIImage}
  {assets : HigeAssets} {detector : VNFaceLandmarksDetector}
  {bounds : CGRect} {events : List Event} {final : App}

/-- The images that the camera screen acquires. -/
def acquired (decode : Data → Option UIImage) (events : List Event) :
    List (Option UIImage) :=
  (events.filterMap Event.camera?).filterMap (Screen.Event.acquired decode)

theorem traced_of_run
    (completed :
      EventRun.run (step av decode assets detector) (initial bounds) events =
        some final) : final.Traced assets :=
  EventRun.invariant (traced_initial assets bounds)
    (fun _ _ _ traced taken => traced.of_step taken) completed

theorem segues_acquired
    (completed :
      EventRun.run (step av decode assets detector) (initial bounds) events =
        some final) :
    ∀ segue ∈ final.camera.segues,
      segue.destination.image ∈ acquired decode events :=
  Screen.segues_acquired (camera_isComponent.run completed)

/-- In every run an editor edits the image that a preview below it shows, and
that image was acquired by the camera screen. -/
theorem edited_image_was_previewed
    (completed :
      EventRun.run (step av decode assets detector) (initial bounds) events =
        some final) {index : ℕ} {controller : EditViewController}
    (there : final.editorAt index = some controller) :
    ∃ base, controller.image = some base ∧
      some base ∈ acquired decode events ∧
        ∃ lower scene, lower < index ∧
          final.previewAt lower = some scene ∧
            scene.previewImageView.image = some (.image base) := by
  have traced := traced_of_run completed
  obtain ⟨scene, base, under, shows, ⟨editing, represents, _⟩, _⟩ :=
    traced.editor there
  obtain ⟨loaded, segue, performed, handed⟩ :=
    traced.preview (List.mem_of_mem_take under)
  obtain ⟨lower, found⟩ := List.getElem?_of_mem under
  rw [List.getElem?_take] at found
  obtain ⟨below, found⟩ := Option.ite_none_right_eq_some.mp found
  refine ⟨base, represents.image, ?_, lower, scene, below, ?_, ?_⟩
  · rw [← shows, ← handed]
    exact segues_acquired completed segue performed
  · exact previewAt_eq_some.mpr found
  · rw [loaded.shows, shows]
    rfl

/-- In every run whatever is shared is an image that the camera screen has
acquired, with nothing but moustaches in front of it. -/
theorem shared_was_acquired
    (completed :
      EventRun.run (step av decode assets detector) (initial bounds) events =
        some final) :
    ∀ sheet ∈ final.shared, ∃ base, some base ∈ acquired decode events ∧
      ShowsEdited assets base sheet := by
  intro sheet member
  obtain ⟨segue, performed, base, handed, shows⟩ :=
    (traced_of_run completed).shared sheet member
  refine ⟨base, ?_, shows⟩
  rw [← handed]
  exact segues_acquired completed segue performed

/-! ## A photo that is edited and shared -/

/-- A photo is taken, confirmed, adorned with one stamp and shared. -/
def confirmAndShare : List Event :=
  [.camera .viewDidAppear, .camera .pushCameraBtn] ++
    [.camera Screen.onePhoto, .pushOkBtn 0, .editor 1 .pushManualBtn,
      .editor 1 (.didSelectItemAt 0), .pushShareBtn 1]

private theorem noFaces_loads (image : UIImage) :
    (instantiate .storyboard (some image)).viewDidLoad blankAssets noFaces =
      some (opened .storyboard image blankAssets) := by
  have detected : observations noFaces image = some [] := by
    unfold observations
    cases image.cgImage <;> rfl
  rw [viewDidLoad_eq, detected]
  rfl

private theorem stampOnce (image : UIImage) :
    ∃ entered stamped sheet,
      (opened .storyboard image blankAssets).step .pushManualBtn =
          some entered ∧
        entered.step (.didSelectItemAt 0) = some stamped ∧
          stamped.pushShareBtn = some sheet := by
  have loaded := noFaces_loads image
  have edits := EditViewController.editsStacked_loaded rfl loaded
  have occurs : ∀ event ∈
      [EditViewController.Event.pushManualBtn, .didSelectItemAt 0],
      ∃ action, event.action (canvasFor .storyboard image blankAssets) =
        some action := by
    intro event member
    apply EditViewController.occurs_translates
    simp only [List.mem_cons, List.not_mem_nil, or_false] at member
    rcases member with rfl | rfl
    · trivial
    · exact Nat.zero_lt_succ 2
  obtain ⟨editing, represents⟩ := edits.1
  obtain ⟨stamped, completed, _⟩ :=
    (EditViewController.step_refines _).completes represents occurs
  obtain ⟨entered, first, rest⟩ := EventRun.run_cons_eq_some.mp completed
  obtain ⟨_, second, last⟩ := EventRun.run_cons_eq_some.mp rest
  obtain rfl := Option.some.inj last
  have stacked := ((edits.of_step first).of_step second).2
  obtain ⟨_, _, _, pushed⟩ := stacked.pushShareBtn_eq
  have visible :
      0 < EditOutlets.storyboard.imageView.bounds.size.width ∧
        0 < EditOutlets.storyboard.imageView.bounds.size.height := by
    decide +kernel
  rw [if_pos visible] at pushed
  exact ⟨entered, _, _, first, second, pushed⟩

theorem confirmAndShare_completes :
    ∃ final controller sheet,
      EventRun.run
          (step .twoCameras decodeOnePixel blankAssets
            noFaces)
          (initial ⟨0, ⟨375, 375⟩⟩) confirmAndShare = some final ∧
        final.editorAt 1 = some controller ∧ sheet ∈ final.shared := by
  obtain ⟨square, cropped⟩ :
      ∃ square, UIImage.onePixel.croppingCenterSquare = some square :=
    UIImage.croppingCenterSquare_isSome rfl
  obtain ⟨ready, begun, remembered, segues, pushed, shared⟩ :
      ∃ ready, EventRun.run
          (step .twoCameras decodeOnePixel blankAssets
            noFaces)
          (initial ⟨0, ⟨375, 375⟩⟩)
          [.camera .viewDidAppear, .camera .pushCameraBtn] = some ready ∧
        ready.camera.controller.cameraHelper.completion = some .showResult ∧
          ready.camera.segues = [] ∧ ready.pushed = [] ∧
            ready.shared = [] :=
    ⟨_, rfl, rfl, rfl, rfl, rfl⟩
  let preview : PreviewScene :=
    (PreviewScene.instantiate { image := some square }).viewDidLoad
  obtain ⟨shot, photographed, arrived, unshared⟩ :
      ∃ shot, step .twoCameras decodeOnePixel blankAssets
          noFaces ready (.camera Screen.onePhoto) = some shot ∧
        shot.pushed = [.preview preview] ∧ shot.shared = [] := by
    have delivered : ready.camera.step .twoCameras
          decodeOnePixel Screen.onePhoto = some _ :=
      Screen.step_photoOutput remembered rfl cropped
    refine ⟨_, step_camera delivered, ?_, shared⟩
    simp [arrivals, pushed, segues, preview]
  obtain ⟨entered, stamped, sheet, first, second, shares⟩ := stampOnce square
  have confirmed : preview.pushOkBtn blankAssets noFaces =
      some (opened .storyboard square blankAssets) :=
    noFaces_loads square
  obtain ⟨camera, scenes, sheets⟩ := shot
  obtain rfl : scenes = [.preview preview] := arrived
  obtain rfl : sheets = [] := unshared
  let final : App :=
    { camera := camera
      pushed := [.preview preview, .editor stamped]
      shared := [sheet] }
  refine ⟨final, stamped, sheet, ?_, rfl, List.mem_cons_self⟩
  rw [confirmAndShare, EventRun.run_append_eq_some]
  refine ⟨ready, begun, ?_⟩
  refine EventRun.run_cons_eq_some.mpr ⟨_, photographed, ?_⟩
  refine EventRun.run_cons_eq_some.mpr
    ⟨_, step_pushOkBtn rfl confirmed, ?_⟩
  refine EventRun.run_cons_eq_some.mpr ⟨_, step_editor rfl first, ?_⟩
  refine EventRun.run_cons_eq_some.mpr ⟨_, step_editor rfl second, ?_⟩
  exact EventRun.run_cons_eq_some.mpr
    ⟨_, step_pushShareBtn rfl shares, rfl⟩

theorem edited_image_was_previewed_confirmAndShare :
    ∃ final controller,
      EventRun.run
          (step .twoCameras decodeOnePixel blankAssets
            noFaces)
          (initial ⟨0, ⟨375, 375⟩⟩) confirmAndShare = some final ∧
        final.editorAt 1 = some controller ∧
          ∃ base, controller.image = some base ∧
            some base ∈
                acquired decodeOnePixel confirmAndShare ∧
              ∃ lower scene, lower < 1 ∧
                final.previewAt lower = some scene ∧
                  scene.previewImageView.image = some (.image base) := by
  obtain ⟨final, controller, _, completed, there, _⟩ :=
    confirmAndShare_completes
  exact ⟨final, controller, completed, there,
    edited_image_was_previewed completed there⟩

theorem shared_was_acquired_confirmAndShare :
    ∃ final sheet base,
      EventRun.run
          (step .twoCameras decodeOnePixel blankAssets
            noFaces)
          (initial ⟨0, ⟨375, 375⟩⟩) confirmAndShare = some final ∧
        sheet ∈ final.shared ∧
          some base ∈
              acquired decodeOnePixel confirmAndShare ∧
            ShowsEdited blankAssets base sheet := by
  obtain ⟨final, _, sheet, completed, _, member⟩ := confirmAndShare_completes
  obtain ⟨base, among, shows⟩ := shared_was_acquired completed sheet member
  exact ⟨final, sheet, base, completed, member, among, shows⟩

end Runs

end App

end HigeMaster
