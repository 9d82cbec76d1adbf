import HigeMaster.Scenes.EditorLoading
import HigeMaster.Stacking

/-!
# Which stamp lies in front

A manual stamp is put in front of all others when it is added and whenever a
touch moves it; nothing else reorders the stamps.  So the stamps lie in the
order in which they were last added or moved, and what is shared shows every
stamp exactly once, in that order, in front of the automatic picture.
-/

namespace HigeMaster

open Geometry

namespace Editing

/-- The stamps that a touch moves, in the order in which it moves them. -/
def grabbed (touch : UITouch) (stamps : List Stamp) : List ℕ :=
  (List.range stamps.length).filter fun index =>
    stamps[index]?.any fun stamp =>
      stamp.frame.contains touch.previousLocation

/-- The stamps that touches move one after the other. -/
def grabbedBy : List Stamp → List UITouch → List ℕ
  | _, [] => []
  | stamps, touch :: touches =>
      grabbed touch stamps ++ grabbedBy (dragAll stamps touch) touches

/-- The stamps that an action puts in front of all others, one by one. -/
def raised (editing : Editing) : Action → List ℕ
  | .select _ =>
      match editing.mode with
      | .automatic => []
      | .manual => [editing.stamps.length]
  | .drag touches => grabbedBy editing.stamps touches
  | .enter _ | .slide _ | .record _ => []

/-- The stamps that a run of actions puts in front of all others. -/
def raises (center : CGPoint) : Editing → List Action → List ℕ
  | _, [] => []
  | editing, action :: actions =>
      editing.raised action ++ raises center (editing.apply center action)
        actions

theorem mem_grabbed {touch : UITouch} {stamps : List Stamp} {index : ℕ}
    (among : index ∈ grabbed touch stamps) : index < stamps.length := by
  rw [grabbed, List.mem_filter, List.mem_range] at among
  exact among.1

theorem mem_grabbedBy {touches : List UITouch} {stamps : List Stamp}
    {index : ℕ} (among : index ∈ grabbedBy stamps touches) :
    index < stamps.length := by
  induction touches generalizing stamps with
  | nil => cases among
  | cons touch touches induction =>
      rw [grabbedBy, List.mem_append] at among
      rcases among with first | later
      · exact mem_grabbed first
      · have inside := induction later
        rwa [dragAll, List.length_map] at inside

theorem perm_raised {center : CGPoint} {editing : Editing} {stack : List ℕ}
    (all : stack.Perm (List.range editing.stamps.length)) (action : Action) :
    ((editing.raised action).foldl Stacking.raise stack).Perm
      (List.range (editing.apply center action).stamps.length) := by
  cases action with
  | enter mode => exact all
  | slide value =>
      cases entered : editing.mode with
      | automatic => simpa [raised, apply, entered] using all
      | manual => simpa [raised, apply, entered] using all
  | select image =>
      cases entered : editing.mode with
      | automatic => simpa [raised, apply, entered] using all
      | manual =>
          have absent : editing.stamps.length ∉ stack := by
            rw [all.mem_iff, List.mem_range]
            exact lt_irrefl _
          have more := all.append_right [editing.stamps.length]
          rw [← List.range_succ] at more
          simpa [raised, apply, entered, Stacking.raise,
            List.erase_of_not_mem absent] using more
  | drag touches =>
      have there : ∀ index ∈ grabbedBy editing.stamps touches,
          index ∈ stack := by
        intro index among
        rw [all.mem_iff, List.mem_range]
        exact mem_grabbedBy among
      have same := length_foldl_dragAll touches editing.stamps
      simp only [raised, apply, same]
      exact (Stacking.perm_foldl_raise there).trans all
  | record face => exact all

end Editing

/-! ## What a step raises -/

/-- The subviews are raised one by one, and the view lies where it lay, with
its picture placed in it as before. -/
structure UIImageView.Raises (before after : UIImageView) (names : List ℕ) :
    Prop where
  subviews : after.subviews = names.foldl Stacking.raise before.subviews
  view : after.toView = before.toView
  contentMode : after.contentMode = before.contentMode

namespace UIImageView

theorem Raises.refl (view : UIImageView) : view.Raises view [] :=
  ⟨rfl, rfl, rfl⟩

theorem Raises.trans {before middle after : UIImageView}
    {first second : List ℕ} (once : before.Raises middle first)
    (again : middle.Raises after second) :
    before.Raises after (first ++ second) where
  subviews := by
    rw [again.subviews, once.subviews, List.foldl_append]
  view := again.view.trans once.view
  contentMode := again.contentMode.trans once.contentMode

theorem raises_addSubview (view : UIImageView) (name : ℕ) :
    view.Raises (view.addSubview name) [name] :=
  ⟨rfl, rfl, rfl⟩

end UIImageView

namespace EditViewController

open Editing (Action grabbed grabbedBy raised raises)

/-- The views that a touch moves, among those at the given places. -/
def grabbedAmong (touch : UITouch) (imgViews : List UIImageView)
    (places : List ℕ) : List ℕ :=
  places.filter fun index =>
    imgViews[index]?.any fun imgView =>
      imgView.frame.contains touch.previousLocation

/-- One turn of the loop raises the view that it looks at if the touch moves
it, and leaves the other views alone. -/
private theorem moveStamp_raises {controller next : EditViewController}
    {touch : UITouch} {index : ℕ}
    (taken : controller.moveStamp touch index = some next) :
    controller.imageView.Raises next.imageView
        (grabbedAmong touch controller.manualStampViews [index]) ∧
      ∀ other, other ≠ index →
        next.manualStampViews[other]? =
          controller.manualStampViews[other]? := by
  rw [moveStamp, Option.bind_eq_bind, Option.bind_eq_some_iff] at taken
  obtain ⟨imgView, found, taken⟩ := taken
  by_cases inside : imgView.frame.contains touch.previousLocation = true
  · rw [if_pos inside] at taken
    simp only [Option.bind_eq_some_iff, Option.pure_def,
      Option.some.injEq] at taken
    obtain ⟨moved, _, rfl⟩ := taken
    have among : grabbedAmong touch controller.manualStampViews [index] =
        [index] := by
      simp [grabbedAmong, found, inside]
    rw [among]
    refine ⟨controller.imageView.raises_addSubview index, ?_⟩
    intro other different
    exact List.getElem?_set_ne (Ne.symm different)
  · rw [if_neg inside, Option.pure_def, Option.some.injEq] at taken
    subst taken
    have among : grabbedAmong touch controller.manualStampViews [index] =
        [] := by
      simp [grabbedAmong, found, inside]
    rw [among]
    exact ⟨.refl controller.imageView, fun _ _ => rfl⟩

private theorem moveStamps_raises_from {touch : UITouch} {first count : ℕ}
    {controller next : EditViewController}
    (taken :
      (List.range' first count).foldlM (moveStamp touch) controller =
        some next) :
    controller.imageView.Raises next.imageView
      (grabbedAmong touch controller.manualStampViews
        (List.range' first count)) := by
  induction count generalizing first controller with
  | zero =>
      simp only [List.range'_zero, List.foldlM_nil, Option.pure_def,
        Option.some.injEq] at taken
      subst taken
      exact .refl controller.imageView
  | succ count induction =>
      rw [List.range'_succ, List.foldlM_cons, Option.bind_eq_bind,
        Option.bind_eq_some_iff] at taken
      obtain ⟨middle, turn, rest⟩ := taken
      obtain ⟨raised, others⟩ := moveStamp_raises turn
      have unmoved : grabbedAmong touch middle.manualStampViews
            (List.range' (first + 1) count) =
          grabbedAmong touch controller.manualStampViews
            (List.range' (first + 1) count) := by
        apply List.filter_congr
        intro index among
        have later : index ≠ first := by
          have bounds := List.mem_range'_1.mp among
          omega
        rw [others index later]
      have split : grabbedAmong touch controller.manualStampViews
            (List.range' first (count + 1)) =
          grabbedAmong touch controller.manualStampViews [first] ++
            grabbedAmong touch middle.manualStampViews
              (List.range' (first + 1) count) := by
        rw [unmoved, List.range'_succ, ← List.singleton_append]
        exact List.filter_append [first] _
      rw [split]
      exact raised.trans (induction rest)

variable {canvas : Canvas} {controller next : EditViewController}
  {editing : Editing}

/-- A touch raises the stamps that it moves. -/
private theorem moveStamps_raises {touch : UITouch} {stamps : List Stamp}
    (views : controller.manualStampViews = stamps.map Stamp.view)
    (taken : controller.moveStamps touch = some next) :
    controller.imageView.Raises next.imageView (grabbed touch stamps) := by
  have same : grabbedAmong touch controller.manualStampViews
        (List.range' 0 controller.manualStampViews.length) =
      grabbed touch stamps := by
    rw [grabbedAmong, grabbed, views, List.length_map, List.range_eq_range']
    apply List.filter_congr
    intro index _
    rw [List.getElem?_map, Option.any_map]
    rfl
  rw [moveStamps, List.range_eq_range'] at taken
  rw [← same]
  exact moveStamps_raises_from taken

private theorem touchesMoved_raises {touches : List UITouch}
    (represents : Represents canvas controller editing)
    (taken : controller.touchesMoved touches = some next) :
    controller.imageView.Raises next.imageView
      (grabbedBy editing.stamps touches) := by
  induction touches generalizing controller editing with
  | nil =>
      simp only [touchesMoved, List.foldlM_nil, Option.pure_def,
        Option.some.injEq] at taken
      subst taken
      exact .refl controller.imageView
  | cons touch touches induction =>
      rw [touchesMoved, List.foldlM_cons, Option.bind_eq_bind,
        Option.bind_eq_some_iff] at taken
      obtain ⟨middle, first, rest⟩ := taken
      have raised := moveStamps_raises represents.manualStampViews first
      obtain ⟨other, sameStep, kept⟩ := represents.moveStamps touch
      rw [first, Option.some.injEq] at sameStep
      subst sameStep
      exact raised.trans (induction kept rest)

private theorem drawAutoImage_raises
    (drawn : controller.drawAutoImage = some next) :
    controller.imageView.Raises next.imageView [] := by
  simp only [drawAutoImage, Option.bind_eq_bind, Option.bind_eq_some_iff,
    Option.pure_def, Option.some.injEq] at drawn
  obtain ⟨_, _, _, _, rfl⟩ := drawn
  exact ⟨rfl, rfl, rfl⟩

private theorem slide_raises {value : SliderValue}
    (taken : controller.slide value = some next) :
    controller.imageView.Raises next.imageView [] := by
  unfold slide changeSize at taken
  simp only at taken
  split at taken
  · split at taken
    · have raised := drawAutoImage_raises taken
      exact raised
    · obtain rfl := Option.some.inj taken
      exact ⟨rfl, rfl, rfl⟩
  · obtain rfl := Option.some.inj taken
    exact ⟨rfl, rfl, rfl⟩

private theorem didSelectItemAt_raises {row : ℕ} {image : UIImage}
    (represents : Represents canvas controller editing)
    (taken : controller.didSelectItemAt row = some next) :
    controller.imageView.Raises next.imageView
      (editing.raised (.select image)) := by
  rw [didSelectItemAt, represents.higeImages] at taken
  simp only [Option.bind_eq_bind, Option.bind_some, represents.mode,
    EditMode.some_number_eq_zero_iff, Option.bind_eq_some_iff] at taken
  obtain ⟨chosen, _, taken⟩ := taken
  cases entered : editing.mode with
  | automatic =>
      rw [entered, if_pos rfl] at taken
      simp only [raised, entered]
      have drawn := drawAutoImage_raises taken
      exact drawn
  | manual =>
      rw [entered, if_neg EditMode.noConfusion, Option.pure_def,
        Option.some.injEq] at taken
      subst taken
      simp only [raised, entered, represents.manualStampViews,
        List.length_map]
      exact controller.imageView.raises_addSubview editing.stamps.length

private theorem putHige_raises {observation : VNFaceObservation}
    (taken : controller.putHige observation = some next) :
    controller.imageView.Raises next.imageView [] := by
  unfold putHige at taken
  cases lips : observation.mouse with
  | none =>
      simp only [lips, Option.some.injEq] at taken
      subst taken
      exact .refl controller.imageView
  | some mouse =>
      simp only [lips, Option.bind_eq_bind, Option.bind_eq_some_iff] at taken
      obtain ⟨_, _, _, _, drawn⟩ := taken
      have raised := drawAutoImage_raises drawn
      exact raised

/-- A step raises what its action raises. -/
theorem Represents.step_raises {event : Event} {action : Action}
    (represents : Represents canvas controller editing)
    (means : event.Means canvas action)
    (taken : step controller event = some next) :
    controller.imageView.Raises next.imageView (editing.raised action) := by
  cases means with
  | pushAutoBtn =>
      obtain rfl := Option.some.inj taken
      exact ⟨rfl, rfl, rfl⟩
  | pushManualBtn =>
      obtain rfl := Option.some.inj taken
      exact ⟨rfl, rfl, rfl⟩
  | slide value => exact slide_raises taken
  | didSelectItemAt row found => exact didSelectItemAt_raises represents taken
  | touchesMoved touches => exact touchesMoved_raises represents taken
  | putHige observation => exact putHige_raises taken

/-- The stack names every stamp once, and the image view has its bounds. -/
structure Stacked (bounds : CGRect) (controller : EditViewController) :
    Prop where
  all : controller.imageView.subviews.Perm
    (List.range controller.manualStampViews.length)
  bounds : controller.imageView.bounds = bounds

theorem Stacked.of_step {bounds : CGRect} {event : Event}
    (represents : Represents canvas controller editing)
    (stacked : controller.Stacked bounds)
    (taken : step controller event = some next) : next.Stacked bounds := by
  obtain ⟨action, means, kept⟩ := represents.step_cases taken
  have raised := represents.step_raises means taken
  have all := stacked.all
  rw [represents.manualStampViews, List.length_map] at all
  constructor
  · rw [raised.subviews, kept.manualStampViews, List.length_map]
    exact Editing.perm_raised all action
  · exact (congrArg View.bounds raised.view).trans stacked.bounds

theorem Stacked.pushShareBtn_eq {bounds : CGRect}
    (stacked : controller.Stacked bounds) :
    ∃ arranged,
      arranged = controller.imageView.subviews.filterMap
          (fun name => controller.manualStampViews[name]?) ∧
        arranged.Perm controller.manualStampViews ∧
          controller.pushShareBtn =
            if 0 < bounds.size.width ∧ 0 < bounds.size.height then
              some
                { activityItems :=
                    [{ size := bounds.size
                       picture := controller.imageView.image
                       contentMode := controller.imageView.contentMode
                       subviews := arranged }]
                  excludedActivityTypes := [.postToWeibo, .postToTencentWeibo]
                  sourceRect :=
                    { origin := { x := 0, y := 0 }
                      size := { width := 20, height := 20 } } }
            else
              none := by
  obtain ⟨arranged, looked, places, every⟩ :=
    Stacking.lookup_of_perm stacked.all
  refine ⟨arranged, places, every, ?_⟩
  rw [pushShareBtn, UIImageView.render, looked, stacked.bounds]
  by_cases visible : 0 < bounds.size.width ∧ 0 < bounds.size.height
  · rw [if_pos visible, if_pos visible]
    rfl
  · rw [if_neg visible, if_neg visible]
    rfl

/-- The controller edits an image, and all its stamps are on the stack. -/
def EditsStacked (canvas : Canvas) (bounds : CGRect)
    (controller : EditViewController) : Prop :=
  Edits canvas controller ∧ controller.Stacked bounds

theorem EditsStacked.of_step {bounds : CGRect} {event : Event}
    (edits : EditsStacked canvas bounds controller)
    (taken : step controller event = some next) :
    EditsStacked canvas bounds next := by
  obtain ⟨⟨editing, represents⟩, stacked⟩ := edits
  exact ⟨Edits.of_step ⟨editing, represents⟩ taken,
    stacked.of_step represents taken⟩

/-! ## Runs -/

theorem Represents.run_raises {events : List Event} {actions : List Action}
    {final : EditViewController}
    (represents : Represents canvas controller editing)
    (translated : events.mapM (Event.action canvas) = some actions)
    (completed : EventRun.run step controller events = some final) :
    controller.imageView.Raises final.imageView
      (raises canvas.center editing actions) := by
  induction events generalizing controller editing actions with
  | nil =>
      simp only [List.mapM_nil, Option.pure_def, Option.some.injEq]
        at translated
      simp only [EventRun.run_nil, Option.some.injEq] at completed
      subst translated completed
      exact .refl controller.imageView
  | cons event events induction =>
      simp only [List.mapM_cons, Option.bind_eq_bind, Option.pure_def,
        Option.bind_eq_some_iff, Option.some.injEq] at translated
      obtain ⟨action, first, others, rest, rfl⟩ := translated
      obtain ⟨next, taken, completed⟩ :=
        EventRun.run_cons_eq_some.mp completed
      obtain ⟨same, sameStep, kept⟩ :=
        (step_refines canvas).step_succeeds represents first
      rw [taken, Option.some.injEq] at sameStep
      subst sameStep
      have raised := represents.step_raises (Event.means_of_action first) taken
      exact raised.trans (induction kept rest completed)

private theorem putHiges_raises {found : List VNFaceObservation}
    {final : EditViewController}
    (completed :
      EventRun.run step controller (found.map .putHige) = some final) :
    controller.imageView.Raises final.imageView [] := by
  induction found generalizing controller with
  | nil =>
      simp only [List.map_nil, EventRun.run_nil, Option.some.injEq]
        at completed
      subst completed
      exact .refl controller.imageView
  | cons observation found induction =>
      obtain ⟨next, taken, completed⟩ :=
        EventRun.run_cons_eq_some.mp completed
      exact (putHige_raises taken).trans (induction completed)

section Loaded

variable {outlets : EditOutlets} {image : UIImage} {assets : HigeAssets}
  {detector : VNFaceLandmarksDetector} {start final : EditViewController}
  {events : List Event}

theorem loaded_raises
    (loaded :
      (instantiate outlets (some image)).viewDidLoad assets detector =
        some start) :
    outlets.imageView.Raises start.imageView [] := by
  rw [viewDidLoad_eq, Option.bind_eq_some_iff] at loaded
  obtain ⟨found, _, completed⟩ := loaded
  have beforehand : outlets.imageView.Raises
      (opened outlets image assets).imageView [] :=
    ⟨rfl, rfl, rfl⟩
  exact beforehand.trans (putHiges_raises completed)

/-- What a run from a loaded editor represents, and what it has raised. -/
private theorem loaded_run
    (loaded :
      (instantiate outlets (some image)).viewDidLoad assets detector =
        some start)
    (completed : EventRun.run step start events = some final) :
    ∃ found actions, observations detector image = some found ∧
      events.mapM (Event.action (canvasFor outlets image assets)) =
          some actions ∧
        Represents (canvasFor outlets image assets) final
            (actions.foldl (Editing.apply outlets.imageView.center)
              (loadedEditing image assets found)) ∧
          outlets.imageView.Raises final.imageView
            (raises outlets.imageView.center
              (loadedEditing image assets found) actions) := by
  obtain ⟨found, detected, represents⟩ := represents_viewDidLoad loaded
  obtain ⟨actions, translated, kept⟩ :=
    (step_refines (canvasFor outlets image assets)).of_run represents
      completed
  have raised := represents.run_raises translated completed
  exact ⟨found, actions, detected, translated, kept,
    (loaded_raises loaded).trans raised⟩

theorem editsStacked_loaded (bare : outlets.imageView.subviews = [])
    (loaded :
      (instantiate outlets (some image)).viewDidLoad assets detector =
        some start) :
    EditsStacked (canvasFor outlets image assets) outlets.imageView.bounds
      start := by
  obtain ⟨found, _, represents⟩ := represents_viewDidLoad loaded
  have raised := loaded_raises loaded
  refine ⟨⟨_, represents⟩, ?_⟩
  constructor
  · rw [raised.subviews, bare, represents.manualStampViews]
    exact List.Perm.refl []
  · exact congrArg View.bounds raised.view

private theorem stacked_of_run (bare : outlets.imageView.subviews = [])
    (loaded :
      (instantiate outlets (some image)).viewDidLoad assets detector =
        some start)
    (completed : EventRun.run step start events = some final) :
    final.Stacked outlets.imageView.bounds := by
  have edits : EditsStacked (canvasFor outlets image assets)
      outlets.imageView.bounds final :=
    EventRun.invariant (editsStacked_loaded bare loaded)
      (fun _ _ _ edits taken => edits.of_step taken) completed
  exact edits.2

/-- In every run of a loaded editor the stamps lie in the order in which they
were last added or moved, and every stamp lies there once. -/
theorem stamps_lie_as_raised (bare : outlets.imageView.subviews = [])
    (loaded :
      (instantiate outlets (some image)).viewDidLoad assets detector =
        some start)
    (completed : EventRun.run step start events = some final) :
    ∃ found actions, observations detector image = some found ∧
      events.mapM (Event.action (canvasFor outlets image assets)) =
          some actions ∧
        final.imageView.subviews =
            (raises outlets.imageView.center
              (loadedEditing image assets found) actions).dedup ∧
          final.imageView.subviews.Perm
            (List.range final.manualStampViews.length) := by
  obtain ⟨found, actions, detected, translated, _, raised⟩ :=
    loaded_run loaded completed
  refine ⟨found, actions, detected, translated, ?_, ?_⟩
  · rw [raised.subviews, bare]
    exact Stacking.foldl_raise_nil _
  · exact (stacked_of_run bare loaded completed).all

/-- The user adds a stamp, drags it away, adds another one on the same place
and moves the first one again. -/
def stackTwo : List Event :=
  [.pushManualBtn, .didSelectItemAt 0,
    .touchesMoved [{ previousLocation := { x := 187, y := 275 }
                     location := { x := 287, y := 275 } }],
    .didSelectItemAt 1,
    .touchesMoved [{ previousLocation := { x := 287, y := 275 }
                     location := { x := 288, y := 275 } }]]

def stackTwoActions : List Action :=
  [.enter .manual, .select .onePixel,
    .drag [{ previousLocation := { x := 187, y := 275 }
             location := { x := 287, y := 275 } }],
    .select .onePixel,
    .drag [{ previousLocation := { x := 287, y := 275 }
             location := { x := 288, y := 275 } }]]

private theorem stackTwo_translated :
    stackTwo.mapM
        (Event.action (canvasFor .storyboard .onePixel blankAssets)) =
      some stackTwoActions :=
  rfl

private theorem stackTwo_completes :
    ∃ final, EventRun.run step blank stackTwo = some final := by
  obtain ⟨final, completed, _⟩ :=
    (step_refines _).run (represents_opened .storyboard .onePixel blankAssets)
      stackTwo_translated
  exact ⟨final, completed⟩

private theorem stackTwo_raises :
    (raises EditOutlets.storyboard.imageView.center
        (loadedEditing .onePixel blankAssets []) stackTwoActions).dedup =
      [1, 0] := by
  decide +kernel

/-- The first stamp ends in front of the second. -/
theorem stamps_lie_as_raised_stackTwo :
    ∃ final, EventRun.run step blank stackTwo = some final ∧
      final.imageView.subviews = [1, 0] := by
  obtain ⟨final, completed⟩ := stackTwo_completes
  obtain ⟨found, actions, detected, translated, stack, _⟩ :=
    stamps_lie_as_raised rfl blank_loaded completed
  obtain rfl := Option.some.inj detected
  rw [stackTwo_translated, Option.some.injEq] at translated
  subst translated
  exact ⟨final, completed, stack.trans stackTwo_raises⟩

/-- The rendering shows these drawings and in front of them every one of the
views once, arranged by their names. -/
structure Rendering.Shows (rendering : Rendering) (layers : List Drawing)
    (imgViews : List UIImageView) (names : List ℕ) : Prop where
  picture : ∃ shown, rendering.picture = some shown ∧ shown.layers = layers
  arranged :
    rendering.subviews = names.filterMap fun name => imgViews[name]?
  all : rendering.subviews.Perm imgViews

/-- In every run of a loaded editor the share button works exactly if the
image view has a size.  What is shared has that size and shows the automatic
picture under all stamps, each of them once and the one added or moved last in
front. -/
theorem share_shows_all (bare : outlets.imageView.subviews = [])
    (loaded :
      (instantiate outlets (some image)).viewDidLoad assets detector =
        some start)
    (completed : EventRun.run step start events = some final) :
    ∃ found actions, observations detector image = some found ∧
      events.mapM (Event.action (canvasFor outlets image assets)) =
          some actions ∧
        (final.pushShareBtn.isSome = true ↔
            0 < outlets.imageView.bounds.size.width ∧
              0 < outlets.imageView.bounds.size.height) ∧
          ∀ sheet, final.pushShareBtn = some sheet →
            ∃ rendering, sheet.activityItems = [rendering] ∧
              rendering.size = outlets.imageView.bounds.size ∧
              Rendering.Shows rendering
                ((actions.foldl (Editing.apply outlets.imageView.center)
                  (loadedEditing image assets found)).picture.layers image)
                final.manualStampViews
                (raises outlets.imageView.center
                  (loadedEditing image assets found) actions).dedup := by
  obtain ⟨found, actions, detected, translated, represents, raised⟩ :=
    loaded_run loaded completed
  obtain ⟨arranged, places, every, pushed⟩ :=
    (stacked_of_run bare loaded completed).pushShareBtn_eq
  rw [raised.subviews, bare, Stacking.foldl_raise_nil] at places
  refine ⟨found, actions, detected, translated, ?_, ?_⟩
  · rw [pushed]
    by_cases visible : 0 < outlets.imageView.bounds.size.width ∧
        0 < outlets.imageView.bounds.size.height
    · simp [visible]
    · simp [visible]
  · intro sheet shared
    rw [pushed, Option.ite_none_right_eq_some, Option.some.injEq] at shared
    obtain ⟨_, rfl⟩ := shared
    exact ⟨_, rfl, rfl, represents.shown, places, every⟩

/-- Both stamps are shared, the first one in front. -/
theorem share_shows_all_stackTwo :
    ∃ final sheet rendering, EventRun.run step blank stackTwo = some final ∧
      final.pushShareBtn = some sheet ∧ sheet.activityItems = [rendering] ∧
        rendering.size = { width := 375, height := 375 } ∧
          rendering.subviews =
            [1, 0].filterMap fun name => final.manualStampViews[name]? := by
  obtain ⟨final, completed⟩ := stackTwo_completes
  obtain ⟨found, actions, detected, translated, works, shares⟩ :=
    share_shows_all rfl blank_loaded completed
  obtain rfl := Option.some.inj detected
  rw [stackTwo_translated, Option.some.injEq] at translated
  subst translated
  have visible : 0 < EditOutlets.storyboard.imageView.bounds.size.width ∧
      0 < EditOutlets.storyboard.imageView.bounds.size.height := by
    decide +kernel
  obtain ⟨sheet, shared⟩ := Option.isSome_iff_exists.mp (works.mpr visible)
  obtain ⟨rendering, items, size, shows⟩ := shares sheet shared
  have arranged := shows.arranged
  rw [stackTwo_raises] at arranged
  exact ⟨final, sheet, rendering, completed, shared, items, size, arranged⟩

end Loaded

end EditViewController

end HigeMaster
