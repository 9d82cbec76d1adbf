import HigeMaster.EventRun.Visits
import HigeMaster.Scenes.EditorLoading

/-!
# Manual stamps over whole runs

The controller moves stamps by reading and assigning frames of scaled views.
Place and size stay apart all the same: the size of a stamp is what was last
sent in manual mode since it was added, and its place is where it was added
and the sum of the touches that started inside it.
-/

namespace HigeMaster

open Geometry

namespace EditViewController

/-- Twice the value of a slide that arrives in manual mode. -/
def manualScale (visit : EditViewController × Event) : Option CGFloat :=
  match visit.2 with
  | .slide value =>
      if visit.1.mode = some 1 then some (2 * value.value) else none
  | _ => none

/-- How far a touch takes the stamp at `index`: the whole way if it starts
inside the frame that the stamp has at that moment. -/
def touchDrag (index : ℕ) (visit : EditViewController × UITouch) : CGPoint :=
  match visit.1.manualStampViews[index]? with
  | some imgView =>
      if imgView.frame.contains visit.2.previousLocation then
        visit.2.location - visit.2.previousLocation
      else
        0
  | none => 0

/-- How far an event takes the stamp at `index`. -/
def eventDrag (index : ℕ) (visit : EditViewController × Event) : CGPoint :=
  match visit.2 with
  | .touchesMoved touches =>
      ((EventRun.visits moveStamps visit.1 touches).map
        (touchDrag index)).sum
  | _ => 0

/-- The place of the stamp at `index`. -/
def centerAt (index : ℕ) (controller : EditViewController) : CGPoint :=
  match controller.manualStampViews[index]? with
  | some imgView => imgView.center
  | none => 0

/-- The scale of the stamp at `index`. -/
def scaleAt (index : ℕ) (controller : EditViewController) : CGFloat :=
  match controller.manualStampViews[index]? with
  | some imgView => imgView.transform.a
  | none => 1

/-- A frame that a touch is about to move belongs to a stamp that has not
shrunk to nothing. -/
def MovesOnlyVisible (before : EditViewController) (event : Event) : Prop :=
  ∀ touches, event = .touchesMoved touches →
    EventRun.EveryStep moveStamps
      (fun controller touch _ =>
        ∀ imgView ∈ controller.manualStampViews,
          imgView.frame.contains touch.previousLocation = true →
            imgView.transform ≠ .uniform 0)
      before touches

/-- Slides and selections in automatic mode leave the manual stamps alone. -/
def AutomaticKeepsStamps (before : EditViewController) (event : Event)
    (after : EditViewController) : Prop :=
  before.mode = some 0 →
    ((∃ value, event = .slide value) ∨ ∃ row, event = .didSelectItemAt row) →
      after.manualStampViews = before.manualStampViews

section Steps

variable {canvas : Canvas} {before after controller : EditViewController}
  {editing : Editing} {event : Event} {index : ℕ}

theorem Represents.stampView (represents : Represents canvas before editing) :
    before.manualStampViews[index]? =
      editing.stamps[index]?.map Stamp.view := by
  rw [represents.manualStampViews, List.getElem?_map]

theorem Represents.centerAt (represents : Represents canvas before editing) :
    before.centerAt index = (editing.stamps[index]?.map Stamp.center).getD 0 := by
  rw [EditViewController.centerAt, represents.stampView]
  cases editing.stamps[index]? <;> rfl

theorem Represents.scaleAt (represents : Represents canvas before editing) :
    before.scaleAt index = (editing.stamps[index]?.map Stamp.factor).getD 1 := by
  rw [EditViewController.scaleAt, represents.stampView]
  cases editing.stamps[index]? <;> rfl

theorem Represents.touchDrag (represents : Represents canvas before editing)
    (touch : UITouch) :
    EditViewController.touchDrag index (before, touch) =
      (editing.stamps[index]?.map (Stamp.displacement touch)).getD 0 := by
  rw [EditViewController.touchDrag]
  simp only [represents.stampView]
  cases editing.stamps[index]? <;> rfl

theorem Edits.of_moveStamps {touch : UITouch} (edits : Edits canvas before)
    (taken : before.moveStamps touch = some after) : Edits canvas after := by
  obtain ⟨editing, represents⟩ := edits
  obtain ⟨next, moved, holds⟩ := represents.moveStamps touch
  rw [moved, Option.some.injEq] at taken
  exact ⟨_, taken ▸ holds⟩

theorem centerAt_moveStamps {touch : UITouch} (edits : Edits canvas before)
    (taken : before.moveStamps touch = some after) :
    after.centerAt index =
      before.centerAt index + touchDrag index (before, touch) := by
  obtain ⟨editing, represents⟩ := edits
  obtain ⟨next, moved, holds⟩ := represents.moveStamps touch
  rw [moved, Option.some.injEq] at taken
  subst taken
  rw [holds.centerAt, represents.centerAt, represents.touchDrag,
    Editing.dragAll, List.getElem?_map]
  cases editing.stamps[index]? with
  | none => simp
  | some stamp => rfl

theorem centerAt_touchesMoved {touches : List UITouch}
    (edits : Edits canvas before)
    (taken : before.touchesMoved touches = some after) :
    after.centerAt index =
      before.centerAt index +
        eventDrag index (before, .touchesMoved touches) := by
  apply EventRun.sum_added (EditViewController.centerAt index) _ edits _ _ taken
  · intro before touch after edits taken
    exact edits.of_moveStamps taken
  · intro before touch after edits taken
    exact centerAt_moveStamps edits taken

theorem scaleAt_touchesMoved {touches : List UITouch}
    (represents : Represents canvas before editing)
    (taken : before.touchesMoved touches = some after) :
    after.scaleAt index = before.scaleAt index := by
  obtain ⟨next, moved, holds⟩ := represents.touchesMoved touches
  rw [moved, Option.some.injEq] at taken
  subst taken
  rw [holds.scaleAt, represents.scaleAt, ← List.getElem?_map,
    ← List.getElem?_map]
  simp only [Editing.apply, Editing.foldl_dragAll_factors]

/-- What one event does to a stamp that is already there. -/
theorem stamp_step (represents : Represents canvas before editing)
    (present : index < before.manualStampViews.length)
    (taken : step before event = some after) :
    after.scaleAt index =
        (manualScale (before, event)).getD (before.scaleAt index) ∧
      after.centerAt index =
        before.centerAt index + eventDrag index (before, event) := by
  have mode := represents.mode
  obtain ⟨action, means, kept⟩ := represents.step_cases taken
  cases means with
  | touchesMoved touches =>
      exact ⟨scaleAt_touchesMoved represents taken,
        centerAt_touchesMoved ⟨editing, represents⟩ taken⟩
  | pushAutoBtn | pushManualBtn | putHige =>
      simp [kept.scaleAt, kept.centerAt, represents.scaleAt,
        represents.centerAt, Editing.apply, manualScale, eventDrag]
  | slide value =>
      rw [represents.manualStampViews, List.length_map] at present
      cases entered : editing.mode with
      | automatic =>
          rw [entered] at mode
          simp [kept.scaleAt, kept.centerAt, represents.scaleAt,
            represents.centerAt, Editing.apply, manualScale, eventDrag,
            entered, mode, EditMode.number]
      | manual =>
          rw [entered] at mode
          simp [kept.scaleAt, kept.centerAt, represents.centerAt,
            Editing.apply, manualScale, eventDrag, entered, mode,
            EditMode.number, present, Stamp.resize, mul_comm]
  | didSelectItemAt row found =>
      rw [represents.manualStampViews, List.length_map] at present
      cases entered : editing.mode with
      | automatic =>
          simp [kept.scaleAt, kept.centerAt, represents.scaleAt,
            represents.centerAt, Editing.apply, manualScale, eventDrag,
            entered]
      | manual =>
          simp [kept.scaleAt, kept.centerAt, represents.scaleAt,
            represents.centerAt, Editing.apply, manualScale, eventDrag,
            entered, List.getElem?_append_left present]

/-- A step adds no stamp, unless it is a selection in manual mode, which adds
one of natural size at the centre. -/
theorem length_step (represents : Represents canvas before editing)
    (taken : step before event = some after) :
    after.manualStampViews.length = before.manualStampViews.length ∨
      ∃ row, event = .didSelectItemAt row ∧ before.mode = some 1 ∧
        after.manualStampViews.length = before.manualStampViews.length + 1 ∧
        after.scaleAt before.manualStampViews.length = 1 ∧
        after.centerAt before.manualStampViews.length =
          before.imageView.center := by
  have mode := represents.mode
  obtain ⟨action, means, kept⟩ := represents.step_cases taken
  rw [kept.manualStampViews, represents.manualStampViews, List.length_map,
    List.length_map]
  cases means with
  | pushAutoBtn | pushManualBtn | putHige => exact .inl rfl
  | slide value =>
      cases entered : editing.mode <;> simp [Editing.apply, entered]
  | touchesMoved touches =>
      exact .inl (Editing.length_foldl_dragAll touches editing.stamps)
  | didSelectItemAt row found =>
      cases entered : editing.mode with
      | automatic => simp [Editing.apply, entered]
      | manual =>
          rw [entered] at mode
          refine .inr ⟨row, rfl, mode, ?_, ?_, ?_⟩
          · simp [Editing.apply, entered]
          · simp [kept.scaleAt, Editing.apply, entered, Stamp.new]
          · simp [kept.centerAt, Editing.apply, entered, Stamp.new,
              represents.center]

end Steps

/-! ## Runs -/

section Runs

variable {canvas : Canvas} {start before created final : EditViewController}
  {events : List Event} {index : ℕ}

/-- The controller edits the canvas and has a stamp at `index`. -/
def HasStamp (canvas : Canvas) (index : ℕ) (controller : EditViewController) :
    Prop :=
  Edits canvas controller ∧ index < controller.manualStampViews.length

theorem HasStamp.of_step {before after : EditViewController} {event : Event}
    (stamp : HasStamp canvas index before)
    (taken : step before event = some after) :
    HasStamp canvas index after := by
  obtain ⟨edits, present⟩ := stamp
  refine ⟨edits.of_step taken, ?_⟩
  obtain ⟨editing, represents⟩ := edits
  rcases length_step represents taken with same | ⟨_, _, _, more, _⟩
  · rw [same]
    exact present
  · rw [more]
    exact Nat.lt_succ_of_lt present

theorem stamp_run (stamp : HasStamp canvas index start)
    (completed : EventRun.run step start events = some final) :
    final.scaleAt index =
        ((EventRun.visits step start events).filterMap manualScale).getLastD
          (start.scaleAt index) ∧
      final.centerAt index =
        start.centerAt index +
          ((EventRun.visits step start events).map (eventDrag index)).sum := by
  have preserved (before : EditViewController) (event : Event)
      (after : EditViewController) (stamp : HasStamp canvas index before)
      (taken : step before event = some after) :
      HasStamp canvas index after :=
    stamp.of_step taken
  constructor
  · apply EventRun.last_write (scaleAt index) manualScale stamp preserved _
      completed
    intro before event after stamp taken
    rcases stamp with ⟨⟨editing, represents⟩, present⟩
    exact (stamp_step represents present taken).1
  · apply EventRun.sum_added (centerAt index) _ stamp preserved _ completed
    intro before event after stamp taken
    rcases stamp with ⟨⟨editing, represents⟩, present⟩
    exact (stamp_step represents present taken).2

/-- The selection at which the stamp at `index` was added. -/
def AddedBy (start : EditViewController) (events : List Event) (index : ℕ)
    (before created : EditViewController) (later : List Event) : Prop :=
  ∃ earlier row,
    events = earlier ++ .didSelectItemAt row :: later ∧
      EventRun.run step start earlier = some before ∧
        before.mode = some 1 ∧
          before.manualStampViews.length = index ∧
            step before (.didSelectItemAt row) = some created

/-- Every stamp that was not there at the start was added by a selection in
manual mode. -/
theorem exists_addedBy (edits : Edits canvas start)
    (fresh : start.manualStampViews.length ≤ index)
    (completed : EventRun.run step start events = some final)
    (present : index < final.manualStampViews.length) :
    ∃ before created later,
      AddedBy start events index before created later ∧
        HasStamp canvas index created ∧
          created.scaleAt index = 1 ∧
            created.centerAt index = before.imageView.center ∧
              before.imageView.center = canvas.center ∧
                EventRun.run step created later = some final := by
  induction events generalizing start with
  | nil =>
      rw [EventRun.run_nil, Option.some.injEq] at completed
      subst completed
      exact absurd present (not_lt.mpr fresh)
  | cons event events induction =>
      obtain ⟨next, taken, rest⟩ := EventRun.run_cons_eq_some.mp completed
      have kept := edits.of_step taken
      by_cases later : next.manualStampViews.length ≤ index
      · obtain ⟨before, created, remaining, ⟨earlier, row, rfl, reached,
          manual, position, selected⟩, found⟩ := induction kept later rest
        refine ⟨before, created, remaining, ⟨event :: earlier, row, rfl, ?_,
          manual, position, selected⟩, found⟩
        exact EventRun.run_cons_eq_some.mpr ⟨next, taken, reached⟩
      · obtain ⟨editing, represents⟩ := edits
        rcases length_step represents taken with
          same | ⟨row, rfl, manual, more, scale, place⟩
        · rw [same] at later
          exact absurd fresh later
        · have position : start.manualStampViews.length = index := by omega
          subst position
          exact ⟨start, next, events,
            ⟨[], row, rfl, rfl, manual, rfl, taken⟩,
            ⟨kept, by omega⟩, scale, place, represents.center, rest⟩

private theorem view_of_stamp {imgView : UIImageView}
    (edits : Edits canvas final)
    (found : final.manualStampViews[index]? = some imgView) :
    imgView.bounds.size = { width := 50, height := 50 } ∧
      imgView.transform = .uniform (final.scaleAt index) ∧
        imgView.center = final.centerAt index := by
  obtain ⟨editing, represents⟩ := edits
  have view := represents.stampView.symm.trans found
  obtain ⟨stamp, there, rfl⟩ := Option.map_eq_some_iff.mp view
  rw [represents.scaleAt, represents.centerAt, there]
  exact ⟨rfl, rfl, rfl⟩

private theorem Edits.transform_ne_zero {imgView : UIImageView}
    {point : CGPoint} (edits : Edits canvas start)
    (member : imgView ∈ start.manualStampViews)
    (inside : imgView.frame.contains point = true) :
    imgView.transform ≠ .uniform 0 := by
  obtain ⟨editing, represents⟩ := edits
  rw [represents.manualStampViews] at member
  obtain ⟨stamp, _, rfl⟩ := List.mem_map.mp member
  have visible := Stamp.factor_ne_zero_of_contains inside
  intro collapsed
  exact visible (AffineTransform.uniform_inj.mp collapsed)

theorem Edits.movesOnlyVisible (edits : Edits canvas start) (event : Event) :
    MovesOnlyVisible start event := by
  intro touches same
  subst same
  have always : EventRun.Always moveStamps (Edits canvas) start touches :=
    EventRun.always_of_invariant edits fun _ _ _ edits taken =>
      edits.of_moveStamps taken
  refine EventRun.everyStep_of_always ?_ always EventRun.disciplined_true
  intro controller touch after edits _ _ imgView member inside
  exact edits.transform_ne_zero member inside

theorem Edits.automaticKeepsStamps {event : Event}
    {after : EditViewController} (edits : Edits canvas start)
    (taken : step start event = some after) :
    AutomaticKeepsStamps start event after := by
  obtain ⟨editing, represents⟩ := edits
  obtain ⟨action, means, kept⟩ := represents.step_cases taken
  intro automatic kind
  rw [represents.mode, EditMode.some_number_eq_zero_iff] at automatic
  rw [kept.manualStampViews, represents.manualStampViews]
  rcases kind with ⟨value, rfl⟩ | ⟨row, rfl⟩
  · cases means
    simp [Editing.apply, automatic]
  · cases means
    simp [Editing.apply, automatic]

/-- After every run, every stamp has its natural bounds, the scale that was
last sent in manual mode since it was added, and the place at which it was
added moved by exactly the touches that started inside its frame.  Frames are
only assigned to stamps that have not shrunk to nothing, and slides and
selections in automatic mode change no stamp. -/
theorem manual_stamps {outlets : EditOutlets} {base : UIImage}
    {assets : HigeAssets} {detector : VNFaceLandmarksDetector}
    (loaded :
      (instantiate outlets (some base)).viewDidLoad assets detector =
        some start)
    (occurs : ∀ event ∈ events, event.Occurs) :
    ∃ final, EventRun.run step start events = some final ∧
      (∀ index imgView, final.manualStampViews[index]? = some imgView →
        ∃ before created later,
          AddedBy start events index before created later ∧
          imgView.bounds.size = { width := 50, height := 50 } ∧
          imgView.transform =
            .uniform (((EventRun.visits step created later).filterMap
              manualScale).getLastD 1) ∧
          created.centerAt index = outlets.imageView.center ∧
          imgView.center =
            created.centerAt index +
              ((EventRun.visits step created later).map
                (eventDrag index)).sum) ∧
      EventRun.EveryStep step
        (fun before event after =>
          MovesOnlyVisible before event ∧
            AutomaticKeepsStamps before event after)
        start events := by
  obtain ⟨found, _, represents⟩ := represents_viewDidLoad loaded
  have edits : Edits (canvasFor outlets base assets) start :=
    ⟨_, represents⟩
  obtain ⟨final, completed, finalEdits⟩ :=
    (step_refines (canvasFor outlets base assets)).completes represents
      fun event member => occurs_translates (occurs event member)
  refine ⟨final, completed, ?_, ?_⟩
  · intro index imgView there
    have fresh : start.manualStampViews.length ≤ index := by
      rw [represents.manualStampViews]
      exact Nat.zero_le index
    have present : index < final.manualStampViews.length :=
      (List.getElem?_eq_some_iff.mp there).1
    obtain ⟨before, created, later, added, stamp, scale, place, center,
      rest⟩ := exists_addedBy edits fresh completed present
    obtain ⟨bounds, transform, position⟩ := view_of_stamp finalEdits there
    obtain ⟨scaled, moved⟩ := stamp_run stamp rest
    refine ⟨before, created, later, added, bounds, ?_, place.trans center, ?_⟩
    · rw [transform, scaled, scale]
    · rw [position, moved]
  · have always : EventRun.Always step
        (Edits (canvasFor outlets base assets)) start events :=
      EventRun.always_of_invariant edits fun _ _ _ edits taken =>
        edits.of_step taken
    refine EventRun.everyStep_of_always ?_ always EventRun.disciplined_true
    intro before event after edits _ taken
    exact ⟨edits.movesOnlyVisible event, edits.automaticKeepsStamps taken⟩

end Runs

/-- The user adds a stamp, drags it, shrinks it to nothing and drags again. -/
def dragAndShrink : List Event :=
  [.pushManualBtn, .didSelectItemAt 0,
    .touchesMoved [{ previousLocation := { x := 187, y := 275 }
                     location := { x := 200, y := 300 } }],
    .slide .lowest,
    .touchesMoved [{ previousLocation := { x := 200, y := 300 }
                     location := { x := 187, y := 275 } }]]

theorem dragAndShrink_occurs : ∀ event ∈ dragAndShrink, event.Occurs := by
  simp [dragAndShrink, Event.Occurs]

theorem manual_stamps_dragAndShrink :
    ∃ final, EventRun.run step blank dragAndShrink = some final ∧
      (∀ index imgView, final.manualStampViews[index]? = some imgView →
        ∃ before created later,
          AddedBy blank dragAndShrink index before created later ∧
          imgView.bounds.size = { width := 50, height := 50 } ∧
          imgView.transform =
            .uniform (((EventRun.visits step created later).filterMap
              manualScale).getLastD 1) ∧
          created.centerAt index = EditOutlets.storyboard.imageView.center ∧
          imgView.center =
            created.centerAt index +
              ((EventRun.visits step created later).map
                (eventDrag index)).sum) ∧
      EventRun.EveryStep step
        (fun before event after =>
          MovesOnlyVisible before event ∧
            AutomaticKeepsStamps before event after)
        blank dragAndShrink :=
  manual_stamps blank_loaded dragAndShrink_occurs

end EditViewController

end HigeMaster
