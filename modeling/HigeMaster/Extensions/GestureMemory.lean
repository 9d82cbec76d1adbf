import HigeMaster.EventRun.Visits
import HigeMaster.Extensions.GestureUIImageView
import HigeMaster.FloorWalk

/-!
# What a gesture view remembers

The recognizers of a gesture view call it in any order, also in the middle of
each other's gestures, and its gestures can be switched off and on.  Only
finished pans and pinches since the last tap are remembered.  The pans add up;
the pinches add up too, but never to less than the natural scale.
-/

namespace HigeMaster

open Geometry

inductive GestureEvent where
  | handleGesture (gesture : UIGestureRecognizer)
  | setGestureEnabled (enabled : Bool)

def UIGestureRecognizerState.isFinished : UIGestureRecognizerState → Bool
  | .ended | .cancelled => true
  | .possible | .began | .changed | .failed => false

/-- What a call leaves behind. -/
inductive Measured where
  | tapped
  | panned (translation : CGPoint)
  | pinched (scale : CGFloat)

namespace Measured

def isTapped : Measured → Bool
  | .tapped => true
  | .panned _ | .pinched _ => false

def translation : Measured → Option CGPoint
  | .panned translation => some translation
  | .tapped | .pinched _ => none

/-- How much the scale grows. -/
def growth : Measured → Option CGFloat
  | .pinched scale => some (scale - 1)
  | .tapped | .panned _ => none

/-- An offset, and a growth above the natural scale, after what was
measured. -/
def effect (memory : CGPoint × CGFloat) : Measured → CGPoint × CGFloat
  | .tapped => (0, 0)
  | .panned translation => (memory.1 + translation, memory.2)
  | .pinched scale => (memory.1, FloorWalk.advance memory.2 (scale - 1))

end Measured

namespace GestureUIImageView

def respond (view : GestureUIImageView) :
    GestureEvent → Option GestureUIImageView
  | .handleGesture gesture => some (view.handleGesture gesture)
  | .setGestureEnabled enabled => some { view with gestureEnabled := enabled }

/-- What a call leaves behind in an enabled view. -/
def measured : UIGestureRecognizer → Option Measured
  | .tap _ => some .tapped
  | .pan gesture =>
      if gesture.state.isFinished then
        gesture.translationInView.map .panned
      else
        none
  | .pinch gesture =>
      if gesture.state.isFinished then some (.pinched gesture.scale) else none
  | .longPress _ => none

def remembers : GestureUIImageView × GestureEvent → Option Measured
  | (view, .handleGesture gesture) =>
      if view.gestureEnabled then measured gesture else none
  | (_, .setGestureEnabled _) => none

/-- The offset and how much the scale exceeds the natural one. -/
def memory (view : GestureUIImageView) : CGPoint × CGFloat :=
  (view.beforePoint, view.currentScale - 1)

/-- The effect of what is left behind, if anything. -/
def remember (memory : CGPoint × CGFloat) :
    Option Measured → CGPoint × CGFloat
  | some measured => measured.effect memory
  | none => memory

/-! ## One call -/

variable {view : GestureUIImageView}

theorem handleGesture_disabled (disabled : view.gestureEnabled = false)
    (gesture : UIGestureRecognizer) : view.handleGesture gesture = view := by
  cases gesture with
  | tap gesture => simp [handleGesture, tap, disabled]
  | pinch gesture => simp [handleGesture, pinch, disabled]
  | pan gesture => simp [handleGesture, pan, disabled]
  | longPress gesture => rfl

theorem memory_handleGesture (enabled : view.gestureEnabled = true)
    (enlarged : 1 ≤ view.currentScale) (gesture : UIGestureRecognizer) :
    (view.handleGesture gesture).memory =
      remember view.memory (measured gesture) := by
  cases gesture with
  | tap gesture =>
      rw [handleGesture, tap, if_pos enabled, memory, sub_self]
      rfl
  | longPress gesture => rfl
  | pan gesture =>
      obtain ⟨state, translationInView⟩ := gesture
      rw [handleGesture, pan, if_pos enabled, measured]
      cases translationInView with
      | none => cases state <;> rfl
      | some translation =>
          simp only [panTranslation_eq]
          cases state <;> rfl
  | pinch gesture =>
      obtain ⟨state, scale⟩ := gesture
      rw [handleGesture, pinch, if_pos enabled, measured]
      simp only [pinchScale_eq enlarged]
      have grows : view.currentScale + (scale - 1) - 1 =
          view.currentScale - 1 + (scale - 1) := by
        ring
      have finishes :
          (if view.currentScale + (scale - 1) ≤ 1 then
              { view with currentScale := 1, transform := .identity }
            else
              { view with
                currentScale := view.currentScale + (scale - 1) }).memory =
            (view.beforePoint,
              FloorWalk.advance (view.currentScale - 1) (scale - 1)) := by
        rw [FloorWalk.advance, ← grows]
        by_cases shrinks : view.currentScale + (scale - 1) ≤ 1
        · rw [if_pos shrinks, max_eq_right (sub_nonpos.mpr shrinks), memory,
            sub_self]
        · rw [if_neg shrinks,
            max_eq_left (sub_nonneg.mpr (not_le.mp shrinks).le), memory]
      cases state with
      | possible | began | changed | failed => rfl
      | ended | cancelled => exact finishes

theorem memory_respond {after : GestureUIImageView} {event : GestureEvent}
    (enlarged : 1 ≤ view.currentScale)
    (taken : view.respond event = some after) :
    after.memory = remember view.memory (remembers (view, event)) := by
  cases event with
  | setGestureEnabled enabled =>
      rw [respond, Option.some_inj] at taken
      subst taken
      rfl
  | handleGesture gesture =>
      rw [respond, Option.some_inj] at taken
      subst taken
      rw [remembers]
      by_cases enabled : view.gestureEnabled = true
      · rw [if_pos enabled]
        exact memory_handleGesture enabled enlarged gesture
      · rw [if_neg enabled,
          handleGesture_disabled (Bool.eq_false_iff.mpr enabled)]
        rfl

/-- The view is never remembered smaller than it is. -/
theorem enlarged_respond {after : GestureUIImageView} {event : GestureEvent}
    (enlarged : 1 ≤ view.currentScale)
    (taken : view.respond event = some after) : 1 ≤ after.currentScale := by
  have same := congrArg Prod.snd (memory_respond enlarged taken)
  have nonneg : 0 ≤ view.memory.2 := sub_nonneg.mpr enlarged
  apply sub_nonneg.mp
  change 0 ≤ after.memory.2
  rw [same]
  generalize remembers (view, event) = left
  cases left with
  | none => exact nonneg
  | some what =>
      cases what with
      | tapped => exact le_refl 0
      | panned translation => exact nonneg
      | pinched scale => exact le_max_right _ _

/-! ## Runs -/

private theorem exists_run (start : GestureUIImageView)
    (events : List GestureEvent) :
    ∃ final, EventRun.run respond start events = some final := by
  induction events generalizing start with
  | nil => exact ⟨start, rfl⟩
  | cons event events induction =>
      have taken : ∃ after, start.respond event = some after := by
        cases event <;> exact ⟨_, rfl⟩
      obtain ⟨after, taken⟩ := taken
      obtain ⟨final, completed⟩ := induction after
      exact ⟨final, EventRun.run_cons_eq_some.mpr ⟨after, taken, completed⟩⟩

/-- What was left behind since the last tap. -/
def sinceTap (start : GestureUIImageView) (events : List GestureEvent) :
    List Measured :=
  FloorWalk.sinceFresh Measured.isTapped
    ((EventRun.visits respond start events).filterMap remembers)

/-- Pans and pinches add up without regard to each other. -/
private theorem foldl_effect {measurements : List Measured}
    (untapped : ∀ measured ∈ measurements, measured.isTapped = false)
    (offset : CGPoint) (growth : CGFloat) :
    measurements.foldl Measured.effect (offset, growth) =
      (offset + (measurements.filterMap Measured.translation).sum,
        (measurements.filterMap Measured.growth).foldl FloorWalk.advance
          growth) := by
  induction measurements generalizing offset growth with
  | nil => simp
  | cons measured measurements induction =>
      rw [List.forall_mem_cons] at untapped
      rw [List.foldl_cons]
      cases measured with
      | tapped => cases untapped.1
      | panned translation =>
          rw [Measured.effect, induction untapped.2]
          simp [List.filterMap_cons, Measured.translation, Measured.growth,
            add_assoc]
      | pinched scale =>
          rw [Measured.effect, induction untapped.2]
          simp [List.filterMap_cons, Measured.translation, Measured.growth]

private theorem untapped_sinceTap (start : GestureUIImageView)
    (events : List GestureEvent) :
    ∀ measured ∈ sinceTap start events, measured.isTapped = false := by
  intro measured member
  have untapped := List.mem_rtakeWhile_imp member
  rwa [Bool.not_eq_true'] at untapped

/-- After any events the offset is the sum of the pans since the last tap, and
the scale exceeds the natural one by what the pinches since then have added at
best, counted from any time on. -/
theorem memory_of_run (rect : CGRect) (events : List GestureEvent) :
    ∃ final, EventRun.run respond (ofFrame rect) events = some final ∧
      final.beforePoint =
        ((sinceTap (ofFrame rect) events).filterMap
          Measured.translation).sum ∧
      IsGreatest
        {growth | ∃ last,
          last <:+ (sinceTap (ofFrame rect) events).filterMap
            Measured.growth ∧ growth = last.sum}
        (final.currentScale - 1) := by
  have initial : 1 ≤ (ofFrame rect).currentScale := le_refl 1
  obtain ⟨final, completed⟩ := exists_run (ofFrame rect) events
  have folded : final.memory =
      (EventRun.visits respond (ofFrame rect) events).foldl
        (fun memory visit => remember memory (remembers visit))
        (ofFrame rect).memory :=
    EventRun.observe_run
      (I := fun view : GestureUIImageView => 1 ≤ view.currentScale) memory _
      initial (fun _ _ _ enlarged taken => enlarged_respond enlarged taken)
      (fun _ _ _ enlarged taken => memory_respond enlarged taken) completed
  have start : (ofFrame rect).memory = (0, 0) := by
    rw [memory, ofFrame, sub_self]
    rfl
  have counted : final.memory =
      (sinceTap (ofFrame rect) events).foldl Measured.effect (0, 0) := by
    rw [sinceTap, ← FloorWalk.foldl_sinceFresh, List.foldl_filterMap, folded,
      start]
    · apply List.foldl_ext
      intro memory visit _
      cases remembers visit <;> rfl
    · intro state measured tapped
      cases measured with
      | tapped => rfl
      | panned translation => cases tapped
      | pinched scale => cases tapped
  rw [foldl_effect (untapped_sinceTap _ _), zero_add] at counted
  refine ⟨final, completed, congrArg Prod.fst counted, ?_⟩
  have height : final.currentScale - 1 =
      FloorWalk.walk ((sinceTap (ofFrame rect) events).filterMap
        Measured.growth) :=
    congrArg Prod.snd counted
  rw [height]
  exact FloorWalk.isGreatest_walk _

/-! ## What is shown -/

/-- A pinch measures how many times the fingers are as far apart as when it
began. -/
def PositiveScale : GestureEvent → Prop
  | .handleGesture (.pinch gesture) => 0 < gesture.scale
  | .handleGesture (.tap _) | .handleGesture (.pan _)
  | .handleGesture (.longPress _) | .setGestureEnabled _ => True

/-- The view is the original one, enlarged or made smaller, and moved. -/
structure Shows (original view : GestureUIImageView) : Prop where
  enlarged : 1 ≤ view.currentScale
  placed : ∃ scale > 0, ∃ offset, view.transform = .placing scale offset
  untouched :
    { view.toUIImageView with transform := original.transform } =
      original.toUIImageView

theorem shows_ofFrame (rect : CGRect) :
    Shows (ofFrame rect) (ofFrame rect) where
  enlarged := le_refl 1
  placed := ⟨1, one_pos, 0, AffineTransform.identity_eq_placing⟩
  untouched := rfl

theorem pinchScale_pos (enlarged : 1 ≤ view.currentScale) {scale : CGFloat}
    (positive : 0 < scale) : 0 < view.pinchScale scale := by
  rw [pinchScale_eq enlarged]
  linarith

theorem toUIImageView_handleGesture (enlarged : 1 ≤ view.currentScale)
    {gesture : UIGestureRecognizer}
    (positive : PositiveScale (.handleGesture gesture)) :
    (view.handleGesture gesture).toUIImageView = view.toUIImageView ∨
      ∃ scale > 0, ∃ offset, (view.handleGesture gesture).toUIImageView =
        { view.toUIImageView with transform := .placing scale offset } := by
  by_cases enabled : view.gestureEnabled = true
  · have natural : (0 : CGFloat) < view.currentScale :=
      one_pos.trans_le enlarged
    have back : (.identity : AffineTransform CGFloat) = .placing 1 0 :=
      AffineTransform.identity_eq_placing
    cases gesture with
    | tap gesture =>
        rw [handleGesture, tap, if_pos enabled, back]
        exact .inr ⟨1, one_pos, 0, rfl⟩
    | longPress gesture => exact .inl rfl
    | pan gesture =>
        obtain ⟨state, translationInView⟩ := gesture
        rw [handleGesture, pan, if_pos enabled]
        cases translationInView with
        | none => exact .inl rfl
        | some translation =>
            cases state with
            | changed =>
                exact .inr ⟨view.currentScale, natural,
                  view.panTranslation translation, rfl⟩
            | possible | began | ended | cancelled | failed => exact .inl rfl
    | pinch gesture =>
        obtain ⟨state, scale⟩ := gesture
        have shown : 0 < view.pinchScale scale :=
          pinchScale_pos enlarged positive
        rw [handleGesture, pinch, if_pos enabled, back]
        by_cases shrinks : view.pinchScale scale ≤ 1
        · simp only [if_pos shrinks]
          cases state with
          | changed =>
              exact .inr ⟨view.pinchScale scale, shown, view.beforePoint, rfl⟩
          | ended | cancelled => exact .inr ⟨1, one_pos, 0, rfl⟩
          | possible | began | failed => exact .inl rfl
        · simp only [if_neg shrinks]
          cases state with
          | changed =>
              exact .inr ⟨view.pinchScale scale, shown, view.beforePoint, rfl⟩
          | possible | began | ended | cancelled | failed => exact .inl rfl
  · rw [handleGesture_disabled (Bool.eq_false_iff.mpr enabled)]
    exact .inl rfl

theorem Shows.respond {original after : GestureUIImageView}
    {event : GestureEvent} (shows : Shows original view)
    (positive : PositiveScale event)
    (taken : view.respond event = some after) : Shows original after := by
  have enlarged := enlarged_respond shows.enlarged taken
  cases event with
  | setGestureEnabled enabled =>
      rw [GestureUIImageView.respond, Option.some_inj] at taken
      subst taken
      exact { shows with }
  | handleGesture gesture =>
      rw [GestureUIImageView.respond, Option.some_inj] at taken
      subst taken
      rcases toUIImageView_handleGesture shows.enlarged positive with
        same | ⟨scale, shown, offset, placed⟩
      · refine { enlarged := enlarged, placed := ?_, untouched := ?_ }
        · rw [same]
          exact shows.placed
        · rw [same]
          exact shows.untouched
      · refine { enlarged := enlarged, placed := ?_, untouched := ?_ }
        · exact ⟨scale, shown, offset, by rw [placed]⟩
        · rw [placed]
          exact shows.untouched

/-- Whatever is pinched and panned, the view shows the original one at a
positive scale, so it neither vanishes nor turns over. -/
theorem always_shows (rect : CGRect) {events : List GestureEvent}
    (positive : ∀ event ∈ events, PositiveScale event) :
    EventRun.Always GestureUIImageView.respond (Shows (ofFrame rect))
      (ofFrame rect) events := by
  have disciplined : EventRun.Disciplined GestureUIImageView.respond
      (fun _ event => PositiveScale event) (ofFrame rect) events := by
    intro handled event rest equality before _
    apply positive
    rw [equality]
    exact List.mem_append_right handled List.mem_cons_self
  apply EventRun.always_of_disciplined (shows_ofFrame rect) _ disciplined
  intro before event after shows possible taken
  exact shows.respond possible taken

/-- A pinch begins before a pan has ended. -/
def pinchDuringPan : List GestureEvent :=
  [.handleGesture
      (.pan { state := .changed, translationInView := some ⟨10, 0⟩ }),
    .handleGesture (.pinch { state := .changed, scale := 1 / 2 }),
    .handleGesture
      (.pan { state := .ended, translationInView := some ⟨20, 0⟩ }),
    .handleGesture (.pinch { state := .ended, scale := 3 })]

theorem always_shows_pinchDuringPan :
    EventRun.Always GestureUIImageView.respond
      (Shows (ofFrame ⟨⟨0, 0⟩, ⟨50, 50⟩⟩)) (ofFrame ⟨⟨0, 0⟩, ⟨50, 50⟩⟩)
      pinchDuringPan := by
  have positive : ∀ event ∈ pinchDuringPan, PositiveScale event := by
    simp [pinchDuringPan, PositiveScale]
  exact always_shows _ positive

end GestureUIImageView

end HigeMaster
