import HigeMaster.EventRun
import Mathlib.Algebra.BigOperators.Group.List.Basic

/-!
# What a run visits

A visit pairs an event with the state in which it arrives.  An observation of
the state that every step updates from the visit alone is, at the end of a
run, a fold over the visits: the last value written, everything appended, or
the sum of what was added.
-/

namespace EventRun

variable {σ ε : Type*}

/-- The events of a run, each with the state in which it arrives. -/
def visits (step : σ → ε → Option σ) : σ → List ε → List (σ × ε)
  | _, [] => []
  | start, event :: events =>
      (start, event) ::
        match step start event with
        | some next => visits step next events
        | none => []

section Visits

variable {step : σ → ε → Option σ} {start final : σ} {events : List ε}
  {I : σ → Prop} {β γ : Type*}

@[simp] theorem visits_nil : visits step start [] = [] :=
  rfl

theorem visits_cons {next : σ} {event : ε}
    (taken : step start event = some next) :
    visits step start (event :: events) =
      (start, event) :: visits step next events := by
  rw [visits, taken]

theorem visits_map_snd (completed : run step start events = some final) :
    (visits step start events).map Prod.snd = events := by
  induction events generalizing start with
  | nil => rfl
  | cons event events induction =>
      obtain ⟨next, taken, completed⟩ := run_cons_eq_some.mp completed
      rw [visits_cons taken, List.map_cons, induction completed]

/-- What every step does to an observation, a run does to it visit by
visit. -/
theorem observe_run (observe : σ → β) (effect : β → σ × ε → β)
    (initial : I start)
    (preserved : ∀ before event after, I before →
      step before event = some after → I after)
    (observed : ∀ before event after, I before →
      step before event = some after →
        observe after = effect (observe before) (before, event))
    (completed : run step start events = some final) :
    observe final =
      (visits step start events).foldl effect (observe start) := by
  induction events generalizing start with
  | nil =>
      simp only [run_nil, Option.some.injEq] at completed
      rw [completed, visits_nil, List.foldl_nil]
  | cons event events induction =>
      obtain ⟨next, taken, completed⟩ := run_cons_eq_some.mp completed
      rw [visits_cons taken, List.foldl_cons,
        ← observed start event next initial taken]
      exact induction (preserved start event next initial taken) completed

private theorem foldl_getD (writes : γ → Option β) (visited : List γ)
    (value : β) :
    visited.foldl (fun current visit => (writes visit).getD current) value =
      (visited.filterMap writes).getLastD value := by
  induction visited generalizing value with
  | nil => rfl
  | cons visit visited induction =>
      rw [List.foldl_cons, induction, List.filterMap_cons]
      cases writes visit with
      | none => rfl
      | some written => rw [List.getLastD_cons, Option.getD_some]

/-- A variable that some steps write holds what was written last. -/
theorem last_write (observe : σ → β) (writes : σ × ε → Option β)
    (initial : I start)
    (preserved : ∀ before event after, I before →
      step before event = some after → I after)
    (written : ∀ before event after, I before →
      step before event = some after →
        observe after = (writes (before, event)).getD (observe before))
    (completed : run step start events = some final) :
    observe final =
      ((visits step start events).filterMap writes).getLastD
        (observe start) := by
  rw [← foldl_getD]
  exact observe_run observe _ initial preserved written completed

theorem all_appended (observe : σ → List β) (appends : σ × ε → List β)
    (initial : I start)
    (preserved : ∀ before event after, I before →
      step before event = some after → I after)
    (appended : ∀ before event after, I before →
      step before event = some after →
        observe after = observe before ++ appends (before, event))
    (completed : run step start events = some final) :
    observe final =
      observe start ++ (visits step start events).flatMap appends := by
  have folded : observe final =
      (visits step start events).foldl
        (fun list visit => list ++ appends visit) (observe start) :=
    observe_run observe _ initial preserved appended completed
  rw [folded]
  generalize observe start = value
  induction visits step start events generalizing value with
  | nil => simp
  | cons visit visited induction =>
      rw [List.foldl_cons, induction, List.flatMap_cons, List.append_assoc]

theorem sum_added {M : Type*} [AddMonoid M] (observe : σ → M)
    (added : σ × ε → M) (initial : I start)
    (preserved : ∀ before event after, I before →
      step before event = some after → I after)
    (adds : ∀ before event after, I before →
      step before event = some after →
        observe after = observe before + added (before, event))
    (completed : run step start events = some final) :
    observe final =
      observe start + ((visits step start events).map added).sum := by
  have folded : observe final =
      (visits step start events).foldl
        (fun total visit => total + added visit) (observe start) :=
    observe_run observe _ initial preserved adds completed
  rw [folded]
  generalize observe start = value
  induction visits step start events generalizing value with
  | nil => simp
  | cons visit visited induction =>
      rw [List.foldl_cons, induction, List.map_cons, List.sum_cons, add_assoc]

/-- The events of a run that are visible where they arrive. -/
def visibleEvents (step : σ → ε → Option σ) (visible : σ × ε → Bool)
    (start : σ) (events : List ε) : List ε :=
  ((visits step start events).filter visible).map Prod.snd

/-- If invisible steps keep a relation to another state, and visible steps can
be matched from there, then a run without its invisible events keeps the
relation. -/
theorem run_visibleEvents {visible : σ × ε → Bool} {R : σ → σ → Prop}
    (skipped : ∀ before other event after, R before other →
      visible (before, event) = false → step before event = some after →
        R after other)
    (matched : ∀ before other event after, R before other →
      visible (before, event) = true → step before event = some after →
        ∃ next, step other event = some next ∧ R after next)
    {other : σ} (related : R start other)
    (completed : run step start events = some final) :
    ∃ otherFinal,
      run step other (visibleEvents step visible start events) =
          some otherFinal ∧
        R final otherFinal := by
  induction events generalizing start other with
  | nil =>
      simp only [run_nil, Option.some.injEq] at completed
      subst completed
      exact ⟨other, rfl, related⟩
  | cons event events induction =>
      obtain ⟨after, taken, completed⟩ := run_cons_eq_some.mp completed
      rw [visibleEvents, visits_cons taken]
      by_cases shown : visible (start, event) = true
      · obtain ⟨next, follows, kept⟩ :=
          matched start other event after related shown taken
        obtain ⟨otherFinal, reached, holds⟩ := induction kept completed
        refine ⟨otherFinal, ?_, holds⟩
        rw [List.filter_cons_of_pos shown, List.map_cons]
        exact run_cons_eq_some.mpr ⟨next, follows, reached⟩
      · rw [List.filter_cons_of_neg shown]
        have hidden : visible (start, event) = false :=
          Bool.eq_false_iff.mpr shown
        exact induction
          (skipped start other event after related hidden taken) completed

end Visits

end EventRun
