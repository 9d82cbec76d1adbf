import HigeMaster.EventRun

/-!
# Refinement of a total machine

The events of a partial machine translate to actions of a total one.  If every
step fails exactly when its event does not translate, and otherwise does what
the translation says, then a run whose events all translate is completed, and
it refines the run of the total machine.
-/

namespace EventRun

variable {σ τ ε : Type*}

section Refinement

variable {α : Type*} {step : σ → ε → Option σ} {R : σ → τ → Prop}
  {translate : ε → Option α} {apply : τ → α → τ}
  {start : σ} {abstractStart : τ} {events : List ε}

/-- A step agrees with the abstract machine: it fails if its event does not
translate, and otherwise does what the translation says. -/
def Refines (step : σ → ε → Option σ) (R : σ → τ → Prop)
    (translate : ε → Option α) (apply : τ → α → τ) : Prop :=
  ∀ concrete abstraction event, R concrete abstraction →
    match translate event with
    | none => step concrete event = none
    | some action =>
        ∃ next, step concrete event = some next ∧
          R next (apply abstraction action)

theorem Refines.step_eq_some {concrete next : σ} {abstraction : τ} {event : ε}
    (refines : Refines step R translate apply)
    (represents : R concrete abstraction)
    (taken : step concrete event = some next) :
    ∃ action, translate event = some action ∧
      R next (apply abstraction action) := by
  have agrees := refines concrete abstraction event represents
  cases translated : translate event with
  | none =>
      rw [translated] at agrees
      rw [agrees] at taken
      cases taken
  | some action =>
      rw [translated] at agrees
      obtain ⟨other, otherTaken, kept⟩ := agrees
      rw [taken, Option.some.injEq] at otherTaken
      exact ⟨action, rfl, otherTaken ▸ kept⟩

theorem Refines.step_succeeds {concrete : σ} {abstraction : τ} {event : ε}
    {action : α} (refines : Refines step R translate apply)
    (represents : R concrete abstraction)
    (translated : translate event = some action) :
    ∃ next, step concrete event = some next ∧
      R next (apply abstraction action) := by
  have agrees := refines concrete abstraction event represents
  rw [translated] at agrees
  exact agrees

theorem Refines.preserves (refines : Refines step R translate apply) :
    ∀ before event after, (∃ abstraction, R before abstraction) →
      step before event = some after → ∃ abstraction, R after abstraction := by
  intro before event after represented taken
  rcases represented with ⟨abstraction, represents⟩
  obtain ⟨action, _, kept⟩ := refines.step_eq_some represents taken
  exact ⟨apply abstraction action, kept⟩

theorem Refines.completes (refines : Refines step R translate apply)
    (represents : R start abstractStart)
    (translates : ∀ event ∈ events, ∃ action, translate event = some action) :
    ∃ final, EventRun.run step start events = some final ∧
      ∃ abstraction, R final abstraction := by
  induction events generalizing start abstractStart with
  | nil => exact ⟨start, rfl, abstractStart, represents⟩
  | cons event events induction =>
      obtain ⟨action, first⟩ := translates event List.mem_cons_self
      obtain ⟨next, taken, kept⟩ := refines.step_succeeds represents first
      obtain ⟨final, completed, holds⟩ := induction kept fun other member =>
        translates other (List.mem_cons_of_mem event member)
      exact ⟨final, run_cons_eq_some.mpr ⟨next, taken, completed⟩, holds⟩

theorem Refines.translates {final : σ}
    (refines : Refines step R translate apply)
    (represents : R start abstractStart)
    (completed : EventRun.run step start events = some final) :
    ∀ event ∈ events, ∃ action, translate event = some action := by
  induction events generalizing start abstractStart with
  | nil =>
      intro event member
      cases member
  | cons first events induction =>
      obtain ⟨next, taken, later⟩ := run_cons_eq_some.mp completed
      obtain ⟨action, translated, kept⟩ :=
        refines.step_eq_some represents taken
      exact List.forall_mem_cons.mpr
        ⟨⟨action, translated⟩, induction kept later⟩

/-- The run of the translated events is refined by the run of the events. -/
theorem Refines.run {actions : List α}
    (refines : Refines step R translate apply)
    (represents : R start abstractStart)
    (translated : events.mapM translate = some actions) :
    ∃ final, EventRun.run step start events = some final ∧
      R final (actions.foldl apply abstractStart) := by
  induction events generalizing start abstractStart actions with
  | nil =>
      simp only [List.mapM_nil, Option.pure_def, Option.some.injEq]
        at translated
      subst translated
      exact ⟨start, rfl, represents⟩
  | cons event events induction =>
      simp only [List.mapM_cons, Option.bind_eq_bind, Option.pure_def,
        Option.bind_eq_some_iff, Option.some.injEq] at translated
      obtain ⟨action, first, rest, others, rfl⟩ := translated
      obtain ⟨next, taken, kept⟩ := refines.step_succeeds represents first
      obtain ⟨final, completed, holds⟩ := induction kept others
      exact ⟨final, run_cons_eq_some.mpr ⟨next, taken, completed⟩, holds⟩

theorem Refines.of_run {final : σ} (refines : Refines step R translate apply)
    (represents : R start abstractStart)
    (completed : EventRun.run step start events = some final) :
    ∃ actions, events.mapM translate = some actions ∧
      R final (actions.foldl apply abstractStart) := by
  induction events generalizing start abstractStart with
  | nil =>
      simp only [run_nil, Option.some.injEq] at completed
      subst completed
      exact ⟨[], rfl, represents⟩
  | cons event events induction =>
      obtain ⟨next, taken, completed⟩ := run_cons_eq_some.mp completed
      obtain ⟨action, translated, kept⟩ :=
        refines.step_eq_some represents taken
      obtain ⟨actions, rest, holds⟩ := induction kept completed
      refine ⟨action :: actions, ?_, holds⟩
      simp [List.mapM_cons, translated, rest]

end Refinement

end EventRun
