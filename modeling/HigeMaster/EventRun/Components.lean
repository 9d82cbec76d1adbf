import HigeMaster.EventRun

/-!
# Components

A component of the state is stepped by some events and left alone by the
others.  Then a run of the whole contains a run of the component, over the
events that reach it, and what is known about the runs of the component holds
of it inside every run of the whole.
-/

namespace EventRun

variable {σ ε τ α : Type*}

/-- Events that `route` sends to the component step it; the other events leave
it alone. -/
structure IsComponent (step : σ → ε → Option σ) (part : σ → τ)
    (inner : τ → α → Option τ) (route : ε → Option α) : Prop where
  rests : ∀ before event after, step before event = some after →
    route event = none → part after = part before
  moves : ∀ before event after action, step before event = some after →
    route event = some action → inner (part before) action = some (part after)

section Component

variable {step : σ → ε → Option σ} {part : σ → τ}
  {inner : τ → α → Option τ} {route : ε → Option α}
  {start final : σ} {events : List ε}

theorem IsComponent.run (component : IsComponent step part inner route)
    (completed : EventRun.run step start events = some final) :
    EventRun.run inner (part start) (events.filterMap route) =
      some (part final) := by
  induction events generalizing start with
  | nil =>
      simp only [run_nil, Option.some.injEq] at completed
      rw [completed, List.filterMap_nil, run_nil]
  | cons event events induction =>
      obtain ⟨next, taken, completed⟩ := run_cons_eq_some.mp completed
      have later := induction completed
      cases routed : route event with
      | none =>
          rw [List.filterMap_cons_none routed,
            ← component.rests start event next taken routed]
          exact later
      | some action =>
          rw [List.filterMap_cons_some routed, run_cons_eq_some]
          exact ⟨part next,
            component.moves start event next action taken routed, later⟩

end Component

end EventRun
