import Mathlib.Data.List.Infix

/-!
# Runs of a partial event handler

An event-driven program handles one event at a time.  Its handler is a partial
step function: `none` means that handling the event stops the program.  This
file supplies the vocabulary for runs over a finite list of events and the
induction rules that later proofs use: invariants, progress, and the exact
steps at which a property of all visited states can be lost.
-/

namespace EventRun

variable {σ ε : Type*}

/-- Handle the events in order; a failing step ends the run. -/
def run (step : σ → ε → Option σ) (start : σ) (events : List ε) : Option σ :=
  events.foldlM step start

section Run

variable {step : σ → ε → Option σ} {start : σ}

@[simp] theorem run_nil : run step start [] = some start :=
  rfl

@[simp] theorem run_cons (event : ε) (events : List ε) :
    run step start (event :: events) =
      (step start event).bind fun next => run step next events := by
  simp [run, List.foldlM_cons, Option.bind_eq_bind]

theorem run_append (first second : List ε) :
    run step start (first ++ second) =
      (run step start first).bind fun middle => run step middle second := by
  simp [run, List.foldlM_append, Option.bind_eq_bind]

theorem run_cons_eq_some {event : ε} {events : List ε} {final : σ} :
    run step start (event :: events) = some final ↔
      ∃ next, step start event = some next ∧
        run step next events = some final := by
  simp [Option.bind_eq_some_iff]

theorem exists_run_cons {event : ε} {events : List ε} :
    (∃ final, run step start (event :: events) = some final) ↔
      ∃ next, step start event = some next ∧
        ∃ final, run step next events = some final := by
  simp only [run_cons_eq_some]
  constructor
  · intro given
    rcases given with ⟨final, next, taken, completed⟩
    exact ⟨next, taken, final, completed⟩
  · intro given
    rcases given with ⟨next, taken, final, completed⟩
    exact ⟨final, next, taken, completed⟩

theorem run_append_eq_some {first second : List ε} {final : σ} :
    run step start (first ++ second) = some final ↔
      ∃ middle, run step start first = some middle ∧
        run step middle second = some final := by
  simp [run_append, Option.bind_eq_some_iff]

theorem run_snoc_eq_some {events : List ε} {event : ε} {final : σ} :
    run step start (events ++ [event]) = some final ↔
      ∃ before, run step start events = some before ∧
        step before event = some final := by
  simp [run_append_eq_some]

end Run

/-! ## Properties of all visited states and all steps taken -/

/-- `P` holds in every state that a run of `events` visits. -/
def Always (step : σ → ε → Option σ) (P : σ → Prop) (start : σ)
    (events : List ε) : Prop :=
  ∀ handled, handled <+: events →
    ∀ state, run step start handled = some state → P state

/-- `G` relates the state before, the event and the state after, at every
step that a run of `events` takes. -/
def EveryStep (step : σ → ε → Option σ) (G : σ → ε → σ → Prop) (start : σ)
    (events : List ε) : Prop :=
  ∀ handled event rest, events = handled ++ event :: rest →
    ∀ before after, run step start handled = some before →
      step before event = some after → G before event after

/-- Every event of the run is one that `Enabled` permits in the state where it
arrives, whether or not the program survives it. -/
def Disciplined (step : σ → ε → Option σ) (Enabled : σ → ε → Prop) (start : σ)
    (events : List ε) : Prop :=
  ∀ handled event rest, events = handled ++ event :: rest →
    ∀ before, run step start handled = some before → Enabled before event

section Rules

variable {step : σ → ε → Option σ} {start : σ} {events : List ε}
  {P I : σ → Prop} {G : σ → ε → σ → Prop} {Enabled : σ → ε → Prop}

theorem Always.final {final : σ} (always : Always step P start events)
    (completed : run step start events = some final) : P final :=
  always events (List.prefix_refl events) final completed

theorem Always.initial (always : Always step P start events) : P start :=
  always [] (List.nil_prefix) start rfl

@[simp] theorem always_nil : Always step P start [] ↔ P start := by
  constructor
  · exact Always.initial
  · intro holds handled short state reached
    have empty : handled = [] := List.prefix_nil.mp short
    subst empty
    simp only [run_nil, Option.some.injEq] at reached
    subst reached
    exact holds

theorem always_cons {event : ε} :
    Always step P start (event :: events) ↔
      P start ∧ ∀ next, step start event = some next →
        Always step P next events := by
  constructor
  · intro always
    refine ⟨always.initial, ?_⟩
    intro next taken handled short state reached
    apply always (event :: handled)
      (List.cons_prefix_cons.mpr ⟨rfl, short⟩) state
    exact run_cons_eq_some.mpr ⟨next, taken, reached⟩
  · intro given handled short state reached
    rcases given with ⟨holds, later⟩
    cases handled with
    | nil =>
        simp only [run_nil, Option.some.injEq] at reached
        subst reached
        exact holds
    | cons first handled =>
        obtain ⟨rfl, shorter⟩ := List.cons_prefix_cons.mp short
        obtain ⟨next, taken, reached⟩ := run_cons_eq_some.mp reached
        exact later next taken handled shorter state reached

@[simp] theorem everyStep_nil : EveryStep step G start [] := by
  intro handled event rest equality
  simp at equality

theorem everyStep_cons {event : ε} :
    EveryStep step G start (event :: events) ↔
      ∀ next, step start event = some next →
        G start event next ∧ EveryStep step G next events := by
  constructor
  · intro every next taken
    refine ⟨every [] event events rfl start next rfl taken, ?_⟩
    intro handled later rest equality before after reached laterTaken
    apply every (event :: handled) later rest (by rw [equality]; rfl)
      before after _ laterTaken
    exact run_cons_eq_some.mpr ⟨next, taken, reached⟩
  · intro every handled later rest equality before after reached laterTaken
    cases handled with
    | nil =>
        simp only [List.nil_append, List.cons.injEq] at equality
        obtain ⟨rfl, rfl⟩ := equality
        simp only [run_nil, Option.some.injEq] at reached
        subst reached
        exact (every after laterTaken).1
    | cons first handled =>
        simp only [List.cons_append, List.cons.injEq] at equality
        obtain ⟨rfl, equality⟩ := equality
        obtain ⟨next, taken, reached⟩ := run_cons_eq_some.mp reached
        exact (every next taken).2 handled later rest equality before after
          reached laterTaken

@[simp] theorem disciplined_nil : Disciplined step Enabled start [] := by
  intro handled event rest equality
  simp at equality

theorem disciplined_cons {event : ε} :
    Disciplined step Enabled start (event :: events) ↔
      Enabled start event ∧ ∀ next, step start event = some next →
        Disciplined step Enabled next events := by
  constructor
  · intro disciplined
    refine ⟨disciplined [] event events rfl start rfl, ?_⟩
    intro next taken handled later rest equality before reached
    apply disciplined (event :: handled) later rest (by rw [equality]; rfl)
    exact run_cons_eq_some.mpr ⟨next, taken, reached⟩
  · intro given handled later rest equality before reached
    rcases given with ⟨enabled, disciplined⟩
    cases handled with
    | nil =>
        simp only [List.nil_append, List.cons.injEq] at equality
        obtain ⟨rfl, rfl⟩ := equality
        simp only [run_nil, Option.some.injEq] at reached
        subst reached
        exact enabled
    | cons first handled =>
        simp only [List.cons_append, List.cons.injEq] at equality
        obtain ⟨rfl, equality⟩ := equality
        obtain ⟨next, taken, reached⟩ := run_cons_eq_some.mp reached
        exact disciplined next taken handled later rest equality before reached

theorem Always.mono {Q : σ → Prop} (weaker : ∀ state, P state → Q state)
    (always : Always step P start events) : Always step Q start events := by
  intro handled short state reached
  exact weaker state (always handled short state reached)

theorem EveryStep.mono {H : σ → ε → σ → Prop}
    (weaker : ∀ before event after, G before event after →
      H before event after)
    (every : EveryStep step G start events) :
    EveryStep step H start events := by
  intro handled event rest equality before after reached taken
  exact weaker before event after
    (every handled event rest equality before after reached taken)

/-- What every step preserves holds in every state of the run. -/
theorem always_of_invariant (initial : I start)
    (preserved : ∀ before event after, I before →
      step before event = some after → I after) :
    Always step I start events := by
  induction events generalizing start with
  | nil => exact always_nil.mpr initial
  | cons event events induction =>
      refine always_cons.mpr ⟨initial, ?_⟩
      intro next taken
      exact induction (preserved start event next initial taken)

theorem invariant {final : σ} (initial : I start)
    (preserved : ∀ before event after, I before →
      step before event = some after → I after)
    (completed : run step start events = some final) : I final :=
  (always_of_invariant initial preserved).final completed

/-- The invariant rule for runs whose events obey a discipline. -/
theorem always_of_disciplined (initial : I start)
    (preserved : ∀ before event after, I before → Enabled before event →
      step before event = some after → I after)
    (disciplined : Disciplined step Enabled start events) :
    Always step I start events := by
  induction events generalizing start with
  | nil => exact always_nil.mpr initial
  | cons event events induction =>
      obtain ⟨enabled, rest⟩ := disciplined_cons.mp disciplined
      refine always_cons.mpr ⟨initial, ?_⟩
      intro next taken
      exact induction (preserved start event next initial enabled taken)
        (rest next taken)

/-- If the invariant lets every enabled event succeed, a disciplined run is
completed. -/
theorem run_progress (initial : I start)
    (succeeds : ∀ before event, I before → Enabled before event →
      ∃ after, step before event = some after ∧ I after)
    (disciplined : Disciplined step Enabled start events) :
    ∃ final, run step start events = some final ∧ I final := by
  induction events generalizing start with
  | nil => exact ⟨start, rfl, initial⟩
  | cons event events induction =>
      obtain ⟨enabled, rest⟩ := disciplined_cons.mp disciplined
      obtain ⟨next, taken, kept⟩ := succeeds start event initial enabled
      obtain ⟨final, completed, holds⟩ := induction kept (rest next taken)
      exact ⟨final, run_cons_eq_some.mpr ⟨next, taken, completed⟩, holds⟩

/-- In a disciplined run, a property that survives a step exactly when the step
satisfies `G` holds throughout exactly when all steps satisfy `G`. -/
theorem always_iff_everyStep_of_disciplined (initial : I start)
    (holds : P start)
    (preserved : ∀ before event after, I before → Enabled before event →
      step before event = some after → I after)
    (survives : ∀ before event after, I before → Enabled before event →
      P before → step before event = some after →
        (P after ↔ G before event after))
    (disciplined : Disciplined step Enabled start events) :
    Always step P start events ↔ EveryStep step G start events := by
  induction events generalizing start with
  | nil => simp [holds]
  | cons event events induction =>
      obtain ⟨enabled, rest⟩ := disciplined_cons.mp disciplined
      rw [always_cons, everyStep_cons]
      constructor
      · intro given next taken
        rcases given with ⟨_, later⟩
        have holdsNext : P next := (later next taken).initial
        exact ⟨(survives start event next initial enabled holds taken).mp
            holdsNext,
          (induction (preserved start event next initial enabled taken)
            holdsNext (rest next taken)).mp (later next taken)⟩
      · intro every
        refine ⟨holds, ?_⟩
        intro next taken
        obtain ⟨good, goodRest⟩ := every next taken
        have holdsNext : P next :=
          (survives start event next initial enabled holds taken).mpr good
        exact (induction (preserved start event next initial enabled taken)
          holdsNext (rest next taken)).mpr goodRest

/-- If an enabled event succeeds exactly if it is admitted, a disciplined run is
completed exactly if all its events are admitted. -/
theorem completes_iff {Admitted : σ → ε → Prop} (initial : I start)
    (preserved : ∀ before event after, I before → Enabled before event →
      step before event = some after → I after)
    (succeeds : ∀ before event, I before → Enabled before event →
      ((∃ after, step before event = some after) ↔ Admitted before event))
    (disciplined : Disciplined step Enabled start events) :
    (∃ final, run step start events = some final) ↔
      Disciplined step Admitted start events := by
  induction events generalizing start with
  | nil => exact ⟨fun _ => disciplined_nil, fun _ => ⟨start, rfl⟩⟩
  | cons event events induction =>
      obtain ⟨enabled, rest⟩ := disciplined_cons.mp disciplined
      have later : ∀ next, step start event = some next →
          ((∃ final, run step next events = some final) ↔
            Disciplined step Admitted next events) :=
        fun next taken =>
          induction (preserved start event next initial enabled taken)
            (rest next taken)
      rw [exists_run_cons, disciplined_cons,
        ← succeeds start event initial enabled]
      constructor
      · rintro ⟨next, taken, completed⟩
        refine ⟨⟨next, taken⟩, ?_⟩
        intro other same
        rw [taken, Option.some_inj] at same
        subst same
        exact (later next taken).mp completed
      · rintro ⟨⟨next, taken⟩, admitted⟩
        exact ⟨next, taken, (later next taken).mpr (admitted next taken)⟩

theorem disciplined_true : Disciplined step (fun _ _ => True) start events := by
  intro handled event rest equality before reached
  trivial

theorem always_iff_everyStep (initial : I start) (holds : P start)
    (preserved : ∀ before event after, I before →
      step before event = some after → I after)
    (survives : ∀ before event after, I before → P before →
      step before event = some after → (P after ↔ G before event after)) :
    Always step P start events ↔ EveryStep step G start events := by
  apply always_iff_everyStep_of_disciplined initial holds
  · intro before event after kept _ taken
    exact preserved before event after kept taken
  · intro before event after kept _ holds taken
    exact survives before event after kept holds taken
  · exact disciplined_true

theorem everyStep_of_always
    (follows : ∀ before event after, I before → Enabled before event →
      step before event = some after → G before event after)
    (always : Always step I start events)
    (disciplined : Disciplined step Enabled start events) :
    EveryStep step G start events := by
  intro handled event rest equality before after reached taken
  have initial : handled <+: events := ⟨event :: rest, equality.symm⟩
  exact follows before event after (always handled initial before reached)
    (disciplined handled event rest equality before reached) taken

theorem Always.and {Q : σ → Prop} (first : Always step P start events)
    (second : Always step Q start events) :
    Always step (fun state => P state ∧ Q state) start events := by
  intro handled short state reached
  exact ⟨first handled short state reached, second handled short state reached⟩

end Rules

end EventRun
