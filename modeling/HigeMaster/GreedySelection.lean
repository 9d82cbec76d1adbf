import Mathlib.Data.List.Pairwise
import Mathlib.Data.List.Sublists
import Mathlib.Data.List.Sort

/-!
# Greedy selection

Candidates are looked at one by one; a candidate is kept unless it conflicts
with one that has been kept before.  The selection may stop at a limit.
Stopping early only cuts the selection off: what is kept up to a limit is the
beginning of what would be kept without one.  More generally, where an order
tells which candidate comes first and what is selected before a candidate tells
whether it is selected, there is only one selection.
-/

namespace GreedySelection

variable {α : Type*}

/-- What is kept of the candidates after `kept`. -/
def keep (conflicts : α → α → Bool) (kept : List α) : List α → List α
  | [] => kept
  | candidate :: candidates =>
      if kept.any (conflicts candidate) then
        keep conflicts kept candidates
      else
        keep conflicts (kept ++ [candidate]) candidates

/-- The same, but no further candidate is looked at once `limit` are kept. -/
def keepUpTo (conflicts : α → α → Bool) (limit : ℤ) (kept : List α) :
    List α → List α
  | [] => kept
  | candidate :: candidates =>
      if limit ≤ kept.length then
        kept
      else if kept.any (conflicts candidate) then
        keepUpTo conflicts limit kept candidates
      else
        keepUpTo conflicts limit (kept ++ [candidate]) candidates

variable {conflicts : α → α → Bool} {kept candidates : List α}

theorem keep_prefix (kept candidates : List α) :
    kept <+: keep conflicts kept candidates := by
  induction candidates generalizing kept with
  | nil => exact List.prefix_refl kept
  | cons candidate candidates induction =>
      rw [keep]
      by_cases conflict : kept.any (conflicts candidate) = true
      · rw [if_pos conflict]
        exact induction kept
      · rw [if_neg conflict]
        exact (List.prefix_append kept [candidate]).trans (induction _)

theorem keep_sublist (kept candidates : List α) :
    List.Sublist (keep conflicts kept candidates) (kept ++ candidates) := by
  induction candidates generalizing kept with
  | nil => rw [keep, List.append_nil]
  | cons candidate candidates induction =>
      rw [keep]
      by_cases conflict : kept.any (conflicts candidate) = true
      · rw [if_pos conflict]
        exact (induction kept).trans
          (List.Sublist.append_left (List.sublist_cons_self candidate _) kept)
      · rw [if_neg conflict]
        have rest := induction (kept ++ [candidate])
        rwa [List.append_assoc, List.singleton_append] at rest

theorem keep_append (kept first second : List α) :
    keep conflicts kept (first ++ second) =
      keep conflicts (keep conflicts kept first) second := by
  induction first generalizing kept with
  | nil => rfl
  | cons candidate first induction =>
      rw [List.cons_append, keep, keep]
      by_cases conflict : kept.any (conflicts candidate) = true
      · rw [if_pos conflict, if_pos conflict]
        exact induction kept
      · rw [if_neg conflict, if_neg conflict]
        exact induction (kept ++ [candidate])

/-- No kept candidate conflicts with an earlier one. -/
theorem keep_compatible
    (compatible : kept.Pairwise fun earlier later =>
      conflicts later earlier = false) :
    (keep conflicts kept candidates).Pairwise fun earlier later =>
      conflicts later earlier = false := by
  induction candidates generalizing kept with
  | nil => exact compatible
  | cons candidate candidates induction =>
      rw [keep]
      by_cases conflict : kept.any (conflicts candidate) = true
      · rw [if_pos conflict]
        exact induction compatible
      · rw [if_neg conflict]
        apply induction
        apply List.pairwise_append.mpr
        refine ⟨compatible, List.pairwise_singleton _ candidate, ?_⟩
        intro earlier member later same
        rw [List.mem_singleton] at same
        subst same
        rw [Bool.not_eq_true, List.any_eq_false] at conflict
        exact Bool.eq_false_iff.mpr (conflict earlier member)

theorem keep_prefix_append (before after : List α) :
    keep conflicts kept before <+: keep conflicts kept (before ++ after) := by
  rw [keep_append]
  exact keep_prefix _ after

theorem keep_prefix_of_compatible {before after : List α} {candidate : α}
    (compatible :
      (keep conflicts kept before).any (conflicts candidate) = false) :
    keep conflicts kept before ++ [candidate] <+:
      keep conflicts kept (before ++ candidate :: after) := by
  rw [keep_append, keep, compatible, if_neg Bool.false_ne_true]
  exact keep_prefix _ after

/-! ## Up to a limit -/

/-- Stopping at a limit cuts the selection off. -/
theorem keepUpTo_eq_take {limit : ℤ} {kept : List α} (candidates : List α)
    (within : kept.length ≤ limit.toNat) :
    keepUpTo conflicts limit kept candidates =
      (keep conflicts kept candidates).take limit.toNat := by
  induction candidates generalizing kept with
  | nil => rw [keepUpTo, keep, List.take_of_length_le within]
  | cons candidate candidates induction =>
      rw [keepUpTo]
      by_cases full : limit ≤ kept.length
      · have reached : kept.length = limit.toNat := by omega
        have start : kept <+: keep conflicts kept (candidate :: candidates) :=
          keep_prefix kept (candidate :: candidates)
        rw [if_pos full, ← reached]
        exact List.prefix_iff_eq_take.mp start
      · rw [if_neg full, keep]
        by_cases conflict : kept.any (conflicts candidate) = true
        · rw [if_pos conflict, if_pos conflict]
          exact induction within
        · rw [if_neg conflict, if_neg conflict]
          apply induction
          rw [List.length_append, List.length_singleton]
          omega

/-- A candidate is kept, or it conflicts with one that is kept before it, or
the limit was reached before it. -/
theorem take_keep_cases (conflicts : α → α → Bool) (before after : List α)
    (candidate : α) (limit : ℕ) :
    let selected :=
      (keep conflicts [] (before ++ candidate :: after)).take limit
    candidate ∈ selected ∨
      (∃ earlier ∈ selected, earlier ∈ before ∧
        conflicts candidate earlier = true) ∨
      (selected.length = limit ∧ ∀ earlier ∈ selected, earlier ∈ before) := by
  intro selected
  have start : keep conflicts [] before <+:
      keep conflicts [] (before ++ candidate :: after) :=
    keep_prefix_append before (candidate :: after)
  have fromBefore : ∀ earlier ∈ keep conflicts [] before,
      earlier ∈ before := by
    intro earlier there
    have among := (keep_sublist [] before).subset there
    rwa [List.nil_append] at among
  by_cases full : limit ≤ (keep conflicts [] before).length
  · have cut : selected = (keep conflicts [] before).take limit := by
      obtain ⟨rest, split⟩ := start
      rw [← List.take_append_of_le_length full, split]
    right; right
    rw [cut]
    refine ⟨?_, ?_⟩
    · rw [List.length_take, min_eq_left full]
    · intro earlier there
      exact fromBefore earlier (List.mem_of_mem_take there)
  · have room : (keep conflicts [] before).length < limit :=
      Nat.lt_of_not_le full
    by_cases conflict :
        (keep conflicts [] before).any (conflicts candidate) = true
    · obtain ⟨earlier, there, conflicting⟩ := List.any_eq_true.mp conflict
      have still : earlier ∈ selected := by
        have early := List.prefix_take_iff.mpr ⟨start, room.le⟩
        exact early.subset there
      exact .inr (.inl ⟨earlier, still, fromBefore earlier there,
        conflicting⟩)
    · rw [Bool.not_eq_true] at conflict
      have next : keep conflicts [] before ++ [candidate] <+:
          keep conflicts [] (before ++ candidate :: after) :=
        keep_prefix_of_compatible conflict
      have short : (keep conflicts [] before ++ [candidate]).length ≤
          limit := by
        rw [List.length_append, List.length_singleton]
        exact room
      have early := List.prefix_take_iff.mpr ⟨next, short⟩
      left
      apply early.subset
      exact List.mem_append_right _ List.mem_cons_self

/-! ## The only selection -/

/-- A sorted selection of the candidates that are admitted next to the ones
selected before them. -/
structure Selection (precedes : α → α → Prop) [DecidableRel precedes]
    (admits : List α → α → Prop) (candidates selected : List α) : Prop where
  sorted : selected.Pairwise precedes
  among : selected ⊆ candidates
  admitted : ∀ candidate ∈ candidates, candidate ∈ selected ↔
    admits (selected.filter fun earlier => precedes earlier candidate)
      candidate

namespace Selection

variable {precedes : α → α → Prop} [DecidableRel precedes]
  {admits : List α → α → Prop} {first second : List α}

section Asymm

variable [Std.Asymm precedes]

omit [DecidableRel precedes] in
private theorem mem_before_of_precedes {before after : List α}
    {earlier later : α}
    (sorted : (before ++ later :: after).Pairwise precedes)
    (member : earlier ∈ before ++ later :: after)
    (order : precedes earlier later) :
    earlier ∈ before := by
  rw [List.pairwise_append, List.pairwise_cons] at sorted
  rcases List.mem_append.mp member with there | there
  · exact there
  · rcases List.mem_cons.mp there with rfl | there
    · exact absurd order (Std.Asymm.asymm _ _ order)
    · exact absurd order (Std.Asymm.asymm _ _ (sorted.2.1.1 earlier there))

/-- Selections that agree before a candidate agree on the candidate. -/
private theorem mem_iff_mem_of_agree
    (one : Selection precedes admits candidates first)
    (other : Selection precedes admits candidates second) {candidate : α}
    (member : candidate ∈ candidates)
    (agree : ∀ earlier ∈ candidates, precedes earlier candidate →
      (earlier ∈ first ↔ earlier ∈ second)) :
    candidate ∈ first ↔ candidate ∈ second := by
  have same :
      (first.filter fun earlier => precedes earlier candidate) =
        second.filter fun earlier => precedes earlier candidate := by
    apply List.Pairwise.eq_of_mem_iff (one.sorted.filter _)
      (other.sorted.filter _)
    intro earlier
    simp only [List.mem_filter, decide_eq_true_eq]
    constructor
    · rintro ⟨there, order⟩
      exact ⟨(agree earlier (one.among there) order).mp there, order⟩
    · rintro ⟨there, order⟩
      exact ⟨(agree earlier (other.among there) order).mpr there, order⟩
  rw [one.admitted candidate member, other.admitted candidate member, same]

private theorem mem_iff_mem
    (one : Selection precedes admits candidates first)
    (other : Selection precedes admits candidates second)
    {before after : List α} (sorted : candidates.Pairwise precedes)
    (split : before ++ after = candidates) :
    ∀ item ∈ before, (item ∈ first ↔ item ∈ second) := by
  induction before using List.reverseRecOn generalizing after with
  | nil => simp
  | append_singleton before candidate induction =>
      rw [List.append_assoc, List.singleton_append] at split
      have known := induction split
      subst split
      intro item member
      rcases List.mem_append.mp member with there | there
      · exact known item there
      · rw [List.mem_singleton] at there
        subst there
        apply one.mem_iff_mem_of_agree other
          (List.mem_append_right _ List.mem_cons_self)
        intro earlier there order
        exact known earlier (mem_before_of_precedes sorted there order)

/-- There is only one selection from sorted candidates. -/
theorem unique (one : Selection precedes admits candidates first)
    (other : Selection precedes admits candidates second)
    (sorted : candidates.Pairwise precedes) :
    first = second := by
  apply List.Pairwise.eq_of_mem_iff one.sorted other.sorted
  intro item
  have same := one.mem_iff_mem other sorted (List.append_nil candidates)
  constructor
  · intro member
    exact (same item (one.among member)).mp member
  · intro member
    exact (same item (other.among member)).mpr member

end Asymm

theorem of_mem_iff {others : List α}
    (selection : Selection precedes admits candidates first)
    (same : ∀ item, item ∈ others ↔ item ∈ candidates) :
    Selection precedes admits others first where
  sorted := selection.sorted
  among item member := (same item).mpr (selection.among member)
  admitted item member := selection.admitted item ((same item).mp member)

end Selection

end GreedySelection
