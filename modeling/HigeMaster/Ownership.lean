import Mathlib.Data.Finset.Erase
import Mathlib.Data.Finset.Insert
import Mathlib.Logic.Function.Basic

/-!
# Owners of allocated blocks

Blocks of memory are allocated and freed again.  Memory is in order if exactly
the allocated blocks have an owner, each of them only one: then no block is
lost, and none is freed twice.
-/

namespace Ownership

variable {ρ β : Type*}

/-- Exactly the allocated blocks are held, each by one owner. -/
structure Owned (allocated : Finset β) (holds : ρ → Option β) : Prop where
  once : ∀ {first second block}, holds first = some block →
    holds second = some block → first = second
  held : ∀ block, block ∈ allocated ↔ ∃ owner, holds owner = some block

namespace Owned

variable {allocated : Finset β} {holds : ρ → Option β} {owner : ρ} {block : β}

theorem eq_empty (owned : Owned allocated holds)
    (unowned : ∀ owner, holds owner = none) : allocated = ∅ := by
  rw [Finset.eq_empty_iff_forall_notMem]
  intro block member
  obtain ⟨owner, holding⟩ := (owned.held block).mp member
  rw [unowned owner] at holding
  cases holding

variable [DecidableEq ρ] [DecidableEq β]

/-- A new block is given to someone who holds nothing. -/
theorem acquire (owned : Owned allocated holds) (fresh : block ∉ allocated)
    (free : holds owner = none) :
    Owned (insert block allocated)
      (Function.update holds owner (some block)) := by
  have unheld : ∀ other, holds other ≠ some block := by
    intro other holding
    exact fresh ((owned.held block).mpr ⟨other, holding⟩)
  constructor
  · intro first second shared firstHolds secondHolds
    rw [Function.update_apply] at firstHolds secondHolds
    by_cases firstNew : first = owner
    · by_cases secondNew : second = owner
      · rw [firstNew, secondNew]
      · rw [if_pos firstNew, Option.some_inj] at firstHolds
        rw [if_neg secondNew, ← firstHolds] at secondHolds
        exact absurd secondHolds (unheld second)
    · rw [if_neg firstNew] at firstHolds
      by_cases secondNew : second = owner
      · rw [if_pos secondNew, Option.some_inj] at secondHolds
        rw [← secondHolds] at firstHolds
        exact absurd firstHolds (unheld first)
      · rw [if_neg secondNew] at secondHolds
        exact owned.once firstHolds secondHolds
  · intro other
    rw [Finset.mem_insert, owned.held]
    constructor
    · rintro (rfl | ⟨holder, holding⟩)
      · exact ⟨owner, Function.update_self _ _ _⟩
      · refine ⟨holder, ?_⟩
        rwa [Function.update_of_ne]
        rintro rfl
        rw [free] at holding
        cases holding
    · rintro ⟨holder, holding⟩
      rw [Function.update_apply] at holding
      by_cases new : holder = owner
      · rw [if_pos new, Option.some_inj] at holding
        exact .inl holding.symm
      · rw [if_neg new] at holding
        exact .inr ⟨holder, holding⟩

/-- An owner frees its block. -/
theorem drop (owned : Owned allocated holds)
    (holding : holds owner = some block) :
    Owned (allocated.erase block) (Function.update holds owner none) := by
  have others : ∀ {holder kept},
      Function.update holds owner none holder = some kept ↔
        holder ≠ owner ∧ holds holder = some kept := by
    intro holder kept
    rw [Function.update_apply]
    by_cases gone : holder = owner
    · simp [gone]
    · simp [gone]
  constructor
  · intro first second shared firstHolds secondHolds
    exact owned.once (others.mp firstHolds).2 (others.mp secondHolds).2
  · intro other
    rw [Finset.mem_erase, owned.held]
    simp only [others]
    constructor
    · rintro ⟨different, holder, keeps⟩
      refine ⟨holder, ?_, keeps⟩
      rintro rfl
      rw [holding, Option.some_inj] at keeps
      exact different keeps.symm
    · rintro ⟨holder, remains, keeps⟩
      refine ⟨?_, holder, keeps⟩
      rintro rfl
      exact remains (owned.once keeps holding)

end Owned

end Ownership
