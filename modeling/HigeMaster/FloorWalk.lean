import Mathlib.Algebra.BigOperators.Group.List.Basic
import Mathlib.Algebra.Order.Group.Defs
import Mathlib.Data.List.DropRight
import Mathlib.Order.Bounds.Basic
import Mathlib.Order.Lattice

/-!
# Walks with a floor

A walk goes up and down by its steps but never below zero: what would lead
lower leads to zero.  So only the last steps count, and among all the ways to
split them off the walk ends where the best one leads.  A walk may also be
started afresh, and then the steps before count for nothing.
-/

namespace FloorWalk

variable {K : Type*} [AddCommGroup K] [LinearOrder K]

def advance (height step : K) : K :=
  max (height + step) 0

def walk (steps : List K) : K :=
  steps.foldl advance 0

theorem walk_concat (steps : List K) (step : K) :
    walk (steps ++ [step]) = advance (walk steps) step := by
  rw [walk, List.foldl_append]
  rfl

/-- A walk ends as high as the best of its last steps lead. -/
theorem isGreatest_walk [IsOrderedAddMonoid K] (steps : List K) :
    IsGreatest {height | ∃ last, last <:+ steps ∧ height = last.sum}
      (walk steps) := by
  induction steps using List.reverseRecOn with
  | nil =>
      refine ⟨⟨[], List.suffix_rfl, rfl⟩, ?_⟩
      rintro height ⟨last, ending, rfl⟩
      rw [List.suffix_nil.mp ending]
      exact le_refl 0
  | append_singleton steps step induction =>
      obtain ⟨⟨best, ending, reached⟩, greatest⟩ := induction
      rw [walk_concat, advance]
      constructor
      · by_cases falls : walk steps + step ≤ 0
        · rw [max_eq_right falls]
          exact ⟨[], List.nil_suffix, rfl⟩
        · rw [max_eq_left (not_le.mp falls).le, reached]
          refine ⟨best ++ [step], ?_, ?_⟩
          · exact (List.suffix_append_inj_of_length_eq rfl).mpr ⟨ending, rfl⟩
          · rw [List.sum_append, List.sum_singleton]
      · rintro height ⟨last, split, rfl⟩
        rcases List.suffix_concat_iff.mp split with rfl | ⟨earlier, rfl, inside⟩
        · exact le_max_right _ _
        · rw [List.sum_append, List.sum_singleton]
          apply le_max_of_le_left
          exact add_le_add_left (greatest ⟨earlier, inside, rfl⟩) step

/-! ## Starting afresh -/

variable {σ ε : Type*}

/-- The steps after the last of those that start afresh. -/
def sinceFresh (fresh : ε → Bool) (steps : List ε) : List ε :=
  steps.rtakeWhile fun step => !fresh step

/-- Only the steps since the last fresh start count. -/
theorem foldl_sinceFresh {fresh : ε → Bool} {effect : σ → ε → σ} {start : σ}
    (restarts : ∀ state step, fresh step = true →
      effect state step = start)
    (steps : List ε) :
    steps.foldl effect start =
      (sinceFresh fresh steps).foldl effect start := by
  induction steps using List.reverseRecOn with
  | nil => rfl
  | append_singleton steps step induction =>
      rw [sinceFresh, List.rtakeWhile_concat, List.foldl_append, induction]
      by_cases starts : fresh step = true
      · rw [if_neg (by simp [starts])]
        exact restarts _ step starts
      · rw [if_pos (by simp [starts]), List.foldl_append]
        rfl

end FloorWalk
