import Mathlib.Data.List.Sort
import Mathlib.Order.Defs.LinearOrder

/-!
# Sorting without promises about ties

A sorting method rearranges a list so that no item comes before a smaller one.
It may treat items that the order does not separate as it likes.  The first
items of the result are the best ones, and where no two items have the same
key, only these are the best.
-/

namespace Sorting

/-- A strict order whose incomparable items are interchangeable. -/
structure IsStrictWeak {α : Type} (smaller : α → α → Bool) : Prop where
  asymm : ∀ first second, smaller first second = true →
    smaller second first = false
  transitive : ∀ first second third, smaller first second = false →
    smaller second third = false → smaller first third = false

/-- A way to sort any list by any order. -/
structure Method where
  sorted : {α : Type} → (α → α → Bool) → List α → List α
  perm : ∀ {α : Type} (smaller : α → α → Bool) (items : List α),
    (sorted smaller items).Perm items
  ordered : ∀ {α : Type} {smaller : α → α → Bool}, IsStrictWeak smaller →
    ∀ items, (sorted smaller items).Pairwise fun first second =>
      smaller second first = false

namespace Method

/-- Insertion sort, which keeps the order of ties. -/
def insertion : Method where
  sorted smaller items :=
    items.insertionSort fun first second => smaller second first = false
  perm smaller items := List.perm_insertionSort _ items
  ordered := by
    intro α smaller weak items
    have total : Std.Total fun first second : α =>
        smaller second first = false := by
      constructor
      intro first second
      cases less : smaller second first with
      | false => exact .inl rfl
      | true => exact .inr (weak.asymm second first less)
    have transitive : IsTrans α fun first second =>
        smaller second first = false := by
      constructor
      intro first second third low high
      exact weak.transitive third second first high low
    exact List.pairwise_insertionSort _ items

variable {α : Type} {smaller : α → α → Bool}

theorem length_sorted (method : Method) (items : List α) :
    (method.sorted smaller items).length = items.length :=
  (method.perm smaller items).length_eq

end Method

/-! ## Orders by a key -/

section Key

variable {α : Type} {κ : Type*} [LinearOrder κ]

/-- Larger keys come first. -/
def largerKey (key : α → κ) (first second : α) : Bool :=
  key first > key second

theorem isStrictWeak_largerKey (key : α → κ) :
    IsStrictWeak (largerKey key) where
  asymm := by
    intro first second less
    simp only [largerKey, gt_iff_lt, decide_eq_true_eq,
      decide_eq_false_iff_not, not_lt] at less ⊢
    exact less.le
  transitive := by
    intro first second third low high
    simp only [largerKey, gt_iff_lt, decide_eq_false_iff_not, not_lt]
      at low high ⊢
    exact low.trans high

theorem largerKey_eq_false_iff {key : α → κ} {first second : α} :
    largerKey key first second = false ↔ key first ≤ key second := by
  simp [largerKey]

theorem Method.sorted_largerKey (method : Method) (key : α → κ)
    (items : List α) :
    (method.sorted (largerKey key) items).Pairwise fun first second =>
      key second ≤ key first :=
  (method.ordered (isStrictWeak_largerKey key) items).imp
    fun ordered => largerKey_eq_false_iff.mp ordered

theorem eq_of_key_eq_of_pairwise {key : α → κ} {items : List α}
    (falling : items.Pairwise fun first second => key second < key first) :
    ∀ low ∈ items, ∀ high ∈ items, key low = key high → low = high := by
  have different : (items.map key).Nodup :=
    List.pairwise_map.mpr (falling.imp fun less => less.ne')
  intro low lowIn high highIn same
  exact List.inj_on_of_nodup_map different lowIn highIn same

/-! ## The best items -/

/-- As many items as wanted, the largest first, and none left out that is
larger. -/
structure IsBest (key : α → κ) (limit : ℕ) (items best : List α) : Prop where
  among : best.Subperm items
  length : best.length = min limit items.length
  sorted : best.Pairwise fun first second => key second ≤ key first
  above : ∀ item ∈ items, item ∉ best → ∀ chosen ∈ best, key item ≤ key chosen

theorem IsBest.of_perm {key : α → κ} {limit : ℕ}
    {items others first : List α} (best : IsBest key limit items first)
    (same : items.Perm others) : IsBest key limit others first where
  among := best.among.trans same.subperm
  length := by rw [best.length, same.length_eq]
  sorted := best.sorted
  above item member := best.above item (same.mem_iff.mpr member)

/-- The first items of a sorted list are the best. -/
theorem isBest_take {key : α → κ} {items : List α}
    (ordered : items.Pairwise fun first second => key second ≤ key first)
    (limit : ℕ) : IsBest key limit items (items.take limit) := by
  constructor
  · exact (List.take_sublist limit items).subperm
  · exact List.length_take
  · exact ordered.sublist (List.take_sublist limit items)
  · intro item member missing chosen early
    rw [← List.take_append_drop limit items] at member ordered
    rcases List.mem_append.mp member with there | late
    · exact absurd there missing
    · exact (List.pairwise_append.mp ordered).2.2 chosen early item late

theorem Method.isBest_take_sorted (method : Method) (key : α → κ)
    (limit : ℕ) (items : List α) :
    IsBest key limit items
      ((method.sorted (largerKey key) items).take limit) := by
  have best := isBest_take (method.sorted_largerKey key items) limit
  exact best.of_perm (method.perm _ items)

namespace IsBest

variable {key : α → κ} {limit : ℕ} {items first second : List α}

theorem nodup (best : IsBest key limit items first)
    (different : items.Nodup) : first.Nodup := by
  obtain ⟨arranged, perm, sublist⟩ := best.among
  exact perm.nodup_iff.mp (different.sublist sublist)

/-- What one choice of the best has and another has not would be as good as
something that only the other has. -/
private theorem subset (one : IsBest key limit items first)
    (other : IsBest key limit items second) (different : items.Nodup)
    (distinct : ∀ low ∈ items, ∀ high ∈ items, key low = key high →
      low = high) :
    first ⊆ second := by
  intro item chosen
  by_contra missing
  have more : ¬second ⊆ first := by
    intro within
    have long : (item :: second).length ≤ first.length := by
      apply List.Subperm.length_le
      apply List.subperm_of_subset
        (List.nodup_cons.mpr ⟨missing, other.nodup different⟩)
      exact List.cons_subset.mpr ⟨chosen, within⟩
    rw [List.length_cons, one.length, other.length] at long
    omega
  simp only [List.subset_def, not_forall] at more
  obtain ⟨rival, rivalChosen, rivalMissing⟩ := more
  have itemIn := one.among.subset chosen
  have rivalIn := other.among.subset rivalChosen
  have low := other.above item itemIn missing rival rivalChosen
  have high := one.above rival rivalIn rivalMissing item chosen
  apply missing
  rwa [distinct item itemIn rival rivalIn (le_antisymm low high)]

/-- Where different items have different keys, there is only one choice of the
best. -/
theorem unique (one : IsBest key limit items first)
    (other : IsBest key limit items second) (different : items.Nodup)
    (distinct : ∀ low ∈ items, ∀ high ∈ items, key low = key high →
      low = high) :
    first = second := by
  have perm : first.Perm second :=
    (List.subperm_of_subset (one.nodup different)
      (one.subset other different distinct)).antisymm
      (List.subperm_of_subset (other.nodup different)
        (other.subset one different distinct))
  apply perm.eq_of_pairwise _ one.sorted other.sorted
  intro low high lowIn highIn below above
  exact distinct low (one.among.subset lowIn) high
    (other.among.subset highIn) (le_antisymm above below)

end IsBest

end Key

end Sorting
