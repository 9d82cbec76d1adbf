import Mathlib.Algebra.BigOperators.Fin
import Mathlib.Algebra.Order.BigOperators.Ring.Finset
import Mathlib.Data.Int.ConditionallyCompleteOrder
import Mathlib.Data.Set.Function
import Mathlib.Tactic.Linarith
import Mathlib.Tactic.Ring

/-!
# Strided layouts

An array with several axes stores its elements in a row.  An element is given
by one position on each axis, and its place in the row is the sum of the
positions, each times the stride of its axis.  A layout is dense if this is a
bijection onto the places of the row.  The row-major layout is dense, and a
layout stays dense when its axes are named in another order, but not when an
axis is used twice.
-/

namespace Strided

variable {ι κ : Type*} [Fintype ι] [Fintype κ]

/-- The positions exist on their axes. -/
def InBounds (shape index : ι → ℤ) : Prop :=
  ∀ axis, 0 ≤ index axis ∧ index axis < shape axis

def offset (strides index : ι → ℤ) : ℤ :=
  ∑ axis, index axis * strides axis

/-- Every place of the row holds exactly one element. -/
def Dense (shape strides : ι → ℤ) : Prop :=
  Set.BijOn (offset strides) {index | InBounds shape index}
    (Set.Ico 0 (∏ axis, shape axis))

variable {shape strides : ι → ℤ}

namespace Dense

theorem offset_mem (dense : Dense shape strides) {index : ι → ℤ}
    (inBounds : InBounds shape index) :
    0 ≤ offset strides index ∧ offset strides index < ∏ axis, shape axis :=
  dense.mapsTo inBounds

theorem offset_inj (dense : Dense shape strides) {first second : ι → ℤ}
    (firstIn : InBounds shape first) (secondIn : InBounds shape second) :
    offset strides first = offset strides second ↔ first = second := by
  constructor
  · exact dense.injOn firstIn secondIn
  · exact congrArg _

theorem exists_offset_eq (dense : Dense shape strides) {place : ℤ}
    (nonneg : 0 ≤ place) (less : place < ∏ axis, shape axis) :
    ∃ index, InBounds shape index ∧ offset strides index = place :=
  dense.surjOn ⟨nonneg, less⟩

end Dense

/-! ## Axes in another order -/

omit [Fintype ι] [Fintype κ] in
theorem inBounds_comp (rename : κ ≃ ι) {index : ι → ℤ} :
    InBounds (shape ∘ rename) (index ∘ rename) ↔ InBounds shape index := by
  constructor
  · intro inBounds axis
    have there := inBounds (rename.symm axis)
    simpa using there
  · intro inBounds axis
    exact inBounds (rename axis)

theorem offset_comp (rename : κ ≃ ι) (strides index : ι → ℤ) :
    offset (strides ∘ rename) (index ∘ rename) = offset strides index :=
  rename.sum_comp fun axis => index axis * strides axis

theorem Dense.comp (dense : Dense shape strides) (rename : κ ≃ ι) :
    Dense (shape ∘ rename) (strides ∘ rename) := by
  have back : ∀ index : κ → ℤ, (index ∘ rename.symm) ∘ rename = index := by
    intro index
    rw [Function.comp_assoc, rename.symm_comp_self, Function.comp_id]
  have count : ∏ axis, (shape ∘ rename) axis = ∏ axis, shape axis :=
    rename.prod_comp shape
  rw [Dense, count]
  refine ⟨?_, ?_, ?_⟩
  · intro index inBounds
    rw [← back index] at inBounds ⊢
    rw [offset_comp]
    exact dense.mapsTo ((inBounds_comp rename).mp inBounds)
  · intro first firstIn second secondIn equal
    rw [← back first] at firstIn equal ⊢
    rw [← back second] at secondIn equal ⊢
    rw [offset_comp, offset_comp] at equal
    rw [dense.injOn ((inBounds_comp rename).mp firstIn)
      ((inBounds_comp rename).mp secondIn) equal]
  · intro place inRow
    obtain ⟨index, inBounds, equal⟩ := dense.surjOn inRow
    refine ⟨index ∘ rename, (inBounds_comp rename).mpr inBounds, ?_⟩
    rw [offset_comp, equal]

omit [Fintype ι] in
/-- A layout that uses an axis twice stores two elements in one place. -/
theorem not_injOn_comp {select : κ → ι} (large : ∀ axis, 2 ≤ shape axis)
    {first second : κ} (same : select first = select second)
    (different : first ≠ second) :
    ¬Set.InjOn (offset (strides ∘ select))
      {index | InBounds (shape ∘ select) index} := by
  classical
  intro injective
  have inBounds : ∀ axis : κ,
      InBounds (shape ∘ select) (Pi.single axis 1) := by
    intro axis other
    have room := large (select other)
    rw [Function.comp_apply]
    by_cases here : other = axis
    · subst here
      rw [Pi.single_eq_same]
      omega
    · rw [Pi.single_eq_of_ne here]
      omega
  have place : ∀ axis : κ,
      offset (strides ∘ select) (Pi.single axis 1) =
        strides (select axis) := by
    intro axis
    rw [offset, Fintype.sum_eq_single axis]
    · rw [Pi.single_eq_same, one_mul, Function.comp_apply]
    · intro other elsewhere
      rw [Pi.single_eq_of_ne elsewhere, zero_mul]
  have equal : (Pi.single first 1 : κ → ℤ) = Pi.single second 1 := by
    apply injective (inBounds first) (inBounds second)
    rw [place, place, same]
  have one := congrFun equal first
  rw [Pi.single_eq_same, Pi.single_eq_of_ne different] at one
  exact absurd one one_ne_zero

/-! ## The row-major layout -/

/-- The last axis has stride one, and every other axis steps over all the
axes after it. -/
def rowMajor {n : ℕ} (shape : Fin n → ℤ) (axis : Fin n) : ℤ :=
  ∏ later ∈ Finset.Ioi axis, shape later

section RowMajor

variable {n : ℕ} {shape : Fin (n + 1) → ℤ}

theorem rowMajor_zero (shape : Fin (n + 1) → ℤ) :
    rowMajor shape 0 = ∏ axis, Fin.tail shape axis :=
  Fin.prod_Ioi_zero shape

theorem rowMajor_succ (shape : Fin (n + 1) → ℤ) (axis : Fin n) :
    rowMajor shape axis.succ = rowMajor (Fin.tail shape) axis :=
  Fin.prod_Ioi_succ shape axis

theorem offset_rowMajor_succ (shape index : Fin (n + 1) → ℤ) :
    offset (rowMajor shape) index =
      index 0 * (∏ axis, Fin.tail shape axis) +
        offset (rowMajor (Fin.tail shape)) (Fin.tail index) := by
  rw [offset, Fin.sum_univ_succ, rowMajor_zero, offset]
  simp only [rowMajor_succ]
  rfl

theorem inBounds_succ {index : Fin (n + 1) → ℤ} :
    InBounds shape index ↔
      (0 ≤ index 0 ∧ index 0 < shape 0) ∧
        InBounds (Fin.tail shape) (Fin.tail index) := by
  constructor
  · intro inBounds
    exact ⟨inBounds 0, fun axis => inBounds axis.succ⟩
  · rintro ⟨first, rest⟩ axis
    cases axis using Fin.cases with
    | zero => exact first
    | succ axis => exact rest axis

/-- The position on the first axis and the place among the others can be read
off the place. -/
theorem ediv_emod_offset_rowMajor
    (tail : Dense (Fin.tail shape) (rowMajor (Fin.tail shape)))
    {index : Fin (n + 1) → ℤ} (inBounds : InBounds shape index) :
    offset (rowMajor shape) index / (∏ axis, Fin.tail shape axis) =
        index 0 ∧
      offset (rowMajor shape) index % (∏ axis, Fin.tail shape axis) =
        offset (rowMajor (Fin.tail shape)) (Fin.tail index) := by
  obtain ⟨_, rest⟩ := inBounds_succ.mp inBounds
  obtain ⟨low, high⟩ := tail.offset_mem rest
  apply (Int.ediv_emod_unique (low.trans_lt high)).mpr
  refine ⟨?_, low, high⟩
  rw [offset_rowMajor_succ]
  ring

theorem dense_rowMajor_succ (nonneg : ∀ axis, 0 ≤ shape axis)
    (tail : Dense (Fin.tail shape) (rowMajor (Fin.tail shape))) :
    Dense shape (rowMajor shape) := by
  rw [Dense, Fin.prod_univ_succ]
  change Set.BijOn _ _
    (Set.Ico 0 (shape 0 * ∏ axis, Fin.tail shape axis))
  refine ⟨?_, ?_, ?_⟩
  · intro index inBounds
    obtain ⟨first, rest⟩ := inBounds_succ.mp inBounds
    obtain ⟨low, high⟩ := tail.offset_mem rest
    rw [offset_rowMajor_succ]
    constructor
    · have before := mul_nonneg first.1 (low.trans high.le)
      omega
    · have after : (index 0 + 1) * (∏ axis, Fin.tail shape axis) ≤
          shape 0 * ∏ axis, Fin.tail shape axis :=
        mul_le_mul_of_nonneg_right (by omega) (low.trans high.le)
      rw [add_mul, one_mul] at after
      omega
  · intro first firstIn second secondIn equal
    obtain ⟨firstRow, firstRest⟩ := ediv_emod_offset_rowMajor tail firstIn
    obtain ⟨secondRow, secondRest⟩ :=
      ediv_emod_offset_rowMajor tail secondIn
    have sameRow : first 0 = second 0 := by
      rw [← firstRow, ← secondRow, equal]
    have sameRest : Fin.tail first = Fin.tail second := by
      apply tail.injOn (inBounds_succ.mp firstIn).2
        (inBounds_succ.mp secondIn).2
      rw [← firstRest, ← secondRest, equal]
    rw [← Fin.cons_self_tail first, ← Fin.cons_self_tail second, sameRow,
      sameRest]
  · intro place inRow
    obtain ⟨low, high⟩ := inRow
    have positive : 0 < ∏ axis, Fin.tail shape axis := by
      apply lt_of_le_of_ne
      · exact Finset.prod_nonneg fun axis _ => nonneg axis.succ
      · intro empty
        rw [← empty, mul_zero] at high
        omega
    obtain ⟨rest, restIn, restPlace⟩ := tail.exists_offset_eq
      (Int.emod_nonneg place positive.ne')
      (Int.emod_lt_of_pos place positive)
    refine ⟨Fin.cons (place / ∏ axis, Fin.tail shape axis) rest, ?_, ?_⟩
    · apply inBounds_succ.mpr
      rw [Fin.cons_zero, Fin.tail_cons]
      refine ⟨⟨Int.ediv_nonneg low positive.le, ?_⟩, restIn⟩
      exact Int.ediv_lt_of_lt_mul positive high
    · rw [offset_rowMajor_succ, Fin.cons_zero, Fin.tail_cons, restPlace]
      exact Int.ediv_mul_add_emod _ _

end RowMajor

theorem dense_rowMajor {n : ℕ} {shape : Fin n → ℤ}
    (nonneg : ∀ axis, 0 ≤ shape axis) :
    Dense shape (rowMajor shape) := by
  induction n with
  | zero =>
      refine ⟨?_, ?_, ?_⟩
      · intro index _
        simp [offset]
      · intro first _ second _ _
        exact Subsingleton.elim first second
      · intro place inRow
        refine ⟨Fin.elim0, fun axis => axis.elim0, ?_⟩
        simp only [Finset.univ_eq_empty, Finset.prod_empty, Set.mem_Ico]
          at inRow
        simp only [offset, Finset.univ_eq_empty, Finset.sum_empty]
        omega
  | succ n induction =>
      exact dense_rowMajor_succ nonneg
        (induction fun axis => nonneg axis.succ)

end Strided
