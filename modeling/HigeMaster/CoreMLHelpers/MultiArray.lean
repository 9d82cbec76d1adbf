import HigeMaster.CoreMLHelpers.Numbers
import HigeMaster.Strided

/-!
# Multi-arrays

A multi-array looks at the elements of an `MLMultiArray` through a shape and
strides.  Transposing and reshaping make another view of the same elements.
`none` stands for a failed precondition, an array index that does not exist, a
product that overflows, or an access outside the elements, which the program
does not check.  Only offsets are unbounded: those of elements are less than
the number of elements.
-/

namespace HigeMaster

/-- The view alone: as many strides as axes. -/
structure MultiArray where
  rank : ℕ
  shape : Fin rank → ℤ
  strides : Fin rank → ℤ

/-- `reduce(1, *)`, where one times the first factor is this factor. -/
def product : List ℤ → Option ℤ
  | [] => some 1
  | first :: rest =>
      rest.foldlM (fun product factor => intResult (product * factor)) first

namespace MultiArray

def count (array : MultiArray) : Option ℤ :=
  product (List.ofFn array.shape)

/-- The loop of `offset(for:)`. -/
def addOffsets (offset : ℤ) : List ℤ → List ℤ → Option ℤ
  | [], _ => some offset
  | _ :: _, [] => none
  | index :: indices, stride :: strides =>
      addOffsets (offset + index * stride) indices strides

/-- `offset(for:)`, which the subscripts with several indices write out.  Too
few indices leave out the last axes. -/
def offset (array : MultiArray) (indices : List ℤ) : Option ℤ :=
  addOffsets 0 indices (List.ofFn array.strides)

/-- The element that a pointer with this offset points to. -/
def pointee {T : Type*} (elements : List T) (offset : ℤ) : Option T :=
  if 0 ≤ offset then elements[offset.toNat]? else none

def get {T : Type*} (array : MultiArray) (elements : List T)
    (indices : List ℤ) : Option T :=
  (array.offset indices).bind (pointee elements)

/-- The elements after an assignment to a subscript. -/
def set {T : Type*} (array : MultiArray) (elements : List T)
    (indices : List ℤ) (newValue : T) : Option (List T) :=
  (array.offset indices).bind fun offset =>
    if 0 ≤ offset ∧ offset < elements.length then
      some (elements.set offset.toNat newValue)
    else
      none

/-- The order has an entry for each axis, and each entry is an axis. -/
def Fits (array : MultiArray) (order : List ℤ) : Prop :=
  order.length = array.rank ∧
    ∀ entry ∈ order, 0 ≤ entry ∧ entry < array.rank

instance (array : MultiArray) (order : List ℤ) :
    Decidable (array.Fits order) :=
  inferInstanceAs (Decidable (order.length = array.rank ∧
    ∀ entry ∈ order, 0 ≤ entry ∧ entry < array.rank))

/-- `order[i]` as an axis. -/
def Fits.axis {array : MultiArray} {order : List ℤ} (fits : array.Fits order)
    (i : Fin array.rank) : Fin array.rank :=
  ⟨(order.get (i.cast fits.1.symm)).toNat, by
    have bounds := fits.2 _ (List.get_mem order (i.cast fits.1.symm))
    omega⟩

/-- An axis may be used more than once. -/
def transposed (array : MultiArray) (order : List ℤ) : Option MultiArray :=
  if fits : array.Fits order then
    some
      { rank := array.rank
        shape := fun i => array.shape (fits.axis i)
        strides := fun i => array.strides (fits.axis i) }
  else
    none

/-- The strides are filled in from the last one to the first one.  There is no
last one if there are no dimensions. -/
def newStrides : (rank : ℕ) → (Fin rank → ℤ) → Option (Fin rank → ℤ)
  | 0, _ => none
  | 1, _ => some fun _ => 1
  | rank + 2, dimensions => do
      let strides ← newStrides (rank + 1) (Fin.tail dimensions)
      let stride ← intResult (strides 0 * dimensions 1)
      some (Fin.cons stride strides)

def reshaped (array : MultiArray) (dimensions : List ℤ) :
    Option MultiArray := do
  let newCount ← product dimensions
  let count ← array.count
  if newCount = count then
    let strides ← newStrides dimensions.length dimensions.get
    some
      { rank := dimensions.length
        shape := dimensions.get
        strides := strides }
  else
    none

/-- The view of a new array, which Core ML lays out row by row. -/
def ofShape (shape : List ℤ) : MultiArray :=
  { rank := shape.length
    shape := shape.get
    strides := Strided.rowMajor shape.get }

end MultiArray

/-! ## Products -/

private theorem foldlM_intResult {factors : List ℤ} {start result : ℤ}
    (done : factors.foldlM (fun product factor => intResult (product * factor))
      start = some result) : result = start * factors.prod := by
  induction factors generalizing start with
  | nil =>
      rw [List.foldlM_nil] at done
      rw [List.prod_nil, mul_one, ← Option.some_inj.mp done]
  | cons factor factors induction =>
      rw [List.foldlM_cons, Option.bind_eq_bind,
        Option.bind_eq_some_iff] at done
      obtain ⟨next, computed, rest⟩ := done
      obtain ⟨_, rfl⟩ := intResult_eq_some.mp computed
      rw [induction rest, List.prod_cons, mul_assoc]

theorem product_eq {factors : List ℤ} {result : ℤ}
    (done : product factors = some result) : result = factors.prod := by
  cases factors with
  | nil => exact (Option.some_inj.mp done).symm
  | cons first rest => rw [foldlM_intResult done, List.prod_cons]

/-- If the whole product fits, so does the product of the first factors. -/
private theorem foldlM_intResult_of_pos {factors : List ℤ} {start : ℤ}
    (startPositive : 0 < start) (positive : ∀ factor ∈ factors, 0 < factor)
    (fits : start * factors.prod < 2 ^ 63) :
    factors.foldlM (fun product factor => intResult (product * factor)) start =
      some (start * factors.prod) := by
  induction factors generalizing start with
  | nil => rw [List.foldlM_nil, List.prod_nil, mul_one, Option.pure_def]
  | cons factor factors induction =>
      rw [List.forall_mem_cons] at positive
      rw [List.prod_cons, ← mul_assoc] at fits
      have nextPositive : 0 < start * factor :=
        mul_pos startPositive positive.1
      have restPositive : 0 < factors.prod := List.prod_pos positive.2
      have next : FitsInt (start * factor) := by
        refine ⟨by omega, lt_of_le_of_lt ?_ fits⟩
        exact le_mul_of_one_le_right nextPositive.le restPositive
      rw [List.foldlM_cons, intResult, if_pos next, Option.bind_eq_bind,
        Option.bind_some, induction nextPositive positive.2 fits,
        List.prod_cons, mul_assoc]

theorem product_of_pos {factors : List ℤ}
    (positive : ∀ factor ∈ factors, 0 < factor)
    (fits : factors.prod < 2 ^ 63) :
    product factors = some factors.prod := by
  cases factors with
  | nil => rfl
  | cons first rest =>
      rw [List.forall_mem_cons] at positive
      rw [List.prod_cons] at fits ⊢
      exact foldlM_intResult_of_pos positive.1 positive.2 fits

namespace MultiArray

/-! ## Counts, offsets and strides -/

theorem count_eq {array : MultiArray} {count : ℤ}
    (counted : array.count = some count) :
    count = ∏ axis, array.shape axis := by
  rw [product_eq counted, List.prod_ofFn]

theorem count_of_pos {array : MultiArray}
    (positive : ∀ axis, 0 < array.shape axis)
    (fits : ∏ axis, array.shape axis < 2 ^ 63) :
    array.count = some (∏ axis, array.shape axis) := by
  rw [← List.prod_ofFn] at fits ⊢
  exact product_of_pos (List.forall_mem_ofFn_iff.mpr positive) fits

theorem prod_get (dimensions : List ℤ) :
    ∏ axis, dimensions.get axis = dimensions.prod := by
  rw [← List.prod_ofFn, List.ofFn_get]

private theorem addOffsets_ofFn {rank : ℕ} (start : ℤ)
    (index strides : Fin rank → ℤ) :
    addOffsets start (List.ofFn index) (List.ofFn strides) =
      some (start + Strided.offset strides index) := by
  induction rank generalizing start with
  | zero => simp [addOffsets, Strided.offset]
  | succ rank induction =>
      rw [List.ofFn_succ, List.ofFn_succ, addOffsets, induction,
        Strided.offset, Strided.offset, Fin.sum_univ_succ, add_assoc]

/-- With an index for each axis the loop computes the offset. -/
theorem offset_ofFn (array : MultiArray) (index : Fin array.rank → ℤ) :
    array.offset (List.ofFn index) =
      some (Strided.offset array.strides index) := by
  rw [offset, addOffsets_ofFn, zero_add]

theorem newStrides_eq {rank : ℕ} {dimensions strides : Fin rank → ℤ}
    (done : newStrides rank dimensions = some strides) :
    strides = Strided.rowMajor dimensions := by
  induction rank with
  | zero => exact Subsingleton.elim _ _
  | succ rank induction =>
      cases rank with
      | zero =>
          rw [newStrides, Option.some_inj] at done
          funext axis
          have only : axis = 0 := by omega
          rw [← done, only, Strided.rowMajor_zero]
          rfl
      | succ rank =>
          simp only [newStrides, Option.bind_eq_bind, Option.bind_eq_some_iff,
            Option.some_inj] at done
          obtain ⟨later, laterDone, stride, computed, rfl⟩ := done
          obtain ⟨_, rfl⟩ := intResult_eq_some.mp computed
          rw [induction laterDone]
          funext axis
          cases axis using Fin.cases with
          | zero =>
              rw [Fin.cons_zero, Strided.rowMajor_zero,
                Strided.rowMajor_zero, Fin.prod_univ_succ, mul_comm]
              rfl
          | succ axis => rw [Fin.cons_succ, Strided.rowMajor_succ]

private theorem exists_newStrides {rank : ℕ} {dimensions : Fin (rank + 1) → ℤ}
    (positive : ∀ axis, 0 < dimensions axis)
    (fits : ∏ axis, dimensions axis < 2 ^ 63) :
    ∃ strides, newStrides (rank + 1) dimensions = some strides := by
  induction rank with
  | zero => exact ⟨_, rfl⟩
  | succ rank induction =>
      have tailPositive : ∀ axis, 0 < Fin.tail dimensions axis :=
        fun axis => positive axis.succ
      have later : 0 < ∏ axis, Fin.tail dimensions axis :=
        Finset.prod_pos fun axis _ => tailPositive axis
      have tailFits : ∏ axis, Fin.tail dimensions axis < 2 ^ 63 := by
        rw [Fin.prod_univ_succ dimensions] at fits
        exact lt_of_le_of_lt (le_mul_of_one_le_left later.le (positive 0)) fits
      obtain ⟨strides, done⟩ := induction tailPositive tailFits
      -- The next stride is the number of elements of the later axes.
      have stride : strides 0 * dimensions 1 =
          ∏ axis, Fin.tail dimensions axis := by
        rw [newStrides_eq done, Strided.rowMajor_zero,
          Fin.prod_univ_succ (Fin.tail dimensions), mul_comm]
        rfl
      refine ⟨Fin.cons (strides 0 * dimensions 1) strides, ?_⟩
      rw [newStrides, done, Option.bind_eq_bind, Option.bind_some, intResult,
        stride, if_pos ⟨by omega, tailFits⟩]
      rfl

theorem newStrides_of_pos {rank : ℕ} {dimensions : Fin rank → ℤ}
    (axes : rank ≠ 0) (positive : ∀ axis, 0 < dimensions axis)
    (fits : ∏ axis, dimensions axis < 2 ^ 63) :
    newStrides rank dimensions = some (Strided.rowMajor dimensions) := by
  obtain ⟨rank, rfl⟩ := Nat.exists_eq_succ_of_ne_zero axes
  obtain ⟨strides, done⟩ := exists_newStrides positive fits
  rw [done, newStrides_eq done]

end MultiArray

end HigeMaster
