import HigeMaster.CoreMLHelpers.MultiArray
import HigeMaster.EventRun.Visits
import Mathlib.Tactic.FinCases

/-!
# Views of the same elements

All views that are made of a multi-array by transposing and reshaping share its
elements.  As long as no axis is used twice, every view covers all elements
once: it is a row-major view, its axes in some order.  So no access within the
bounds of a view leaves the elements, different positions of a view are
different elements, and what is read is what was last written to the element
through any view.
-/

namespace HigeMaster

namespace MultiArray

/-- A row-major view of `size` elements with its axes in some order. -/
def Covers (array : MultiArray) (size : ℤ) : Prop :=
  ∃ (order : Equiv.Perm (Fin array.rank)) (dimensions : Fin array.rank → ℤ),
    (∀ axis, 0 ≤ dimensions axis) ∧ ∏ axis, dimensions axis = size ∧
      array.shape = dimensions ∘ order ∧
        array.strides = Strided.rowMajor dimensions ∘ order

theorem Covers.prod_shape {array : MultiArray} {size : ℤ}
    (covers : array.Covers size) : ∏ axis, array.shape axis = size := by
  obtain ⟨order, dimensions, _, product, shape, _⟩ := covers
  rw [shape, ← product]
  exact Equiv.prod_comp order dimensions

theorem Covers.shape_pos {array : MultiArray} {size : ℤ}
    (covers : array.Covers size) (nonempty : 0 < size)
    (axis : Fin array.rank) : 0 < array.shape axis := by
  have product := covers.prod_shape
  obtain ⟨order, dimensions, nonneg, _, shape, _⟩ := covers
  apply lt_of_le_of_ne
  · rw [shape]
    exact nonneg (order axis)
  · intro empty
    rw [Finset.prod_eq_zero (Finset.mem_univ axis) empty.symm] at product
    omega

theorem Covers.dense {array : MultiArray} {size : ℤ}
    (covers : array.Covers size) :
    Strided.Dense array.shape array.strides := by
  obtain ⟨order, dimensions, nonneg, _, shape, strides⟩ := covers
  rw [shape, strides]
  exact (Strided.dense_rowMajor nonneg).comp order

theorem Covers.offset_mem {array : MultiArray} {size : ℤ}
    (covers : array.Covers size) {index : Fin array.rank → ℤ}
    (inBounds : Strided.InBounds array.shape index) :
    0 ≤ Strided.offset array.strides index ∧
      Strided.offset array.strides index < size := by
  have within := covers.dense.offset_mem inBounds
  rwa [covers.prod_shape] at within

theorem covers_ofShape {shape : List ℤ}
    (nonneg : ∀ dimension ∈ shape, 0 ≤ dimension) :
    (ofShape shape).Covers shape.prod := by
  refine ⟨Equiv.refl _, shape.get, ?_, prod_get shape, rfl, rfl⟩
  intro axis
  exact nonneg _ (List.get_mem shape axis)

theorem Covers.exists_get {T : Type} {array : MultiArray} {elements : List T}
    (covers : array.Covers elements.length) {index : Fin array.rank → ℤ}
    (inBounds : Strided.InBounds array.shape index) :
    ∃ element ∈ elements,
      array.get elements (List.ofFn index) = some element := by
  obtain ⟨low, high⟩ := covers.offset_mem inBounds
  have inside : (Strided.offset array.strides index).toNat <
      elements.length := by
    omega
  refine ⟨elements[(Strided.offset array.strides index).toNat],
    List.getElem_mem inside, ?_⟩
  rw [get, array.offset_ofFn, Option.bind_some, pointee, if_pos low,
    List.getElem?_eq_getElem inside]

theorem Covers.exists_index {T : Type} {array : MultiArray}
    {elements : List T} (covers : array.Covers elements.length) {element : T}
    (member : element ∈ elements) :
    ∃ index, Strided.InBounds array.shape index ∧
      array.get elements (List.ofFn index) = some element := by
  obtain ⟨place, inside, rfl⟩ := List.mem_iff_getElem.mp member
  have count : (place : ℤ) < ∏ axis, array.shape axis := by
    rw [covers.prod_shape]
    exact_mod_cast inside
  obtain ⟨index, inBounds, there⟩ :=
    covers.dense.exists_offset_eq (Int.natCast_nonneg place) count
  refine ⟨index, inBounds, ?_⟩
  rw [get, array.offset_ofFn, Option.bind_some, there, pointee,
    if_pos (Int.natCast_nonneg place), Int.toNat_natCast,
    List.getElem?_eq_getElem inside]

theorem Fits.axis_injective {array : MultiArray} {order : List ℤ}
    (fits : array.Fits order) (once : order.Nodup) :
    Function.Injective fits.axis := by
  intro first second same
  have firstBounds := fits.2 _ (List.get_mem order (first.cast fits.1.symm))
  have secondBounds :=
    fits.2 _ (List.get_mem order (second.cast fits.1.symm))
  have places := congrArg Fin.val same
  simp only [Fits.axis] at places
  have entries : order.get (first.cast fits.1.symm) =
      order.get (second.cast fits.1.symm) := by
    omega
  have indices := once.injective_get entries
  exact Fin.cast_injective _ indices

theorem transposed_eq_some {array other : MultiArray} {order : List ℤ}
    (made : array.transposed order = some other) :
    ∃ fits : array.Fits order,
      other =
        { rank := array.rank
          shape := array.shape ∘ fits.axis
          strides := array.strides ∘ fits.axis } := by
  rw [transposed] at made
  by_cases fits : array.Fits order
  · rw [dif_pos fits, Option.some_inj] at made
    exact ⟨fits, made.symm⟩
  · rw [dif_neg fits] at made
    cases made

theorem Covers.transposed {array other : MultiArray} {size : ℤ}
    {order : List ℤ} (covers : array.Covers size) (once : order.Nodup)
    (made : array.transposed order = some other) : other.Covers size := by
  obtain ⟨fits, rfl⟩ := transposed_eq_some made
  obtain ⟨before, dimensions, nonneg, product, shape, strides⟩ := covers
  have bijective : Function.Bijective fits.axis :=
    Finite.injective_iff_bijective.mp (fits.axis_injective once)
  refine ⟨(Equiv.ofBijective fits.axis bijective).trans before, dimensions,
    nonneg, product, ?_, ?_⟩
  · change array.shape ∘ fits.axis = _
    rw [shape]
    rfl
  · change array.strides ∘ fits.axis = _
    rw [strides]
    rfl

/-- Any order with an axis for each axis is accepted, but only one that uses
each axis once makes a view without shared or missing elements. -/
theorem transposed_dense_iff {array : MultiArray} {size : ℤ}
    (covers : array.Covers size) (large : ∀ axis, 2 ≤ array.shape axis)
    (order : List ℤ) :
    ((∃ other, array.transposed order = some other) ↔ array.Fits order) ∧
      ∀ other, array.transposed order = some other →
        (Strided.Dense other.shape other.strides ↔ order.Nodup) ∧
          (Set.BijOn (Strided.offset other.strides)
            {index | Strided.InBounds other.shape index} (Set.Ico 0 size) ↔
              order.Nodup) := by
  constructor
  · constructor
    · rintro ⟨other, made⟩
      exact (transposed_eq_some made).1
    · intro fits
      exact ⟨_, dif_pos fits⟩
  · intro other made
    have repeated : Set.InjOn (Strided.offset other.strides)
        {index | Strided.InBounds other.shape index} → order.Nodup := by
      intro injective
      obtain ⟨fits, rfl⟩ := transposed_eq_some made
      apply List.nodup_iff_injective_get.mpr
      intro first second same
      by_contra different
      have axes : fits.axis (first.cast fits.1) =
          fits.axis (second.cast fits.1) :=
        Fin.ext (congrArg Int.toNat same)
      apply Strided.not_injOn_comp large axes _ injective
      intro equal
      exact different (Fin.cast_injective fits.1 equal)
    refine ⟨⟨fun dense => repeated dense.injOn, ?_⟩,
      ⟨fun stored => repeated stored.injOn, ?_⟩⟩
    · intro once
      exact (covers.transposed once made).dense
    · intro once
      have kept := covers.transposed once made
      rw [← kept.prod_shape]
      exact kept.dense

theorem transposed_dense_iff_diagonal :
    ((∃ other, (ofShape [2, 3]).transposed [0, 0] = some other) ↔
        (ofShape [2, 3]).Fits [0, 0]) ∧
      ∀ other, (ofShape [2, 3]).transposed [0, 0] = some other →
        (Strided.Dense other.shape other.strides ↔
          ([0, 0] : List ℤ).Nodup) ∧
          (Set.BijOn (Strided.offset other.strides)
            {index | Strided.InBounds other.shape index} (Set.Ico 0 6) ↔
              ([0, 0] : List ℤ).Nodup) := by
  have covers : (ofShape [2, 3]).Covers 6 := covers_ofShape (by decide)
  have large : ∀ axis : Fin 2, 2 ≤ List.get [(2 : ℤ), 3] axis := by decide
  exact transposed_dense_iff covers large [0, 0]

theorem reshaped_eq_some {array other : MultiArray} {dimensions : List ℤ}
    (made : array.reshaped dimensions = some other) :
    dimensions.prod = ∏ axis, array.shape axis ∧
      other =
        { rank := dimensions.length
          shape := dimensions.get
          strides := Strided.rowMajor dimensions.get } := by
  simp only [reshaped, Option.bind_eq_bind, Option.bind_eq_some_iff,
    Option.ite_none_right_eq_some, Option.some_inj] at made
  obtain ⟨newCount, multiplied, count, counted, same, strides, done, rfl⟩ :=
    made
  rw [← product_eq multiplied, ← count_eq counted, newStrides_eq done]
  exact ⟨same, rfl⟩

/-- Reshaping forgets in which order the axes were. -/
theorem Covers.reshaped {array other : MultiArray} {size : ℤ}
    {dimensions : List ℤ} (covers : array.Covers size)
    (nonneg : ∀ dimension ∈ dimensions, 0 ≤ dimension)
    (made : array.reshaped dimensions = some other) : other.Covers size := by
  obtain ⟨count, rfl⟩ := reshaped_eq_some made
  rw [covers.prod_shape] at count
  refine ⟨Equiv.refl _, dimensions.get, ?_, (prod_get dimensions).trans count,
    rfl, rfl⟩
  intro axis
  exact nonneg _ (List.get_mem dimensions axis)

/-- No product overflows if there is an element, but not too many. -/
theorem Covers.exists_reshaped {array : MultiArray} {size : ℤ}
    {dimensions : List ℤ} (covers : array.Covers size) (nonempty : 0 < size)
    (fits : size < 2 ^ 63)
    (nonneg : ∀ dimension ∈ dimensions, 0 ≤ dimension)
    (count : dimensions.prod = size) (axes : dimensions ≠ []) :
    ∃ other, array.reshaped dimensions = some other := by
  have positive : ∀ dimension ∈ dimensions, 0 < dimension := by
    intro dimension member
    apply lt_of_le_of_ne (nonneg dimension member)
    intro empty
    rw [List.prod_eq_zero (empty ▸ member)] at count
    omega
  have same : ∏ axis, array.shape axis = dimensions.prod := by
    rw [covers.prod_shape, count]
  have counted := count_of_pos (covers.shape_pos nonempty)
    (covers.prod_shape ▸ fits)
  have laidOut : newStrides dimensions.length dimensions.get =
      some (Strided.rowMajor dimensions.get) := by
    apply newStrides_of_pos (List.length_pos_iff.mpr axes).ne'
    · intro axis
      exact positive _ (List.get_mem dimensions axis)
    · rw [prod_get, count]
      exact fits
  rw [← count] at fits
  simp only [MultiArray.reshaped, product_of_pos positive fits, counted, same,
    laidOut, Option.bind_eq_bind, Option.bind_some, if_pos]
  exact ⟨_, rfl⟩

/-- Without elements the strides can overflow. -/
example : ((ofShape [0]).reshaped [0, 2 ^ 40, 2 ^ 40]).isNone := by decide

end MultiArray

/-! ## Programs that use views -/

/-- The elements and all views of them. -/
structure Views (T : Type) where
  elements : List T
  arrays : List MultiArray

/-- What a program does with the view at a place in the list. -/
inductive ViewUse (T : Type) where
  | transposed (which : ℕ) (order : List ℤ)
  | reshaped (which : ℕ) (dimensions : List ℤ)
  | set (which : ℕ) (indices : List ℤ) (newValue : T)

namespace Views

variable {T : Type}

/-- The same elements and one more view. -/
def addArray (state : Views T) (array : MultiArray) : Views T :=
  { state with arrays := state.arrays ++ [array] }

def step (state : Views T) : ViewUse T → Option (Views T)
  | .transposed which order =>
      state.arrays[which]?.bind fun array =>
        (array.transposed order).map state.addArray
  | .reshaped which dimensions =>
      state.arrays[which]?.bind fun array =>
        (array.reshaped dimensions).map state.addArray
  | .set which indices newValue =>
      state.arrays[which]?.bind fun array =>
        (array.set state.elements indices newValue).map fun elements =>
          { state with elements := elements }

/-- Every view covers the elements. -/
def Covered (state : Views T) : Prop :=
  ∀ array ∈ state.arrays, array.Covers state.elements.length

/-- What the functions expect of their callers: an order that uses each axis
once, dimensions with the same count, and indices within bounds. -/
def Expected (state : Views T) : ViewUse T → Prop
  | .transposed which order =>
      ∃ array, state.arrays[which]? = some array ∧ array.Fits order ∧
        order.Nodup
  | .reshaped which dimensions =>
      ∃ array, state.arrays[which]? = some array ∧
        dimensions.prod = ∏ axis, array.shape axis ∧ dimensions ≠ [] ∧
          ∀ dimension ∈ dimensions, 0 ≤ dimension
  | .set which indices _ =>
      ∃ array, state.arrays[which]? = some array ∧
        ∃ index, Strided.InBounds array.shape index ∧
          indices = List.ofFn index

theorem Covered.addArray {state : Views T} {other : MultiArray}
    (covered : state.Covered) (covers : other.Covers state.elements.length) :
    (state.addArray other).Covered := by
  intro array member
  rcases List.mem_append.mp member with old | new
  · exact covered array old
  · rw [List.mem_singleton] at new
    subst new
    exact covers

theorem covered_step {state next : Views T} {event : ViewUse T}
    (covered : state.Covered) (expected : state.Expected event)
    (taken : state.step event = some next) : next.Covered := by
  cases event with
  | transposed which order =>
      obtain ⟨array, found, _, once⟩ := expected
      rw [step, found, Option.bind_some, Option.map_eq_some_iff] at taken
      obtain ⟨other, made, rfl⟩ := taken
      have covers := covered array (List.mem_of_getElem? found)
      exact covered.addArray (covers.transposed once made)
  | reshaped which dimensions =>
      obtain ⟨array, found, _, _, nonneg⟩ := expected
      rw [step, found, Option.bind_some, Option.map_eq_some_iff] at taken
      obtain ⟨other, made, rfl⟩ := taken
      have covers := covered array (List.mem_of_getElem? found)
      exact covered.addArray (covers.reshaped nonneg made)
  | set which indices newValue =>
      simp only [step, MultiArray.set, Option.bind_eq_some_iff,
        Option.map_eq_some_iff, Option.ite_none_right_eq_some,
        Option.some_inj] at taken
      obtain ⟨_, _, _, ⟨_, _, _, rfl⟩, rfl⟩ := taken
      intro other there
      rw [List.length_set]
      exact covered other there

/-- Nothing that is expected stops the program or leaves the elements. -/
theorem exists_step {state : Views T} {event : ViewUse T}
    (covered : state.Covered) (nonempty : state.elements ≠ [])
    (fits : (state.elements.length : ℤ) < 2 ^ 63)
    (expected : state.Expected event) : ∃ next, state.step event = some next := by
  cases event with
  | transposed which order =>
      obtain ⟨array, found, fitting, _⟩ := expected
      rw [step, found, Option.bind_some, MultiArray.transposed,
        dif_pos fitting, Option.map_some]
      exact ⟨_, rfl⟩
  | reshaped which dimensions =>
      obtain ⟨array, found, count, axes, nonneg⟩ := expected
      have covers := covered array (List.mem_of_getElem? found)
      rw [covers.prod_shape] at count
      have positive : (0 : ℤ) < state.elements.length :=
        Int.natCast_pos.mpr (List.length_pos_iff.mpr nonempty)
      obtain ⟨other, made⟩ :=
        covers.exists_reshaped positive fits nonneg count axes
      refine ⟨state.addArray other, ?_⟩
      rw [step, found, Option.bind_some, made, Option.map_some]
  | set which indices newValue =>
      obtain ⟨array, found, index, inBounds, rfl⟩ := expected
      have covers := covered array (List.mem_of_getElem? found)
      rw [step, found, Option.bind_some, MultiArray.set, array.offset_ofFn,
        Option.bind_some, if_pos (covers.offset_mem inBounds),
        Option.map_some]
      exact ⟨_, rfl⟩

theorem length_step {state next : Views T} {event : ViewUse T}
    (taken : state.step event = some next) :
    next.elements.length = state.elements.length := by
  cases event with
  | transposed which order =>
      simp only [step, Option.bind_eq_some_iff, Option.map_eq_some_iff]
        at taken
      obtain ⟨_, _, _, _, rfl⟩ := taken
      rfl
  | reshaped which dimensions =>
      simp only [step, Option.bind_eq_some_iff, Option.map_eq_some_iff]
        at taken
      obtain ⟨_, _, _, _, rfl⟩ := taken
      rfl
  | set which indices newValue =>
      simp only [step, MultiArray.set, Option.bind_eq_some_iff,
        Option.map_eq_some_iff, Option.ite_none_right_eq_some,
        Option.some_inj] at taken
      obtain ⟨_, _, _, ⟨_, _, _, rfl⟩, rfl⟩ := taken
      exact List.length_set

/-- A new array with zeros and its only view. -/
def ofShape [Zero T] (shape : List ℤ) : Views T :=
  { elements := List.replicate shape.prod.toNat 0
    arrays := [MultiArray.ofShape shape] }

theorem covered_ofShape [Zero T] {shape : List ℤ}
    (nonneg : ∀ dimension ∈ shape, 0 ≤ dimension) :
    (ofShape shape : Views T).Covered := by
  intro array member
  have only : array = MultiArray.ofShape shape := List.mem_singleton.mp member
  have product : 0 ≤ shape.prod := List.prod_nonneg nonneg
  subst only
  have covers := MultiArray.covers_ofShape nonneg
  simpa [ofShape, product] using covers

/-- A two by three array is transposed and its corner is set in the
transposed view. -/
def transposeAndSet : List (ViewUse ℤ) :=
  [.transposed 0 [1, 0], .set 1 [2, 1] 5]

private theorem transposeAndSet_expected :
    EventRun.Disciplined step Expected (ofShape [2, 3]) transposeAndSet := by
  have fits : (MultiArray.ofShape [2, 3]).Fits [1, 0] := by decide
  rw [transposeAndSet, EventRun.disciplined_cons]
  refine ⟨⟨_, rfl, fits, by decide⟩, ?_⟩
  intro next taken
  rw [EventRun.disciplined_cons]
  refine ⟨?_, fun _ _ => EventRun.disciplined_nil⟩
  obtain rfl : (ofShape [2, 3]).addArray
      { rank := 2
        shape := fun i => (MultiArray.ofShape [2, 3]).shape (fits.axis i)
        strides := fun i =>
          (MultiArray.ofShape [2, 3]).strides (fits.axis i) } = next :=
    Option.some_inj.mp taken
  refine ⟨_, rfl, ![2, 1], ?_, rfl⟩
  intro axis
  change Fin 2 at axis
  fin_cases axis
  · exact ⟨by decide, (by decide : (2 : ℤ) < 3)⟩
  · exact ⟨by decide, (by decide : (1 : ℤ) < 2)⟩

private theorem covered_of_run {start final : Views T}
    (covered : start.Covered) {events : List (ViewUse T)}
    (expected : EventRun.Disciplined step Expected start events)
    (completed : EventRun.run step start events = some final) :
    final.Covered :=
  (EventRun.always_of_disciplined covered
    (fun _ _ _ => covered_step) expected).final completed

private theorem exists_run {start : Views T} (covered : start.Covered)
    (nonempty : start.elements ≠ [])
    (fits : (start.elements.length : ℤ) < 2 ^ 63)
    {events : List (ViewUse T)}
    (expected : EventRun.Disciplined step Expected start events) :
    ∃ final, EventRun.run step start events = some final := by
  obtain ⟨final, completed, _⟩ := EventRun.run_progress
    (I := fun state : Views T => state.Covered ∧
      state.elements.length = start.elements.length) ⟨covered, rfl⟩
    (fun state event kept allowed => by
      obtain ⟨next, taken⟩ := exists_step kept.1
        (List.length_pos_iff.mp
          (kept.2 ▸ List.length_pos_iff.mpr nonempty))
        (kept.2 ▸ fits) allowed
      exact ⟨next, taken, covered_step kept.1 allowed taken,
        (length_step taken).trans kept.2⟩) expected
  exact ⟨final, completed⟩

/-- As long as the program does what is expected, it goes on if there is an
element, but not too many, every view covers the elements once, and every read
within bounds finds an element. -/
theorem views_stay_covered {start : Views T} (covered : start.Covered)
    {events : List (ViewUse T)}
    (expected : EventRun.Disciplined step Expected start events) :
    (start.elements ≠ [] → (start.elements.length : ℤ) < 2 ^ 63 →
      ∃ final, EventRun.run step start events = some final) ∧
    ∀ final, EventRun.run step start events = some final →
      final.elements.length = start.elements.length ∧
        ∀ array ∈ final.arrays,
          array.Covers final.elements.length ∧
            ∀ index, Strided.InBounds array.shape index →
              ∃ element,
                array.get final.elements (List.ofFn index) = some element := by
  refine ⟨fun nonempty fits => exists_run covered nonempty fits expected, ?_⟩
  intro final completed
  have kept := covered_of_run covered expected completed
  have length : final.elements.length = start.elements.length :=
    EventRun.invariant (I := fun state : Views T =>
      state.elements.length = start.elements.length) rfl
      (fun _ _ _ same taken => (length_step taken).trans same) completed
  refine ⟨length, ?_⟩
  intro array member
  refine ⟨kept array member, ?_⟩
  intro index inBounds
  obtain ⟨element, _, found⟩ := (kept array member).exists_get inBounds
  exact ⟨element, found⟩

theorem views_stay_covered_transposeAndSet :
    ∃ final, EventRun.run step (ofShape [2, 3]) transposeAndSet = some final ∧
      final.elements.length = 6 ∧
        ∀ array ∈ final.arrays,
          array.Covers final.elements.length ∧
            ∀ index, Strided.InBounds array.shape index →
              ∃ element,
                array.get final.elements (List.ofFn index) = some element := by
  obtain ⟨goes, kept⟩ := views_stay_covered (covered_ofShape (by decide))
    transposeAndSet_expected
  obtain ⟨final, completed⟩ := goes (by decide) (by decide)
  exact ⟨final, completed, kept final completed⟩

/-! ## Reading what was written -/

/-- What a step writes to the element at a place. -/
def written (place : ℤ) : Views T × ViewUse T → Option (Option T)
  | (state, .set which indices newValue) =>
      if (state.arrays[which]?.bind fun array => array.offset indices) =
          some place then
        some (some newValue)
      else
        none
  | _ => none

private theorem pointee_set {elements : List T} {offset place : ℤ}
    (inside : 0 ≤ offset ∧ offset < elements.length) (newValue : T) :
    MultiArray.pointee (elements.set offset.toNat newValue) place =
      if offset = place then some newValue
      else MultiArray.pointee elements place := by
  by_cases same : offset = place
  · subst same
    rw [if_pos rfl, MultiArray.pointee, if_pos inside.1,
      List.getElem?_set_self (by omega)]
  · rw [if_neg same, MultiArray.pointee, MultiArray.pointee]
    by_cases nonneg : 0 ≤ place
    · rw [if_pos nonneg, if_pos nonneg, List.getElem?_set_ne (by omega)]
    · rw [if_neg nonneg, if_neg nonneg]

/-- A step changes an element exactly if it writes to its place. -/
theorem pointee_step {state next : Views T} {event : ViewUse T}
    (taken : state.step event = some next) (place : ℤ) :
    MultiArray.pointee next.elements place =
      (written place (state, event)).getD
        (MultiArray.pointee state.elements place) := by
  cases event with
  | transposed which order =>
      simp only [step, Option.bind_eq_some_iff, Option.map_eq_some_iff]
        at taken
      obtain ⟨_, _, _, _, rfl⟩ := taken
      rfl
  | reshaped which dimensions =>
      simp only [step, Option.bind_eq_some_iff, Option.map_eq_some_iff]
        at taken
      obtain ⟨_, _, _, _, rfl⟩ := taken
      rfl
  | set which indices newValue =>
      simp only [step, MultiArray.set, Option.bind_eq_some_iff,
        Option.map_eq_some_iff, Option.ite_none_right_eq_some,
        Option.some_inj] at taken
      obtain ⟨array, found, _, ⟨offset, located, inside, rfl⟩, rfl⟩ := taken
      rw [pointee_set inside, written, found, Option.bind_some, located]
      by_cases same : offset = place
      · rw [if_pos same, if_pos (congrArg some same), Option.getD_some]
      · rw [if_neg same, if_neg (by simpa using same), Option.getD_none]

/-- What is read through a view is what was last written, through any view, to
the element, and different positions of the view are different elements. -/
theorem get_last_written {start final : Views T} (covered : start.Covered)
    {events : List (ViewUse T)}
    (expected : EventRun.Disciplined step Expected start events)
    (completed : EventRun.run step start events = some final)
    {array : MultiArray} (member : array ∈ final.arrays)
    {index : Fin array.rank → ℤ}
    (inBounds : Strided.InBounds array.shape index) :
    ∃ place, array.offset (List.ofFn index) = some place ∧
      array.get final.elements (List.ofFn index) =
        ((EventRun.visits step start events).filterMap
          (written place)).getLastD
            (MultiArray.pointee start.elements place) ∧
      ∀ other, Strided.InBounds array.shape other →
        array.offset (List.ofFn other) = some place → other = index := by
  have covers := covered_of_run covered expected completed
  have dense := (covers array member).dense
  refine ⟨Strided.offset array.strides index, array.offset_ofFn index, ?_, ?_⟩
  · rw [MultiArray.get, array.offset_ofFn, Option.bind_some]
    exact EventRun.last_write (I := fun _ => True)
      (fun state => MultiArray.pointee state.elements
        (Strided.offset array.strides index)) _ trivial
      (fun _ _ _ _ _ => trivial)
      (fun _ _ _ _ taken => pointee_step taken _) completed
  · intro other otherIn same
    rw [array.offset_ofFn, Option.some_inj] at same
    exact (dense.offset_inj otherIn inBounds).mp same

theorem get_last_written_transposeAndSet :
    ∃ final, EventRun.run step (ofShape [2, 3]) transposeAndSet = some final ∧
      ∀ array ∈ final.arrays, ∀ index,
        Strided.InBounds array.shape index →
          ∃ place, array.offset (List.ofFn index) = some place ∧
            array.get final.elements (List.ofFn index) =
              ((EventRun.visits step (ofShape [2, 3])
                transposeAndSet).filterMap (written place)).getLastD
                  (MultiArray.pointee [0, 0, 0, 0, 0, 0] place) ∧
            ∀ other, Strided.InBounds array.shape other →
              array.offset (List.ofFn other) = some place →
                other = index := by
  have covered : (ofShape [2, 3] : Views ℤ).Covered :=
    covered_ofShape (by decide)
  obtain ⟨final, completed⟩ := exists_run covered (by decide) (by decide)
    transposeAndSet_expected
  refine ⟨final, completed, ?_⟩
  intro array member index inBounds
  exact get_last_written covered transposeAndSet_expected completed member
    inBounds

end Views

end HigeMaster
