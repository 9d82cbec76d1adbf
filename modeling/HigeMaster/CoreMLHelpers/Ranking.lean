import HigeMaster.Sorting
import HigeMaster.UIKit.Image

/-!
# The largest elements and the best predictions

`argmax` finds the first largest element of an array, `argsort` the order of
the indices by element, `gather` the elements at indices, and `top` the best
predictions of a classifier.  A dictionary is a list of pairs with different
keys in an order that the program must not rely on.
-/

namespace HigeMaster

section Elements

variable {α : Type}

/-- The loop of `argmax()`. -/
def argmaxFrom [LinearOrder α] (maxIndex : ℕ) (maxValue : α) (i : ℕ) :
    List α → ℕ × α
  | [] => (maxIndex, maxValue)
  | element :: rest =>
      if element > maxValue then
        argmaxFrom i element (i + 1) rest
      else
        argmaxFrom maxIndex maxValue (i + 1) rest

/-- An empty array stops the program. -/
def argmax [LinearOrder α] : List α → Option (ℕ × α)
  | [] => none
  | first :: rest => some (argmaxFrom 0 first 1 rest)

def argsort (sort : Sorting.Method) (elements : List α)
    (areInIncreasingOrder : α → α → Bool) : List ℤ :=
  (sort.sorted (fun first second : Fin elements.length =>
    areInIncreasingOrder elements[first] elements[second])
      (List.finRange elements.length)).map fun index : Fin _ => (index : ℤ)

/-- The loop of `gather(indices:)`; an index that does not exist stops the
program. -/
def gatherFrom (elements a : List α) : List ℤ → Option (List α)
  | [] => some a
  | i :: indices =>
      if 0 ≤ i then
        elements[i.toNat]?.bind fun element =>
          gatherFrom elements (a ++ [element]) indices
      else
        none

def gather (elements : List α) (indices : List ℤ) : Option (List α) :=
  gatherFrom elements [] indices

end Elements

/-- `prefix(through:)` of an array. -/
def prefixThrough {α : Type} (items : List α) (position : ℤ) :
    Option (List α) :=
  if 0 ≤ position + 1 ∧ position + 1 ≤ items.length then
    some (items.take (position + 1).toNat)
  else
    none

/-- `top(_:_:)` of the results of a Core ML classifier. -/
def top (sort : Sorting.Method) (k : ℤ) (prob : List (String × CGFloat)) :
    Option (List (String × CGFloat)) :=
  prefixThrough (sort.sorted (fun a b => a.2 > b.2) prob)
    (min k prob.length - 1)

structure VNClassificationObservation where
  identifier : String
  confidence : CGFloat
  deriving DecidableEq

/-- `top(_:_:)` of the results of Vision, which are sorted already. -/
def topObservations (k : ℤ)
    (observations : List VNClassificationObservation) :
    Option (List (String × CGFloat)) :=
  (prefixThrough observations (min k observations.length - 1)).map
    (List.map fun observation =>
      (observation.identifier, observation.confidence))

/-! ## The largest element -/

section Argmax

variable {α : Type} [LinearOrder α]

/-- The first of the largest elements. -/
structure FirstLargest (elements : List α) (index : ℕ) (value : α) :
    Prop where
  found : elements[index]? = some value
  largest : ∀ element ∈ elements, element ≤ value
  first : ∀ earlier < index, ∀ element, elements[earlier]? = some element →
    element < value

namespace FirstLargest

variable {before : List α} {index : ℕ} {value element : α}

private theorem index_lt (largest : FirstLargest before index value) :
    index < before.length :=
  (List.getElem?_eq_some_iff.mp largest.found).1

theorem append_larger (largest : FirstLargest before index value)
    (larger : value < element) :
    FirstLargest (before ++ [element]) before.length element where
  found := by
    rw [List.getElem?_append_right le_rfl, Nat.sub_self]
    rfl
  largest other member := by
    rcases List.mem_append.mp member with old | new
    · exact (largest.largest other old).trans larger.le
    · rw [List.mem_singleton.mp new]
  first earlier less other there := by
    rw [List.getElem?_append_left less] at there
    exact (largest.largest other (List.mem_of_getElem? there)).trans_lt larger

theorem append_not_larger (largest : FirstLargest before index value)
    (notLarger : element ≤ value) :
    FirstLargest (before ++ [element]) index value where
  found := by
    rw [List.getElem?_append_left largest.index_lt]
    exact largest.found
  largest other member := by
    rcases List.mem_append.mp member with old | new
    · exact largest.largest other old
    · rw [List.mem_singleton.mp new]
      exact notLarger
  first earlier less other there := by
    rw [List.getElem?_append_left (less.trans largest.index_lt)] at there
    exact largest.first earlier less other there

end FirstLargest

/-- The loop keeps the first largest of the elements it has seen. -/
theorem firstLargest_argmaxFrom {before : List α} {maxIndex : ℕ}
    {maxValue : α} (largest : FirstLargest before maxIndex maxValue)
    (rest : List α) :
    let result := argmaxFrom maxIndex maxValue before.length rest
    FirstLargest (before ++ rest) result.1 result.2 := by
  induction rest generalizing before maxIndex maxValue with
  | nil =>
      rw [List.append_nil]
      exact largest
  | cons element rest induction =>
      have length : (before ++ [element]).length = before.length + 1 :=
        List.length_append
      rw [List.append_cons, argmaxFrom, ← length]
      by_cases larger : element > maxValue
      · rw [if_pos larger]
        exact induction (largest.append_larger larger)
      · rw [if_neg larger]
        exact induction (largest.append_not_larger (not_lt.mp larger))

theorem firstLargest_argmax {elements : List α} {index : ℕ} {value : α}
    (result : argmax elements = some (index, value)) :
    FirstLargest elements index value := by
  cases elements with
  | nil => cases result
  | cons first rest =>
      have alone : FirstLargest [first] 0 first := by
        refine ⟨rfl, ?_, fun _ => by omega⟩
        intro element member
        rw [List.mem_singleton.mp member]
      have largest := firstLargest_argmaxFrom alone rest
      rw [argmax, Option.some_inj] at result
      rw [List.length_singleton, result] at largest
      exact largest

end Argmax

/-! ## Sorted indices -/

section Argsort

variable {α : Type}

private theorem gatherFrom_eq (elements a : List α)
    (indices : List (Fin elements.length)) :
    gatherFrom elements a (indices.map fun index : Fin _ => (index : ℤ)) =
      some (a ++ indices.map elements.get) := by
  induction indices generalizing a with
  | nil => simp [gatherFrom]
  | cons index indices induction =>
      have element : elements[((index : ℕ) : ℤ).toNat]? =
          some (elements.get index) := by
        rw [Int.toNat_natCast, List.getElem?_eq_getElem index.isLt]
        rfl
      simp only [List.map_cons, gatherFrom]
      rw [if_pos (Int.natCast_nonneg _), element, Option.bind_some, induction,
        List.append_assoc, List.singleton_append]

theorem gather_argsort (sort : Sorting.Method) (elements : List α)
    {areInIncreasingOrder : α → α → Bool}
    (weak : Sorting.IsStrictWeak areInIncreasingOrder) :
    ∃ sorted,
      gather elements (argsort sort elements areInIncreasingOrder) =
        some sorted ∧
      sorted.Perm elements ∧
        sorted.Pairwise fun first second =>
          areInIncreasingOrder second first = false := by
  refine ⟨_, gatherFrom_eq elements [] _, ?_, ?_⟩
  · rw [List.nil_append]
    have perm := (sort.perm (fun first second : Fin elements.length =>
      areInIncreasingOrder elements[first] elements[second])
        (List.finRange elements.length)).map elements.get
    rwa [List.map_get_finRange] at perm
  · have weakIndices : Sorting.IsStrictWeak
        fun first second : Fin elements.length =>
          areInIncreasingOrder elements[first] elements[second] :=
      ⟨fun first second => weak.asymm _ _,
        fun first second third => weak.transitive _ _ _⟩
    rw [List.nil_append, List.pairwise_map]
    exact sort.ordered weakIndices (List.finRange elements.length)

/-- `argmax` finds the first largest element, and sorting the indices from the
largest element on puts an element of the same value first. -/
theorem argmax_spec [LinearOrder α] (sort : Sorting.Method)
    (elements : List α) :
    (argmax elements = none ↔ elements = []) ∧
      ∀ index value, argmax elements = some (index, value) →
        FirstLargest elements index value ∧
          ∃ rest,
            gather elements (argsort sort elements fun a b => a > b) =
              some (value :: rest) ∧ (value :: rest).Perm elements := by
  constructor
  · cases elements with
    | nil => exact ⟨fun _ => rfl, fun _ => rfl⟩
    | cons first rest => exact ⟨nofun, nofun⟩
  · intro index value result
    have largest := firstLargest_argmax result
    refine ⟨largest, ?_⟩
    obtain ⟨sorted, gathered, perm, ordered⟩ := gather_argsort sort elements
      (Sorting.isStrictWeak_largerKey (fun element : α => element))
    have member : value ∈ sorted :=
      perm.mem_iff.mpr (List.mem_of_getElem? largest.found)
    cases sorted with
    | nil => cases member
    | cons first rest =>
        have below := largest.largest first
          (perm.mem_iff.mp List.mem_cons_self)
        have above : value ≤ first := by
          rcases List.mem_cons.mp member with same | later
          · exact same.le
          · exact Sorting.largerKey_eq_false_iff.mp
              ((List.pairwise_cons.mp ordered).1 value later)
        rw [le_antisymm above below]
        exact ⟨rest, gathered, perm⟩

end Argsort

/-! ## The best predictions -/

private theorem prefixThrough_eq {α : Type} {k : ℤ} (nonneg : 0 ≤ k)
    (items : List α) :
    prefixThrough items (min k items.length - 1) =
      some (items.take k.toNat) := by
  have bounds : 0 ≤ min k items.length - 1 + 1 ∧
      min k items.length - 1 + 1 ≤ (items.length : ℤ) := by
    omega
  rw [prefixThrough, if_pos bounds, Option.some_inj, List.take_eq_take_iff]
  omega

private theorem prefixThrough_eq_none {α : Type} {k : ℤ} (negative : k < 0)
    (items : List α) :
    prefixThrough items (min k items.length - 1) = none := by
  rw [prefixThrough, if_neg]
  omega

/-- A negative number of predictions stops the program, and otherwise the
predictions are the best. -/
theorem top_spec (sort : Sorting.Method) (k : ℤ)
    (prob : List (String × CGFloat)) :
    (top sort k prob = none ↔ k < 0) ∧
      ∀ best, top sort k prob = some best →
        Sorting.IsBest Prod.snd k.toNat prob best := by
  have length : (sort.sorted (fun a b => decide (a.2 > b.2)) prob).length =
      prob.length :=
    sort.length_sorted prob
  by_cases negative : k < 0
  · have stopped : top sort k prob = none := by
      rw [top, ← length, prefixThrough_eq_none negative]
    rw [stopped]
    exact ⟨⟨fun _ => negative, fun _ => rfl⟩, fun _ => nofun⟩
  · have finished : top sort k prob = some
        ((sort.sorted (fun a b => decide (a.2 > b.2)) prob).take
          k.toNat) := by
      rw [top, ← length, prefixThrough_eq (not_lt.mp negative)]
    rw [finished]
    refine ⟨⟨nofun, fun contradictory => absurd contradictory negative⟩, ?_⟩
    intro best equality
    rw [Option.some_inj] at equality
    subst equality
    exact sort.isBest_take_sorted Prod.snd k.toNat prob

/-- The results of Vision, sorted by confidence, and those of Core ML, in any
order, have the same best predictions. -/
theorem top_eq_topObservations (sort : Sorting.Method) (k : ℤ)
    {prob : List (String × CGFloat)}
    {observations : List VNClassificationObservation}
    (same : prob.Perm (observations.map fun observation =>
      (observation.identifier, observation.confidence)))
    (sorted : observations.Pairwise fun first second =>
      second.confidence < first.confidence) :
    top sort k prob = topObservations k observations := by
  obtain ⟨stops, selects⟩ := top_spec sort k prob
  by_cases negative : k < 0
  · rw [stops.mpr negative, topObservations, prefixThrough_eq_none negative]
    rfl
  · have nonneg : 0 ≤ k := not_lt.mp negative
    have falling : (observations.map fun observation =>
        (observation.identifier, observation.confidence)).Pairwise
          fun first second => second.2 < first.2 :=
      List.pairwise_map.mpr sorted
    have different : (observations.map fun observation =>
        (observation.identifier, observation.confidence)).Nodup :=
      falling.imp fun less same => less.ne (congrArg Prod.snd same.symm)
    have results : topObservations k observations =
        some ((observations.map fun observation =>
          (observation.identifier, observation.confidence)).take
            k.toNat) := by
      rw [topObservations, prefixThrough_eq nonneg, Option.map_some,
        List.map_take]
    cases result : top sort k prob with
    | none => exact absurd (stops.mp result) negative
    | some best =>
        rw [results, Option.some_inj]
        exact ((selects best result).of_perm same).unique
          (Sorting.isBest_take (falling.imp fun less => less.le) k.toNat)
          different (Sorting.eq_of_key_eq_of_pairwise falling)

theorem top_eq_topObservations_moustache :
    top .insertion 1 [("beard", 1 / 4), ("moustache", 3 / 4)] =
      topObservations 1 [⟨"moustache", 3 / 4⟩, ⟨"beard", 1 / 4⟩] := by
  have sorted : [VNClassificationObservation.mk "moustache" (3 / 4),
      ⟨"beard", 1 / 4⟩].Pairwise fun first second =>
        second.confidence < first.confidence := by
    decide +kernel
  exact top_eq_topObservations .insertion 1 (List.Perm.swap _ _ []) sorted

end HigeMaster
