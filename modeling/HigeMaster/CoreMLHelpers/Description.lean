import HigeMaster.CoreMLHelpers.MultiArrayViews
import HigeMaster.CoreMLHelpers.RawBytesLayout
import HigeMaster.NestedText
import Mathlib

/-!
# Descriptions of multi-arrays

A multi-array describes itself as a nested list, with its rows on lines of their
own and long rows wrapped.  Without the white space the description is the
nested list of its elements, so it tells every element and its position.
-/

namespace HigeMaster

namespace MultiArray

section Model

variable {T : Type}

def indent (x : ℕ) : List Char :=
  List.replicate x ' '

/-- What stands between two elements, after every eleventh with a new line. -/
def separator (d : ℕ) (i : ℤ) : List Char :=
  [',', ' '] ++ if i % 11 = 10 then ['\n', ' '] ++ indent (d + 1) else []

/-- The loops: one part after the other, and something between them. -/
def appendParts (N : ℤ) (part : ℤ → Option (List Char))
    (between : ℤ → List Char) (s : List Char) : Option (List Char) :=
  forRange N (fun i s => (part i).map fun next =>
    if i ≠ N - 1 then s ++ next ++ between i else s ++ next) s

/-- `description(_:)`, where `levels` dimensions are left.  `describe` writes an
element. -/
def descriptionFrom (array : MultiArray) (elements : List T)
    (describe : T → List Char) :
    (levels : ℕ) → (indices : List ℤ) → Option (List Char)
  | 0, _ => none
  | levels + 1, indices =>
      let d := indices.length
      if axis : d < array.rank then
        let N := array.shape ⟨d, axis⟩
        if d + 1 < array.rank then
          (appendParts N
              (fun i => array.descriptionFrom elements describe levels
                (indices ++ [i]))
              (fun _ => [',', '\n'] ++ indent (d + 1)) ['[']).map
            fun s => s ++ [']']
        else
          (appendParts N
              (fun i => (array.get elements (indices ++ [i])).map describe)
              (separator d) ['[', ' ']).map
            fun s => s ++ [' ', ']']
      else
        none

def description (array : MultiArray) (elements : List T)
    (describe : T → List Char) : Option (List Char) :=
  array.descriptionFrom elements describe array.rank []

end Model

/-! ## Reading a description -/

/-- The text without its white space. -/
def solid (text : List Char) : List Char :=
  text.filter fun character => character ≠ ' ' ∧ character ≠ '\n'

theorem solid_append (first second : List Char) :
    solid (first ++ second) = solid first ++ solid second :=
  List.filter_append first second

theorem solid_indent (x : ℕ) : solid (indent x) = [] := by
  rw [solid, indent, List.filter_replicate]
  exact if_neg (by decide)

theorem solid_separator (d : ℕ) (i : ℤ) : solid (separator d i) = [','] := by
  rw [separator, solid_append]
  by_cases wraps : i % 11 = 10
  · rw [if_pos wraps, solid_append, solid_indent]
    decide
  · rw [if_neg wraps]
    decide

/-- The loops write their parts with commas between them. -/
theorem appendParts_eq {N : ℤ} (nonneg : 0 ≤ N)
    {part : ℤ → Option (List Char)} {between : ℤ → List Char}
    {text : ℕ → List Char}
    (made : ∀ i : ℕ, (i : ℤ) < N →
      ∃ next, part i = some next ∧ solid next = text i)
    (commas : ∀ i, solid (between i) = [',']) (start : List Char) :
    ∃ s, appendParts N part between start = some s ∧
      solid s = solid start ++
        NestedText.commas ((List.range N.toNat).map text) := by
  obtain ⟨count, rfl⟩ := Int.eq_ofNat_of_zero_le nonneg
  have before : ∀ done < count,
      ∃ s, Loops.loop done (fun i s => (part i).map fun next =>
          if (i : ℤ) ≠ count - 1 then s ++ next ++ between i
          else s ++ next) start = some s ∧
        solid s = solid start ++
          ((List.range done).map text).flatMap fun next => next ++ [','] := by
    intro done less
    induction done with
    | zero => exact ⟨start, rfl, by simp⟩
    | succ done induction =>
        obtain ⟨s, loop, written⟩ := induction (by omega)
        obtain ⟨next, part, same⟩ := made done (by omega)
        refine ⟨s ++ next ++ between done, ?_, ?_⟩
        · rw [Loops.loop_succ, loop, Option.bind_some, part, Option.map_some,
            if_pos (by omega)]
        · rw [solid_append, solid_append, written, same, commas,
            List.range_succ, List.map_append, List.flatMap_append]
          simp
  rw [appendParts, forRange_eq nonneg]
  cases count with
  | zero => exact ⟨start, rfl, by simp [NestedText.commas]⟩
  | succ count =>
      obtain ⟨s, loop, written⟩ := before count (Nat.lt_succ_self count)
      obtain ⟨next, part, same⟩ := made count (by omega)
      refine ⟨s ++ next, ?_, ?_⟩
      · change Loops.loop (count + 1) _ start = _
        rw [Loops.loop_succ, loop, Option.bind_some, part, Option.map_some,
          if_neg (by omega)]
      · change _ = _ ++ NestedText.commas ((List.range (count + 1)).map text)
        rw [solid_append, written, same, List.range_succ, List.map_append,
          List.map_singleton, NestedText.commas_concat, List.append_assoc]

theorem bracketed {N : ℤ} (nonneg : 0 ≤ N) {part : ℤ → Option (List Char)}
    {between : ℤ → List Char} {text : ℕ → List Char}
    (made : ∀ i : ℕ, (i : ℤ) < N →
      ∃ next, part i = some next ∧ solid next = text i)
    (commas : ∀ i, solid (between i) = [',']) {opening closing : List Char}
    (opens : solid opening = ['[']) (closes : solid closing = [']']) :
    ∃ s,
      ((appendParts N part between opening).map fun s => s ++ closing) =
          some s ∧
        solid s = '[' :: (NestedText.commas
          ((List.range N.toNat).map text) ++ [']']) := by
  obtain ⟨s, loop, written⟩ := appendParts_eq nonneg made commas opening
  refine ⟨s ++ closing, ?_, ?_⟩
  · rw [loop, Option.map_some]
  · rw [solid_append, written, opens, closes]
    rfl

/-- The number of positions on an axis. -/
def size (array : MultiArray) (d : ℕ) : ℕ :=
  if axis : d < array.rank then (array.shape ⟨d, axis⟩).toNat else 0

/-- A position as indices. -/
def indices (position : List ℕ) : List ℤ :=
  position.map fun place : ℕ => (place : ℤ)

theorem length_indices (position : List ℕ) :
    (indices position).length = position.length := by
  rw [indices, List.length_map]

theorem indices_append (first second : List ℕ) :
    indices (first ++ second) = indices first ++ indices second := by
  rw [indices, List.map_append]
  rfl

/-- The text of an element can be told from the brackets, the commas and the
white space around it, and from that of other elements. -/
structure Writes {T : Type} (describe : T → List Char) : Prop
    extends NestedText.Readable describe where
  solid : ∀ element, solid (describe element) = describe element

/-- The description without its white space is the nested list of the
elements. -/
theorem descriptionFrom_eq {T : Type} {array : MultiArray}
    {elements : List T} {describe : T → List Char} (writes : Writes describe)
    (nonneg : ∀ axis, 0 ≤ array.shape axis) {value : List ℕ → T}
    {levels : ℕ} {position : List ℕ}
    (deep : position.length + (levels + 1) = array.rank)
    (found : ∀ rest, rest.length = levels + 1 →
      NestedText.Within array.size position.length rest →
        array.get elements (indices (position ++ rest)) =
          some (value (position ++ rest))) :
    ∃ text,
      array.descriptionFrom elements describe (levels + 1)
          (indices position) = some text ∧
        solid text = NestedText.write describe (levels + 1)
          (NestedText.tabulate array.size value (levels + 1) position) := by
  induction levels generalizing position with
  | zero =>
      have axis : position.length < array.rank := by omega
      have length : array.size position.length =
          (array.shape ⟨position.length, axis⟩).toNat :=
        dif_pos axis
      have made : ∀ i : ℕ, (i : ℤ) < array.shape ⟨position.length, axis⟩ →
          ∃ next,
            (array.get elements (indices position ++ [(i : ℤ)])).map describe =
                some next ∧
              solid next = describe (value (position ++ [i])) := by
        intro i less
        have within : NestedText.Within array.size position.length [i] := by
          refine ⟨?_, trivial⟩
          rw [length]
          omega
        have there := found [i] rfl within
        rw [indices_append] at there
        refine ⟨_, ?_, writes.solid _⟩
        exact congrArg (Option.map describe) there
      rw [descriptionFrom, NestedText.write, NestedText.tabulate, length,
        List.map_map]
      simp only [length_indices]
      rw [dif_pos axis, if_neg (by omega)]
      exact bracketed (nonneg _) made (solid_separator _) (by decide)
        (by decide)
  | succ levels induction =>
      have axis : position.length < array.rank := by omega
      have length : array.size position.length =
          (array.shape ⟨position.length, axis⟩).toNat :=
        dif_pos axis
      have made : ∀ i : ℕ, (i : ℤ) < array.shape ⟨position.length, axis⟩ →
          ∃ next,
            array.descriptionFrom elements describe (levels + 1)
                (indices position ++ [(i : ℤ)]) = some next ∧
              solid next = NestedText.write describe (levels + 1)
                (NestedText.tabulate array.size value (levels + 1)
                  (position ++ [i])) := by
        intro i less
        have next : (position ++ [i]).length = position.length + 1 :=
          List.length_append
        have further : indices position ++ [(i : ℤ)] =
            indices (position ++ [i]) :=
          (indices_append position [i]).symm
        rw [further]
        apply induction
        · rw [next]
          omega
        · intro rest deeper within
          rw [List.append_assoc]
          apply found
          · rw [List.length_append, deeper, List.length_singleton,
              Nat.add_comm]
          · refine ⟨?_, by rwa [← next]⟩
            rw [length]
            omega
      have newLines : ∀ _ : ℤ,
          solid ([',', '\n'] ++ indent (position.length + 1)) = [','] := by
        intro _
        rw [solid_append, solid_indent]
        decide
      rw [descriptionFrom, NestedText.write, NestedText.tabulate, length,
        List.map_map]
      simp only [length_indices]
      rw [dif_pos axis, if_pos (by omega)]
      exact bracketed (nonneg _) made newLines (by decide) (by decide)

/-- The description of two rows of two numbers. -/
example : (ofShape [2, 2]).description [1, 2, 3, 4]
    (fun n : ℕ => (Nat.repr n).toList) =
      some "[[ 1, 2 ],\n [ 3, 4 ]]".toList := by
  decide +kernel

/-! ## Texts of integers -/

/-- The decimal text of an integer. -/
def describeInt32 (n : Int32Value) : List Char :=
  n.1.repr.toList

private theorem mem_repr {n : ℤ} {character : Char}
    (member : character ∈ n.repr.toList) :
    character = '-' ∨ character.isDigit = true := by
  have digits : ∀ m : ℕ, ∀ digit ∈ m.repr.toList, digit.isDigit = true := by
    intro m digit inside
    rw [Nat.toList_repr] at inside
    exact Nat.isDigit_of_mem_toDigits (by decide) (by decide) inside
  rw [Int.repr_eq_if] at member
  by_cases nonneg : 0 ≤ n
  · rw [if_pos nonneg] at member
    exact .inr (digits _ character member)
  · rw [if_neg nonneg, String.toList_append, List.mem_append] at member
    rcases member with sign | digit
    · exact .inl (by simpa using sign)
    · exact .inr (digits _ character digit)

theorem writes_int32 : Writes describeInt32 where
  nonempty n := by
    rw [describeInt32, Int.repr_eq_if]
    by_cases nonneg : 0 ≤ n.1
    · rw [if_pos nonneg, Nat.toList_repr]
      exact List.ne_nil_of_length_pos Nat.length_toDigits_pos
    · rw [if_neg nonneg, String.toList_append]
      simp
  plain n character member := by
    rcases mem_repr member with rfl | digit
    · decide
    · refine ⟨?_, ?_, ?_⟩ <;> rintro rfl <;> revert digit <;> decide
  injective first second same := by
    apply Subtype.ext
    exact Int.repr_injective (String.toList_injective same)
  solid n := by
    rw [solid, List.filter_eq_self]
    intro character member
    rcases mem_repr member with rfl | digit
    · decide
    · apply decide_eq_true
      constructor <;> rintro rfl <;> revert digit <;> decide

/-! ## What a description tells -/

/-- The element at a position of the array. -/
def Holds {T : Type} (array : MultiArray) (elements : List T)
    (position : List ℤ) (element : T) : Prop :=
  ∃ index, Strided.InBounds array.shape index ∧ List.ofFn index = position ∧
    array.get elements position = some element

theorem inBounds_of_within {array : MultiArray} {position : List ℕ}
    (deep : position.length = array.rank)
    (within : NestedText.Within array.size 0 position) :
    ∃ index, Strided.InBounds array.shape index ∧
      List.ofFn index = indices position := by
  refine ⟨fun axis => (position.get (axis.cast deep.symm) : ℤ), ?_, ?_⟩
  · intro axis
    have inside := NestedText.within_iff.mp within axis
      (position.get (axis.cast deep.symm)) (by simp)
    rw [Nat.zero_add, size, dif_pos axis.isLt] at inside
    constructor
    · exact Int.natCast_nonneg _
    · exact Int.lt_toNat.mp inside
  · apply List.ext_getElem
    · rw [List.length_ofFn, length_indices, deep]
    · intro i _ _
      simp [indices]

theorem within_of_inBounds {array : MultiArray}
    {index : Fin array.rank → ℤ}
    (inBounds : Strided.InBounds array.shape index) :
    ∃ position : List ℕ, position.length = array.rank ∧
      NestedText.Within array.size 0 position ∧
        indices position = List.ofFn index := by
  refine ⟨List.ofFn fun axis => (index axis).toNat, List.length_ofFn, ?_, ?_⟩
  · rw [NestedText.within_iff]
    intro i place there
    rw [List.getElem?_ofFn] at there
    by_cases axis : i < array.rank
    · rw [dif_pos axis, Option.some_inj] at there
      have inside := inBounds ⟨i, axis⟩
      rw [Nat.zero_add, size, dif_pos axis]
      omega
    · rw [dif_neg axis] at there
      cases there
  · rw [indices, List.map_ofFn]
    congr 1
    funext axis
    exact Int.toNat_of_nonneg (inBounds axis).1

theorem size_pos {array : MultiArray} (full : ∀ axis, 0 < array.shape axis)
    {d : ℕ} (axis : d < array.rank) : 0 < array.size d := by
  have positive := full ⟨d, axis⟩
  rw [size, dif_pos axis]
  omega

theorem exists_holds {T : Type} {array : MultiArray} {elements : List T}
    (covers : array.Covers elements.length)
    (full : ∀ axis, 0 < array.shape axis) :
    ∃ element, element ∈ elements := by
  have inBounds : Strided.InBounds array.shape fun _ => 0 :=
    fun axis => ⟨le_rfl, full axis⟩
  obtain ⟨element, member, _⟩ := covers.exists_get inBounds
  exact ⟨element, member⟩

theorem description_eq {T : Type} {array : MultiArray} {elements : List T}
    {describe : T → List Char} (writes : Writes describe)
    (covers : array.Covers elements.length) (axes : 0 < array.rank)
    (full : ∀ axis, 0 < array.shape axis) :
    ∃ (value : List ℕ → T) (text : List Char),
      array.description elements describe = some text ∧
        solid text = NestedText.write describe array.rank
          (NestedText.tabulate array.size value array.rank []) ∧
        ∀ position element, array.Holds elements position element ↔
          ∃ places, places.length = array.rank ∧
            NestedText.Within array.size 0 places ∧
              position = indices places ∧ element = value places := by
  obtain ⟨default, _⟩ := exists_holds covers full
  obtain ⟨value, valueEq⟩ : ∃ value : List ℕ → T, ∀ places,
      value places =
        (array.get elements (indices places)).getD default :=
    ⟨_, fun _ => rfl⟩
  have found : ∀ places : List ℕ, places.length = array.rank →
      NestedText.Within array.size 0 places →
        array.get elements (indices places) = some (value places) := by
    intro places deep within
    obtain ⟨index, inBounds, same⟩ := inBounds_of_within deep within
    obtain ⟨element, _, there⟩ := covers.exists_get inBounds
    rw [same] at there
    rw [valueEq, there, Option.getD_some]
  obtain ⟨levels, rank⟩ := Nat.exists_eq_succ_of_ne_zero axes.ne'
  have deep : ([] : List ℕ).length + (levels + 1) = array.rank := by
    rw [rank, List.length_nil, Nat.zero_add]
  have described : ∃ text,
      array.descriptionFrom elements describe (levels + 1) (indices []) =
          some text ∧
        solid text = NestedText.write describe (levels + 1)
          (NestedText.tabulate array.size value (levels + 1) []) := by
    apply descriptionFrom_eq writes (fun axis => (full axis).le) deep
    intro rest length within
    rw [List.nil_append]
    exact found rest (length.trans rank.symm) within
  obtain ⟨text, result, written⟩ := described
  refine ⟨value, text, ?_, ?_, ?_⟩
  · rw [description, rank]
    exact result
  · rw [rank]
    exact written
  · intro position element
    constructor
    · rintro ⟨index, inBounds, rfl, there⟩
      obtain ⟨places, long, within, same⟩ := within_of_inBounds inBounds
      refine ⟨places, long, within, same.symm, ?_⟩
      rw [← same, found places long within, Option.some_inj] at there
      exact there.symm
    · rintro ⟨places, long, within, rfl, rfl⟩
      obtain ⟨index, inBounds, same⟩ := inBounds_of_within long within
      exact ⟨index, inBounds, same, found places long within⟩

private theorem depth_eq {T : Type} {array : MultiArray}
    {describe : T → List Char} (writes : Writes describe)
    (full : ∀ axis, 0 < array.shape axis) (value : List ℕ → T) :
    ((NestedText.write describe array.rank
        (NestedText.tabulate array.size value array.rank []) ++ []).takeWhile
      fun character => character = '[').length = array.rank := by
  apply writes.depth
  intro level _ less
  exact size_pos full (by simpa using less)

/-- An array without an empty axis has a description, and whatever array has
the same description has the same elements at the same positions. -/
theorem description_faithful {T : Type} {first : MultiArray}
    {elements : List T} {describe : T → List Char} (writes : Writes describe)
    (covers : first.Covers elements.length) (axes : 0 < first.rank)
    (full : ∀ axis, 0 < first.shape axis) :
    ∃ text, first.description elements describe = some text ∧
      ∀ (second : MultiArray) (others : List T),
        second.Covers others.length → 0 < second.rank →
          (∀ axis, 0 < second.shape axis) →
            second.description others describe = some text →
              ∀ position element, first.Holds elements position element ↔
                second.Holds others position element := by
  obtain ⟨value, text, described, written, holds⟩ :=
    description_eq writes covers axes full
  refine ⟨text, described, ?_⟩
  intro second others secondCovers secondAxes secondFull same position element
  obtain ⟨otherValue, otherText, otherDescribed, otherWritten, otherHolds⟩ :=
    description_eq writes secondCovers secondAxes secondFull
  rw [otherDescribed, Option.some_inj] at same
  subst same
  rw [written] at otherWritten
  have depths : first.rank = second.rank := by
    have depth := depth_eq writes full value
    rw [otherWritten, depth_eq writes secondFull] at depth
    exact depth.symm
  rw [depths] at otherWritten
  have ends : NestedText.Ends [] := nofun
  have lists : NestedText.tabulate first.size value second.rank [] =
      NestedText.tabulate second.size otherValue second.rank [] := by
    apply (writes.write_append_inj ends ends _).1
    rw [otherWritten]
  rw [holds, otherHolds]
  constructor
  · rintro ⟨places, long, within, rfl, rfl⟩
    obtain ⟨inside, values⟩ :=
      NestedText.tabulate_inj lists (long.trans depths) within
    exact ⟨places, long.trans depths, inside, rfl, values⟩
  · rintro ⟨places, long, within, rfl, rfl⟩
    obtain ⟨inside, values⟩ := NestedText.tabulate_inj lists.symm long within
    exact ⟨places, long.trans depths.symm, inside, rfl, values⟩

theorem description_faithful_row :
    let elements : List Int32Value := [-5, 7].map MultiArrayType.ofInt
    ∃ text, (ofShape [1, 2]).description elements describeInt32 = some text ∧
      ∀ (second : MultiArray) (others : List Int32Value),
        second.Covers others.length → 0 < second.rank →
          (∀ axis, 0 < second.shape axis) →
            second.description others describeInt32 = some text →
              ∀ position element,
                (ofShape [1, 2]).Holds elements position element ↔
                  second.Holds others position element := by
  intro elements
  have covers : (ofShape [1, 2]).Covers elements.length :=
    covers_ofShape (by decide)
  have full : ∀ axis : Fin 2, 0 < List.get [(1 : ℤ), 2] axis := by decide
  exact description_faithful writes_int32 covers (by decide) full

end MultiArray

end HigeMaster
