import Mathlib.Data.List.Basic

/-!
# Nested lists as text

A nested list is written with brackets around its lists and commas between
their items.  If the texts of the innermost items are not empty and contain
none of these characters, the text can be read in one way only.
-/

namespace NestedText

variable {α : Type}

/-- Lists of lists of items, so many levels deep. -/
def Nested (α : Type) : ℕ → Type
  | 0 => α
  | levels + 1 => List (Nested α levels)

/-- Texts with commas between them. -/
def commas : List (List Char) → List Char
  | [] => []
  | text :: texts => text ++ texts.flatMap fun next => ',' :: next

private theorem flatMap_comma (texts : List (List Char)) :
    ',' :: texts.flatMap (fun next => next ++ [',']) =
      texts.flatMap (fun next => ',' :: next) ++ [','] := by
  induction texts with
  | nil => rfl
  | cons text texts induction =>
      rw [List.flatMap_cons, List.flatMap_cons, List.append_assoc,
        List.singleton_append, induction, List.cons_append, List.cons_append,
        List.append_assoc]

theorem commas_concat (texts : List (List Char)) (text : List Char) :
    commas (texts ++ [text]) =
      (texts.flatMap fun next => next ++ [',']) ++ text := by
  cases texts with
  | nil => simp [commas]
  | cons first texts =>
      rw [List.cons_append, commas, List.flatMap_cons, List.flatMap_append,
        List.flatMap_singleton, List.append_assoc, List.append_assoc,
        List.singleton_append, ← List.cons_append, flatMap_comma,
        List.append_assoc, List.singleton_append]

def write (item : α → List Char) :
    (levels : ℕ) → Nested α levels → List Char
  | 0, value => item value
  | levels + 1, values =>
      '[' :: (commas (values.map (write item levels)) ++ [']'])

/-! ## Reading -/

/-- The character may stand in the text of an item. -/
def Plain (character : Char) : Prop :=
  character ≠ '[' ∧ character ≠ ']' ∧ character ≠ ','

instance : DecidablePred Plain :=
  fun character => inferInstanceAs (Decidable (character ≠ '[' ∧ _))

structure Readable (item : α → List Char) : Prop where
  nonempty : ∀ value, item value ≠ []
  plain : ∀ value, ∀ character ∈ item value, Plain character
  injective : Function.Injective item

/-- What may follow an item. -/
def Ends (text : List Char) : Prop :=
  ∀ character ∈ text.head?, ¬Plain character

theorem ends_cons {character : Char} {text : List Char}
    (ends : ¬Plain character) : Ends (character :: text) := by
  intro other first
  rw [List.head?_cons, Option.mem_some_iff] at first
  subst first
  exact ends

/-- The text of an item goes as far as its characters may stand in it. -/
theorem plain_append_inj {first second rest others : List Char}
    (firstPlain : ∀ character ∈ first, Plain character)
    (secondPlain : ∀ character ∈ second, Plain character)
    (restEnds : Ends rest) (othersEnd : Ends others)
    (same : first ++ rest = second ++ others) :
    first = second ∧ rest = others := by
  induction first generalizing second with
  | nil =>
      cases second with
      | nil => exact ⟨rfl, same⟩
      | cons character second =>
          rw [List.nil_append] at same
          rw [same] at restEnds
          exact absurd (secondPlain _ List.mem_cons_self) (restEnds _ rfl)
  | cons character first induction =>
      cases second with
      | nil =>
          rw [List.nil_append] at same
          rw [← same] at othersEnd
          exact absurd (firstPlain _ List.mem_cons_self) (othersEnd _ rfl)
      | cons other second =>
          rw [List.cons_append, List.cons_append, List.cons.injEq] at same
          obtain ⟨rfl, same⟩ := same
          rw [List.forall_mem_cons] at firstPlain secondPlain
          obtain ⟨rfl, rfl⟩ :=
            induction firstPlain.2 secondPlain.2 same
          exact ⟨rfl, rfl⟩

section Readable

variable {item : α → List Char}

theorem Readable.write_ne (readable : Readable item) (levels : ℕ)
    (value : Nested α levels) (rest others : List Char) :
    write item levels value ++ rest ≠ ']' :: others := by
  cases levels with
  | zero =>
      intro same
      cases text : item value with
      | nil => exact readable.nonempty value text
      | cons character characters =>
          rw [write, text, List.cons_append, List.cons.injEq] at same
          have plain : Plain character := by
            apply readable.plain value
            rw [text]
            exact List.mem_cons_self
          exact plain.2.1 same.1
  | succ levels =>
      intro same
      rw [write, List.cons_append, List.cons.injEq] at same
      exact absurd same.1 (by decide)

private theorem items_append_inj {levels : ℕ}
    (reads : ∀ {first second : Nested α levels} {rest others : List Char},
      Ends rest → Ends others →
        write item levels first ++ rest = write item levels second ++ others →
          first = second ∧ rest = others)
    {firsts seconds : List (Nested α levels)} {rest others : List Char}
    (same :
      (firsts.map (write item levels)).flatMap (fun next => ',' :: next) ++
          ']' :: rest =
        (seconds.map (write item levels)).flatMap (fun next => ',' :: next) ++
          ']' :: others) :
    firsts = seconds ∧ rest = others := by
  have ends : ∀ (values : List (Nested α levels)) (text : List Char),
      Ends ((values.map (write item levels)).flatMap
        (fun next => ',' :: next) ++ ']' :: text) := by
    intro values text
    cases values with
    | nil => exact ends_cons fun plain => plain.2.1 rfl
    | cons value values => exact ends_cons fun plain => plain.2.2 rfl
  induction firsts generalizing seconds with
  | nil =>
      cases seconds with
      | nil => exact ⟨rfl, List.tail_eq_of_cons_eq same⟩
      | cons second seconds => cases same
  | cons first firsts induction =>
      cases seconds with
      | nil => cases same
      | cons second seconds =>
          simp only [List.map_cons, List.flatMap_cons, List.cons_append,
            List.append_assoc, List.cons.injEq, true_and] at same
          obtain ⟨rfl, remaining⟩ := reads (ends _ _) (ends _ _) same
          obtain ⟨rfl, rfl⟩ := induction remaining
          exact ⟨rfl, rfl⟩

/-- A text determines the nested list, and where it ends. -/
theorem Readable.write_append_inj (readable : Readable item) {levels : ℕ}
    {first second : Nested α levels} {rest others : List Char}
    (restEnds : Ends rest) (othersEnd : Ends others)
    (same : write item levels first ++ rest =
      write item levels second ++ others) :
    first = second ∧ rest = others := by
  induction levels generalizing rest others with
  | zero =>
      obtain ⟨texts, ends⟩ := plain_append_inj (readable.plain first)
        (readable.plain second) restEnds othersEnd same
      exact ⟨readable.injective texts, ends⟩
  | succ levels induction =>
      have reads : ∀ {first second : Nested α levels}
          {rest others : List Char}, Ends rest → Ends others →
            write item levels first ++ rest =
              write item levels second ++ others →
                first = second ∧ rest = others := by
        intro first second rest others restEnds othersEnd same
        exact induction restEnds othersEnd same
      change List (Nested α levels) at first second
      cases first with
      | nil =>
          cases second with
          | nil => exact ⟨rfl, by simpa [write, commas] using same⟩
          | cons value values =>
              simp only [write, List.map_nil, List.map_cons, commas,
                List.nil_append, List.cons_append, List.append_assoc,
                List.cons.injEq, true_and] at same
              exact absurd same.symm (readable.write_ne levels value _ _)
      | cons value values =>
          cases second with
          | nil =>
              simp only [write, List.map_nil, List.map_cons, commas,
                List.nil_append, List.cons_append, List.append_assoc,
                List.cons.injEq, true_and] at same
              exact absurd same (readable.write_ne levels value _ _)
          | cons other remaining =>
              simp only [write, List.map_cons, commas, List.cons_append,
                List.append_assoc, List.cons.injEq, true_and,
                List.nil_append] at same
              apply items_append_inj reads
              simp only [List.map_cons, List.flatMap_cons, List.cons_append,
                List.append_assoc, same]

end Readable

/-! ## Positions -/

/-- A position, from this level on, does not leave the lists. -/
def Within (size : ℕ → ℕ) : ℕ → List ℕ → Prop
  | _, [] => True
  | level, place :: position =>
      place < size level ∧ Within size (level + 1) position

theorem within_iff {size : ℕ → ℕ} {level : ℕ} {position : List ℕ} :
    Within size level position ↔
      ∀ i place, position[i]? = some place → place < size (level + i) := by
  induction position generalizing level with
  | nil => simp [Within]
  | cons first position induction =>
      rw [Within, induction]
      constructor
      · rintro ⟨inside, within⟩ i place there
        cases i with
        | zero =>
            rw [List.getElem?_cons_zero, Option.some_inj] at there
            rwa [← there]
        | succ i =>
            rw [List.getElem?_cons_succ] at there
            rw [← Nat.add_assoc, Nat.add_right_comm]
            exact within i place there
      · intro inside
        refine ⟨inside 0 first rfl, ?_⟩
        intro i place there
        rw [Nat.add_right_comm, Nat.add_assoc]
        exact inside (i + 1) place there

/-- The nested list with a value at each position that continues this one, where
the lists of a level all have the same size. -/
def tabulate (size : ℕ → ℕ) (value : List ℕ → α) :
    (levels : ℕ) → List ℕ → Nested α levels
  | 0, position => value position
  | levels + 1, position =>
      (List.range (size position.length)).map fun place =>
        tabulate size value levels (position ++ [place])

theorem tabulate_inj {size otherSize : ℕ → ℕ} {value otherValue : List ℕ → α}
    {levels : ℕ} {position : List ℕ}
    (same : tabulate size value levels position =
      tabulate otherSize otherValue levels position)
    {rest : List ℕ} (deep : rest.length = levels)
    (within : Within size position.length rest) :
    Within otherSize position.length rest ∧
      value (position ++ rest) = otherValue (position ++ rest) := by
  induction levels generalizing position rest with
  | zero =>
      rw [List.length_eq_zero_iff] at deep
      subst deep
      rw [List.append_nil]
      exact ⟨trivial, same⟩
  | succ levels induction =>
      cases rest with
      | nil => cases deep
      | cons place rest =>
          obtain ⟨inside, within⟩ := within
          have sizes : size position.length = otherSize position.length := by
            have lengths := congrArg List.length same
            rwa [tabulate, tabulate, List.length_map, List.length_map,
              List.length_range, List.length_range] at lengths
          rw [tabulate, tabulate, ← sizes] at same
          have there := List.map_inj_left.mp same place
            (List.mem_range.mpr inside)
          have next : (position ++ [place]).length = position.length + 1 :=
            List.length_append
          have deeper := induction there (Nat.succ.inj deep) (by rwa [next])
          rw [next, List.append_assoc, List.singleton_append] at deeper
          exact ⟨⟨by rwa [← sizes], deeper.1⟩, deeper.2⟩

/-! ## Depth -/

/-- If no list is empty, the brackets at the beginning tell the depth. -/
theorem Readable.depth {item : α → List Char} (readable : Readable item)
    {size : ℕ → ℕ} {value : List ℕ → α} {levels : ℕ} {position : List ℕ}
    (full : ∀ level, position.length ≤ level →
      level < position.length + levels → 0 < size level)
    (rest : List Char) :
    ((write item levels (tabulate size value levels position) ++
      rest).takeWhile fun character => character = '[').length = levels := by
  induction levels generalizing position rest with
  | zero =>
      rw [write, tabulate]
      cases text : item (value position) with
      | nil => exact absurd text (readable.nonempty _)
      | cons character characters =>
          have plain : Plain character := by
            apply readable.plain (value position)
            rw [text]
            exact List.mem_cons_self
          rw [List.cons_append, List.takeWhile_cons_of_neg]
          · rfl
          · simpa using plain.1
  | succ levels induction =>
      have positive := full position.length (Nat.le_refl _) (by omega)
      obtain ⟨others, range⟩ : ∃ others,
          List.range (size position.length) = 0 :: others := by
        rw [← Nat.succ_pred_eq_of_pos positive, List.range_succ_eq_map]
        exact ⟨_, rfl⟩
      have next : (position ++ [0]).length = position.length + 1 :=
        List.length_append
      have fuller : ∀ level, (position ++ [0]).length ≤ level →
          level < (position ++ [0]).length + levels → 0 < size level := by
        intro level above below
        exact full level (by omega) (by omega)
      rw [write, tabulate, range, List.map_cons, List.map_cons, commas,
        List.cons_append, List.takeWhile_cons_of_pos (by decide),
        List.length_cons]
      simp only [List.append_assoc]
      rw [induction fuller]

end NestedText
