import Mathlib.Data.List.Dedup
import Mathlib.Data.List.Induction
import Mathlib.Data.List.Perm.Basic

/-!
# Stacks whose items are raised to the front

Items lie on top of each other, listed from back to front.  Raising an item
puts it in front of all others, whether or not it was on the stack before.
After any history of raises on an empty stack, the stack is the history with
only the last raise of each item kept.  On a stack that only grows and shrinks
at its top, whatever an item needs from the items below it stays there.
-/

namespace Stacking

section Raise

variable {α : Type*} [DecidableEq α]

/-- Put the item in front of all others. -/
def raise (stack : List α) (item : α) : List α :=
  stack.erase item ++ [item]

theorem perm_raise_of_mem {stack : List α} {item : α} (there : item ∈ stack) :
    (raise stack item).Perm stack := by
  have front := List.perm_append_singleton item (stack.erase item)
  exact front.trans (List.perm_cons_erase there).symm

theorem perm_foldl_raise {stack items : List α}
    (there : ∀ item ∈ items, item ∈ stack) :
    (items.foldl raise stack).Perm stack := by
  induction items generalizing stack with
  | nil => exact List.Perm.refl stack
  | cons item items induction =>
      have first := perm_raise_of_mem (there item List.mem_cons_self)
      have later : ∀ other ∈ items, other ∈ raise stack item := by
        intro other member
        exact first.mem_iff.mpr
          (there other (List.mem_cons_of_mem item member))
      exact (induction later).trans first

/-- An item that is raised once more loses its earlier place. -/
theorem dedup_concat (history : List α) (item : α) :
    (history ++ [item]).dedup = raise history.dedup item := by
  induction history with
  | nil => simp [raise]
  | cons first history induction =>
      rw [List.cons_append]
      by_cases again : first ∈ history
      · have later : first ∈ history ++ [item] :=
          List.mem_append_left [item] again
        rw [List.dedup_cons_of_mem again, List.dedup_cons_of_mem later]
        exact induction
      · rw [List.dedup_cons_of_notMem again]
        by_cases same : first = item
        · subst same
          have later : first ∈ history ++ [first] := by simp
          have absent : first ∉ history.dedup := by
            rwa [List.mem_dedup]
          rw [List.dedup_cons_of_mem later, induction, raise, raise,
            List.erase_cons_head, List.erase_of_not_mem absent]
        · have still : first ∉ history ++ [item] := by
            simp [again, same]
          rw [List.dedup_cons_of_notMem still, induction, raise, raise,
            List.erase_cons_tail (by simpa using same), List.cons_append]

/-- The stack after a history of raises. -/
theorem foldl_raise (before history : List α) :
    history.foldl raise before.dedup = (before ++ history).dedup := by
  induction history generalizing before with
  | nil => simp
  | cons item history induction =>
      have continued := induction (before ++ [item])
      rw [dedup_concat, List.append_assoc] at continued
      exact continued

theorem foldl_raise_nil (history : List α) :
    history.foldl raise [] = history.dedup :=
  foldl_raise [] history

end Raise

/-! ## Items named by their places -/

section Named

variable {β : Type*}

private theorem filterMap_range (items : List β) :
    (List.range items.length).filterMap (fun place => items[place]?) =
      items := by
  induction items using List.reverseRecOn with
  | nil => rfl
  | append_singleton items item induction =>
      have earlier : (List.range items.length).filterMap
            (fun place => (items ++ [item])[place]?) =
          (List.range items.length).filterMap
            (fun place => items[place]?) := by
        apply List.filterMap_congr
        intro place among
        exact List.getElem?_append_left (List.mem_range.mp among)
      rw [List.length_append, List.length_singleton, List.range_succ,
        List.filterMap_append, earlier, induction]
      simp

private theorem mapM_getElem? {items : List β} {places : List ℕ}
    (inside : ∀ place ∈ places, place < items.length) :
    places.mapM (fun place => items[place]?) =
      some (places.filterMap fun place => items[place]?) := by
  induction places with
  | nil => rfl
  | cons place places induction =>
      have first : place < items.length := inside place List.mem_cons_self
      have others := induction fun other member =>
        inside other (List.mem_cons_of_mem place member)
      simp [List.mapM_cons, others, List.getElem?_eq_getElem first]

theorem mem_of_lookup {items arranged : List β} {places : List ℕ}
    (looked : places.mapM (fun place => items[place]?) = some arranged) :
    ∀ item ∈ arranged, item ∈ items := by
  induction places generalizing arranged with
  | nil =>
      simp only [List.mapM_nil, Option.pure_def, Option.some.injEq] at looked
      subst looked
      intro item member
      cases member
  | cons place places induction =>
      simp only [List.mapM_cons, Option.bind_eq_bind, Option.pure_def,
        Option.bind_eq_some_iff, Option.some.injEq] at looked
      obtain ⟨first, found, others, rest, rfl⟩ := looked
      exact List.forall_mem_cons.mpr
        ⟨List.mem_of_getElem? found, induction rest⟩

/-- If the stack names every item once, looking up the names arranges the
items. -/
theorem lookup_of_perm {items : List β} {stack : List ℕ}
    (all : stack.Perm (List.range items.length)) :
    ∃ arranged, stack.mapM (fun place => items[place]?) = some arranged ∧
      arranged = stack.filterMap (fun place => items[place]?) ∧
      arranged.Perm items := by
  have inside : ∀ place ∈ stack, place < items.length := by
    intro place among
    exact List.mem_range.mp (all.mem_iff.mp among)
  refine ⟨_, mapM_getElem? inside, rfl, ?_⟩
  have arranged := all.filterMap fun place => items[place]?
  rwa [filterMap_range] at arranged

end Named

/-! ## Items that stand on other items -/

section Supported

variable {γ : Type*} {P Q : List γ → γ → Prop} {stack : List γ}

/-- Every item of the stack stands, in the sense of `P`, on the items below
it. -/
def Supported (P : List γ → γ → Prop) (stack : List γ) : Prop :=
  ∀ index item, stack[index]? = some item → P (stack.take index) item

theorem supported_nil : Supported P [] := by
  intro index item found
  cases found

theorem Supported.mono (supported : Supported P stack)
    (weaker : ∀ below item, P below item → Q below item) :
    Supported Q stack := by
  intro index item found
  exact weaker _ item (supported index item found)

theorem Supported.push {item : γ} (supported : Supported P stack)
    (stands : P stack item) : Supported P (stack ++ [item]) := by
  intro index other found
  by_cases inside : index < stack.length
  · rw [List.getElem?_append_left inside] at found
    rw [List.take_append_of_le_length (Nat.le_of_lt inside)]
    exact supported index other found
  · have bound := (List.getElem?_eq_some_iff.mp found).1
    rw [List.length_append, List.length_singleton] at bound
    obtain rfl : index = stack.length := by omega
    rw [List.getElem?_concat_length, Option.some.injEq] at found
    subst found
    rw [List.take_left]
    exact stands

theorem Supported.append {items : List γ} (supported : Supported P stack)
    (stand : ∀ item ∈ items, ∀ below, P below item) :
    Supported P (stack ++ items) := by
  induction items generalizing stack with
  | nil => rwa [List.append_nil]
  | cons item items induction =>
      have pushed := supported.push (stand item List.mem_cons_self stack)
      have rest := induction pushed fun other member =>
        stand other (List.mem_cons_of_mem item member)
      rwa [List.append_assoc, List.singleton_append] at rest

theorem Supported.take (supported : Supported P stack) (height : ℕ) :
    Supported P (stack.take height) := by
  intro index item found
  rw [List.getElem?_take] at found
  by_cases inside : index < height
  · rw [if_pos inside] at found
    rw [List.take_take, Nat.min_eq_left (Nat.le_of_lt inside)]
    exact supported index item found
  · rw [if_neg inside] at found
    cases found

theorem Supported.pop (supported : Supported P stack) :
    Supported P stack.dropLast := by
  rw [List.dropLast_eq_take]
  exact supported.take (stack.length - 1)

theorem Supported.replace {place : ℕ} {old new : γ}
    (supported : Supported P stack) (there : stack[place]? = some old)
    (stands : P (stack.take place) new)
    (supports : ∀ below item, below[place]? = some old → P below item →
      P (below.set place new) item) :
    Supported P (stack.set place new) := by
  intro index item found
  by_cases same : index = place
  · subst same
    have bound := (List.getElem?_eq_some_iff.mp there).1
    rw [List.getElem?_set_self bound, Option.some.injEq] at found
    subst found
    rw [List.take_set_of_le (Nat.le_refl index)]
    exact stands
  · rw [List.getElem?_set_ne (Ne.symm same)] at found
    have before := supported index item found
    rw [List.take_set]
    by_cases above : place < index
    · apply supports _ _ _ before
      rwa [List.getElem?_take_of_lt above]
    · rw [List.set_eq_of_length_le]
      · exact before
      · rw [List.length_take]
        omega

end Supported

end Stacking
