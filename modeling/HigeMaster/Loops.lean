import Mathlib.Data.List.Basic
import Mathlib.Tactic.Ring

/-!
# Counting loops

A loop counts up from zero and may stop the program.  Loops over rows and
columns are one loop over places, and a loop that stores one chunk after the
other from the beginning of a list leaves the chunks in a row.
-/

namespace Loops

variable {σ β : Type*}

/-- The steps `body 0`, `body 1` and so on, as many as `count`. -/
def loop (count : ℕ) (body : ℕ → σ → Option σ) (start : σ) : Option σ :=
  (List.range count).foldlM (fun state i => body i state) start

@[simp] theorem loop_zero (body : ℕ → σ → Option σ) (start : σ) :
    loop 0 body start = some start :=
  rfl

theorem loop_succ (count : ℕ) (body : ℕ → σ → Option σ) (start : σ) :
    loop (count + 1) body start =
      (loop count body start).bind (body count) := by
  rw [loop, List.range_succ, List.foldlM_append, loop]
  simp only [List.foldlM_cons, List.foldlM_nil, Option.bind_eq_bind,
    Option.pure_def, Option.bind_fun_some]

theorem loop_add (first second : ℕ) (body : ℕ → σ → Option σ) (start : σ) :
    loop (first + second) body start =
      (loop first body start).bind
        (loop second fun i => body (first + i)) := by
  induction second with
  | zero =>
      change _ = (loop first body start).bind some
      rw [Option.bind_fun_some, Nat.add_zero]
  | succ second induction =>
      rw [← add_assoc, loop_succ, induction, Option.bind_assoc]
      congr 1
      funext state
      rw [loop_succ]

theorem loop_congr {count : ℕ} {first second : ℕ → σ → Option σ}
    (same : ∀ i < count, first i = second i) (start : σ) :
    loop count first start = loop count second start := by
  induction count with
  | zero => rfl
  | succ count induction =>
      rw [loop_succ, loop_succ, same count (Nat.lt_succ_self count),
        induction fun i less => same i (Nat.lt_succ_of_lt less)]

/-- Going through the rows and in each row through the columns is going through
the places. -/
theorem loop_loop (rows columns : ℕ) (body : ℕ → ℕ → σ → Option σ)
    (start : σ) :
    loop rows (fun row => loop columns (body row)) start =
      loop (rows * columns)
        (fun place => body (place / columns) (place % columns)) start := by
  induction rows with
  | zero => rw [Nat.zero_mul, loop_zero, loop_zero]
  | succ rows induction =>
      rw [loop_succ, induction, Nat.succ_mul, loop_add]
      congr 1
      funext state
      apply loop_congr
      intro column less
      have row : (rows * columns + column) / columns = rows := by
        rw [Nat.mul_comm, Nat.mul_add_div (by omega),
          Nat.div_eq_of_lt less, Nat.add_zero]
      have place : (rows * columns + column) % columns = column := by
        rw [Nat.mul_comm, Nat.mul_add_mod, Nat.mod_eq_of_lt less]
      rw [row, place]

/-! ## Filling a list -/

/-- Store the items one after the other, starting at a place. -/
def storeAll (items : List β) (place : ℕ) : List β → Option (List β)
  | [] => some items
  | item :: rest =>
      if place < items.length then
        storeAll (items.set place item) (place + 1) rest
      else
        none

theorem storeAll_append (front back chunk : List β)
    (room : chunk.length ≤ back.length) :
    storeAll (front ++ back) front.length chunk =
      some (front ++ chunk ++ back.drop chunk.length) := by
  induction chunk generalizing front back with
  | nil => simp [storeAll]
  | cons item rest induction =>
      cases back with
      | nil => simp at room
      | cons old back =>
          have inside : front.length < (front ++ old :: back).length := by
            simp
          have stored : (front ++ old :: back).set front.length item =
              front ++ [item] ++ back := by
            rw [List.set_append_right _ _ le_rfl, Nat.sub_self,
              List.set_cons_zero,
              List.append_assoc, List.singleton_append]
          have further := induction (front ++ [item]) back
            (Nat.le_of_succ_le_succ room)
          rw [List.length_append, List.length_singleton] at further
          rw [storeAll, if_pos inside, stored, further]
          simp

/-- The chunks in a row; `none` if one cannot be made. -/
def collect (count : ℕ) (chunk : ℕ → Option (List β)) : Option (List β) :=
  loop count (fun i made => (chunk i).map fun next => made ++ next) []

theorem collect_succ (count : ℕ) (chunk : ℕ → Option (List β)) :
    collect (count + 1) chunk =
      (collect count chunk).bind fun made =>
        (chunk count).map fun next => made ++ next :=
  loop_succ count _ []

theorem exists_collect_iff {count : ℕ} {chunk : ℕ → Option (List β)} :
    (∃ made, collect count chunk = some made) ↔
      ∀ i < count, ∃ next, chunk i = some next := by
  induction count with
  | zero => simp [collect]
  | succ count induction =>
      rw [Nat.forall_lt_succ_right, ← induction]
      simp only [collect_succ, Option.bind_eq_some_iff,
        Option.map_eq_some_iff]
      constructor
      · rintro ⟨_, made, collected, next, last, _⟩
        exact ⟨⟨made, collected⟩, ⟨next, last⟩⟩
      · rintro ⟨⟨made, collected⟩, ⟨next, last⟩⟩
        exact ⟨_, made, collected, next, last, rfl⟩

section Sized

variable {size count : ℕ} {chunk : ℕ → Option (List β)}

theorem length_collect
    (sized : ∀ i made, chunk i = some made → made.length = size)
    {made : List β} (collected : collect count chunk = some made) :
    made.length = count * size := by
  induction count generalizing made with
  | zero =>
      rw [collect, loop_zero, Option.some_inj] at collected
      subst collected
      simp
  | succ count induction =>
      rw [collect_succ] at collected
      simp only [Option.bind_eq_some_iff, Option.map_eq_some_iff] at collected
      obtain ⟨before, collected, next, last, rfl⟩ := collected
      rw [List.length_append, induction collected, sized count next last,
        Nat.succ_mul]

/-- Where an item of a chunk ends up. -/
theorem getElem?_collect
    (sized : ∀ i made, chunk i = some made → made.length = size)
    {made : List β} (collected : collect count chunk = some made) {i : ℕ}
    (less : i < count) {place : ℕ} (inside : place < size) :
    made[i * size + place]? = (chunk i).bind fun next => next[place]? := by
  induction count generalizing made with
  | zero => omega
  | succ count induction =>
      rw [collect_succ] at collected
      simp only [Option.bind_eq_some_iff, Option.map_eq_some_iff] at collected
      obtain ⟨before, collected, next, last, rfl⟩ := collected
      have long : before.length = count * size :=
        length_collect sized collected
      by_cases earlier : i < count
      · have within : i * size + place < before.length := by
          have row : (i + 1) * size ≤ count * size :=
            Nat.mul_le_mul_right size earlier
          rw [Nat.succ_mul] at row
          omega
        rw [List.getElem?_append_left within]
        exact induction collected earlier
      · have here : i = count := by omega
        subst here
        rw [List.getElem?_append_right (by omega), long,
          Nat.add_sub_cancel_left, last, Option.bind_some]

/-- Chunks of the same size that are stored one after the other end up in a
row. -/
theorem loop_storeAll
    (sized : ∀ i made, chunk i = some made → made.length = size)
    {items : List β} (room : count * size ≤ items.length) :
    loop count
        (fun i stored => (chunk i).bind (storeAll stored (i * size))) items =
      (collect count chunk).map fun made =>
        made ++ items.drop (count * size) := by
  induction count with
  | zero => simp [collect]
  | succ count induction =>
      rw [Nat.succ_mul] at room
      rw [loop_succ, induction (by omega), collect_succ]
      cases collected : collect count chunk with
      | none => rfl
      | some made =>
          have place : made.length = count * size :=
            length_collect sized collected
          cases last : chunk count with
          | none => rfl
          | some next =>
              have long : next.length = size := sized count next last
              have enough : next.length ≤
                  (items.drop (count * size)).length := by
                rw [List.length_drop]
                omega
              have stored := storeAll_append made _ next enough
              rw [place, long, List.drop_drop] at stored
              simp only [Option.map_some, Option.bind_some]
              rw [stored, Nat.succ_mul]

theorem loop_storeAll_full
    (sized : ∀ i made, chunk i = some made → made.length = size)
    {items : List β} (full : items.length = count * size) :
    loop count
        (fun i stored => (chunk i).bind (storeAll stored (i * size))) items =
      collect count chunk := by
  rw [loop_storeAll sized full.ge, List.drop_of_length_le full.le]
  cases collect count chunk with
  | none => rfl
  | some made => rw [Option.map_some, List.append_nil]

end Sized

end Loops
