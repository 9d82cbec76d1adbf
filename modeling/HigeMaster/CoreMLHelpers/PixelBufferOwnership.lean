import HigeMaster.CoreMLHelpers.PixelBuffers
import Mathlib.Data.Finset.Basic

/-!
# Who owns the memory of pixel buffers

In every run exactly the allocated blocks belong to buffers, each to one, so
the conversions neither lose a block nor free one twice.  They do lose locks:
a conversion that finds no base address or no memory returns without unlocking
its source.
-/

namespace HigeMaster

/-! ## Arithmetic -/

theorem vImagePixelCount_eq_some {n : ℤ} {result : ℕ} :
    vImagePixelCount n = some result ↔ 0 ≤ n ∧ n.toNat = result := by
  rw [vImagePixelCount, Option.ite_none_right_eq_some, Option.some_inj]

namespace Conversion

variable {conversion : Conversion} {source : CVPixelBuffer}

/-- The source can be placed. -/
def PlacesSource (conversion : Conversion) (source : CVPixelBuffer) : Prop :=
  FitsInt (conversion.cropY * source.bytesPerRow) ∧
    FitsInt (conversion.cropX * 4) ∧
      FitsInt (conversion.cropY * source.bytesPerRow +
        conversion.cropX * 4) ∧
        0 ≤ conversion.cropHeight ∧ 0 ≤ conversion.cropWidth

/-- The memory for the result can be measured. -/
def MeasuresResult (conversion : Conversion) : Prop :=
  FitsInt (conversion.destWidth * 4) ∧
    FitsInt (conversion.destHeight * (conversion.destWidth * 4))

/-- The pixels that are read. -/
def region (conversion : Conversion) (source : CVPixelBuffer) : VImageBuffer :=
  { offset := conversion.cropY * source.bytesPerRow + conversion.cropX * 4
    height := conversion.cropHeight.toNat
    width := conversion.cropWidth.toNat
    rowBytes := source.bytesPerRow }

theorem srcBuffer_eq_some {buffer : VImageBuffer} :
    conversion.srcBuffer source = some buffer ↔
      conversion.PlacesSource source ∧ conversion.region source = buffer := by
  simp [srcBuffer, Option.bind_eq_some_iff, intResult_eq_some,
    vImagePixelCount_eq_some, PlacesSource, region, and_assoc]

theorem destBuffer_eq_some {destBytesPerRow : ℤ} {buffer : VImageBuffer} :
    conversion.destBuffer destBytesPerRow = some buffer ↔
      0 ≤ conversion.destHeight ∧ 0 ≤ conversion.destWidth ∧
        { offset := 0
          height := conversion.destHeight.toNat
          width := conversion.destWidth.toNat
          rowBytes := destBytesPerRow } = buffer := by
  simp [destBuffer, Option.bind_eq_some_iff, vImagePixelCount_eq_some,
    and_assoc]

end Conversion

namespace Memory

/-- The block that a buffer owns. -/
def holds (memory : Memory) (reference : ℕ) : Option ℕ :=
  (memory.buffers reference).bind CVPixelBuffer.releases

/-- Exactly the allocated blocks are owned, each by one buffer. -/
def Owned (memory : Memory) : Prop :=
  Ownership.Owned memory.blocks memory.holds

/-- What the frameworks and reference counting promise: only buffers that are
there are used, a buffer from elsewhere owns no block, locking succeeds, and
what is new is not in use. -/
def Promised (memory : Memory) : BufferEvent → Prop
  | .arrive reference buffer =>
      memory.buffers reference = none ∧ buffer.releases = none
  | .convert reference _ answers =>
      (∃ source, memory.buffers reference = some source) ∧
        answers.locks = true ∧
          (∀ block, answers.malloc = some block → block ∉ memory.blocks) ∧
            ∀ created, answers.creates = some created →
              memory.buffers created = none
  | .release reference => ∃ buffer, memory.buffers reference = some buffer

/-! ## One conversion -/

/-- How a conversion ends. -/
inductive Converted (memory : Memory) (reference : ℕ) (source : CVPixelBuffer)
    (answers : Answers) : Memory → Option ℕ → Prop where
  | stopped
      (missing : answers.hasBaseAddress = false ∨ answers.malloc = none) :
      Converted memory reference source answers (memory.lock reference) none
  | failed {block : ℕ} (found : answers.hasBaseAddress = true)
      (allocated : answers.malloc = some block) :
      Converted memory reference source answers
        { memory with blocks := (insert block memory.blocks).erase block } none
  | converted {block created : ℕ} {result : CVPixelBuffer}
      (found : answers.hasBaseAddress = true)
      (allocated : answers.malloc = some block)
      (creates : answers.creates = some created)
      (owns : result.releases = some block)
      (format : result.pixelFormat = source.pixelFormat) :
      Converted memory reference source answers
        ((memory.malloc block).create created result) (some created)

variable {memory after : Memory} {reference : ℕ} {source : CVPixelBuffer}
  {conversion : Conversion} {answers : Answers} {created : Option ℕ}

/-- Unlocking leaves a buffer as it was before it was locked. -/
theorem unlock_lock (there : memory.buffers reference = some source)
    (block : ℕ) :
    ((memory.lock reference).malloc block).unlock reference =
      memory.malloc block := by
  have same : Function.update memory.buffers reference (some source) =
      memory.buffers := by
    rw [← there, Function.update_eq_self]
  simp [lock, malloc, unlock, there, same]

theorem free_malloc (block : ℕ) :
    (memory.malloc block).free block =
      some { memory with
        blocks := (insert block memory.blocks).erase block } := by
  rw [free, if_pos]
  · rfl
  · exact Finset.mem_insert_self block memory.blocks

/-- The arithmetic of a conversion goes through, and vImage reads only bytes of
the source. -/
def Computes (source : CVPixelBuffer) (conversion : Conversion)
    (answers : Answers) : Prop :=
  answers.hasBaseAddress = true →
    conversion.PlacesSource source ∧ conversion.MeasuresResult ∧
      (answers.malloc ≠ none →
        0 ≤ conversion.destHeight ∧ 0 ≤ conversion.destWidth ∧
          (conversion.region source).Inside source.size)

theorem converted_of_convert
    (there : memory.buffers reference = some source)
    (locks : answers.locks = true)
    (completed : memory.convert reference source conversion answers =
      some (after, created)) :
    Converted memory reference source answers after created := by
  rw [convert, if_pos locks] at completed
  by_cases found : answers.hasBaseAddress = true
  · simp only [if_pos found, Option.bind_eq_bind, Option.bind_eq_some_iff]
      at completed
    obtain ⟨_, _, _, _, _, _, completed⟩ := completed
    cases allocated : answers.malloc with
    | none =>
        simp only [allocated, Option.some_inj, Prod.mk.injEq] at completed
        obtain ⟨rfl, rfl⟩ := completed
        exact .stopped (.inr allocated)
    | some block =>
        simp only [allocated, Option.bind_eq_some_iff,
          Option.ite_none_right_eq_some, unlock_lock there, free_malloc,
          Option.map_some] at completed
        obtain ⟨_, _, _, completed⟩ := completed
        cases converts : answers.converts with
        | false =>
            simp only [converts, Bool.false_eq_true, if_false, Option.some_inj,
              Prod.mk.injEq] at completed
            obtain ⟨rfl, rfl⟩ := completed
            exact .failed found allocated
        | true =>
            simp only [converts, if_true] at completed
            cases creates : answers.creates with
            | none =>
                simp only [creates, Option.some_inj, Prod.mk.injEq]
                  at completed
                obtain ⟨rfl, rfl⟩ := completed
                exact .failed found allocated
            | some new =>
                simp only [creates, Option.some_inj, Prod.mk.injEq]
                  at completed
                obtain ⟨rfl, rfl⟩ := completed
                exact .converted found allocated creates rfl rfl
  · rw [if_neg found, Option.some_inj, Prod.mk.injEq] at completed
    obtain ⟨rfl, rfl⟩ := completed
    exact .stopped (.inl (Bool.eq_false_iff.mpr found))

theorem convert_completes_iff
    (there : memory.buffers reference = some source)
    (locks : answers.locks = true) :
    (∃ result, memory.convert reference source conversion answers =
        some result) ↔
      Computes source conversion answers := by
  rw [convert, if_pos locks]
  constructor
  · rintro ⟨result, completed⟩ found
    simp only [found, if_true, Option.bind_eq_bind, Option.bind_eq_some_iff]
      at completed
    obtain ⟨_, placed, _, row, _, bytes, completed⟩ := completed
    obtain ⟨rowFits, rfl⟩ := intResult_eq_some.mp row
    have fits := (intResult_eq_some.mp bytes).1
    obtain ⟨places, rfl⟩ := Conversion.srcBuffer_eq_some.mp placed
    refine ⟨places, ⟨rowFits, fits⟩, ?_⟩
    intro enough
    obtain ⟨block, allocated⟩ := Option.ne_none_iff_exists'.mp enough
    simp only [allocated, Option.bind_eq_some_iff,
      Option.ite_none_right_eq_some] at completed
    obtain ⟨_, sized, inside, _⟩ := completed
    obtain ⟨height, width, _⟩ := Conversion.destBuffer_eq_some.mp sized
    exact ⟨height, width, inside⟩
  · intro computes
    by_cases found : answers.hasBaseAddress = true
    · obtain ⟨placed, ⟨rowFits, fits⟩, sized⟩ := computes found
      have placed := Conversion.srcBuffer_eq_some.mpr ⟨placed, rfl⟩
      have row : conversion.destBytesPerRow =
          some (conversion.destWidth * 4) :=
        intResult_eq_some.mpr ⟨rowFits, rfl⟩
      have bytes := intResult_eq_some.mpr ⟨fits, rfl⟩
      simp only [if_pos found, placed, row, bytes, Option.bind_eq_bind,
        Option.bind_some]
      cases allocated : answers.malloc with
      | none => exact ⟨_, rfl⟩
      | some block =>
          obtain ⟨height, width, inside⟩ := sized (by simp [allocated])
          have destBuffer :
              conversion.destBuffer (conversion.destWidth * 4) = some _ :=
            Conversion.destBuffer_eq_some.mpr ⟨height, width, rfl⟩
          simp only [destBuffer, Option.bind_some, if_pos inside,
            unlock_lock there, free_malloc, Option.map_some]
          cases answers.converts with
          | false => exact ⟨_, rfl⟩
          | true => cases answers.creates <;> exact ⟨_, rfl⟩
    · rw [if_neg found]
      exact ⟨_, rfl⟩

/-! ## Ownership -/

@[simp] theorem buffers_lock (memory : Memory) (reference : ℕ) :
    (memory.lock reference).buffers =
      Function.update memory.buffers reference
        ((memory.buffers reference).map fun buffer =>
          { buffer with locks := buffer.locks + 1 }) :=
  rfl

@[simp] theorem buffers_create (memory : Memory) (reference : ℕ)
    (buffer : CVPixelBuffer) :
    (memory.create reference buffer).buffers =
      Function.update memory.buffers reference (some buffer) :=
  rfl

@[simp] theorem buffers_malloc (memory : Memory) (block : ℕ) :
    (memory.malloc block).buffers = memory.buffers :=
  rfl

theorem holds_update (memory : Memory) (blocks : Finset ℕ) (reference : ℕ)
    (buffer : Option CVPixelBuffer) :
    holds
        { blocks, buffers := Function.update memory.buffers reference buffer } =
      Function.update memory.holds reference
        (buffer.bind CVPixelBuffer.releases) :=
  Function.comp_update (fun buffer : Option CVPixelBuffer =>
    buffer.bind CVPixelBuffer.releases) memory.buffers reference buffer

theorem holds_lock (memory : Memory) (reference : ℕ) :
    (memory.lock reference).holds = memory.holds := by
  rw [lock, holds_update, Function.update_eq_self_iff, holds]
  cases memory.buffers reference <;> rfl

theorem holds_eq_none (absent : memory.buffers reference = none) :
    memory.holds reference = none := by
  rw [holds, absent, Option.bind_none]

theorem Owned.converted (owned : memory.Owned)
    (freshBlock : ∀ block, answers.malloc = some block →
      block ∉ memory.blocks)
    (freshReference : ∀ created, answers.creates = some created →
      memory.buffers created = none)
    (converted : Converted memory reference source answers after created) :
    after.Owned := by
  cases converted with
  | stopped missing =>
      rw [Owned, holds_lock]
      exact owned
  | failed found allocated =>
      rw [Owned, Finset.erase_insert (freshBlock _ allocated)]
      exact owned
  | converted found allocated creates owns format =>
      rw [Owned, create, holds_update, Option.bind_some, owns]
      apply Ownership.Owned.acquire owned (freshBlock _ allocated)
      exact holds_eq_none (freshReference _ creates)

theorem Owned.release (owned : memory.Owned) {buffer : CVPixelBuffer}
    (there : memory.buffers reference = some buffer) :
    ∃ after, memory.release reference = some after ∧ after.Owned := by
  have owns : memory.holds reference = buffer.releases := by
    rw [holds, there, Option.bind_some]
  rw [Memory.release, there, Option.bind_some]
  cases releases : buffer.releases with
  | none =>
      refine ⟨_, rfl, ?_⟩
      have same : Function.update memory.holds reference none =
          memory.holds := by
        rw [Function.update_eq_self_iff, owns, releases]
      rw [Owned, holds_update, Option.bind_none, same]
      exact owned
  | some block =>
      rw [releases] at owns
      have allocated : block ∈ memory.blocks :=
        (owned.held block).mpr ⟨reference, owns⟩
      refine ⟨_, if_pos allocated, ?_⟩
      rw [Owned, holds_update, Option.bind_none]
      exact Ownership.Owned.drop owned owns

/-- The events that do not stop the program. -/
def Goes (memory : Memory) : BufferEvent → Prop
  | .arrive _ _ | .release _ => True
  | .convert reference call answers =>
      ∀ source, memory.buffers reference = some source →
        Computes source (call.conversion source) answers

theorem Owned.step (owned : memory.Owned) {event : BufferEvent}
    (promised : memory.Promised event)
    (taken : memory.step event = some after) : after.Owned := by
  cases event with
  | arrive reference buffer =>
      obtain ⟨absent, owns⟩ := promised
      rw [Memory.step, Option.some_inj] at taken
      subst taken
      have same : Function.update memory.holds reference none =
          memory.holds := by
        rw [Function.update_eq_self_iff, holds_eq_none absent]
      rw [Owned, create, holds_update, Option.bind_some, owns, same]
      exact owned
  | convert reference call answers =>
      obtain ⟨⟨source, there⟩, locks, freshBlock, freshReference⟩ := promised
      rw [Memory.step, there, Option.bind_some, Option.map_eq_some_iff]
        at taken
      obtain ⟨⟨after, created⟩, completed, rfl⟩ := taken
      exact owned.converted freshBlock freshReference
        (converted_of_convert there locks completed)
  | release reference =>
      obtain ⟨buffer, there⟩ := promised
      obtain ⟨next, released, kept⟩ := owned.release there
      rw [Memory.step, released, Option.some_inj] at taken
      subst taken
      exact kept

theorem Owned.step_iff (owned : memory.Owned) {event : BufferEvent}
    (promised : memory.Promised event) :
    (∃ after, memory.step event = some after) ↔ memory.Goes event := by
  cases event with
  | arrive reference buffer => exact ⟨fun _ => trivial, fun _ => ⟨_, rfl⟩⟩
  | convert reference call answers =>
      obtain ⟨⟨source, there⟩, locks, _⟩ := promised
      have converts : (∃ after,
          memory.step (.convert reference call answers) = some after) ↔
            ∃ result, memory.convert reference source
              (call.conversion source) answers = some result := by
        simp [Memory.step, there]
      rw [converts, convert_completes_iff there locks]
      constructor
      · intro computes other same
        rw [there, Option.some_inj] at same
        subst same
        exact computes
      · intro goes
        exact goes source there
  | release reference =>
      obtain ⟨buffer, there⟩ := promised
      obtain ⟨next, released, _⟩ := owned.release there
      exact ⟨fun _ => trivial, fun _ => ⟨next, released⟩⟩

def cameraPicture : CVPixelBuffer :=
  { width := 2
    height := 1
    bytesPerRow := 8
    pixelFormat := 32
    locks := 0
    releases := none }

/-- A camera picture is rotated, and the result goes. -/
def rotateAndRelease : List BufferEvent :=
  [.arrive 0 cameraPicture,
    .convert 0 (.rotate90 1)
      { locks := true
        hasBaseAddress := true
        malloc := some 7
        converts := true
        creates := some 1 },
    .release 1]

/-- There is nothing yet. -/
def empty : Memory :=
  { blocks := ∅, buffers := fun _ => none }

theorem owned_empty : empty.Owned where
  once := nofun
  held block := by simp [empty, holds]

private theorem promised_rotateAndRelease :
    EventRun.Disciplined Memory.step Promised empty rotateAndRelease := by
  rw [rotateAndRelease, EventRun.disciplined_cons]
  refine ⟨⟨rfl, rfl⟩, ?_⟩
  intro arrived taken
  obtain rfl := Option.some_inj.mp taken
  rw [EventRun.disciplined_cons]
  refine ⟨⟨⟨_, rfl⟩, rfl, ?_, ?_⟩, ?_⟩
  · intro block _ member
    cases member
  · intro created equality
    obtain rfl := Option.some_inj.mp equality
    rfl
  intro converted taken
  rw [EventRun.disciplined_cons]
  refine ⟨?_, fun _ _ => EventRun.disciplined_nil⟩
  cases taken
  exact ⟨_, rfl⟩

/-- A run goes on exactly as long as the arithmetic of its conversions goes
through and they read only bytes of their sources.  Exactly the allocated blocks
are owned, each by one buffer, and nothing is left of them when the buffers are
gone. -/
theorem memory_stays_owned {start : Memory} (owned : start.Owned)
    {events : List BufferEvent}
    (promised : EventRun.Disciplined Memory.step Promised start events) :
    ((∃ final, EventRun.run Memory.step start events = some final) ↔
      EventRun.Disciplined Memory.step Goes start events) ∧
    ∀ final, EventRun.run Memory.step start events = some final →
      final.Owned ∧
        ((∀ reference, final.buffers reference = none) →
          final.blocks = ∅) := by
  constructor
  · exact EventRun.completes_iff owned
      (fun _ _ _ owned promised taken => owned.step promised taken)
      (fun _ _ owned promised => owned.step_iff promised) promised
  · intro final completed
    have kept : final.Owned :=
      (EventRun.always_of_disciplined owned
        (fun _ _ _ owned promised taken => owned.step promised taken)
        promised).final completed
    refine ⟨kept, ?_⟩
    intro gone
    exact Ownership.Owned.eq_empty kept
      fun reference => holds_eq_none (gone reference)

theorem memory_stays_owned_rotateAndRelease :
    ∃ final, EventRun.run Memory.step empty rotateAndRelease = some final ∧
      final.Owned :=
  ⟨_, rfl,
    ((memory_stays_owned owned_empty promised_rotateAndRelease).2 _ rfl).1⟩

/-! ## Locks -/

/-- A conversion of the buffer that returns without unlocking it. -/
def leavesLocked (reference : ℕ) : BufferEvent → Bool
  | .convert other _ answers =>
      other = reference ∧
        (answers.hasBaseAddress = false ∨ answers.malloc = none)
  | .arrive _ _ | .release _ => false

/-- The buffer after some more locks. -/
def withLocks (buffer : CVPixelBuffer) (locks : ℕ) : CVPixelBuffer :=
  { buffer with locks := buffer.locks + locks }

theorem withLocks_zero (buffer : CVPixelBuffer) :
    withLocks buffer 0 = buffer :=
  rfl

theorem leavesLocked_convert {target : ℕ} {call : ConversionCall} :
    leavesLocked target (.convert reference call answers) = true ↔
      reference = target ∧
        (answers.hasBaseAddress = false ∨ answers.malloc = none) := by
  simp [leavesLocked]

/-- A conversion changes only the locks of its source, and only if it stops
early. -/
theorem buffers_converted {target : ℕ} {buffer : CVPixelBuffer}
    (there : memory.buffers target = some buffer)
    (freshReference : ∀ created, answers.creates = some created →
      memory.buffers created = none)
    (call : ConversionCall)
    (converted : Converted memory reference source answers after created) :
    after.buffers target =
      some (withLocks buffer
        (if leavesLocked target (.convert reference call answers) then 1
          else 0)) := by
  cases converted with
  | stopped missing =>
      by_cases same : reference = target
      · subst same
        rw [if_pos (leavesLocked_convert.mpr ⟨rfl, missing⟩),
          buffers_lock, Function.update_self, there]
        rfl
      · rw [if_neg (fun left => same (leavesLocked_convert.mp left).1),
          buffers_lock, Function.update_of_ne (Ne.symm same), there,
          withLocks_zero]
  | failed found allocated =>
      rw [if_neg, there, withLocks_zero]
      simp [leavesLocked_convert, found, allocated]
  | converted found allocated creates owns format =>
      rename_i block new result
      have different : target ≠ new := by
        rintro rfl
        rw [freshReference target creates] at there
        cases there
      rw [if_neg, buffers_create, Function.update_of_ne different,
        buffers_malloc, there, withLocks_zero]
      simp [leavesLocked_convert, found, allocated]

theorem buffers_step {target : ℕ} {buffer : CVPixelBuffer}
    {event : BufferEvent} (there : memory.buffers target = some buffer)
    (promised : memory.Promised event) (kept : event ≠ .release target)
    (taken : memory.step event = some after) :
    after.buffers target =
      some (withLocks buffer (if leavesLocked target event then 1 else 0)) := by
  cases event with
  | arrive reference arrived =>
      obtain ⟨absent, _⟩ := promised
      have different : target ≠ reference := by
        rintro rfl
        rw [absent] at there
        cases there
      rw [step, Option.some_inj] at taken
      subst taken
      rw [buffers_create, Function.update_of_ne different, there]
      rfl
  | convert reference call answers =>
      obtain ⟨⟨source, found⟩, locks, _, freshReference⟩ := promised
      rw [step, found, Option.bind_some, Option.map_eq_some_iff] at taken
      obtain ⟨⟨after, created⟩, completed, rfl⟩ := taken
      exact buffers_converted there freshReference call
        (converted_of_convert found locks completed)
  | release reference =>
      have different : target ≠ reference := by
        rintro rfl
        exact kept rfl
      rw [step, release, Option.bind_eq_some_iff] at taken
      obtain ⟨released, _, taken⟩ := taken
      have unchanged : after.buffers =
          Function.update memory.buffers reference none := by
        cases releases : released.releases with
        | none =>
            simp only [releases, Option.some_inj] at taken
            rw [← taken]
        | some block =>
            simp only [releases, free, Option.ite_none_right_eq_some,
              Option.some_inj] at taken
            rw [← taken.2]
      rw [unchanged, Function.update_of_ne different, there]
      rfl

/-- As long as a buffer is there, it is locked once more for every conversion
of it that found no base address or no memory, and otherwise unchanged. -/
theorem locks_of_run {start final : Memory} {target : ℕ}
    {buffer : CVPixelBuffer} {events : List BufferEvent}
    (there : start.buffers target = some buffer)
    (promised : EventRun.Disciplined Memory.step Promised start events)
    (kept : .release target ∉ events)
    (completed : EventRun.run Memory.step start events = some final) :
    final.buffers target =
      some (withLocks buffer (events.countP (leavesLocked target))) := by
  induction events generalizing start buffer with
  | nil =>
      rw [EventRun.run_nil, Option.some_inj] at completed
      rw [← completed, there, List.countP_nil, withLocks_zero]
  | cons event events induction =>
      obtain ⟨next, taken, completed⟩ :=
        EventRun.run_cons_eq_some.mp completed
      obtain ⟨promise, promised⟩ := EventRun.disciplined_cons.mp promised
      rw [List.mem_cons, not_or] at kept
      obtain ⟨different, kept⟩ := kept
      have changed := buffers_step there promise (Ne.symm different) taken
      rw [induction changed (promised next taken) kept completed,
        List.countP_cons, withLocks, withLocks, withLocks, Nat.add_assoc,
        Nat.add_comm (events.countP _)]

/-- There is no memory to resize a picture. -/
def resizeWithoutMemory : BufferEvent :=
  .convert 0 (.resize 4 4)
    { locks := true
      hasBaseAddress := true
      malloc := none
      converts := true
      creates := none }

theorem locks_of_run_resizeWithoutMemory :
    ∃ final,
      EventRun.run Memory.step (empty.create 0 cameraPicture)
          [resizeWithoutMemory] =
        some final ∧
      final.buffers 0 = some { cameraPicture with locks := 1 } := by
  refine ⟨_, rfl, ?_⟩
  have promised : EventRun.Disciplined Memory.step Promised
      (empty.create 0 cameraPicture) [resizeWithoutMemory] := by
    rw [EventRun.disciplined_cons]
    exact ⟨⟨⟨_, rfl⟩, rfl, nofun, nofun⟩,
      fun _ _ => EventRun.disciplined_nil⟩
  exact locks_of_run rfl promised
    (by simp [resizeWithoutMemory]) rfl

end Memory

end HigeMaster
