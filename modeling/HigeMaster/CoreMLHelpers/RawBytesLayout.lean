import HigeMaster.CoreMLHelpers.MultiArrayViews
import HigeMaster.CoreMLHelpers.RawBytes
import Mathlib.Tactic.FinCases
import Mathlib.Tactic.IntervalCases

/-!
# Where the bytes of a picture come from

The loops over rows and columns store one chunk of bytes for each pixel, in the
order of the pixels: the three channels and an opaque alpha, or one grey value.
-/

namespace HigeMaster

theorem forRange_eq {σ : Type} {count : ℤ} (nonneg : 0 ≤ count)
    (body : ℤ → σ → Option σ) (start : σ) :
    forRange count body start =
      Loops.loop count.toNat (fun i => body (i : ℤ)) start :=
  if_neg (not_lt.mpr nonneg)

theorem repeating_eq {T : Type} {count : ℤ} (nonneg : 0 ≤ count) (value : T) :
    repeating value count = some (List.replicate count.toNat value) :=
  if_neg (not_lt.mpr nonneg)

/-- Loops over rows and columns are one loop over the pixels. -/
theorem forRange_forRange {σ : Type} {height width : ℤ}
    (heightNonneg : 0 ≤ height) (widthNonneg : 0 ≤ width)
    (body : ℤ → ℤ → σ → Option σ) (start : σ) :
    forRange height (fun h => forRange width (body h)) start =
      Loops.loop (height.toNat * width.toNat)
        (fun pixel => body (pixel / width.toNat : ℕ)
          (pixel % width.toNat : ℕ)) start := by
  have nested := Loops.loop_loop height.toNat width.toNat
    (fun row column => body row column) start
  rw [forRange_eq heightNonneg, ← nested]
  congr 1
  funext row state
  exact forRange_eq widthNonneg _ state

theorem store_cast (bytes : List UInt8) (place : ℕ) (byte : UInt8) :
    store bytes place byte = Loops.storeAll bytes place [byte] := by
  simp [store, Loops.storeAll]

theorem storeAll_nil (bytes : List UInt8) (place : ℕ) :
    Loops.storeAll bytes place [] = some bytes :=
  rfl

theorem storeAll_cons (bytes : List UInt8) (place : ℕ) (byte : UInt8)
    (rest : List UInt8) :
    Loops.storeAll bytes place (byte :: rest) =
      (store bytes place byte).bind fun stored =>
        Loops.storeAll stored (place + 1) rest := by
  rw [Loops.storeAll, store]
  by_cases inside : place < bytes.length
  · rw [if_pos inside, if_pos (by omega), Option.bind_some, Int.toNat_natCast]
  · rw [if_neg inside, if_neg (by omega), Option.bind_none]

namespace MultiArray

variable {T : Type} [MultiArrayType T]

theorem exists_clampedByte_iff (value : T) :
    (∃ byte, clampedByte value = some byte) ↔
      Comparable.equal value value = true :=
  MultiArrayType.exists_toUInt8_iff value

/-- The byte for an element. -/
def elementByte (array : MultiArray) (elements : List T) (offset scale : T)
    (indices : List ℤ) : Option UInt8 :=
  ((array.get elements indices).bind (scaled offset scale)).bind clampedByte

/-- The bytes of a coloured pixel. -/
def colour (array : MultiArray) (elements : List T) (offset scale : T)
    (h w : ℤ) : Option (List UInt8) :=
  (array.elementByte elements offset scale [0, h, w]).bind fun r =>
    (array.elementByte elements offset scale [1, h, w]).bind fun g =>
      (array.elementByte elements offset scale [2, h, w]).map fun b =>
        [r, g, b, 255]

/-- The byte of a grey pixel. -/
def grey (array : MultiArray) (elements : List T) (offset scale : T)
    (h w : ℤ) : Option (List UInt8) :=
  (array.elementByte elements offset scale [h, w]).map fun byte => [byte]

theorem length_grey {array : MultiArray} {elements : List T}
    {offset scale : T} {h w : ℤ} {made : List UInt8}
    (done : array.grey elements offset scale h w = some made) :
    made.length = 1 := by
  simp only [grey, Option.map_eq_some_iff] at done
  obtain ⟨_, _, rfl⟩ := done
  rfl

theorem length_colour {array : MultiArray} {elements : List T}
    {offset scale : T} {h w : ℤ} {made : List UInt8}
    (done : array.colour elements offset scale h w = some made) :
    made.length = 4 := by
  simp only [colour, Option.bind_eq_some_iff, Option.map_eq_some_iff] at done
  obtain ⟨_, _, _, _, _, _, rfl⟩ := done
  rfl

private theorem row_add_column (pixel columns : ℕ) :
    ((pixel / columns : ℕ) : ℤ) * columns + (pixel % columns : ℕ) = pixel := by
  have split := Nat.div_add_mod pixel columns
  rw [Nat.mul_comm] at split
  exact_mod_cast split

/-- The body of the loops stores the bytes of the pixel. -/
theorem storeColour_eq (array : MultiArray) (elements : List T)
    (offset scale : T) (columns pixel : ℕ) :
    array.storeColour elements offset scale columns (pixel / columns : ℕ)
        (pixel % columns : ℕ) =
      fun bytes => (array.colour elements offset scale (pixel / columns : ℕ)
        (pixel % columns : ℕ)).bind (Loops.storeAll bytes (pixel * 4)) := by
  funext bytes
  have start : ((pixel / columns : ℕ) : ℤ) * columns * 4 +
      ((pixel % columns : ℕ) : ℤ) * 4 = (pixel * 4 : ℕ) := by
    have place := row_add_column pixel columns
    push_cast at place ⊢
    rw [← add_mul, place]
  simp only [storeColour, colour, start, elementByte]
  cases (array.get elements [0, (pixel / columns : ℕ),
    (pixel % columns : ℕ)]).bind (scaled offset scale) with
  | none => rfl
  | some r =>
  cases (array.get elements [1, (pixel / columns : ℕ),
    (pixel % columns : ℕ)]).bind (scaled offset scale) with
  | none => simp
  | some g =>
  cases (array.get elements [2, (pixel / columns : ℕ),
    (pixel % columns : ℕ)]).bind (scaled offset scale) with
  | none => simp
  | some b =>
  simp only [Option.bind_eq_bind, Option.bind_some]
  cases clampedByte r with
  | none => rfl
  | some red =>
  cases clampedByte g with
  | none => simp
  | some green =>
  cases clampedByte b with
  | none => simp
  | some blue =>
  simp only [Option.bind_some, Option.map_some, storeAll_cons, storeAll_nil,
    Option.bind_fun_some]
  push_cast
  simp only [add_zero, add_assoc]
  rfl

theorem storeGrey_eq (array : MultiArray) (elements : List T)
    (offset scale : T) (columns pixel : ℕ) :
    array.storeGrey elements offset scale columns (pixel / columns : ℕ)
        (pixel % columns : ℕ) =
      fun bytes => (array.grey elements offset scale (pixel / columns : ℕ)
        (pixel % columns : ℕ)).bind (Loops.storeAll bytes (pixel * 1)) := by
  funext bytes
  have place := row_add_column pixel columns
  simp only [storeGrey, grey, elementByte, place]
  cases (array.get elements [(pixel / columns : ℕ),
    (pixel % columns : ℕ)]).bind (scaled offset scale) with
  | none => rfl
  | some value =>
      simp only [Option.bind_eq_bind, Option.bind_some]
      cases clampedByte value with
      | none => rfl
      | some byte =>
          rw [Option.bind_some, Option.map_some, Option.bind_some, mul_one,
            store_cast]

/-! ## The loops as a whole -/

/-- A multi-array of three channels. -/
def planes (height width : ℕ) (strides : Fin 3 → ℤ) : MultiArray :=
  { rank := 3, shape := ![3, height, width], strides := strides }

/-- A multi-array of one channel. -/
def plane (height width : ℕ) (strides : Fin 2 → ℤ) : MultiArray :=
  { rank := 2, shape := ![height, width], strides := strides }

@[simp] theorem rank_planes (height width : ℕ) (strides : Fin 3 → ℤ) :
    (planes height width strides).rank = 3 :=
  rfl

@[simp] theorem rank_plane (height width : ℕ) (strides : Fin 2 → ℤ) :
    (plane height width strides).rank = 2 :=
  rfl

private theorem intResult_bytes (pixels : ℕ) :
    ((intResult pixels).bind fun pixels => intResult (pixels * 4)) =
      if pixels * 4 < 2 ^ 63 then some ((pixels * 4 : ℕ) : ℤ) else none := by
  have bytes := intResult_natCast (pixels * 4)
  rw [← bytes, intResult_natCast pixels, Nat.cast_mul, Nat.cast_ofNat]
  by_cases less : pixels < 2 ^ 63
  · rw [if_pos less, Option.bind_some]
  · have more : ¬pixels * 4 < 2 ^ 63 := by omega
    rw [Nat.cast_mul, Nat.cast_ofNat, if_neg more] at bytes
    rw [if_neg less, Option.bind_none, bytes]

/-- The result are the bytes of all pixels in a row, if their number fits. -/
theorem toRawBytesRGBA_eq (height width : ℕ) (strides : Fin 3 → ℤ)
    (elements : List T) (offset scale : T) :
    (planes height width strides).toRawBytesRGBA elements offset scale =
      if height * width * 4 < 2 ^ 63 then
        (Loops.collect (height * width) fun pixel =>
          (planes height width strides).colour elements offset scale
            (pixel / width : ℕ) (pixel % width : ℕ)).map fun bytes =>
              some { bytes := bytes, width := width, height := height }
      else none := by
  have unfolded :
      (planes height width strides).toRawBytesRGBA elements offset scale =
        (intResult ((height : ℤ) * width)).bind fun pixels =>
          (intResult (pixels * 4)).bind fun count =>
            (repeating 0 count).bind fun zeros =>
              (forRange height (fun h => forRange width fun w =>
                (planes height width strides).storeColour elements offset
                  scale width h w) zeros).bind fun bytes =>
                    some (some
                      { bytes := bytes, width := width, height := height }) :=
    rfl
  have counted := intResult_bytes (height * width)
  rw [Nat.cast_mul] at counted
  rw [unfolded, ← Option.bind_assoc, counted]
  by_cases fits : height * width * 4 < 2 ^ 63
  · rw [if_pos fits, if_pos fits, Option.bind_some,
      repeating_eq (Int.natCast_nonneg _), Int.toNat_natCast,
      Option.bind_some, forRange_forRange (Int.natCast_nonneg height)
        (Int.natCast_nonneg width)]
    simp only [Int.toNat_natCast, storeColour_eq]
    rw [Loops.loop_storeAll_full (fun _ _ done => length_colour done)
      List.length_replicate, Option.map_eq_bind]
    rfl
  · rw [if_neg fits, if_neg fits, Option.bind_none]

theorem toRawBytesGray_eq {height width : ℕ}
    (fits : height * width < 2 ^ 63) (strides : Fin 2 → ℤ)
    (elements : List T) (offset scale : T) :
    (plane height width strides).toRawBytesGray elements offset scale =
      (Loops.collect (height * width) fun pixel =>
        (plane height width strides).grey elements offset scale
          (pixel / width : ℕ) (pixel % width : ℕ)).map fun bytes =>
            some { bytes := bytes, width := width, height := height } := by
  have unfolded :
      (plane height width strides).toRawBytesGray elements offset scale =
        (intResult ((height : ℤ) * width)).bind fun count =>
          (repeating 0 count).bind fun zeros =>
            (forRange height (fun h => forRange width fun w =>
              (plane height width strides).storeGrey elements offset scale
                width h w) zeros).bind fun bytes =>
                  some (some
                    { bytes := bytes, width := width, height := height }) :=
    rfl
  have counted := intResult_natCast (height * width)
  rw [if_pos fits, Nat.cast_mul] at counted
  have count : ((height : ℤ) * width).toNat = height * width := by
    exact_mod_cast Int.toNat_natCast (height * width)
  have full : (List.replicate (height * width) (0 : UInt8)).length =
      height * width * 1 := by
    rw [List.length_replicate, mul_one]
  rw [unfolded, counted, Option.bind_some, repeating_eq (by positivity), count,
    Option.bind_some, forRange_forRange (Int.natCast_nonneg height)
      (Int.natCast_nonneg width)]
  simp only [Int.toNat_natCast, storeGrey_eq]
  rw [Loops.loop_storeAll_full (fun _ _ done => length_grey done) full,
    Option.map_eq_bind]
  rfl

/-! ## What the bytes are -/

section Planes

variable {height width : ℕ} {strides : Fin 3 → ℤ} {elements : List T}

private theorem inBounds_planes {c h w : ℕ} (channel : c < 3)
    (row : h < height) (column : w < width) :
    Strided.InBounds (planes height width strides).shape ![c, h, w] := by
  have inChannels : (c : ℤ) < 3 := by exact_mod_cast channel
  intro axis
  change Fin 3 at axis
  fin_cases axis
  · exact ⟨Int.natCast_nonneg c, inChannels⟩
  · exact ⟨Int.natCast_nonneg h, Int.ofNat_lt.mpr row⟩
  · exact ⟨Int.natCast_nonneg w, Int.ofNat_lt.mpr column⟩

private theorem exists_channel_row_column {index : Fin 3 → ℤ}
    (inBounds : Strided.InBounds (planes height width strides).shape index) :
    ∃ c h w : ℕ, c < 3 ∧ h < height ∧ w < width ∧
      List.ofFn index = [(c : ℤ), h, w] := by
  have bounds : ∀ axis : Fin 3, 0 ≤ index axis ∧
      index axis < (![3, height, width] : Fin 3 → ℤ) axis :=
    inBounds
  obtain ⟨c, channel⟩ := Int.eq_ofNat_of_zero_le (bounds 0).1
  obtain ⟨h, row⟩ := Int.eq_ofNat_of_zero_le (bounds 1).1
  obtain ⟨w, column⟩ := Int.eq_ofNat_of_zero_le (bounds 2).1
  have inChannels : index 0 < 3 := (bounds 0).2
  have inRows : index 1 < height := (bounds 1).2
  have inColumns : index 2 < width := (bounds 2).2
  refine ⟨c, h, w, by omega, by omega, by omega, ?_⟩
  rw [← channel, ← row, ← column]
  rfl

theorem exists_colour_iff {offset scale : T} {h w : ℤ} :
    (∃ made, (planes height width strides).colour elements offset scale h w =
        some made) ↔
      ∀ c ∈ [0, 1, 2], ∃ byte,
        (planes height width strides).elementByte elements offset scale
          [c, h, w] = some byte := by
  simp [colour, Option.bind_eq_some_iff]

theorem colour_getElem? {offset scale : T} {h w : ℤ} {made : List UInt8}
    (done : (planes height width strides).colour elements offset scale h w =
      some made) :
    (∀ c : ℕ, c < 3 → made[c]? =
      (planes height width strides).elementByte elements offset scale
        [(c : ℤ), h, w]) ∧ made[3]? = some 255 := by
  simp only [colour, Option.bind_eq_some_iff, Option.map_eq_some_iff] at done
  obtain ⟨r, red, g, green, b, blue, rfl⟩ := done
  refine ⟨?_, rfl⟩
  intro c channel
  interval_cases c
  · exact red.symm
  · exact green.symm
  · exact blue.symm

theorem row_and_column {h w : ℕ} (column : w < width) :
    (h * width + w) / width = h ∧ (h * width + w) % width = w := by
  have positive : 0 < width := by omega
  rw [Nat.mul_comm, Nat.mul_add_div positive, Nat.div_eq_of_lt column,
    Nat.mul_add_mod, Nat.mod_eq_of_lt column]
  exact ⟨Nat.add_zero h, rfl⟩

theorem pixel_lt {h w : ℕ} (row : h < height) (column : w < width) :
    h * width + w < height * width := by
  have rows : (h + 1) * width ≤ height * width :=
    Nat.mul_le_mul_right width row
  rw [Nat.succ_mul] at rows
  omega

theorem pixel_div_mod_lt {pixel : ℕ} (less : pixel < height * width) :
    pixel / width < height ∧ pixel % width < width := by
  have positive : 0 < width := by
    apply Nat.pos_of_ne_zero
    intro empty
    rw [empty, Nat.mul_zero] at less
    omega
  constructor
  · exact Nat.div_lt_of_lt_mul (Nat.mul_comm height width ▸ less)
  · exact Nat.mod_lt pixel positive

theorem toRawBytesRGBA_layout {offset scale : T} {raw : RawBytes}
    (result : (planes height width strides).toRawBytesRGBA elements offset
      scale = some (some raw)) :
    raw.width = width ∧ raw.height = height ∧
      raw.bytes.length = height * width * 4 ∧
        ∀ h w : ℕ, h < height → w < width →
          (∀ c : ℕ, c < 3 → raw.bytes[(h * width + w) * 4 + c]? =
            (planes height width strides).elementByte elements offset scale
              [(c : ℤ), h, w]) ∧
            raw.bytes[(h * width + w) * 4 + 3]? = some 255 := by
  rw [toRawBytesRGBA_eq] at result
  simp only [Option.ite_none_right_eq_some, Option.map_eq_some_iff,
    Option.some_inj] at result
  obtain ⟨_, bytes, collected, rfl⟩ := result
  refine ⟨rfl, rfl,
    Loops.length_collect (fun _ _ done => length_colour done) collected, ?_⟩
  intro h w row column
  have less := pixel_lt row column
  have place : ∀ c : ℕ, c < 4 → bytes[(h * width + w) * 4 + c]? =
      ((planes height width strides).colour elements offset scale h w).bind
        fun next => next[c]? := by
    intro c inside
    have found := Loops.getElem?_collect
      (fun _ _ done => length_colour done) collected less inside
    rwa [(row_and_column column).1, (row_and_column column).2] at found
  obtain ⟨made, done⟩ :=
    Loops.exists_collect_iff.mp ⟨bytes, collected⟩ _ less
  rw [(row_and_column column).1, (row_and_column column).2] at done
  obtain ⟨channels, alpha⟩ := colour_getElem? done
  constructor
  · intro c channel
    change bytes[(h * width + w) * 4 + c]? = _
    rw [place c (by omega), done, Option.bind_some, channels c channel]
  · change bytes[(h * width + w) * 4 + 3]? = _
    rw [place 3 (by omega), done, Option.bind_some, alpha]

private theorem exists_elementByte_iff {array : MultiArray}
    {offset scale element : T} {indices : List ℤ}
    (found : array.get elements indices = some element) :
    (∃ byte, array.elementByte elements offset scale indices = some byte) ↔
      ∃ value, scaled offset scale element = some value ∧
        Comparable.equal value value = true := by
  rw [elementByte, found, Option.bind_some]
  constructor
  · rintro ⟨byte, done⟩
    obtain ⟨value, computed, clamped⟩ := Option.bind_eq_some_iff.mp done
    exact ⟨value, computed, (exists_clampedByte_iff value).mp ⟨byte, clamped⟩⟩
  · rintro ⟨value, computed, number⟩
    obtain ⟨byte, clamped⟩ := (exists_clampedByte_iff value).mpr number
    exact ⟨byte, by rw [computed, Option.bind_some, clamped]⟩

theorem toRawBytesRGBA_succeeds_iff_pixels {offset scale : T} :
    (∃ raw, (planes height width strides).toRawBytesRGBA elements offset
        scale = some (some raw)) ↔
      height * width * 4 < 2 ^ 63 ∧
        ∀ h w : ℕ, h < height → w < width → ∀ c : ℕ, c < 3 → ∃ byte,
          (planes height width strides).elementByte elements offset scale
            [(c : ℤ), h, w] = some byte := by
  have collects : (∃ raw, (planes height width strides).toRawBytesRGBA
      elements offset scale = some (some raw)) ↔
        height * width * 4 < 2 ^ 63 ∧
          ∃ bytes, (Loops.collect (height * width) fun pixel =>
            (planes height width strides).colour elements offset scale
              (pixel / width : ℕ) (pixel % width : ℕ)) = some bytes := by
    rw [toRawBytesRGBA_eq]
    simp [Option.ite_none_right_eq_some, Option.map_eq_some_iff]
  rw [collects, Loops.exists_collect_iff]
  simp only [exists_colour_iff]
  apply and_congr_right'
  constructor
  · intro computed h w row column c channel
    have done := computed (h * width + w) (pixel_lt row column) c
    rw [(row_and_column column).1, (row_and_column column).2] at done
    apply done
    interval_cases c <;> simp
  · intro computed pixel less c channel
    obtain ⟨row, column⟩ := pixel_div_mod_lt less
    have done := computed (pixel / width) (pixel % width) row column c.toNat
    simp only [List.mem_cons, List.not_mem_nil, or_false] at channel
    have cast : (c.toNat : ℤ) = c := by omega
    rw [cast] at done
    exact done (by omega)

/-- If the elements are those of the three channels, each once, the conversion
stops the program exactly if there are too many bytes, or the arithmetic of an
element stops or gives no number. -/
theorem toRawBytesRGBA_succeeds_iff
    (covers : (planes height width strides).Covers elements.length)
    (offset scale : T) :
    (∃ raw, (planes height width strides).toRawBytesRGBA elements offset
        scale = some (some raw)) ↔
      height * width * 4 < 2 ^ 63 ∧ ∀ element ∈ elements, ∃ value,
        scaled offset scale element = some value ∧
          Comparable.equal value value = true := by
  rw [toRawBytesRGBA_succeeds_iff_pixels]
  apply and_congr_right'
  constructor
  · intro computed element member
    obtain ⟨index, inBounds, found⟩ := covers.exists_index member
    obtain ⟨c, h, w, channel, row, column, indices⟩ :=
      exists_channel_row_column inBounds
    have there : (planes height width strides).get elements
        [(c : ℤ), h, w] = some element := by
      rw [← indices]
      exact found
    exact (exists_elementByte_iff there).mp
      (computed h w row column c channel)
  · intro computed h w row column c channel
    obtain ⟨element, member, found⟩ :=
      covers.exists_get (inBounds_planes channel row column)
    exact (exists_elementByte_iff found).mpr (computed element member)

/-- The whole conversion: when it stops the program, and what the bytes are. -/
theorem toRawBytesRGBA_spec
    (covers : (planes height width strides).Covers elements.length)
    (offset scale : T) :
    ((∃ raw, (planes height width strides).toRawBytesRGBA elements offset
        scale = some (some raw)) ↔
      height * width * 4 < 2 ^ 63 ∧ ∀ element ∈ elements, ∃ value,
        scaled offset scale element = some value ∧
          Comparable.equal value value = true) ∧
    ∀ raw, (planes height width strides).toRawBytesRGBA elements offset
        scale = some (some raw) →
      raw.width = width ∧ raw.height = height ∧
        raw.bytes.length = height * width * 4 ∧
          ∀ h w : ℕ, h < height → w < width →
            (∀ c : ℕ, c < 3 → raw.bytes[(h * width + w) * 4 + c]? =
              (planes height width strides).elementByte elements offset scale
                [(c : ℤ), h, w]) ∧
              raw.bytes[(h * width + w) * 4 + 3]? = some 255 :=
  ⟨toRawBytesRGBA_succeeds_iff covers offset scale,
    fun _ => toRawBytesRGBA_layout⟩

/-- Two pixels of floating-point elements, one of which is not a number. -/
theorem toRawBytesRGBA_spec_nan :
    let elements : List Double :=
      [.ofRat 0, .ofRat (1 / 2), .ofRat 1, .infinity true, .infinity false,
        .nan]
    ¬∃ raw, (planes 1 2 ![2, 2, 1]).toRawBytesRGBA elements
      (MultiArrayType.ofInt 0) (MultiArrayType.ofInt 255) =
        some (some raw) := by
  intro elements
  have covers : (planes 1 2 ![2, 2, 1]).Covers elements.length := by
    have nonneg : ∀ axis, 0 ≤ (![3, 1, 2] : Fin 3 → ℤ) axis := by decide
    have strides : newStrides 3 ![3, 1, 2] = some ![2, 2, 1] := by decide
    exact ⟨Equiv.refl _, ![3, 1, 2], nonneg, by decide, rfl,
      newStrides_eq strides⟩
  rw [(toRawBytesRGBA_spec covers _ _).1]
  rintro ⟨_, numbers⟩
  obtain ⟨value, computed, number⟩ := numbers .nan (by simp [elements])
  cases computed
  cases number

end Planes

end MultiArray

end HigeMaster
