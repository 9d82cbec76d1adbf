import HigeMaster.CoreMLHelpers.RawBytesLayout

/-!
# Bytes that come back

Pictures are usually stored pixel by pixel, while the conversion wants the
channels one after the other.  Transposing the axes of such a picture, without
moving an element, and converting it gives back its bytes, if no element is
rounded away from its byte; and converting one channel gives the same bytes as
converting all of them.
-/

namespace HigeMaster

/-- The picture has these channels, pixel by pixel, and is opaque. -/
structure RawBytes.Shows (raw : RawBytes) (height width : ℕ)
    (bytes : List UInt8) : Prop where
  width_eq : raw.width = width
  height_eq : raw.height = height
  length_eq : raw.bytes.length = height * width * 4
  channels : ∀ h w : ℕ, h < height → w < width → ∀ c : ℕ, c < 3 →
    raw.bytes[(h * width + w) * 4 + c]? = bytes[(h * width + w) * 3 + c]?
  alpha : ∀ h w : ℕ, h < height → w < width →
    raw.bytes[(h * width + w) * 4 + 3]? = some 255

namespace MultiArray

theorem rowMajor_pair (height width : ℤ) :
    Strided.rowMajor (List.get [height, width]) = ![width, 1] := by
  funext axis
  change Fin 2 at axis
  fin_cases axis
  · exact (Strided.rowMajor_zero _).trans (mul_one _)
  · exact (Strided.rowMajor_succ _ 0).trans (Strided.rowMajor_zero _)

theorem rowMajor_triple (height width channels : ℤ) :
    Strided.rowMajor (List.get [height, width, channels]) =
      ![width * channels, channels, 1] := by
  funext axis
  change Fin 3 at axis
  cases axis using Fin.cases with
  | zero =>
      exact (Strided.rowMajor_zero _).trans
        (Fin.prod_univ_two (![width, channels] : Fin 2 → ℤ))
  | succ axis =>
      exact (Strided.rowMajor_succ _ axis).trans
        (congrFun (rowMajor_pair width channels) axis)

section Interleaved

variable {T : Type} {height width : ℕ}

/-- The three channels of a picture that is stored pixel by pixel. -/
theorem transposed_ofShape (height width : ℕ) :
    (ofShape [height, width, 3]).transposed [2, 0, 1] =
      some (planes height width ![1, width * 3, 3]) := by
  have fits : (ofShape [height, width, 3]).Fits [2, 0, 1] := by
    refine ⟨rfl, ?_⟩
    intro entry member
    simp only [List.mem_cons, List.not_mem_nil, or_false] at member
    rcases member with rfl | rfl | rfl
    · exact ⟨by decide, by simp [ofShape]⟩
    · exact ⟨by decide, by simp [ofShape]⟩
    · exact ⟨by decide, by simp [ofShape]⟩
  have shape : (fun i => (ofShape [height, width, 3]).shape (fits.axis i)) =
      (![3, height, width] : Fin 3 → ℤ) := by
    funext i
    change Fin 3 at i
    fin_cases i <;> rfl
  have strides :
      (fun i => (ofShape [height, width, 3]).strides (fits.axis i)) =
        (![1, width * 3, 3] : Fin 3 → ℤ) := by
    have laidOut : (ofShape [height, width, 3]).strides =
        (![width * 3, 3, 1] : Fin 3 → ℤ) :=
      rowMajor_triple height width 3
    rw [laidOut]
    funext i
    change Fin 3 at i
    fin_cases i <;> rfl
  rw [transposed, dif_pos fits]
  change some (MultiArray.mk 3 _ _) = some (MultiArray.mk 3 _ _)
  rw [shape, strides]

theorem get_interleaved (elements : List T) (c h w : ℕ) :
    (planes height width ![1, width * 3, 3]).get elements [(c : ℤ), h, w] =
      elements[(h * width + w) * 3 + c]? := by
  have place : (planes height width ![1, width * 3, 3]).offset
      [(c : ℤ), h, w] = some (((h * width + w) * 3 + c : ℕ) : ℤ) := by
    have located := (planes height width ![1, width * 3, 3]).offset_ofFn
      (![(c : ℤ), h, w] : Fin 3 → ℤ)
    have sum : Strided.offset (![1, width * 3, 3] : Fin 3 → ℤ)
        ![(c : ℤ), h, w] = (((h * width + w) * 3 + c : ℕ) : ℤ) := by
      rw [Strided.offset, Fin.sum_univ_three]
      push_cast
      change (c * 1 + h * (width * 3) + w * 3 : ℤ) = _
      ring
    rw [← sum]
    exact located
  rw [get, place, Option.bind_some, pointee, if_pos (Int.natCast_nonneg _),
    Int.toNat_natCast]

variable [MultiArrayType T]

theorem elementByte_interleaved (offset scale : T) (encode : UInt8 → T)
    (bytes : List UInt8) (c h w : ℕ) :
    (planes height width ![1, width * 3, 3]).elementByte (bytes.map encode)
        offset scale [(c : ℤ), h, w] =
      bytes[(h * width + w) * 3 + c]?.bind fun byte =>
        (scaled offset scale (encode byte)).bind clampedByte := by
  rw [elementByte, get_interleaved, List.getElem?_map]
  cases bytes[(h * width + w) * 3 + c]? with
  | none => rfl
  | some byte => rw [Option.map_some, Option.bind_some, Option.bind_some]

private theorem exists_place {bytes : List UInt8}
    (full : bytes.length = height * width * 3) {byte : UInt8}
    (member : byte ∈ bytes) :
    ∃ h w c : ℕ, h < height ∧ w < width ∧ c < 3 ∧
      bytes[(h * width + w) * 3 + c]? = some byte := by
  obtain ⟨place, inside, found⟩ := List.mem_iff_getElem.mp member
  have pixel : place / 3 < height * width := by omega
  obtain ⟨row, column⟩ := pixel_div_mod_lt pixel
  refine ⟨place / 3 / width, place / 3 % width, place % 3, row, column,
    Nat.mod_lt place (by decide), ?_⟩
  rw [Nat.mul_comm (place / 3 / width), Nat.div_add_mod, Nat.mul_comm,
    Nat.div_add_mod, List.getElem?_eq_getElem inside, found]

theorem toRawBytesRGBA_interleaved_iff {offset scale : T}
    {encode : UInt8 → T} {bytes : List UInt8}
    (full : bytes.length = height * width * 3) :
    (∃ raw, (planes height width ![1, width * 3, 3]).toRawBytesRGBA
        (bytes.map encode) offset scale = some (some raw) ∧
      raw.Shows height width bytes) ↔
    height * width * 4 < 2 ^ 63 ∧ ∀ byte ∈ bytes,
      (scaled offset scale (encode byte)).bind clampedByte = some byte := by
  constructor
  · rintro ⟨raw, made, shown⟩
    refine ⟨(toRawBytesRGBA_succeeds_iff_pixels.mp ⟨raw, made⟩).1, ?_⟩
    intro byte member
    obtain ⟨h, w, c, row, column, channel, found⟩ := exists_place full member
    obtain ⟨_, _, _, layout⟩ := toRawBytesRGBA_layout made
    have element := (layout h w row column).1 c channel
    rw [elementByte_interleaved, found, Option.bind_some,
      shown.channels h w row column c channel, found] at element
    exact element.symm
  · rintro ⟨fits, exact⟩
    have decoded : ∀ h w : ℕ, h < height → w < width → ∀ c : ℕ, c < 3 →
        ∃ byte, bytes[(h * width + w) * 3 + c]? = some byte ∧
          (planes height width ![1, width * 3, 3]).elementByte
            (bytes.map encode) offset scale [(c : ℤ), h, w] = some byte := by
      intro h w row column c channel
      have pixel := pixel_lt row column
      have inside : (h * width + w) * 3 + c < bytes.length := by omega
      have found := List.getElem?_eq_getElem inside
      refine ⟨_, found, ?_⟩
      rw [elementByte_interleaved, found, Option.bind_some,
        exact _ (List.getElem_mem inside)]
    obtain ⟨raw, result⟩ := toRawBytesRGBA_succeeds_iff_pixels.mpr
      ⟨fits, fun h w row column c channel =>
        (decoded h w row column c channel).imp fun _ both => both.2⟩
    obtain ⟨widths, heights, length, layout⟩ := toRawBytesRGBA_layout result
    refine ⟨raw, result, widths, heights, length, ?_,
      fun h w row column => (layout h w row column).2⟩
    intro h w row column c channel
    obtain ⟨byte, found, element⟩ := decoded h w row column c channel
    rw [(layout h w row column).1 c channel, element, found]

theorem image_interleaved (offset scale : T) (elements : List T) :
    (planes height width ![1, width * 3, 3]).image elements offset scale =
      ((planes height width ![1, width * 3, 3]).toRawBytesRGBA elements offset
        scale).map (Option.map .rgba) :=
  if_pos (rank_planes _ _ _)

private theorem exists_image_iff {offset scale : T} {elements : List T}
    {P : RawBytes → Prop} :
    (∃ array raw,
      (ofShape [height, width, 3]).transposed [2, 0, 1] = some array ∧
      array.image elements offset scale = some (some (.rgba raw)) ∧ P raw) ↔
    ∃ raw, (planes height width ![1, width * 3, 3]).toRawBytesRGBA elements
      offset scale = some (some raw) ∧ P raw := by
  simp [transposed_ofShape, image_interleaved, Option.map_eq_some_iff]

/-- The conversion gives back the bytes of a picture that is stored pixel by
pixel exactly if there are not too many, and each comes back from the element
that stands for it. -/
theorem image_roundTrip (offset scale : T) (encode : UInt8 → T)
    {bytes : List UInt8} (full : bytes.length = height * width * 3) :
    (∃ array raw,
      (ofShape [height, width, 3]).transposed [2, 0, 1] = some array ∧
      array.image (bytes.map encode) offset scale = some (some (.rgba raw)) ∧
      raw.Shows height width bytes) ↔
    height * width * 4 < 2 ^ 63 ∧ ∀ byte ∈ bytes,
      (scaled offset scale (encode byte)).bind clampedByte = some byte :=
  exists_image_iff.trans (toRawBytesRGBA_interleaved_iff full)

theorem image_roundTrip_orange :
    ∃ array raw,
      (ofShape [(1 : ℕ), (1 : ℕ), 3]).transposed [2, 0, 1] = some array ∧
      array.image ([255, 128, 0].map fun byte : UInt8 =>
          (MultiArrayType.ofInt (byte.toNat - 1) : Int32Value))
        (MultiArrayType.ofInt 1) (MultiArrayType.ofInt 1) =
          some (some (.rgba raw)) ∧
      raw.Shows 1 1 [255, 128, 0] := by
  have full : [(255 : UInt8), 128, 0].length = 1 * 1 * 3 := rfl
  exact (image_roundTrip _ _ _ full).mpr ⟨by decide, by decide +kernel⟩

end Interleaved

/-! ## Elements between zero and one -/

section Unit

variable {format : FloatFormat} [FloatFormat.HasBytes format]

/-- The element that stands for a byte. -/
def unitElement (byte : UInt8) : FloatingPoint format :=
  .ofRat byte.toNat / .ofRat 255

private theorem clampedByte_ofRat {q : ℚ} {byte : UInt8}
    (rounded : format.nearest q = byte.toNat) :
    clampedByte (FloatingPoint.ofRat q : FloatingPoint format) =
      some byte := by
  have small : byte.toNat ≤ 255 := Nat.le_of_lt_succ byte.toNat_lt
  have represented : format.Represents byte.toNat := represents_natCast small
  have value : (FloatingPoint.ofRat q : FloatingPoint format) =
      .finite byte.toNat represented := by
    have fits : |format.nearest q| < 2 ^ format.maxExponent :=
      rounded ▸ represented.2
    rw [FloatingPoint.ofRat, dif_pos fits]
    congr 1
  have low : ¬((byte.toNat : ℚ) < 0) := not_lt.mpr (Nat.cast_nonneg _)
  have high : ¬((255 : ℚ) < byte.toNat) :=
    not_lt.mpr (by exact_mod_cast small)
  have clamped := clamp_ofRat (.finite byte.toNat represented)
  simp only [if_neg low, if_neg high] at clamped
  change FloatingPoint.toUInt8
    (clamp (.ofRat q) (.ofRat (0 : ℤ)) (.ofRat (255 : ℤ))) = _
  rw [value]
  push_cast
  rw [clamped, toUInt8_finite represented (by linarith) (by linarith),
    Int.floor_natCast, Int.toNat_natCast, UInt8.ofNat_toNat]

private theorem represents_quotient (byte : UInt8) :
    format.Represents (format.nearest (byte.toNat / 255)) := by
  have one : format.nearest 1 = 1 := by
    have represented : format.Represents ((1 : ℕ) : ℚ) :=
      represents_natCast (by decide)
    exact_mod_cast represented.1
  have atMost : (byte.toNat / 255 : ℚ) ≤ 1 := by
    rw [div_le_one (by norm_num)]
    exact_mod_cast Nat.le_of_lt_succ byte.toNat_lt
  have high : 8 < format.maxExponent := FloatFormat.HasBytes.maxExponent
  refine ⟨format.nearest_nearest _, ?_⟩
  rw [abs_of_nonneg (format.nearest_nonneg (by positivity))]
  calc format.nearest (byte.toNat / 255) ≤ format.nearest 1 :=
        format.nearest_mono atMost
    _ = 1 := one
    _ < 2 ^ format.maxExponent := one_lt_zpow₀ one_lt_two (by omega)

/-- The quotient is rounded, and so is its product with 255. -/
private theorem decode_unitElement {byte : UInt8}
    (survives : format.nearest (format.nearest (byte.toNat / 255) * 255) =
      byte.toNat) :
    (scaled (MultiArrayType.ofInt 0) (MultiArrayType.ofInt 255)
      (unitElement byte : FloatingPoint format)).bind clampedByte =
        some byte := by
  have small : byte.toNat ≤ 255 := Nat.le_of_lt_succ byte.toNat_lt
  have quotient : format.Represents (format.nearest (byte.toNat / 255)) :=
    represents_quotient byte
  have element : (unitElement byte : FloatingPoint format) =
      .ofRat (format.nearest (byte.toNat / 255)) := by
    rw [unitElement, FloatingPoint.ofRat_div_ofRat (represents_natCast small)
      represents_255 (by norm_num), FloatingPoint.ofRat_of_represents quotient,
      FloatingPoint.ofRat, dif_pos quotient.2]
  change clampedByte ((unitElement byte + .ofRat (0 : ℤ)) * .ofRat (255 : ℤ) :
    FloatingPoint format) = _
  rw [element]
  push_cast
  rw [FloatingPoint.ofRat_add_ofRat quotient represents_zero, add_zero,
    FloatingPoint.ofRat_mul_ofRat quotient represents_255]
  exact clampedByte_ofRat survives

end Unit

private theorem survives_binary64 : ∀ n : Fin 256,
    FloatFormat.binary64.nearest
      (FloatFormat.binary64.nearest (n.val / 255) * 255) = n.val := by
  decide +kernel

private theorem survives_binary32 : ∀ n : Fin 256,
    FloatFormat.binary32.nearest
      (FloatFormat.binary32.nearest (n.val / 255) * 255) = n.val := by
  decide +kernel

/-- With elements between zero and one every picture comes back, although they
are rounded. -/
theorem image_roundTrip_unit {height width : ℕ} {bytes : List UInt8}
    (full : bytes.length = height * width * 3)
    (fits : height * width * 4 < 2 ^ 63) :
    (∃ array raw,
      (ofShape [height, width, 3]).transposed [2, 0, 1] = some array ∧
      array.image (bytes.map unitElement : List Double)
        (MultiArrayType.ofInt 0) (MultiArrayType.ofInt 255) =
          some (some (.rgba raw)) ∧
      raw.Shows height width bytes) ∧
    ∃ array raw,
      (ofShape [height, width, 3]).transposed [2, 0, 1] = some array ∧
      array.image (bytes.map unitElement : List Float)
        (MultiArrayType.ofInt 0) (MultiArrayType.ofInt 255) =
          some (some (.rgba raw)) ∧
      raw.Shows height width bytes := by
  constructor
  · exact exists_image_iff.mpr ((toRawBytesRGBA_interleaved_iff full).mpr
      ⟨fits, fun byte _ =>
        decode_unitElement (survives_binary64 ⟨byte.toNat, byte.toNat_lt⟩)⟩)
  · exact exists_image_iff.mpr ((toRawBytesRGBA_interleaved_iff full).mpr
      ⟨fits, fun byte _ =>
        decode_unitElement (survives_binary32 ⟨byte.toNat, byte.toNat_lt⟩)⟩)

theorem image_roundTrip_unit_orange :
    (∃ array raw,
      (ofShape [(1 : ℕ), (1 : ℕ), 3]).transposed [2, 0, 1] = some array ∧
      array.image ([255, 128, 0].map unitElement : List Double)
        (MultiArrayType.ofInt 0) (MultiArrayType.ofInt 255) =
          some (some (.rgba raw)) ∧
      raw.Shows 1 1 [255, 128, 0]) ∧
    ∃ array raw,
      (ofShape [(1 : ℕ), (1 : ℕ), 3]).transposed [2, 0, 1] = some array ∧
      array.image ([255, 128, 0].map unitElement : List Float)
        (MultiArrayType.ofInt 0) (MultiArrayType.ofInt 255) =
          some (some (.rgba raw)) ∧
      raw.Shows 1 1 [255, 128, 0] := by
  have full : [(255 : UInt8), 128, 0].length = 1 * 1 * 3 := rfl
  exact image_roundTrip_unit full (by decide)

/-- Between minus one and one a byte can be lost. -/
example :
    (scaled (.ofRat 1) (.ofRat (255 / 2))
      (.ofRat 1 / .ofRat (255 / 2) - .ofRat 1 : Double)).bind clampedByte =
        some 0 := by
  decide +kernel

/-! ## One channel -/

section Channel

variable {T : Type} {height width : ℕ}

theorem ofShape_plane (height width : ℕ) :
    ofShape [height, width] = plane height width ![width, 1] := by
  have shape : (ofShape [height, width]).shape =
      (![height, width] : Fin 2 → ℤ) := by
    funext i
    change Fin 2 at i
    fin_cases i <;> rfl
  have strides : (ofShape [height, width]).strides =
      (![width, 1] : Fin 2 → ℤ) :=
    rowMajor_pair height width
  change MultiArray.mk 2 (ofShape [height, width]).shape
    (ofShape [height, width]).strides = _
  rw [shape, strides]
  rfl

theorem offset_plane (h w : ℕ) :
    (plane height width ![width, 1]).offset [(h : ℤ), w] =
      some ((h * width + w : ℕ) : ℤ) := by
  have located := (plane height width ![width, 1]).offset_ofFn
    (![(h : ℤ), w] : Fin 2 → ℤ)
  have sum : Strided.offset (![width, 1] : Fin 2 → ℤ) ![(h : ℤ), w] =
      ((h * width + w : ℕ) : ℤ) := by
    rw [Strided.offset, Fin.sum_univ_two]
    push_cast
    change (h * width + w * 1 : ℤ) = _
    ring
  rw [← sum]
  exact located

theorem get_plane (values : List T) (h w : ℕ) :
    (plane height width ![width, 1]).get values [(h : ℤ), w] =
      values[h * width + w]? := by
  rw [get, offset_plane, Option.bind_some, pointee,
    if_pos (Int.natCast_nonneg _), Int.toNat_natCast]

theorem set_plane (values : List T) (h w : ℕ) (value : T) :
    (plane height width ![width, 1]).set values [(h : ℤ), w] value =
      Loops.storeAll values (h * width + w) [value] := by
  rw [set, offset_plane, Option.bind_some, Loops.storeAll, Loops.storeAll]
  by_cases inside : h * width + w < values.length
  · rw [if_pos inside,
      if_pos ⟨Int.natCast_nonneg _, Int.ofNat_lt.mpr inside⟩,
      Int.toNat_natCast]
  · rw [if_neg inside, if_neg]
    rintro ⟨_, less⟩
    exact inside (Int.ofNat_lt.mp less)

/-- Copying all values in the order of the pixels. -/
theorem copy_eq_collect (value : ℤ → ℤ → Option T) {zeros : List T}
    (full : zeros.length = height * width) :
    forRange height (fun y => forRange width fun x values =>
        (value y x).bind
          ((plane height width ![width, 1]).set values [y, x])) zeros =
      Loops.collect (height * width) fun pixel =>
        (value (pixel / width : ℕ) (pixel % width : ℕ)).map fun v => [v] := by
  have single : ∀ pixel made,
      ((value (pixel / width : ℕ) (pixel % width : ℕ)).map fun v => [v]) =
        some made → made.length = 1 := by
    intro pixel made done
    obtain ⟨_, _, rfl⟩ := Option.map_eq_some_iff.mp done
    rfl
  have body : ∀ (pixel : ℕ) (values : List T),
      (value (pixel / width : ℕ) (pixel % width : ℕ)).bind
          ((plane height width ![width, 1]).set values
            [(pixel / width : ℕ), (pixel % width : ℕ)]) =
        ((value (pixel / width : ℕ) (pixel % width : ℕ)).map fun v =>
          [v]).bind (Loops.storeAll values (pixel * 1)) := by
    intro pixel values
    have place : pixel / width * width + pixel % width = pixel := by
      rw [Nat.mul_comm]
      exact Nat.div_add_mod pixel width
    cases value (pixel / width : ℕ) (pixel % width : ℕ) with
    | none => rfl
    | some v =>
        rw [Option.bind_some, Option.map_some, Option.bind_some, set_plane,
          place, Nat.mul_one]
  rw [forRange_forRange (Int.natCast_nonneg height)
    (Int.natCast_nonneg width)]
  simp only [Int.toNat_natCast, body]
  rw [Loops.loop_storeAll_full single (full.trans (Nat.mul_one _).symm)]

variable [MultiArrayType T] {strides : Fin 3 → ℤ} {elements : List T}

private theorem elementByte_copied (value : ℤ → ℤ → Option T)
    {values : List T}
    (copied : (Loops.collect (height * width) fun pixel =>
      (value (pixel / width : ℕ) (pixel % width : ℕ)).map fun v => [v]) =
        some values)
    {h w : ℕ} (row : h < height) (column : w < width) (offset scale : T) :
    (plane height width ![width, 1]).elementByte values offset scale
        [(h : ℤ), w] =
      ((value h w).bind (scaled offset scale)).bind clampedByte := by
  have single : ∀ pixel made,
      ((value (pixel / width : ℕ) (pixel % width : ℕ)).map fun v => [v]) =
        some made → made.length = 1 := by
    intro pixel made done
    obtain ⟨_, _, rfl⟩ := Option.map_eq_some_iff.mp done
    rfl
  have found := Loops.getElem?_collect single copied (pixel_lt row column)
    Nat.zero_lt_one
  rw [Nat.mul_one, Nat.add_zero, (row_and_column column).1,
    (row_and_column column).2] at found
  rw [elementByte, get_plane, found]
  cases value h w with
  | none => rfl
  | some v => rfl

private theorem new_plane {creates : List ℤ → Bool}
    (created : creates [height, width] = true)
    (fits : height * width < 2 ^ 63) :
    new creates [height, width] =
      some (plane height width ![width, 1],
        List.replicate (height * width) (MultiArrayType.ofInt 0 : T)) := by
  have count : (plane height width ![width, 1]).count =
      some ((height * width : ℕ) : ℤ) := by
    have factors : List.ofFn (plane height width ![width, 1]).shape =
        [(height : ℤ), width] :=
      rfl
    have counted := intResult_natCast (height * width)
    rw [if_pos fits] at counted
    rw [MultiArray.count, factors, product, List.foldlM_cons, ← Nat.cast_mul,
      counted]
    rfl
  simp only [new, if_pos created, ofShape_plane, count, Option.map_some,
    Int.toNat_natCast]

private theorem imageOfChannel_eq {creates : List ℤ → Bool}
    (created : creates [height, width] = true)
    (fits : height * width < 2 ^ 63) {c : ℕ} (channel : c < 3)
    {values : List T}
    (copied : (Loops.collect (height * width) fun pixel =>
      ((planes height width strides).get elements
        [(c : ℤ), (pixel / width : ℕ), (pixel % width : ℕ)]).map fun v =>
          [v]) = some values) (offset scale : T) :
    imageOfChannel creates (planes height width strides) elements c offset
        scale =
      ((plane height width ![width, 1]).toRawBytesGray values offset
        scale).map (Option.map .gray) := by
  have inChannels : 0 ≤ (c : ℤ) ∧ (c : ℤ) < 3 := by omega
  have unfolded : imageOfChannel creates (planes height width strides)
      elements c offset scale =
        if 0 ≤ (c : ℤ) ∧ (c : ℤ) < 3 then
          (new creates [(height : ℤ), width]).bind fun made =>
            (forRange height (fun y => forRange width fun x values =>
              ((planes height width strides).get elements
                [(c : ℤ), y, x]).bind (made.1.set values [y, x]))
                  made.2).bind fun values =>
                    made.1.image values offset scale
        else
          some none :=
    rfl
  have copies := copy_eq_collect (fun y x =>
    (planes height width strides).get elements [(c : ℤ), y, x])
    (List.length_replicate (n := height * width)
      (a := (MultiArrayType.ofInt 0 : T)))
  rw [unfolded, if_pos inChannels, new_plane created fits, Option.bind_some, copies,
    copied, Option.bind_some, image, if_neg (by simp),
    if_pos (rank_plane _ _ _)]

private theorem copy_succeeds {c : ℕ} {offset scale : T}
    (computed : ∀ h w : ℕ, h < height → w < width → ∃ byte,
      (planes height width strides).elementByte elements offset scale
        [(c : ℤ), h, w] = some byte) :
    ∃ values, (Loops.collect (height * width) fun pixel =>
      ((planes height width strides).get elements
        [(c : ℤ), (pixel / width : ℕ), (pixel % width : ℕ)]).map fun v =>
          [v]) = some values := by
  apply Loops.exists_collect_iff.mpr
  intro pixel less
  obtain ⟨row, column⟩ := pixel_div_mod_lt less
  obtain ⟨byte, done⟩ := computed _ _ row column
  rw [elementByte] at done
  obtain ⟨_, scaledTo, _⟩ := Option.bind_eq_some_iff.mp done
  obtain ⟨v, found, _⟩ := Option.bind_eq_some_iff.mp scaledTo
  exact ⟨[v], by rw [found, Option.map_some]⟩

private theorem grey_succeeds {array : MultiArray} {offset scale : T}
    (computed : ∀ h w : ℕ, h < height → w < width → ∃ byte,
      array.elementByte elements offset scale [(h : ℤ), w] = some byte) :
    ∃ grey, (Loops.collect (height * width) fun pixel =>
      array.grey elements offset scale (pixel / width : ℕ)
        (pixel % width : ℕ)) = some grey := by
  apply Loops.exists_collect_iff.mpr
  intro pixel less
  obtain ⟨row, column⟩ := pixel_div_mod_lt less
  obtain ⟨byte, done⟩ := computed _ _ row column
  exact ⟨[byte], by rw [MultiArray.grey, done, Option.map_some]⟩

/-- The picture of one channel consists of the bytes that the picture of all
channels has for it. -/
theorem imageOfChannel_agrees {creates : List ℤ → Bool}
    (created : creates [height, width] = true) {offset scale : T}
    {coloured : RawBytes}
    (result : (planes height width strides).toRawBytesRGBA elements offset
      scale = some (some coloured))
    {c : ℕ} (channel : c < 3) :
    ∃ grey, imageOfChannel creates (planes height width strides) elements c
        offset scale = some (some (.gray grey)) ∧
      grey.width = coloured.width ∧ grey.height = coloured.height ∧
        grey.bytes.length = height * width ∧
          ∀ h w : ℕ, h < height → w < width →
            grey.bytes[h * width + w]? =
              coloured.bytes[(h * width + w) * 4 + c]? := by
  obtain ⟨widths, heights, _, layout⟩ := toRawBytesRGBA_layout result
  obtain ⟨bounded, computed⟩ :=
    toRawBytesRGBA_succeeds_iff_pixels.mp ⟨coloured, result⟩
  have fits : height * width < 2 ^ 63 := by omega
  obtain ⟨values, copied⟩ := copy_succeeds fun h w row column =>
    computed h w row column c channel
  have bytes : ∀ h w : ℕ, h < height → w < width →
      (plane height width ![width, 1]).elementByte values offset scale
          [(h : ℤ), w] =
        (planes height width strides).elementByte elements offset scale
          [(c : ℤ), h, w] :=
    fun h w row column =>
      elementByte_copied (fun y x =>
        (planes height width strides).get elements [(c : ℤ), y, x])
          copied row column offset scale
  obtain ⟨grey, collected⟩ := grey_succeeds fun h w row column => by
    rw [bytes h w row column]
    exact computed h w row column c channel
  have length := Loops.length_collect (fun _ _ done => length_grey done)
    collected
  rw [Nat.mul_one] at length
  refine ⟨{ bytes := grey, width := width, height := height }, ?_,
    widths.symm, heights.symm, length, ?_⟩
  · rw [imageOfChannel_eq created fits channel copied, toRawBytesGray_eq fits,
      collected]
    rfl
  · intro h w row column
    obtain ⟨channels, _⟩ := layout h w row column
    have found := Loops.getElem?_collect (fun _ _ done => length_grey done)
      collected (pixel_lt row column) Nat.zero_lt_one
    rw [Nat.mul_one, Nat.add_zero, (row_and_column column).1,
      (row_and_column column).2] at found
    rw [channels c channel, ← bytes h w row column]
    change grey[h * width + w]? = _
    rw [found, MultiArray.grey]
    cases (plane height width ![width, 1]).elementByte values offset scale
      [(h : ℤ), w] with
    | none => rfl
    | some byte => rfl

theorem imageOfChannel_agrees_twoPixels :
    ∃ grey, imageOfChannel (fun _ => true) (planes 1 2 ![1, 6, 3])
        ([.ofRat 0, .ofRat (1 / 2), .infinity false, .ofRat 1, .ofRat 1,
          .ofRat 0] : List Float) (1 : ℕ) (.ofRat 0) (.ofRat 255) =
            some (some (.gray grey)) ∧
      grey.width = 2 ∧ grey.height = 1 ∧ grey.bytes.length = 1 * 2 ∧
        ∀ h w : ℕ, h < 1 → w < 2 →
          grey.bytes[h * 2 + w]? =
            [(0 : UInt8), 127, 255, 255, 255, 255, 0, 255][
              (h * 2 + w) * 4 + 1]? := by
  have result : (planes 1 2 ![1, 6, 3]).toRawBytesRGBA
      ([.ofRat 0, .ofRat (1 / 2), .infinity false, .ofRat 1, .ofRat 1,
        .ofRat 0] : List Float) (.ofRat 0) (.ofRat 255) =
          some (some
            { bytes := [0, 127, 255, 255, 255, 255, 0, 255]
              width := 2
              height := 1 }) := by
    decide +kernel
  exact imageOfChannel_agrees rfl result (by decide : 1 < 3)

end Channel

end MultiArray

end HigeMaster
