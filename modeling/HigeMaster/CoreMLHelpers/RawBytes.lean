import HigeMaster.CoreMLHelpers.MultiArray
import HigeMaster.Loops

/-!
# Images of multi-arrays

A multi-array with two axes becomes a grey picture and one with three colour
channels a coloured one, byte by byte.  The element types have arithmetic that
may stop the program, as that of `Int32` does when it overflows, and so may the
conversion to a byte.
-/

namespace HigeMaster

/-- The operations of an element type.  A clamped element is a byte unless it
is not a number. -/
class MultiArrayType (T : Type) extends Comparable T where
  add : T → T → Option T
  mul : T → T → Option T
  ofInt : ℤ → T
  toUInt8 : T → Option UInt8
  exists_toUInt8_iff : ∀ x,
    (∃ byte, toUInt8 (clamp x (ofInt 0) (ofInt 255)) = some byte) ↔
      Comparable.equal x x = true

/-! ## Element types -/

/-- A floating-point format that has all bytes. -/
class FloatFormat.HasBytes (format : FloatFormat) : Prop where
  precision : 8 ≤ format.precision
  minExponent : format.minExponent ≤ 0
  maxExponent : 8 < format.maxExponent

instance : FloatFormat.HasBytes .binary32 := by constructor <;> decide
instance : FloatFormat.HasBytes .binary64 := by constructor <;> decide

section FloatingPoint

open FloatingPoint

variable {format : FloatFormat}

/-- `UInt8(_:)` drops the fraction.  It stops the program outside the bytes and
if there is no number. -/
def FloatingPoint.toUInt8 : FloatingPoint format → Option UInt8
  | .finite x _ =>
      if -1 < x ∧ x < 256 then some (UInt8.ofNat ⌊x⌋.toNat) else none
  | .infinity _ | .nan => none

theorem toUInt8_finite {x : ℚ} (represented : format.Represents x)
    (low : -1 < x) (high : x < 256) :
    FloatingPoint.toUInt8 (.finite x represented) =
      some (UInt8.ofNat ⌊x⌋.toNat) :=
  if_pos ⟨low, high⟩

variable [FloatFormat.HasBytes format]

theorem represents_natCast {n : ℕ} (small : n ≤ 255) :
    format.Represents n := by
  have onGrid : OnGrid 8 0 n := by
    refine ⟨n, ?_, by simp⟩
    rw [Nat.abs_cast]
    exact_mod_cast small.trans (by decide)
  exact .of_onGrid onGrid FloatFormat.HasBytes.precision
    FloatFormat.HasBytes.minExponent
    (by exact_mod_cast FloatFormat.HasBytes.maxExponent)

theorem represents_zero : format.Represents 0 := by
  exact_mod_cast represents_natCast (Nat.zero_le 255)

theorem represents_255 : format.Represents 255 := by
  exact_mod_cast represents_natCast (le_refl 255)

/-- Not a number remains, and everything else becomes a number between the
bounds. -/
theorem clamp_ofRat (x : FloatingPoint format) :
    clamp x (ofRat 0) (ofRat 255) =
      match x with
      | .nan => .nan
      | .infinity true => .finite 0 represents_zero
      | .infinity false => .finite 255 represents_255
      | .finite value represented =>
          if value < 0 then .finite 0 represents_zero
          else if 255 < value then .finite 255 represents_255
          else .finite value represented := by
  rw [ofRat_of_represents represents_zero, ofRat_of_represents represents_255]
  cases x with
  | nan => rfl
  | infinity negative => cases negative <;> rfl
  | finite value represented =>
      simp only [clamp, Comparable.less, FloatingPoint.less, decide_eq_true_eq]

theorem exists_toUInt8_clamp_iff (x : FloatingPoint format) :
    (∃ byte, FloatingPoint.toUInt8 (clamp x (ofRat 0) (ofRat 255)) =
        some byte) ↔
      Comparable.equal x x = true := by
  have zeroByte := toUInt8_finite (represents_zero : format.Represents 0)
    (by norm_num) (by norm_num)
  have lastByte := toUInt8_finite (represents_255 : format.Represents 255)
    (by norm_num) (by norm_num)
  rw [clamp_ofRat]
  cases x with
  | nan => simp [FloatingPoint.toUInt8, Comparable.equal, equal]
  | infinity negative =>
      cases negative <;> simp [zeroByte, lastByte, Comparable.equal, equal]
  | finite value represented =>
      simp only [Comparable.equal, equal, decide_true, iff_true]
      split_ifs with low high
      · exact ⟨_, zeroByte⟩
      · exact ⟨_, lastByte⟩
      · exact ⟨_, toUInt8_finite represented (by linarith) (by linarith)⟩

/-- `Double` and `Float`. -/
instance : MultiArrayType (FloatingPoint format) where
  add x y := some (x + y)
  mul x y := some (x * y)
  ofInt n := .ofRat n
  toUInt8 := FloatingPoint.toUInt8
  exists_toUInt8_iff x := by
    push_cast
    exact exists_toUInt8_clamp_iff x

end FloatingPoint

/-- `Int32`.  Only small integers are converted. -/
instance : MultiArrayType Int32Value where
  add x y := Int32Value.ofResult (x.1 + y.1)
  mul x y := Int32Value.ofResult (x.1 * y.1)
  ofInt n := (Int32Value.ofResult n).getD ⟨0, by decide⟩
  toUInt8 x :=
    if 0 ≤ x.1 ∧ x.1 ≤ 255 then some (UInt8.ofNat x.1.toNat) else none
  exists_toUInt8_iff x := by
    simp only [Comparable.equal, decide_true, iff_true, clamp,
      Comparable.less, decide_eq_true_eq]
    by_cases low : x.1 < ((Int32Value.ofResult 0).getD ⟨0, by decide⟩).1
    · rw [if_pos low]
      exact ⟨0, by decide⟩
    · rw [if_neg low]
      by_cases high : ((Int32Value.ofResult 255).getD ⟨0, by decide⟩).1 < x.1
      · rw [if_pos high]
        exact ⟨255, by decide⟩
      · rw [if_neg high]
        exact ⟨_, if_pos ⟨not_lt.mp low, not_lt.mp high⟩⟩

/-- The bytes of a picture, row by row. -/
structure RawBytes where
  bytes : List UInt8
  width : ℤ
  height : ℤ
  deriving DecidableEq

/-- `for i in 0..<count`. -/
def forRange {σ : Type} (count : ℤ) (body : ℤ → σ → Option σ) (start : σ) :
    Option σ :=
  if count < 0 then none
  else Loops.loop count.toNat (fun i => body (i : ℤ)) start

/-- `[T](repeating:count:)`. -/
def repeating {T : Type} (value : T) (count : ℤ) : Option (List T) :=
  if count < 0 then none else some (List.replicate count.toNat value)

/-- An assignment to an array index. -/
def store (bytes : List UInt8) (index : ℤ) (byte : UInt8) :
    Option (List UInt8) :=
  if 0 ≤ index ∧ index < bytes.length then
    some (bytes.set index.toNat byte)
  else
    none

namespace MultiArray

section Bytes

variable {T : Type} [MultiArrayType T]

/-- `(value + offset) * scale`. -/
def scaled (offset scale value : T) : Option T :=
  (MultiArrayType.add value offset).bind fun sum =>
    MultiArrayType.mul sum scale

def clampedByte (value : T) : Option UInt8 :=
  MultiArrayType.toUInt8
    (clamp value (MultiArrayType.ofInt 0) (MultiArrayType.ofInt 255))

/-- The body of the loops in `toRawBytesRGBA`.  The places of bytes are less
than their number. -/
def storeColour (array : MultiArray) (elements : List T) (offset scale : T)
    (width h w : ℤ) (bytes : List UInt8) : Option (List UInt8) := do
  let r ← (array.get elements [0, h, w]).bind (scaled offset scale)
  let g ← (array.get elements [1, h, w]).bind (scaled offset scale)
  let b ← (array.get elements [2, h, w]).bind (scaled offset scale)
  let start := h * width * 4 + w * 4
  let bytes ← (clampedByte r).bind (store bytes (start + 0))
  let bytes ← (clampedByte g).bind (store bytes (start + 1))
  let bytes ← (clampedByte b).bind (store bytes (start + 2))
  store bytes (start + 3) 255

/-- `nil` unless there are three axes, the first one with three channels. -/
def toRawBytesRGBA (array : MultiArray) (elements : List T)
    (offset scale : T) : Option (Option RawBytes) :=
  if axes : array.rank = 3 then
    if array.shape ⟨0, by omega⟩ = 3 then do
      let height := array.shape ⟨1, by omega⟩
      let width := array.shape ⟨2, by omega⟩
      let pixels ← intResult (height * width)
      let count ← intResult (pixels * 4)
      let zeros ← repeating 0 count
      let bytes ←
        forRange height (fun h => forRange width fun w =>
          array.storeColour elements offset scale width h w) zeros
      some (some { bytes := bytes, width := width, height := height })
    else
      some none
  else
    some none

/-- The body of the loops in `toRawBytesGray`. -/
def storeGrey (array : MultiArray) (elements : List T) (offset scale : T)
    (width h w : ℤ) (bytes : List UInt8) : Option (List UInt8) := do
  let pixel ← (array.get elements [h, w]).bind (scaled offset scale)
  (clampedByte pixel).bind (store bytes (h * width + w))

/-- `nil` unless there are two axes. -/
def toRawBytesGray (array : MultiArray) (elements : List T)
    (offset scale : T) : Option (Option RawBytes) :=
  if axes : array.rank = 2 then do
    let height := array.shape ⟨0, by omega⟩
    let width := array.shape ⟨1, by omega⟩
    let count ← intResult (height * width)
    let zeros ← repeating 0 count
    let bytes ←
      forRange height (fun h => forRange width fun w =>
        array.storeGrey elements offset scale width h w) zeros
    some (some { bytes := bytes, width := width, height := height })
  else
    some none

end Bytes

end MultiArray

/-- The bytes from which Core Graphics makes an image. -/
inductive ByteImage where
  | rgba (raw : RawBytes)
  | gray (raw : RawBytes)
  deriving DecidableEq

namespace MultiArray

variable {T : Type} [MultiArrayType T]

/-- `image(offset:scale:)` up to Core Graphics. -/
def image (array : MultiArray) (elements : List T) (offset scale : T) :
    Option (Option ByteImage) :=
  if array.rank = 3 then
    (array.toRawBytesRGBA elements offset scale).map (Option.map .rgba)
  else if array.rank = 2 then
    (array.toRawBytesGray elements offset scale).map (Option.map .gray)
  else
    some none

/-- `init(shape:)`, where Core ML decides whether there is an array of that
shape; `try!` stops the program if there is none. -/
def new (creates : List ℤ → Bool) (shape : List ℤ) :
    Option (MultiArray × List T) :=
  if creates shape then
    let array := ofShape shape
    array.count.map fun count =>
      (array, List.replicate count.toNat (MultiArrayType.ofInt 0))
  else
    none

/-- `image(channel:offset:scale:)` up to Core Graphics. -/
def imageOfChannel (creates : List ℤ → Bool) (array : MultiArray)
    (elements : List T) (channel : ℤ) (offset scale : T) :
    Option (Option ByteImage) :=
  if axes : array.rank = 3 then
    if 0 ≤ channel ∧ channel < array.shape ⟨0, by omega⟩ then do
      let height := array.shape ⟨1, by omega⟩
      let width := array.shape ⟨2, by omega⟩
      let (a, zeros) ← new creates [height, width]
      let values ←
        forRange height (fun y => forRange width fun x values =>
          (array.get elements [channel, y, x]).bind
            (a.set values [y, x])) zeros
      a.image values offset scale
    else
      some none
  else
    some none

end MultiArray

end HigeMaster
