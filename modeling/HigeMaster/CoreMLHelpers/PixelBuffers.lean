import HigeMaster.CoreMLHelpers.Numbers
import HigeMaster.EventRun
import HigeMaster.Ownership

/-!
# Conversions of pixel buffers

A pixel buffer is cropped, resized or rotated into a new block of memory,
which a new buffer then owns: when the last reference to that buffer goes, its
release callback frees the block.  What the frameworks answer during a
conversion is given with it: whether the source is locked, whether there is a
base address, which block is allocated, whether vImage converts the pixels, and
which buffer is created.  `none` stands for a program that stops, or that makes
vImage read outside the bytes of the source.
-/

namespace HigeMaster

structure CVPixelBuffer where
  width : ℕ
  height : ℕ
  bytesPerRow : ℤ
  pixelFormat : ℕ
  /-- How many times it has been locked and not unlocked. -/
  locks : ℕ
  /-- The block that its release callback frees. -/
  releases : Option ℕ

def CVPixelBuffer.size (buffer : CVPixelBuffer) : ℤ :=
  buffer.height * buffer.bytesPerRow

/-- A negative number stops the program. -/
def vImagePixelCount (n : ℤ) : Option ℕ :=
  if 0 ≤ n then some n.toNat else none

/-- The pixels that vImage reads or writes. -/
structure VImageBuffer where
  offset : ℤ
  height : ℕ
  width : ℕ
  rowBytes : ℤ

/-- All rows of the pixels lie within so many bytes. -/
def VImageBuffer.Inside (buffer : VImageBuffer) (size : ℤ) : Prop :=
  buffer.width = 0 ∨ ∀ row < buffer.height,
    0 ≤ buffer.offset + row * buffer.rowBytes ∧
      buffer.offset + row * buffer.rowBytes + buffer.width * 4 ≤ size

instance (buffer : VImageBuffer) (size : ℤ) : Decidable (buffer.Inside size) :=
  inferInstanceAs (Decidable (_ ∨ _))

/-- The part of a source that is converted, and the size of the result. -/
structure Conversion where
  cropX : ℤ
  cropY : ℤ
  cropWidth : ℤ
  cropHeight : ℤ
  destWidth : ℤ
  destHeight : ℤ

/-- What the frameworks answer. -/
structure Answers where
  locks : Bool
  hasBaseAddress : Bool
  malloc : Option ℕ
  converts : Bool
  creates : Option ℕ

namespace Conversion

def srcBuffer (conversion : Conversion) (source : CVPixelBuffer) :
    Option VImageBuffer := do
  let rows ← intResult (conversion.cropY * source.bytesPerRow)
  let columns ← intResult (conversion.cropX * 4)
  let offset ← intResult (rows + columns)
  let height ← vImagePixelCount conversion.cropHeight
  let width ← vImagePixelCount conversion.cropWidth
  some { offset, height, width, rowBytes := source.bytesPerRow }

def destBytesPerRow (conversion : Conversion) : Option ℤ :=
  intResult (conversion.destWidth * 4)

def destBuffer (conversion : Conversion) (destBytesPerRow : ℤ) :
    Option VImageBuffer := do
  let height ← vImagePixelCount conversion.destHeight
  let width ← vImagePixelCount conversion.destWidth
  some { offset := 0, height, width, rowBytes := destBytesPerRow }

/-- `resizePixelBuffer(_:width:height:)` crops nothing. -/
def resize (source : CVPixelBuffer) (width height : ℤ) : Conversion :=
  { cropX := 0
    cropY := 0
    cropWidth := source.width
    cropHeight := source.height
    destWidth := width
    destHeight := height }

/-- An odd factor exchanges width and height. -/
def rotate90 (source : CVPixelBuffer) (factor : UInt8) : Conversion :=
  let conversion := resize source source.height source.width
  if factor % 2 = 0 then
    { conversion with destWidth := source.width, destHeight := source.height }
  else
    conversion

end Conversion

/-- The allocated blocks, and the buffers by their references. -/
structure Memory where
  blocks : Finset ℕ
  buffers : ℕ → Option CVPixelBuffer

namespace Memory

/-- `CVPixelBufferLockBaseAddress`. -/
def lock (memory : Memory) (reference : ℕ) : Memory :=
  { memory with
    buffers :=
      Function.update memory.buffers reference
        ((memory.buffers reference).map fun buffer =>
          { buffer with locks := buffer.locks + 1 }) }

/-- `CVPixelBufferUnlockBaseAddress`. -/
def unlock (memory : Memory) (reference : ℕ) : Memory :=
  { memory with
    buffers :=
      Function.update memory.buffers reference
        ((memory.buffers reference).map fun buffer =>
          { buffer with locks := buffer.locks - 1 }) }

def malloc (memory : Memory) (block : ℕ) : Memory :=
  { memory with blocks := insert block memory.blocks }

/-- Freeing a block that is not allocated stops the program. -/
def free (memory : Memory) (block : ℕ) : Option Memory :=
  if block ∈ memory.blocks then
    some { memory with blocks := memory.blocks.erase block }
  else
    none

/-- `CVPixelBufferCreate` and `CVPixelBufferCreateWithBytes`. -/
def create (memory : Memory) (reference : ℕ) (buffer : CVPixelBuffer) :
    Memory :=
  { memory with
    buffers := Function.update memory.buffers reference (some buffer) }

/-- Convert a buffer, and return the reference to the result.  The back colour
of a rotation, of which vImage reads four bytes where there is one, is not
modelled. -/
def convert (memory : Memory) (reference : ℕ) (source : CVPixelBuffer)
    (conversion : Conversion) (answers : Answers) :
    Option (Memory × Option ℕ) :=
  let locked := if answers.locks then memory.lock reference else memory
  if answers.hasBaseAddress then do
    let srcBuffer ← conversion.srcBuffer source
    let destBytesPerRow ← conversion.destBytesPerRow
    let _ ← intResult (conversion.destHeight * destBytesPerRow)
    match answers.malloc with
    | none => some (locked, none)
    | some destData =>
        let destBuffer ← conversion.destBuffer destBytesPerRow
        if srcBuffer.Inside source.size then
          let unlocked := (locked.malloc destData).unlock reference
          if answers.converts then
            match answers.creates with
            | some dstPixelBuffer =>
                let result : CVPixelBuffer :=
                  { width := destBuffer.width
                    height := destBuffer.height
                    bytesPerRow := destBytesPerRow
                    pixelFormat := source.pixelFormat
                    locks := 0
                    releases := some destData }
                some (unlocked.create dstPixelBuffer result,
                  some dstPixelBuffer)
            | none => (unlocked.free destData).map fun freed => (freed, none)
          else
            (unlocked.free destData).map fun freed => (freed, none)
        else
          none
  else
    some (locked, none)

/-- The last reference to a buffer goes. -/
def release (memory : Memory) (reference : ℕ) : Option Memory :=
  (memory.buffers reference).bind fun buffer =>
    let remaining : Memory :=
      { memory with
        buffers := Function.update memory.buffers reference none }
    match buffer.releases with
    | none => some remaining
    | some block => remaining.free block

end Memory

inductive ConversionCall where
  | resizeCropped (conversion : Conversion)
  | resize (width height : ℤ)
  | rotate90 (factor : UInt8)

def ConversionCall.conversion (source : CVPixelBuffer) :
    ConversionCall → Conversion
  | .resizeCropped conversion => conversion
  | .resize width height => .resize source width height
  | .rotate90 factor => .rotate90 source factor

/-- Buffers arrive from elsewhere, are converted, and go. -/
inductive BufferEvent where
  | arrive (reference : ℕ) (buffer : CVPixelBuffer)
  | convert (reference : ℕ) (call : ConversionCall) (answers : Answers)
  | release (reference : ℕ)

namespace Memory

def step (memory : Memory) : BufferEvent → Option Memory
  | .arrive reference buffer => some (memory.create reference buffer)
  | .convert reference call answers =>
      (memory.buffers reference).bind fun source =>
        (memory.convert reference source (call.conversion source) answers).map
          Prod.fst
  | .release reference => memory.release reference

end Memory

end HigeMaster
