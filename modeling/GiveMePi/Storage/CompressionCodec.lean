import GiveMePi.Storage.ChunkTypes

/-! # Compression of payloads

Payloads are stored as they are or compressed by the LZ4 library, which is a parameter of the
model. -/

namespace GiveMePi.Storage

/-- The functions of the LZ4 library that the program calls; a result of zero or less is `none`, any
other is the bytes written. -/
structure Lz4 where
  compressDefault : Bytes → ℕ → Option Bytes
  decompressSafe : Bytes → ℕ → Option Bytes
  compressBound : ℕ → ℕ

namespace Lz4

/-- The longest input that the library takes. -/
def maxInputSize : ℕ := 0x7E000000

/-- What the library promises: compression succeeds into a buffer of the size it asks for, a buffer
with room for the compressed bytes receives them, and decompression gives the input back. -/
structure IsLossless (lz4 : Lz4) : Prop where
  succeeds : ∀ input, input.length ≤ maxInputSize →
    ∃ out, lz4.compressDefault input (lz4.compressBound input.length) = some out
  length_le : ∀ input capacity out, lz4.compressDefault input capacity = some out →
    out.length ≤ capacity
  fits : ∀ input capacity capacity' out, lz4.compressDefault input capacity = some out →
    out.length ≤ capacity' → lz4.compressDefault input capacity' = some out
  decompress : ∀ input capacity out, lz4.compressDefault input capacity = some out →
    lz4.decompressSafe out input.length = some input

end Lz4

namespace CompressionCodec

/-- The largest value of `int`. -/
def intMax : ℕ := 2 ^ 31 - 1

def checkedSize (value limit : UInt64) : Except Error ℕ := do
  throwIf (value > limit) (.lengthError "Compression output size is too large")
  pure value.toNat

def checkedLz4Size (value : ℕ) : Except Error ℕ := do
  throwIf (value > intMax) (.lengthError "LZ4 input exceeds the API limit")
  pure value

/-! ## Payloads as they are -/

namespace None

/-- The bytes written into an output of the given size. -/
def compressInto (input : Bytes) (outputSize : ℕ) : Except Error Bytes := do
  throwIf (outputSize < input.length) (.lengthError "Uncompressed output buffer is too small")
  pure input

def compress (input : Bytes) (maxOutputSize : UInt64) : Except Error Bytes := do
  let _ ← checkedSize (UInt64.ofNat input.length) maxOutputSize
  pure input

def decompress (input : Bytes) (expectedOutputSize maxOutputSize : UInt64) :
    Except Error Bytes := do
  let outputSize ← checkedSize expectedOutputSize maxOutputSize
  throwIf (input.length ≠ outputSize)
    (.invalidArgument "Uncompressed payload size does not match metadata")
  pure input

end None

/-! ## LZ4 -/

namespace Lz4

variable (lz4 : Storage.Lz4)

/-- The result of the library, or the exception if it reports none. -/
def compressed (input : Bytes) (outputCapacity : ℕ) : Except Error Bytes :=
  match lz4.compressDefault input outputCapacity with
  | none => throw (.lengthError "LZ4 compression output exceeds the limit")
  | some out => pure out

def compressInto (input : Bytes) (outputSize : ℕ) : Except Error Bytes := do
  let _ ← checkedLz4Size input.length
  let outputCapacity ← checkedLz4Size outputSize
  compressed lz4 input outputCapacity

def compress (input : Bytes) (maxOutputSize : UInt64) : Except Error Bytes := do
  let inputSize ← checkedLz4Size input.length
  let outputCapacity ← checkedLz4Size (min maxOutputSize.toNat (lz4.compressBound inputSize))
  compressed lz4 input outputCapacity

def decompress (input : Bytes) (expectedOutputSize maxOutputSize : UInt64) :
    Except Error Bytes := do
  let outputSize ← checkedSize expectedOutputSize maxOutputSize
  let _ ← checkedLz4Size input.length
  let outputCapacity ← checkedLz4Size outputSize
  match lz4.decompressSafe input outputCapacity with
  | none => throw (.invalidArgument "LZ4 decompression size mismatch")
  | some output => do
      throwIf (output.length ≠ outputCapacity)
        (.invalidArgument "LZ4 decompression size mismatch")
      pure output

end Lz4

/-! ## The codec of an algorithm -/

variable (lz4 : Storage.Lz4)

/-- The check of the algorithm, and the function of its codec. -/
def forAlgorithm {α : Type} (algorithm : CompressionAlgorithm) (none lz4 : α) : Except Error α :=
  if algorithm = .none then pure none
  else if algorithm = .lz4 then pure lz4
  else throw (.invalidArgument "Compression codec is not implemented: unknown")

def compressInto (algorithm : CompressionAlgorithm) (input : Bytes) (outputSize : ℕ) :
    Except Error Bytes := do
  let codec ← forAlgorithm algorithm None.compressInto (Lz4.compressInto lz4)
  codec input outputSize

def compress (algorithm : CompressionAlgorithm) (input : Bytes) (maxOutputSize : UInt64) :
    Except Error Bytes := do
  let codec ← forAlgorithm algorithm None.compress (Lz4.compress lz4)
  codec input maxOutputSize

def decompress (algorithm : CompressionAlgorithm) (input : Bytes)
    (expectedOutputSize maxOutputSize : UInt64) : Except Error Bytes := do
  let codec ← forAlgorithm algorithm None.decompress (Lz4.decompress lz4)
  codec input expectedOutputSize maxOutputSize

end CompressionCodec

end GiveMePi.Storage
