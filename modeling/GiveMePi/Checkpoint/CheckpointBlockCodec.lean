import GiveMePi.Checkpoint.CRC32C
import GiveMePi.Checkpoint.CheckpointTypes
import GiveMePi.Checkpoint.GMPSerialization

/-! # The bytes of a checkpoint block

A header of 112 bytes, with a checksum over everything but its own four bytes, and the magnitudes
of `P`, `Q` and `T`. -/

namespace GiveMePi.Checkpoint

/-- The code of a checksum algorithm; a file may hold any 16-bit code. -/
structure ChecksumAlgorithm where
  code : UInt16
deriving DecidableEq, Repr

namespace ChecksumAlgorithm

def none : ChecksumAlgorithm := ⟨0⟩

def crc32c : ChecksumAlgorithm := ⟨1⟩

end ChecksumAlgorithm

structure CheckpointBlock where
  identity : ComputationIdentity
  location : BlockLocation
  p : ℤ
  q : ℤ
  t : ℤ
deriving DecidableEq, Repr

structure EncodedCheckpointBlock where
  bytes : Bytes
  payloadSize : UInt64
  checksumAlgorithm : ChecksumAlgorithm
  checksum : UInt32
deriving DecidableEq, Repr

/-- `storeU32` of a codec: the four bytes at an offset are replaced. -/
def storeU32 (output : Bytes) (offset : ℕ) (value : UInt32) : Bytes :=
  output.take offset ++ appendU32 value ++ output.drop (offset + 4)

namespace CheckpointBlockCodec

def formatVersion : UInt16 := 1

def version1HeaderSize : UInt16 := 112

def blockMagic : Bytes := [71, 77, 80, 73, 80, 81, 84, 0]

def checksumOffset : ℕ := 80

def checksumSize : UInt16 := 4

def blockChecksum (bytes : Bytes) : Except Error UInt32 := do
  throwIf (bytes.length < version1HeaderSize.toNat)
    (.invalidArgument "Truncated checkpoint checksum input")
  pure (CRC32C.calculateZeroed checksumOffset bytes)

def checkedPayloadSizeFrom : ℕ → List ℕ → Except Error ℕ
  | total, [] => pure total
  | total, size :: rest => do
      throwIf (size > uint64Max.toNat - version1HeaderSize.toNat - total)
        (.overflowError "Checkpoint block size overflow")
      checkedPayloadSizeFrom (total + size) rest

def checkedPayloadSize (pSize qSize tSize : ℕ) : Except Error ℕ :=
  checkedPayloadSizeFrom 0 [pSize, qSize, tSize]

/-- The header as it is appended, with a zero in the checksum's place. -/
def headerBytes (identity : ComputationIdentity) (location : BlockLocation) (p q t : ℤ)
    (pSize qSize tSize : ℕ) : Bytes :=
  blockMagic ++ appendU16 formatVersion ++ appendU16 version1HeaderSize ++ appendU32 0
    ++ appendU16 identity.algorithm.code ++ appendU16 identity.arithmeticVersion
    ++ appendU16 identity.formulaVersion ++ appendU16 0 ++ appendU64 identity.requestedDigits
    ++ appendU32 identity.guardDigits ++ appendU32 0 ++ appendU64 identity.workingDigits
    ++ appendU64 identity.termCount ++ appendU64 location.start ++ appendU64 location.stop
    ++ appendU32 location.treeLevel ++ appendU16 ChecksumAlgorithm.crc32c.code
    ++ appendU16 checksumSize ++ appendU32 0 ++ appendU8 (GMPSerialization.sign p).code
    ++ appendU8 (GMPSerialization.sign q).code ++ appendU8 (GMPSerialization.sign t).code
    ++ appendU8 0 ++ appendU64 (UInt64.ofNat pSize) ++ appendU64 (UInt64.ofNat qSize)
    ++ appendU64 (UInt64.ofNat tSize)

def encodeValues (identity : ComputationIdentity) (location : BlockLocation) (p q t : ℤ) :
    Except Error EncodedCheckpointBlock := do
  identity.validate
  location.validate identity
  let pSize ← GMPSerialization.magnitudeSize p
  let qSize ← GMPSerialization.magnitudeSize q
  let tSize ← GMPSerialization.magnitudeSize t
  let payloadSize ← checkedPayloadSize pSize qSize tSize
  let header := headerBytes identity location p q t pSize qSize tSize
  throwIf (header.length ≠ version1HeaderSize.toNat)
    (.logicError "Checkpoint header size invariant failed")
  let pBytes ← GMPSerialization.exportMagnitude p pSize
  let qBytes ← GMPSerialization.exportMagnitude q qSize
  let tBytes ← GMPSerialization.exportMagnitude t tSize
  let output := header ++ pBytes ++ qBytes ++ tBytes
  let checksum ← blockChecksum output
  pure
    { bytes := storeU32 output checksumOffset checksum
      payloadSize := UInt64.ofNat payloadSize
      checksumAlgorithm := ChecksumAlgorithm.crc32c
      checksum := checksum }

def encode (block : CheckpointBlock) : Except Error Bytes := do
  let encoded ← encodeValues block.identity block.location block.p block.q block.t
  pure encoded.bytes

/-- The text of the reader's exception. -/
def truncated : String := "Truncated checkpoint block"

def nonZeroReserved : String := "Non-zero checkpoint reserved field"

open Reader in
/-- The identity as the header of a block or of a manifest has it. -/
def readIdentity (truncated nonZeroReserved : String) : Reader ComputationIdentity := do
  let algorithm ← readU16 truncated
  let arithmeticVersion ← readU16 truncated
  let formulaVersion ← readU16 truncated
  let reserved ← readU16 truncated
  throwIf (reserved ≠ 0) (.invalidArgument nonZeroReserved)
  let requestedDigits ← readU64 truncated
  let guardDigits ← readU32 truncated
  let reserved ← readU32 truncated
  throwIf (reserved ≠ 0) (.invalidArgument nonZeroReserved)
  let workingDigits ← readU64 truncated
  let termCount ← readU64 truncated
  let identity : ComputationIdentity :=
    ⟨⟨algorithm⟩, arithmeticVersion, formulaVersion, requestedDigits, guardDigits, workingDigits,
      termCount⟩
  identity.validate
  pure identity

open Reader in
def readLocation (identity : ComputationIdentity) : Reader BlockLocation := do
  let start ← readU64 truncated
  let stop ← readU64 truncated
  let treeLevel ← readU32 truncated
  let location : BlockLocation := ⟨start, stop, treeLevel⟩
  location.validate identity
  pure location

/-- The check of the stored checksum against that of all bytes. -/
def readChecksum (bytes : Bytes) : Reader Unit := do
  let checksumAlgorithm ← Reader.readU16 truncated
  let checksumLength ← Reader.readU16 truncated
  let checksumValue ← Reader.readU32 truncated
  throwIf (checksumAlgorithm ≠ ChecksumAlgorithm.crc32c.code ∨
      checksumLength ≠ checksumSize)
    (.invalidArgument "Unsupported checkpoint checksum metadata")
  let calculated ← blockChecksum bytes
  throwIf (checksumValue ≠ calculated) (.invalidArgument "Checkpoint CRC32C mismatch")

open Reader in
def readSigns : Reader (IntegerSign × IntegerSign × IntegerSign) := do
  let pSign ← readU8 truncated
  let qSign ← readU8 truncated
  let tSign ← readU8 truncated
  let reserved ← readU8 truncated
  throwIf (reserved ≠ 0) (.invalidArgument nonZeroReserved)
  pure (⟨pSign⟩, ⟨qSign⟩, ⟨tSign⟩)

open Reader in
/-- The lengths of the magnitudes, which must be what is left of the file. -/
def readLengths : Reader (UInt64 × UInt64 × UInt64) := do
  let pLength ← readU64 truncated
  let qLength ← readU64 truncated
  let tLength ← readU64 truncated
  throwIf (qLength > uint64Max - pLength)
    (.invalidArgument "Checkpoint payload length overflow")
  throwIf (tLength > uint64Max - (pLength + qLength))
    (.invalidArgument "Checkpoint payload length overflow")
  let remaining ← get
  throwIf ((pLength + qLength + tLength).toNat ≠ remaining.length)
    (.invalidArgument "Checkpoint payload lengths do not match the file size")
  pure (pLength, qLength, tLength)

def readInteger (sign : IntegerSign) (length : UInt64) : Reader ℤ := do
  let magnitude ← Reader.take truncated length.toNat
  GMPSerialization.decode sign magnitude

def readValues : Reader (ℤ × ℤ × ℤ) := do
  let (pSign, qSign, tSign) ← readSigns
  let (pLength, qLength, tLength) ← readLengths
  let p ← readInteger pSign pLength
  let q ← readInteger qSign qLength
  let t ← readInteger tSign tLength
  pure (p, q, t)

open Reader in
def readBlock (bytes : Bytes) : Reader CheckpointBlock := do
  let magic ← take truncated blockMagic.length
  throwIf (magic ≠ blockMagic) (.invalidArgument "Invalid checkpoint block magic")
  let version ← readU16 truncated
  throwIf (version ≠ formatVersion) (.invalidArgument "Unsupported checkpoint block version")
  let headerSize ← readU16 truncated
  throwIf (headerSize ≠ version1HeaderSize)
    (.invalidArgument "Unsupported checkpoint block version")
  let flags ← readU32 truncated
  throwIf (flags ≠ 0) (.invalidArgument "Unsupported checkpoint block flags")
  let identity ← readIdentity truncated nonZeroReserved
  let location ← readLocation identity
  readChecksum bytes
  let (p, q, t) ← readValues
  pure ⟨identity, location, p, q, t⟩

def decode (bytes : Bytes) : Except Error CheckpointBlock := do
  let (block, _) ← readBlock bytes bytes
  pure block

end CheckpointBlockCodec

end GiveMePi.Checkpoint
