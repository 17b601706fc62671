import GiveMePi.Checkpoint.CheckpointBlockCodec
import GiveMePi.Checkpoint.CheckpointValidation
import GiveMePi.Checkpoint.TreeLevel

/-! # The structure of a block

The validator looks at the fields of a block one by one, so that it can name what is wrong, before
the codec decodes it. -/

namespace GiveMePi.Checkpoint

structure ValidatedCheckpointBlock where
  encodedSize : UInt64
  payloadSize : UInt64
  checksumAlgorithm : ChecksumAlgorithm
  checksum : UInt32
  block : CheckpointBlock
deriving DecidableEq, Repr

structure CheckpointBlockValidation where
  validation : ValidationResult
  block : Option ValidatedCheckpointBlock

namespace CheckpointBlockValidation

def hasAcceptedBlock (validation : CheckpointBlockValidation) : Bool :=
  validation.validation.isAccepted && validation.block.isSome

end CheckpointBlockValidation

namespace CheckpointBlockValidator

open CheckpointBlockCodec (blockMagic formatVersion version1HeaderSize checksumOffset)

def maximumTreeLevel (termCount : UInt64) : UInt32 :=
  maximumTreeLevelFrom termCount 1 0 uint64_zero_lt_one

theorem maximumTreeLevel_eq (termCount : UInt64) :
    maximumTreeLevel termCount = Binary.maximumTreeLevel termCount :=
  maximumTreeLevelFrom_eq termCount 1 0 _

/-- `if (condition) return reject(stage, reason, detail);` -/
def rejectIf (condition : Prop) [Decidable condition] (stage : ValidationStage)
    (reason : RejectionReason) (detail : String) : Except ValidationDiagnostic Unit :=
  if condition then throw ⟨stage, reason, detail⟩ else pure ()

/-- The bytes of a field. -/
def field (bytes : Bytes) (offset width : ℕ) : Bytes :=
  (bytes.drop offset).take width

def readU16 (bytes : Bytes) (offset : ℕ) : UInt16 :=
  wordU16 (field bytes offset 2)

def readU32 (bytes : Bytes) (offset : ℕ) : UInt32 :=
  wordU32 (field bytes offset 4)

def readU64 (bytes : Bytes) (offset : ℕ) : UInt64 :=
  wordU64 (field bytes offset 8)

def byteAt (bytes : Bytes) (offset : ℕ) : UInt8 :=
  bytes.getD offset 0

def checkHeader (bytes : Bytes) : Except ValidationDiagnostic Unit := do
  rejectIf (bytes.length < version1HeaderSize.toNat) .structure .invalidPayloadLength
    "Truncated block header"
  rejectIf (bytes.take blockMagic.length ≠ blockMagic) .structure .invalidMagic
    "Block magic does not match"
  rejectIf (readU16 bytes 8 ≠ formatVersion ∨ readU16 bytes 10 ≠ version1HeaderSize) .structure
    .unsupportedVersion "Unsupported block version"
  rejectIf (readU32 bytes 12 ≠ 0 ∨ readU16 bytes 22 ≠ 0 ∨ readU32 bytes 36 ≠ 0 ∨
      byteAt bytes 87 ≠ 0)
    .structure .malformedBlock "Non-zero reserved block field"

def checkLocation (bytes : Bytes) : Except ValidationDiagnostic Unit := do
  let termCount := readU64 bytes 48
  let start := readU64 bytes 56
  let stop := readU64 bytes 64
  let treeLevel := readU32 bytes 72
  rejectIf (start ≥ stop ∨ stop > termCount) .structure .invalidRange "Invalid block range"
  rejectIf (termCount = 0 ∨ treeLevel > maximumTreeLevel termCount) .structure .invalidTreeLevel
    "Invalid block tree level"

/-- The sum of the lengths, which must be what follows the header. -/
def checkLengths (bytes : Bytes) : Except ValidationDiagnostic UInt64 := do
  let payloadSize := readU64 bytes 88
  rejectIf (readU64 bytes 96 > uint64Max - payloadSize) .structure .invalidPayloadLength
    "Payload length overflow"
  let payloadSize := payloadSize + readU64 bytes 96
  rejectIf (readU64 bytes 104 > uint64Max - payloadSize) .structure .invalidPayloadLength
    "Payload length overflow"
  let payloadSize := payloadSize + readU64 bytes 104
  let remaining := bytes.length - version1HeaderSize.toNat
  rejectIf (payloadSize.toNat > remaining) .structure .invalidPayloadLength
    "Payload exceeds file boundary"
  rejectIf (payloadSize.toNat < remaining) .structure .trailingBytes
    "Trailing bytes follow block payload"
  pure payloadSize

def checkSign (bytes : Bytes) (signOffset : ℕ) (length payloadOffset : ℕ) :
    Except ValidationDiagnostic Unit :=
  let sign := byteAt bytes signOffset
  let zero := sign = 0
  let nonZero := sign = 1 ∨ sign = 2
  rejectIf ((¬ zero ∧ ¬ nonZero) ∨ (zero ∧ length ≠ 0) ∨ (nonZero ∧ length = 0) ∨
      (length ≠ 0 ∧ byteAt bytes payloadOffset = 0))
    .structure .nonCanonicalInteger "Non-canonical P/Q/T signed magnitude"

def checkSigns (bytes : Bytes) : Except ValidationDiagnostic Unit := do
  let payloadOffset := version1HeaderSize.toNat
  checkSign bytes 84 (readU64 bytes 88).toNat payloadOffset
  let payloadOffset := payloadOffset + (readU64 bytes 88).toNat
  checkSign bytes 85 (readU64 bytes 96).toNat payloadOffset
  let payloadOffset := payloadOffset + (readU64 bytes 96).toNat
  checkSign bytes 86 (readU64 bytes 104).toNat payloadOffset

def checkChecksum (bytes : Bytes) : Except ValidationDiagnostic Unit := do
  rejectIf (readU16 bytes 76 ≠ ChecksumAlgorithm.crc32c.code ∨ readU16 bytes 78 ≠ 4) .checksum
    .checksumMetadataMismatch "Unsupported checksum metadata"
  rejectIf (readU32 bytes checksumOffset ≠ CRC32C.calculateZeroed checksumOffset bytes) .checksum
    .checksumMismatch "Block CRC32C mismatch"

/-- The checks in their order; the first that fails is reported. -/
def examine (bytes : Bytes) (expectedIdentity : ComputationIdentity) :
    Except ValidationDiagnostic ValidatedCheckpointBlock := do
  match expectedIdentity.validate with
  | .error error => throw ⟨.compatibility, .invalidIdentity, error.what⟩
  | .ok _ => pure ()
  checkHeader bytes
  checkLocation bytes
  let payloadSize ← checkLengths bytes
  checkSigns bytes
  checkChecksum bytes
  match CheckpointBlockCodec.decode bytes with
  | .error error => throw ⟨.structure, .malformedBlock, error.what⟩
  | .ok block =>
      rejectIf (block.identity ≠ expectedIdentity) .compatibility .invalidIdentity
        "Block identity differs from target"
      pure
        { encodedSize := UInt64.ofNat bytes.length
          payloadSize := payloadSize
          checksumAlgorithm := ⟨readU16 bytes 76⟩
          checksum := readU32 bytes checksumOffset
          block := block }

def validate (bytes : Bytes) (expectedIdentity : ComputationIdentity) :
    CheckpointBlockValidation :=
  match examine bytes expectedIdentity with
  | .ok block => ⟨.accepted, some block⟩
  | .error diagnostic =>
      ⟨.rejectedFor diagnostic.stage diagnostic.reason diagnostic.detail, none⟩

end CheckpointBlockValidator

end GiveMePi.Checkpoint
