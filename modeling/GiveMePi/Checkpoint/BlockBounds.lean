import GiveMePi.Checkpoint.BlockAcceptance

/-! # The accesses of the block validator

The validator is repeated with reads that are stuck outside of the bytes: it is never stuck. With
what it accepts this makes it agree with the codec. -/

namespace GiveMePi.Checkpoint.CheckpointBlockValidator

open CheckpointBlockCodec

/-- A validation that is stuck when it reads outside of the bytes. -/
abbrev Bounded := ExceptT ValidationDiagnostic Option

namespace Bounded

variable {α β : Type}

/-- A result of reads within the bytes. -/
def inside (x : Except ValidationDiagnostic α) : Bounded α :=
  ExceptT.mk (some x)

def stuck : Bounded α :=
  ExceptT.mk none

theorem inside_bind (x : Except ValidationDiagnostic α) (f : α → Except ValidationDiagnostic β) :
    (inside x >>= fun a => inside (f a)) = inside (x >>= f) := by
  cases x <;> rfl

theorem inside_ok_bind (a : α) (f : α → Bounded β) : (inside (.ok a) >>= f) = f a := rfl

/-- What comes behind a check may rely on it. -/
theorem inside_bind_congr {x : Except ValidationDiagnostic α} {f : α → Bounded β}
    {g : α → Except ValidationDiagnostic β} (h : ∀ a, x = .ok a → f a = inside (g a)) :
    inside x >>= f = inside (x >>= g) := by
  cases x with
  | error diagnostic => rfl
  | ok a => exact h a rfl

end Bounded

open Bounded

/-! ## Reads with their bounds -/

def field? (bytes : Bytes) (offset width : ℕ) : Bounded Bytes :=
  if offset + width ≤ bytes.length then inside (.ok (field bytes offset width)) else stuck

def readU16? (bytes : Bytes) (offset : ℕ) : Bounded UInt16 := do
  let value ← field? bytes offset 2
  inside (.ok (wordU16 value))

def readU32? (bytes : Bytes) (offset : ℕ) : Bounded UInt32 := do
  let value ← field? bytes offset 4
  inside (.ok (wordU32 value))

def readU64? (bytes : Bytes) (offset : ℕ) : Bounded UInt64 := do
  let value ← field? bytes offset 8
  inside (.ok (wordU64 value))

def byteAt? (bytes : Bytes) (offset : ℕ) : Bounded UInt8 :=
  match bytes[offset]? with
  | none => stuck
  | some value => inside (.ok value)

/-- The parts before and behind the checksum must exist. -/
def calculateChecksum? (bytes : Bytes) : Bounded UInt32 :=
  if checksumOffset + 4 ≤ bytes.length then
    inside (.ok (CRC32C.calculateZeroed checksumOffset bytes))
  else stuck

/-! ## The checks with bounded reads -/

def checkHeader? (bytes : Bytes) : Bounded Unit := do
  inside (rejectIf (bytes.length < version1HeaderSize.toNat) .structure .invalidPayloadLength
    "Truncated block header")
  let magic ← field? bytes 0 blockMagic.length
  inside (rejectIf (magic ≠ blockMagic) .structure .invalidMagic "Block magic does not match")
  let version ← readU16? bytes 8
  let headerSize ← readU16? bytes 10
  inside (rejectIf (version ≠ formatVersion ∨ headerSize ≠ version1HeaderSize) .structure
    .unsupportedVersion "Unsupported block version")
  let flags ← readU32? bytes 12
  let reserved16 ← readU16? bytes 22
  let reserved32 ← readU32? bytes 36
  let reserved8 ← byteAt? bytes 87
  inside (rejectIf (flags ≠ 0 ∨ reserved16 ≠ 0 ∨ reserved32 ≠ 0 ∨ reserved8 ≠ 0)
    .structure .malformedBlock "Non-zero reserved block field")

def checkLocation? (bytes : Bytes) : Bounded Unit := do
  let termCount ← readU64? bytes 48
  let start ← readU64? bytes 56
  let stop ← readU64? bytes 64
  let treeLevel ← readU32? bytes 72
  inside (rejectIf (start ≥ stop ∨ stop > termCount) .structure .invalidRange
    "Invalid block range")
  inside (rejectIf (termCount = 0 ∨ treeLevel > maximumTreeLevel termCount) .structure
    .invalidTreeLevel "Invalid block tree level")

def checkLengths? (bytes : Bytes) : Bounded UInt64 := do
  let pLength ← readU64? bytes 88
  let qLength ← readU64? bytes 96
  let tLength ← readU64? bytes 104
  let payloadSize := pLength
  inside (rejectIf (qLength > uint64Max - payloadSize) .structure .invalidPayloadLength
    "Payload length overflow")
  let payloadSize := payloadSize + qLength
  inside (rejectIf (tLength > uint64Max - payloadSize) .structure .invalidPayloadLength
    "Payload length overflow")
  let payloadSize := payloadSize + tLength
  let remaining := bytes.length - version1HeaderSize.toNat
  inside (rejectIf (payloadSize.toNat > remaining) .structure .invalidPayloadLength
    "Payload exceeds file boundary")
  inside (rejectIf (payloadSize.toNat < remaining) .structure .trailingBytes
    "Trailing bytes follow block payload")
  inside (.ok payloadSize)

/-- The first byte of a magnitude is read only if there is one. -/
def checkSign? (bytes : Bytes) (signOffset : ℕ) (length payloadOffset : ℕ) : Bounded Unit := do
  let sign ← byteAt? bytes signOffset
  let zero := sign = 0
  let nonZero := sign = 1 ∨ sign = 2
  let first ← if length = 0 then inside (.ok 0) else byteAt? bytes payloadOffset
  inside (rejectIf ((¬ zero ∧ ¬ nonZero) ∨ (zero ∧ length ≠ 0) ∨ (nonZero ∧ length = 0) ∨
      (length ≠ 0 ∧ first = 0))
    .structure .nonCanonicalInteger "Non-canonical P/Q/T signed magnitude")

def checkSigns? (bytes : Bytes) : Bounded Unit := do
  let pLength ← readU64? bytes 88
  let qLength ← readU64? bytes 96
  let tLength ← readU64? bytes 104
  let payloadOffset := version1HeaderSize.toNat
  checkSign? bytes 84 pLength.toNat payloadOffset
  let payloadOffset := payloadOffset + pLength.toNat
  checkSign? bytes 85 qLength.toNat payloadOffset
  let payloadOffset := payloadOffset + qLength.toNat
  checkSign? bytes 86 tLength.toNat payloadOffset

def checkChecksum? (bytes : Bytes) : Bounded Unit := do
  let checksumAlgorithm ← readU16? bytes 76
  let checksumLength ← readU16? bytes 78
  inside (rejectIf (checksumAlgorithm ≠ ChecksumAlgorithm.crc32c.code ∨ checksumLength ≠ 4)
    .checksum .checksumMetadataMismatch "Unsupported checksum metadata")
  let storedChecksum ← readU32? bytes checksumOffset
  let calculated ← calculateChecksum? bytes
  inside (rejectIf (storedChecksum ≠ calculated) .checksum .checksumMismatch
    "Block CRC32C mismatch")

def examine? (bytes : Bytes) (expectedIdentity : ComputationIdentity) :
    Bounded ValidatedCheckpointBlock := do
  match expectedIdentity.validate with
  | .error error => inside (throw ⟨.compatibility, .invalidIdentity, error.what⟩)
  | .ok _ => inside (.ok ())
  checkHeader? bytes
  checkLocation? bytes
  let payloadSize ← checkLengths? bytes
  checkSigns? bytes
  checkChecksum? bytes
  match CheckpointBlockCodec.decode bytes with
  | .error error => inside (throw ⟨.structure, .malformedBlock, error.what⟩)
  | .ok block =>
      inside (rejectIf (block.identity ≠ expectedIdentity) .compatibility .invalidIdentity
        "Block identity differs from target")
      let checksumAlgorithm ← readU16? bytes 76
      let checksum ← readU32? bytes checksumOffset
      inside (.ok
        { encodedSize := UInt64.ofNat bytes.length
          payloadSize := payloadSize
          checksumAlgorithm := ⟨checksumAlgorithm⟩
          checksum := checksum
          block := block })

/-! ## No read is stuck -/

section Reads

variable {bytes : Bytes} {offset : ℕ}

theorem field?_eq {width : ℕ} (h : offset + width ≤ bytes.length) :
    field? bytes offset width = inside (.ok (field bytes offset width)) :=
  if_pos h

theorem readU16?_eq (h : offset + 2 ≤ bytes.length) :
    readU16? bytes offset = inside (.ok (readU16 bytes offset)) := by
  rw [readU16?, field?_eq h, inside_ok_bind, readU16]

theorem readU32?_eq (h : offset + 4 ≤ bytes.length) :
    readU32? bytes offset = inside (.ok (readU32 bytes offset)) := by
  rw [readU32?, field?_eq h, inside_ok_bind, readU32]

theorem readU64?_eq (h : offset + 8 ≤ bytes.length) :
    readU64? bytes offset = inside (.ok (readU64 bytes offset)) := by
  rw [readU64?, field?_eq h, inside_ok_bind, readU64]

theorem byteAt?_eq (h : offset < bytes.length) :
    byteAt? bytes offset = inside (.ok (byteAt bytes offset)) := by
  rw [byteAt?, byteAt, List.getD_eq_getElem?_getD, List.getElem?_eq_getElem h]
  rfl

end Reads

section Checks

variable {bytes : Bytes}

theorem checkHeader?_eq : checkHeader? bytes = inside (checkHeader bytes) := by
  rw [checkHeader?, checkHeader]
  refine inside_bind_congr fun _ hsize => ?_
  have hlength : 112 ≤ bytes.length := Nat.not_lt.mp (rejectIf_eq_ok.mp hsize)
  have hmagic : field bytes 0 blockMagic.length = bytes.take blockMagic.length := rfl
  rw [field?_eq (by rw [length_blockMagic]; omega), inside_ok_bind, hmagic]
  refine inside_bind_congr fun _ _ => ?_
  rw [readU16?_eq (by omega), inside_ok_bind, readU16?_eq (by omega), inside_ok_bind]
  refine inside_bind_congr fun _ _ => ?_
  rw [readU32?_eq (by omega), inside_ok_bind, readU16?_eq (by omega), inside_ok_bind,
    readU32?_eq (by omega), inside_ok_bind, byteAt?_eq (by omega), inside_ok_bind]

theorem length_of_checkHeader (h : checkHeader bytes = .ok ()) : 112 ≤ bytes.length := by
  obtain ⟨_, hsize, -⟩ := GiveMePi.bind_eq_ok.mp h
  exact Nat.not_lt.mp (rejectIf_eq_ok.mp hsize)

/-- The lengths that pass add up to what follows the header. -/
theorem sum_of_checkLengths {payloadSize : UInt64} (h : checkLengths bytes = .ok payloadSize) :
    payloadSize = readU64 bytes 88 + readU64 bytes 96 + readU64 bytes 104 ∧
      payloadSize.toNat = bytes.length - 112 ∧
      (readU64 bytes 88).toNat + (readU64 bytes 96).toNat + (readU64 bytes 104).toNat =
        bytes.length - 112 := by
  have hsize : version1HeaderSize.toNat = 112 := rfl
  simp only [checkLengths, GiveMePi.bind_eq_ok, rejectIf_eq_ok, pure_eq_ok, Except.ok.injEq, hsize,
    not_lt, gt_iff_lt] at h
  obtain ⟨_, hpq, _, hpqt, _, hupper, _, hlower, rfl⟩ := h
  have hsum := le_antisymm hupper hlower
  exact ⟨rfl, hsum, (checkedSum_iff.mp ⟨not_lt.mpr hpq, not_lt.mpr hpqt, hsum⟩).1⟩

variable (hlength : 112 ≤ bytes.length)
include hlength

theorem checkLocation?_eq : checkLocation? bytes = inside (checkLocation bytes) := by
  rw [checkLocation?, checkLocation, readU64?_eq (by omega), inside_ok_bind,
    readU64?_eq (by omega), inside_ok_bind, readU64?_eq (by omega), inside_ok_bind,
    readU32?_eq (by omega), inside_ok_bind, inside_bind]

theorem checkLengths?_eq : checkLengths? bytes = inside (checkLengths bytes) := by
  rw [checkLengths?, checkLengths, readU64?_eq (by omega), inside_ok_bind,
    readU64?_eq (by omega), inside_ok_bind, readU64?_eq (by omega), inside_ok_bind]
  simp only [inside_bind]
  rfl

theorem checkSign?_eq {signOffset length payloadOffset : ℕ} (hsign : signOffset < 112)
    (hpayload : length ≠ 0 → payloadOffset < bytes.length) :
    checkSign? bytes signOffset length payloadOffset =
      inside (checkSign bytes signOffset length payloadOffset) := by
  rw [checkSign?, checkSign, byteAt?_eq (by omega), inside_ok_bind]
  by_cases hzero : length = 0
  · rw [if_pos hzero, inside_ok_bind]
    simp only [hzero, ne_eq, not_true_eq_false, false_and]
  · rw [if_neg hzero, byteAt?_eq (hpayload hzero), inside_ok_bind]

theorem checkSigns?_eq {payloadSize : UInt64} (h : checkLengths bytes = .ok payloadSize) :
    checkSigns? bytes = inside (checkSigns bytes) := by
  have hsize : version1HeaderSize.toNat = 112 := rfl
  obtain ⟨-, -, hsum⟩ := sum_of_checkLengths h
  rw [checkSigns?, checkSigns, readU64?_eq (by omega), inside_ok_bind, readU64?_eq (by omega),
    inside_ok_bind, readU64?_eq (by omega), inside_ok_bind]
  simp only [hsize]
  rw [checkSign?_eq hlength (by omega) (by omega), checkSign?_eq hlength (by omega) (by omega),
    checkSign?_eq hlength (by omega) (by omega)]
  simp only [inside_bind]

theorem checkChecksum?_eq : checkChecksum? bytes = inside (checkChecksum bytes) := by
  have hoffset : checksumOffset = 80 := rfl
  have hchecksum : calculateChecksum? bytes =
      inside (.ok (CRC32C.calculateZeroed checksumOffset bytes)) :=
    if_pos (by rw [hoffset]; omega)
  rw [checkChecksum?, checkChecksum, readU16?_eq (by omega), inside_ok_bind,
    readU16?_eq (by omega), inside_ok_bind]
  refine inside_bind_congr fun _ _ => ?_
  rw [readU32?_eq (by rw [hoffset]; omega), inside_ok_bind, hchecksum, inside_ok_bind]

end Checks

/-- All accesses stay within the bytes, whatever they are. -/
theorem examine?_eq (bytes : Bytes) (expectedIdentity : ComputationIdentity) :
    examine? bytes expectedIdentity = inside (examine bytes expectedIdentity) := by
  have hoffset : checksumOffset = 80 := rfl
  rw [examine?, examine]
  cases expectedIdentity.validate with
  | error error => rfl
  | ok u =>
      simp only [inside_ok_bind, checkHeader?_eq]
      refine inside_bind_congr fun _ hheader => ?_
      have hlength := length_of_checkHeader hheader
      rw [checkLocation?_eq hlength]
      refine inside_bind_congr fun _ _ => ?_
      rw [checkLengths?_eq hlength]
      refine inside_bind_congr fun payloadSize hlengths => ?_
      rw [checkSigns?_eq hlength hlengths]
      refine inside_bind_congr fun _ _ => ?_
      rw [checkChecksum?_eq hlength]
      refine inside_bind_congr fun _ _ => ?_
      cases CheckpointBlockCodec.decode bytes with
      | error error => rfl
      | ok block =>
          refine inside_bind_congr fun _ _ => ?_
          rw [readU16?_eq (by omega), inside_ok_bind, readU32?_eq (by rw [hoffset]; omega),
            inside_ok_bind]
          rfl

/-! ## Agreement with the codec -/

/-- What an accepted block is reported with. -/
theorem examine_reports {bytes : Bytes} {identity : ComputationIdentity}
    {validated : ValidatedCheckpointBlock} (h : examine bytes identity = .ok validated) :
    decode bytes = .ok validated.block ∧ validated.encodedSize = UInt64.ofNat bytes.length ∧
      validated.payloadSize = readU64 bytes 88 + readU64 bytes 96 + readU64 bytes 104 ∧
      validated.payloadSize.toNat = bytes.length - version1HeaderSize.toNat ∧
      validated.checksumAlgorithm = ⟨readU16 bytes 76⟩ ∧
      validated.checksum = readU32 bytes checksumOffset := by
  rw [examine] at h
  cases hexpected : identity.validate with
  | error error => simp [hexpected] at h
  | ok u =>
      simp only [hexpected, GiveMePi.bind_eq_ok] at h
      obtain ⟨_, _, _, _, payloadSize, hlengths, _, _, _, _, h⟩ := h
      cases hdecode : decode bytes with
      | error error => simp [hdecode] at h
      | ok block =>
          rw [hdecode] at h
          simp only [GiveMePi.bind_eq_ok, pure_eq_ok, Except.ok.injEq] at h
          obtain ⟨_, _, rfl⟩ := h
          obtain ⟨hpayload, hsize, -⟩ := sum_of_checkLengths hlengths
          exact ⟨rfl, rfl, hpayload, hsize, rfl, rfl⟩

/-- For every byte string the validator accepts what the codec decodes to a block of the
computation with an admissible tree level, reports what was decoded and what the header says, and
reads nothing outside of the bytes. -/
theorem validate_agrees (bytes : Bytes) (identity : ComputationIdentity) :
    ((validate bytes identity).validation.isAccepted = true ↔ ∃ block, decode bytes = .ok block ∧
      block.identity = identity ∧
        block.location.treeLevel ≤ maximumTreeLevel block.identity.termCount) ∧
    ((validate bytes identity).validation.isAccepted = true → ∃ validated,
      (validate bytes identity).block = some validated ∧ decode bytes = .ok validated.block ∧
      validated.encodedSize = UInt64.ofNat bytes.length ∧
      validated.payloadSize = readU64 bytes 88 + readU64 bytes 96 + readU64 bytes 104 ∧
      validated.payloadSize.toNat = bytes.length - version1HeaderSize.toNat ∧
      validated.checksumAlgorithm = ⟨readU16 bytes 76⟩ ∧
      validated.checksum = readU32 bytes checksumOffset) ∧
    examine? bytes identity = inside (examine bytes identity) := by
  refine ⟨?_, ?_, examine?_eq bytes identity⟩
  · rw [validate]
    cases hexamine : examine bytes identity with
    | error diagnostic =>
        simp only [ValidationResult.isAccepted_rejectedFor, Bool.false_eq_true, false_iff]
        rintro ⟨block, hdecode, rfl, hlevel⟩
        rw [examine_eq_ok_iff.mpr ⟨block, hdecode, rfl, hlevel, rfl⟩] at hexamine
        cases hexamine
    | ok validated =>
        simp only [ValidationResult.isAccepted_accepted, true_iff]
        obtain ⟨block, hdecode, rfl, hlevel, -⟩ := examine_eq_ok_iff.mp hexamine
        exact ⟨block, hdecode, rfl, hlevel⟩
  · rw [validate]
    cases hexamine : examine bytes identity with
    | error diagnostic => simp
    | ok validated =>
        intro _
        exact ⟨validated, rfl, examine_reports hexamine⟩

end GiveMePi.Checkpoint.CheckpointBlockValidator
