import GiveMePi.Checkpoint.CheckpointManifest

/-! # The bytes of a verification manifest

A header of 120 bytes, with a checksum over everything but its own four bytes, the name of the
output file and one record for every sample of hexadecimal digits. -/

namespace GiveMePi.Verification

open Checkpoint (CRC32C.calculateZeroed storeU32 CheckpointManifestCodec.isPlainFilename)

inductive VerificationStatus where
  | passed
  | failed
  | skipped
  | inconclusive
deriving DecidableEq, Repr

structure VerificationIdentity where
  requestedDigits : UInt64
  guardDigits : UInt32
  workingDigits : UInt64
  termCount : UInt64
deriving DecidableEq, Repr

/-- The 32 bytes of a digest. -/
structure SHA256Digest where
  bytes : Bytes
  length_eq : bytes.length = 32
deriving DecidableEq, Repr

structure VerificationManifestSample where
  position : UInt64
  status : VerificationStatus
  bbpDigit : UInt8
  outputDigit : UInt8
deriving DecidableEq, Repr

structure VerificationManifest where
  identity : VerificationIdentity
  outputFilename : Bytes
  canonicalByteCount : UInt64
  sha256 : SHA256Digest
  knownDigitsReferenceVersion : UInt32
  verifiedAtUnixSeconds : UInt64
  overallStatus : VerificationStatus
  bbpSamples : List VerificationManifestSample
deriving DecidableEq, Repr

def maximumBBPSampleCount : ℕ := 32

/-! ## Validation -/

namespace VerificationManifest

/-- The loop over the samples; `previous` is the position before, if there is one. -/
def validateSamples : Option UInt64 → List VerificationManifestSample → Except Error Unit
  | _, [] => pure ()
  | previous, sample :: rest => do
      throwIf (sample.status ≠ .passed ∨ sample.bbpDigit > 15 ∨ sample.outputDigit > 15 ∨
          sample.bbpDigit ≠ sample.outputDigit ∨
          (previous.any fun position => sample.position ≤ position) = true)
        (.invalidArgument "Invalid verification manifest sample")
      validateSamples (some sample.position) rest

def validate (manifest : VerificationManifest) : Except Error Unit := do
  throwIf (manifest.identity.requestedDigits = 0 ∨
      manifest.identity.requestedDigits > uint64Max - 2 ∨
      manifest.identity.workingDigits < manifest.identity.requestedDigits ∨
      manifest.identity.termCount = 0 ∨
      manifest.canonicalByteCount ≠ manifest.identity.requestedDigits + 2 ∨
      manifest.verifiedAtUnixSeconds = 0)
    (.invalidArgument "Invalid verification manifest identity")
  throwIf (manifest.overallStatus ≠ .passed)
    (.invalidArgument "Only passed verification runs are publishable")
  throwIf (manifest.outputFilename.length > 255 ∨
      CheckpointManifestCodec.isPlainFilename manifest.outputFilename = false)
    (.invalidArgument "Manifest output must be a plain filename")
  throwIf (manifest.knownDigitsReferenceVersion = 0 ∨
      manifest.bbpSamples.length > maximumBBPSampleCount)
    (.invalidArgument "Invalid verification manifest metadata")
  validateSamples none manifest.bbpSamples

end VerificationManifest

/-! ## Encoding -/

namespace VerificationManifestCodec

def formatVersion : UInt16 := 1

def version1HeaderSize : UInt16 := 120

def magic : Bytes := [71, 77, 80, 73, 86, 70, 89, 0]

def checksumOffset : ℕ := 116

def sampleSize : ℕ := 16

def noDigit : UInt8 := 0xff

def truncated : String := "Truncated verification manifest"

def statusByte : VerificationStatus → UInt8
  | .passed => 0
  | .failed => 1
  | .skipped => 2
  | .inconclusive => 3

def statusFromByte (value : UInt8) : Except Error VerificationStatus :=
  match value with
  | 0 => pure .passed
  | 1 => pure .failed
  | 2 => pure .skipped
  | 3 => pure .inconclusive
  | _ => throw (.invalidArgument "Unknown manifest status")

def checksum (bytes : Bytes) : Except Error UInt32 := do
  throwIf (bytes.length < version1HeaderSize.toNat) (.invalidArgument truncated)
  pure (CRC32C.calculateZeroed checksumOffset bytes)

def identityBytes (identity : VerificationIdentity) : Bytes :=
  appendU64 identity.requestedDigits ++ appendU32 identity.guardDigits ++ appendU32 0
    ++ appendU64 identity.workingDigits ++ appendU64 identity.termCount

/-- The header as it is appended, with a zero in the checksum's place. -/
def headerBytes (manifest : VerificationManifest) : Bytes :=
  magic ++ appendU16 formatVersion ++ appendU16 version1HeaderSize ++ appendU32 0
    ++ identityBytes manifest.identity ++ appendU64 manifest.canonicalByteCount
    ++ manifest.sha256.bytes ++ appendU32 manifest.knownDigitsReferenceVersion
    ++ appendU8 (statusByte manifest.overallStatus) ++ appendU8 0 ++ appendU16 0
    ++ appendU64 manifest.verifiedAtUnixSeconds
    ++ appendU32 (UInt32.ofNat manifest.bbpSamples.length)
    ++ appendU32 (UInt32.ofNat manifest.outputFilename.length)
    ++ appendU16 1 ++ appendU16 4 ++ appendU32 0

def sampleBytes (sample : VerificationManifestSample) : Bytes :=
  appendU64 sample.position ++ appendU8 (statusByte sample.status) ++ appendU8 sample.bbpDigit
    ++ appendU8 sample.outputDigit ++ appendU8 noDigit ++ appendU32 0

def encode (manifest : VerificationManifest) : Except Error Bytes := do
  manifest.validate
  let out := headerBytes manifest ++ manifest.outputFilename
    ++ manifest.bbpSamples.flatMap sampleBytes
  let value ← checksum out
  pure (storeU32 out checksumOffset value)

/-! ## Decoding -/

open Reader

def readIdentity : Reader VerificationIdentity := do
  let requestedDigits ← readU64 truncated
  let guardDigits ← readU32 truncated
  let reserved ← readU32 truncated
  throwIf (reserved ≠ 0) (.invalidArgument "Non-zero reserved field")
  let workingDigits ← readU64 truncated
  let termCount ← readU64 truncated
  pure ⟨requestedDigits, guardDigits, workingDigits, termCount⟩

/-- The bytes of a digest, which are copied from the reader. -/
def readDigest : Reader SHA256Digest := fun bytes =>
  if h : 32 ≤ bytes.length then
    .ok (⟨bytes.take 32, List.length_take_of_le h⟩, bytes.drop 32)
  else .error (.invalidArgument truncated)

/-- The overall status and the two reserved fields behind it. -/
def readOverall : Reader VerificationStatus := do
  let value ← readU8 truncated
  let overall ← statusFromByte value
  let reserved ← readU8 truncated
  throwIf (reserved ≠ 0) (.invalidArgument "Non-zero reserved field")
  let reserved ← readU16 truncated
  throwIf (reserved ≠ 0) (.invalidArgument "Non-zero reserved field")
  pure overall

/-- The check of the stored checksum against that of all bytes. -/
def readChecksum (bytes : Bytes) : Reader Unit := do
  let algorithm ← readU16 truncated
  throwIf (algorithm ≠ 1) (.invalidArgument "Unsupported manifest checksum")
  let length ← readU16 truncated
  throwIf (length ≠ 4) (.invalidArgument "Unsupported manifest checksum")
  let storedChecksum ← readU32 truncated
  let value ← checksum bytes
  throwIf (storedChecksum ≠ value) (.invalidArgument "Verification manifest CRC32C mismatch")

def readSample : Reader VerificationManifestSample := do
  let position ← readU64 truncated
  let value ← readU8 truncated
  let status ← statusFromByte value
  let bbpDigit ← readU8 truncated
  let outputDigit ← readU8 truncated
  let reserved ← readU8 truncated
  throwIf (reserved ≠ noDigit) (.invalidArgument "Non-zero sample reserved field")
  let reserved ← readU32 truncated
  throwIf (reserved ≠ 0) (.invalidArgument "Non-zero sample reserved field")
  pure ⟨position, status, bbpDigit, outputDigit⟩

def readSamples : ℕ → Reader (List VerificationManifestSample)
  | 0 => pure []
  | count + 1 => do
      let sample ← readSample
      let samples ← readSamples count
      pure (sample :: samples)

def readManifest (bytes : Bytes) : Reader VerificationManifest := do
  let found ← take truncated magic.length
  throwIf (found ≠ magic) (.invalidArgument "Invalid verification manifest magic")
  let version ← readU16 truncated
  throwIf (version ≠ formatVersion)
    (.invalidArgument "Unsupported verification manifest version")
  let headerSize ← readU16 truncated
  throwIf (headerSize ≠ version1HeaderSize)
    (.invalidArgument "Unsupported verification manifest version")
  let flags ← readU32 truncated
  throwIf (flags ≠ 0) (.invalidArgument "Unsupported verification manifest version")
  let identity ← readIdentity
  let canonicalBytes ← readU64 truncated
  let digest ← readDigest
  let referenceVersion ← readU32 truncated
  let overall ← readOverall
  let timestamp ← readU64 truncated
  let sampleCount ← readU32 truncated
  let filenameLength ← readU32 truncated
  readChecksum bytes
  let remaining ← get
  throwIf (sampleCount.toNat > maximumBBPSampleCount ∨ filenameLength > 255 ∨
      remaining.length ≠ filenameLength.toNat + sampleCount.toNat * sampleSize)
    (.invalidArgument "Invalid verification manifest lengths")
  let filename ← take truncated filenameLength.toNat
  let samples ← readSamples sampleCount.toNat
  let manifest : VerificationManifest :=
    ⟨identity, filename, canonicalBytes, digest, referenceVersion, timestamp, overall, samples⟩
  manifest.validate
  pure manifest

def decode (bytes : Bytes) : Except Error VerificationManifest := do
  let (manifest, _) ← readManifest bytes bytes
  pure manifest

end VerificationManifestCodec

end GiveMePi.Verification
