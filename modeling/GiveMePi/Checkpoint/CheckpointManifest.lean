import GiveMePi.Checkpoint.CheckpointBlockCodec

/-! # The bytes of a checkpoint manifest

A header of 72 bytes, with a checksum over everything but its own four bytes, and one record for
every entry, in the order of the locations. -/

namespace GiveMePi.Checkpoint

/-- The code of a completion state; a file may hold any byte. -/
structure CompletionState where
  code : UInt8
deriving DecidableEq, Repr

namespace CompletionState

def incomplete : CompletionState := ⟨0⟩

def complete : CompletionState := ⟨1⟩

end CompletionState

structure ManifestEntry where
  location : BlockLocation
  filename : Bytes
  payloadSize : UInt64
  checksumAlgorithm : ChecksumAlgorithm
  checksum : UInt32
  completion : CompletionState
deriving DecidableEq, Repr

structure CheckpointManifest where
  identity : ComputationIdentity
  entries : List ManifestEntry
deriving DecidableEq, Repr

namespace CheckpointManifestCodec

def formatVersion : UInt16 := 1

def version1HeaderSize : UInt16 := 72

def manifestMagic : Bytes := [71, 77, 80, 73, 77, 65, 78, 0]

def checksumOffset : ℕ := 68

def checksumSize : UInt16 := 4

def fixedEntrySize : ℕ := 48

/-- The text of the reader's exception. -/
def truncated : String := "Truncated checkpoint manifest"

def nonZeroReserved : String := "Non-zero manifest reserved field"

def manifestChecksum (bytes : Bytes) : Except Error UInt32 := do
  throwIf (bytes.length < version1HeaderSize.toNat) (.invalidArgument truncated)
  pure (CRC32C.calculateZeroed checksumOffset bytes)

/-- A name without the bytes `/`, `\` and NUL. -/
def isPlainFilename (filename : Bytes) : Bool :=
  !filename.isEmpty && !filename.contains 47 && !filename.contains 92 && !filename.contains 0

def validateEntry (identity : ComputationIdentity) (entry : ManifestEntry) :
    Except Error Unit := do
  entry.location.validate identity
  throwIf (isPlainFilename entry.filename = false)
    (.invalidArgument "Manifest filename must be a plain filename")
  throwIf (entry.filename.length > uint32Max.toNat)
    (.lengthError "Manifest filename is too long")
  throwIf (entry.checksumAlgorithm ≠ ChecksumAlgorithm.crc32c)
    (.invalidArgument "Manifest entry requires CRC32C metadata")
  throwIf (entry.completion ≠ CompletionState.incomplete ∧
      entry.completion ≠ CompletionState.complete)
    (.invalidArgument "Unknown manifest completion state")

/-- The order of the locations, which is that of the entry keys. -/
def sortEntries (entries : List ManifestEntry) : List ManifestEntry :=
  entries.mergeSort fun left right => left.location ≤ right.location

/-- The loop over neighbours after sorting. -/
def rejectDuplicates : List ManifestEntry → Except Error Unit
  | left :: right :: rest => do
      throwIf (left.location = right.location)
        (.invalidArgument "Duplicate manifest block location")
      rejectDuplicates (right :: rest)
  | _ => pure ()

def checkedTotalSize : ℕ → List ManifestEntry → Except Error ℕ
  | totalSize, [] => pure totalSize
  | totalSize, entry :: rest => do
      throwIf (entry.filename.length > uint64Max.toNat - fixedEntrySize ∨
          fixedEntrySize + entry.filename.length > uint64Max.toNat - totalSize)
        (.overflowError "Checkpoint manifest size overflow")
      checkedTotalSize (totalSize + (fixedEntrySize + entry.filename.length)) rest

/-- The header as it is appended, with a zero in the checksum's place. -/
def headerBytes (identity : ComputationIdentity) (entryCount : ℕ) : Bytes :=
  manifestMagic ++ appendU16 formatVersion ++ appendU16 version1HeaderSize ++ appendU32 0
    ++ appendU16 identity.algorithm.code ++ appendU16 identity.arithmeticVersion
    ++ appendU16 identity.formulaVersion ++ appendU16 0 ++ appendU64 identity.requestedDigits
    ++ appendU32 identity.guardDigits ++ appendU32 0 ++ appendU64 identity.workingDigits
    ++ appendU64 identity.termCount ++ appendU64 (UInt64.ofNat entryCount)
    ++ appendU16 ChecksumAlgorithm.crc32c.code ++ appendU16 checksumSize ++ appendU32 0

def entryBytes (entry : ManifestEntry) : Bytes :=
  appendU64 entry.location.start ++ appendU64 entry.location.stop
    ++ appendU32 entry.location.treeLevel ++ appendU8 entry.completion.code ++ appendU8 0
    ++ appendU16 0 ++ appendU64 entry.payloadSize ++ appendU16 entry.checksumAlgorithm.code
    ++ appendU16 checksumSize ++ appendU32 entry.checksum
    ++ appendU32 (UInt32.ofNat entry.filename.length) ++ appendU32 0 ++ entry.filename

def encode (manifest : CheckpointManifest) : Except Error Bytes := do
  manifest.identity.validate
  manifest.entries.forM (validateEntry manifest.identity)
  let entries := sortEntries manifest.entries
  rejectDuplicates entries
  let _ ← checkedTotalSize version1HeaderSize.toNat entries
  let output := headerBytes manifest.identity entries.length ++ entries.flatMap entryBytes
  let checksum ← manifestChecksum output
  pure (storeU32 output checksumOffset checksum)

/-- The check of the stored checksum against that of all bytes. -/
def readChecksum (bytes : Bytes) : Reader Unit := do
  let checksumAlgorithm ← Reader.readU16 truncated
  let checksumLength ← Reader.readU16 truncated
  throwIf (checksumAlgorithm ≠ ChecksumAlgorithm.crc32c.code ∨ checksumLength ≠ checksumSize)
    (.invalidArgument "Unsupported manifest checksum metadata")
  let storedChecksum ← Reader.readU32 truncated
  let calculated ← manifestChecksum bytes
  throwIf (storedChecksum ≠ calculated) (.invalidArgument "Checkpoint manifest CRC32C mismatch")

open Reader in
def readEntry (identity : ComputationIdentity) : Reader ManifestEntry := do
  let start ← readU64 truncated
  let stop ← readU64 truncated
  let treeLevel ← readU32 truncated
  let completion ← readU8 truncated
  let reserved ← readU8 truncated
  throwIf (reserved ≠ 0) (.invalidArgument nonZeroReserved)
  let reserved ← readU16 truncated
  throwIf (reserved ≠ 0) (.invalidArgument nonZeroReserved)
  let payloadSize ← readU64 truncated
  let checksumAlgorithm ← readU16 truncated
  let checksumLength ← readU16 truncated
  throwIf (checksumLength ≠ checksumSize) (.invalidArgument "Invalid entry checksum length")
  let checksum ← readU32 truncated
  let filenameLength ← readU32 truncated
  let reserved ← readU32 truncated
  throwIf (reserved ≠ 0) (.invalidArgument nonZeroReserved)
  let filename ← take truncated filenameLength.toNat
  let entry : ManifestEntry :=
    ⟨⟨start, stop, treeLevel⟩, filename, payloadSize, ⟨checksumAlgorithm⟩, checksum, ⟨completion⟩⟩
  validateEntry identity entry
  pure entry

/-- The loop over the entries that are left, after those already read. -/
def readEntries (identity : ComputationIdentity) :
    ℕ → List ManifestEntry → Reader (List ManifestEntry)
  | 0, entries => pure entries
  | remaining + 1, entries => do
      let entry ← readEntry identity
      throwIf ((entries.getLast?.any fun last => last.location ≥ entry.location) = true)
        (.invalidArgument "Manifest entries are not canonically sorted")
      readEntries identity remaining (entries ++ [entry])

open Reader in
def readManifest (bytes : Bytes) : Reader CheckpointManifest := do
  let magic ← take truncated manifestMagic.length
  throwIf (magic ≠ manifestMagic) (.invalidArgument "Invalid checkpoint manifest magic")
  let version ← readU16 truncated
  throwIf (version ≠ formatVersion) (.invalidArgument "Unsupported checkpoint manifest version")
  let headerSize ← readU16 truncated
  throwIf (headerSize ≠ version1HeaderSize)
    (.invalidArgument "Unsupported checkpoint manifest version")
  let flags ← readU32 truncated
  throwIf (flags ≠ 0) (.invalidArgument "Unsupported manifest flags")
  let identity ← CheckpointBlockCodec.readIdentity truncated nonZeroReserved
  let entryCount ← readU64 truncated
  readChecksum bytes
  let remaining ← get
  throwIf (entryCount.toNat > remaining.length / fixedEntrySize)
    (.invalidArgument "Invalid checkpoint manifest entry count")
  let entries ← readEntries identity entryCount.toNat []
  let remaining ← get
  throwIf (remaining.length ≠ 0) (.invalidArgument "Trailing checkpoint manifest bytes")
  pure ⟨identity, entries⟩

def decode (bytes : Bytes) : Except Error CheckpointManifest := do
  let (manifest, _) ← readManifest bytes bytes
  pure manifest

end CheckpointManifestCodec

end GiveMePi.Checkpoint
