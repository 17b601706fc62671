import GiveMePi.ByteCursor
import GiveMePi.Library.OrderedMap
import GiveMePi.Storage.ChunkTypes

/-! # The index of the stored chunks

The entries of the chunks on disk by identity, and the bytes they are saved as. -/

namespace GiveMePi.Storage

open Checkpoint (AlgorithmId CRC32C.calculate)
open Library (OrderedMap)

structure ChunkIndexEntry where
  identity : ChunkIdentity
  storageFile : Bytes
  uncompressedSize : UInt64
  storedSize : UInt64
  checksumAlgorithm : ChunkChecksumAlgorithm
  checksumValue : UInt32
  formatVersion : UInt16
deriving DecidableEq, Repr

abbrev ChunkIndex := OrderedMap ChunkIdentity ChunkIndexEntry

namespace ChunkIndex

def formatVersion : UInt16 := 1

def magic : Bytes := [80, 73, 67, 72, 73, 68, 88, 0]

def identitySize : ℕ := 53

def checksumSize : ℕ := 4

def overlaps (a b : ChunkIdentity) : Bool :=
  a.computation = b.computation && a.location.treeLevel = b.location.treeLevel &&
    a.location.start < b.location.stop && b.location.start < a.location.stop

/-- The bytes that a name must not hold. The literal of the source, with a NUL at its end, is read
as a C string, so that the NUL is not one of them. -/
def isPlainFilename (filename : Bytes) : Bool :=
  !filename.isEmpty && !filename.contains 47 && !filename.contains 92

def create : ChunkIndex := ∅

def add (index : ChunkIndex) (entry : ChunkIndexEntry) : Except Error ChunkIndex := do
  entry.identity.validate
  throwIf (isPlainFilename entry.storageFile = false)
    (.invalidArgument "chunk index storage file must be a plain filename")
  throwIf (entry.formatVersion ≠ chunkFormatVersion ∨ entry.checksumAlgorithm ≠ .crc32c)
    (.invalidArgument "unsupported chunk index metadata")
  throwIf (entry.uncompressedSize > maxChunkPayloadBytes ∨ entry.storedSize > maxChunkPayloadBytes)
    (.invalidArgument "chunk index size exceeds limit")
  throwIf (index.contains entry.identity = true) (.invalidArgument "duplicate chunk identity")
  throwIf ((index.entries.any fun existing => overlaps existing.1 entry.identity) = true)
    (.invalidArgument "overlapping chunk ranges")
  pure (index.emplace entry.identity entry)

/-- The entry of a chunk, under the name that its identity gives it. -/
def addMetadata (index : ChunkIndex) (metadata : ChunkMetadata) : Except Error ChunkIndex := do
  let storageFile ← metadata.identity.deterministicFilename
  index.add
    { identity := metadata.identity
      storageFile := storageFile
      uncompressedSize := metadata.uncompressedSize
      storedSize := metadata.storedSize
      checksumAlgorithm := metadata.checksumAlgorithm
      checksumValue := metadata.checksumValue
      formatVersion := metadata.formatVersion }

def remove (index : ChunkIndex) (identity : ChunkIdentity) : ChunkIndex :=
  index.erase identity

def at? (index : ChunkIndex) (identity : ChunkIdentity) : Except Error ChunkIndexEntry :=
  match index.find? identity with
  | some entry => pure entry
  | none => throw (.outOfRange "chunk identity not found")

/-! ## The bytes of an index -/

def identityBytes (identity : ChunkIdentity) : Bytes :=
  appendU8 identity.computation.algorithm.code.toUInt8
    ++ appendU16 identity.computation.arithmeticVersion
    ++ appendU16 identity.computation.formulaVersion
    ++ appendU64 identity.computation.requestedDigits ++ appendU32 identity.computation.guardDigits
    ++ appendU64 identity.computation.workingDigits ++ appendU64 identity.computation.termCount
    ++ appendU32 identity.location.treeLevel ++ appendU64 identity.location.start
    ++ appendU64 identity.location.stop

def entryBytes (entry : ChunkIndexEntry) : Bytes :=
  identityBytes entry.identity ++ appendU32 (UInt32.ofNat entry.storageFile.length)
    ++ entry.storageFile ++ appendU64 entry.uncompressedSize ++ appendU64 entry.storedSize
    ++ appendU16 entry.checksumAlgorithm.code ++ appendU32 entry.checksumValue
    ++ appendU16 entry.formatVersion

/-- The loop over the entries of the map. -/
def serializeEntries : List (ChunkIdentity × ChunkIndexEntry) → Except Error Bytes
  | [] => pure []
  | (_, entry) :: rest => do
      throwIf (entry.storageFile.length > uint32Max.toNat) (.lengthError "chunk filename too long")
      let bytes ← serializeEntries rest
      pure (entryBytes entry ++ bytes)

def serialize (index : ChunkIndex) : Except Error Bytes := do
  throwIf (index.entries.length > uint32Max.toNat) (.lengthError "too many chunk index entries")
  let entries ← serializeEntries index.entries
  let out := magic ++ appendU16 formatVersion ++ appendU32 (UInt32.ofNat index.entries.length)
    ++ entries
  pure (out ++ appendU32 (CRC32C.calculate out 0))

/-! ## Reading an index -/

open Cursor

def truncated : String := "truncated chunk index"

def decodeIdentity (bytes : Bytes) : Cursor ChunkIdentity := do
  require bytes "truncated chunk identity" identitySize
  let algorithm ← next bytes
  let arithmeticVersion ← read16 bytes truncated
  let formulaVersion ← read16 bytes truncated
  let requestedDigits ← read64 bytes truncated
  let guardDigits ← read32 bytes truncated
  let workingDigits ← read64 bytes truncated
  let termCount ← read64 bytes truncated
  let treeLevel ← read32 bytes truncated
  let start ← read64 bytes truncated
  let stop ← read64 bytes truncated
  ChunkIdentity.create
    ⟨⟨algorithm.toUInt16⟩, arithmeticVersion, formulaVersion, requestedDigits, guardDigits,
      workingDigits, termCount⟩ ⟨start, stop, treeLevel⟩

/-- The name of a file; its length is checked against the bytes before the checksum. -/
def decodeFilename (bytes : Bytes) : Cursor Bytes := do
  let length ← read32 bytes truncated
  let left ← remaining bytes
  throwIf (length.toNat > subSize left checksumSize)
    (.invalidArgument "invalid chunk filename length")
  copy bytes length.toNat

def decodeEntry (bytes : Bytes) : Cursor ChunkIndexEntry := do
  let identity ← decodeIdentity bytes
  let filename ← decodeFilename bytes
  let uncompressedSize ← read64 bytes truncated
  let storedSize ← read64 bytes truncated
  let checksumAlgorithm ← read16 bytes truncated
  let checksumValue ← read32 bytes truncated
  let formatVersion ← read16 bytes truncated
  pure ⟨identity, filename, uncompressedSize, storedSize, ⟨checksumAlgorithm⟩, checksumValue,
    formatVersion⟩

def decodeEntries (bytes : Bytes) : ℕ → ChunkIndex → Cursor ChunkIndex
  | 0, result => pure result
  | count + 1, result => do
      let entry ← decodeEntry bytes
      let result ← result.add entry
      decodeEntries bytes count result

/-- The version, the count and the entries. -/
def decodeIndex (bytes : Bytes) : Cursor ChunkIndex := do
  let version ← read16 bytes truncated
  throwIf (version ≠ formatVersion) (.invalidArgument "unsupported chunk index version")
  let count ← read32 bytes truncated
  decodeEntries bytes count.toNat create

def readIndex (bytes : Bytes) : Cursor ChunkIndex := do
  throwIf (bytes.length < magic.length + 2 + 4 + checksumSize) (.invalidArgument truncated)
  let checksumOffset := bytes.length - checksumSize
  throwIf (CRC32C.calculate (bytes.take checksumOffset) 0 ≠ wordU32 (bytes.drop checksumOffset))
    (.invalidArgument "chunk index checksum mismatch")
  throwIf (bytes.take magic.length ≠ magic) (.invalidArgument "invalid chunk index magic")
  set magic.length
  let result ← decodeIndex bytes
  let position ← get
  throwIf (position ≠ checksumOffset) (.invalidArgument "trailing chunk index data")
  pure result

def deserialize (bytes : Bytes) : Except Fault ChunkIndex := do
  let (result, _) ← readIndex bytes 0
  pure result

end ChunkIndex

end GiveMePi.Storage
