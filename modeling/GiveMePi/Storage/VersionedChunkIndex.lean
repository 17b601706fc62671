import GiveMePi.Library.SortedMultimap
import GiveMePi.LittleEndian
import GiveMePi.Storage.ChunkTypes

/-! # The index of the versions of chunks

All versions of each chunk in the order of their timestamps, and the bytes they are saved as. -/

namespace GiveMePi.Storage

open Library (OrderedMap SortBy)
open Cursor
open WordCode (little16 little32 little64)

structure ChunkVersionEntry where
  formatVersion : UInt16
  checksumValue : UInt32
  storedSize : UInt64
  timestampNs : UInt64
deriving DecidableEq, Repr

abbrev VersionedChunkIndex := OrderedMap ChunkIdentity (List ChunkVersionEntry)

/-- `std::sort` by the timestamp. -/
abbrev TimestampSort := SortBy ChunkVersionEntry.timestampNs

namespace VersionedChunkIndex

def create : VersionedChunkIndex := ∅

def addVersion (sorting : TimestampSort) (index : VersionedChunkIndex) (identity : ChunkIdentity)
    (formatVersion : UInt16) (checksumValue : UInt32) (storedSize timestampNs : UInt64) :
    VersionedChunkIndex :=
  index.addSorted sorting identity ⟨formatVersion, checksumValue, storedSize, timestampNs⟩

def getAllVersions (index : VersionedChunkIndex) (identity : ChunkIdentity) :
    List ChunkVersionEntry :=
  index.values identity

def getVersionCount (index : VersionedChunkIndex) (identity : ChunkIdentity) : ℕ :=
  (index.getAllVersions identity).length

def getAllIdentities (index : VersionedChunkIndex) : List ChunkIdentity :=
  index.entries.map Prod.fst

def identityCount (index : VersionedChunkIndex) : ℕ :=
  index.entries.length

def totalVersionCount (index : VersionedChunkIndex) : ℕ :=
  (index.entries.map fun entry => entry.2.length).sum

/-! ## The bytes of an index -/

def magicNumber : Bytes := [0x56, 0x43, 0x49]

def version : UInt8 := 1

def identitySize : ℕ := 53

/-- `algorithm(1), arithmetic(2), formula(2), requested(8), guard(4), working(8), terms(8),
level(4), start(8), end(8) = 53 bytes` -/
def identityBytes (identity : ChunkIdentity) : Bytes :=
  [identity.computation.algorithm.code.toUInt8]
    ++ little16.write identity.computation.arithmeticVersion
    ++ little16.write identity.computation.formulaVersion
    ++ little64.write identity.computation.requestedDigits
    ++ little32.write identity.computation.guardDigits
    ++ little64.write identity.computation.workingDigits
    ++ little64.write identity.computation.termCount
    ++ little32.write identity.location.treeLevel ++ little64.write identity.location.start
    ++ little64.write identity.location.stop

def versionBytes (entry : ChunkVersionEntry) : Bytes :=
  little16.write entry.formatVersion ++ little32.write entry.checksumValue
    ++ little64.write entry.storedSize ++ little64.write entry.timestampNs

/-- An identity and its versions; two bytes are written of their number. -/
def recordBytes (identity : ChunkIdentity) (versions : List ChunkVersionEntry) : Bytes :=
  little32.write (UInt32.ofNat identitySize) ++ identityBytes identity
    ++ little16.write (UInt16.ofNat versions.length) ++ versions.flatMap versionBytes

def headerBytes (identityCount totalVersions : UInt32) : Bytes :=
  magicNumber ++ [version] ++ little32.write identityCount ++ little32.write totalVersions

def serialize (index : VersionedChunkIndex) : Bytes :=
  headerBytes (UInt32.ofNat index.getAllIdentities.length) (UInt32.ofNat index.totalVersionCount)
    ++ index.getAllIdentities.flatMap fun identity =>
      recordBytes identity (index.getAllVersions identity)

/-! ## Reading an index -/

def invalidIndex (what : String) : Error :=
  .invalidArgument ("VersionedChunkIndex: " ++ what)

def decodeIdentity (bytes : Bytes) : Cursor ChunkIdentity := do
  let algorithm ← next bytes
  let arithmeticVersion ← little16.copy bytes
  let formulaVersion ← little16.copy bytes
  let requestedDigits ← little64.copy bytes
  let guardDigits ← little32.copy bytes
  let workingDigits ← little64.copy bytes
  let termCount ← little64.copy bytes
  let treeLevel ← little32.copy bytes
  let start ← little64.copy bytes
  let stop ← little64.copy bytes
  pure ⟨⟨⟨algorithm.toUInt16⟩, arithmeticVersion, formulaVersion, requestedDigits, guardDigits,
    workingDigits, termCount⟩, ⟨start, stop, treeLevel⟩⟩

def readIdentity (bytes : Bytes) : Cursor ChunkIdentity := do
  let length ← little32.readChecked bytes
    "VersionedChunkIndex: insufficient data for identity bytes length"
  throwIf (length.toNat ≠ identitySize)
    (invalidIndex ("unexpected identity bytes length " ++ toString length.toNat))
  require bytes "VersionedChunkIndex: insufficient data for identity bytes" identitySize
  let identity ← decodeIdentity bytes
  identity.validate
  pure identity

def readVersion (bytes : Bytes) : Cursor ChunkVersionEntry := do
  let formatVersion ← little16.readChecked bytes
    "VersionedChunkIndex: insufficient data for format version"
  let checksumValue ← little32.readChecked bytes
    "VersionedChunkIndex: insufficient data for checksum value"
  let storedSize ← little64.readChecked bytes
    "VersionedChunkIndex: insufficient data for stored size"
  let timestampNs ← little64.readChecked bytes
    "VersionedChunkIndex: insufficient data for timestamp"
  pure ⟨formatVersion, checksumValue, storedSize, timestampNs⟩

variable (sorting : TimestampSort)

/-- The loop over the versions of an identity. -/
def readVersions (bytes : Bytes) (identity : ChunkIdentity) :
    ℕ → VersionedChunkIndex → Cursor VersionedChunkIndex
  | 0, index => pure index
  | count + 1, index => do
      let entry ← readVersion bytes
      readVersions bytes identity count
        (addVersion sorting index identity entry.formatVersion entry.checksumValue
          entry.storedSize entry.timestampNs)

/-- The loop over the identities. -/
def readIdentities (bytes : Bytes) : ℕ → VersionedChunkIndex → Cursor VersionedChunkIndex
  | 0, index => pure index
  | count + 1, index => do
      let identity ← readIdentity bytes
      let versionCount ← little16.readChecked bytes
        "VersionedChunkIndex: insufficient data for version count"
      let index ← readVersions sorting bytes identity versionCount.toNat index
      readIdentities bytes count index

/-- The number of identities. The total number of versions is skipped, and the first check leaves
out its last byte. -/
def readHeader (bytes : Bytes) : Cursor UInt32 := do
  throwIf (bytes.length < 11) (invalidIndex "insufficient data for magic number")
  let magic ← copy bytes 3
  throwIf (magic ≠ magicNumber)
    (invalidIndex ("invalid magic number " ++
      " ".intercalate (magic.map fun byte => toString byte.toNat)))
  let formatVersion ← next bytes
  throwIf (formatVersion ≠ version)
    (invalidIndex ("unsupported format version " ++ toString formatVersion.toNat))
  let identityCount ← little32.copy bytes
  let _ ← copy bytes 4
  pure identityCount

def deserializeInternal (bytes : Bytes) : Cursor VersionedChunkIndex := do
  let identityCount ← readHeader bytes
  let index ← readIdentities sorting bytes identityCount.toNat create
  let offset ← get
  throwIf (offset ≠ bytes.length)
    (invalidIndex ("incomplete data (expected " ++ toString bytes.length ++ " bytes, read " ++
      toString offset ++ " bytes)"))
  pure index

def deserialize (bytes : Bytes) : Except Fault VersionedChunkIndex := do
  let (index, _) ← deserializeInternal sorting bytes 0
  pure index

end VersionedChunkIndex

end GiveMePi.Storage
