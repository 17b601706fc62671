import GiveMePi.Checkpoint.CheckpointStore

/-! # The identity of a chunk and what is recorded about it -/

namespace GiveMePi.Storage

open Checkpoint (ComputationIdentity BlockLocation)

/-- The code of a compression algorithm; a file may hold any 16-bit code. -/
structure CompressionAlgorithm where
  code : UInt16
deriving DecidableEq, Repr

namespace CompressionAlgorithm

def none : CompressionAlgorithm := ⟨0⟩

def lz4 : CompressionAlgorithm := ⟨1⟩

end CompressionAlgorithm

/-- The code of a checksum algorithm; a file may hold any 16-bit code. -/
structure ChunkChecksumAlgorithm where
  code : UInt16
deriving DecidableEq, Repr

def ChunkChecksumAlgorithm.crc32c : ChunkChecksumAlgorithm := ⟨1⟩

def chunkFormatVersion : UInt16 := 1

def maxChunkPayloadBytes : UInt64 := 0x40000000

@[simp] theorem maxChunkPayloadBytes_toNat : maxChunkPayloadBytes.toNat = 2 ^ 30 := rfl

/-! ## Identities -/

structure ChunkIdentity where
  computation : ComputationIdentity
  location : BlockLocation
deriving DecidableEq, Repr

namespace ChunkIdentity

def validate (identity : ChunkIdentity) : Except Error Unit := do
  identity.computation.validate
  identity.location.validate identity.computation

def create (computation : ComputationIdentity) (location : BlockLocation) :
    Except Error ChunkIdentity := do
  let identity : ChunkIdentity := ⟨computation, location⟩
  identity.validate
  pure identity

def chunkFilename (identity : ChunkIdentity) : Bytes :=
  Checkpoint.CheckpointStore.identityFilename "chunk-v" chunkFormatVersion identity.computation
    ++ ascii "-r" ++ decimal identity.location.start.toNat
    ++ ascii "-" ++ decimal identity.location.stop.toNat
    ++ ascii "-l" ++ decimal identity.location.treeLevel.toNat
    ++ ascii ".chunk"

def deterministicFilename (identity : ChunkIdentity) : Except Error Bytes := do
  identity.validate
  pure identity.chunkFilename

/-- Identities are ordered by computation, then by location. -/
instance : LinearOrder ChunkIdentity :=
  LinearOrder.lift' (fun identity => toLex (identity.computation, identity.location))
    (by
      rintro ⟨computation, location⟩ ⟨computation', location'⟩ h
      simpa using h)

/-- An identity that `validate` accepts. -/
structure IsValid (identity : ChunkIdentity) : Prop where
  computation : identity.computation.IsValid
  start_lt : identity.location.start < identity.location.stop
  stop_le : identity.location.stop ≤ identity.computation.termCount

theorem validate_eq_ok {identity : ChunkIdentity} {u : Unit} :
    identity.validate = .ok u ↔ identity.IsValid := by
  simp only [validate, bind_eq_ok, BlockLocation.validate_eq_ok]
  constructor
  · intro h
    obtain ⟨_, hcomputation, hstart, hstop⟩ := h
    exact ⟨hcomputation, hstart, hstop⟩
  · intro h
    exact ⟨(), h.computation, h.start_lt, h.stop_le⟩

instance (identity : ChunkIdentity) : Decidable identity.IsValid :=
  decidable_of_iff (identity.validate = .ok ()) validate_eq_ok

theorem create_eq_ok {computation : ComputationIdentity} {location : BlockLocation}
    {identity : ChunkIdentity} :
    create computation location = .ok identity ↔
      identity = ⟨computation, location⟩ ∧ identity.IsValid := by
  simp only [create, bind_eq_ok, validate_eq_ok, pure_eq_ok, Except.ok.injEq]
  constructor
  · intro h
    obtain ⟨_, hvalid, rfl⟩ := h
    exact ⟨rfl, hvalid⟩
  · intro h
    obtain ⟨rfl, hvalid⟩ := h
    exact ⟨(), hvalid, rfl⟩

end ChunkIdentity

/-! ## Metadata -/

structure ChunkMetadata where
  identity : ChunkIdentity
  uncompressedSize : UInt64
  storedSize : UInt64
  checksumAlgorithm : ChunkChecksumAlgorithm
  checksumValue : UInt32
  compression : CompressionAlgorithm
  formatVersion : UInt16
deriving DecidableEq, Repr

namespace ChunkMetadata

def validate (metadata : ChunkMetadata) : Except Error Unit := do
  metadata.identity.validate
  throwIf (metadata.formatVersion ≠ chunkFormatVersion)
    (.invalidArgument "Unsupported runtime chunk format version")
  throwIf (metadata.uncompressedSize > maxChunkPayloadBytes ∨
      metadata.storedSize > maxChunkPayloadBytes)
    (.invalidArgument "Runtime chunk size exceeds the limit")
  throwIf (metadata.checksumAlgorithm ≠ .crc32c)
    (.invalidArgument "Unsupported runtime chunk checksum algorithm")
  throwIf (metadata.compression ≠ .none ∧ metadata.compression ≠ .lz4)
    (.invalidArgument "Runtime chunk compression is not implemented")

def create (identity : ChunkIdentity) (uncompressedSize storedSize : UInt64)
    (checksumAlgorithm : ChunkChecksumAlgorithm) (checksumValue : UInt32)
    (compression : CompressionAlgorithm) (formatVersion : UInt16) :
    Except Error ChunkMetadata := do
  let metadata : ChunkMetadata :=
    ⟨identity, uncompressedSize, storedSize, checksumAlgorithm, checksumValue, compression,
      formatVersion⟩
  metadata.validate
  pure metadata

/-- Metadata that `validate` accepts. -/
structure IsValid (metadata : ChunkMetadata) : Prop where
  identity : metadata.identity.IsValid
  version : metadata.formatVersion = chunkFormatVersion
  uncompressed_le : metadata.uncompressedSize ≤ maxChunkPayloadBytes
  stored_le : metadata.storedSize ≤ maxChunkPayloadBytes
  crc32c : metadata.checksumAlgorithm = .crc32c
  compression : metadata.compression = .none ∨ metadata.compression = .lz4

theorem validate_eq_ok {metadata : ChunkMetadata} {u : Unit} :
    metadata.validate = .ok u ↔ metadata.IsValid := by
  simp only [validate, bind_eq_ok, ChunkIdentity.validate_eq_ok, throwIf_eq_ok, not_or, not_not,
    not_and_or, gt_iff_lt, not_lt]
  constructor
  · intro h
    obtain ⟨_, hidentity, _, hversion, _, ⟨huncompressed, hstored⟩, _, hcrc, hcompression⟩ := h
    exact ⟨hidentity, hversion, huncompressed, hstored, hcrc, hcompression⟩
  · intro h
    exact ⟨(), h.identity, (), h.version, (), ⟨h.uncompressed_le, h.stored_le⟩, (), h.crc32c,
      h.compression⟩

theorem create_eq_ok {identity : ChunkIdentity} {uncompressedSize storedSize : UInt64}
    {checksumAlgorithm : ChunkChecksumAlgorithm} {checksumValue : UInt32}
    {compression : CompressionAlgorithm} {formatVersion : UInt16} {metadata : ChunkMetadata} :
    create identity uncompressedSize storedSize checksumAlgorithm checksumValue compression
        formatVersion = .ok metadata ↔
      metadata = ⟨identity, uncompressedSize, storedSize, checksumAlgorithm, checksumValue,
        compression, formatVersion⟩ ∧ metadata.IsValid := by
  simp only [create, bind_eq_ok, validate_eq_ok, pure_eq_ok, Except.ok.injEq]
  constructor
  · intro h
    obtain ⟨_, hvalid, rfl⟩ := h
    exact ⟨rfl, hvalid⟩
  · intro h
    obtain ⟨rfl, hvalid⟩ := h
    exact ⟨(), hvalid, rfl⟩

end ChunkMetadata

end GiveMePi.Storage
