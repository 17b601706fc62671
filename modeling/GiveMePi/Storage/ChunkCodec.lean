import GiveMePi.ByteCursor
import GiveMePi.Storage.CompressionCodec

/-! # The bytes of a chunk

A header of 132 bytes, with a checksum over everything but its own four bytes, and the magnitudes of
`P`, `Q` and `T`, compressed or not. -/

namespace GiveMePi.Storage

open Checkpoint (IntegerSign GMPSerialization.SerializedGMPInteger GMPSerialization.encode
  GMPSerialization.decode ComputationIdentity BlockLocation CRC32C.calculateZeroed storeU32
  CheckpointBlockCodec.readIdentity)

structure Chunk where
  metadata : ChunkMetadata
  p : ℤ
  q : ℤ
  t : ℤ
deriving DecidableEq, Repr

namespace ChunkCodec

def formatVersion : UInt16 := chunkFormatVersion

def version1HeaderSize : UInt16 := 132

def chunkMagic : Bytes := [71, 77, 80, 73, 67, 72, 78, 75]

def checksumOffset : ℕ := 128

def checksumSize : UInt16 := 4

def checkedSize (value : UInt64) : Except Error ℕ := do
  throwIf (value > maxChunkPayloadBytes) (.lengthError "Chunk payload length is too large")
  pure value.toNat

def checkedAdd (left right : ℕ) : Except Error ℕ := do
  throwIf (right > uint64Max.toNat - left) (.overflowError "Chunk payload size overflow")
  pure (left + right)

def calculateChecksum (bytes : Bytes) : Except Error UInt32 := do
  throwIf (bytes.length < version1HeaderSize.toNat)
    (.invalidArgument "Truncated chunk checksum input")
  pure (CRC32C.calculateZeroed checksumOffset bytes)

def canonicalPayload (p q t : GMPSerialization.SerializedGMPInteger) : Except Error Bytes := do
  let size ← checkedAdd p.magnitude.length q.magnitude.length
  let _ ← checkedAdd size t.magnitude.length
  pure (p.magnitude ++ q.magnitude ++ t.magnitude)

/-- The header as it is appended, with a zero in the checksum's place. -/
def headerBytes (metadata : ChunkMetadata) (p q t : GMPSerialization.SerializedGMPInteger) :
    Bytes :=
  chunkMagic ++ appendU16 metadata.formatVersion ++ appendU16 version1HeaderSize ++ appendU32 0
    ++ appendU16 metadata.identity.computation.algorithm.code
    ++ appendU16 metadata.identity.computation.arithmeticVersion
    ++ appendU16 metadata.identity.computation.formulaVersion ++ appendU16 0
    ++ appendU64 metadata.identity.computation.requestedDigits
    ++ appendU32 metadata.identity.computation.guardDigits ++ appendU32 0
    ++ appendU64 metadata.identity.computation.workingDigits
    ++ appendU64 metadata.identity.computation.termCount
    ++ appendU64 metadata.identity.location.start ++ appendU64 metadata.identity.location.stop
    ++ appendU32 metadata.identity.location.treeLevel ++ appendU16 metadata.compression.code
    ++ appendU16 metadata.checksumAlgorithm.code ++ appendU16 checksumSize ++ appendU16 0
    ++ appendU64 metadata.uncompressedSize ++ appendU64 metadata.storedSize
    ++ appendU8 p.sign.code ++ appendU8 q.sign.code ++ appendU8 t.sign.code ++ appendU8 0
    ++ appendU64 (UInt64.ofNat p.magnitude.length) ++ appendU64 (UInt64.ofNat q.magnitude.length)
    ++ appendU64 (UInt64.ofNat t.magnitude.length) ++ appendU32 0

def makeHeader (metadata : ChunkMetadata) (p q t : GMPSerialization.SerializedGMPInteger) :
    Except Error Bytes := do
  let header := headerBytes metadata p q t
  throwIf (header.length ≠ version1HeaderSize.toNat)
    (.logicError "Chunk header size invariant failed")
  pure header

variable (lz4 : Lz4)

def createMetadata (identity : ChunkIdentity) (p q t : ℤ) (compression : CompressionAlgorithm) :
    Except Error ChunkMetadata := do
  let serializedP ← GMPSerialization.encode p
  let serializedQ ← GMPSerialization.encode q
  let serializedT ← GMPSerialization.encode t
  let payload ← canonicalPayload serializedP serializedQ serializedT
  let stored ← CompressionCodec.compress lz4 compression payload maxChunkPayloadBytes
  let metadata ← ChunkMetadata.create identity (UInt64.ofNat payload.length)
    (UInt64.ofNat stored.length) .crc32c 0 compression chunkFormatVersion
  let header ← makeHeader metadata serializedP serializedQ serializedT
  let checksumValue ← calculateChecksum (header ++ stored)
  pure { metadata with checksumValue := checksumValue }

/-! ## Encoding -/

/-- A computation that may write outside of its buffer. -/
def thrown {α : Type} (x : Except Error α) : Except Fault α :=
  x.mapError .thrown

/-- The payload written behind the header, into a buffer of `storedSize` bytes. Without compression
it is copied, whatever the size of the buffer. -/
def writePayload (metadata : ChunkMetadata) (p q t : GMPSerialization.SerializedGMPInteger) :
    Except Fault Bytes :=
  if metadata.compression = .none then
    if metadata.storedSize.toNat < p.magnitude.length + q.magnitude.length + t.magnitude.length then
      throw .outOfBounds
    else pure (p.magnitude ++ q.magnitude ++ t.magnitude)
  else thrown do
    let payload ← canonicalPayload p q t
    CompressionCodec.compressInto lz4 metadata.compression payload metadata.storedSize.toNat

/-- The output once the payload is in it. -/
def finish (metadata : ChunkMetadata) (header written : Bytes) : Except Error Bytes := do
  throwIf (written.length ≠ metadata.storedSize.toNat)
    (.invalidArgument "Chunk stored size metadata does not match payload")
  let output := header ++ written
  let checksum ← calculateChecksum output
  throwIf (metadata.checksumValue ≠ checksum)
    (.invalidArgument "Chunk checksum metadata does not match payload")
  pure (storeU32 output checksumOffset checksum)

def encode (chunk : Chunk) : Except Fault Bytes := do
  thrown chunk.metadata.validate
  let serializedP ← thrown (GMPSerialization.encode chunk.p)
  let serializedQ ← thrown (GMPSerialization.encode chunk.q)
  let serializedT ← thrown (GMPSerialization.encode chunk.t)
  let payloadSize := serializedP.magnitude.length + serializedQ.magnitude.length +
    serializedT.magnitude.length
  thrown (throwIf (chunk.metadata.uncompressedSize.toNat ≠ payloadSize)
    (.invalidArgument "Chunk uncompressed size metadata does not match payload"))
  let header ← thrown (makeHeader chunk.metadata serializedP serializedQ serializedT)
  let written ← writePayload lz4 chunk.metadata serializedP serializedQ serializedT
  thrown (finish chunk.metadata header written)

/-! ## Decoding -/

def truncated : String := "Truncated runtime chunk"

def nonZeroReserved : String := "Non-zero runtime chunk reserved field"

open Reader

def readLocation (computation : ComputationIdentity) : Reader BlockLocation := do
  let start ← readU64 truncated
  let stop ← readU64 truncated
  let treeLevel ← readU32 truncated
  let location : BlockLocation := ⟨start, stop, treeLevel⟩
  location.validate computation
  pure location

def readAlgorithms : Reader (CompressionAlgorithm × ChunkChecksumAlgorithm) := do
  let compression ← readU16 truncated
  let checksumAlgorithm ← readU16 truncated
  let checksumLength ← readU16 truncated
  throwIf (checksumLength ≠ checksumSize)
    (.invalidArgument "Invalid runtime chunk checksum metadata")
  let reserved ← readU16 truncated
  throwIf (reserved ≠ 0) (.invalidArgument "Invalid runtime chunk checksum metadata")
  pure (⟨compression⟩, ⟨checksumAlgorithm⟩)

def readSigns : Reader (IntegerSign × IntegerSign × IntegerSign) := do
  let pSign ← readU8 truncated
  let qSign ← readU8 truncated
  let tSign ← readU8 truncated
  let reserved ← readU8 truncated
  throwIf (reserved ≠ 0) (.invalidArgument nonZeroReserved)
  pure (⟨pSign⟩, ⟨qSign⟩, ⟨tSign⟩)

def readLength : Reader ℕ := do
  let length ← readU64 truncated
  checkedSize length

def readHeader : Reader (ChunkMetadata × (IntegerSign × IntegerSign × IntegerSign) × ℕ × ℕ × ℕ) := do
  let magic ← take truncated chunkMagic.length
  throwIf (magic ≠ chunkMagic) (.invalidArgument "Invalid runtime chunk magic")
  let version ← readU16 truncated
  throwIf (version ≠ formatVersion) (.invalidArgument "Unsupported runtime chunk version")
  let headerSize ← readU16 truncated
  throwIf (headerSize ≠ version1HeaderSize) (.invalidArgument "Unsupported runtime chunk version")
  let flags ← readU32 truncated
  throwIf (flags ≠ 0) (.invalidArgument "Unsupported runtime chunk flags")
  let computation ← CheckpointBlockCodec.readIdentity truncated nonZeroReserved
  let location ← readLocation computation
  let (compression, checksumAlgorithm) ← readAlgorithms
  let uncompressedSize ← readU64 truncated
  let storedSize ← readU64 truncated
  let signs ← readSigns
  let pLength ← readLength
  let qLength ← readLength
  let tLength ← readLength
  let checksumValue ← readU32 truncated
  let identity ← ChunkIdentity.create computation location
  let metadata ← ChunkMetadata.create identity uncompressedSize storedSize checksumAlgorithm
    checksumValue compression chunkFormatVersion
  pure (metadata, signs, pLength, qLength, tLength)

/-- The integers in the payload. -/
def decodePayload (metadata : ChunkMetadata) (signs : IntegerSign × IntegerSign × IntegerSign)
    (pLength qLength tLength : ℕ) (payload : Bytes) : Except Error Chunk := do
  let size ← checkedAdd pLength qLength
  let payloadLength ← checkedAdd size tLength
  throwIf (payloadLength ≠ payload.length)
    (.invalidArgument "Runtime chunk payload lengths mismatch")
  let p ← GMPSerialization.decode signs.1 (payload.take pLength)
  let q ← GMPSerialization.decode signs.2.1 ((payload.drop pLength).take qLength)
  let t ← GMPSerialization.decode signs.2.2 ((payload.drop (pLength + qLength)).take tLength)
  pure ⟨metadata, p, q, t⟩

def readChunk (bytes : Bytes) : Reader Chunk := do
  let (metadata, signs, pLength, qLength, tLength) ← readHeader
  let calculatedChecksum ← calculateChecksum bytes
  let remaining ← get
  throwIf (metadata.storedSize.toNat ≠ remaining.length ∨
      metadata.checksumValue ≠ calculatedChecksum)
    (.invalidArgument "Runtime chunk checksum or size mismatch")
  let stored ← take truncated remaining.length
  let payload ← CompressionCodec.decompress lz4 metadata.compression stored
    metadata.uncompressedSize maxChunkPayloadBytes
  decodePayload metadata signs pLength qLength tLength payload

def decode (bytes : Bytes) : Except Error Chunk := do
  let (chunk, _) ← readChunk lz4 bytes bytes
  pure chunk

end ChunkCodec

end GiveMePi.Storage
