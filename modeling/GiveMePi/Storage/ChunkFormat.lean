import GiveMePi.Checkpoint.BlockFormat
import GiveMePi.Storage.ChunkCodec

/-! # The chunk format is exact

Which byte strings decode to a chunk, and which chunks encode to a byte string, in terms of one
description of the bytes. -/

namespace GiveMePi.Storage.ChunkCodec

open Checkpoint (IntegerSign ComputationIdentity BlockLocation BlockLocation.validate_eq_ok
  GMPSerialization.SerializedGMPInteger GMPSerialization.sign GMPSerialization.magnitude
  GMPSerialization.encode GMPSerialization.encode_eq_ok_iff GMPSerialization.decode_eq_ok_iff
  GMPSerialization.size_le_of_length_le CRC32C.calculateZeroed CRC32C.calculateZeroed_slot storeU32
  CheckpointBlockCodec.identityBytes CheckpointBlockCodec.locationBytes
  CheckpointBlockCodec.length_identityBytes CheckpointBlockCodec.length_locationBytes
  CheckpointBlockCodec.payloadBytes
  CheckpointBlockCodec.readIdentity_eq_ok CheckpointBlockCodec.storeU32_append)

abbrev Signs := IntegerSign × IntegerSign × IntegerSign

abbrev Lengths := ℕ × ℕ × ℕ

/-! ## The bytes of a chunk -/

/-- The bytes of a chunk before its checksum. -/
def beforeChecksum (metadata : ChunkMetadata) (signs : Signs) (lengths : Lengths) : Bytes :=
  chunkMagic ++ appendU16 formatVersion ++ appendU16 version1HeaderSize ++ appendU32 0
    ++ CheckpointBlockCodec.identityBytes metadata.identity.computation
    ++ CheckpointBlockCodec.locationBytes metadata.identity.location
    ++ appendU16 metadata.compression.code ++ appendU16 metadata.checksumAlgorithm.code
    ++ appendU16 checksumSize ++ appendU16 0 ++ appendU64 metadata.uncompressedSize
    ++ appendU64 metadata.storedSize ++ appendU8 signs.1.code ++ appendU8 signs.2.1.code
    ++ appendU8 signs.2.2.code ++ appendU8 0 ++ appendU64 (UInt64.ofNat lengths.1)
    ++ appendU64 (UInt64.ofNat lengths.2.1) ++ appendU64 (UInt64.ofNat lengths.2.2)

@[simp] theorem length_beforeChecksum (metadata : ChunkMetadata) (signs : Signs)
    (lengths : Lengths) : (beforeChecksum metadata signs lengths).length = checksumOffset := by
  unfold beforeChecksum
  simp only [List.length_append, length_appendU8, length_appendU16, length_appendU32,
    length_appendU64, CheckpointBlockCodec.length_identityBytes,
    CheckpointBlockCodec.length_locationBytes]
  rfl

def signsOf (chunk : Chunk) : Signs :=
  (GMPSerialization.sign chunk.p, GMPSerialization.sign chunk.q, GMPSerialization.sign chunk.t)

def lengthsOf (chunk : Chunk) : Lengths :=
  ((GMPSerialization.magnitude chunk.p).length, (GMPSerialization.magnitude chunk.q).length,
    (GMPSerialization.magnitude chunk.t).length)

def payloadOf (chunk : Chunk) : Bytes :=
  CheckpointBlockCodec.payloadBytes chunk.p chunk.q chunk.t

theorem length_payloadOf (chunk : Chunk) :
    (payloadOf chunk).length =
      (lengthsOf chunk).1 + (lengthsOf chunk).2.1 + (lengthsOf chunk).2.2 := by
  simp only [payloadOf, CheckpointBlockCodec.payloadBytes, lengthsOf, List.length_append]

/-- The checksum of a chunk with the stored bytes. -/
def checksumOf (chunk : Chunk) (stored : Bytes) : UInt32 :=
  CRC32C.calculateZeroed checksumOffset
    (beforeChecksum chunk.metadata (signsOf chunk) (lengthsOf chunk) ++ appendU32 0 ++ stored)

/-- The bytes of a chunk with the stored bytes. -/
def chunkBytes (chunk : Chunk) (stored : Bytes) : Bytes :=
  beforeChecksum chunk.metadata (signsOf chunk) (lengthsOf chunk) ++
    appendU32 (checksumOf chunk stored) ++ stored

/-- The checksum of a chunk does not depend on what stands in the checksum's place. -/
theorem calculateChecksum_eq (metadata : ChunkMetadata) (signs : Signs) (lengths : Lengths)
    (stored : Bytes) {slot : Bytes} (hslot : slot.length = 4) :
    calculateChecksum (beforeChecksum metadata signs lengths ++ slot ++ stored) =
      .ok (CRC32C.calculateZeroed checksumOffset
        (beforeChecksum metadata signs lengths ++ appendU32 0 ++ stored)) := by
  have hlength : ¬ (beforeChecksum metadata signs lengths ++ slot ++ stored).length <
      version1HeaderSize.toNat := by
    have hsize : version1HeaderSize.toNat = 132 := rfl
    simp only [List.length_append, length_beforeChecksum, hslot, checksumOffset, hsize]
    omega
  rw [calculateChecksum, throwIf_neg hlength, ok_bind, pure_eq_ok,
    CRC32C.calculateZeroed_slot (length_beforeChecksum _ _ _) hslot (length_appendU32 0)]

/-! ## Decoding -/

theorem checkedSize_eq_ok {value : UInt64} {n : ℕ} :
    checkedSize value = .ok n ↔ n = value.toNat ∧ n ≤ 2 ^ 30 := by
  simp only [checkedSize, GiveMePi.bind_eq_ok, throwIf_eq_ok, GiveMePi.pure_eq_ok, Except.ok.injEq,
    gt_iff_lt, UInt64.not_lt, UInt64.le_iff_toNat_le, maxChunkPayloadBytes_toNat]
  constructor
  · intro h
    obtain ⟨_, hle, rfl⟩ := h
    exact ⟨rfl, hle⟩
  · intro h
    obtain ⟨rfl, hle⟩ := h
    exact ⟨(), hle, rfl⟩

theorem readLocation_eq_ok {computation : ComputationIdentity} {bytes rest : Bytes}
    {location : BlockLocation} :
    readLocation computation bytes = .ok (location, rest) ↔
      bytes = CheckpointBlockCodec.locationBytes location ++ rest ∧
        location.start < location.stop ∧ location.stop ≤ computation.termCount := by
  simp only [readLocation, Reader.bind_eq_ok, Reader.readU32_eq_ok, Reader.readU64_eq_ok,
    Reader.liftM_eq_ok, Reader.pure_eq_ok, BlockLocation.validate_eq_ok]
  constructor
  · intro h
    obtain ⟨start, _, rfl, stop, _, rfl, level, _, rfl, _, _, ⟨hbounds, rfl⟩, rfl, rfl⟩ := h
    exact ⟨by simp only [CheckpointBlockCodec.locationBytes, List.append_assoc], hbounds⟩
  · intro h
    obtain ⟨rfl, hbounds⟩ := h
    exact ⟨_, _, by simp only [CheckpointBlockCodec.locationBytes, List.append_assoc], _, _, rfl, _, _,
      rfl, (), _, ⟨hbounds, rfl⟩, rfl, rfl⟩

theorem readAlgorithms_eq_ok {bytes rest : Bytes} {compression : CompressionAlgorithm}
    {algorithm : ChunkChecksumAlgorithm} :
    readAlgorithms bytes = .ok ((compression, algorithm), rest) ↔
      bytes = appendU16 compression.code ++ (appendU16 algorithm.code ++
        (appendU16 checksumSize ++ (appendU16 0 ++ rest))) := by
  simp only [readAlgorithms, ↓Reader.throwIf_bind_eq_ok, Reader.bind_eq_ok, Reader.readU16_eq_ok,
    Reader.pure_eq_ok, Prod.mk.injEq, not_not]
  constructor
  · intro h
    obtain ⟨_, _, rfl, _, _, rfl, _, _, rfl, rfl, _, _, rfl, rfl, ⟨rfl, rfl⟩, rfl⟩ := h
    rfl
  · intro h
    exact ⟨_, _, h, _, _, rfl, _, _, rfl, rfl, _, _, rfl, rfl, ⟨rfl, rfl⟩, rfl⟩

theorem readSigns_eq_ok {bytes rest : Bytes} {signs : Signs} :
    readSigns bytes = .ok (signs, rest) ↔
      bytes = appendU8 signs.1.code ++ (appendU8 signs.2.1.code ++
        (appendU8 signs.2.2.code ++ (appendU8 0 ++ rest))) := by
  obtain ⟨pSign, qSign, tSign⟩ := signs
  simp only [readSigns, ↓Reader.throwIf_bind_eq_ok, Reader.bind_eq_ok, Reader.readU8_eq_ok,
    Reader.pure_eq_ok, Prod.mk.injEq, not_not]
  constructor
  · intro h
    obtain ⟨_, _, rfl, _, _, rfl, _, _, rfl, _, _, rfl, rfl, ⟨rfl, rfl, rfl⟩, rfl⟩ := h
    rfl
  · intro h
    exact ⟨_, _, h, _, _, rfl, _, _, rfl, _, _, rfl, rfl, ⟨rfl, rfl, rfl⟩, rfl⟩

theorem readLength_eq_ok {bytes rest : Bytes} {length : ℕ} :
    readLength bytes = .ok (length, rest) ↔
      bytes = appendU64 (UInt64.ofNat length) ++ rest ∧ length ≤ 2 ^ 30 := by
  simp only [readLength, Reader.bind_eq_ok, Reader.readU64_eq_ok, Reader.liftM_eq_ok,
    checkedSize_eq_ok]
  constructor
  · intro h
    obtain ⟨word, _, rfl, ⟨rfl, hle⟩, rfl⟩ := h
    exact ⟨by rw [UInt64.ofNat_toNat], hle⟩
  · intro h
    obtain ⟨rfl, hle⟩ := h
    have hword : length = (UInt64.ofNat length).toNat :=
      (UInt64.toNat_ofNat_of_lt (hle.trans_lt (by decide))).symm
    exact ⟨_, _, rfl, ⟨hword, hle⟩, rfl⟩

/-- The lengths that decoding accepts. -/
def AreLengths (lengths : Lengths) : Prop :=
  lengths.1 ≤ 2 ^ 30 ∧ lengths.2.1 ≤ 2 ^ 30 ∧ lengths.2.2 ≤ 2 ^ 30

theorem readHeader_eq_ok {bytes rest : Bytes} {metadata : ChunkMetadata} (signs : Signs)
    (lengths : Lengths) :
    readHeader bytes = .ok ((metadata, signs, lengths), rest) ↔
      bytes = beforeChecksum metadata signs lengths ++ (appendU32 metadata.checksumValue ++ rest) ∧
        metadata.IsValid ∧ AreLengths lengths := by
  obtain ⟨pLength, qLength, tLength⟩ := lengths
  simp only [readHeader, ↓Reader.throwIf_bind_eq_ok, Reader.bind_eq_ok, Prod.exists,
    Reader.take_eq_ok, Reader.readU16_eq_ok, Reader.readU32_eq_ok, Reader.readU64_eq_ok,
    Reader.liftM_eq_ok, Reader.pure_eq_ok, CheckpointBlockCodec.readIdentity_eq_ok,
    readLocation_eq_ok, readAlgorithms_eq_ok, readSigns_eq_ok, readLength_eq_ok,
    ChunkIdentity.create_eq_ok, ChunkMetadata.create_eq_ok, not_not]
  constructor
  · intro h
    obtain ⟨_, _, ⟨h₁, _⟩, hmagic, _, _, h₂, hversion, _, _, h₃, hsize, _, _, h₄, hflags, h⟩ := h
    subst hmagic hversion hsize hflags
    obtain ⟨computation, _, ⟨h₅, _⟩, location, _, ⟨h₆, _⟩, compression, algorithm, _, h₇,
      uncompressed, _, h₈, stored, _, h₉, h⟩ := h
    obtain ⟨pSign, qSign, tSign, _, h₁₀, pLength', _, ⟨h₁₁, hp⟩, qLength', _, ⟨h₁₂, hq⟩, tLength', _,
      ⟨h₁₃, ht⟩, checksum, _, h₁₄, h⟩ := h
    obtain ⟨_, _, ⟨⟨rfl, _⟩, rfl⟩, found, _, ⟨⟨rfl, hvalid⟩, rfl⟩, heq, rfl⟩ := h
    simp only [Prod.mk.injEq] at heq
    obtain ⟨rfl, rfl, rfl, rfl, rfl⟩ := heq
    refine ⟨?_, hvalid, hp, hq, ht⟩
    rw [h₁, h₂, h₃, h₄, h₅, h₆, h₇, h₈, h₉, h₁₀, h₁₁, h₁₂, h₁₃, h₁₄]
    unfold beforeChecksum
    simp only [List.append_assoc]
  · intro h
    obtain ⟨hbytes, hvalid, hp, hq, ht⟩ := h
    unfold beforeChecksum at hbytes
    simp only [List.append_assoc] at hbytes
    obtain ⟨pSign, qSign, tSign⟩ := signs
    have hversion := hvalid.version
    obtain ⟨⟨computation, location⟩, uncompressed, stored, algorithm, checksum, compression,
      version⟩ := metadata
    dsimp only at hversion
    subst hversion
    exact ⟨_, _, ⟨hbytes, rfl⟩, rfl, _, _, rfl, rfl, _, _, rfl, rfl, _, _, rfl, rfl, computation, _, ⟨rfl, hvalid.identity.computation⟩, location, _,
      ⟨rfl, hvalid.identity.start_lt, hvalid.identity.stop_le⟩, compression, algorithm, _, rfl, _, _,
      rfl, _, _, rfl, pSign, qSign, tSign, _, rfl, pLength, _, ⟨rfl, hp⟩, qLength, _, ⟨rfl, hq⟩,
      tLength, _, ⟨rfl, ht⟩, _, _, rfl, _, _, ⟨⟨rfl, hvalid.identity⟩, rfl⟩, _, _,
      ⟨⟨rfl, hvalid⟩, rfl⟩, rfl, rfl⟩

theorem checkedAdd_eq_ok {left right sum : ℕ} :
    checkedAdd left right = .ok sum ↔ right ≤ 2 ^ 64 - 1 - left ∧ sum = left + right := by
  simp only [checkedAdd, GiveMePi.bind_eq_ok, throwIf_eq_ok, GiveMePi.pure_eq_ok, Except.ok.injEq,
    uint64Max_toNat, gt_iff_lt, not_lt]
  constructor
  · intro h
    obtain ⟨_, hle, rfl⟩ := h
    exact ⟨hle, rfl⟩
  · intro h
    exact ⟨(), h.1, h.2.symm⟩

/-- The payload of integers is cut where their lengths say. -/
theorem decodePayload_eq_ok {metadata : ChunkMetadata} {signs : Signs} (lengths : Lengths)
    {payload : Bytes} {chunk : Chunk} (hlengths : AreLengths lengths) :
    decodePayload metadata signs lengths.1 lengths.2.1 lengths.2.2 payload = .ok chunk ↔
      chunk.metadata = metadata ∧ signs = signsOf chunk ∧ lengths = lengthsOf chunk ∧
        payload = payloadOf chunk := by
  obtain ⟨pLength, qLength, tLength⟩ := lengths
  obtain ⟨pSign, qSign, tSign⟩ := signs
  obtain ⟨hp, hq, ht⟩ := hlengths
  dsimp only at hp hq ht ⊢
  simp only [decodePayload, GiveMePi.bind_eq_ok, checkedAdd_eq_ok, throwIf_eq_ok,
    GMPSerialization.decode_eq_ok_iff, GiveMePi.pure_eq_ok, Except.ok.injEq, not_not]
  constructor
  · intro h
    obtain ⟨_, ⟨_, rfl⟩, _, ⟨_, rfl⟩, _, hlength, p, ⟨rfl, hpBytes⟩, q, ⟨rfl, hqBytes⟩, t,
      ⟨rfl, htBytes⟩, rfl⟩ := h
    have hpLength := congrArg List.length hpBytes
    have hqLength := congrArg List.length hqBytes
    have htLength := congrArg List.length htBytes
    rw [List.length_take_of_le (by omega)] at hpLength
    rw [List.length_take_of_le (by rw [List.length_drop]; omega)] at hqLength
    rw [List.length_take_of_le (by rw [List.length_drop]; omega)] at htLength
    refine ⟨rfl, rfl, ?_, ?_⟩
    · rw [lengthsOf, ← hpLength, ← hqLength, ← htLength]
    · have htail : (payload.drop (pLength + qLength)).take tLength =
          payload.drop (pLength + qLength) :=
        List.take_of_length_le (by rw [List.length_drop]; omega)
      calc payload = payload.take pLength ++ payload.drop pLength :=
            (List.take_append_drop _ _).symm
        _ = payload.take pLength ++ ((payload.drop pLength).take qLength ++
              (payload.drop pLength).drop qLength) := by
            rw [List.take_append_drop qLength (payload.drop pLength)]
        _ = payload.take pLength ++ ((payload.drop pLength).take qLength ++
              (payload.drop (pLength + qLength)).take tLength) := by rw [List.drop_drop, htail]
        _ = payloadOf ⟨metadata, p, q, t⟩ := by
            rw [hpBytes, hqBytes, htBytes, payloadOf, CheckpointBlockCodec.payloadBytes,
              List.append_assoc]
  · intro h
    obtain ⟨rfl, hsigns, hlengths, rfl⟩ := h
    obtain ⟨metadata, p, q, t⟩ := chunk
    simp only [signsOf, lengthsOf, Prod.mk.injEq] at hsigns hlengths
    obtain ⟨rfl, rfl, rfl⟩ := hsigns
    obtain ⟨rfl, rfl, rfl⟩ := hlengths
    refine ⟨_, ⟨by omega, rfl⟩, _, ⟨by omega, rfl⟩, (), ?_, p, ⟨rfl, ?_⟩, q, ⟨rfl, ?_⟩, t, ⟨rfl, ?_⟩,
      rfl⟩
    · rw [length_payloadOf]
      rfl
    · rw [payloadOf, CheckpointBlockCodec.payloadBytes, List.append_assoc, List.take_left]
    · rw [payloadOf, CheckpointBlockCodec.payloadBytes, List.append_assoc, List.drop_left,
        List.take_left]
    · rw [payloadOf, CheckpointBlockCodec.payloadBytes, ← List.length_append, List.drop_left,
        List.take_length]

/-- A chunk that decoding returns from its stored bytes. -/
structure IsDecodable (lz4 : Lz4) (chunk : Chunk) (stored : Bytes) : Prop where
  valid : chunk.metadata.IsValid
  lengths : AreLengths (lengthsOf chunk)
  size : chunk.metadata.storedSize.toNat = stored.length
  checksum : chunk.metadata.checksumValue = checksumOf chunk stored
  payload : CompressionCodec.decompress lz4 chunk.metadata.compression stored
    chunk.metadata.uncompressedSize maxChunkPayloadBytes = .ok (payloadOf chunk)

/-- Decoding returns a chunk exactly on bytes whose stored part decompresses to its payload. -/
theorem decode_eq_ok_iff {lz4 : Lz4} {bytes : Bytes} {chunk : Chunk} :
    decode lz4 bytes = .ok chunk ↔
      ∃ stored, bytes = chunkBytes chunk stored ∧ IsDecodable lz4 chunk stored := by
  simp only [decode, GiveMePi.bind_eq_ok, Prod.exists, GiveMePi.pure_eq_ok, Except.ok.injEq,
    readChunk, ↓Reader.throwIf_bind_eq_ok, Reader.bind_eq_ok, Reader.take_eq_ok,
    Reader.get_eq_ok, Reader.liftM_eq_ok, not_or, not_not]
  constructor
  · intro h
    obtain ⟨_, _, ⟨metadata, pSign, qSign, tSign, pLength, qLength, tLength, _, hheader, checksum, _,
      ⟨hchecksum, rfl⟩, remaining, _, ⟨rfl, rfl⟩, ⟨hstored, hvalue⟩, stored, left, ⟨htake, hlength⟩,
      payload, _, ⟨hpayload, rfl⟩, hdecode, rfl⟩, rfl⟩ := h
    obtain ⟨hbytes, hvalid, hlengths⟩ :=
      (readHeader_eq_ok (pSign, qSign, tSign) (pLength, qLength, tLength)).mp hheader
    obtain ⟨rfl, hsigns, hlens, rfl⟩ :=
      (decodePayload_eq_ok (pLength, qLength, tLength) hlengths).mp hdecode
    rw [hsigns, hlens] at hbytes
    rw [hlens] at hlengths
    rw [htake, List.length_append] at hlength
    obtain rfl : left = [] := List.length_eq_zero_iff.mp (by omega)
    rw [List.append_nil] at htake
    subst htake
    rw [← List.append_assoc] at hbytes
    rw [hbytes, calculateChecksum_eq _ _ _ _ (length_appendU32 _), Except.ok.injEq] at hchecksum
    rw [← hchecksum] at hvalue
    refine ⟨_, ?_, hvalid, hlengths, hstored, hvalue, hpayload⟩
    rw [hbytes, hvalue]
    rfl
  · intro h
    obtain ⟨stored, hbytes, hdecodable⟩ := h
    have hheader : readHeader bytes =
        .ok ((chunk.metadata, signsOf chunk, lengthsOf chunk), stored) := by
      refine (readHeader_eq_ok _ _).mpr ⟨?_, hdecodable.valid, hdecodable.lengths⟩
      rw [hbytes, chunkBytes, hdecodable.checksum, List.append_assoc]
    have hchecksum : calculateChecksum bytes = .ok (checksumOf chunk stored) := by
      rw [hbytes]
      exact calculateChecksum_eq _ _ _ _ (length_appendU32 _)
    refine ⟨chunk, [], ⟨_, _, _, _, _, _, _, _, hheader, _, _, ⟨hchecksum, rfl⟩, _, _, ⟨rfl, rfl⟩,
      ⟨hdecodable.size, hdecodable.checksum⟩, stored, [], ⟨(List.append_nil _).symm, rfl⟩, _, _,
      ⟨hdecodable.payload, rfl⟩, ?_, rfl⟩, rfl⟩
    exact (decodePayload_eq_ok _ hdecodable.lengths).mpr ⟨rfl, rfl, rfl, rfl⟩

/-! ## Encoding -/

@[simp] theorem thrown_eq_ok {α : Type} {x : Except Error α} {a : α} :
    thrown x = .ok a ↔ x = .ok a := by
  cases x with
  | error e => simp [thrown, Except.mapError]
  | ok b => simp [thrown, Except.mapError]

/-- An integer as encoding serializes it. -/
def serialized (value : ℤ) : GMPSerialization.SerializedGMPInteger :=
  ⟨GMPSerialization.sign value, GMPSerialization.magnitude value⟩

theorem encode_serialized {value : ℤ} (h : (GMPSerialization.magnitude value).length ≤ 2 ^ 30) :
    GMPSerialization.encode value = .ok (serialized value) := by
  have hsize := GMPSerialization.size_le_of_length_le h
  exact GMPSerialization.encode_eq_ok_iff.mpr ⟨rfl, by omega⟩

theorem headerBytes_eq (chunk : Chunk) (hversion : chunk.metadata.formatVersion = formatVersion) :
    headerBytes chunk.metadata (serialized chunk.p) (serialized chunk.q) (serialized chunk.t) =
      beforeChecksum chunk.metadata (signsOf chunk) (lengthsOf chunk) ++ appendU32 0 := by
  unfold headerBytes beforeChecksum CheckpointBlockCodec.identityBytes
    CheckpointBlockCodec.locationBytes
  rw [hversion]
  simp only [List.append_assoc]
  rfl

theorem makeHeader_eq (chunk : Chunk) (hversion : chunk.metadata.formatVersion = formatVersion) :
    makeHeader chunk.metadata (serialized chunk.p) (serialized chunk.q) (serialized chunk.t) =
      .ok (beforeChecksum chunk.metadata (signsOf chunk) (lengthsOf chunk) ++ appendU32 0) := by
  have hlength : (beforeChecksum chunk.metadata (signsOf chunk) (lengthsOf chunk) ++
      appendU32 0).length = version1HeaderSize.toNat := by
    rw [List.length_append, length_beforeChecksum, length_appendU32]
    rfl
  rw [makeHeader, headerBytes_eq chunk hversion, throwIf_neg (not_not.mpr hlength)]
  rfl

theorem canonicalPayload_eq {chunk : Chunk} (h : (payloadOf chunk).length ≤ 2 ^ 30) :
    canonicalPayload (serialized chunk.p) (serialized chunk.q) (serialized chunk.t) =
      .ok (payloadOf chunk) := by
  rw [length_payloadOf] at h
  simp only [lengthsOf] at h
  simp only [canonicalPayload, GiveMePi.bind_eq_ok, checkedAdd_eq_ok, GiveMePi.pure_eq_ok,
    serialized]
  exact ⟨_, ⟨by omega, rfl⟩, _, ⟨by omega, rfl⟩, rfl⟩

/-- The lengths of a payload within the limit. -/
theorem areLengths_of_le {chunk : Chunk} (h : (payloadOf chunk).length ≤ 2 ^ 30) :
    AreLengths (lengthsOf chunk) := by
  rw [length_payloadOf] at h
  exact ⟨by omega, by omega, by omega⟩

/-- A chunk whose metadata describes it, with the bytes that are stored for it. -/
structure IsEncodable (lz4 : Lz4) (chunk : Chunk) (stored : Bytes) : Prop where
  valid : chunk.metadata.IsValid
  uncompressed : chunk.metadata.uncompressedSize.toNat = (payloadOf chunk).length
  written : writePayload lz4 chunk.metadata (serialized chunk.p) (serialized chunk.q)
    (serialized chunk.t) = .ok stored
  size : chunk.metadata.storedSize.toNat = stored.length
  checksum : chunk.metadata.checksumValue = checksumOf chunk stored

/-- The payload of a chunk with valid metadata is within the limit. -/
theorem IsEncodable.length_le {lz4 : Lz4} {chunk : Chunk} {stored : Bytes}
    (h : IsEncodable lz4 chunk stored) : (payloadOf chunk).length ≤ 2 ^ 30 := by
  have hle := h.valid.uncompressed_le
  rw [UInt64.le_iff_toNat_le, h.uncompressed, maxChunkPayloadBytes_toNat] at hle
  exact hle

/-- The end of encoding stores the checksum. -/
theorem finish_eq_ok {chunk : Chunk} {written bytes : Bytes} :
    finish chunk.metadata
        (beforeChecksum chunk.metadata (signsOf chunk) (lengthsOf chunk) ++ appendU32 0) written =
      .ok bytes ↔
        bytes = chunkBytes chunk written ∧ chunk.metadata.storedSize.toNat = written.length ∧
          chunk.metadata.checksumValue = checksumOf chunk written := by
  have hstore : storeU32 (beforeChecksum chunk.metadata (signsOf chunk) (lengthsOf chunk) ++
      appendU32 0 ++ written) checksumOffset (checksumOf chunk written) =
        chunkBytes chunk written := by
    rw [← length_beforeChecksum chunk.metadata (signsOf chunk) (lengthsOf chunk),
      CheckpointBlockCodec.storeU32_append _ (length_appendU32 0)]
    rfl
  have hchecksum : calculateChecksum (beforeChecksum chunk.metadata (signsOf chunk)
      (lengthsOf chunk) ++ appendU32 0 ++ written) = .ok (checksumOf chunk written) :=
    calculateChecksum_eq _ _ _ _ (length_appendU32 0)
  simp only [finish, GiveMePi.bind_eq_ok, throwIf_eq_ok, not_not, hchecksum, GiveMePi.pure_eq_ok,
    Except.ok.injEq]
  constructor
  · intro h
    obtain ⟨_, hsize, _, rfl, _, hvalue, rfl⟩ := h
    exact ⟨hstore, hsize.symm, hvalue⟩
  · intro h
    obtain ⟨hbytes, hsize, hvalue⟩ := h
    exact ⟨(), hsize.symm, _, rfl, (), hvalue, hstore.trans hbytes.symm⟩

/-- Encoding writes the bytes of exactly the chunks whose metadata describes them. -/
theorem encode_eq_ok_iff {lz4 : Lz4} {chunk : Chunk} {bytes : Bytes} :
    encode lz4 chunk = .ok bytes ↔
      ∃ stored, bytes = chunkBytes chunk stored ∧ IsEncodable lz4 chunk stored := by
  have hpayload := length_payloadOf chunk
  simp only [encode, GiveMePi.bind_eq_ok, thrown_eq_ok, ChunkMetadata.validate_eq_ok, throwIf_eq_ok,
    not_not]
  constructor
  · intro h
    obtain ⟨_, hvalid, serializedP, hp, serializedQ, hq, serializedT, ht, _, huncompressed, header,
      hheader, stored, hwritten, hfinish⟩ := h
    obtain ⟨rfl, _⟩ := GMPSerialization.encode_eq_ok_iff.mp hp
    obtain ⟨rfl, _⟩ := GMPSerialization.encode_eq_ok_iff.mp hq
    obtain ⟨rfl, _⟩ := GMPSerialization.encode_eq_ok_iff.mp ht
    have hmake := (makeHeader_eq chunk hvalid.version).symm.trans hheader
    rw [Except.ok.injEq] at hmake
    rw [← hmake] at hfinish
    obtain ⟨hbytes, hsize, hchecksum⟩ := finish_eq_ok.mp hfinish
    exact ⟨stored, hbytes, hvalid, huncompressed.trans hpayload.symm, hwritten, hsize, hchecksum⟩
  · intro h
    obtain ⟨stored, hbytes, hencodable⟩ := h
    have hlengths := areLengths_of_le hencodable.length_le
    exact ⟨(), hencodable.valid, _, encode_serialized hlengths.1, _,
      encode_serialized hlengths.2.1, _, encode_serialized hlengths.2.2, (),
      hencodable.uncompressed.trans hpayload, _, makeHeader_eq chunk hencodable.valid.version, _,
      hencodable.written, finish_eq_ok.mpr ⟨hbytes, hencodable.size, hencodable.checksum⟩⟩

/-- What `createMetadata` computes, when compression returns bytes within the limit. -/
theorem createMetadata_eq_ok {lz4 : Lz4} {identity : ChunkIdentity} {p q t : ℤ}
    {compression : CompressionAlgorithm} {stored : Bytes} (hidentity : identity.IsValid)
    (hcompression : compression = .none ∨ compression = .lz4)
    (hpayload : (CheckpointBlockCodec.payloadBytes p q t).length ≤ 2 ^ 30)
    (hstored : CompressionCodec.compress lz4 compression (CheckpointBlockCodec.payloadBytes p q t)
      maxChunkPayloadBytes = .ok stored) (hlength : stored.length ≤ 2 ^ 30) :
    ∃ metadata : ChunkMetadata, createMetadata lz4 identity p q t compression = .ok metadata ∧
      metadata.IsValid ∧ metadata.identity = identity ∧ metadata.compression = compression ∧
        metadata.uncompressedSize.toNat = (CheckpointBlockCodec.payloadBytes p q t).length ∧
          metadata.storedSize.toNat = stored.length ∧
            metadata.checksumValue = checksumOf ⟨metadata, p, q, t⟩ stored := by
  have htoNat {n : ℕ} (h : n ≤ 2 ^ 30) : (UInt64.ofNat n).toNat = n :=
    UInt64.toNat_ofNat_of_lt (h.trans_lt (by decide))
  have hle {n : ℕ} (h : n ≤ 2 ^ 30) : UInt64.ofNat n ≤ maxChunkPayloadBytes := by
    rw [UInt64.le_iff_toNat_le, htoNat h, maxChunkPayloadBytes_toNat]
    exact h
  obtain ⟨metadata, hmetadata⟩ : ∃ metadata : ChunkMetadata, metadata =
      ⟨identity, UInt64.ofNat (CheckpointBlockCodec.payloadBytes p q t).length,
        UInt64.ofNat stored.length, .crc32c, 0, compression, chunkFormatVersion⟩ := ⟨_, rfl⟩
  have hvalid : metadata.IsValid := by
    rw [hmetadata]
    exact ⟨hidentity, rfl, hle hpayload, hle hlength, rfl, hcompression⟩
  have hlengths : AreLengths (lengthsOf ⟨metadata, p, q, t⟩) := areLengths_of_le hpayload
  have hcreate := ChunkMetadata.create_eq_ok.mpr ⟨hmetadata, hvalid⟩
  refine ⟨{ metadata with checksumValue := checksumOf ⟨metadata, p, q, t⟩ stored }, ?_,
    ⟨hvalid.identity, hvalid.version, hvalid.uncompressed_le, hvalid.stored_le, hvalid.crc32c,
      hvalid.compression⟩, ?_, ?_, ?_, ?_, rfl⟩
  · simp only [createMetadata, GiveMePi.bind_eq_ok, GiveMePi.pure_eq_ok, Except.ok.injEq]
    exact ⟨_, encode_serialized hlengths.1, _, encode_serialized hlengths.2.1, _,
      encode_serialized hlengths.2.2, _, @canonicalPayload_eq ⟨metadata, p, q, t⟩ hpayload,
      _, hstored, _, hcreate, _, makeHeader_eq ⟨metadata, p, q, t⟩ hvalid.version, _,
      calculateChecksum_eq _ _ _ _ (length_appendU32 0), rfl⟩
  · rw [hmetadata]
  · rw [hmetadata]
  · rw [hmetadata]
    exact htoNat hpayload
  · rw [hmetadata]
    exact htoNat hlength

end GiveMePi.Storage.ChunkCodec
