import GiveMePi.Checkpoint.CheckpointBlockCodec

/-! # The block format is exact

A byte string decodes to a block exactly when it is the one encoding of that block. -/

namespace GiveMePi.Checkpoint.CheckpointBlockCodec

/-! ## The fields as bytes -/

def identityBytes (identity : ComputationIdentity) : Bytes :=
  appendU16 identity.algorithm.code ++ appendU16 identity.arithmeticVersion
    ++ appendU16 identity.formulaVersion ++ appendU16 0 ++ appendU64 identity.requestedDigits
    ++ appendU32 identity.guardDigits ++ appendU32 0 ++ appendU64 identity.workingDigits
    ++ appendU64 identity.termCount

def locationBytes (location : BlockLocation) : Bytes :=
  appendU64 location.start ++ appendU64 location.stop ++ appendU32 location.treeLevel

/-- The bytes of a block before its checksum. -/
def beforeChecksum (identity : ComputationIdentity) (location : BlockLocation) : Bytes :=
  blockMagic ++ appendU16 formatVersion ++ appendU16 version1HeaderSize ++ appendU32 0
    ++ identityBytes identity ++ locationBytes location
    ++ appendU16 ChecksumAlgorithm.crc32c.code ++ appendU16 checksumSize

/-- The number of bytes of the magnitudes. -/
def payloadLength (p q t : ℤ) : ℕ :=
  (GMPSerialization.magnitude p).length + (GMPSerialization.magnitude q).length +
    (GMPSerialization.magnitude t).length

def lengthBytes (p q t : ℤ) : Bytes :=
  appendU64 (UInt64.ofNat (GMPSerialization.magnitude p).length)
    ++ appendU64 (UInt64.ofNat (GMPSerialization.magnitude q).length)
    ++ appendU64 (UInt64.ofNat (GMPSerialization.magnitude t).length)

def payloadBytes (p q t : ℤ) : Bytes :=
  GMPSerialization.magnitude p ++ GMPSerialization.magnitude q ++ GMPSerialization.magnitude t

/-- The bytes of a block after its checksum. -/
def afterChecksum (p q t : ℤ) : Bytes :=
  appendU8 (GMPSerialization.sign p).code ++ appendU8 (GMPSerialization.sign q).code
    ++ appendU8 (GMPSerialization.sign t).code ++ appendU8 0 ++ lengthBytes p q t
    ++ payloadBytes p q t

/-- The checksum of a block. -/
def checksumOf (block : CheckpointBlock) : UInt32 :=
  CRC32C.calculateZeroed checksumOffset
    (beforeChecksum block.identity block.location ++ appendU32 0 ++
      afterChecksum block.p block.q block.t)

/-- The bytes of a block. -/
def blockBytes (block : CheckpointBlock) : Bytes :=
  beforeChecksum block.identity block.location ++ appendU32 (checksumOf block) ++
    afterChecksum block.p block.q block.t

@[simp] theorem length_identityBytes (identity : ComputationIdentity) :
    (identityBytes identity).length = 40 := rfl

@[simp] theorem length_locationBytes (location : BlockLocation) :
    (locationBytes location).length = 20 := rfl

@[simp] theorem length_beforeChecksum (identity : ComputationIdentity) (location : BlockLocation) :
    (beforeChecksum identity location).length = checksumOffset := rfl

theorem length_afterChecksum (p q t : ℤ) :
    (afterChecksum p q t).length = 28 + payloadLength p q t := by
  simp only [afterChecksum, lengthBytes, payloadBytes, List.length_append, length_appendU8,
    length_appendU64, payloadLength]

theorem length_blockBytes (block : CheckpointBlock) :
    (blockBytes block).length = 112 + payloadLength block.p block.q block.t := by
  simp only [blockBytes, List.length_append, length_beforeChecksum, length_afterChecksum,
    length_appendU32, checksumOffset]
  omega

/-- The checksum of a block does not depend on what stands in the checksum's place. -/
theorem blockChecksum_eq (block : CheckpointBlock) {slot : Bytes} (hslot : slot.length = 4) :
    blockChecksum (beforeChecksum block.identity block.location ++ slot ++
      afterChecksum block.p block.q block.t) = .ok (checksumOf block) := by
  have hlength : ¬ (beforeChecksum block.identity block.location ++ slot ++
      afterChecksum block.p block.q block.t).length < version1HeaderSize.toNat := by
    have hsize : version1HeaderSize.toNat = 112 := rfl
    simp only [List.length_append, length_beforeChecksum, hslot, length_afterChecksum,
      checksumOffset, hsize]
    omega
  rw [blockChecksum, throwIf_neg hlength, ok_bind, pure_eq_ok, checksumOf,
    CRC32C.calculateZeroed_slot (length_beforeChecksum _ _) hslot (length_appendU32 0)]

/-! ## Decoding -/

theorem readIdentity_eq_ok {truncated nonZeroReserved : String} {bytes rest : Bytes}
    {identity : ComputationIdentity} :
    readIdentity truncated nonZeroReserved bytes = .ok (identity, rest) ↔
      bytes = identityBytes identity ++ rest ∧ identity.IsValid := by
  simp only [readIdentity, Reader.bind_eq_ok, Reader.readU16_eq_ok, Reader.readU32_eq_ok,
    Reader.readU64_eq_ok, throwIf_eq_ok, Reader.liftM_eq_ok, Reader.pure_eq_ok, not_not]
  constructor
  · rintro ⟨algorithm, _, rfl, arithmetic, _, rfl, formula, _, rfl, _, _, rfl, -, _, ⟨rfl, rfl⟩,
      requested, _, rfl, guard, _, rfl, _, _, rfl, -, _, ⟨rfl, rfl⟩, working, _, rfl, terms, _, rfl,
      _, _, ⟨hvalid, rfl⟩, rfl, rfl⟩
    exact ⟨by simp only [identityBytes, List.append_assoc], hvalid⟩
  · rintro ⟨rfl, hvalid⟩
    refine ⟨_, _, by simp only [identityBytes, List.append_assoc], _, _, rfl, _, _, rfl, _, _,
      rfl, (), _, ⟨rfl, rfl⟩, _, _, rfl, _, _, rfl, _, _, rfl, (), _, ⟨rfl, rfl⟩, _, _, rfl, _, _, rfl,
      (), _, ⟨hvalid, rfl⟩, rfl, rfl⟩

theorem readLocation_eq_ok {identity : ComputationIdentity} {bytes rest : Bytes}
    {location : BlockLocation} :
    readLocation identity bytes = .ok (location, rest) ↔
      bytes = locationBytes location ++ rest ∧ location.start < location.stop ∧
        location.stop ≤ identity.termCount := by
  simp only [readLocation, Reader.bind_eq_ok, Reader.readU32_eq_ok, Reader.readU64_eq_ok,
    Reader.liftM_eq_ok, Reader.pure_eq_ok, BlockLocation.validate_eq_ok]
  constructor
  · rintro ⟨start, _, rfl, stop, _, rfl, level, _, rfl, -, _, ⟨hbounds, rfl⟩, rfl, rfl⟩
    exact ⟨by simp only [locationBytes, List.append_assoc], hbounds⟩
  · rintro ⟨rfl, hbounds⟩
    exact ⟨_, _, by simp only [locationBytes, List.append_assoc], _, _, rfl, _, _, rfl, (), _,
      ⟨hbounds, rfl⟩, rfl, rfl⟩

theorem readChecksum_eq_ok {whole bytes rest : Bytes} {u : Unit} :
    readChecksum whole bytes = .ok (u, rest) ↔
      ∃ checksum, bytes = appendU16 ChecksumAlgorithm.crc32c.code ++ appendU16 checksumSize ++
        appendU32 checksum ++ rest ∧ blockChecksum whole = .ok checksum := by
  simp only [readChecksum, Reader.bind_eq_ok, Reader.readU16_eq_ok, Reader.readU32_eq_ok,
    throwIf_eq_ok, Reader.liftM_eq_ok, not_or, not_not]
  constructor
  · rintro ⟨_, _, rfl, _, _, rfl, checksum, _, rfl, -, _, ⟨⟨rfl, rfl⟩, rfl⟩, _, _, ⟨hwhole, rfl⟩, rfl,
      rfl⟩
    exact ⟨_, by simp only [List.append_assoc], hwhole⟩
  · rintro ⟨checksum, rfl, hwhole⟩
    exact ⟨_, _, by simp only [List.append_assoc], _, _, rfl, _, _, rfl, (), _,
      ⟨⟨rfl, rfl⟩, rfl⟩, _, _, ⟨hwhole, rfl⟩, rfl, rfl⟩

theorem readSigns_eq_ok {bytes rest : Bytes} {pSign qSign tSign : IntegerSign} :
    readSigns bytes = .ok ((pSign, qSign, tSign), rest) ↔
      bytes = appendU8 pSign.code ++ appendU8 qSign.code ++ appendU8 tSign.code ++ appendU8 0 ++
        rest := by
  simp only [readSigns, Reader.bind_eq_ok, Reader.readU8_eq_ok, throwIf_eq_ok, Reader.liftM_eq_ok,
    Reader.pure_eq_ok, not_not]
  constructor
  · rintro ⟨_, _, rfl, _, _, rfl, _, _, rfl, _, _, rfl, _, _, ⟨rfl, rfl⟩, heq, rfl⟩
    cases heq
    simp only [List.append_assoc]
  · rintro rfl
    exact ⟨_, _, by simp only [List.append_assoc], _, _, rfl, _, _, rfl, _, _, rfl, (), _,
      ⟨rfl, rfl⟩, rfl, rfl⟩

theorem readLengths_eq_ok {bytes rest : Bytes} {pLength qLength tLength : UInt64} :
    readLengths bytes = .ok ((pLength, qLength, tLength), rest) ↔
      bytes = appendU64 pLength ++ appendU64 qLength ++ appendU64 tLength ++ rest ∧
        pLength.toNat + qLength.toNat + tLength.toNat = rest.length ∧ rest.length < 2 ^ 64 := by
  simp only [readLengths, Reader.bind_eq_ok, Reader.readU64_eq_ok, throwIf_eq_ok,
    Reader.liftM_eq_ok, Reader.pure_eq_ok, Reader.get_eq_ok, ← checkedSum_iff, not_not]
  constructor
  · rintro ⟨_, _, rfl, _, _, rfl, _, _, rfl, _, _, ⟨hpq, rfl⟩, _, _, ⟨hpqt, rfl⟩, _, _,
      ⟨rfl, rfl⟩, _, _, ⟨hlength, rfl⟩, heq, rfl⟩
    cases heq
    exact ⟨by simp only [List.append_assoc], hpq, hpqt, hlength⟩
  · rintro ⟨rfl, hpq, hpqt, hlength⟩
    exact ⟨_, _, by simp only [List.append_assoc], _, _, rfl, _, _, rfl, (), _, ⟨hpq, rfl⟩, (), _,
      ⟨hpqt, rfl⟩, _, _, ⟨rfl, rfl⟩, (), _, ⟨hlength, rfl⟩, rfl, rfl⟩

theorem readInteger_eq_ok {bytes rest : Bytes} {sign : IntegerSign} {length : UInt64} {value : ℤ} :
    readInteger sign length bytes = .ok (value, rest) ↔
      bytes = GMPSerialization.magnitude value ++ rest ∧ sign = GMPSerialization.sign value ∧
        (GMPSerialization.magnitude value).length = length.toNat := by
  simp only [readInteger, Reader.bind_eq_ok, Reader.take_eq_ok, Reader.liftM_eq_ok,
    GMPSerialization.decode_eq_ok_iff]
  constructor
  · rintro ⟨_, _, ⟨rfl, hlength⟩, ⟨hsign, rfl⟩, rfl⟩
    exact ⟨rfl, hsign, hlength⟩
  · rintro ⟨rfl, hsign, hlength⟩
    exact ⟨_, _, ⟨rfl, hlength⟩, ⟨hsign, rfl⟩, rfl⟩

theorem eq_ofNat_of_toNat {a : UInt64} {n : ℕ} (h : n = a.toNat) : a = UInt64.ofNat n := by
  rw [h, UInt64.ofNat_toNat]

/-- The values are read together with the end of the bytes. -/
theorem readValues_eq_ok {bytes rest : Bytes} {p q t : ℤ} :
    readValues bytes = .ok ((p, q, t), rest) ↔
      rest = [] ∧ bytes = afterChecksum p q t ∧ payloadLength p q t < 2 ^ 64 := by
  simp only [readValues, Reader.bind_eq_ok, Reader.pure_eq_ok, Prod.exists, readSigns_eq_ok,
    readLengths_eq_ok, readInteger_eq_ok]
  constructor
  · rintro ⟨pSign, qSign, tSign, _, rfl, pLength, qLength, tLength, _, ⟨rfl, hsum, hlt⟩,
      _, _, ⟨rfl, rfl, hp⟩, _, _, ⟨rfl, rfl, hq⟩, _, left, ⟨rfl, rfl, ht⟩, heq, rfl⟩
    cases heq
    simp only [List.length_append] at hsum hlt
    obtain rfl : left = [] := List.length_eq_zero_iff.mp (by omega)
    rw [eq_ofNat_of_toNat hp, eq_ofNat_of_toNat hq, eq_ofNat_of_toNat ht]
    refine ⟨rfl, ?_, ?_⟩
    · simp only [afterChecksum, lengthBytes, payloadBytes, List.append_assoc, List.append_nil]
    · rw [payloadLength]
      simp only [List.length_nil] at hlt
      omega
  · rintro ⟨rfl, rfl, hlt⟩
    rw [payloadLength] at hlt
    have hlength (value : ℤ) (h : (GMPSerialization.magnitude value).length < 2 ^ 64) :
        (GMPSerialization.magnitude value).length =
          (UInt64.ofNat (GMPSerialization.magnitude value).length).toNat :=
      (UInt64.toNat_ofNat_of_lt h).symm
    have hp := hlength p (by omega)
    have hq := hlength q (by omega)
    have ht := hlength t (by omega)
    refine ⟨GMPSerialization.sign p, GMPSerialization.sign q, GMPSerialization.sign t,
      lengthBytes p q t ++ payloadBytes p q t, ?_, _, _, _, _, ⟨rfl, ?_, ?_⟩, p, _,
      ⟨List.append_assoc _ _ _, rfl, hp⟩, q, _, ⟨rfl, rfl, hq⟩, t, [],
      ⟨(List.append_nil _).symm, rfl, ht⟩, rfl, rfl⟩
    · simp only [afterChecksum, List.append_assoc]
    · rw [← hp, ← hq, ← ht]
      simp only [payloadBytes, List.length_append]
    · simp only [payloadBytes, List.length_append]
      omega

/-- A block that decoding may return: its identity and its location are valid and its payload has
at most the length a file can state. -/
structure IsDecodable (block : CheckpointBlock) : Prop where
  identity : block.identity.IsValid
  start_lt : block.location.start < block.location.stop
  stop_le : block.location.stop ≤ block.identity.termCount
  payload : payloadLength block.p block.q block.t < 2 ^ 64

/-- Decoding returns a block exactly on the encoding of that block. -/
theorem decode_eq_ok_iff {bytes : Bytes} {block : CheckpointBlock} :
    decode bytes = .ok block ↔ bytes = blockBytes block ∧ IsDecodable block := by
  simp only [decode, GiveMePi.bind_eq_ok, Prod.exists, pure_eq_ok, Except.ok.injEq,
    readBlock, Reader.bind_eq_ok, Reader.take_eq_ok, Reader.readU16_eq_ok, Reader.readU32_eq_ok,
    throwIf_eq_ok, Reader.liftM_eq_ok, Reader.pure_eq_ok, readIdentity_eq_ok, readLocation_eq_ok,
    readChecksum_eq_ok, readValues_eq_ok, not_not]
  constructor
  · rintro ⟨_, _, ⟨_, _, ⟨hbytes, _⟩, _, _, ⟨rfl, rfl⟩, _, _, rfl, _, _, ⟨rfl, rfl⟩, _, _, rfl, _, _,
      ⟨rfl, rfl⟩, _, _, rfl, _, _, ⟨rfl, rfl⟩, identity, _, ⟨rfl, hidentity⟩, location, _,
      ⟨rfl, hstart, hstop⟩, _, _, ⟨checksum, rfl, hchecksum⟩, p, q, t, _, ⟨rfl, rfl, hpayload⟩, rfl,
      _⟩, rfl⟩
    have hsplit : bytes = beforeChecksum identity location ++ appendU32 checksum ++
        afterChecksum p q t := by
      rw [hbytes]
      simp only [beforeChecksum, List.append_assoc]
    rw [hsplit, blockChecksum_eq ⟨identity, location, p, q, t⟩ (length_appendU32 _)] at hchecksum
    cases hchecksum
    exact ⟨hsplit, hidentity, hstart, hstop, hpayload⟩
  · rintro ⟨hbytes, hidentity, hstart, hstop, hpayload⟩
    refine ⟨block, [], ⟨_, _, ⟨?_, rfl⟩, (), _, ⟨rfl, rfl⟩, _, _, rfl, (), _, ⟨rfl, rfl⟩, _, _, rfl,
      (), _, ⟨rfl, rfl⟩, _, _, rfl, (), _, ⟨rfl, rfl⟩, block.identity, _, ⟨rfl, hidentity⟩,
      block.location, _, ⟨rfl, hstart, hstop⟩, (), _, ⟨checksumOf block, rfl, ?_⟩, block.p, block.q,
      block.t, [], ⟨rfl, rfl, hpayload⟩, rfl, rfl⟩, rfl⟩
    · rw [hbytes]
      simp only [blockBytes, beforeChecksum, List.append_assoc]
    · rw [hbytes]
      exact blockChecksum_eq block (length_appendU32 _)

/-! ## Encoding -/

theorem checkedPayloadSize_eq_ok {pSize qSize tSize total : ℕ} :
    checkedPayloadSize pSize qSize tSize = .ok total ↔
      total = pSize + qSize + tSize ∧ pSize + qSize + tSize ≤ 2 ^ 64 - 1 - 112 := by
  have hheader : version1HeaderSize.toNat = 112 := rfl
  simp only [checkedPayloadSize, checkedPayloadSizeFrom, GiveMePi.bind_eq_ok, throwIf_eq_ok,
    uint64Max_toNat, hheader, pure_eq_ok, Except.ok.injEq]
  constructor
  · rintro ⟨_, hp, _, hq, _, ht, rfl⟩
    omega
  · rintro ⟨rfl, hle⟩
    exact ⟨(), by omega, (), by omega, (), by omega, by omega⟩

/-- A block that encoding returns: its sizes do not overflow. -/
structure IsEncodable (block : CheckpointBlock) : Prop where
  identity : block.identity.IsValid
  start_lt : block.location.start < block.location.stop
  stop_le : block.location.stop ≤ block.identity.termCount
  p_size : block.p.natAbs.size ≤ 2 ^ 64 - 8
  q_size : block.q.natAbs.size ≤ 2 ^ 64 - 8
  t_size : block.t.natAbs.size ≤ 2 ^ 64 - 8
  payload : payloadLength block.p block.q block.t ≤ 2 ^ 64 - 1 - 112

theorem IsEncodable.isDecodable {block : CheckpointBlock} (h : IsEncodable block) :
    IsDecodable block := by
  have hpayload := h.payload
  exact ⟨h.identity, h.start_lt, h.stop_le, by omega⟩

/-- What encoding returns for a block. -/
def encodedBlock (block : CheckpointBlock) : EncodedCheckpointBlock :=
  { bytes := blockBytes block
    payloadSize := UInt64.ofNat (payloadLength block.p block.q block.t)
    checksumAlgorithm := ChecksumAlgorithm.crc32c
    checksum := checksumOf block }

theorem storeU32_append {before slot after : Bytes} (value : UInt32) (hslot : slot.length = 4) :
    storeU32 (before ++ slot ++ after) before.length value = before ++ appendU32 value ++ after := by
  have hdrop : (before ++ slot ++ after).drop (before.length + 4) = after := by
    rw [← hslot, ← List.length_append, List.drop_left]
  rw [storeU32, hdrop, List.append_assoc before, List.take_left]

theorem length_headerBytes (identity : ComputationIdentity) (location : BlockLocation)
    (p q t : ℤ) (pSize qSize tSize : ℕ) :
    (headerBytes identity location p q t pSize qSize tSize).length =
      version1HeaderSize.toNat := by
  unfold headerBytes
  simp only [List.length_append, length_appendU8, length_appendU16, length_appendU32,
    length_appendU64]
  rfl

/-- The header and the payload are the bytes of the block, with a zero checksum. -/
theorem headerBytes_append (block : CheckpointBlock) :
    headerBytes block.identity block.location block.p block.q block.t
        (GMPSerialization.magnitude block.p).length (GMPSerialization.magnitude block.q).length
        (GMPSerialization.magnitude block.t).length ++ GMPSerialization.magnitude block.p ++
          GMPSerialization.magnitude block.q ++ GMPSerialization.magnitude block.t =
      beforeChecksum block.identity block.location ++ appendU32 0 ++
        afterChecksum block.p block.q block.t := by
  unfold headerBytes beforeChecksum identityBytes locationBytes afterChecksum lengthBytes
    payloadBytes
  simp only [List.append_assoc]

/-- Encoding returns exactly for the blocks whose sizes do not overflow. -/
theorem encodeValues_eq_ok_iff {identity : ComputationIdentity} {location : BlockLocation}
    {p q t : ℤ} {encoded : EncodedCheckpointBlock} :
    encodeValues identity location p q t = .ok encoded ↔
      encoded = encodedBlock ⟨identity, location, p, q, t⟩ ∧
        IsEncodable ⟨identity, location, p, q, t⟩ := by
  constructor
  · intro h
    simp only [encodeValues, GiveMePi.bind_eq_ok, BlockLocation.validate_eq_ok,
      GMPSerialization.magnitudeSize_eq_ok_iff, checkedPayloadSize_eq_ok, pure_eq_ok,
      Except.ok.injEq] at h
    obtain ⟨_, hidentity, _, ⟨hstart, hstop⟩, _, ⟨rfl, hp⟩, _, ⟨rfl, hq⟩, _, ⟨rfl, ht⟩, _,
      ⟨rfl, hpayload⟩, _, _, _, hpBytes, _, hqBytes, _, htBytes, _, hchecksum, rfl⟩ := h
    rw [GMPSerialization.exportMagnitude_eq hp, Except.ok.injEq] at hpBytes
    rw [GMPSerialization.exportMagnitude_eq hq, Except.ok.injEq] at hqBytes
    rw [GMPSerialization.exportMagnitude_eq ht, Except.ok.injEq] at htBytes
    subst hpBytes hqBytes htBytes
    have hbytes := headerBytes_append ⟨identity, location, p, q, t⟩
    dsimp only at hbytes
    rw [hbytes, blockChecksum_eq ⟨identity, location, p, q, t⟩ (length_appendU32 0),
      Except.ok.injEq] at hchecksum
    subst hchecksum
    refine ⟨?_, hidentity, hstart, hstop, hp, hq, ht, hpayload⟩
    rw [hbytes, ← length_beforeChecksum identity location, storeU32_append _ (length_appendU32 0)]
    rfl
  · rintro ⟨rfl, h⟩
    have hbytes := headerBytes_append ⟨identity, location, p, q, t⟩
    dsimp only at hbytes
    have hsum : blockChecksum (beforeChecksum identity location ++ appendU32 0 ++
        afterChecksum p q t) = .ok (checksumOf ⟨identity, location, p, q, t⟩) :=
      blockChecksum_eq ⟨identity, location, p, q, t⟩ (length_appendU32 0)
    simp only [encodeValues, GiveMePi.bind_eq_ok, BlockLocation.validate_eq_ok,
      GMPSerialization.magnitudeSize_eq_ok_iff, checkedPayloadSize_eq_ok, throwIf_eq_ok, not_not,
      pure_eq_ok, Except.ok.injEq]
    refine ⟨(), h.identity, (), ⟨h.start_lt, h.stop_le⟩, _, ⟨rfl, h.p_size⟩, _, ⟨rfl, h.q_size⟩, _,
      ⟨rfl, h.t_size⟩, _, ⟨rfl, h.payload⟩, (), length_headerBytes _ _ _ _ _ _ _ _, _,
      GMPSerialization.exportMagnitude_eq h.p_size, _, GMPSerialization.exportMagnitude_eq h.q_size,
      _, GMPSerialization.exportMagnitude_eq h.t_size, _,
      (congrArg blockChecksum hbytes).trans hsum, ?_⟩
    rw [hbytes, ← length_beforeChecksum identity location, storeU32_append _ (length_appendU32 0)]
    rfl

/-- Decoding undoes encoding. -/
theorem decode_blockBytes {block : CheckpointBlock} (h : IsDecodable block) :
    decode (blockBytes block) = .ok block :=
  decode_eq_ok_iff.mpr ⟨rfl, h⟩

/-! ## Round trips -/

theorem encode_eq_ok_iff {block : CheckpointBlock} {bytes : Bytes} :
    encode block = .ok bytes ↔ bytes = blockBytes block ∧ IsEncodable block := by
  simp only [encode, GiveMePi.bind_eq_ok, encodeValues_eq_ok_iff, pure_eq_ok, Except.ok.injEq]
  constructor
  · intro h
    obtain ⟨_, ⟨rfl, hencodable⟩, rfl⟩ := h
    exact ⟨rfl, hencodable⟩
  · intro h
    exact ⟨_, ⟨rfl, h.2⟩, h.1.symm⟩

/-- The integers of GMP are within the size checks. -/
theorem IsDecodable.isEncodable {block : CheckpointBlock} (h : IsDecodable block)
    (hp : GMPInteger.Fits block.p) (hq : GMPInteger.Fits block.q) (ht : GMPInteger.Fits block.t) :
    IsEncodable block := by
  have hpLength := GMPSerialization.length_magnitude_lt hp
  have hqLength := GMPSerialization.length_magnitude_lt hq
  have htLength := GMPSerialization.length_magnitude_lt ht
  rw [GMPInteger.Fits, GMPInteger.maximumLimbs] at hp hq ht
  refine ⟨h.identity, h.start_lt, h.stop_le, by omega, by omega, by omega, ?_⟩
  rw [payloadLength]
  omega

/-- Blocks and their encodings correspond one to one: a block within the size checks comes back from
its bytes, no two byte strings hold one block, and the bytes of a block of GMP integers are those
that encoding writes. -/
theorem encode_decode_inverse (block : CheckpointBlock) :
    (IsEncodable block → ∃ bytes, encode block = .ok bytes ∧ decode bytes = .ok block) ∧
      (∀ bytes bytes', decode bytes = .ok block → decode bytes' = .ok block → bytes = bytes') ∧
        (GMPInteger.Fits block.p → GMPInteger.Fits block.q → GMPInteger.Fits block.t →
          ∀ bytes, decode bytes = .ok block → encode block = .ok bytes) := by
  refine ⟨?_, ?_, ?_⟩
  · intro h
    exact ⟨blockBytes block, encode_eq_ok_iff.mpr ⟨rfl, h⟩, decode_blockBytes h.isDecodable⟩
  · intro bytes bytes' h h'
    rw [(decode_eq_ok_iff.mp h).1, (decode_eq_ok_iff.mp h').1]
  · intro hp hq ht bytes h
    obtain ⟨rfl, hdecodable⟩ := decode_eq_ok_iff.mp h
    exact encode_eq_ok_iff.mpr ⟨rfl, hdecodable.isEncodable hp hq ht⟩

/-- A block with a negative value. -/
theorem encode_decode_inverse_negative :
    let block : CheckpointBlock := ⟨⟨⟨1⟩, 1, 1, 1, 16, 17, 3⟩, ⟨0, 3, 2⟩, 0, 1, -1⟩
    ∃ bytes, encode block = .ok bytes ∧ decode bytes = .ok block ∧ encode block = .ok bytes := by
  intro block
  have hencodable : IsEncodable block :=
    ⟨by decide, by decide, by decide, by decide, by decide, by decide, by decide⟩
  obtain ⟨hencode, -, hdecode⟩ := encode_decode_inverse block
  obtain ⟨bytes, hbytes, hblock⟩ := hencode hencodable
  exact ⟨bytes, hbytes, hblock, hdecode (by decide) (by decide) (by decide) bytes hblock⟩

end GiveMePi.Checkpoint.CheckpointBlockCodec
