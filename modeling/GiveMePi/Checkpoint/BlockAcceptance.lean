import GiveMePi.Checkpoint.BlockFormat
import GiveMePi.Checkpoint.CheckpointBlockValidator

/-! # Which blocks the validator accepts

The validator agrees with the codec. -/

namespace GiveMePi.Checkpoint.CheckpointBlockValidator

open CheckpointBlockCodec

/-! ## The fields of an encoded block -/

theorem rejectIf_eq_ok {condition : Prop} [Decidable condition] {stage : ValidationStage}
    {reason : RejectionReason} {detail : String} {u : Unit} :
    rejectIf condition stage reason detail = .ok u ↔ ¬ condition := by
  rw [rejectIf]
  split <;> simp [*]

theorem field_skip {before after : Bytes} {offset width : ℕ} (h : before.length ≤ offset) :
    field (before ++ after) offset width = field after (offset - before.length) width := by
  rw [field, field, List.drop_append, List.drop_eq_nil_of_le h, List.nil_append]

theorem field_first {value after : Bytes} {width : ℕ} (h : value.length = width) :
    field (value ++ after) 0 width = value := by
  subst h
  rw [field, List.drop_zero, List.take_left]

theorem byteAt_skip {before after : Bytes} {offset : ℕ} (h : before.length ≤ offset) :
    byteAt (before ++ after) offset = byteAt after (offset - before.length) := by
  rw [byteAt, byteAt, List.getD_eq_getElem?_getD, List.getD_eq_getElem?_getD,
    List.getElem?_append_right h]

theorem length_blockMagic : blockMagic.length = 8 := rfl

section Fields

variable (block : CheckpointBlock)

theorem readU16_version : readU16 (blockBytes block) 8 = formatVersion := by
  rw [readU16]
  unfold blockBytes beforeChecksum
  simp -implicitDefEqProofs only [List.append_assoc, field_skip, field_first, length_blockMagic,
    length_appendU16, Nat.sub_self, le_refl, wordU16_appendU16]

theorem readU16_headerSize : readU16 (blockBytes block) 10 = version1HeaderSize := by
  rw [readU16]
  unfold blockBytes beforeChecksum
  simp -implicitDefEqProofs only [List.append_assoc, field_skip, field_first, length_blockMagic,
    length_appendU16, Nat.reduceLeDiff, Nat.reduceSub, Nat.sub_self, le_refl, wordU16_appendU16]

theorem readU32_flags : readU32 (blockBytes block) 12 = 0 := by
  rw [readU32]
  unfold blockBytes beforeChecksum
  simp -implicitDefEqProofs only [List.append_assoc, field_skip, field_first, length_blockMagic,
    length_appendU16, length_appendU32, Nat.reduceLeDiff, Nat.reduceSub, Nat.sub_self, le_refl,
    wordU32_appendU32]

theorem readU16_reserved : readU16 (blockBytes block) 22 = 0 := by
  rw [readU16]
  unfold blockBytes beforeChecksum identityBytes
  simp -implicitDefEqProofs only [List.append_assoc, field_skip, field_first, length_blockMagic,
    length_appendU16, length_appendU32, Nat.reduceLeDiff, Nat.reduceSub, Nat.sub_self, le_refl,
    wordU16_appendU16]

theorem readU32_reserved : readU32 (blockBytes block) 36 = 0 := by
  rw [readU32]
  unfold blockBytes beforeChecksum identityBytes
  simp -implicitDefEqProofs only [List.append_assoc, field_skip, field_first, length_blockMagic,
    length_appendU16, length_appendU32, length_appendU64, Nat.reduceLeDiff, Nat.reduceSub,
    Nat.sub_self, le_refl, wordU32_appendU32]

theorem readU64_termCount : readU64 (blockBytes block) 48 = block.identity.termCount := by
  rw [readU64]
  unfold blockBytes beforeChecksum identityBytes
  simp -implicitDefEqProofs only [List.append_assoc, field_skip, field_first, length_blockMagic,
    length_appendU16, length_appendU32, length_appendU64, Nat.reduceLeDiff, Nat.reduceSub,
    Nat.sub_self, le_refl, wordU64_appendU64]

theorem readU64_start : readU64 (blockBytes block) 56 = block.location.start := by
  rw [readU64]
  unfold blockBytes beforeChecksum locationBytes
  simp -implicitDefEqProofs only [List.append_assoc, field_skip, field_first, length_blockMagic,
    length_identityBytes, length_appendU16, length_appendU32, length_appendU64, Nat.reduceLeDiff,
    Nat.reduceSub, Nat.sub_self, le_refl, wordU64_appendU64]

theorem readU64_stop : readU64 (blockBytes block) 64 = block.location.stop := by
  rw [readU64]
  unfold blockBytes beforeChecksum locationBytes
  simp -implicitDefEqProofs only [List.append_assoc, field_skip, field_first, length_blockMagic,
    length_identityBytes, length_appendU16, length_appendU32, length_appendU64, Nat.reduceLeDiff,
    Nat.reduceSub, Nat.sub_self, le_refl, wordU64_appendU64]

theorem readU32_treeLevel : readU32 (blockBytes block) 72 = block.location.treeLevel := by
  rw [readU32]
  unfold blockBytes beforeChecksum locationBytes
  simp -implicitDefEqProofs only [List.append_assoc, field_skip, field_first, length_blockMagic,
    length_identityBytes, length_appendU16, length_appendU32, length_appendU64, Nat.reduceLeDiff,
    Nat.reduceSub, Nat.sub_self, le_refl, wordU32_appendU32]

theorem readU16_checksumAlgorithm :
    readU16 (blockBytes block) 76 = ChecksumAlgorithm.crc32c.code := by
  rw [readU16]
  unfold blockBytes beforeChecksum
  simp -implicitDefEqProofs only [List.append_assoc, field_skip, field_first, length_blockMagic,
    length_identityBytes, length_locationBytes, length_appendU16, length_appendU32,
    Nat.reduceLeDiff, Nat.reduceSub, Nat.sub_self, le_refl, wordU16_appendU16]

theorem readU16_checksumSize : readU16 (blockBytes block) 78 = checksumSize := by
  rw [readU16]
  unfold blockBytes beforeChecksum
  simp -implicitDefEqProofs only [List.append_assoc, field_skip, field_first, length_blockMagic,
    length_identityBytes, length_locationBytes, length_appendU16, length_appendU32,
    Nat.reduceLeDiff, Nat.reduceSub, Nat.sub_self, le_refl, wordU16_appendU16]

theorem readU32_checksum : readU32 (blockBytes block) checksumOffset = checksumOf block := by
  rw [readU32, blockBytes, List.append_assoc, field_skip (length_beforeChecksum _ _).le,
    length_beforeChecksum, Nat.sub_self, field_first (length_appendU32 _), wordU32_appendU32]

/-- What follows the checksum, by its own offset. -/
theorem field_afterChecksum (offset width : ℕ) :
    field (blockBytes block) (84 + offset) width =
      field (afterChecksum block.p block.q block.t) offset width := by
  have hlength : (beforeChecksum block.identity block.location ++
      appendU32 (checksumOf block)).length = 84 := by
    simp only [List.length_append, length_beforeChecksum, length_appendU32, checksumOffset]
  rw [blockBytes, field_skip (by omega), hlength, Nat.add_sub_cancel_left]

theorem byteAt_afterChecksum (offset : ℕ) :
    byteAt (blockBytes block) (84 + offset) =
      byteAt (afterChecksum block.p block.q block.t) offset := by
  have hlength : (beforeChecksum block.identity block.location ++
      appendU32 (checksumOf block)).length = 84 := by
    simp only [List.length_append, length_beforeChecksum, length_appendU32, checksumOffset]
  rw [blockBytes, byteAt_skip (by omega), hlength, Nat.add_sub_cancel_left]

theorem byteAt_reserved : byteAt (blockBytes block) 87 = 0 :=
  (byteAt_afterChecksum block 3).trans rfl

theorem byteAt_pSign :
    byteAt (blockBytes block) 84 = (GMPSerialization.sign block.p).code :=
  (byteAt_afterChecksum block 0).trans rfl

theorem byteAt_qSign :
    byteAt (blockBytes block) 85 = (GMPSerialization.sign block.q).code :=
  (byteAt_afterChecksum block 1).trans rfl

theorem byteAt_tSign :
    byteAt (blockBytes block) 86 = (GMPSerialization.sign block.t).code :=
  (byteAt_afterChecksum block 2).trans rfl

theorem readU64_pLength :
    readU64 (blockBytes block) 88 = UInt64.ofNat (GMPSerialization.magnitude block.p).length := by
  rw [readU64, field_afterChecksum block 4 8]
  unfold afterChecksum lengthBytes
  simp -implicitDefEqProofs only [List.append_assoc, field_skip, field_first, length_appendU8,
    length_appendU64, Nat.reduceLeDiff, Nat.reduceSub, Nat.sub_self, le_refl, wordU64_appendU64]

theorem readU64_qLength :
    readU64 (blockBytes block) 96 = UInt64.ofNat (GMPSerialization.magnitude block.q).length := by
  rw [readU64, field_afterChecksum block 12 8]
  unfold afterChecksum lengthBytes
  simp -implicitDefEqProofs only [List.append_assoc, field_skip, field_first, length_appendU8,
    length_appendU64, Nat.reduceLeDiff, Nat.reduceSub, Nat.sub_self, le_refl, wordU64_appendU64]

theorem readU64_tLength :
    readU64 (blockBytes block) 104 = UInt64.ofNat (GMPSerialization.magnitude block.t).length := by
  rw [readU64, field_afterChecksum block 20 8]
  unfold afterChecksum lengthBytes
  simp -implicitDefEqProofs only [List.append_assoc, field_skip, field_first, length_appendU8,
    length_appendU64, Nat.reduceLeDiff, Nat.reduceSub, Nat.sub_self, le_refl, wordU64_appendU64]

theorem byteAt_payload (offset : ℕ) :
    byteAt (blockBytes block) (112 + offset) =
      byteAt (payloadBytes block.p block.q block.t) offset := by
  have hlength : (appendU8 (GMPSerialization.sign block.p).code ++
      appendU8 (GMPSerialization.sign block.q).code ++ appendU8 (GMPSerialization.sign block.t).code
        ++ appendU8 0 ++ lengthBytes block.p block.q block.t).length = 28 := by
    simp only [lengthBytes, List.length_append, length_appendU8, length_appendU64]
  have hoffset : 112 + offset = 84 + (28 + offset) := by omega
  rw [hoffset, byteAt_afterChecksum, afterChecksum, byteAt_skip (by omega), hlength,
    Nat.add_sub_cancel_left]

end Fields

/-! ## Agreement with the codec -/

/-- The sign of an integer agrees with its magnitude, wherever that stands. -/
theorem checkSign_eq_ok {bytes : Bytes} {signOffset payloadOffset length : ℕ} {value : ℤ}
    {after : Bytes} (hsign : byteAt bytes signOffset = (GMPSerialization.sign value).code)
    (hlength : length = (GMPSerialization.magnitude value).length)
    (hpayload : byteAt bytes payloadOffset = byteAt (GMPSerialization.magnitude value ++ after) 0) :
    checkSign bytes signOffset length payloadOffset = .ok () := by
  rw [checkSign, rejectIf_eq_ok, hsign, hpayload, hlength]
  by_cases hzero : value = 0
  · subst hzero
    simp [GMPSerialization.sign, IntegerSign.zero]
  · obtain ⟨byte, rest, hbytes, hbyte⟩ :=
      GMPSerialization.head_exportBytes (Int.natAbs_pos.mpr hzero)
    have hcode : (GMPSerialization.sign value).code = 1 ∨
        (GMPSerialization.sign value).code = 2 := by
      rw [GMPSerialization.sign, if_neg hzero]
      split
      · exact Or.inl rfl
      · exact Or.inr rfl
    have hmagnitude : GMPSerialization.magnitude value = byte :: rest := hbytes
    have hfirst : byteAt (byte :: rest ++ after) 0 = byte := rfl
    rw [hmagnitude, hfirst]
    rcases hcode with hcode | hcode <;> simp [hcode, hbyte]

/-- What the validator reports of a block it accepts. -/
def validatedBlock (block : CheckpointBlock) : ValidatedCheckpointBlock where
  encodedSize := UInt64.ofNat (blockBytes block).length
  payloadSize := UInt64.ofNat (payloadLength block.p block.q block.t)
  checksumAlgorithm := ChecksumAlgorithm.crc32c
  checksum := checksumOf block
  block := block

theorem checkHeader_blockBytes (block : CheckpointBlock) :
    checkHeader (blockBytes block) = .ok () := by
  have hsize : version1HeaderSize.toNat = 112 := rfl
  have hmagic : (blockBytes block).take blockMagic.length = blockMagic := by
    unfold blockBytes beforeChecksum
    simp only [List.append_assoc, List.take_left]
  simp only [checkHeader, GiveMePi.bind_eq_ok, rejectIf_eq_ok, hmagic, readU16_version,
    readU16_headerSize, readU32_flags, readU16_reserved, readU32_reserved, byteAt_reserved,
    length_blockBytes, hsize]
  exact ⟨(), by omega, (), not_not.mpr rfl, (), by simp, by simp⟩

theorem checkChecksum_blockBytes (block : CheckpointBlock) :
    checkChecksum (blockBytes block) = .ok () := by
  have hchecksum : CRC32C.calculateZeroed checksumOffset (blockBytes block) = checksumOf block :=
    CRC32C.calculateZeroed_slot (length_beforeChecksum _ _) (length_appendU32 _) (length_appendU32 0)
  simp only [checkChecksum, GiveMePi.bind_eq_ok, rejectIf_eq_ok, readU16_checksumAlgorithm,
    readU16_checksumSize, readU32_checksum, hchecksum]
  exact ⟨(), by decide, not_not.mpr rfl⟩

section Encoded

variable {block : CheckpointBlock} (h : IsDecodable block)
include h

theorem checkLocation_blockBytes
    (hlevel : block.location.treeLevel ≤ maximumTreeLevel block.identity.termCount) :
    checkLocation (blockBytes block) = .ok () := by
  simp only [checkLocation, GiveMePi.bind_eq_ok, rejectIf_eq_ok, readU64_termCount, readU64_start,
    readU64_stop, readU32_treeLevel]
  refine ⟨(), ?_, ?_⟩
  · simpa using ⟨h.start_lt, h.stop_le⟩
  · simpa using ⟨h.identity.termCount_pos.ne', hlevel⟩

theorem toNat_lengths :
    (UInt64.ofNat (GMPSerialization.magnitude block.p).length).toNat =
        (GMPSerialization.magnitude block.p).length ∧
      (UInt64.ofNat (GMPSerialization.magnitude block.q).length).toNat =
        (GMPSerialization.magnitude block.q).length ∧
      (UInt64.ofNat (GMPSerialization.magnitude block.t).length).toNat =
        (GMPSerialization.magnitude block.t).length := by
  have hpayload := h.payload
  rw [payloadLength] at hpayload
  have hfit {n : ℕ} (hn : n < 2 ^ 64) : (UInt64.ofNat n).toNat = n := UInt64.toNat_ofNat_of_lt' hn
  exact ⟨hfit (by omega), hfit (by omega), hfit (by omega)⟩

theorem checkLengths_blockBytes :
    checkLengths (blockBytes block) =
      .ok (UInt64.ofNat (payloadLength block.p block.q block.t)) := by
  have hsize : version1HeaderSize.toNat = 112 := rfl
  have hpayload := h.payload
  obtain ⟨hp, hq, ht⟩ := toNat_lengths h
  obtain ⟨hpq, hpqt, hsum⟩ := checkedSum_iff
    (a := UInt64.ofNat (GMPSerialization.magnitude block.p).length)
    (b := UInt64.ofNat (GMPSerialization.magnitude block.q).length)
    (c := UInt64.ofNat (GMPSerialization.magnitude block.t).length).mpr
      ⟨(by rw [hp, hq, ht, payloadLength]), hpayload⟩
  have hremaining : (blockBytes block).length - 112 = payloadLength block.p block.q block.t := by
    rw [length_blockBytes]
    omega
  simp only [checkLengths, GiveMePi.bind_eq_ok, rejectIf_eq_ok, readU64_pLength, readU64_qLength,
    readU64_tLength, hsize, hremaining, hsum, pure_eq_ok, Except.ok.injEq]
  refine ⟨(), hpq, (), hpqt, (), lt_irrefl _, (), lt_irrefl _, ?_⟩
  rw [← UInt64.toNat_inj, hsum, UInt64.toNat_ofNat_of_lt' hpayload]

theorem checkSigns_blockBytes : checkSigns (blockBytes block) = .ok () := by
  have hsize : version1HeaderSize.toNat = 112 := rfl
  obtain ⟨hp, hq, ht⟩ := toNat_lengths h
  have hpayload : payloadBytes block.p block.q block.t = GMPSerialization.magnitude block.p ++
      (GMPSerialization.magnitude block.q ++ GMPSerialization.magnitude block.t) :=
    List.append_assoc _ _ _
  simp only [checkSigns, GiveMePi.bind_eq_ok, readU64_pLength, readU64_qLength, readU64_tLength,
    hp, hq, ht, hsize]
  have hpFirst : byteAt (blockBytes block) 112 = byteAt (GMPSerialization.magnitude block.p ++
      (GMPSerialization.magnitude block.q ++ GMPSerialization.magnitude block.t)) 0 :=
    (byteAt_payload block 0).trans (by rw [hpayload])
  have hqFirst : byteAt (blockBytes block) (112 + (GMPSerialization.magnitude block.p).length) =
      byteAt (GMPSerialization.magnitude block.q ++ GMPSerialization.magnitude block.t) 0 := by
    rw [byteAt_payload, hpayload, byteAt_skip le_rfl, Nat.sub_self]
  have htFirst : byteAt (blockBytes block) (112 + (GMPSerialization.magnitude block.p).length +
      (GMPSerialization.magnitude block.q).length) =
        byteAt (GMPSerialization.magnitude block.t ++ []) 0 := by
    rw [Nat.add_assoc, byteAt_payload, hpayload, byteAt_skip (by omega), Nat.add_sub_cancel_left,
      byteAt_skip le_rfl, Nat.sub_self, List.append_nil]
  exact ⟨(), checkSign_eq_ok (byteAt_pSign block) rfl hpFirst, (),
    checkSign_eq_ok (byteAt_qSign block) rfl hqFirst,
    checkSign_eq_ok (byteAt_tSign block) rfl htFirst⟩

end Encoded

/-- The validator accepts what the codec decodes to a block of the computation with an admissible
tree level, and nothing else. -/
theorem examine_eq_ok_iff {bytes : Bytes} {identity : ComputationIdentity}
    {validated : ValidatedCheckpointBlock} :
    examine bytes identity = .ok validated ↔ ∃ block, decode bytes = .ok block ∧
      block.identity = identity ∧
        block.location.treeLevel ≤ maximumTreeLevel identity.termCount ∧
          validated = validatedBlock block := by
  constructor
  · intro h
    rw [examine] at h
    cases hexpected : identity.validate with
    | error e => simp [hexpected] at h
    | ok u =>
        simp only [hexpected, GiveMePi.bind_eq_ok] at h
        obtain ⟨_, _, _, hlocation, payloadSize, hlengths, _, _, _, _, h⟩ := h
        cases hdecode : decode bytes with
        | error e => simp [hdecode] at h
        | ok block =>
            rw [hdecode] at h
            simp only [GiveMePi.bind_eq_ok, rejectIf_eq_ok, pure_eq_ok, Except.ok.injEq,
              not_not] at h
            obtain ⟨_, hidentity, rfl⟩ := h
            obtain ⟨rfl, hdecodable⟩ := decode_eq_ok_iff.mp hdecode
            have hlevel : block.location.treeLevel ≤ maximumTreeLevel identity.termCount := by
              simp only [checkLocation, GiveMePi.bind_eq_ok, rejectIf_eq_ok, readU64_termCount,
                readU32_treeLevel, hidentity, not_or, not_lt, gt_iff_lt] at hlocation
              obtain ⟨_, _, _, hlevel⟩ := hlocation
              exact hlevel
            rw [checkLengths_blockBytes hdecodable] at hlengths
            cases hlengths
            refine ⟨block, rfl, hidentity, hlevel, ?_⟩
            rw [validatedBlock, readU16_checksumAlgorithm, readU32_checksum]
  · intro h
    obtain ⟨block, hdecode, rfl, hlevel, rfl⟩ := h
    obtain ⟨rfl, hdecodable⟩ := decode_eq_ok_iff.mp hdecode
    have hidentity : block.identity.validate = .ok () := hdecodable.identity
    rw [examine]
    simp only [hidentity, checkHeader_blockBytes, checkLocation_blockBytes hdecodable hlevel,
      checkLengths_blockBytes hdecodable, checkSigns_blockBytes hdecodable,
      checkChecksum_blockBytes, hdecode, pure_eq_ok, ok_bind]
    rw [(rejectIf_eq_ok (u := ())).mpr (not_not.mpr rfl), ok_bind, validatedBlock, readU16_checksumAlgorithm,
      readU32_checksum]

theorem hasAcceptedBlock_eq (bytes : Bytes) (identity : ComputationIdentity) :
    (validate bytes identity).hasAcceptedBlock = true ↔ ∃ validated,
      examine bytes identity = .ok validated ∧ (validate bytes identity).block = some validated := by
  rw [validate, CheckpointBlockValidation.hasAcceptedBlock]
  cases examine bytes identity with
  | error e => simp
  | ok validated => simp

end GiveMePi.Checkpoint.CheckpointBlockValidator
