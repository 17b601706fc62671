import GiveMePi.Checkpoint.BlockFormat
import GiveMePi.Verification.VerificationManifest

/-! # The verification manifest format is exact

A byte string decodes to a verification manifest exactly when it is the one encoding of that
manifest. -/

namespace GiveMePi.Verification.VerificationManifestCodec

open Checkpoint (CRC32C.calculateZeroed CRC32C.calculateZeroed_slot storeU32
  CheckpointBlockCodec.storeU32_append)

/-! ## Manifests that validation accepts -/

/-- A manifest that `validate` accepts. -/
def IsAccepted (manifest : VerificationManifest) : Prop :=
  manifest.validate = .ok ()

instance (manifest : VerificationManifest) : Decidable (IsAccepted manifest) :=
  inferInstanceAs (Decidable (_ = _))

/-- The lengths of an accepted manifest are those that decoding allows. -/
theorem IsAccepted.lengths {manifest : VerificationManifest} (h : IsAccepted manifest) :
    manifest.outputFilename.length ≤ 255 ∧
      manifest.bbpSamples.length ≤ maximumBBPSampleCount := by
  simp only [IsAccepted, VerificationManifest.validate, GiveMePi.bind_eq_ok, throwIf_eq_ok, not_or,
    not_lt, gt_iff_lt] at h
  obtain ⟨_, _, _, _, _, ⟨hfilename, _⟩, _, ⟨_, hsamples⟩, _⟩ := h
  exact ⟨hfilename, hsamples⟩

/-! ## The bytes of a manifest -/

/-- The bytes of a manifest before its checksum. -/
def beforeChecksum (manifest : VerificationManifest) : Bytes :=
  magic ++ appendU16 formatVersion ++ appendU16 version1HeaderSize ++ appendU32 0
    ++ identityBytes manifest.identity ++ appendU64 manifest.canonicalByteCount
    ++ manifest.sha256.bytes ++ appendU32 manifest.knownDigitsReferenceVersion
    ++ appendU8 (statusByte manifest.overallStatus) ++ appendU8 0 ++ appendU16 0
    ++ appendU64 manifest.verifiedAtUnixSeconds
    ++ appendU32 (UInt32.ofNat manifest.bbpSamples.length)
    ++ appendU32 (UInt32.ofNat manifest.outputFilename.length)
    ++ appendU16 1 ++ appendU16 4

/-- The bytes of a manifest after its checksum. -/
def afterChecksum (manifest : VerificationManifest) : Bytes :=
  manifest.outputFilename ++ manifest.bbpSamples.flatMap sampleBytes

/-- The checksum of a manifest. -/
def checksumOf (manifest : VerificationManifest) : UInt32 :=
  CRC32C.calculateZeroed checksumOffset
    (beforeChecksum manifest ++ appendU32 0 ++ afterChecksum manifest)

/-- The bytes of a manifest. -/
def manifestBytes (manifest : VerificationManifest) : Bytes :=
  beforeChecksum manifest ++ appendU32 (checksumOf manifest) ++ afterChecksum manifest

theorem headerBytes_eq (manifest : VerificationManifest) :
    headerBytes manifest = beforeChecksum manifest ++ appendU32 0 := by
  unfold headerBytes beforeChecksum
  simp only [List.append_assoc]

theorem length_beforeChecksum (manifest : VerificationManifest) :
    (beforeChecksum manifest).length = checksumOffset := by
  unfold beforeChecksum identityBytes
  simp only [List.length_append, length_appendU8, length_appendU16, length_appendU32,
    length_appendU64, manifest.sha256.length_eq]
  rfl

theorem length_sampleBytes (sample : VerificationManifestSample) :
    (sampleBytes sample).length = sampleSize := rfl

theorem length_flatMap_sampleBytes (samples : List VerificationManifestSample) :
    (samples.flatMap sampleBytes).length = samples.length * sampleSize := by
  induction samples with
  | nil => rfl
  | cons sample rest ih =>
      rw [List.flatMap_cons, List.length_append, ih, length_sampleBytes, List.length_cons,
        Nat.succ_mul, add_comm]

/-- The checksum of a manifest does not depend on what stands in the checksum's place. -/
theorem checksum_eq (manifest : VerificationManifest) {slot : Bytes} (hslot : slot.length = 4) :
    checksum (beforeChecksum manifest ++ slot ++ afterChecksum manifest) =
      .ok (checksumOf manifest) := by
  have hlength : ¬ (beforeChecksum manifest ++ slot ++ afterChecksum manifest).length <
      version1HeaderSize.toNat := by
    have hsize : version1HeaderSize.toNat = 120 := rfl
    simp only [List.length_append, length_beforeChecksum, hslot, checksumOffset, hsize]
    omega
  rw [checksum, throwIf_neg hlength, ok_bind, pure_eq_ok, checksumOf,
    CRC32C.calculateZeroed_slot (length_beforeChecksum _) hslot (length_appendU32 0)]

/-! ## Decoding -/

@[simp] theorem statusFromByte_eq_ok {value : UInt8} {status : VerificationStatus} :
    statusFromByte value = .ok status ↔ value = statusByte status := by
  constructor
  · intro h
    unfold statusFromByte at h
    split at h <;> cases h <;> rfl
  · intro h
    subst h
    cases status <;> rfl

theorem readIdentity_eq_ok {bytes rest : Bytes} {identity : VerificationIdentity} :
    readIdentity bytes = .ok (identity, rest) ↔ bytes = identityBytes identity ++ rest := by
  simp only [readIdentity, ↓Reader.throwIf_bind_eq_ok, Reader.bind_eq_ok, Reader.readU32_eq_ok,
    Reader.readU64_eq_ok, Reader.pure_eq_ok, not_not]
  constructor
  · intro h
    obtain ⟨_, _, rfl, _, _, rfl, _, _, rfl, rfl, _, _, rfl, _, _, rfl, rfl, rfl⟩ := h
    simp only [identityBytes, List.append_assoc]
  · intro h
    subst h
    exact ⟨_, _, by simp only [identityBytes, List.append_assoc], _, _, rfl, _, _, rfl, rfl, _, _, rfl,
      _, _, rfl, rfl, rfl⟩

theorem readDigest_eq_ok {bytes rest : Bytes} {digest : SHA256Digest} :
    readDigest bytes = .ok (digest, rest) ↔ bytes = digest.bytes ++ rest := by
  rw [readDigest]
  by_cases h : 32 ≤ bytes.length
  · rw [dif_pos h]
    simp only [Except.ok.injEq, Prod.mk.injEq]
    constructor
    · intro hread
      obtain ⟨rfl, rfl⟩ := hread
      exact (List.take_append_drop 32 bytes).symm
    · intro hbytes
      obtain ⟨digest, hlength⟩ := digest
      dsimp only at hbytes
      subst hbytes
      simp only [← hlength, List.take_left, List.drop_left, and_self]
  · rw [dif_neg h]
    constructor
    · intro hread
      cases hread
    · intro hbytes
      rw [hbytes, List.length_append, digest.length_eq] at h
      omega

theorem readOverall_eq_ok {bytes rest : Bytes} {status : VerificationStatus} :
    readOverall bytes = .ok (status, rest) ↔
      bytes = appendU8 (statusByte status) ++ appendU8 0 ++ appendU16 0 ++ rest := by
  simp only [readOverall, ↓Reader.throwIf_bind_eq_ok, Reader.bind_eq_ok, Reader.readU8_eq_ok,
    Reader.readU16_eq_ok, Reader.liftM_eq_ok, Reader.pure_eq_ok, statusFromByte_eq_ok, not_not]
  constructor
  · intro h
    obtain ⟨_, _, rfl, _, _, ⟨rfl, rfl⟩, _, _, rfl, rfl, _, _, rfl, rfl, rfl, rfl⟩ := h
    simp only [List.append_assoc]
  · intro h
    subst h
    exact ⟨_, _, by simp only [List.append_assoc], _, _, ⟨rfl, rfl⟩, _, _, rfl, rfl, _, _, rfl, rfl,
      rfl, rfl⟩

theorem readChecksum_eq_ok {whole bytes rest : Bytes} {u : Unit} :
    readChecksum whole bytes = .ok (u, rest) ↔
      ∃ value, bytes = appendU16 1 ++ appendU16 4 ++ appendU32 value ++ rest ∧
        checksum whole = .ok value := by
  simp only [readChecksum, Reader.bind_eq_ok, Reader.readU16_eq_ok, Reader.readU32_eq_ok,
    throwIf_eq_ok, Reader.liftM_eq_ok, not_not]
  constructor
  · intro h
    obtain ⟨_, _, rfl, _, _, ⟨rfl, rfl⟩, _, _, rfl, _, _, ⟨rfl, rfl⟩, value, _, rfl, _, _,
      ⟨hwhole, rfl⟩, rfl, rfl⟩ := h
    exact ⟨_, by simp only [List.append_assoc], hwhole⟩
  · intro h
    obtain ⟨value, rfl, hwhole⟩ := h
    exact ⟨_, _, by simp only [List.append_assoc], (), _, ⟨rfl, rfl⟩, _, _, rfl, (), _, ⟨rfl, rfl⟩,
      _, _, rfl, _, _, ⟨hwhole, rfl⟩, rfl, rfl⟩

theorem readSample_eq_ok {bytes rest : Bytes} {sample : VerificationManifestSample} :
    readSample bytes = .ok (sample, rest) ↔ bytes = sampleBytes sample ++ rest := by
  simp only [readSample, ↓Reader.throwIf_bind_eq_ok, Reader.bind_eq_ok, Reader.readU8_eq_ok,
    Reader.readU32_eq_ok, Reader.readU64_eq_ok, Reader.liftM_eq_ok, Reader.pure_eq_ok,
    statusFromByte_eq_ok, not_not]
  constructor
  · intro h
    obtain ⟨_, _, rfl, _, _, rfl, _, _, ⟨rfl, rfl⟩, _, _, rfl, _, _, rfl, _, _, rfl, rfl, _, _, rfl, rfl,
      rfl, rfl⟩ := h
    simp only [sampleBytes, List.append_assoc]
  · intro h
    subst h
    exact ⟨_, _, by simp only [sampleBytes, List.append_assoc], _, _, rfl, _, _, ⟨rfl, rfl⟩, _, _, rfl,
      _, _, rfl, _, _, rfl, rfl, _, _, rfl, rfl, rfl, rfl⟩

theorem readSamples_eq_ok {count : ℕ} {bytes rest : Bytes}
    {samples : List VerificationManifestSample} :
    readSamples count bytes = .ok (samples, rest) ↔
      samples.length = count ∧ bytes = samples.flatMap sampleBytes ++ rest := by
  induction count generalizing bytes samples rest with
  | zero =>
      simp only [readSamples, Reader.pure_eq_ok, List.length_eq_zero_iff]
      constructor
      · intro h
        obtain ⟨rfl, rfl⟩ := h
        exact ⟨rfl, rfl⟩
      · intro h
        obtain ⟨rfl, rfl⟩ := h
        exact ⟨rfl, rfl⟩
  | succ count ih =>
      simp only [readSamples, Reader.bind_eq_ok, readSample_eq_ok, ih, Reader.pure_eq_ok]
      constructor
      · intro h
        obtain ⟨sample, _, rfl, samples, _, ⟨rfl, rfl⟩, rfl, rfl⟩ := h
        exact ⟨rfl, by simp only [List.flatMap_cons, List.append_assoc]⟩
      · intro h
        obtain ⟨hlength, rfl⟩ := h
        obtain ⟨sample, samples, rfl⟩ := List.exists_cons_of_length_eq_add_one hlength
        refine ⟨sample, samples.flatMap sampleBytes ++ rest, ?_, samples, rest, ⟨?_, rfl⟩, rfl, rfl⟩
        · simp only [List.flatMap_cons, List.append_assoc]
        · simpa using hlength

/-- Decoding returns a manifest exactly on the encoding of that manifest. -/
theorem decode_eq_ok_iff {bytes : Bytes} {manifest : VerificationManifest} :
    decode bytes = .ok manifest ↔ bytes = manifestBytes manifest ∧ IsAccepted manifest := by
  simp only [decode, GiveMePi.bind_eq_ok, Prod.exists, pure_eq_ok, Except.ok.injEq, readManifest,
    ↓Reader.throwIf_bind_eq_ok, Reader.bind_eq_ok, Reader.take_eq_ok, Reader.readU16_eq_ok,
    Reader.readU32_eq_ok, Reader.readU64_eq_ok, Reader.get_eq_ok, Reader.liftM_eq_ok,
    Reader.pure_eq_ok, readIdentity_eq_ok, readDigest_eq_ok, readOverall_eq_ok, readChecksum_eq_ok,
    readSamples_eq_ok, not_not]
  constructor
  · intro h
    obtain ⟨_, _, ⟨_, _, ⟨h₁, _⟩, hmagic, _, _, h₂, hversion, _, _, h₃, hsize, _, _, h₄, hflags, h⟩,
      hreturned⟩ := h
    subst hmagic hversion hsize hflags hreturned
    obtain ⟨identity, _, h₅, canonical, _, h₆, digest, _, h₇, reference, _, h₈, overall, _, h₉,
      timestamp, _, h₁₀, count, _, h₁₁, length, _, h₁₂, h⟩ := h
    obtain ⟨_, _, ⟨value, h₁₃, hvalue⟩, _, _, ⟨rfl, rfl⟩, hlengths, filename, _, ⟨h₁₄, hfilename⟩,
      samples, left, ⟨hcount, h₁₅⟩, _, _, ⟨haccepted, rfl⟩, rfl, rfl⟩ := h
    rw [not_or, not_or, not_not] at hlengths
    obtain rfl : left = [] := by
      have hsum := hlengths.2.2
      rw [h₁₄, h₁₅, List.length_append, List.length_append, length_flatMap_sampleBytes, hcount,
        hfilename] at hsum
      exact List.length_eq_zero_iff.mp (by omega)
    obtain rfl : count = UInt32.ofNat samples.length := by rw [hcount, UInt32.ofNat_toNat]
    obtain rfl : length = UInt32.ofNat filename.length := by rw [hfilename, UInt32.ofNat_toNat]
    generalize hmanifest : VerificationManifest.mk identity filename canonical digest reference
      timestamp overall samples = manifest at haccepted ⊢
    have hsplit : bytes = beforeChecksum manifest ++ appendU32 value ++ afterChecksum manifest := by
      rw [h₁, h₂, h₃, h₄, h₅, h₆, h₇, h₈, h₉, h₁₀, h₁₁, h₁₂, h₁₃, h₁₄, h₁₅, ← hmanifest]
      simp only [beforeChecksum, afterChecksum, List.append_assoc, List.append_nil]
    rw [hsplit, checksum_eq manifest (length_appendU32 _), Except.ok.injEq] at hvalue
    rw [← hvalue] at hsplit
    exact ⟨hsplit, haccepted⟩
  · intro h
    obtain ⟨hbytes, haccepted⟩ := h
    obtain ⟨hfilename, hsamples⟩ := haccepted.lengths
    have hcount : manifest.bbpSamples.length =
        (UInt32.ofNat manifest.bbpSamples.length).toNat :=
      (UInt32.toNat_ofNat_of_lt (hsamples.trans_lt (by decide))).symm
    have hlength : manifest.outputFilename.length =
        (UInt32.ofNat manifest.outputFilename.length).toNat :=
      (UInt32.toNat_ofNat_of_lt (hfilename.trans_lt (by decide))).symm
    have hlengths : ¬ ((UInt32.ofNat manifest.bbpSamples.length).toNat > maximumBBPSampleCount ∨
        UInt32.ofNat manifest.outputFilename.length > 255 ∨
          (afterChecksum manifest).length ≠ (UInt32.ofNat manifest.outputFilename.length).toNat +
            (UInt32.ofNat manifest.bbpSamples.length).toNat * sampleSize) := by
      rw [not_or, not_or, not_not, ← hcount, ← hlength, gt_iff_lt, gt_iff_lt, not_lt,
        UInt32.not_lt, UInt32.le_iff_toNat_le, ← hlength, afterChecksum, List.length_append,
        length_flatMap_sampleBytes]
      exact ⟨hsamples, hfilename, rfl⟩
    refine ⟨manifest, [], ⟨_, _, ⟨?_, rfl⟩, rfl, _, _, rfl, rfl, _, _, rfl, rfl, _, _, rfl, rfl,
      manifest.identity, _, rfl, manifest.canonicalByteCount, _, rfl, manifest.sha256, _, rfl, _, _,
      rfl, manifest.overallStatus, _, rfl, _, _, rfl, _, _, rfl, _, _, rfl, (), _,
      ⟨checksumOf manifest, rfl, ?_⟩, _, _, ⟨rfl, rfl⟩, hlengths, manifest.outputFilename, _,
      ⟨rfl, hlength⟩, manifest.bbpSamples, [], ⟨hcount, (List.append_nil _).symm⟩, (), _,
      ⟨haccepted, rfl⟩, rfl, rfl⟩, rfl⟩
    · rw [hbytes]
      simp only [manifestBytes, beforeChecksum, List.append_assoc]
    · rw [hbytes]
      exact checksum_eq manifest (length_appendU32 _)

/-! ## Encoding -/

theorem encode_eq_ok_iff {manifest : VerificationManifest} {bytes : Bytes} :
    encode manifest = .ok bytes ↔ bytes = manifestBytes manifest ∧ IsAccepted manifest := by
  have hchecksum := checksum_eq manifest (length_appendU32 0)
  have hstore : storeU32 (beforeChecksum manifest ++ appendU32 0 ++ afterChecksum manifest)
      checksumOffset (checksumOf manifest) = manifestBytes manifest := by
    rw [← length_beforeChecksum manifest,
      CheckpointBlockCodec.storeU32_append _ (length_appendU32 0)]
    rfl
  have hout : headerBytes manifest ++ manifest.outputFilename
      ++ manifest.bbpSamples.flatMap sampleBytes =
        beforeChecksum manifest ++ appendU32 0 ++ afterChecksum manifest := by
    rw [headerBytes_eq, afterChecksum, List.append_assoc]
  simp only [encode, hout, GiveMePi.bind_eq_ok, hchecksum, pure_eq_ok, Except.ok.injEq]
  constructor
  · intro h
    obtain ⟨_, haccepted, _, rfl, rfl⟩ := h
    exact ⟨hstore, haccepted⟩
  · intro h
    obtain ⟨rfl, haccepted⟩ := h
    exact ⟨(), haccepted, _, rfl, hstore⟩

/-- An accepted manifest comes back from its bytes, and a byte string that decodes is the one that
encoding writes. -/
theorem encode_decode_exact (manifest : VerificationManifest) :
    (manifest.validate = .ok () → ∃ bytes, encode manifest = .ok bytes ∧
      decode bytes = .ok manifest) ∧
        ∀ bytes, decode bytes = .ok manifest → encode manifest = .ok bytes := by
  refine ⟨?_, ?_⟩
  · intro haccepted
    exact ⟨manifestBytes manifest, encode_eq_ok_iff.mpr ⟨rfl, haccepted⟩,
      decode_eq_ok_iff.mpr ⟨rfl, haccepted⟩⟩
  · intro bytes h
    exact encode_eq_ok_iff.mpr (decode_eq_ok_iff.mp h)

/-- A manifest with two samples. -/
theorem encode_decode_exact_two :
    let manifest : VerificationManifest :=
      ⟨⟨10, 16, 26, 3⟩, ascii "pi.txt", 12, ⟨List.replicate 32 7, rfl⟩, 1, 5, .passed,
        [⟨0, .passed, 2, 2⟩, ⟨4, .passed, 11, 11⟩]⟩
    ∃ bytes, encode manifest = .ok bytes ∧ decode bytes = .ok manifest ∧
      encode manifest = .ok bytes := by
  intro manifest
  obtain ⟨hencode, hdecode⟩ := encode_decode_exact manifest
  obtain ⟨bytes, hbytes, hmanifest⟩ := hencode (by decide)
  exact ⟨bytes, hbytes, hmanifest, hdecode bytes hmanifest⟩

end GiveMePi.Verification.VerificationManifestCodec
