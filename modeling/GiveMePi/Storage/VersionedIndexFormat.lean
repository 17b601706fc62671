import GiveMePi.Storage.IndexFormat
import GiveMePi.Storage.VersionedChunkIndex

/-! # What the parser of a versioned index accepts

A file that is accepted is a header and the records of as many identities as the header says. The
index gets the versions of all records, one after the other. -/

namespace GiveMePi.Storage.VersionedChunkIndex

open Library (OrderedMap SortBy)
open Cursor
open WordCode (little16 little32 little64)

variable {bytes : Bytes} {position last : ℕ} {sorting : TimestampSort}

/-! ## Identities and versions -/

@[simp] theorem length_identityBytes (identity : ChunkIdentity) :
    (identityBytes identity).length = identitySize := rfl

theorem decodeIdentity_eq_ok {identity : ChunkIdentity} (h : identity.IsValid) :
    decodeIdentity bytes position = .ok (identity, last) ↔
      Spans bytes position (identityBytes identity) last := by
  simp only [decodeIdentity, identityBytes, Cursor.bind_eq_ok, next_eq_ok, WordCode.copy_eq_ok,
    Cursor.pure_eq_ok, spans_append]
  constructor
  · rintro ⟨algorithm, _, halgorithm, _, _, harithmetic, _, _, hformula, _, _, hrequested, _, _,
      hguard, _, _, hworking, _, _, hterms, _, _, hlevel, _, _, hstart, _, _, hstop, rfl, rfl⟩
    have hcode : algorithm.toUInt16.toUInt8 = algorithm := by simp
    rw [hcode]
    exact ⟨_, ⟨_, ⟨_, ⟨_, ⟨_, ⟨_, ⟨_, ⟨_, ⟨_, halgorithm, harithmetic⟩, hformula⟩, hrequested⟩,
      hguard⟩, hworking⟩, hterms⟩, hlevel⟩, hstart⟩, hstop⟩
  · rintro ⟨_, ⟨_, ⟨_, ⟨_, ⟨_, ⟨_, ⟨_, ⟨_, ⟨_, halgorithm, harithmetic⟩, hformula⟩, hrequested⟩,
      hguard⟩, hworking⟩, hterms⟩, hlevel⟩, hstart⟩, hstop⟩
    refine ⟨_, _, halgorithm, _, _, harithmetic, _, _, hformula, _, _, hrequested, _, _, hguard, _,
      _, hworking, _, _, hterms, _, _, hlevel, _, _, hstart, _, _, hstop, ?_, rfl⟩
    rw [ChunkIndex.code_of_isValid h.computation]

/-- The length and the bytes of an identity. -/
theorem readIdentity_eq_ok {identity : ChunkIdentity} :
    readIdentity bytes position = .ok (identity, last) ↔ identity.IsValid ∧
      Spans bytes position
        (little32.write (UInt32.ofNat identitySize) ++ identityBytes identity) last := by
  simp only [readIdentity, Cursor.bind_eq_ok, WordCode.readChecked_little32_eq_ok,
    Cursor.liftM_eq_ok, throwIf_eq_ok, not_not, require_eq_ok, ChunkIdentity.validate_eq_ok,
    Cursor.pure_eq_ok, spans_append]
  constructor
  · rintro ⟨length, _, hlength, _, _, ⟨hsize, rfl⟩, _, _, ⟨-, rfl⟩, _, _, hdecode, _, _,
      ⟨hvalid, rfl⟩, rfl, rfl⟩
    have hword : length = UInt32.ofNat identitySize := by
      rw [← hsize, UInt32.ofNat_toNat]
    exact ⟨hvalid, _, hword ▸ hlength, (decodeIdentity_eq_ok hvalid).mp hdecode⟩
  · rintro ⟨hvalid, middle, hlength, hidentity⟩
    have hlast := hidentity.last_le (by
      rw [length_identityBytes]
      decide)
    rw [hidentity.last_eq, length_identityBytes] at hlast
    exact ⟨_, middle, hlength, (), middle, ⟨rfl, rfl⟩, (), middle, ⟨hlast, rfl⟩, identity, last,
      (decodeIdentity_eq_ok hvalid).mpr hidentity, (), last, ⟨hvalid, rfl⟩, rfl, rfl⟩

theorem readVersion_eq_ok {entry : ChunkVersionEntry} :
    readVersion bytes position = .ok (entry, last) ↔
      Spans bytes position (versionBytes entry) last := by
  simp only [readVersion, versionBytes, Cursor.bind_eq_ok, WordCode.readChecked_little16_eq_ok,
    WordCode.readChecked_little32_eq_ok, WordCode.readChecked_little64_eq_ok, Cursor.pure_eq_ok,
    spans_append]
  constructor
  · rintro ⟨_, _, hformat, _, _, hchecksum, _, _, hsize, _, _, htimestamp, rfl, rfl⟩
    exact ⟨_, ⟨_, ⟨_, hformat, hchecksum⟩, hsize⟩, htimestamp⟩
  · rintro ⟨_, ⟨_, ⟨_, hformat, hchecksum⟩, hsize⟩, htimestamp⟩
    exact ⟨_, _, hformat, _, _, hchecksum, _, _, hsize, _, _, htimestamp, rfl, rfl⟩

/-! ## Records -/

/-- An identity of a file, with the versions that follow it. -/
@[ext] structure IdentityRecord where
  identity : ChunkIdentity
  versions : List ChunkVersionEntry
  valid : identity.IsValid
  length_lt : versions.length < 2 ^ 16

namespace IdentityRecord

def written (record : IdentityRecord) : Bytes :=
  recordBytes record.identity record.versions

/-- What the record adds to an index. -/
def added (record : IdentityRecord) : List (ChunkIdentity × ChunkVersionEntry) :=
  record.versions.map (Prod.mk record.identity)

end IdentityRecord

theorem readVersions_eq_ok {identity : ChunkIdentity} {count : ℕ}
    {index index' : VersionedChunkIndex} :
    readVersions sorting bytes identity count index position = .ok (index', last) ↔
      ∃ versions : List ChunkVersionEntry, versions.length = count ∧
        index' = index.addAll sorting (versions.map (Prod.mk identity)) ∧
          Spans bytes position (versions.flatMap versionBytes) last := by
  induction count generalizing index position with
  | zero =>
      rw [readVersions, Cursor.pure_eq_ok]
      simp [List.length_eq_zero_iff, eq_comm]
  | succ count ih =>
      simp only [readVersions, Cursor.bind_eq_ok, readVersion_eq_ok, ih]
      constructor
      · rintro ⟨entry, middle, hentry, versions, rfl, rfl, hversions⟩
        exact ⟨entry :: versions, rfl, rfl, hentry.trans hversions⟩
      · rintro ⟨versions, hlength, rfl, hspans⟩
        rcases List.exists_cons_of_length_eq_add_one hlength with ⟨entry, rest, rfl⟩
        rcases Spans.split hspans with ⟨middle, hentry, hrest⟩
        exact ⟨entry, middle, hentry, rest, Nat.succ.inj hlength, rfl, hrest⟩

/-- One turn of the loop over the identities reads one record. -/
theorem readIdentities_eq_ok {count : ℕ} {index index' : VersionedChunkIndex} :
    readIdentities sorting bytes count index position = .ok (index', last) ↔
      ∃ records : List IdentityRecord, records.length = count ∧
        index' = index.addAll sorting (records.flatMap IdentityRecord.added) ∧
          Spans bytes position (records.flatMap IdentityRecord.written) last := by
  induction count generalizing index position with
  | zero =>
      rw [readIdentities, Cursor.pure_eq_ok]
      simp [List.length_eq_zero_iff, eq_comm]
  | succ count ih =>
      simp only [readIdentities, Cursor.bind_eq_ok, readIdentity_eq_ok,
        WordCode.readChecked_little16_eq_ok, readVersions_eq_ok, ih]
      constructor
      · rintro ⟨identity, _, ⟨hvalid, hidentity⟩, versionCount, _, hcount, _, _,
          ⟨versions, hlength, rfl, hversions⟩, records, rfl, rfl, hrecords⟩
        have hlt : versions.length < 2 ^ 16 := hlength ▸ versionCount.toNat_lt
        have hword : versionCount = UInt16.ofNat versions.length := by
          rw [hlength, UInt16.ofNat_toNat]
        rw [hword] at hcount
        refine ⟨⟨identity, versions, hvalid, hlt⟩ :: records, rfl, ?_,
          ((hidentity.trans hcount).trans hversions).trans hrecords⟩
        rw [List.flatMap_cons, OrderedMap.addAll_append]
        rfl
      · rintro ⟨records, hlength, rfl, hspans⟩
        rcases List.exists_cons_of_length_eq_add_one hlength with ⟨record, rest, rfl⟩
        rcases Spans.split hspans with ⟨middle, hrecord, hrest⟩
        rcases spans_append.mp hrecord with ⟨_, hcounted, hversions⟩
        rcases spans_append.mp hcounted with ⟨_, hidentity, hcount⟩
        refine ⟨record.identity, _, ⟨record.valid, hidentity⟩, _, _, hcount, _, middle,
          ⟨record.versions, ?_, rfl, hversions⟩, rest, Nat.succ.inj hlength, ?_, hrest⟩
        · rw [UInt16.toNat_ofNat_of_lt' record.length_lt]
        · rw [List.flatMap_cons, OrderedMap.addAll_append]
          rfl

/-! ## Files -/

theorem readHeader_eq_ok {identityCount : UInt32} :
    readHeader bytes position = .ok (identityCount, last) ↔
      11 ≤ bytes.length ∧
        ∃ totalVersions, Spans bytes position (headerBytes identityCount totalVersions) last := by
  simp only [readHeader, headerBytes, Cursor.bind_eq_ok, Cursor.liftM_eq_ok, throwIf_eq_ok, not_lt,
    not_not, Cursor.copy_eq_ok, WordCode.copy_eq_ok, next_eq_ok, Cursor.pure_eq_ok, spans_append]
  constructor
  · rintro ⟨_, _, ⟨hlong, rfl⟩, _, _, ⟨-, hmagic⟩, _, _, ⟨rfl, rfl⟩, _, _, hversion, _, _,
      ⟨rfl, rfl⟩, _, _, hcount, skipped, _, ⟨hskipped, htotal⟩, rfl, rfl⟩
    refine ⟨hlong, little32.read skipped, _, ⟨_, ⟨_, hmagic, hversion⟩, hcount⟩, ?_⟩
    rw [little32.write_read skipped hskipped]
    exact htotal
  · rintro ⟨hlong, totalVersions, _, ⟨_, ⟨_, hmagic, hversion⟩, hcount⟩, htotal⟩
    exact ⟨(), _, ⟨hlong, rfl⟩, _, _, ⟨rfl, hmagic⟩, (), _, ⟨rfl, rfl⟩, _, _, hversion, (), _,
      ⟨rfl, rfl⟩, _, _, hcount, _, _, ⟨rfl, htotal⟩, rfl, rfl⟩

theorem length_headerBytes (identityCount totalVersions : UInt32) :
    (headerBytes identityCount totalVersions).length = 12 := rfl

theorem headerBytes_inj {count count' total total' : UInt32}
    (h : headerBytes count total = headerBytes count' total') : count = count' ∧ total = total' := by
  rcases List.append_inj h rfl with ⟨hfirst, htotal⟩
  exact ⟨little32.write_injective (List.append_cancel_left hfirst),
    little32.write_injective htotal⟩

/-- Which files are accepted, and what the index holds then. -/
theorem deserialize_eq_ok {index : VersionedChunkIndex} :
    deserialize sorting bytes = .ok index ↔
      ∃ (records : List IdentityRecord) (totalVersions : UInt32), records.length < 2 ^ 32 ∧
        bytes = headerBytes (UInt32.ofNat records.length) totalVersions ++
          records.flatMap IdentityRecord.written ∧
        index = create.addAll sorting (records.flatMap IdentityRecord.added) := by
  simp only [deserialize, deserializeInternal, GiveMePi.bind_eq_ok, GiveMePi.pure_eq_ok,
    Prod.exists, Cursor.bind_eq_ok, readHeader_eq_ok, readIdentities_eq_ok, get_eq_ok,
    Cursor.liftM_eq_ok, throwIf_eq_ok, not_not, Cursor.pure_eq_ok, Except.ok.injEq]
  constructor
  · rintro ⟨_, _, ⟨identityCount, _, ⟨-, totalVersions, hheader⟩, _, _,
      ⟨records, hlength, rfl, hrecords⟩, _, _, ⟨rfl, rfl⟩, _, _, ⟨rfl, rfl⟩, rfl, rfl⟩, rfl⟩
    have hword : identityCount = UInt32.ofNat records.length := by
      rw [hlength, UInt32.ofNat_toNat]
    rw [hword] at hheader
    exact ⟨records, totalVersions, hlength ▸ identityCount.toNat_lt,
      spans_all.mp (hheader.trans hrecords), rfl⟩
  · rintro ⟨records, totalVersions, hlength, hbytes, rfl⟩
    rcases spans_append.mp (spans_all.mpr hbytes) with ⟨_, hheader, hrecords⟩
    have hlong : 11 ≤ bytes.length := by
      rw [hbytes, List.length_append, length_headerBytes]
      omega
    exact ⟨_, _, ⟨_, _, ⟨hlong, totalVersions, hheader⟩, _, _,
      ⟨records, (UInt32.toNat_ofNat_of_lt' hlength).symm, rfl, hrecords⟩, _, _, ⟨rfl, rfl⟩, (), _,
      ⟨rfl, rfl⟩, rfl, rfl⟩, rfl⟩

/-! ## Accesses within the bytes -/

theorem staysAt_decodeIdentity (h : position + identitySize ≤ bytes.length) :
    StaysAt (decodeIdentity bytes) position := by
  rw [identitySize] at h
  refine (staysAt_next (by omega)).bind fun _ middle halgorithm => ?_
  rw [(next_eq_ok.mp halgorithm).last_eq, List.length_singleton]
  refine little16.staysAt_copy_bind 2 rfl (by omega) fun _ => ?_
  refine little16.staysAt_copy_bind 2 rfl (by omega) fun _ => ?_
  refine little64.staysAt_copy_bind 8 rfl (by omega) fun _ => ?_
  refine little32.staysAt_copy_bind 4 rfl (by omega) fun _ => ?_
  refine little64.staysAt_copy_bind 8 rfl (by omega) fun _ => ?_
  refine little64.staysAt_copy_bind 8 rfl (by omega) fun _ => ?_
  refine little32.staysAt_copy_bind 4 rfl (by omega) fun _ => ?_
  refine little64.staysAt_copy_bind 8 rfl (by omega) fun _ => ?_
  refine little64.staysAt_copy_bind 8 rfl (by omega) fun _ => ?_
  exact stays_pure _ _

theorem stays_readIdentity : Stays (readIdentity bytes) := by
  refine little32.stays_readChecked.bind fun length => (stays_liftM _).bind fun _ => ?_
  refine fun position => (stays_require _ _ _ position).bind fun _ middle hrequire => ?_
  rcases require_eq_ok.mp hrequire with ⟨hfits, rfl⟩
  refine (staysAt_decodeIdentity hfits).bind fun identity last _ => ?_
  exact (stays_liftM _).bind (fun _ => stays_pure identity) last

theorem stays_readVersion : Stays (readVersion bytes) :=
  little16.stays_readChecked.bind fun _ => little32.stays_readChecked.bind fun _ =>
    little64.stays_readChecked.bind fun _ => little64.stays_readChecked.bind fun _ => stays_pure _

theorem stays_readVersions {identity : ChunkIdentity} {count : ℕ} {index : VersionedChunkIndex} :
    Stays (readVersions sorting bytes identity count index) := by
  induction count generalizing index with
  | zero => exact stays_pure index
  | succ count ih => exact stays_readVersion.bind fun _ => ih

theorem stays_readIdentities {count : ℕ} {index : VersionedChunkIndex} :
    Stays (readIdentities sorting bytes count index) := by
  induction count generalizing index with
  | zero => exact stays_pure index
  | succ count ih =>
      exact stays_readIdentity.bind fun _ => little16.stays_readChecked.bind fun _ =>
        stays_readVersions.bind fun _ => ih

/-- The header is read within the bytes, except that eleven bytes are one too few. -/
theorem staysAt_readHeader (h : bytes.length ≠ 11) : StaysAt (readHeader bytes) 0 := by
  refine (stays_liftM _ 0).bind fun _ _ hlong => ?_
  rw [Cursor.liftM_eq_ok, throwIf_eq_ok] at hlong
  rcases hlong with ⟨hlong, rfl⟩
  refine (Cursor.staysAt_copy (by omega)).bind fun magic _ hmagic => ?_
  rcases Cursor.copy_eq_ok.mp hmagic with ⟨hlength, hspans⟩
  rw [hspans.last_eq, hlength]
  refine (stays_liftM _ _).bind fun _ _ hlift => ?_
  rcases Cursor.liftM_eq_ok.mp hlift with ⟨-, rfl⟩
  refine (staysAt_next (by omega)).bind fun _ _ hversion => ?_
  rw [(next_eq_ok.mp hversion).last_eq, List.length_singleton]
  refine (stays_liftM _ _).bind fun _ _ hlift => ?_
  rcases Cursor.liftM_eq_ok.mp hlift with ⟨-, rfl⟩
  refine little32.staysAt_copy_bind 4 rfl (by omega) fun _ => ?_
  exact (Cursor.staysAt_copy (by omega)).bind fun _ _ _ => stays_pure _ _

theorem deserialize_ne_outOfBounds (h : bytes.length ≠ 11) :
    deserialize sorting bytes ≠ .error .outOfBounds := by
  have hstays : StaysAt (deserializeInternal sorting bytes) 0 := by
    refine (staysAt_readHeader h).bind fun identityCount middle _ => ?_
    exact stays_readIdentities.bind (fun index => by
      intro position
      refine StaysAt.bind (fun hget => nomatch hget) fun offset last _ => ?_
      exact (stays_liftM _).bind (fun _ => stays_pure index) last) middle
  intro hfault
  apply hstays
  rw [deserialize] at hfault
  cases hresult : deserializeInternal sorting bytes 0 with
  | ok result =>
      rw [hresult] at hfault
      cases hfault
  | error fault =>
      rw [hresult, error_bind] at hfault
      cases hfault
      rfl

end GiveMePi.Storage.VersionedChunkIndex
