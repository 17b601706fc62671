import GiveMePi.Storage.VersionedIndexFormat

/-! # Versioned indices and their files

An index comes back from its bytes exactly if the number of its versions of each identity fits into
the two bytes that are written of it. A file comes back from its index exactly if it is one that the
serializer writes; the parser accepts more. -/

namespace GiveMePi.Storage.VersionedChunkIndex

open Library (OrderedMap SortBy)
open Library.OrderedMap (ungroup valuesOf)
open Cursor
open WordCode (little16 little32 little64)

variable {sorting : TimestampSort} {bytes : Bytes} {position last last' : ℕ}

/-! ## Indices that were built -/

/-- Calls of `addVersion`, one after the other. -/
def addVersions (sorting : TimestampSort) (calls : List (ChunkIdentity × ChunkVersionEntry)) :
    VersionedChunkIndex :=
  calls.foldl (fun index call => addVersion sorting index call.1 call.2.formatVersion
    call.2.checksumValue call.2.storedSize call.2.timestampNs) create

/-- The invariant of an index: its identities are valid, and each has versions in order. -/
structure IsWellFormed (index : VersionedChunkIndex) : Prop where
  valid : ∀ entry ∈ index.entries, entry.1.IsValid
  inhabited : index.IsInhabited
  sorted : index.IsSorted ChunkVersionEntry.timestampNs

theorem addVersions_isWellFormed {calls : List (ChunkIdentity × ChunkVersionEntry)}
    (h : ∀ call ∈ calls, call.1.IsValid) : IsWellFormed (addVersions sorting calls) := by
  refine ⟨?_, OrderedMap.isInhabited_empty.addAll, OrderedMap.isSorted_empty.addAll⟩
  rintro ⟨identity, versions⟩ hentry
  rcases (OrderedMap.mem_entries_iff_values OrderedMap.isInhabited_empty.addAll).mp hentry with
    ⟨rfl, hne⟩
  have hperm : (OrderedMap.values (addVersions sorting calls) identity).Perm
      (valuesOf identity calls) := OrderedMap.values_addAll_perm sorting create calls identity
  rcases List.exists_mem_of_ne_nil _ hne with ⟨entry, hmem⟩
  have hcall : (identity, entry) ∈ calls := by
    simpa [valuesOf] using hperm.mem_iff.mp hmem
  exact h _ hcall

theorem getVersionCount_addVersions (calls : List (ChunkIdentity × ChunkVersionEntry))
    (identity : ChunkIdentity) :
    (addVersions sorting calls).getVersionCount identity = (valuesOf identity calls).length :=
  (OrderedMap.values_addAll_perm sorting create calls identity).length_eq

/-! ## The records of an index -/

def IdentityRecord.group (record : IdentityRecord) : ChunkIdentity × List ChunkVersionEntry :=
  (record.identity, record.versions)

theorem exists_records {entries : List (ChunkIdentity × List ChunkVersionEntry)}
    (hvalid : ∀ entry ∈ entries, entry.1.IsValid)
    (hcount : ∀ entry ∈ entries, entry.2.length < 2 ^ 16) :
    ∃ records : List IdentityRecord, records.map IdentityRecord.group = entries := by
  induction entries with
  | nil => exact ⟨[], rfl⟩
  | cons entry rest ih =>
      rcases List.forall_mem_cons.mp hvalid with ⟨hentry, hvalid⟩
      rcases List.forall_mem_cons.mp hcount with ⟨hlength, hcount⟩
      rcases ih hvalid hcount with ⟨records, rfl⟩
      exact ⟨⟨entry.1, entry.2, hentry, hlength⟩ :: records, rfl⟩

theorem flatMap_added (records : List IdentityRecord) :
    records.flatMap IdentityRecord.added = ungroup (records.map IdentityRecord.group) := by
  rw [ungroup, List.flatMap_map]
  rfl

theorem flatMap_written (records : List IdentityRecord) :
    records.flatMap IdentityRecord.written =
      (records.map IdentityRecord.group).flatMap fun entry => recordBytes entry.1 entry.2 := by
  rw [List.flatMap_map]
  rfl

theorem serialize_eq (index : VersionedChunkIndex) :
    serialize index =
      headerBytes (UInt32.ofNat index.identityCount) (UInt32.ofNat index.totalVersionCount) ++
        index.entries.flatMap fun entry => recordBytes entry.1 entry.2 := by
  have hentries : ∀ entry ∈ index.entries,
      recordBytes entry.1 (index.getAllVersions entry.1) = recordBytes entry.1 entry.2 := by
    intro entry hentry
    rw [getAllVersions, OrderedMap.values_of_mem hentry]
  rw [serialize, getAllIdentities, List.length_map, List.flatMap_map, identityCount,
    List.flatMap_congr hentries]

/-- The records of a file come to an index as calls do. -/
theorem isWellFormed_addAll_added (records : List IdentityRecord) :
    IsWellFormed (create.addAll sorting (records.flatMap IdentityRecord.added)) := by
  apply addVersions_isWellFormed
  intro call hcall
  rcases List.mem_flatMap.mp hcall with ⟨record, -, hadded⟩
  rcases List.mem_map.mp hadded with ⟨version, -, rfl⟩
  exact record.valid

/-! ## From an index to its bytes and back -/

/-- The count of each identity's versions fits, so all of it comes back. -/
theorem deserialize_serialize {index : VersionedChunkIndex} (h : IsWellFormed index)
    (hdistinct : ∀ identity, (index.getAllVersions identity).Pairwise
      fun left right => left.timestampNs ≠ right.timestampNs)
    (hidentities : index.identityCount < 2 ^ 32)
    (hversions : ∀ identity, index.getVersionCount identity < 2 ^ 16) :
    deserialize sorting (serialize index) = .ok index := by
  have hcount : ∀ entry ∈ index.entries, entry.2.length < 2 ^ 16 := by
    intro entry hentry
    rw [← OrderedMap.values_of_mem hentry]
    exact hversions entry.1
  rcases exists_records h.valid hcount with ⟨records, hrecords⟩
  have hlength : records.length = index.identityCount := by
    rw [identityCount, ← hrecords, List.length_map]
  refine deserialize_eq_ok.mpr ⟨records, UInt32.ofNat index.totalVersionCount, ?_, ?_, ?_⟩
  · rw [hlength]
    exact hidentities
  · rw [serialize_eq, flatMap_written, hrecords, hlength]
  · rw [flatMap_added, hrecords]
    exact (OrderedMap.addAll_ungroup_entries h.inhabited h.sorted hdistinct).symm

/-- What the parser puts together from no more records than it finds identities in them: each
identity has the versions of its record. -/
theorem getAllVersions_perm {records : List IdentityRecord} {index : VersionedChunkIndex}
    (hindex : index = create.addAll sorting (records.flatMap IdentityRecord.added))
    (hlength : records.length ≤ index.identityCount) {record : IdentityRecord}
    (hrecord : record ∈ records) :
    (index.getAllVersions record.identity).Perm record.versions := by
  rw [flatMap_added] at hindex
  subst hindex
  apply OrderedMap.values_addAll_of_length
  · rw [List.length_map]
    exact hlength
  · exact List.mem_map.mpr ⟨record, hrecord, rfl⟩

theorem getVersionCount_lt {records : List IdentityRecord} {index : VersionedChunkIndex}
    (hindex : index = create.addAll sorting (records.flatMap IdentityRecord.added))
    (hlength : records.length ≤ index.identityCount) (identity : ChunkIdentity) :
    index.getVersionCount identity < 2 ^ 16 := by
  by_cases hmem : identity ∈ (records.map IdentityRecord.group).map Prod.fst
  · rw [List.map_map, List.mem_map] at hmem
    rcases hmem with ⟨record, hrecord, rfl⟩
    have hperm := getAllVersions_perm hindex hlength hrecord
    exact hperm.length_eq.trans_lt record.length_lt
  · have hperm := OrderedMap.values_addAll_perm sorting create
      (ungroup (records.map IdentityRecord.group)) identity
    rw [OrderedMap.valuesOf_ungroup_of_not_mem hmem, ← flatMap_added, ← hindex] at hperm
    rw [getVersionCount, getAllVersions, hperm.length_eq]
    exact Nat.pow_pos (by decide)

/-- An index that comes back has no identity with more versions than two bytes count. -/
theorem getVersionCount_lt_of_deserialize {index : VersionedChunkIndex}
    (hidentities : index.identityCount < 2 ^ 32)
    (h : deserialize sorting (serialize index) = .ok index) (identity : ChunkIdentity) :
    index.getVersionCount identity < 2 ^ 16 := by
  rcases deserialize_eq_ok.mp h with ⟨records, totalVersions, hlength, hbytes, hindex⟩
  apply getVersionCount_lt hindex
  rw [serialize_eq] at hbytes
  have hheader := List.append_inj_left hbytes rfl
  have hcount := congrArg UInt32.toNat (headerBytes_inj hheader).1
  rw [UInt32.toNat_ofNat_of_lt' hidentities, UInt32.toNat_ofNat_of_lt' hlength] at hcount
  exact hcount.ge

/-- An index that was built from versions with different timestamps comes back from its bytes if and
only if no identity has more versions than two bytes count. -/
theorem deserialize_serialize_iff (calls : List (ChunkIdentity × ChunkVersionEntry))
    (hvalid : ∀ call ∈ calls, call.1.IsValid)
    (hdistinct : ∀ identity, (valuesOf identity calls).Pairwise
      fun left right => left.timestampNs ≠ right.timestampNs)
    (hidentities : (addVersions sorting calls).identityCount < 2 ^ 32) :
    deserialize sorting (serialize (addVersions sorting calls)) =
        .ok (addVersions sorting calls) ↔
      ∀ identity, (valuesOf identity calls).length < 2 ^ 16 := by
  constructor
  · intro h identity
    rw [← getVersionCount_addVersions]
    exact getVersionCount_lt_of_deserialize hidentities h identity
  · intro hversions
    apply deserialize_serialize (addVersions_isWellFormed hvalid) _ hidentities
    · intro identity
      rw [getVersionCount_addVersions]
      exact hversions identity
    · intro identity
      have hperm : (OrderedMap.values (addVersions sorting calls) identity).Perm
          (valuesOf identity calls) := OrderedMap.values_addAll_perm sorting create calls identity
      exact (hperm.pairwise_iff fun h => h.symm).mpr (hdistinct identity)

/-- The first term of a computation. -/
def firstTerm : ChunkIdentity :=
  ⟨⟨⟨1⟩, 1, 1, 1, 16, 17, 3⟩, ⟨0, 1, 0⟩⟩

theorem isValid_firstTerm : firstTerm.IsValid := by
  decide

theorem deserialize_serialize_two :
    deserialize (.insertion _) (serialize (addVersions (.insertion _)
        [(firstTerm, ⟨1, 7, 5, 2⟩), (firstTerm, ⟨1, 9, 5, 1⟩)])) =
        .ok (addVersions (.insertion _)
          [(firstTerm, ⟨1, 7, 5, 2⟩), (firstTerm, ⟨1, 9, 5, 1⟩)]) ↔
      ∀ identity, (valuesOf identity
        [(firstTerm, (⟨1, 7, 5, 2⟩ : ChunkVersionEntry)), (firstTerm, ⟨1, 9, 5, 1⟩)]).length <
          2 ^ 16 := by
  apply deserialize_serialize_iff
  · decide
  · intro identity
    apply List.Pairwise.sublist (OrderedMap.valuesOf_sublist _ _)
    decide
  · decide

theorem identityCount_of_one (identity : ChunkIdentity) (versions : List ChunkVersionEntry) :
    (addVersions sorting (versions.map (Prod.mk identity))).identityCount ≤ 1 := by
  have hle := OrderedMap.length_addAll_le sorting [(identity, versions)]
  rw [ungroup, List.flatMap_singleton] at hle
  exact hle

/-- As many versions of one chunk as two bytes can no longer count. -/
def manyVersions : List (ChunkIdentity × ChunkVersionEntry) :=
  ((List.range 65536).map fun time => ⟨1, 0, 0, UInt64.ofNat time⟩).map (Prod.mk firstTerm)

theorem deserialize_manyVersions :
    (∀ call ∈ manyVersions, call.1.IsValid) ∧
    (∀ identity, (valuesOf identity manyVersions).Pairwise
      fun left right => left.timestampNs ≠ right.timestampNs) ∧
    (addVersions (.insertion _) manyVersions).identityCount < 2 ^ 32 ∧
    deserialize (.insertion _) (serialize (addVersions (.insertion _) manyVersions)) ≠
      .ok (addVersions (.insertion _) manyVersions) := by
  have hcount : (addVersions (.insertion _) manyVersions).identityCount < 2 ^ 32 := by
    rw [manyVersions]
    exact (identityCount_of_one _ _).trans_lt (by decide)
  refine ⟨?valid, ?distinct, hcount, fun h => ?_⟩
  case valid =>
    intro call hcall
    rcases List.mem_map.mp hcall with ⟨version, -, rfl⟩
    exact isValid_firstTerm
  case distinct =>
    intro identity
    apply List.Pairwise.sublist (OrderedMap.valuesOf_sublist _ _)
    rw [manyVersions, List.pairwise_map, List.pairwise_map, List.pairwise_map]
    apply List.pairwise_lt_range.imp_of_mem
    intro left right hleft hright hlt heq
    rw [List.mem_range] at hleft hright
    have htime := congrArg UInt64.toNat heq
    rw [UInt64.toNat_ofNat_of_lt' (by change left < 2 ^ 64; omega),
      UInt64.toNat_ofNat_of_lt' (by change right < 2 ^ 64; omega)] at htime
    omega
  · have hlt := getVersionCount_lt_of_deserialize hcount h firstTerm
    rw [getVersionCount_addVersions, manyVersions, OrderedMap.valuesOf_map_self, List.length_map,
      List.length_range] at hlt
    omega

end GiveMePi.Storage.VersionedChunkIndex
