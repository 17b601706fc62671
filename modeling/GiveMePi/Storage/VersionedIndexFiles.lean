import GiveMePi.Storage.VersionedIndexRoundTrip

/-! # The files that a versioned index is read from

The parser accepts the files of the serializer and others: it skips the total number of versions,
and it puts the versions of repeated identities together. -/

namespace GiveMePi.Storage.VersionedChunkIndex

open Library (OrderedMap SortBy)
open Library.OrderedMap (ungroup valuesOf)
open Cursor
open WordCode (little16 little32 little64)

variable {sorting : TimestampSort} {bytes : Bytes} {position last last' : ℕ}
  {records records' : List IdentityRecord} {index : VersionedChunkIndex} {totalVersions : UInt32}

/-! ## What stands in a file -/

/-- As many versions are read in one way only. -/
theorem versions_unique {versions versions' : List ChunkVersionEntry}
    (h : Spans bytes position (versions.flatMap versionBytes) last)
    (h' : Spans bytes position (versions'.flatMap versionBytes) last')
    (hlength : versions.length = versions'.length) : versions = versions' ∧ last = last' := by
  induction versions generalizing versions' position with
  | nil =>
      cases versions' with
      | nil => exact ⟨rfl, h.last_eq.trans h'.last_eq.symm⟩
      | cons entry rest => cases hlength
  | cons entry rest ih =>
      cases versions' with
      | nil => cases hlength
      | cons entry' rest' =>
          rcases Spans.split h with ⟨middle, hentry, hrest⟩
          rcases Spans.split h' with ⟨middle', hentry', hrest'⟩
          have hread := readVersion_eq_ok.mpr hentry
          rw [readVersion_eq_ok.mpr hentry'] at hread
          cases hread
          rcases ih hrest hrest' (Nat.succ.inj hlength) with ⟨rfl, rfl⟩
          exact ⟨rfl, rfl⟩

theorem record_unique {record record' : IdentityRecord}
    (h : Spans bytes position record.written last)
    (h' : Spans bytes position record'.written last') : record = record' ∧ last = last' := by
  rcases spans_append.mp h with ⟨_, hcounted, hversions⟩
  rcases spans_append.mp hcounted with ⟨_, hidentity, hcount⟩
  rcases spans_append.mp h' with ⟨_, hcounted', hversions'⟩
  rcases spans_append.mp hcounted' with ⟨_, hidentity', hcount'⟩
  have hread := readIdentity_eq_ok.mpr ⟨record.valid, hidentity⟩
  rw [readIdentity_eq_ok.mpr ⟨record'.valid, hidentity'⟩, Except.ok.injEq, Prod.mk.injEq] at hread
  rcases hread with ⟨heq, rfl⟩
  rcases hcount.unique hcount' rfl with ⟨hwords, rfl⟩
  have hword := congrArg UInt16.toNat (little16.write_injective hwords)
  rw [UInt16.toNat_ofNat_of_lt' record.length_lt, UInt16.toNat_ofNat_of_lt' record'.length_lt]
    at hword
  rcases versions_unique hversions hversions' hword with ⟨hversionsEq, rfl⟩
  exact ⟨IdentityRecord.ext heq.symm hversionsEq, rfl⟩

theorem records_unique (h : Spans bytes position (records.flatMap IdentityRecord.written) last)
    (h' : Spans bytes position (records'.flatMap IdentityRecord.written) last')
    (hlength : records.length = records'.length) : records = records' ∧ last = last' := by
  induction records generalizing records' position with
  | nil =>
      cases records' with
      | nil => exact ⟨rfl, h.last_eq.trans h'.last_eq.symm⟩
      | cons record rest => cases hlength
  | cons record rest ih =>
      cases records' with
      | nil => cases hlength
      | cons record' rest' =>
          rcases Spans.split h with ⟨middle, hrecord, hrest⟩
          rcases Spans.split h' with ⟨middle', hrecord', hrest'⟩
          rcases record_unique hrecord hrecord' with ⟨rfl, rfl⟩
          rcases ih hrest hrest' (Nat.succ.inj hlength) with ⟨rfl, rfl⟩
          exact ⟨rfl, rfl⟩

/-- A file is the header and the records. -/
structure Describes (bytes : Bytes) (records : List IdentityRecord) (totalVersions : UInt32) :
    Prop where
  length_lt : records.length < 2 ^ 32
  bytes_eq : bytes = headerBytes (UInt32.ofNat records.length) totalVersions ++
    records.flatMap IdentityRecord.written

/-- The records stand behind the header, whatever else follows. -/
theorem Describes.spans {whole rest : Bytes} (h : Describes bytes records totalVersions)
    (hwhole : whole = bytes ++ rest) :
    Spans whole 12 (records.flatMap IdentityRecord.written) bytes.length := by
  have hspans := spans_of_eq hwhole
  nth_rewrite 1 [h.bytes_eq] at hspans
  rcases spans_append.mp hspans with ⟨_, hheader, hrecords⟩
  have hlast := hheader.last_eq
  rw [length_headerBytes] at hlast
  subst hlast
  exact hrecords

theorem deserialize_eq_ok_iff_describes :
    deserialize sorting bytes = .ok index ↔ ∃ records totalVersions,
      Describes bytes records totalVersions ∧
        index = create.addAll sorting (records.flatMap IdentityRecord.added) := by
  rw [deserialize_eq_ok]
  constructor
  · rintro ⟨records, totalVersions, hlength, hbytes, hindex⟩
    exact ⟨records, totalVersions, ⟨hlength, hbytes⟩, hindex⟩
  · rintro ⟨records, totalVersions, hdescribes, hindex⟩
    exact ⟨records, totalVersions, hdescribes.length_lt, hdescribes.bytes_eq, hindex⟩

/-- A file goes on to its end: no shorter part of it is a file. -/
theorem Describes.eq_of_prefix {shorter : Bytes} {totalVersions' : UInt32}
    (h : Describes bytes records totalVersions) (h' : Describes shorter records' totalVersions')
    (hbegins : shorter <+: bytes) : shorter = bytes := by
  rcases hbegins with ⟨rest, hrest⟩
  have hheader : headerBytes (UInt32.ofNat records'.length) totalVersions' =
      headerBytes (UInt32.ofNat records.length) totalVersions := by
    have hboth := hrest
    rw [h'.bytes_eq, h.bytes_eq, List.append_assoc] at hboth
    exact List.append_inj_left hboth rfl
  have hcount := congrArg UInt32.toNat (headerBytes_inj hheader).1
  rw [UInt32.toNat_ofNat_of_lt' h'.length_lt, UInt32.toNat_ofNat_of_lt' h.length_lt] at hcount
  have hlength := (records_unique (h'.spans hrest.symm) (h.spans (List.append_nil _).symm) hcount).2
  have hbegins : shorter <+: bytes := ⟨rest, hrest⟩
  exact hbegins.eq_of_length hlength

/-! ## Files of the serializer -/

/-- The total is the number of versions, and the records are those of the index, one for each of its
identities and in their order. -/
structure IsCanonical (index : VersionedChunkIndex) (records : List IdentityRecord)
    (totalVersions : UInt32) : Prop where
  total_eq : totalVersions =
    UInt32.ofNat (records.map fun record => record.versions.length).sum
  increasing : records.Pairwise fun left right => left.identity < right.identity
  nonempty : ∀ record ∈ records, record.versions ≠ []
  inOrder : ∀ record ∈ records, index.getAllVersions record.identity = record.versions

theorem totalVersionCount_eq (h : index.entries = records.map IdentityRecord.group) :
    index.totalVersionCount = (records.map fun record => record.versions.length).sum := by
  rw [totalVersionCount, h, List.map_map]
  rfl

/-- The records of a canonical file are the entries of its index. -/
theorem IsCanonical.entries_eq (h : IsCanonical index records totalVersions)
    (hindex : index = create.addAll sorting (records.flatMap IdentityRecord.added)) :
    index.entries = records.map IdentityRecord.group := by
  let written : VersionedChunkIndex :=
    ⟨records.map IdentityRecord.group, List.pairwise_map.mpr h.increasing⟩
  have hinhabited : written.IsInhabited := by
    intro entry hentry
    rcases List.mem_map.mp hentry with ⟨record, hrecord, rfl⟩
    exact h.nonempty record hrecord
  have hvalues : ∀ identity, index.values identity = written.values identity := by
    intro identity
    by_cases hmem : identity ∈ (records.map IdentityRecord.group).map Prod.fst
    · rw [List.map_map, List.mem_map] at hmem
      rcases hmem with ⟨record, hrecord, rfl⟩
      have hentry : record.group ∈ written.entries := List.mem_map.mpr ⟨record, hrecord, rfl⟩
      exact (h.inOrder record hrecord).trans (OrderedMap.values_of_mem hentry).symm
    · have hnone := OrderedMap.valuesOf_ungroup_of_not_mem hmem
      have hperm := OrderedMap.values_addAll_perm sorting create
        (records.flatMap IdentityRecord.added) identity
      rw [flatMap_added, hnone, ← flatMap_added, ← hindex] at hperm
      have hwritten := OrderedMap.valuesOf_ungroup_entries written identity
      exact hperm.eq_nil.trans (hnone.symm.trans hwritten)
  have heq : index = written := by
    apply OrderedMap.eq_of_values _ hinhabited hvalues
    rw [hindex]
    exact OrderedMap.isInhabited_empty.addAll
  rw [heq]

theorem serialize_eq_iff (h : Describes bytes records totalVersions)
    (hindex : index = create.addAll sorting (records.flatMap IdentityRecord.added)) :
    serialize index = bytes ↔ IsCanonical index records totalVersions := by
  constructor
  · intro hserialize
    have hle : index.identityCount ≤ records.length := by
      have hgroups := OrderedMap.length_addAll_le sorting (records.map IdentityRecord.group)
      rw [← flatMap_added, List.length_map] at hgroups
      rw [hindex]
      exact hgroups
    have hboth := hserialize
    rw [serialize_eq, h.bytes_eq] at hboth
    rcases headerBytes_inj (List.append_inj_left hboth rfl) with ⟨hcountWord, htotalWord⟩
    have hcount := congrArg UInt32.toNat hcountWord
    rw [UInt32.toNat_ofNat_of_lt' (hle.trans_lt h.length_lt),
      UInt32.toNat_ofNat_of_lt' h.length_lt] at hcount
    -- the entries are records as well, and there is one way only to read as many of them
    have hwellFormed : IsWellFormed index := hindex ▸ isWellFormed_addAll_added records
    rcases exists_records hwellFormed.valid fun entry hentry => by
      rw [← OrderedMap.values_of_mem hentry]
      exact getVersionCount_lt hindex hcount.ge entry.1 with ⟨own, hown⟩
    have hlength : own.length = records.length := by
      rw [← hcount, identityCount, ← hown, List.length_map]
    have hdescribes : Describes bytes own totalVersions := by
      refine ⟨hlength ▸ h.length_lt, ?_⟩
      rw [← hserialize, serialize_eq, htotalWord, hcountWord, hlength, flatMap_written, hown]
    have hnil := (List.append_nil bytes).symm
    rcases records_unique (hdescribes.spans hnil) (h.spans hnil) hlength with ⟨rfl, -⟩
    have hentry : ∀ record ∈ own, record.group ∈ index.entries := by
      intro record hrecord
      rw [← hown]
      exact List.mem_map.mpr ⟨record, hrecord, rfl⟩
    refine ⟨?total, ?increasing, ?nonempty, ?inOrder⟩
    case total => rw [← totalVersionCount_eq hown.symm, htotalWord]
    case increasing =>
      have hsorted := index.sorted
      rw [← hown, List.pairwise_map] at hsorted
      exact hsorted
    case nonempty =>
      intro record hrecord
      exact hwellFormed.inhabited _ (hentry record hrecord)
    case inOrder =>
      intro record hrecord
      exact OrderedMap.values_of_mem (hentry record hrecord)
  · intro hcanonical
    have hentries := hcanonical.entries_eq hindex
    rw [serialize_eq, h.bytes_eq, totalVersionCount_eq hentries, ← hcanonical.total_eq,
      identityCount, hentries, List.length_map, flatMap_written]

/-- What is read from a file, and which files are written again as they were. -/
theorem deserialize_accepts (sorting : TimestampSort) (bytes : Bytes) :
    (bytes.length ≠ 11 → deserialize sorting bytes ≠ .error .outOfBounds) ∧
    ∀ index, deserialize sorting bytes = .ok index →
      ∃ records totalVersions, Describes bytes records totalVersions ∧
        IsWellFormed index ∧
        (∀ identity, (index.getAllVersions identity).Perm
          (valuesOf identity (records.flatMap IdentityRecord.added))) ∧
        (serialize index = bytes ↔ IsCanonical index records totalVersions) ∧
        ∀ shorter index', shorter <+: bytes → deserialize sorting shorter = .ok index' →
          shorter = bytes := by
  refine ⟨deserialize_ne_outOfBounds, fun index h => ?_⟩
  rcases deserialize_eq_ok_iff_describes.mp h with ⟨records, totalVersions, hdescribes, hindex⟩
  refine ⟨records, totalVersions, hdescribes, hindex ▸ isWellFormed_addAll_added records, ?values,
    serialize_eq_iff hdescribes hindex, ?shorter⟩
  case values =>
    intro identity
    rw [hindex]
    exact OrderedMap.values_addAll_perm sorting create _ identity
  case shorter =>
    intro shorter index' hbegins hshorter
    rcases deserialize_eq_ok_iff_describes.mp hshorter with ⟨_, _, hdescribes', -⟩
    exact hdescribes.eq_of_prefix hdescribes' hbegins

/-- A file without identities whose header counts one version. -/
def disagreeing : Bytes :=
  headerBytes 0 1

theorem deserialize_disagreeing :
    deserialize (.insertion _) disagreeing = .ok create ∧ serialize create ≠ disagreeing := by
  decide

end GiveMePi.Storage.VersionedChunkIndex
