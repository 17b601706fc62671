import GiveMePi.Storage.ChunkIndex

/-! # A chunk index comes back from its bytes

Every operation leaves an index whose entries would all be added again without complaint. The parser,
which adds the entries one by one, therefore rebuilds the index that was written. -/

namespace GiveMePi.Storage.ChunkIndex

open Checkpoint (AlgorithmId ComputationIdentity BlockLocation CRC32C.calculate)
open Library (OrderedMap)
open Cursor

/-! ## The entries of an index -/

/-- An entry that `add` accepts into an index without a conflict. -/
structure IsValidEntry (entry : ChunkIndexEntry) : Prop where
  identity : entry.identity.IsValid
  plain : isPlainFilename entry.storageFile = true
  version : entry.formatVersion = chunkFormatVersion
  crc32c : entry.checksumAlgorithm = .crc32c
  uncompressed_le : entry.uncompressedSize ≤ maxChunkPayloadBytes
  stored_le : entry.storedSize ≤ maxChunkPayloadBytes

/-- What `add` does, and when. -/
theorem add_eq_ok {index index' : ChunkIndex} {entry : ChunkIndexEntry} :
    index.add entry = .ok index' ↔
      IsValidEntry entry ∧ index.contains entry.identity = false ∧
        (∀ existing ∈ index.entries, overlaps existing.1 entry.identity = false) ∧
          index' = index.emplace entry.identity entry := by
  simp only [add, GiveMePi.bind_eq_ok, ChunkIdentity.validate_eq_ok, throwIf_eq_ok, not_or, not_not,
    gt_iff_lt, not_lt, Bool.not_eq_false, Bool.not_eq_true, List.any_eq_false, GiveMePi.pure_eq_ok,
    Except.ok.injEq]
  constructor
  · intro h
    obtain ⟨_, hidentity, _, hplain, _, ⟨hversion, hcrc⟩, _, ⟨huncompressed, hstored⟩, _, hfresh, _,
      hoverlaps, rfl⟩ := h
    exact ⟨⟨hidentity, hplain, hversion, hcrc, huncompressed, hstored⟩, hfresh, hoverlaps, rfl⟩
  · intro h
    obtain ⟨hvalid, hfresh, hoverlaps, rfl⟩ := h
    exact ⟨(), hvalid.identity, (), hvalid.plain, (), ⟨hvalid.version, hvalid.crc32c⟩, (),
      ⟨hvalid.uncompressed_le, hvalid.stored_le⟩, (), hfresh, (), hoverlaps, rfl⟩

/-- What holds of the entries before an addition and of the new one. -/
theorem forall_mem_of_add {index index' : ChunkIndex} {entry : ChunkIndexEntry}
    {P : ChunkIndexEntry → Prop} (hadd : index.add entry = .ok index') (hentry : P entry)
    (hindex : ∀ existing ∈ index.entries, P existing.2) :
    ∀ existing ∈ index'.entries, P existing.2 := by
  rcases add_eq_ok.mp hadd with ⟨-, hfresh, -, rfl⟩
  intro existing hmem
  rcases (OrderedMap.mem_emplace hfresh).mp hmem with rfl | hold
  · exact hentry
  · exact hindex existing hold

theorem overlaps_comm (a b : ChunkIdentity) : overlaps a b = overlaps b a := by
  rw [Bool.eq_iff_iff]
  simp only [overlaps, Bool.and_eq_true, decide_eq_true_eq]
  constructor
  · intro h
    exact ⟨⟨⟨h.1.1.1.symm, h.1.1.2.symm⟩, h.2⟩, h.1.2⟩
  · intro h
    exact ⟨⟨⟨h.1.1.1.symm, h.1.1.2.symm⟩, h.2⟩, h.1.2⟩

/-- The invariant of an index: an entry stands under its own identity, it is valid, and it overlaps
no other entry. -/
structure IsWellFormed (index : ChunkIndex) : Prop where
  key : ∀ entry ∈ index.entries, entry.1 = entry.2.identity
  valid : ∀ entry ∈ index.entries, IsValidEntry entry.2
  apart : ∀ left ∈ index.entries, ∀ right ∈ index.entries, left.1 ≠ right.1 →
    overlaps left.1 right.1 = false

theorem isWellFormed_create : IsWellFormed create :=
  ⟨fun _ h => absurd h List.not_mem_nil, fun _ h => absurd h List.not_mem_nil,
    fun _ h => absurd h List.not_mem_nil⟩

theorem IsWellFormed.add {index index' : ChunkIndex} {entry : ChunkIndexEntry}
    (h : IsWellFormed index) (hadd : index.add entry = .ok index') : IsWellFormed index' := by
  obtain ⟨hvalid, hfresh, hoverlaps, rfl⟩ := add_eq_ok.mp hadd
  refine ⟨?_, ?_, ?_⟩
  · intro other hmem
    rcases (OrderedMap.mem_emplace hfresh).mp hmem with rfl | hmem
    · rfl
    · exact h.key other hmem
  · intro other hmem
    rcases (OrderedMap.mem_emplace hfresh).mp hmem with rfl | hmem
    · exact hvalid
    · exact h.valid other hmem
  · intro left hleft right hright hne
    rcases (OrderedMap.mem_emplace hfresh).mp hleft with rfl | hleft
    · rcases (OrderedMap.mem_emplace hfresh).mp hright with rfl | hright
      · exact absurd rfl hne
      · rw [overlaps_comm]
        exact hoverlaps right hright
    · rcases (OrderedMap.mem_emplace hfresh).mp hright with rfl | hright
      · exact hoverlaps left hleft
      · exact h.apart left hleft right hright hne

theorem IsWellFormed.remove {index : ChunkIndex} (h : IsWellFormed index)
    (identity : ChunkIdentity) : IsWellFormed (index.remove identity) := by
  have hmem {entry : ChunkIdentity × ChunkIndexEntry}
      (hentry : entry ∈ (index.remove identity).entries) : entry ∈ index.entries :=
    (OrderedMap.mem_erase.mp hentry).1
  exact ⟨fun entry hentry => h.key entry (hmem hentry),
    fun entry hentry => h.valid entry (hmem hentry),
    fun left hleft right hright => h.apart left (hmem hleft) right (hmem hright)⟩

/-! ## What a parser may return -/

theorem decodeEntries_isWellFormed {bytes : Bytes} {count : ℕ} {result index : ChunkIndex}
    {position position' : ℕ} (hresult : IsWellFormed result)
    (h : decodeEntries bytes count result position = .ok (index, position')) :
    IsWellFormed index := by
  induction count generalizing result position with
  | zero =>
      rw [decodeEntries, Cursor.pure_eq_ok] at h
      exact h.1 ▸ hresult
  | succ count ih =>
      simp only [decodeEntries, Cursor.bind_eq_ok, Cursor.liftM_eq_ok] at h
      obtain ⟨entry, _, _, next, _, ⟨hadd, _⟩, hrest⟩ := h
      exact ih (hresult.add hadd) hrest

theorem deserialize_isWellFormed {bytes : Bytes} {index : ChunkIndex}
    (h : deserialize bytes = .ok index) : IsWellFormed index := by
  simp only [deserialize, readIndex, decodeIndex, GiveMePi.bind_eq_ok, Prod.exists,
    Cursor.bind_eq_ok, Cursor.pure_eq_ok, GiveMePi.pure_eq_ok, Except.ok.injEq] at h
  obtain ⟨_, _, ⟨_, _, _, _, _, _, _, _, _, _, _, _, found, _, ⟨_, _, _, _, _, _, _, _, _, hfound⟩, _, _, _,
    _, _, _, rfl, _⟩, rfl⟩ := h
  exact decodeEntries_isWellFormed isWellFormed_create hfound

/-- The indices that the operations give, in any order and number. -/
inductive Reachable : ChunkIndex → Prop where
  | create : Reachable create
  | add {index index' : ChunkIndex} {entry : ChunkIndexEntry} :
      Reachable index → index.add entry = .ok index' → Reachable index'
  | addMetadata {index index' : ChunkIndex} {metadata : ChunkMetadata} :
      Reachable index → index.addMetadata metadata = .ok index' → Reachable index'
  | remove {index : ChunkIndex} (identity : ChunkIdentity) :
      Reachable index → Reachable (index.remove identity)
  | deserialize {bytes : Bytes} {index : ChunkIndex} :
      deserialize bytes = .ok index → Reachable index

theorem Reachable.isWellFormed {index : ChunkIndex} (h : Reachable index) :
    IsWellFormed index := by
  induction h with
  | create => exact isWellFormed_create
  | add _ hadd ih => exact ih.add hadd
  | addMetadata _ hadd ih =>
      simp only [ChunkIndex.addMetadata, GiveMePi.bind_eq_ok] at hadd
      obtain ⟨_, _, hadd⟩ := hadd
      exact ih.add hadd
  | remove identity _ ih => exact ih.remove identity
  | deserialize h => exact deserialize_isWellFormed h

/-! ## Reading what was written -/

theorem code_of_isValid {identity : ComputationIdentity} (h : identity.IsValid) :
    identity.algorithm.code.toUInt8.toUInt16 = identity.algorithm.code := by
  simp only [ComputationIdentity.IsValid, ComputationIdentity.validate, GiveMePi.bind_eq_ok,
    throwIf_eq_ok, not_or, not_not] at h
  obtain ⟨_, hversions, _⟩ := h
  rw [hversions.1]
  rfl

theorem length_identityBytes (identity : ChunkIdentity) :
    (identityBytes identity).length = identitySize := rfl

theorem reads_decodeIdentity {bytes : Bytes} {identity : ChunkIdentity} (h : identity.IsValid) :
    Reads bytes (decodeIdentity bytes) (identityBytes identity) identity := by
  have hcreate : ChunkIdentity.create identity.computation identity.location = .ok identity :=
    ChunkIdentity.create_eq_ok.mpr ⟨rfl, h⟩
  refine reads_require (length_identityBytes identity) (by decide) ?_
  simp only [identityBytes, List.append_assoc]
  refine (reads_next _).bind <| (reads_read16 _).bind <| (reads_read16 _).bind <|
    (reads_read64 _).bind <| (reads_read32 _).bind <| (reads_read64 _).bind <|
    (reads_read64 _).bind <| (reads_read32 _).bind <| (reads_read64 _).bind <|
    (reads_read64 _).bind_nil <| reads_liftM ?_
  rw [code_of_isValid h.computation]
  exact hcreate

/-- A name is read if at least the checksum stands behind it. -/
theorem Reads.decodeFilename {α : Type} {bytes out filename : Bytes} {rest : Bytes → Cursor α}
    {a : α} (hlength : filename.length ≤ 2 ^ 32 - 1) (hout : checksumSize ≤ out.length)
    (h : Reads bytes (rest filename) out a) :
    Reads bytes (decodeFilename bytes >>= rest)
      (appendU32 (UInt32.ofNat filename.length) ++ filename ++ out) a := by
  have hword : (UInt32.ofNat filename.length).toNat = filename.length :=
    UInt32.toNat_ofNat_of_lt (hlength.trans_lt (by decide))
  intro position left hdrop
  rw [List.append_assoc, List.append_assoc] at hdrop
  have hread : read32 bytes truncated position = _ := reads_read32 _ _ _ hdrop
  have hdrop' : bytes.drop (position + 4) = filename ++ (out ++ left) := by
    rw [← List.drop_drop, hdrop, List.drop_left' (length_appendU32 _)]
  have hcopy := reads_copy _ _ _ hdrop'
  have hrest : bytes.drop (position + 4 + filename.length) = out ++ left := by
    rw [← List.drop_drop, hdrop', List.drop_left]
  have htotal := congrArg List.length hdrop'
  rw [List.length_drop, List.length_append, List.length_append] at htotal
  rw [checksumSize] at hout
  have hleft : subSize bytes.length (position + 4) =
      filename.length + (out.length + left.length) := by
    rw [subSize, if_pos (by omega), htotal]
  have hguard : ¬ (UInt32.ofNat filename.length).toNat >
      subSize (subSize bytes.length (position + 4)) checksumSize := by
    rw [hword, hleft, checksumSize, subSize, if_pos (by omega)]
    omega
  have hname : ChunkIndex.decodeFilename bytes position =
      .ok (filename, position + 4 + filename.length) := by
    simp only [ChunkIndex.decodeFilename, Cursor.bind_eq_ok, Cursor.liftM_eq_ok, throwIf_eq_ok]
    exact ⟨_, _, hread, _, _, rfl, (), _, ⟨hguard, rfl⟩, by rw [hword]; exact hcopy⟩
  refine Cursor.bind_eq_ok.mpr ⟨_, _, hname, ?_⟩
  rw [h _ _ hrest]
  simp only [List.length_append, length_appendU32, add_assoc]

theorem reads_decodeEntry {bytes : Bytes} {entry : ChunkIndexEntry} (h : IsValidEntry entry)
    (hlength : entry.storageFile.length ≤ 2 ^ 32 - 1) :
    Reads bytes (decodeEntry bytes) (entryBytes entry) entry := by
  have hentry : entryBytes entry = identityBytes entry.identity ++
      (appendU32 (UInt32.ofNat entry.storageFile.length) ++ entry.storageFile ++
        (appendU64 entry.uncompressedSize ++ (appendU64 entry.storedSize ++
          (appendU16 entry.checksumAlgorithm.code ++ (appendU32 entry.checksumValue ++
            appendU16 entry.formatVersion))))) := by
    simp only [entryBytes, List.append_assoc]
  rw [hentry]
  exact (reads_decodeIdentity h.identity).bind <|
    Reads.decodeFilename hlength (by simp [checksumSize]) <|
      (reads_read64 _).bind <| (reads_read64 _).bind <| (reads_read16 _).bind <|
        (reads_read32 _).bind <| (reads_read16 _).map fun version =>
          ({ entry with formatVersion := version } : ChunkIndexEntry)

/-- The entries of an index from a position on are added to those before it. -/
theorem reads_decodeEntries {bytes : Bytes} {index : ChunkIndex} (h : IsWellFormed index)
    (hlength : ∀ entry ∈ index.entries, entry.2.storageFile.length ≤ 2 ^ 32 - 1)
    {before after : List (ChunkIdentity × ChunkIndexEntry)} {result : ChunkIndex}
    (hsplit : index.entries = before ++ after) (hbefore : result.entries = before) :
    Reads bytes (decodeEntries bytes after.length result)
      (after.flatMap fun entry => entryBytes entry.2) index := by
  induction after generalizing before result with
  | nil =>
      have hresult : result = index := OrderedMap.ext (by rw [hbefore, hsplit, List.append_nil])
      rw [hresult]
      exact reads_pure index
  | cons entry rest ih =>
      have hmem : entry ∈ index.entries := hsplit ▸ by simp
      have hkey := h.key entry hmem
      have hvalid := h.valid entry hmem
      have hsorted := index.sorted
      rw [hsplit, List.pairwise_append] at hsorted
      have hgt : ∀ other ∈ result.entries, other.1 < entry.2.identity := by
        intro other hother
        rw [hbefore] at hother
        rw [← hkey]
        exact hsorted.2.2 other hother entry List.mem_cons_self
      have hfresh : result.contains entry.2.identity = false := by
        rw [← Bool.not_eq_true, OrderedMap.contains_eq_true_iff]
        intro hcontains
        obtain ⟨other, hother⟩ := hcontains
        exact (hgt _ hother).false
      have hapart : ∀ other ∈ result.entries, overlaps other.1 entry.2.identity = false := by
        intro other hother
        have hindex : other ∈ index.entries := by
          rw [hsplit, ← hbefore]
          exact List.mem_append_left _ hother
        rw [← hkey]
        exact h.apart other hindex entry hmem (hkey ▸ (hgt other hother).ne)
      have hadd : result.add entry.2 = .ok (result.emplace entry.2.identity entry.2) :=
        add_eq_ok.mpr ⟨hvalid, hfresh, hapart, rfl⟩
      have hentries : (result.emplace entry.2.identity entry.2).entries = before ++ [entry] := by
        rw [OrderedMap.entries_emplace_of_gt hgt, hbefore, ← hkey]
      rw [List.flatMap_cons]
      refine (reads_decodeEntry hvalid (hlength entry hmem)).bind ?_
      have hsplit' : index.entries = before ++ [entry] ++ rest := by
        rw [hsplit, List.append_assoc]
        rfl
      exact Reads.bind (reads_liftM hadd) (ih hsplit' hentries)

/-! ## Round trips -/

theorem serializeEntries_eq_ok {entries : List (ChunkIdentity × ChunkIndexEntry)} {bytes : Bytes} :
    serializeEntries entries = .ok bytes ↔
      bytes = (entries.flatMap fun entry => entryBytes entry.2) ∧
        ∀ entry ∈ entries, entry.2.storageFile.length ≤ 2 ^ 32 - 1 := by
  induction entries generalizing bytes with
  | nil => simp [serializeEntries, eq_comm]
  | cons entry rest ih =>
      obtain ⟨identity, entry⟩ := entry
      simp only [serializeEntries, GiveMePi.bind_eq_ok, throwIf_eq_ok, ih, GiveMePi.pure_eq_ok,
        Except.ok.injEq, uint32Max_toNat, gt_iff_lt, not_lt, List.flatMap_cons,
        List.forall_mem_cons]
      constructor
      · intro h
        obtain ⟨_, hlength, _, ⟨rfl, hrest⟩, rfl⟩ := h
        exact ⟨rfl, hlength, hrest⟩
      · intro h
        obtain ⟨hbytes, hlength, hrest⟩ := h
        exact ⟨(), hlength, _, ⟨rfl, hrest⟩, hbytes.symm⟩

/-- The bytes of an index before its checksum. -/
def beforeChecksum (index : ChunkIndex) : Bytes :=
  magic ++ appendU16 formatVersion ++ appendU32 (UInt32.ofNat index.entries.length) ++
    index.entries.flatMap fun entry => entryBytes entry.2

/-- The bytes of an index. -/
def indexBytes (index : ChunkIndex) : Bytes :=
  beforeChecksum index ++ appendU32 (CRC32C.calculate (beforeChecksum index) 0)

/-- An index within the limits of the format. -/
structure IsWithinLimits (index : ChunkIndex) : Prop where
  count_le : index.entries.length ≤ 2 ^ 32 - 1
  filename_le : ∀ entry ∈ index.entries, entry.2.storageFile.length ≤ 2 ^ 32 - 1

theorem serialize_eq_ok {index : ChunkIndex} {bytes : Bytes} :
    index.serialize = .ok bytes ↔ bytes = indexBytes index ∧ IsWithinLimits index := by
  simp only [serialize, GiveMePi.bind_eq_ok, throwIf_eq_ok, serializeEntries_eq_ok,
    GiveMePi.pure_eq_ok, Except.ok.injEq, uint32Max_toNat, gt_iff_lt, not_lt]
  constructor
  · intro h
    obtain ⟨_, hcount, _, ⟨rfl, hfilename⟩, rfl⟩ := h
    exact ⟨rfl, hcount, hfilename⟩
  · intro h
    obtain ⟨rfl, hlimits⟩ := h
    exact ⟨(), hlimits.count_le, _, ⟨rfl, hlimits.filename_le⟩, rfl⟩

theorem deserialize_indexBytes {index : ChunkIndex} (h : IsWellFormed index)
    (hlimits : IsWithinLimits index) : deserialize (indexBytes index) = .ok index := by
  have hcount : (UInt32.ofNat index.entries.length).toNat = index.entries.length :=
    UInt32.toNat_ofNat_of_lt (hlimits.count_le.trans_lt (by decide))
  obtain ⟨body, hbody⟩ : ∃ body, body = appendU16 formatVersion ++
      (appendU32 (UInt32.ofNat index.entries.length) ++
        index.entries.flatMap fun entry => entryBytes entry.2) := ⟨_, rfl⟩
  have hbefore : beforeChecksum index = magic ++ body := by
    rw [hbody, beforeChecksum, List.append_assoc, List.append_assoc]
  have hlength : (indexBytes index).length = (beforeChecksum index).length + checksumSize := by
    rw [indexBytes, List.length_append, length_appendU32, checksumSize]
  have hoffset : (indexBytes index).length - checksumSize = (beforeChecksum index).length := by
    rw [hlength, Nat.add_sub_cancel]
  have hlong : ¬ (indexBytes index).length < magic.length + 2 + 4 + checksumSize := by
    rw [hlength, hbefore, hbody]
    simp only [List.length_append, length_appendU16, length_appendU32]
    omega
  have hchecksum : CRC32C.calculate ((indexBytes index).take (beforeChecksum index).length) 0 =
      wordU32 ((indexBytes index).drop (beforeChecksum index).length) := by
    rw [indexBytes, List.take_left, List.drop_left, wordU32_appendU32]
  have hindex : indexBytes index =
      magic ++ (body ++ appendU32 (CRC32C.calculate (beforeChecksum index) 0)) := by
    rw [indexBytes]
    nth_rewrite 1 [hbefore]
    rw [List.append_assoc]
  have hmagic : (indexBytes index).take magic.length = magic := by
    rw [hindex, List.take_left]
  have hdrop : (indexBytes index).drop magic.length =
      body ++ appendU32 (CRC32C.calculate (beforeChecksum index) 0) := by
    rw [hindex, List.drop_left]
  have hreads : Reads (indexBytes index) (decodeIndex (indexBytes index)) body index := by
    have hentries : Reads (indexBytes index)
        (decodeEntries (indexBytes index) index.entries.length create)
        (index.entries.flatMap fun entry => entryBytes entry.2) index :=
      reads_decodeEntries h hlimits.filename_le (List.nil_append _).symm rfl
    have hversion : Reads (indexBytes index) (liftM (throwIf (formatVersion ≠ formatVersion)
        (.invalidArgument "unsupported chunk index version"))) [] () :=
      reads_liftM (throwIf_neg (by simp))
    rw [← hcount] at hentries
    rw [hbody]
    exact (reads_read16 _).bind <|
      hversion.bind <| (reads_read32 _).bind hentries
  have hread := hreads _ _ hdrop
  rw [← List.length_append, ← hbefore] at hread
  simp only [deserialize, readIndex, hoffset, GiveMePi.bind_eq_ok, Prod.exists, Cursor.bind_eq_ok,
    Cursor.liftM_eq_ok, throwIf_eq_ok, Cursor.pure_eq_ok, GiveMePi.pure_eq_ok, Except.ok.injEq,
    not_not]
  exact ⟨index, _, ⟨(), 0, ⟨hlong, rfl⟩, (), 0, ⟨hchecksum, rfl⟩, (), 0, ⟨hmagic, rfl⟩, (), _, rfl,
    index, _, hread, _, _, rfl, (), _, ⟨rfl, rfl⟩, rfl, rfl⟩, rfl⟩

/-- An index that operations can give is written if it is within the limits, it comes back from its
bytes, and its bytes are those of every index with the same entries. -/
theorem serialize_deserialize_reachable (index : ChunkIndex) (h : Reachable index) :
    (IsWithinLimits index → ∃ bytes, index.serialize = .ok bytes) ∧
      (∀ bytes, index.serialize = .ok bytes → deserialize bytes = .ok index) ∧
        ∀ index' : ChunkIndex, Reachable index' →
          (∀ entry, entry ∈ index'.entries ↔ entry ∈ index.entries) →
            index'.serialize = index.serialize := by
  refine ⟨?_, ?_, ?_⟩
  · intro hlimits
    exact ⟨indexBytes index, serialize_eq_ok.mpr ⟨rfl, hlimits⟩⟩
  · intro bytes hbytes
    obtain ⟨rfl, hlimits⟩ := serialize_eq_ok.mp hbytes
    exact deserialize_indexBytes h.isWellFormed hlimits
  · intro index' _ hentries
    rw [OrderedMap.eq_of_mem_iff hentries]

/-- Two neighbours at one level, in both orders. -/
theorem serialize_deserialize_reachable_two :
    let computation : ComputationIdentity := ⟨⟨1⟩, 1, 1, 1, 16, 17, 3⟩
    let first : ChunkIndexEntry := ⟨⟨computation, ⟨0, 1, 0⟩⟩, [97], 5, 5, .crc32c, 7, 1⟩
    let second : ChunkIndexEntry := ⟨⟨computation, ⟨1, 3, 0⟩⟩, [98], 9, 6, .crc32c, 8, 1⟩
    ∃ index index' bytes, (create.add first >>= fun index => index.add second) = .ok index ∧
      (create.add second >>= fun index => index.add first) = .ok index' ∧
        index.serialize = .ok bytes ∧ deserialize bytes = .ok index ∧
          index'.serialize = .ok bytes := by
  intro computation first second
  have hfirst : create.add first = .ok (create.emplace first.identity first) := by decide
  have hsecond : create.add second = .ok (create.emplace second.identity second) := by decide
  have hfirst' : add (create.emplace first.identity first) second =
      .ok ((create.emplace first.identity first).emplace second.identity second) := by decide
  have hsecond' : add (create.emplace second.identity second) first =
      .ok ((create.emplace second.identity second).emplace first.identity first) := by decide
  have hindex := (Reachable.create.add hfirst).add hfirst'
  have hindex' := (Reachable.create.add hsecond).add hsecond'
  obtain ⟨hserialize, hdeserialize, hsame⟩ := serialize_deserialize_reachable _ hindex
  obtain ⟨bytes, hbytes⟩ := hserialize ⟨by decide, by decide⟩
  have hequal := hsame _ hindex' (by
    intro entry
    change entry ∈ [(first.identity, first), (second.identity, second)] ↔
      entry ∈ [(first.identity, first), (second.identity, second)]
    exact Iff.rfl)
  exact ⟨_, _, bytes, GiveMePi.bind_eq_ok.mpr ⟨_, hfirst, hfirst'⟩,
    GiveMePi.bind_eq_ok.mpr ⟨_, hsecond, hsecond'⟩, hbytes, hdeserialize bytes hbytes,
    hequal.trans hbytes⟩

end GiveMePi.Storage.ChunkIndex
