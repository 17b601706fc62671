import GiveMePi.Checkpoint.BlockFormat
import GiveMePi.Checkpoint.CheckpointManifest
import Mathlib.Data.List.Sort

/-! # The manifest format is exact

A byte string decodes to a manifest exactly when it is the one encoding of that manifest. -/

namespace GiveMePi.Checkpoint.CheckpointManifestCodec

/-! ## Entries in order -/

/-- An entry that `validateEntry` accepts. -/
structure IsValidEntry (identity : ComputationIdentity) (entry : ManifestEntry) : Prop where
  start_lt : entry.location.start < entry.location.stop
  stop_le : entry.location.stop ≤ identity.termCount
  plain : isPlainFilename entry.filename = true
  length_le : entry.filename.length ≤ 2 ^ 32 - 1
  crc32c : entry.checksumAlgorithm = ChecksumAlgorithm.crc32c
  completion : entry.completion = CompletionState.incomplete ∨
    entry.completion = CompletionState.complete

theorem validateEntry_eq_ok {identity : ComputationIdentity} {entry : ManifestEntry} {u : Unit} :
    validateEntry identity entry = .ok u ↔ IsValidEntry identity entry := by
  simp only [validateEntry, GiveMePi.bind_eq_ok, BlockLocation.validate_eq_ok, throwIf_eq_ok,
    uint32Max_toNat, not_and_or, not_not, not_lt, gt_iff_lt, Bool.not_eq_false]
  constructor
  · intro h
    obtain ⟨_, ⟨hstart, hstop⟩, _, hplain, _, hlength, _, hcrc, hcompletion⟩ := h
    exact ⟨hstart, hstop, hplain, hlength, hcrc, hcompletion⟩
  · intro h
    exact ⟨(), ⟨h.start_lt, h.stop_le⟩, (), h.plain, (), h.length_le, (), h.crc32c, h.completion⟩

/-- The entries stand in the strict order of their locations. -/
def IsSorted (entries : List ManifestEntry) : Prop :=
  entries.Pairwise fun left right => left.location < right.location

theorem sortEntries_perm (entries : List ManifestEntry) : (sortEntries entries).Perm entries :=
  List.mergeSort_perm _ _

theorem sortEntries_pairwise (entries : List ManifestEntry) :
    (sortEntries entries).Pairwise fun left right => left.location ≤ right.location := by
  have h := @List.pairwise_mergeSort ManifestEntry
    (fun left right => decide (left.location ≤ right.location))
    (by
      intro a b c hab hbc
      simp only [decide_eq_true_eq] at hab hbc ⊢
      exact hab.trans hbc)
    (by
      intro a b
      simpa using le_total a.location b.location) entries
  simpa [sortEntries] using h

/-- Sorted entries stay as they are. -/
theorem sortEntries_eq {entries : List ManifestEntry} (h : IsSorted entries) :
    sortEntries entries = entries := by
  apply List.mergeSort_of_pairwise
  exact h.imp fun hlt => by simpa using hlt.le

/-- The check of neighbours finds every duplicate of a sorted list. -/
theorem rejectDuplicates_eq_ok {entries : List ManifestEntry} {u : Unit}
    (hsorted : entries.Pairwise fun left right => left.location ≤ right.location) :
    rejectDuplicates entries = .ok u ↔ IsSorted entries := by
  induction entries with
  | nil => simp [rejectDuplicates, IsSorted]
  | cons left rest ih =>
      cases rest with
      | nil => simp [rejectDuplicates, IsSorted]
      | cons right rest =>
          have hrest := List.pairwise_cons.mp hsorted
          have hleft := hrest.1 right List.mem_cons_self
          have htail := List.pairwise_cons.mp hrest.2
          rw [rejectDuplicates, GiveMePi.bind_eq_ok, IsSorted, List.pairwise_cons]
          simp only [throwIf_eq_ok, ih hrest.2]
          constructor
          · intro h
            obtain ⟨_, hne, hstrict⟩ := h
            have hlt := lt_of_le_of_ne hleft hne
            refine ⟨fun entry hmem => ?_, hstrict⟩
            cases hmem with
            | head => exact hlt
            | tail _ hmem => exact hlt.trans_le (htail.1 entry hmem)
          · intro h
            exact ⟨(), (h.1 right List.mem_cons_self).ne, h.2⟩

/-! ## The bytes of a manifest -/

/-- The number of bytes of the entries. -/
def entriesLength : List ManifestEntry → ℕ
  | [] => 0
  | entry :: rest => fixedEntrySize + entry.filename.length + entriesLength rest

theorem length_entryBytes (entry : ManifestEntry) :
    (entryBytes entry).length = fixedEntrySize + entry.filename.length := by
  unfold entryBytes
  simp only [List.length_append, length_appendU8, length_appendU16, length_appendU32,
    length_appendU64, fixedEntrySize]

theorem length_flatMap_entryBytes (entries : List ManifestEntry) :
    (entries.flatMap entryBytes).length = entriesLength entries := by
  induction entries with
  | nil => rfl
  | cons entry rest ih =>
      rw [List.flatMap_cons, List.length_append, ih, length_entryBytes, entriesLength]

theorem mul_length_le_entriesLength (entries : List ManifestEntry) :
    fixedEntrySize * entries.length ≤ entriesLength entries := by
  induction entries with
  | nil => simp [entriesLength]
  | cons entry rest ih =>
      rw [List.length_cons, Nat.mul_succ, entriesLength]
      omega

theorem checkedTotalSize_eq_ok {totalSize total : ℕ} {entries : List ManifestEntry}
    (h : totalSize ≤ 2 ^ 64 - 1) :
    checkedTotalSize totalSize entries = .ok total ↔
      total = totalSize + entriesLength entries ∧ totalSize + entriesLength entries ≤ 2 ^ 64 - 1 := by
  induction entries generalizing totalSize with
  | nil =>
      simp only [checkedTotalSize, pure_eq_ok, Except.ok.injEq, entriesLength]
      omega
  | cons entry rest ih =>
      simp only [checkedTotalSize, GiveMePi.bind_eq_ok, throwIf_eq_ok, uint64Max_toNat,
        entriesLength, not_or, not_lt, gt_iff_lt]
      constructor
      · intro hchecked
        obtain ⟨_, hsize, hrest⟩ := hchecked
        rw [ih (by omega)] at hrest
        omega
      · intro htotal
        refine ⟨(), by omega, ?_⟩
        rw [ih (by omega)]
        omega

/-- The bytes of a manifest before its checksum. -/
def beforeChecksum (identity : ComputationIdentity) (entryCount : ℕ) : Bytes :=
  manifestMagic ++ appendU16 formatVersion ++ appendU16 version1HeaderSize ++ appendU32 0
    ++ CheckpointBlockCodec.identityBytes identity ++ appendU64 (UInt64.ofNat entryCount)
    ++ appendU16 ChecksumAlgorithm.crc32c.code ++ appendU16 checksumSize

/-- The checksum of a manifest. -/
def checksumOf (manifest : CheckpointManifest) : UInt32 :=
  CRC32C.calculateZeroed checksumOffset
    (beforeChecksum manifest.identity manifest.entries.length ++ appendU32 0 ++
      manifest.entries.flatMap entryBytes)

/-- The bytes of a manifest whose entries are in order. -/
def manifestBytes (manifest : CheckpointManifest) : Bytes :=
  beforeChecksum manifest.identity manifest.entries.length ++ appendU32 (checksumOf manifest) ++
    manifest.entries.flatMap entryBytes

theorem length_beforeChecksum (identity : ComputationIdentity) (entryCount : ℕ) :
    (beforeChecksum identity entryCount).length = checksumOffset := rfl

theorem headerBytes_eq (identity : ComputationIdentity) (entryCount : ℕ) :
    headerBytes identity entryCount = beforeChecksum identity entryCount ++ appendU32 0 := by
  unfold headerBytes beforeChecksum CheckpointBlockCodec.identityBytes
  simp only [List.append_assoc]

theorem length_manifestBytes (manifest : CheckpointManifest) :
    (manifestBytes manifest).length = 72 + entriesLength manifest.entries := by
  simp only [manifestBytes, List.length_append, length_beforeChecksum, length_appendU32,
    length_flatMap_entryBytes, checksumOffset]

/-- The checksum of a manifest does not depend on what stands in the checksum's place. -/
theorem manifestChecksum_eq (manifest : CheckpointManifest) {slot : Bytes}
    (hslot : slot.length = 4) :
    manifestChecksum (beforeChecksum manifest.identity manifest.entries.length ++ slot ++
      manifest.entries.flatMap entryBytes) = .ok (checksumOf manifest) := by
  have hlength : ¬ (beforeChecksum manifest.identity manifest.entries.length ++ slot ++
      manifest.entries.flatMap entryBytes).length < version1HeaderSize.toNat := by
    have hsize : version1HeaderSize.toNat = 72 := rfl
    simp only [List.length_append, length_beforeChecksum, hslot, checksumOffset, hsize]
    omega
  rw [manifestChecksum, throwIf_neg hlength, ok_bind, pure_eq_ok, checksumOf,
    CRC32C.calculateZeroed_slot (length_beforeChecksum _ _) hslot (length_appendU32 0)]

/-! ## Decoding -/

theorem readEntry_eq_ok {identity : ComputationIdentity} {bytes rest : Bytes}
    {entry : ManifestEntry} :
    readEntry identity bytes = .ok (entry, rest) ↔
      bytes = entryBytes entry ++ rest ∧ IsValidEntry identity entry := by
  simp only [readEntry, ↓Reader.throwIf_bind_eq_ok, Reader.bind_eq_ok, Reader.readU8_eq_ok,
    Reader.readU16_eq_ok, Reader.readU32_eq_ok, Reader.readU64_eq_ok, Reader.take_eq_ok,
    Reader.liftM_eq_ok, Reader.pure_eq_ok, validateEntry_eq_ok, not_not]
  constructor
  · intro h
    obtain ⟨start, _, h₁, stop, _, h₂, level, _, h₃, completion, _, h₄, _, _, h₅, rfl, _, _, h₆, rfl,
      payloadSize, _, h₇, algorithm, _, h₈, _, _, h₉, rfl, checksum, _, h₁₀, length, _, h₁₁, _, _, h₁₂,
      rfl, filename, _, ⟨h₁₃, hlength⟩, _, _, ⟨hvalid, rfl⟩, rfl, rfl⟩ := h
    obtain rfl : length = UInt32.ofNat filename.length := by rw [hlength, UInt32.ofNat_toNat]
    refine ⟨?_, hvalid⟩
    rw [h₁, h₂, h₃, h₄, h₅, h₆, h₇, h₈, h₉, h₁₀, h₁₁, h₁₂, h₁₃]
    simp only [entryBytes, List.append_assoc]
  · intro h
    obtain ⟨rfl, hvalid⟩ := h
    have hlength : entry.filename.length = (UInt32.ofNat entry.filename.length).toNat := by
      have hlt : entry.filename.length < UInt32.size := hvalid.length_le.trans_lt (by decide)
      exact (UInt32.toNat_ofNat_of_lt hlt).symm
    exact ⟨_, _, by simp only [entryBytes, List.append_assoc], _, _, rfl, _, _, rfl, _, _, rfl, _, _,
      rfl, rfl, _, _, rfl, rfl, _, _, rfl, _, _, rfl, _, _, rfl, rfl, _, _, rfl, _, _, rfl, _, _, rfl,
      rfl, _, _, ⟨rfl, hlength⟩, (), _, ⟨hvalid, rfl⟩, rfl, rfl⟩

/-- The check against the last entry read is that against all of them. -/
theorem last_not_ge_iff {entries : List ManifestEntry} {entry : ManifestEntry}
    (h : IsSorted entries) :
    (¬ (entries.getLast?.any fun last => last.location ≥ entry.location) = true) ↔
      IsSorted (entries ++ [entry]) := by
  rw [IsSorted, List.pairwise_append]
  induction entries using List.reverseRecOn with
  | nil => simp
  | append_singleton before last _ =>
      have hbefore := (List.pairwise_append.mp h).2.2
      simp only [List.getLast?_concat, Option.any_some, ge_iff_le, decide_eq_true_eq, not_le]
      constructor
      · intro hlt
        refine ⟨h, List.pairwise_singleton _ _, fun left hleft right hright => ?_⟩
        obtain rfl := List.mem_singleton.mp hright
        rcases List.mem_append.mp hleft with hmem | hmem
        · exact (hbefore left hmem last List.mem_cons_self).trans hlt
        · obtain rfl := List.mem_singleton.mp hmem
          exact hlt
      · intro hall
        exact hall.2.2 last (by simp) entry List.mem_cons_self

theorem readEntries_eq_ok {identity : ComputationIdentity} {count : ℕ} {bytes rest : Bytes}
    {before entries : List ManifestEntry} (hbefore : IsSorted before) :
    readEntries identity count before bytes = .ok (entries, rest) ↔
      ∃ new, entries = before ++ new ∧ new.length = count ∧
        bytes = new.flatMap entryBytes ++ rest ∧ (∀ entry ∈ new, IsValidEntry identity entry) ∧
          IsSorted entries := by
  induction count generalizing before bytes with
  | zero =>
      simp only [readEntries, Reader.pure_eq_ok]
      constructor
      · intro h
        obtain ⟨rfl, rfl⟩ := h
        exact ⟨[], by simp [hbefore]⟩
      · intro h
        obtain ⟨new, rfl, hlength, rfl, _⟩ := h
        simp [List.length_eq_zero_iff.mp hlength]
  | succ count ih =>
      simp only [readEntries, Reader.bind_eq_ok, readEntry_eq_ok, throwIf_eq_ok,
        Reader.liftM_eq_ok, last_not_ge_iff hbefore]
      constructor
      · intro h
        obtain ⟨entry, _, ⟨rfl, hvalid⟩, _, _, ⟨hsorted, rfl⟩, hrest⟩ := h
        obtain ⟨new, rfl, rfl, rfl, hnew, hall⟩ := (ih hsorted).mp hrest
        refine ⟨entry :: new, by simp, rfl, by simp, fun other hmem => ?_, hall⟩
        cases hmem with
        | head => exact hvalid
        | tail _ hmem => exact hnew other hmem
      · intro h
        obtain ⟨new, rfl, hlength, rfl, hvalid, hall⟩ := h
        cases new with
        | nil => simp at hlength
        | cons entry new =>
            have hsorted : IsSorted (before ++ [entry]) :=
              hall.sublist (by simp)
            refine ⟨entry, new.flatMap entryBytes ++ rest, ⟨by simp, hvalid entry List.mem_cons_self⟩,
              (), _, ⟨hsorted, rfl⟩, ?_⟩
            refine (ih hsorted).mpr ⟨new, by simp, by simpa using hlength, rfl, fun other hmem =>
              hvalid other (List.mem_cons_of_mem _ hmem), hall⟩

theorem readChecksum_eq_ok {whole bytes rest : Bytes} {u : Unit} :
    readChecksum whole bytes = .ok (u, rest) ↔
      ∃ checksum, bytes = appendU16 ChecksumAlgorithm.crc32c.code ++ appendU16 checksumSize ++
        appendU32 checksum ++ rest ∧ manifestChecksum whole = .ok checksum := by
  simp only [readChecksum, Reader.bind_eq_ok, Reader.readU16_eq_ok, Reader.readU32_eq_ok,
    throwIf_eq_ok, Reader.liftM_eq_ok, not_or, not_not]
  constructor
  · intro h
    obtain ⟨_, _, rfl, _, _, rfl, _, _, ⟨⟨rfl, rfl⟩, rfl⟩, checksum, _, rfl, _, _, ⟨hwhole, rfl⟩, rfl,
      rfl⟩ := h
    exact ⟨_, by simp only [List.append_assoc], hwhole⟩
  · intro h
    obtain ⟨checksum, rfl, hwhole⟩ := h
    exact ⟨_, _, by simp only [List.append_assoc], _, _, rfl, (), _, ⟨⟨rfl, rfl⟩, rfl⟩, _, _, rfl, _,
      _, ⟨hwhole, rfl⟩, rfl, rfl⟩

/-- A manifest that decoding may return. -/
structure IsDecodable (manifest : CheckpointManifest) : Prop where
  identity : manifest.identity.IsValid
  entries : ∀ entry ∈ manifest.entries, IsValidEntry manifest.identity entry
  sorted : IsSorted manifest.entries
  length_lt : manifest.entries.length < 2 ^ 64

/-- Decoding returns a manifest exactly on the encoding of that manifest. -/
theorem decode_eq_ok_iff {bytes : Bytes} {manifest : CheckpointManifest} :
    decode bytes = .ok manifest ↔ bytes = manifestBytes manifest ∧ IsDecodable manifest := by
  simp only [decode, GiveMePi.bind_eq_ok, Prod.exists, pure_eq_ok, Except.ok.injEq, readManifest,
    ↓Reader.throwIf_bind_eq_ok, Reader.bind_eq_ok, Reader.take_eq_ok, Reader.readU16_eq_ok,
    Reader.readU32_eq_ok, Reader.readU64_eq_ok, Reader.get_eq_ok, Reader.pure_eq_ok,
    CheckpointBlockCodec.readIdentity_eq_ok, readChecksum_eq_ok,
    readEntries_eq_ok (show IsSorted [] from List.Pairwise.nil), not_not]
  constructor
  · intro h
    obtain ⟨_, _, ⟨_, _, ⟨h₁, _⟩, rfl, _, _, h₂, rfl, _, _, h₃, rfl, _, _, h₄, rfl, identity, _,
      ⟨h₅, hidentity⟩, entryCount, _, h₆, _, _, ⟨checksum, h₇, hchecksum⟩, _, _, ⟨rfl, rfl⟩, _,
      entries, left, ⟨_, rfl, hcount, h₈, hvalid, hsorted⟩, _, _, ⟨rfl, rfl⟩, hleft, rfl, _⟩,
      rfl⟩ := h
    obtain rfl : left = [] := List.length_eq_zero_iff.mp hleft
    obtain rfl : entryCount = UInt64.ofNat entries.length := by rw [hcount, UInt64.ofNat_toNat]
    have hsplit : bytes = beforeChecksum identity entries.length ++ appendU32 checksum ++
        entries.flatMap entryBytes := by
      rw [h₁, h₂, h₃, h₄, h₅, h₆, h₇, h₈]
      simp only [beforeChecksum, List.append_assoc, List.append_nil]
    rw [hsplit, manifestChecksum_eq ⟨identity, entries⟩ (length_appendU32 _)] at hchecksum
    cases hchecksum
    exact ⟨hsplit, hidentity, hvalid, hsorted, hcount ▸ UInt64.toNat_lt _⟩
  · intro h
    obtain ⟨hbytes, hidentity, hvalid, hsorted, hlength⟩ := h
    have hcount : manifest.entries.length = (UInt64.ofNat manifest.entries.length).toNat :=
      (UInt64.toNat_ofNat_of_lt hlength).symm
    have hfit : ¬ (UInt64.ofNat manifest.entries.length).toNat >
        (manifest.entries.flatMap entryBytes).length / fixedEntrySize := by
      rw [← hcount, length_flatMap_entryBytes, gt_iff_lt, not_lt, Nat.le_div_iff_mul_le (by decide),
        mul_comm]
      exact mul_length_le_entriesLength _
    refine ⟨manifest, [], ⟨_, _, ⟨?_, rfl⟩, rfl, _, _, rfl, rfl, _, _, rfl, rfl, _, _, rfl, rfl,
      manifest.identity, _, ⟨rfl, hidentity⟩, _, _, rfl, (), _, ⟨checksumOf manifest, rfl, ?_⟩, _, _,
      ⟨rfl, rfl⟩, hfit, manifest.entries, [],
      ⟨manifest.entries, rfl, hcount, (List.append_nil _).symm, hvalid, hsorted⟩, _, _, ⟨rfl, rfl⟩,
      rfl, rfl, rfl⟩, rfl⟩
    · rw [hbytes]
      simp only [manifestBytes, beforeChecksum, List.append_assoc]
    · rw [hbytes]
      exact manifestChecksum_eq manifest (length_appendU32 _)

/-! ## Encoding -/

/-- A manifest that encoding accepts. -/
structure IsEncodable (manifest : CheckpointManifest) : Prop where
  identity : manifest.identity.IsValid
  entries : ∀ entry ∈ manifest.entries, IsValidEntry manifest.identity entry
  sorted : IsSorted (sortEntries manifest.entries)
  length_le : 72 + entriesLength (sortEntries manifest.entries) ≤ 2 ^ 64 - 1

/-- The manifest with its entries in order. -/
def canonical (manifest : CheckpointManifest) : CheckpointManifest :=
  { manifest with entries := sortEntries manifest.entries }

/-- Encoding returns the bytes of the sorted manifest, for exactly the manifests it accepts. -/
theorem encode_eq_ok_iff {manifest : CheckpointManifest} {bytes : Bytes} :
    encode manifest = .ok bytes ↔
      bytes = manifestBytes (canonical manifest) ∧ IsEncodable manifest := by
  have hheader : version1HeaderSize.toNat = 72 := rfl
  have hchecksum := manifestChecksum_eq (canonical manifest) (length_appendU32 0)
  have hstore : storeU32 (beforeChecksum manifest.identity (sortEntries manifest.entries).length ++
      appendU32 0 ++ (sortEntries manifest.entries).flatMap entryBytes) checksumOffset
        (checksumOf (canonical manifest)) = manifestBytes (canonical manifest) := by
    rw [← length_beforeChecksum manifest.identity (sortEntries manifest.entries).length,
      CheckpointBlockCodec.storeU32_append _ (length_appendU32 0)]
    rfl
  rw [canonical] at hchecksum
  simp only [encode, GiveMePi.bind_eq_ok, forM_eq_ok, validateEntry_eq_ok,
    rejectDuplicates_eq_ok (sortEntries_pairwise _), hheader, headerBytes_eq, hchecksum,
    checkedTotalSize_eq_ok (show 72 ≤ 2 ^ 64 - 1 by decide), pure_eq_ok, Except.ok.injEq]
  constructor
  · intro h
    obtain ⟨_, hidentity, _, hentries, _, hsorted, _, ⟨_, hlength⟩, _, rfl, rfl⟩ := h
    exact ⟨hstore, hidentity, hentries, hsorted, hlength⟩
  · intro h
    obtain ⟨rfl, hidentity, hentries, hsorted, hlength⟩ := h
    exact ⟨(), hidentity, (), hentries, (), hsorted, _, ⟨rfl, hlength⟩, _, rfl, hstore⟩

/-- Decoding undoes encoding, up to the order of the entries. -/
theorem decode_of_encode {manifest : CheckpointManifest} {bytes : Bytes}
    (h : encode manifest = .ok bytes) : decode bytes = .ok (canonical manifest) := by
  obtain ⟨rfl, hidentity, hentries, hsorted, hlength⟩ := encode_eq_ok_iff.mp h
  refine decode_eq_ok_iff.mpr ⟨rfl, hidentity, fun entry hmem => ?_, hsorted, ?_⟩
  · exact hentries entry ((sortEntries_perm _).mem_iff.mp hmem)
  · have hmul := mul_length_le_entriesLength (sortEntries manifest.entries)
    rw [fixedEntrySize] at hmul
    change (sortEntries manifest.entries).length < 2 ^ 64
    omega

/-! ## Round trips -/

/-- The order of a list without duplicates is the order of each of its permutations. -/
theorem sortEntries_eq_of_perm {entries entries' : List ManifestEntry} (h : entries'.Perm entries)
    (hsorted : IsSorted (sortEntries entries)) : sortEntries entries' = sortEntries entries := by
  have hperm : (sortEntries entries').Perm (sortEntries entries) :=
    (sortEntries_perm entries').trans (h.trans (sortEntries_perm entries).symm)
  apply hperm.eq_of_pairwise _ (sortEntries_pairwise entries')
    (hsorted.imp fun hlt => hlt.le)
  intro left right hleft hright hle hge
  have hnodup : ((sortEntries entries).map fun entry => entry.location).Nodup :=
    List.pairwise_map.mpr (hsorted.imp fun hlt => hlt.ne)
  exact List.inj_on_of_nodup_map hnodup (hperm.mem_iff.mp hleft) hright (le_antisymm hle hge)

/-- A manifest comes back from its bytes with its entries in order, the order they had does not
matter, and a byte string that decodes is the one that encoding writes. -/
theorem encode_decode_canonical (manifest : CheckpointManifest) :
    (∀ bytes, encode manifest = .ok bytes → decode bytes = .ok (canonical manifest) ∧
      (canonical manifest).entries.Perm manifest.entries ∧
        IsSorted (canonical manifest).entries ∧
          ∀ entries, entries.Perm manifest.entries →
            encode { manifest with entries := entries } = .ok bytes) ∧
      ∀ bytes : Bytes, bytes.length < 2 ^ 64 → decode bytes = .ok manifest →
        encode manifest = .ok bytes := by
  refine ⟨fun bytes h => ?_, fun bytes hlength h => ?_⟩
  · obtain ⟨rfl, hencodable⟩ := encode_eq_ok_iff.mp h
    refine ⟨decode_of_encode h, sortEntries_perm _, hencodable.sorted, fun entries hperm => ?_⟩
    have hsort := sortEntries_eq_of_perm hperm hencodable.sorted
    refine encode_eq_ok_iff.mpr ⟨?_, hencodable.identity, fun entry hmem => ?_, ?_, ?_⟩
    · rw [canonical, canonical, hsort]
    · exact hencodable.entries entry (hperm.mem_iff.mp hmem)
    · rw [hsort]
      exact hencodable.sorted
    · rw [hsort]
      exact hencodable.length_le
  · obtain ⟨rfl, hdecodable⟩ := decode_eq_ok_iff.mp h
    have hsort := sortEntries_eq hdecodable.sorted
    refine encode_eq_ok_iff.mpr ⟨?_, hdecodable.identity, hdecodable.entries, ?_, ?_⟩
    · rw [canonical, hsort]
    · rw [hsort]
      exact hdecodable.sorted
    · rw [length_manifestBytes] at hlength
      rw [hsort]
      omega

/-- Two entries in the wrong order. -/
theorem encode_decode_canonical_two :
    let identity : ComputationIdentity := ⟨⟨1⟩, 1, 1, 1, 16, 17, 3⟩
    let first : ManifestEntry := ⟨⟨0, 2, 1⟩, [97], 4, .crc32c, 5, .complete⟩
    let second : ManifestEntry := ⟨⟨2, 3, 0⟩, [98], 6, .crc32c, 7, .complete⟩
    ∃ bytes, encode ⟨identity, [second, first]⟩ = .ok bytes ∧
      decode bytes = .ok ⟨identity, [first, second]⟩ ∧
        encode ⟨identity, [first, second]⟩ = .ok bytes := by
  intro identity first second
  have hsorted : IsSorted [first, second] := by
    refine List.pairwise_pair.mpr ?_
    decide
  have hsort : sortEntries [second, first] = [first, second] :=
    (sortEntries_eq_of_perm (List.Perm.swap first second []) (by
      rw [sortEntries_eq hsorted]
      exact hsorted)).trans (sortEntries_eq hsorted)
  have hencodable : IsEncodable ⟨identity, [second, first]⟩ := by
    refine ⟨by decide, ?_, by rw [hsort]; exact hsorted, by rw [hsort]; decide⟩
    intro entry hmem
    rcases List.mem_pair.mp hmem with rfl | rfl
    · exact ⟨by decide, by decide, by decide, by decide, rfl, Or.inr rfl⟩
    · exact ⟨by decide, by decide, by decide, by decide, rfl, Or.inr rfl⟩
  obtain ⟨bytes, hbytes, hlength⟩ : ∃ bytes : Bytes,
      encode ⟨identity, [second, first]⟩ = .ok bytes ∧ bytes.length < 2 ^ 64 := by
    refine ⟨_, encode_eq_ok_iff.mpr ⟨rfl, hencodable⟩, ?_⟩
    have hle := hencodable.length_le
    rw [length_manifestBytes, canonical]
    exact lt_of_le_of_lt hle (by decide)
  obtain ⟨hencode, -⟩ := encode_decode_canonical ⟨identity, [second, first]⟩
  obtain ⟨hdecode, -⟩ := hencode bytes hbytes
  rw [canonical, hsort] at hdecode
  exact ⟨bytes, hbytes, hdecode,
    (encode_decode_canonical ⟨identity, [first, second]⟩).2 bytes hlength hdecode⟩

end GiveMePi.Checkpoint.CheckpointManifestCodec
