import GiveMePi.CursorSpans
import GiveMePi.Storage.IndexFormat

/-! # What the parser of an index has read

The bytes between two positions of the parser are those of the entries it returned. The length of a
name is the one field that it follows without knowing how many bytes are left. -/

namespace GiveMePi.Storage.ChunkIndex

open Checkpoint (CRC32C.calculate)
open Library (OrderedMap)
open Cursor

variable {bytes : Bytes} {position last : ℕ}

/-! ## Entries that go into one index -/

/-- Entries that do not keep each other out of an index. -/
def Apart (left right : ChunkIndexEntry) : Prop :=
  left.identity ≠ right.identity ∧ overlaps left.identity right.identity = false

instance : DecidableRel Apart := fun _ _ => inferInstanceAs (Decidable (_ ∧ _))

theorem contains_eq_false {index : ChunkIndex} {identity : ChunkIdentity} :
    index.contains identity = false ↔ ∀ existing ∈ index.entries, existing.1 ≠ identity := by
  rw [← Bool.not_eq_true, OrderedMap.contains_eq_true_iff]
  constructor
  · intro h existing hmem heq
    exact h ⟨existing.2, heq ▸ hmem⟩
  · rintro h ⟨entry, hmem⟩
    exact h _ hmem rfl

/-- Which entries can be added one after the other. -/
theorem exists_foldlM_add {result : ChunkIndex} {entries : List ChunkIndexEntry} :
    (∃ index, entries.foldlM add result = .ok index) ↔
      (∀ entry ∈ entries, IsValidEntry entry) ∧ entries.Pairwise Apart ∧
        ∀ entry ∈ entries, ∀ existing ∈ result.entries,
          existing.1 ≠ entry.identity ∧ overlaps existing.1 entry.identity = false := by
  induction entries generalizing result with
  | nil => simp [pure, Except.pure]
  | cons entry rest ih =>
      simp only [List.foldlM_cons, GiveMePi.bind_eq_ok, List.forall_mem_cons, List.pairwise_cons]
      constructor
      · rintro ⟨index, next, hadd, hrest⟩
        rcases add_eq_ok.mp hadd with ⟨hvalid, hfresh, hoverlaps, rfl⟩
        rcases ih.mp ⟨index, hrest⟩ with ⟨hrestValid, hrestApart, hnext⟩
        refine ⟨⟨hvalid, hrestValid⟩, ⟨fun other hother => ?_, hrestApart⟩, ?_, ?_⟩
        · exact hnext other hother _ ((OrderedMap.mem_emplace hfresh).mpr (.inl rfl))
        · exact fun existing hmem => ⟨contains_eq_false.mp hfresh existing hmem,
            hoverlaps existing hmem⟩
        · exact fun other hother existing hmem =>
            hnext other hother existing ((OrderedMap.mem_emplace hfresh).mpr (.inr hmem))
      · rintro ⟨⟨hvalid, hrestValid⟩, ⟨hapart, hrestApart⟩, hhead, htail⟩
        have hfresh : result.contains entry.identity = false :=
          contains_eq_false.mpr fun existing hmem => (hhead existing hmem).1
        have hadd := add_eq_ok.mpr
          ⟨hvalid, hfresh, fun existing hmem => (hhead existing hmem).2, rfl⟩
        rcases ih.mpr ⟨hrestValid, hrestApart, fun other hother existing hmem => by
          rcases (OrderedMap.mem_emplace hfresh).mp hmem with rfl | hmem
          · exact hapart other hother
          · exact htail other hother existing hmem⟩ with ⟨index, hindex⟩
        exact ⟨index, _, hadd, hindex⟩

/-- The entries of an index file, in the order of the file. -/
structure AreAddable (entries : List ChunkIndexEntry) : Prop where
  valid : ∀ entry ∈ entries, IsValidEntry entry
  apart : entries.Pairwise Apart
  filename_le : ∀ entry ∈ entries, entry.storageFile.length ≤ 2 ^ 32 - 1

theorem areAddable_iff {entries : List ChunkIndexEntry} :
    AreAddable entries ↔ (∃ index, entries.foldlM add create = .ok index) ∧
      ∀ entry ∈ entries, entry.storageFile.length ≤ 2 ^ 32 - 1 := by
  have hempty : ∀ entry ∈ entries, ∀ existing ∈ create.entries,
      existing.1 ≠ entry.identity ∧ overlaps existing.1 entry.identity = false :=
    fun _ _ _ hmem => absurd hmem List.not_mem_nil
  rw [exists_foldlM_add]
  constructor
  · intro h
    exact ⟨⟨h.valid, h.apart, hempty⟩, h.filename_le⟩
  · rintro ⟨⟨hvalid, hapart, -⟩, hfilename⟩
    exact ⟨hvalid, hapart, hfilename⟩

/-! ## What one entry was read from -/

theorem spans_decodeIdentity {identity : ChunkIdentity}
    (h : decodeIdentity bytes position = .ok (identity, last)) :
    identity.IsValid ∧ Spans bytes position (identityBytes identity) last := by
  simp only [decodeIdentity, Cursor.bind_eq_ok, Cursor.liftM_eq_ok, ChunkIdentity.create_eq_ok] at h
  rcases h with ⟨_, _, hrequire, algorithm, _, halgorithm, arithmetic, _, harithmetic, formula, _,
    hformula, requested, _, hrequested, guard, _, hguard, working, _, hworking, terms, _, hterms,
    level, _, hlevel, start, _, hstart, stop, _, hstop, ⟨rfl, hvalid⟩, rfl⟩
  rcases spans_require hrequire with ⟨-, rfl⟩
  refine ⟨hvalid, ?_⟩
  have hcode : algorithm.toUInt16.toUInt8 = algorithm := by simp
  have hspans := (spans_next halgorithm).trans <| (spans_read16 harithmetic).trans <|
    (spans_read16 hformula).trans <| (spans_read64 hrequested).trans <|
    (spans_read32 hguard).1.trans <| (spans_read64 hworking).trans <|
    (spans_read64 hterms).trans <| (spans_read32 hlevel).1.trans <|
    (spans_read64 hstart).trans <| spans_read64 hstop
  simpa only [identityBytes, appendU8, hcode, List.append_assoc] using hspans

theorem spans_decodeFilename {filename : Bytes}
    (h : decodeFilename bytes position = .ok (filename, last)) :
    filename.length ≤ 2 ^ 32 - 1 ∧
      Spans bytes position (appendU32 (UInt32.ofNat filename.length) ++ filename) last := by
  simp only [decodeFilename, remaining, Cursor.bind_eq_ok, Cursor.liftM_eq_ok] at h
  rcases h with ⟨length, middle, hlength, left, _, hleft, _, _, ⟨-, rfl⟩, hcopy⟩
  cases hleft
  have hword : UInt32.ofNat filename.length = length := by
    rw [length_copy hcopy, UInt32.ofNat_toNat]
  refine ⟨?_, ?_⟩
  · have hlt := length.toNat_lt
    rw [length_copy hcopy]
    omega
  · rw [hword]
    exact (spans_read32 hlength).1.trans (spans_copy hcopy)

theorem spans_decodeEntry {entry : ChunkIndexEntry}
    (h : decodeEntry bytes position = .ok (entry, last)) :
    entry.identity.IsValid ∧ entry.storageFile.length ≤ 2 ^ 32 - 1 ∧
      Spans bytes position (entryBytes entry) last := by
  simp only [decodeEntry, Cursor.bind_eq_ok, Cursor.pure_eq_ok] at h
  rcases h with ⟨identity, _, hidentity, filename, _, hfilename, _, _, huncompressed, _, _, hstored,
    _, _, halgorithm, _, _, hvalue, _, _, hversion, rfl, rfl⟩
  rcases spans_decodeIdentity hidentity with ⟨hvalid, hspansIdentity⟩
  rcases spans_decodeFilename hfilename with ⟨hlength, hspansFilename⟩
  refine ⟨hvalid, hlength, ?_⟩
  have hspans := hspansIdentity.trans <| hspansFilename.trans <| (spans_read64 huncompressed).trans <|
    (spans_read64 hstored).trans <| (spans_read16 halgorithm).trans <|
    (spans_read32 hvalue).1.trans <| spans_read16 hversion
  simpa only [entryBytes, List.append_assoc] using hspans

/-- What the loop over the entries returns, and from which bytes. -/
theorem decodeEntries_eq_ok {count : ℕ} {result index : ChunkIndex} :
    decodeEntries bytes count result position = .ok (index, last) ↔
      ∃ entries : List ChunkIndexEntry, entries.length = count ∧
        entries.foldlM add result = .ok index ∧
          (∀ entry ∈ entries, entry.storageFile.length ≤ 2 ^ 32 - 1) ∧
            Spans bytes position (entries.flatMap entryBytes) last := by
  induction count generalizing result position with
  | zero =>
      rw [decodeEntries, Cursor.pure_eq_ok]
      constructor
      · rintro ⟨rfl, rfl⟩
        exact ⟨[], rfl, rfl, by simp, .refl bytes position⟩
      · rintro ⟨entries, hlength, hadd, -, hspans⟩
        rw [List.length_eq_zero_iff.mp hlength] at hadd hspans
        cases hadd
        exact ⟨rfl, by simpa using hspans.last_eq.symm⟩
  | succ count ih =>
      simp only [decodeEntries, Cursor.bind_eq_ok, Cursor.liftM_eq_ok]
      constructor
      · rintro ⟨entry, _, hentry, next, _, ⟨hadd, rfl⟩, hrest⟩
        rcases ih.mp hrest with ⟨rest, hlength, hfold, hfilename, hspans⟩
        rcases spans_decodeEntry hentry with ⟨-, hname, hspansEntry⟩
        refine ⟨entry :: rest, by simp [hlength], ?_, ?_, ?_⟩
        · rw [List.foldlM_cons]
          exact GiveMePi.bind_eq_ok.mpr ⟨next, hadd, hfold⟩
        · exact List.forall_mem_cons.mpr ⟨hname, hfilename⟩
        · simpa using hspansEntry.trans hspans
      · rintro ⟨entries, hlength, hfold, hfilename, hspans⟩
        rcases List.exists_cons_of_length_eq_add_one hlength with ⟨entry, rest, rfl⟩
        rw [List.foldlM_cons, GiveMePi.bind_eq_ok] at hfold
        rcases hfold with ⟨next, hadd, hfold⟩
        rcases List.forall_mem_cons.mp hfilename with ⟨hname, hfilename⟩
        rw [List.flatMap_cons] at hspans
        rcases hspans.split with ⟨middle, hspansEntry, hspansRest⟩
        have hentry := (reads_decodeEntry (add_eq_ok.mp hadd).1 hname).of_spans hspansEntry
        exact ⟨entry, middle, hentry, next, middle, ⟨hadd, rfl⟩,
          ih.mpr ⟨rest, Nat.succ_injective hlength, hfold, hfilename, hspansRest⟩⟩

end GiveMePi.Storage.ChunkIndex
