import GiveMePi.Storage.IndexParsing

/-! # Names that an index file cuts off

The length of a name is checked against the bytes before the checksum. The bytes left are counted by
a subtraction of sizes, which wraps round when a name begins in the checksum itself. -/

namespace GiveMePi.Storage.ChunkIndex

open Checkpoint (CRC32C.calculate)
open Cursor

variable {bytes : Bytes} {position middle last : ℕ} {length count : UInt32}

/-! ## The files -/

/-- The bytes before the first entry. -/
def header (count : UInt32) : Bytes :=
  magic ++ appendU16 formatVersion ++ appendU32 count

/-- The last four bytes are the checksum of those before them. -/
def HasChecksum (bytes : Bytes) : Prop :=
  ∃ content, bytes = content ++ appendU32 (CRC32C.calculate content 0)

/-- A file of entries that go into one index, behind their number and before a checksum. -/
structure Lists (bytes : Bytes) (entries : List ChunkIndexEntry) : Prop where
  checksum : HasChecksum bytes
  addable : AreAddable entries
  count_le : entries.length ≤ 2 ^ 32 - 1
  layout : ∃ checksum, bytes = header (UInt32.ofNat entries.length) ++ entries.flatMap entryBytes ++
    appendU32 checksum

/-- A well-formed file. -/
def IsIndexFile (bytes : Bytes) : Prop :=
  ∃ entries, Lists bytes entries

/-- Behind some entries and an identity, the file announces a name of the length; the bytes `left`
are all that follows. -/
structure Announces (bytes : Bytes) (length : UInt32) (left : Bytes) : Prop where
  checksum : HasChecksum bytes
  layout : ∃ count entries identity, AreAddable entries ∧ entries.length < UInt32.toNat count ∧
    identity.IsValid ∧ bytes = header count ++ entries.flatMap entryBytes ++
      identityBytes identity ++ appendU32 length ++ left

theorem hasChecksum_iff (h : checksumSize ≤ bytes.length) :
    CRC32C.calculate (bytes.take (bytes.length - checksumSize)) 0 =
        wordU32 (bytes.drop (bytes.length - checksumSize)) ↔ HasChecksum bytes := by
  have hlast : (bytes.drop (bytes.length - checksumSize)).length = 4 := by
    rw [List.length_drop, Nat.sub_sub_self h, checksumSize]
  constructor
  · intro heq
    refine ⟨bytes.take (bytes.length - checksumSize), ?_⟩
    rw [heq, appendU32_wordU32 hlast, List.take_append_drop]
  · rintro ⟨content, rfl⟩
    have hcontent : (content ++ appendU32 (CRC32C.calculate content 0)).length - checksumSize =
        content.length := by
      rw [List.length_append, length_appendU32, checksumSize, Nat.add_sub_cancel]
    rw [hcontent, List.take_left, List.drop_left, wordU32_appendU32]

/-! ## The check of a name -/

/-- The check that `decodeFilename` makes when the length is read. -/
def rejectsName (bytes : Bytes) (position : ℕ) (length : UInt32) : Prop :=
  length.toNat > subSize (subSize bytes.length position) checksumSize

/-- With four bytes left the check is the intended one; with fewer it rejects no length. -/
theorem rejectsName_iff (h : position ≤ bytes.length) :
    rejectsName bytes position length ↔ position + checksumSize ≤ bytes.length ∧
      bytes.length < position + length.toNat + checksumSize := by
  have hlength := length.toNat_lt
  simp only [rejectsName, subSize, checksumSize, if_pos h]
  split
  · omega
  · omega

theorem decodeFilename_eq_outOfBounds :
    decodeFilename bytes position = .error .outOfBounds ↔
      ∃ length middle, read32 bytes truncated position = .ok (length, middle) ∧
        ¬ rejectsName bytes middle length ∧ bytes.length < middle + length.toNat := by
  simp only [decodeFilename, Cursor.bind_eq_error]
  constructor
  · rintro (hread | ⟨length, middle, hread, hleft | ⟨left, _, hleft, hcheck | ⟨_, _, hcheck, hcopy⟩⟩⟩)
    · exact absurd hread (stays_read32 position)
    · cases hleft
    · exact absurd hcheck (stays_liftM _ _)
    · cases hleft
      rw [Cursor.liftM_eq_ok, throwIf_eq_ok] at hcheck
      rcases hcheck with ⟨hcheck, rfl⟩
      refine ⟨length, middle, hread, hcheck, Nat.lt_of_not_le fun hfits => ?_⟩
      exact staysAt_copy hfits hcopy
  · rintro ⟨length, middle, hread, hcheck, hoverrun⟩
    refine .inr ⟨length, middle, hread, .inr ⟨_, middle, rfl, .inr ⟨(), middle, ?_, ?_⟩⟩⟩
    · rw [Cursor.liftM_eq_ok, throwIf_eq_ok]
      exact ⟨hcheck, rfl⟩
    · have hle := (spans_read32 hread).2
      exact copy_of_lt (by omega) hoverrun

/-! ## The positions that the parser comes to -/

theorem stays_decodeIdentity : Stays (decodeIdentity bytes) := by
  intro position
  refine (stays_require bytes _ identitySize position).bind fun _ _ hrequire => ?_
  rcases spans_require hrequire with ⟨hfits, rfl⟩
  rw [identitySize] at hfits
  refine (staysAt_next (by omega)).bind fun _ middle _ => ?_
  exact stays_read16.bind (fun _ => stays_read16.bind fun _ => stays_read64.bind fun _ =>
    stays_read32.bind fun _ => stays_read64.bind fun _ => stays_read64.bind fun _ =>
    stays_read32.bind fun _ => stays_read64.bind fun _ => stays_read64.bind fun _ =>
    stays_liftM _) middle

theorem decodeEntry_eq_outOfBounds :
    decodeEntry bytes position = .error .outOfBounds ↔
      ∃ identity middle, decodeIdentity bytes position = .ok (identity, middle) ∧
        decodeFilename bytes middle = .error .outOfBounds := by
  rw [decodeEntry, Cursor.bind_eq_error]
  constructor
  · rintro (hidentity | ⟨identity, middle, hidentity, hrest⟩)
    · exact absurd hidentity (stays_decodeIdentity position)
    · rcases Cursor.bind_eq_error.mp hrest with hfilename | ⟨_, left, _, hfields⟩
      · exact ⟨identity, middle, hidentity, hfilename⟩
      · exact absurd hfields (stays_read64.bind (fun _ => stays_read64.bind fun _ =>
          stays_read16.bind fun _ => stays_read32.bind fun _ => stays_read16.bind fun _ =>
          stays_pure _) left)
  · rintro ⟨identity, middle, hidentity, hfilename⟩
    exact .inr ⟨identity, middle, hidentity, Cursor.bind_eq_error.mpr (.inl hfilename)⟩

/-- The loop leaves the bytes in the first entry that does. -/
theorem decodeEntries_eq_outOfBounds {count : ℕ} {result : ChunkIndex} :
    decodeEntries bytes count result position = .error .outOfBounds ↔
      ∃ done index middle, done < count ∧
        decodeEntries bytes done result position = .ok (index, middle) ∧
          decodeEntry bytes middle = .error .outOfBounds := by
  induction count generalizing result position with
  | zero =>
      constructor
      · intro h
        exact absurd h (stays_pure result position)
      · rintro ⟨_, _, _, hdone, -⟩
        exact absurd hdone (Nat.not_lt_zero _)
  | succ count ih =>
      rw [decodeEntries, Cursor.bind_eq_error]
      constructor
      · rintro (hentry | ⟨entry, left, hentry, hrest⟩)
        · exact ⟨0, result, position, Nat.succ_pos count, rfl, hentry⟩
        · rcases Cursor.bind_eq_error.mp hrest with hadd | ⟨next, _, hadd, hrest⟩
          · exact absurd hadd (stays_liftM _ _)
          · rcases ih.mp hrest with ⟨done, index, middle, hdone, hentries, hlast⟩
            refine ⟨done + 1, index, middle, Nat.succ_lt_succ hdone, ?_, hlast⟩
            rw [decodeEntries]
            exact Cursor.bind_eq_ok.mpr ⟨entry, left, hentry,
              Cursor.bind_eq_ok.mpr ⟨next, _, hadd, hentries⟩⟩
      · rintro ⟨done, index, middle, hdone, hentries, hlast⟩
        cases done with
        | zero =>
            rw [decodeEntries, Cursor.pure_eq_ok] at hentries
            rcases hentries with ⟨rfl, rfl⟩
            exact .inl hlast
        | succ done =>
            rw [decodeEntries, Cursor.bind_eq_ok] at hentries
            rcases hentries with ⟨entry, left, hentry, hrest⟩
            rcases Cursor.bind_eq_ok.mp hrest with ⟨next, _, hadd, hrest⟩
            refine .inr ⟨entry, left, hentry, Cursor.bind_eq_error.mpr (.inr ⟨next, _, hadd, ?_⟩)⟩
            exact ih.mpr ⟨done, index, middle, Nat.lt_of_succ_lt_succ hdone, hrest, hlast⟩

/-- The checks before the entries succeed, and so many entries are announced. -/
structure Opens (bytes : Bytes) (count : UInt32) : Prop where
  long : magic.length + 2 + 4 + checksumSize ≤ bytes.length
  checksum : CRC32C.calculate (bytes.take (bytes.length - checksumSize)) 0 =
    wordU32 (bytes.drop (bytes.length - checksumSize))
  magic_eq : bytes.take magic.length = magic
  version : read16 bytes truncated magic.length = .ok (formatVersion, 10)
  count : read32 bytes truncated 10 = .ok (count, 14)

/-- The parser comes to the check of a name with this position and this length. -/
def ReachesName (bytes : Bytes) (position : ℕ) (length : UInt32) : Prop :=
  ∃ count done index start identity middle, Opens bytes count ∧ done < UInt32.toNat count ∧
    decodeEntries bytes done create 14 = .ok (index, start) ∧
      decodeIdentity bytes start = .ok (identity, middle) ∧
        read32 bytes truncated middle = .ok (length, position)

/-- The positions behind the version and behind the number of entries. -/
theorem header_positions {version : UInt16}
    (hversion : read16 bytes truncated magic.length = .ok (version, middle))
    (hcount : read32 bytes truncated middle = .ok (count, last)) : middle = 10 ∧ last = 14 := by
  have hmiddle : middle = 10 := (spans_read16 hversion).last_eq
  subst hmiddle
  exact ⟨rfl, (spans_read32 hcount).1.last_eq⟩

theorem decodeIndex_eq_outOfBounds (h : decodeIndex bytes position = .error .outOfBounds) :
    ∃ count middle last, read16 bytes truncated position = .ok (formatVersion, middle) ∧
      read32 bytes truncated middle = .ok (count, last) ∧
        decodeEntries bytes count.toNat create last = .error .outOfBounds := by
  simp only [decodeIndex, Cursor.bind_eq_error, Cursor.liftM_eq_ok, throwIf_eq_ok, not_not] at h
  rcases h with hread | ⟨_, middle, hversion, hcheck | ⟨_, _, ⟨rfl, rfl⟩, hrest⟩⟩
  · exact absurd hread (stays_read16 position)
  · exact absurd hcheck (stays_liftM _ middle)
  · rcases hrest with hread | ⟨count, last, hcount, hentries⟩
    · exact absurd hread (stays_read32 middle)
    · exact ⟨count, middle, last, hversion, hcount, hentries⟩

theorem readIndex_eq_outOfBounds :
    readIndex bytes 0 = .error .outOfBounds ↔ ∃ count, Opens bytes count ∧
      decodeEntries bytes count.toNat create 14 = .error .outOfBounds := by
  simp only [readIndex, Cursor.bind_eq_error, Cursor.liftM_eq_ok, throwIf_eq_ok, not_not]
  constructor
  · rintro (hfault | ⟨_, _, ⟨hlong, rfl⟩, hfault | ⟨_, _, ⟨hchecksum, rfl⟩, hfault |
      ⟨_, _, ⟨hmagic, rfl⟩, hfault | ⟨_, _, hset, hfault | ⟨_, _, _, hrest⟩⟩⟩⟩⟩)
    · exact absurd hfault (stays_liftM _ 0)
    · exact absurd hfault (stays_liftM _ 0)
    · exact absurd hfault (stays_liftM _ 0)
    · cases hfault
    · cases hset
      rcases decodeIndex_eq_outOfBounds hfault with
        ⟨count, middle, last, hversion, hcount, hentries⟩
      rcases header_positions hversion hcount with ⟨rfl, rfl⟩
      exact ⟨count, ⟨Nat.not_lt.mp hlong, hchecksum, hmagic, hversion, hcount⟩, hentries⟩
    · rcases hrest with hfault | ⟨_, _, _, hfault | ⟨_, _, _, hfault⟩⟩
      · cases hfault
      · exact absurd hfault (stays_liftM _ _)
      · exact absurd hfault (stays_pure _ _)
  · rintro ⟨count, h, hentries⟩
    refine .inr ⟨(), 0, ⟨Nat.not_lt.mpr h.long, rfl⟩, .inr ⟨(), 0, ⟨h.checksum, rfl⟩,
      .inr ⟨(), 0, ⟨h.magic_eq, rfl⟩, .inr ⟨(), magic.length, rfl, .inl ?_⟩⟩⟩⟩
    simp only [decodeIndex, Cursor.bind_eq_error, Cursor.liftM_eq_ok, throwIf_eq_ok, not_not]
    exact .inr ⟨formatVersion, 10, h.version, .inr ⟨(), 10, ⟨rfl, rfl⟩,
      .inr ⟨count, 14, h.count, hentries⟩⟩⟩

/-- The parser leaves the bytes at a name that the check lets through and that is not all there. -/
theorem deserialize_eq_outOfBounds :
    deserialize bytes = .error .outOfBounds ↔ ∃ position length, ReachesName bytes position length ∧
      ¬ rejectsName bytes position length ∧ bytes.length < position + length.toNat := by
  have hresult : deserialize bytes = .error .outOfBounds ↔
      readIndex bytes 0 = .error .outOfBounds := by
    rw [deserialize]
    cases readIndex bytes 0 with
    | error fault => simp [bind, Except.bind]
    | ok result => simp [bind, Except.bind, pure, Except.pure]
  simp only [hresult, readIndex_eq_outOfBounds, decodeEntries_eq_outOfBounds,
    decodeEntry_eq_outOfBounds, decodeFilename_eq_outOfBounds]
  constructor
  · rintro ⟨count, hopens, done, index, start, hdone, hentries, identity, middle, hidentity, length,
      position, hlength, hcheck, hoverrun⟩
    exact ⟨position, length, ⟨count, done, index, start, identity, middle, hopens, hdone, hentries,
      hidentity, hlength⟩, hcheck, hoverrun⟩
  · rintro ⟨position, length, ⟨count, done, index, start, identity, middle, hopens, hdone, hentries,
      hidentity, hlength⟩, hcheck, hoverrun⟩
    exact ⟨count, hopens, done, index, start, hdone, hentries, identity, middle, hidentity, length,
      position, hlength, hcheck, hoverrun⟩

/-! ## The files on which it comes there -/

theorem length_header (count : UInt32) : (header count).length = 14 := rfl

theorem Opens.spans (h : Opens bytes count) : Spans bytes 0 (header count) 14 := by
  have hmagic : Spans bytes 0 magic magic.length := by
    refine ⟨?_, (Nat.zero_add _).symm⟩
    rw [List.drop_zero]
    nth_rewrite 1 [← h.magic_eq]
    exact (List.take_append_drop _ _).symm
  exact (hmagic.trans (spans_read16 h.version)).trans (spans_read32 h.count).1

theorem opens_iff : Opens bytes count ↔
    HasChecksum bytes ∧ magic.length + 2 + 4 + checksumSize ≤ bytes.length ∧
      Spans bytes 0 (header count) 14 := by
  have hle : checksumSize ≤ magic.length + 2 + 4 + checksumSize := by decide
  constructor
  · intro h
    exact ⟨(hasChecksum_iff (hle.trans h.long)).mp h.checksum, h.long, h.spans⟩
  · rintro ⟨hchecksum, hlong, hspans⟩
    rcases hspans.split with ⟨middle, hfirst, hcount⟩
    rcases hfirst.split with ⟨start, hmagic, hversion⟩
    have hstart : start = 8 := hmagic.last_eq
    rcases hstart
    have hmiddle : middle = 10 := hversion.last_eq
    rcases hmiddle
    refine ⟨hlong, (hasChecksum_iff (hle.trans hlong)).mpr hchecksum, ?_, ?_, ?_⟩
    · have hbytes := hmagic.drop_eq
      rw [List.drop_zero] at hbytes
      rw [hbytes, List.take_left]
    · exact (reads_read16 formatVersion).of_spans hversion
    · exact (reads_read32 count).of_spans hcount

/-- The parser comes to a name exactly where the file announces one. -/
theorem reachesName_iff : ReachesName bytes position length ↔
    ∃ left, Announces bytes length left ∧ position + left.length = bytes.length := by
  constructor
  · rintro ⟨count, done, index, start, identity, middle, hopens, hdone, hentries, hidentity, hlength⟩
    rcases decodeEntries_eq_ok.mp hentries with ⟨entries, rfl, hadd, hfilename, hspansEntries⟩
    rcases spans_decodeIdentity hidentity with ⟨hvalid, hspansIdentity⟩
    rcases spans_read32 hlength with ⟨hspansLength, hle⟩
    have hspans := ((hopens.spans.trans hspansEntries).trans hspansIdentity).trans hspansLength
    refine ⟨bytes.drop position, ⟨(opens_iff.mp hopens).1, count, entries, identity,
      areAddable_iff.mpr ⟨⟨index, hadd⟩, hfilename⟩, hdone, hvalid, ?_⟩, ?_⟩
    · simpa only [List.drop_zero] using hspans.drop_eq
    · rw [List.length_drop]
      omega
  · rintro ⟨left, ⟨hchecksum, count, entries, identity, hentries, hdone, hvalid, hbytes⟩, hposition⟩
    rcases areAddable_iff.mp hentries with ⟨⟨index, hadd⟩, hfilename⟩
    have hlength := congrArg List.length hbytes
    simp only [List.length_append, length_header, length_identityBytes, length_appendU32,
      identitySize] at hlength
    have hspans := spans_of_eq hbytes
    have hlast : (header count ++ entries.flatMap entryBytes ++ identityBytes identity ++
        appendU32 length).length = position := by
      simp only [List.length_append, length_header, length_identityBytes, length_appendU32,
        identitySize]
      omega
    rw [hlast] at hspans
    rcases hspans.split with ⟨middle, hfront, hspansLength⟩
    rcases hfront.split with ⟨start, hfront, hspansIdentity⟩
    rcases hfront.split with ⟨first, hspansHeader, hspansEntries⟩
    have hfirst : first = 14 := hspansHeader.last_eq
    rcases hfirst
    refine ⟨count, entries.length, index, start, identity, middle,
      opens_iff.mpr ⟨hchecksum, ?_, hspansHeader⟩, hdone, ?_, ?_, ?_⟩
    · change 18 ≤ bytes.length
      omega
    · exact decodeEntries_eq_ok.mpr ⟨entries, rfl, hadd, hfilename, hspansEntries⟩
    · exact (reads_decodeIdentity hvalid).of_spans hspansIdentity
    · exact (reads_read32 length).of_spans hspansLength

theorem Announces.length_le {left : Bytes} (h : Announces bytes length left) :
    left.length ≤ bytes.length := by
  rcases h.layout with ⟨_, _, _, _, _, _, hbytes⟩
  rw [hbytes, List.length_append]
  exact Nat.le_add_left _ _

theorem Announces.reachesName {left : Bytes} (h : Announces bytes length left) :
    ReachesName bytes (bytes.length - left.length) length :=
  reachesName_iff.mpr ⟨left, h, Nat.sub_add_cancel h.length_le⟩

/-- What the parser accepts, and what it returns. -/
theorem deserialize_eq_ok {index : ChunkIndex} : deserialize bytes = .ok index ↔
    ∃ entries, Lists bytes entries ∧ entries.foldlM add create = .ok index := by
  simp only [deserialize, readIndex, decodeIndex, GiveMePi.bind_eq_ok, Prod.exists,
    Cursor.bind_eq_ok, Cursor.liftM_eq_ok, throwIf_eq_ok, not_not, Cursor.pure_eq_ok,
    GiveMePi.pure_eq_ok, Except.ok.injEq]
  constructor
  · rintro ⟨_, _, ⟨_, _, ⟨hlong, rfl⟩, _, _, ⟨hchecksum, rfl⟩, _, _, ⟨hmagic, rfl⟩, _, _, hset, _, _,
      ⟨_, middle, hversion, _, _, ⟨rfl, rfl⟩, count, last, hcount, hentries⟩, _, _, hget, _, _,
      ⟨hposition, rfl⟩, rfl, rfl⟩, rfl⟩
    cases hset
    rcases header_positions hversion hcount with ⟨rfl, rfl⟩
    cases hget
    have hopens : Opens bytes count := ⟨Nat.not_lt.mp hlong, hchecksum, hmagic, hversion, hcount⟩
    rcases decodeEntries_eq_ok.mp hentries with ⟨entries, hlength, hadd, hfilename, hspansEntries⟩
    have hle : checksumSize ≤ bytes.length := Nat.le_trans (by decide) hopens.long
    have hrest : (bytes.drop (bytes.length - checksumSize)).length = 4 := by
      rw [List.length_drop, Nat.sub_sub_self hle, checksumSize]
    have hword : UInt32.ofNat entries.length = count := by rw [hlength, UInt32.ofNat_toNat]
    have hlt := count.toNat_lt
    have hspans := hopens.spans.trans hspansEntries
    rw [hposition] at hspans
    refine ⟨entries, ⟨(opens_iff.mp hopens).1, areAddable_iff.mpr ⟨⟨_, hadd⟩, hfilename⟩, by omega,
      wordU32 (bytes.drop (bytes.length - checksumSize)), ?_⟩, hadd⟩
    rw [appendU32_wordU32 hrest, hword]
    simpa only [List.drop_zero] using hspans.drop_eq
  · rintro ⟨entries, ⟨hchecksum, haddable, hcount, checksum, hbytes⟩, hadd⟩
    have hword : (UInt32.ofNat entries.length).toNat = entries.length :=
      UInt32.toNat_ofNat_of_lt (hcount.trans_lt (by decide))
    have hlength := congrArg List.length hbytes
    rw [List.length_append, length_appendU32] at hlength
    have hoffset : (header (UInt32.ofNat entries.length) ++ entries.flatMap entryBytes).length =
        bytes.length - checksumSize := by
      rw [hlength, checksumSize, Nat.add_sub_cancel]
    rcases (spans_of_eq hbytes).split with ⟨first, hspansHeader, hspansEntries⟩
    have hfirst : first = 14 := hspansHeader.last_eq
    rcases hfirst
    rw [hoffset] at hspansEntries
    have hlong : magic.length + 2 + 4 + checksumSize ≤ bytes.length := by
      have hheader := length_header (UInt32.ofNat entries.length)
      rw [List.length_append] at hlength
      change 18 ≤ bytes.length
      omega
    have hopens := opens_iff.mpr ⟨hchecksum, hlong, hspansHeader⟩
    have hentries := decodeEntries_eq_ok.mpr ⟨entries, hword.symm, hadd, haddable.filename_le,
      hspansEntries⟩
    exact ⟨index, _, ⟨(), 0, ⟨Nat.not_lt.mpr hopens.long, rfl⟩, (), 0, ⟨hopens.checksum, rfl⟩, (), 0,
      ⟨hopens.magic_eq, rfl⟩, (), _, rfl, index, _, ⟨_, _, hopens.version, (), _, ⟨rfl, rfl⟩, _, _,
      hopens.count, hentries⟩, _, _, rfl, (), _, ⟨rfl, rfl⟩, rfl, rfl⟩, rfl⟩

/-- Every access of the parser lies in the bytes, every malformed file ends in an exception, and the
check of a name is right wherever it is made, exactly if no name is announced with fewer than four
bytes behind its length. The bytes are left exactly if these hold less than the length. -/
theorem deserialize_stays (bytes : Bytes) :
    ((deserialize bytes ≠ .error .outOfBounds ∧
        (¬ IsIndexFile bytes → ∃ error, deserialize bytes = .error (.thrown error)) ∧
          ∀ position length, ReachesName bytes position length →
            (rejectsName bytes position length ↔
              bytes.length < position + length.toNat + checksumSize)) ↔
      ¬ ∃ length left, Announces bytes length left ∧ left.length < checksumSize) ∧
    (deserialize bytes = .error .outOfBounds ↔ ∃ length left, Announces bytes length left ∧
      left.length < checksumSize ∧ left.length < length.toNat) := by
  have houtside : deserialize bytes = .error .outOfBounds ↔ ∃ length left,
      Announces bytes length left ∧ left.length < checksumSize ∧ left.length < length.toNat := by
    rw [deserialize_eq_outOfBounds]
    constructor
    · rintro ⟨position, length, hreaches, hcheck, hoverrun⟩
      rcases reachesName_iff.mp hreaches with ⟨left, hleft, hposition⟩
      rw [rejectsName_iff (by omega)] at hcheck
      exact ⟨length, left, hleft, by omega, by omega⟩
    · rintro ⟨length, left, hleft, hshort, hoverrun⟩
      have hle := hleft.length_le
      refine ⟨bytes.length - left.length, length, hleft.reachesName, ?_, by omega⟩
      rw [rejectsName_iff (Nat.sub_le _ _)]
      omega
  refine ⟨⟨?_, ?_⟩, houtside⟩
  · rintro ⟨-, -, hcheck⟩ ⟨length, left, hleft, hshort⟩
    have hle := hleft.length_le
    have hwrong := hcheck _ _ hleft.reachesName
    rw [rejectsName_iff (Nat.sub_le _ _)] at hwrong
    omega
  · intro hannounces
    have hinside : deserialize bytes ≠ .error .outOfBounds := by
      rw [Ne, houtside]
      rintro ⟨length, left, hleft, hshort, -⟩
      exact hannounces ⟨length, left, hleft, hshort⟩
    refine ⟨hinside, ?_, ?_⟩
    · intro hmalformed
      cases hresult : deserialize bytes with
      | ok index =>
          rcases deserialize_eq_ok.mp hresult with ⟨entries, hlists, -⟩
          exact absurd ⟨entries, hlists⟩ hmalformed
      | error fault =>
          cases fault with
          | thrown error => exact ⟨error, rfl⟩
          | outOfBounds => exact absurd hresult hinside
    · intro position length hreaches
      rcases reachesName_iff.mp hreaches with ⟨left, hleft, hposition⟩
      have hlong : ¬ left.length < checksumSize := fun hshort => hannounces ⟨length, left, hleft, hshort⟩
      rw [rejectsName_iff (by omega)]
      omega

/-- An index that ends in the length of its first name: the checksum of the bytes before is taken for
that length. -/
def endsInLength : Bytes :=
  header 1 ++ identityBytes ⟨⟨⟨1⟩, 1, 1, 1, 16, 17, 3⟩, ⟨0, 1, 0⟩⟩ ++ appendU32 0x5b0cbd7a

theorem deserialize_endsInLength :
    deserialize endsInLength = .error .outOfBounds ∧
      ¬ ∃ error, deserialize endsInLength = .error (.thrown error) := by
  have hfault : deserialize endsInLength = .error .outOfBounds := by decide +kernel
  refine ⟨hfault, ?_⟩
  rintro ⟨error, herror⟩
  rw [hfault] at herror
  cases herror

end GiveMePi.Storage.ChunkIndex
