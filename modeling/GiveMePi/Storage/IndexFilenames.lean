import GiveMePi.Checkpoint.CheckpointFilenames
import GiveMePi.Storage.ChunkStore
import GiveMePi.Storage.IndexHistories
import GiveMePi.Storage.NameOverruns
import Mathlib.Data.List.TakeWhile

/-! # The file names of an index

Which names an index takes, which files they lead to, and the bytes that a search for the characters
of a C string does not find. -/

namespace GiveMePi.Storage.ChunkIndex

open Checkpoint (ComputationIdentity CheckpointStore.identityFilename)
open Library (OrderedMap)

variable {bytes name directory : Bytes} {index : ChunkIndex}

/-! ## Searches -/

/-- What a C function reads of some bytes. -/
def cString (bytes : Bytes) : Bytes :=
  bytes.takeWhile fun byte => byte ≠ 0

/-- `std::string::find_first_of`, with its characters given as a C string. -/
def findFirstOf (text characters : Bytes) : Option ℕ :=
  text.findIdx? fun byte => (cString characters).contains byte

/-- The search of `add`: the literal is a slash, a backslash and a NUL, with one more NUL behind. -/
theorem isPlainFilename_eq (filename : Bytes) : isPlainFilename filename =
    (!filename.isEmpty && (findFirstOf filename [47, 92, 0, 0]).isNone) := by
  have hcharacters : cString [47, 92, 0, 0] = [47, 92] := by decide
  rw [Bool.eq_iff_iff]
  simp only [isPlainFilename, findFirstOf, hcharacters, Bool.and_eq_true, Option.isNone_iff_eq_none,
    List.findIdx?_eq_none_iff, Bool.not_eq_true', List.contains_eq_mem, decide_eq_false_iff_not,
    List.mem_cons, List.not_mem_nil, or_false, and_assoc]
  refine and_congr_right fun _ => ⟨?_, ?_⟩
  · rintro ⟨hslash, hbackslash⟩ byte hbyte (rfl | rfl)
    · exact hslash hbyte
    · exact hbackslash hbyte
  · intro h
    exact ⟨fun hslash => h 47 hslash (.inl rfl), fun hbackslash => h 92 hbackslash (.inr rfl)⟩

theorem isPlainFilename_eq_true : isPlainFilename name = true ↔ name ≠ [] ∧ 47 ∉ name ∧ 92 ∉ name := by
  simp [isPlainFilename, and_assoc]

theorem cString_of_not_mem (h : 0 ∉ bytes) : cString bytes = bytes := by
  rw [cString, List.takeWhile_eq_self_iff]
  intro byte hbyte
  rw [decide_eq_true_eq]
  rintro rfl
  exact h hbyte

/-! ## Paths -/

/-- `directory / filename` -/
def joined (directory filename : Bytes) : Bytes :=
  if filename.head? = some 47 then filename
  else if directory = [] ∨ directory.getLast? = some 47 then directory ++ filename
  else directory ++ 47 :: filename

/-- `ChunkMetadata::createChunkFilename` -/
def createChunkFilename (chunkId : Bytes) : Except Error Bytes := do
  throwIf (chunkId.contains 47 = true) (.invalidArgument
    ("ChunkId cannot contain '/': " ++ String.ofList (chunkId.map fun byte => Char.ofNat byte.toNat)))
  pure chunkId

/-- `ChunkStore::chunkPath`, as the text that is handed to the operating system. -/
def chunkPathText (policy : StoragePolicy) (chunkId : Bytes) : Except Error Bytes := do
  let filename ← createChunkFilename chunkId
  pure (joined policy.directory filename)

/-- The names in a path, which slashes separate. -/
def components (path : Bytes) : List Bytes :=
  (path.splitOn 47).filter fun name => !name.isEmpty

/-- The path leads to the file of that name in the directory itself. -/
structure LeadsInside (directory name path : Bytes) : Prop where
  components_eq : components path = components directory ++ [name]
  absolute_iff : path.head? = some 47 ↔ directory.head? = some 47
  last_ne : path.getLast? ≠ some 47
  name_ne : name ≠ ascii "." ∧ name ≠ ascii ".."

/-- A name without separators and NUL bytes, whose path leads into the storage directory and is the
same path for the operating system. -/
structure IsSafeName (policy : StoragePolicy) (name : Bytes) : Prop where
  ne_nil : name ≠ []
  plain : 47 ∉ name ∧ 92 ∉ name ∧ 0 ∉ name
  inside : ∃ path, chunkPathText policy name = .ok path ∧ cString path = path ∧
    LeadsInside policy.directory name (cString path)

theorem components_of_not_mem (hname : name ≠ []) (h : 47 ∉ name) : components name = [name] := by
  rw [components, List.splitOn_eq_singleton h]
  simp [hname]

theorem components_append (front name : Bytes) :
    components (front ++ 47 :: name) = components front ++ components name := by
  rw [components, List.splitOn_append_cons_self, List.filter_append]
  rfl

/-- A directory with its separator, in front of a name. -/
theorem joined_eq (hname : name ≠ []) (h : 47 ∉ name) :
    ∃ front, joined directory name = front ++ name ∧ components (front ++ name) =
      components directory ++ [name] ∧ (front.head? = some 47 ↔ directory.head? = some 47) ∧
        ∀ byte ∈ front, byte ∈ directory ∨ byte = 47 := by
  have hhead : ¬ name.head? = some 47 := fun hhead => h (List.mem_of_head? hhead)
  rw [joined, if_neg hhead]
  by_cases hseparated : directory = [] ∨ directory.getLast? = some 47
  · rw [if_pos hseparated]
    refine ⟨directory, rfl, ?_, Iff.rfl, fun byte hbyte => .inl hbyte⟩
    rcases hseparated with rfl | hlast
    · exact components_of_not_mem hname h
    · rcases List.getLast?_eq_some_iff.mp hlast with ⟨front, rfl⟩
      have hempty : components ([] : Bytes) = [] := rfl
      rw [List.append_assoc, List.singleton_append, components_append, components_append,
        components_of_not_mem hname h, hempty, List.append_nil]
  · rw [if_neg hseparated]
    rw [not_or] at hseparated
    refine ⟨directory ++ [47], by simp, ?_, ?_, ?_⟩
    · rw [List.append_assoc, List.singleton_append, components_append,
        components_of_not_mem hname h]
    · rw [List.head?_append_of_ne_nil _ hseparated.1]
    · intro byte hbyte
      simpa using hbyte

/-- A name that `add` should take. -/
def IsUsable (name : Bytes) : Prop :=
  0 ∉ name ∧ name ≠ ascii "." ∧ name ≠ ascii ".."

instance : DecidablePred IsUsable := fun _ => inferInstanceAs (Decidable (_ ∧ _))

/-- The names that the search lets through and that are safe. -/
theorem isSafeName_iff {policy : StoragePolicy} (hdirectory : 0 ∉ policy.directory) :
    IsSafeName policy name ↔ isPlainFilename name = true ∧ IsUsable name := by
  rw [isPlainFilename_eq_true]
  constructor
  · rintro ⟨hname, ⟨hslash, hbackslash, hnul⟩, path, -, -, hleads⟩
    exact ⟨⟨hname, hslash, hbackslash⟩, hnul, hleads.name_ne⟩
  · rintro ⟨⟨hname, hslash, hbackslash⟩, hnul, hdots⟩
    rcases joined_eq hname hslash with ⟨front, hjoined, hcomponents, hhead, hfront⟩
    have hpath : chunkPathText policy name = .ok (front ++ name) := by
      simp only [chunkPathText, createChunkFilename, GiveMePi.bind_eq_ok, throwIf_eq_ok,
        GiveMePi.pure_eq_ok, Except.ok.injEq]
      exact ⟨name, ⟨(), by simpa using hslash, rfl⟩, hjoined⟩
    have hwhole : cString (front ++ name) = front ++ name := by
      refine cString_of_not_mem fun hmem => ?_
      rcases List.mem_append.mp hmem with hmem | hmem
      · rcases hfront 0 hmem with hmem | hzero
        · exact hdirectory hmem
        · exact absurd hzero (by decide)
      · exact hnul hmem
    refine ⟨hname, ⟨hslash, hbackslash, hnul⟩, front ++ name, hpath, hwhole, ?_⟩
    rw [hwhole]
    refine ⟨hcomponents, ?_, ?_, hdots⟩
    · cases front with
      | nil =>
          rw [← hhead]
          exact ⟨fun hfirst => absurd (List.mem_of_head? hfirst) hslash, fun hfirst => by cases hfirst⟩
      | cons byte front => exact hhead
    · rw [List.getLast?_append_of_ne_nil _ hname]
      exact fun hlast => hslash (List.mem_of_getLast? hlast)

/-! ## The names that come into an index -/

/-- The names that identities give their files. -/
theorem isUsable_chunkFilename (identity : ChunkIdentity) : IsUsable identity.chunkFilename := by
  have hlength : 2 < identity.chunkFilename.length := by
    have htag : (ascii "chunk-v").length = 7 := by decide
    simp only [ChunkIdentity.chunkFilename, CheckpointStore.identityFilename, List.length_append]
    omega
  refine ⟨?_, ?_, ?_⟩
  · simp only [ChunkIdentity.chunkFilename, CheckpointStore.identityFilename, List.mem_append,
      not_or, not_mem_decimal (show ¬ IsDigit 0 by decide), not_false_iff, and_true]
    decide
  · intro heq
    have hdot : (ascii ".").length = 1 := by decide
    rw [heq] at hlength
    omega
  · intro heq
    have hdots : (ascii "..").length = 2 := by decide
    rw [heq] at hlength
    omega

theorem forall_mem_of_foldlM_add {entries : List ChunkIndexEntry} {result : ChunkIndex}
    {P : ChunkIndexEntry → Prop} (h : entries.foldlM add result = .ok index)
    (hentries : ∀ entry ∈ entries, P entry) (hresult : ∀ entry ∈ result.entries, P entry.2) :
    ∀ entry ∈ index.entries, P entry.2 := by
  induction entries generalizing result with
  | nil =>
      cases h
      exact hresult
  | cons first rest ih =>
      rw [List.foldlM_cons, GiveMePi.bind_eq_ok] at h
      rcases h with ⟨next, hadd, hrest⟩
      rcases List.forall_mem_cons.mp hentries with ⟨hfirst, hentries⟩
      exact ih hrest hentries (forall_mem_of_add hadd hfirst hresult)

/-- An operation that brings no other names into an index. -/
def UsesNames : Operation → Prop
  | .add entry => IsValidEntry entry → IsUsable entry.storageFile
  | .deserialize bytes => ∀ entries, Lists bytes entries →
      ∀ entry ∈ entries, IsUsable entry.storageFile
  | .addMetadata _ | .remove _ => True

theorem isUsable_of_leaves {operation : Operation} {index' : ChunkIndex}
    (hindex : ∀ entry ∈ index.entries, IsUsable entry.2.storageFile) (huses : UsesNames operation)
    (h : Leaves index operation index') :
    ∀ entry ∈ index'.entries, IsUsable entry.2.storageFile := by
  rcases h.cases with rfl | ⟨entry, rfl, hadd⟩ | ⟨metadata, rfl, hadd⟩ | ⟨identity, rfl, rfl⟩ |
    ⟨bytes, rfl, hread⟩
  · exact hindex
  · exact forall_mem_of_add (P := fun entry => IsUsable entry.storageFile) hadd
      (huses (add_eq_ok.mp hadd).1) hindex
  · simp only [ChunkIndex.addMetadata, ChunkIdentity.deterministicFilename, GiveMePi.bind_eq_ok,
      GiveMePi.pure_eq_ok, Except.ok.injEq] at hadd
    rcases hadd with ⟨_, ⟨_, _, rfl⟩, hadd⟩
    exact forall_mem_of_add (P := fun entry => IsUsable entry.storageFile) hadd
      (isUsable_chunkFilename metadata.identity) hindex
  · intro other hmem
    exact hindex other (OrderedMap.mem_erase.mp hmem).1
  · rcases deserialize_eq_ok.mp hread with ⟨entries, hlists, hfold⟩
    exact forall_mem_of_foldlM_add (P := fun entry => IsUsable entry.storageFile) hfold
      (huses entries hlists) fun _ hmem => absurd hmem List.not_mem_nil

/-- In a history that brings only usable names into an index, every entry has a safe name. -/
theorem histories_safe (policy : StoragePolicy) (hdirectory : 0 ∉ policy.directory)
    (index : ChunkIndex) (h : (histories UsesNames).Reachable index) :
    ∀ entry ∈ index.entries, IsSafeName policy entry.2.storageFile := by
  have husable : ∀ entry ∈ index.entries, IsUsable entry.2.storageFile := by
    refine h.invariant (P := fun index => ∀ entry ∈ index.entries, IsUsable entry.2.storageFile) ?_ ?_
    · rintro _ rfl entry hmem
      exact absurd hmem List.not_mem_nil
    · rintro index index' - hindex ⟨operation, huses, hleaves⟩
      exact isUsable_of_leaves hindex huses hleaves
  intro entry hmem
  have hvalid := (reachable_of_history h).isWellFormed.valid entry hmem
  exact (isSafeName_iff hdirectory).mpr ⟨hvalid.plain, husable entry hmem⟩

/-- An index with a file of its own. -/
theorem histories_safe_one :
    let entry : ChunkIndexEntry :=
      ⟨⟨⟨⟨1⟩, 1, 1, 1, 16, 17, 3⟩, ⟨0, 1, 0⟩⟩, ascii "a.chunk", 5, 5, .crc32c, 7, 1⟩
    ∃ index : ChunkIndex, index.entries = [(entry.identity, entry)] ∧
      IsSafeName ⟨ascii "storage", .none⟩ entry.storageFile := by
  intro entry
  have hempty : (histories UsesNames).Reachable create := .initial rfl
  have husable : IsUsable entry.storageFile := by decide
  have hone := hempty.step ⟨.add entry, fun _ => husable, .add entry⟩
  have hentries : (Library.Program.stateAfter (addInPlace entry) create).entries =
      [(entry.identity, entry)] := by decide
  refine ⟨_, hentries, ?_⟩
  exact histories_safe ⟨ascii "storage", .none⟩ (by decide) _ hone (entry.identity, entry)
    (by rw [hentries]; exact List.mem_singleton_self _)

/-- An entry whose name has a NUL byte in it. -/
def nulEntry : ChunkIndexEntry :=
  ⟨⟨⟨⟨1⟩, 1, 1, 1, 16, 17, 3⟩, ⟨0, 1, 0⟩⟩, [97, 0, 98], 5, 5, .crc32c, 7, 1⟩

/-- The name comes into an index, from an addition and from a file, and the path that the operating
system reads ends before it. -/
theorem add_nulEntry : ∃ index : ChunkIndex, create.add nulEntry = .ok index ∧
    (∃ bytes, index.serialize = .ok bytes ∧ deserialize bytes = .ok index) ∧
      ∃ entry ∈ index.entries, 0 ∈ entry.2.storageFile ∧
        chunkPathText ⟨ascii "storage", .none⟩ entry.2.storageFile =
          .ok (ascii "storage/a" ++ [0, 98]) ∧
        cString (ascii "storage/a" ++ [0, 98]) = ascii "storage/a" := by
  have hadd : create.add nulEntry = .ok (create.emplace nulEntry.identity nulEntry) := by decide
  have hindex := (Reachable.create.add hadd).isWellFormed
  have hlimits : IsWithinLimits (create.emplace nulEntry.identity nulEntry) :=
    ⟨by decide, by decide⟩
  refine ⟨_, hadd, ⟨_, serialize_eq_ok.mpr ⟨rfl, hlimits⟩, deserialize_indexBytes hindex hlimits⟩,
    (nulEntry.identity, nulEntry), ?_, by decide, by decide, by decide⟩
  decide

end GiveMePi.Storage.ChunkIndex
