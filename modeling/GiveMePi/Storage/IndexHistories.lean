import GiveMePi.Library.ProgramLogic
import GiveMePi.Library.TransitionSystem
import GiveMePi.Storage.IndexFormat

/-! # Histories of an index

An index that its operations change in place, also where they throw, and what every index of such a
history has in common. -/

namespace GiveMePi.Storage.ChunkIndex

open Checkpoint (ComputationIdentity)
open Library (OrderedMap)

variable {index index' : ChunkIndex} {entry : ChunkIndexEntry}

/-! ## The operations -/

/-- `ChunkIndex::add`, on the index itself. -/
def addInPlace (entry : ChunkIndexEntry) : Action ChunkIndex Unit := do
  entry.identity.validate
  throwIf (isPlainFilename entry.storageFile = false)
    (.invalidArgument "chunk index storage file must be a plain filename")
  throwIf (entry.formatVersion ≠ chunkFormatVersion ∨ entry.checksumAlgorithm ≠ .crc32c)
    (.invalidArgument "unsupported chunk index metadata")
  throwIf (entry.uncompressedSize > maxChunkPayloadBytes ∨ entry.storedSize > maxChunkPayloadBytes)
    (.invalidArgument "chunk index size exceeds limit")
  let index ← get
  throwIf (index.contains entry.identity = true) (.invalidArgument "duplicate chunk identity")
  throwIf ((index.entries.any fun existing => overlaps existing.1 entry.identity) = true)
    (.invalidArgument "overlapping chunk ranges")
  set (index.emplace entry.identity entry)

def addMetadataInPlace (metadata : ChunkMetadata) : Action ChunkIndex Unit := do
  let storageFile ← metadata.identity.deterministicFilename
  addInPlace
    { identity := metadata.identity
      storageFile := storageFile
      uncompressedSize := metadata.uncompressedSize
      storedSize := metadata.storedSize
      checksumAlgorithm := metadata.checksumAlgorithm
      checksumValue := metadata.checksumValue
      formatVersion := metadata.formatVersion }

/-- The loop of `storedBytes`, with the bytes counted before. -/
def countStored : List (ChunkIdentity × ChunkIndexEntry) → UInt64 → UInt64
  | [], total => total
  | (_, entry) :: rest, total =>
      if uint64Max - total < entry.storedSize then uint64Max
      else countStored rest (total + entry.storedSize)

def storedBytes (index : ChunkIndex) : UInt64 :=
  countStored index.entries 0

inductive Operation where
  | add (entry : ChunkIndexEntry)
  | addMetadata (metadata : ChunkMetadata)
  | remove (identity : ChunkIdentity)
  | deserialize (bytes : Bytes)
deriving DecidableEq, Repr

/-- What an operation leaves in the place of an index. A parser that fails leaves no other index. -/
inductive Leaves (index : ChunkIndex) : Operation → ChunkIndex → Prop where
  | add (entry : ChunkIndexEntry) :
      Leaves index (.add entry) (Library.Program.stateAfter (addInPlace entry) index)
  | addMetadata (metadata : ChunkMetadata) :
      Leaves index (.addMetadata metadata)
        (Library.Program.stateAfter (addMetadataInPlace metadata) index)
  | remove (identity : ChunkIdentity) :
      Leaves index (.remove identity) (index.remove identity)
  | deserialize {bytes : Bytes} {index' : ChunkIndex} :
      deserialize bytes = .ok index' → Leaves index (.deserialize bytes) index'

/-- The histories of an index that starts out empty, made of the given operations. -/
def histories (isUsed : Operation → Prop) : Library.TransitionSystem ChunkIndex where
  initial index := index = create
  step index index' := ∃ operation, isUsed operation ∧ Leaves index operation index'

/-! ## What an exception leaves -/

/-- How a program on an index ends that either gives a new index or throws before it changes it. -/
def ending (index : ChunkIndex) : Except Error ChunkIndex → EStateM.Result Error ChunkIndex Unit
  | .ok next => .ok () next
  | .error error => .error error index

theorem bind_eq_ending {α : Type} {x : Except Error α} {program : α → Action ChunkIndex Unit}
    {rest : α → Except Error ChunkIndex} (h : ∀ a, program a index = ending index (rest a)) :
    ((liftM x : Action ChunkIndex α) >>= program) index = ending index (x >>= rest) := by
  cases x with
  | ok a => exact h a
  | error error => rfl

/-- The index is written after the last check. -/
theorem addInPlace_eq (entry : ChunkIndexEntry) (index : ChunkIndex) :
    addInPlace entry index = ending index (index.add entry) := by
  refine bind_eq_ending fun _ => bind_eq_ending fun _ => bind_eq_ending fun _ =>
    bind_eq_ending fun _ => ?_
  rw [Library.Program.get_bind]
  refine bind_eq_ending fun _ => bind_eq_ending fun _ => ?_
  rfl

theorem addMetadataInPlace_eq (metadata : ChunkMetadata) (index : ChunkIndex) :
    addMetadataInPlace metadata index = ending index (index.addMetadata metadata) :=
  bind_eq_ending fun _ => addInPlace_eq _ index

theorem ending_eq_error {result : Except Error ChunkIndex} {error : Error}
    (h : ending index result = .error error index') : index' = index := by
  cases result with
  | ok next => cases h
  | error error => cases h; rfl

/-- What a step can do to an index. -/
theorem Leaves.cases {operation : Operation} (h : Leaves index operation index') :
    index' = index ∨
      (∃ entry, operation = .add entry ∧ index.add entry = .ok index') ∨
      (∃ metadata, operation = .addMetadata metadata ∧ index.addMetadata metadata = .ok index') ∨
      (∃ identity, operation = .remove identity ∧ index' = index.remove identity) ∨
      ∃ bytes, operation = .deserialize bytes ∧ ChunkIndex.deserialize bytes = .ok index' := by
  cases h with
  | add entry =>
      rw [Library.Program.stateAfter, addInPlace_eq]
      cases hadd : index.add entry with
      | error error => exact .inl rfl
      | ok next => exact .inr (.inl ⟨entry, rfl, hadd⟩)
  | addMetadata metadata =>
      rw [Library.Program.stateAfter, addMetadataInPlace_eq]
      cases hadd : index.addMetadata metadata with
      | error error => exact .inl rfl
      | ok next => exact .inr (.inr (.inl ⟨metadata, rfl, hadd⟩))
  | remove identity => exact .inr (.inr (.inr (.inl ⟨identity, rfl, rfl⟩)))
  | deserialize h => exact .inr (.inr (.inr (.inr ⟨_, rfl, h⟩)))

theorem reachable_of_history {isUsed : Operation → Prop}
    (h : (histories isUsed).Reachable index) : Reachable index := by
  refine h.invariant ?_ ?_
  · rintro _ rfl
    exact .create
  · rintro index index' - hindex ⟨operation, -, hleaves⟩
    rcases hleaves.cases with rfl | ⟨_, -, hadd⟩ | ⟨_, -, hadd⟩ | ⟨identity, -, rfl⟩ | ⟨_, -, hread⟩
    · exact hindex
    · exact hindex.add hadd
    · exact hindex.addMetadata hadd
    · exact hindex.remove identity
    · exact .deserialize hread

/-! ## What the entries have in common -/

/-- Ranges overlap if a term lies in both. -/
theorem overlaps_eq_true_iff {left right : ChunkIdentity} (hleft : left.IsValid)
    (hright : right.IsValid) :
    overlaps left right = true ↔ left.computation = right.computation ∧
      left.location.treeLevel = right.location.treeLevel ∧
        ∃ term, (left.location.start ≤ term ∧ term < left.location.stop) ∧
          right.location.start ≤ term ∧ term < right.location.stop := by
  simp only [overlaps, Bool.and_eq_true, decide_eq_true_eq]
  constructor
  · rintro ⟨⟨⟨hcomputation, hlevel⟩, hlt⟩, hgt⟩
    refine ⟨hcomputation, hlevel, max left.location.start right.location.start, ?_, ?_⟩
    · exact ⟨le_max_left _ _, max_lt hleft.start_lt hgt⟩
    · exact ⟨le_max_right _ _, max_lt hlt hright.start_lt⟩
  · rintro ⟨hcomputation, hlevel, term, ⟨hle, hlt⟩, hle', hlt'⟩
    exact ⟨⟨⟨hcomputation, hlevel⟩, hle.trans_lt hlt'⟩, hle'.trans_lt hlt⟩

theorem countStored_eq (entries : List (ChunkIdentity × ChunkIndexEntry)) (total : UInt64) :
    (countStored entries total).toNat = min (2 ^ 64 - 1)
      (total.toNat + (entries.map fun entry => entry.2.storedSize.toNat).sum) := by
  induction entries generalizing total with
  | nil =>
      have := total.toNat_lt
      simp only [countStored, List.map_nil, List.sum_nil]
      omega
  | cons entry rest ih =>
      have hsum := toNat_saturatingAdd total entry.2.storedSize
      rw [countStored, List.map_cons, List.sum_cons]
      by_cases hfull : uint64Max - total < entry.2.storedSize
      · rw [if_pos hfull] at hsum ⊢
        rw [uint64Max_toNat] at hsum ⊢
        omega
      · rw [if_neg hfull] at hsum ⊢
        rw [ih]
        omega

/-- In every history of additions, removals and parsed files an index keeps its entries under their
own valid identities, within the limit and apart at each level; its size is the sum of theirs up to
the largest word, and an addition that throws leaves it as it was. -/
theorem histories_invariant (index : ChunkIndex) (h : (histories fun _ => True).Reachable index) :
    (∀ entry ∈ index.entries, entry.1 = entry.2.identity ∧ entry.2.identity.validate = .ok () ∧
      entry.2.uncompressedSize ≤ maxChunkPayloadBytes ∧ entry.2.storedSize ≤ maxChunkPayloadBytes) ∧
    (∀ left ∈ index.entries, ∀ right ∈ index.entries, left ≠ right →
      left.2.identity.computation = right.2.identity.computation →
        left.2.identity.location.treeLevel = right.2.identity.location.treeLevel →
          ¬ ∃ term, (left.2.identity.location.start ≤ term ∧ term < left.2.identity.location.stop) ∧
            right.2.identity.location.start ≤ term ∧ term < right.2.identity.location.stop) ∧
    index.storedBytes.toNat =
      min (2 ^ 64 - 1) (index.entries.map fun entry => entry.2.storedSize.toNat).sum ∧
    (∀ entry error index', addInPlace entry index = .error error index' → index' = index) ∧
    ∀ metadata error index', addMetadataInPlace metadata index = .error error index' →
      index' = index := by
  have hindex := (reachable_of_history h).isWellFormed
  refine ⟨?_, ?_, ?_, ?_, ?_⟩
  · intro entry hmem
    have hvalid := hindex.valid entry hmem
    exact ⟨hindex.key entry hmem, ChunkIdentity.validate_eq_ok.mpr hvalid.identity,
      hvalid.uncompressed_le, hvalid.stored_le⟩
  · rintro ⟨key, left⟩ hleft ⟨key', right⟩ hright hne hcomputation hlevel hterm
    have hkey : key = left.identity := hindex.key _ hleft
    have hkey' : key' = right.identity := hindex.key _ hright
    have hoverlap := (overlaps_eq_true_iff (hindex.valid _ hleft).identity
      (hindex.valid _ hright).identity).mpr ⟨hcomputation, hlevel, hterm⟩
    have hapart := hindex.apart _ hleft _ hright
    rw [hkey, hkey', hoverlap] at hapart
    by_cases heq : left.identity = right.identity
    · rw [hkey] at hne hleft
      rw [hkey', ← heq] at hne hright
      exact hne (by rw [OrderedMap.value_unique hleft hright])
    · exact absurd (hapart heq) (by simp)
  · rw [storedBytes, countStored_eq, UInt64.toNat_zero, Nat.zero_add]
  · intro entry error index' herror
    rw [addInPlace_eq] at herror
    exact ending_eq_error herror
  · intro metadata error index' herror
    rw [addMetadataInPlace_eq] at herror
    exact ending_eq_error herror

/-- Two neighbours at one level, and a third entry that overlaps both. -/
theorem histories_invariant_two :
    let computation : ComputationIdentity := ⟨⟨1⟩, 1, 1, 1, 16, 17, 3⟩
    let first : ChunkIndexEntry := ⟨⟨computation, ⟨0, 1, 0⟩⟩, [97], 5, 5, .crc32c, 7, 1⟩
    let second : ChunkIndexEntry := ⟨⟨computation, ⟨1, 3, 0⟩⟩, [98], 9, 6, .crc32c, 8, 1⟩
    let both : ChunkIndexEntry := ⟨⟨computation, ⟨0, 2, 0⟩⟩, [99], 9, 6, .crc32c, 8, 1⟩
    ∃ index : ChunkIndex, index.entries = [(first.identity, first), (second.identity, second)] ∧
      index.storedBytes.toNat = 11 ∧
        ∃ error index', addInPlace both index = .error error index' ∧ index' = index := by
  intro computation first second both
  have hempty : (histories fun _ => True).Reachable create := .initial rfl
  have hone := hempty.step ⟨.add first, trivial, .add first⟩
  have htwo := hone.step ⟨.add second, trivial, .add second⟩
  rcases histories_invariant _ htwo with ⟨-, -, hstored, hkept, -⟩
  have hthrows (index : ChunkIndex)
      (hadd : index.add both = .error (.invalidArgument "overlapping chunk ranges")) :
      addInPlace both index = .error (.invalidArgument "overlapping chunk ranges") index := by
    rw [addInPlace_eq, hadd]
    rfl
  have hsame := hkept both _ _ (hthrows _ (by decide))
  exact ⟨_, by decide, hstored.trans (by decide), _, _, hthrows _ (by decide), hsame⟩

end GiveMePi.Storage.ChunkIndex
