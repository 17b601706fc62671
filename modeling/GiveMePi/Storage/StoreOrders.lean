import GiveMePi.Library.ProgramLogic
import GiveMePi.Storage.LoadedChunks
import GiveMePi.Storage.ReliableManager
import GiveMePi.Storage.StoragePlaces

/-! # Stores in any order

Chunks that a manager accepts one after the other can be stored at the same time: whatever the order
of the sections, no store is refused, and the manager is the same in the end. -/

namespace GiveMePi.Storage

open ChunkIndex (entryOf overlaps IsValidEntry)
open Library (OrderedMap)
open Library.Program

/-! ## Chunks that are accepted together -/

theorem ChunkIndex.overlaps_self {identity : ChunkIdentity} (h : identity.IsValid) :
    overlaps identity identity = true := by
  simp [overlaps, h.start_lt]

namespace StorageManager

variable (policy : StoragePolicy) (lz4 : Lz4)

/-- The ranges of the chunks do not overlap. -/
def AreApart (chunk other : Chunk) : Prop :=
  overlaps chunk.metadata.identity other.metadata.identity = false

instance : Std.Symm AreApart where
  symm chunk other h := by
    rw [AreApart, ChunkIndex.overlaps_comm]
    exact h

/-- The key and the entry of a chunk in an index. -/
def keyedEntry (chunk : Chunk) : ChunkIdentity × ChunkIndexEntry :=
  (chunk.metadata.identity, entryOf chunk.metadata)

/-- The chunks can be written, and there is room in the index for all of them. -/
structure IsAccepted (base : StorageManager) (chunks : List Chunk) : Prop where
  prepared : ∀ chunk ∈ chunks, ∃ bytes, ChunkStore.prepare policy lz4 chunk = .ok bytes
  valid : ∀ chunk ∈ chunks, IsValidEntry (entryOf chunk.metadata)
  fresh : ∀ chunk ∈ chunks, base.index.contains chunk.metadata.identity = false
  apartBase : ∀ chunk ∈ chunks, ∀ existing ∈ base.index.entries,
    overlaps existing.1 chunk.metadata.identity = false
  apart : chunks.Pairwise AreApart
  count_le : base.index.entries.length + chunks.length ≤ 2 ^ 32 - 1
  filename_le : ∀ chunk ∈ chunks, chunk.metadata.identity.chunkFilename.length ≤ 2 ^ 32 - 1

/-- Chunks are stored one after the other. -/
def storeAll (chunks : List Chunk) : Action StorageManager Unit :=
  chunks.forM fun chunk => do
    let _ ← store policy lz4 chunk

/-- How far the store of a chunk is. -/
inductive StoreStage where
  | waiting
  | reserved
  | written
  | stored
deriving DecidableEq

namespace StoreStage

/-- The name of the chunk is in the set of the manager. -/
def inFlight : StoreStage → Prop
  | waiting | stored => False
  | reserved | written => True

/-- The chunk has its file. -/
def hasFile : StoreStage → Prop
  | waiting | reserved => False
  | written | stored => True

end StoreStage

/-- The manager while chunks are being stored, each as far as the stages say. -/
structure IsStoring (base : StorageManager) (chunks : List Chunk) (stage : Chunk → StoreStage)
    (manager : StorageManager) : Prop where
  index : ∀ entry, entry ∈ manager.index.entries ↔ entry ∈ base.index.entries ∨
    ∃ chunk ∈ chunks, stage chunk = .stored ∧ entry = keyedEntry chunk
  inFlight : ∀ id, id ∈ manager.inFlightStores ↔ ∃ chunk ∈ chunks,
    (stage chunk).inFlight ∧ id = chunk.metadata.identity.chunkFilename
  chunkFile : ∀ chunk ∈ chunks, (stage chunk).hasFile →
    ∃ bytes, ChunkStore.prepare policy lz4 chunk = .ok bytes ∧
      manager.files (ChunkStore.chunkPath policy chunk.metadata.identity.chunkFilename) = some bytes
  indexFile : manager.files (ChunkIndex.indexPath policy) =
    if ∃ chunk ∈ chunks, stage chunk = .stored then some (ChunkIndex.indexBytes manager.index)
    else base.files (ChunkIndex.indexPath policy)
  otherFile : ∀ path, path ≠ ChunkIndex.indexPath policy → (∀ chunk ∈ chunks, (stage chunk).hasFile →
    path ≠ ChunkStore.chunkPath policy chunk.metadata.identity.chunkFilename) →
      manager.files path = base.files path

variable {policy lz4} {base manager manager' : StorageManager} {chunks : List Chunk}
  {stage : Chunk → StoreStage} {chunk other : Chunk}

theorem chunkPath_ne_indexPath (policy : StoragePolicy) (identity : ChunkIdentity) :
    ChunkStore.chunkPath policy identity.chunkFilename ≠ ChunkIndex.indexPath policy :=
  fun h => nomatch @Place.path_injective policy 0 (.chunk identity) .index h

theorem chunkPath_inj {identity identity' : ChunkIdentity}
    (h : ChunkStore.chunkPath policy identity.chunkFilename =
      ChunkStore.chunkPath policy identity'.chunkFilename) : identity = identity' :=
  Place.chunk.inj (@Place.path_injective policy 0 (.chunk identity) (.chunk identity') h)

/-- Accepted chunks with one identity are one chunk. -/
theorem IsAccepted.eq_of_identity (h : IsAccepted policy lz4 base chunks) (hmem : chunk ∈ chunks)
    (hother : other ∈ chunks) (heq : chunk.metadata.identity = other.metadata.identity) :
    chunk = other := by
  by_contra hne
  have hapart := h.apart.forall hmem hother hne
  have hself : overlaps other.metadata.identity other.metadata.identity = true :=
    ChunkIndex.overlaps_self (h.valid other hother).identity
  rw [AreApart, heq, hself] at hapart
  cases hapart

/-! ## Stages -/

section Stages

variable {p : StoreStage → Prop} {q : Chunk → Prop} {target : StoreStage}

/-- A change of stage that leaves a property alone. -/
theorem holds_update (hsame : p target ↔ p (stage chunk)) (other : Chunk) :
    p (Function.update stage chunk target other) ↔ p (stage other) := by
  by_cases heq : other = chunk
  · subst heq
    rw [Function.update_self, hsame]
  · rw [Function.update_of_ne heq]

/-- A change of stage that begins a property. -/
theorem exists_update_of_begin (hmem : chunk ∈ chunks) (htarget : p target) :
    (∃ other ∈ chunks, p (Function.update stage chunk target other) ∧ q other) ↔
      q chunk ∨ ∃ other ∈ chunks, p (stage other) ∧ q other := by
  constructor
  · rintro ⟨other, hother, hp, hq⟩
    by_cases heq : other = chunk
    · exact .inl (heq ▸ hq)
    · rw [Function.update_of_ne heq] at hp
      exact .inr ⟨other, hother, hp, hq⟩
  · rintro (hq | ⟨other, hother, hp, hq⟩)
    · exact ⟨chunk, hmem, by rwa [Function.update_self], hq⟩
    · by_cases heq : other = chunk
      · exact ⟨chunk, hmem, by rwa [Function.update_self], heq ▸ hq⟩
      · exact ⟨other, hother, by rwa [Function.update_of_ne heq], hq⟩

/-- A change of stage that ends a property. -/
theorem exists_update_of_end (htarget : ¬ p target) :
    (∃ other ∈ chunks, p (Function.update stage chunk target other) ∧ q other) ↔
      ∃ other ∈ chunks, other ≠ chunk ∧ p (stage other) ∧ q other := by
  constructor
  · rintro ⟨other, hother, hp, hq⟩
    have hne : other ≠ chunk := by
      rintro rfl
      rw [Function.update_self] at hp
      exact htarget hp
    rw [Function.update_of_ne hne] at hp
    exact ⟨other, hother, hne, hp, hq⟩
  · rintro ⟨other, hother, hne, hp, hq⟩
    exact ⟨other, hother, by rwa [Function.update_of_ne hne], hq⟩

end Stages

theorem isStoring_start (hidle : base.inFlightStores = ∅) :
    IsStoring policy lz4 base chunks (fun _ => .waiting) base where
  index entry := by simp
  inFlight id := by simp [hidle, StoreStage.inFlight]
  chunkFile _ _ h := h.elim
  indexFile := by simp
  otherFile _ _ _ := rfl

/-! ## The sections of a store -/

/-- A chunk that is not stored yet can be added to the index. -/
theorem IsStoring.add (haccepted : IsAccepted policy lz4 base chunks)
    (h : IsStoring policy lz4 base chunks stage manager) (hmem : chunk ∈ chunks)
    (hstage : stage chunk ≠ .stored) :
    ∃ next, manager.index.add (entryOf chunk.metadata) = .ok next ∧ next.IsWithinLimits ∧
      ∀ entry, entry ∈ next.entries ↔ entry = keyedEntry chunk ∨ entry ∈ manager.index.entries := by
  have hne : ∀ other ∈ chunks, stage other = .stored → other ≠ chunk := by
    intro other _ hstored heq
    exact hstage (heq ▸ hstored)
  have hfresh : manager.index.contains chunk.metadata.identity = false := by
    rw [← Bool.not_eq_true, OrderedMap.contains_eq_true_iff]
    rintro ⟨entry, hentry⟩
    rcases (h.index _).mp hentry with hbase | ⟨other, hother, hstored, heq⟩
    · have := OrderedMap.contains_eq_true_iff.mpr ⟨entry, hbase⟩
      rw [haccepted.fresh chunk hmem] at this
      cases this
    · simp only [keyedEntry, Prod.mk.injEq] at heq
      exact hne other hother hstored (haccepted.eq_of_identity hmem hother heq.1).symm
  have hapart : ∀ existing ∈ manager.index.entries,
      overlaps existing.1 chunk.metadata.identity = false := by
    intro existing hexisting
    rcases (h.index _).mp hexisting with hbase | ⟨other, hother, hstored, rfl⟩
    · exact haccepted.apartBase chunk hmem existing hbase
    · exact haccepted.apart.forall hother hmem (hne other hother hstored)
  have hentries := fun entry => @OrderedMap.mem_emplace _ _ _ manager.index
    chunk.metadata.identity (entryOf chunk.metadata) entry hfresh
  refine ⟨_, ChunkIndex.add_eq_ok.mpr ⟨haccepted.valid chunk hmem, hfresh, hapart, rfl⟩, ⟨?_, ?_⟩,
    hentries⟩
  · -- the entries are among those of the base and of the chunks
    have hnodup : (manager.index.emplace chunk.metadata.identity
        (entryOf chunk.metadata)).entries.Nodup :=
      (manager.index.emplace _ _).sorted.imp fun hlt heq => hlt.ne (congrArg Prod.fst heq)
    have hsubset : (manager.index.emplace chunk.metadata.identity
        (entryOf chunk.metadata)).entries ⊆ base.index.entries ++ chunks.map keyedEntry := by
      intro entry hentry
      rw [List.mem_append, List.mem_map]
      rcases (hentries entry).mp hentry with rfl | hentry
      · exact .inr ⟨chunk, hmem, rfl⟩
      · rcases (h.index entry).mp hentry with hbase | ⟨other, hother, _, rfl⟩
        · exact .inl hbase
        · exact .inr ⟨other, hother, rfl⟩
    have hlength := (hnodup.subperm hsubset).length_le
    rw [List.length_append, List.length_map] at hlength
    exact hlength.trans haccepted.count_le
  · intro entry hentry
    rcases (hentries entry).mp hentry with rfl | hentry
    · exact haccepted.filename_le chunk hmem
    · exact manager.limits.filename_le entry hentry

theorem IsStoring.reserve (haccepted : IsAccepted policy lz4 base chunks)
    (h : IsStoring policy lz4 base chunks stage manager) (hmem : chunk ∈ chunks)
    (hstage : stage chunk = .waiting) :
    ∃ manager', StorageManager.reserve chunk manager =
        .ok chunk.metadata.identity.chunkFilename manager' ∧
      IsStoring policy lz4 base chunks (Function.update stage chunk .reserved) manager' := by
  rcases h.add haccepted hmem (by simp [hstage]) with ⟨next, hadd, _⟩
  rcases ChunkIndex.add_eq_ok.mp hadd with ⟨hvalid, hfresh, _, _⟩
  have hname : chunk.metadata.identity.deterministicFilename =
      .ok chunk.metadata.identity.chunkFilename := by
    have hvalidate : chunk.metadata.identity.validate = .ok () :=
      ChunkIdentity.validate_eq_ok.mpr hvalid.identity
    rw [ChunkIdentity.deterministicFilename, hvalidate]
    rfl
  have hnot : chunk.metadata.identity.chunkFilename ∉ manager.inFlightStores := by
    rw [h.inFlight]
    rintro ⟨other, hother, hflight, heq⟩
    have hsame := haccepted.eq_of_identity hmem hother (ChunkIdentity.chunkFilename_injective heq)
    rw [← hsame, hstage] at hflight
    exact hflight
  have hcheck : ¬ (manager.index.contains chunk.metadata.identity = true ∨
      chunk.metadata.identity.chunkFilename ∈ manager.inFlightStores) := by
    rw [not_or, Bool.not_eq_true]
    exact ⟨hfresh, hnot⟩
  have hstored := @holds_update stage chunk (· = .stored) .reserved (by simp [hstage])
  have hfile := @holds_update stage chunk StoreStage.hasFile .reserved
    (by simp [hstage, StoreStage.hasFile])
  refine ⟨{ manager with
    inFlightStores := insert chunk.metadata.identity.chunkFilename manager.inFlightStores }, ?_, ?_⟩
  · simp only [StorageManager.reserve, hname, Action.liftM_eq, Action.ofExcept_ok, pure_bind,
      get_bind, throwIf_neg hcheck, set_bind, pure_apply]
  · constructor
    · simpa only [hstored] using h.index
    · intro id
      rw [exists_update_of_begin hmem trivial, ← h.inFlight id]
      exact Finset.mem_insert
    · simpa only [hfile] using h.chunkFile
    · simpa only [hstored] using h.indexFile
    · simpa only [hfile] using h.otherFile

theorem IsStoring.write (haccepted : IsAccepted policy lz4 base chunks)
    (h : IsStoring policy lz4 base chunks stage manager) (hmem : chunk ∈ chunks)
    (hstage : stage chunk = .reserved) :
    ∃ manager', StorageManager.writeChunk policy lz4 chunk manager = .ok () manager' ∧
      IsStoring policy lz4 base chunks (Function.update stage chunk .written) manager' := by
  rcases haccepted.prepared chunk hmem with ⟨bytes, hprepare⟩
  have hstored := @holds_update stage chunk (· = .stored) .written (by simp [hstage])
  have hflight := @holds_update stage chunk StoreStage.inFlight .written
    (by simp [hstage, StoreStage.inFlight])
  refine ⟨manager.replaceFile
    (ChunkStore.chunkPath policy chunk.metadata.identity.chunkFilename) bytes, ?_, ?_⟩
  · rw [StorageManager.writeChunk, hprepare]
  · constructor
    · simp only [hstored]
      exact h.index
    · simp only [hflight]
      exact h.inFlight
    · intro other hother hfile
      by_cases heq : other = chunk
      · subst heq
        refine ⟨bytes, hprepare, ?_⟩
        rw [files_replaceFile, Function.update_self]
      · rw [Function.update_of_ne heq] at hfile
        rcases h.chunkFile other hother hfile with ⟨content, hcontent, hlookup⟩
        refine ⟨content, hcontent, ?_⟩
        rw [files_replaceFile, Function.update_of_ne, hlookup]
        intro hpath
        exact heq (haccepted.eq_of_identity hother hmem (chunkPath_inj hpath))
    · have hne := chunkPath_ne_indexPath policy chunk.metadata.identity
      rw [files_replaceFile, Function.update_of_ne hne.symm]
      simp only [hstored]
      exact h.indexFile
    · intro path hindex hpath
      have hne := hpath chunk hmem (by rw [Function.update_self]; trivial)
      rw [files_replaceFile, Function.update_of_ne hne]
      refine h.otherFile path hindex fun other hother hfile => hpath other hother ?_
      by_cases heq : other = chunk
      · subst heq
        rw [Function.update_self]
        trivial
      · rwa [Function.update_of_ne heq]

theorem IsStoring.publish (haccepted : IsAccepted policy lz4 base chunks)
    (h : IsStoring policy lz4 base chunks stage manager) (hmem : chunk ∈ chunks)
    (hstage : stage chunk = .written) :
    ∃ manager', StorageManager.publishChunk policy chunk manager = .ok () manager' ∧
      IsStoring policy lz4 base chunks (Function.update stage chunk .stored) manager' := by
  rcases h.add haccepted hmem (by simp [hstage]) with ⟨next, hadd, hlimits, hentries⟩
  rcases publishIndex_returns policy hlimits manager with
    ⟨published, hpublished, hindex, hflight, hfiles⟩
  have haddMetadata := ChunkIndex.addMetadata_eq_ok.mpr hadd
  have hfile := @holds_update stage chunk StoreStage.hasFile .stored
    (by simp [hstage, StoreStage.hasFile])
  refine ⟨{ published with
    inFlightStores := published.inFlightStores.erase chunk.metadata.identity.chunkFilename }, ?_, ?_⟩
  · simp only [StorageManager.publishChunk, get_bind, haddMetadata, Action.liftM_eq,
      Action.ofExcept_ok, pure_bind, bind_of_ok hpublished, modify_apply]
  · constructor
    · intro entry
      have hbegin := @exists_update_of_begin chunks stage chunk (· = .stored)
        (entry = keyedEntry ·) .stored hmem rfl
      rw [hbegin, hindex, hentries, h.index, or_left_comm]
    · intro id
      have hend := @exists_update_of_end chunks stage chunk StoreStage.inFlight
        (fun other => id = other.metadata.identity.chunkFilename) .stored not_false
      rw [hend, hflight, Finset.mem_erase, h.inFlight]
      constructor
      · rintro ⟨hne, other, hother, hstage', hid⟩
        refine ⟨other, hother, ?_, hstage', hid⟩
        intro heq
        rw [heq] at hid
        exact hne hid
      · rintro ⟨other, hother, hne, hstage', hid⟩
        refine ⟨fun hname => hne ?_, other, hother, hstage', hid⟩
        exact haccepted.eq_of_identity hother hmem
          (ChunkIdentity.chunkFilename_injective (hid.symm.trans hname))
    · intro other hother hhas
      rcases h.chunkFile other hother ((hfile other).mp hhas) with ⟨bytes, hprepare, hlookup⟩
      refine ⟨bytes, hprepare, ?_⟩
      rw [hfiles, Function.update_of_ne (chunkPath_ne_indexPath policy _), hlookup]
    · rw [hfiles, hindex, Function.update_self, if_pos ⟨chunk, hmem, Function.update_self _ _ _⟩]
    · intro path hne hpath
      rw [hfiles, Function.update_of_ne hne]
      exact h.otherFile path hne fun other hother hhas => hpath other hother ((hfile other).mpr hhas)

/-! ## Whole stores -/

/-- A store on its own is its sections one after the other. -/
theorem IsStoring.store (haccepted : IsAccepted policy lz4 base chunks)
    (h : IsStoring policy lz4 base chunks stage manager) (hmem : chunk ∈ chunks)
    (hstage : stage chunk = .waiting) :
    ∃ manager', StorageManager.store policy lz4 chunk manager =
        .ok chunk.metadata.identity.chunkFilename manager' ∧
      IsStoring policy lz4 base chunks (Function.update stage chunk .stored) manager' := by
  rcases h.reserve haccepted hmem hstage with ⟨reserved, hreserve, hreserved⟩
  rcases hreserved.write haccepted hmem (by simp) with ⟨written, hwrite, hwritten⟩
  rcases hwritten.publish haccepted hmem (by simp) with ⟨stored, hpublish, hstored⟩
  refine ⟨stored, ?_, by simpa using hstored⟩
  simp only [StorageManager.store, bind_of_ok hreserve, Action.attempt, bind_of_ok hwrite,
    bind_of_ok hpublish, pure_apply]

/-- Once all chunks are stored, the manager does not depend on the order. -/
theorem IsStoring.eq_of_stored {stage' : Chunk → StoreStage}
    (h : IsStoring policy lz4 base chunks stage manager)
    (h' : IsStoring policy lz4 base chunks stage' manager')
    (hstored : ∀ chunk ∈ chunks, stage chunk = .stored)
    (hstored' : ∀ chunk ∈ chunks, stage' chunk = .stored) : manager = manager' := by
  have hindex : manager.index = manager'.index := by
    apply OrderedMap.eq_of_mem_iff
    intro entry
    rw [h.index, h'.index]
    refine or_congr_right ⟨?_, ?_⟩
    · rintro ⟨chunk, hmem, _, rfl⟩
      exact ⟨chunk, hmem, hstored' chunk hmem, rfl⟩
    · rintro ⟨chunk, hmem, _, rfl⟩
      exact ⟨chunk, hmem, hstored chunk hmem, rfl⟩
  have hflight : manager.inFlightStores = manager'.inFlightStores := by
    ext id
    rw [h.inFlight, h'.inFlight]
    constructor
    · rintro ⟨chunk, hmem, hstage, _⟩
      rw [hstored chunk hmem] at hstage
      exact hstage.elim
    · rintro ⟨chunk, hmem, hstage, _⟩
      rw [hstored' chunk hmem] at hstage
      exact hstage.elim
  have hfiles : manager.files = manager'.files := by
    funext path
    by_cases hpath : path = ChunkIndex.indexPath policy
    · subst hpath
      rw [h.indexFile, h'.indexFile, hindex]
      have hiff : (∃ chunk ∈ chunks, stage chunk = .stored) ↔
          ∃ chunk ∈ chunks, stage' chunk = .stored :=
        ⟨fun ⟨chunk, hmem, _⟩ => ⟨chunk, hmem, hstored' chunk hmem⟩,
          fun ⟨chunk, hmem, _⟩ => ⟨chunk, hmem, hstored chunk hmem⟩⟩
      simp only [hiff]
    · by_cases hchunk : ∃ chunk ∈ chunks,
          path = ChunkStore.chunkPath policy chunk.metadata.identity.chunkFilename
      · rcases hchunk with ⟨chunk, hmem, rfl⟩
        rcases h.chunkFile chunk hmem (by rw [hstored chunk hmem]; trivial)
          with ⟨bytes, hprepare, hlookup⟩
        rcases h'.chunkFile chunk hmem (by rw [hstored' chunk hmem]; trivial)
          with ⟨bytes', hprepare', hlookup'⟩
        rw [hprepare] at hprepare'
        rw [hlookup, hlookup', Except.ok.inj hprepare']
      · have hother : ∀ chunk ∈ chunks,
            path ≠ ChunkStore.chunkPath policy chunk.metadata.identity.chunkFilename :=
          fun chunk hmem heq => hchunk ⟨chunk, hmem, heq⟩
        rw [h.otherFile path hpath fun chunk hmem _ => hother chunk hmem,
          h'.otherFile path hpath fun chunk hmem _ => hother chunk hmem]
  rcases manager with ⟨index, limits, inFlightStores, files⟩
  rcases manager' with ⟨index', limits', inFlightStores', files'⟩
  simp only at hindex hflight hfiles
  subst hindex hflight hfiles
  rfl

/-- The chunks that are still waiting can be stored one after the other. -/
theorem IsStoring.storeAll (haccepted : IsAccepted policy lz4 base chunks) {rest : List Chunk}
    (h : IsStoring policy lz4 base chunks stage manager)
    (hwaiting : ∀ chunk ∈ rest, chunk ∈ chunks ∧ stage chunk = .waiting) (hnodup : rest.Nodup) :
    ∃ manager' stage', StorageManager.storeAll policy lz4 rest manager = .ok () manager' ∧
      IsStoring policy lz4 base chunks stage' manager' ∧ (∀ chunk ∈ rest, stage' chunk = .stored) ∧
        ∀ chunk ∉ rest, stage' chunk = stage chunk := by
  induction rest generalizing stage manager with
  | nil => exact ⟨manager, stage, rfl, h, by simp, fun _ _ => rfl⟩
  | cons chunk rest ih =>
      rcases List.nodup_cons.mp hnodup with ⟨hfresh, hnodup⟩
      rcases hwaiting chunk List.mem_cons_self with ⟨hmem, hstage⟩
      rcases h.store haccepted hmem hstage with ⟨middle, hstore, hmiddle⟩
      have hrest : ∀ other ∈ rest, other ∈ chunks ∧
          Function.update stage chunk .stored other = .waiting := by
        intro other hother
        have hne : other ≠ chunk := fun heq => hfresh (heq ▸ hother)
        rw [Function.update_of_ne hne]
        exact hwaiting other (List.mem_cons_of_mem _ hother)
      rcases ih hmiddle hrest hnodup with ⟨manager', stage', hall, hstoring, hstored, hsame⟩
      have hchunk : stage' chunk = .stored := by
        rw [hsame chunk hfresh, Function.update_self]
      refine ⟨manager', stage', ?_, hstoring, ?_, fun other hother => ?_⟩
      · rw [StorageManager.storeAll, forM_cons]
        simp only [bind_assoc, bind_of_ok hstore, pure_bind]
        exact hall
      · rw [List.forall_mem_cons]
        exact ⟨hchunk, hstored⟩
      · rw [List.mem_cons, not_or] at hother
        rw [hsame other hother.2, Function.update_of_ne hother.1]

theorem IsAccepted.nodup (h : IsAccepted policy lz4 base chunks) : chunks.Nodup := by
  refine h.apart.imp_of_mem fun {chunk other} hmem _ hapart heq => ?_
  have hself : overlaps chunk.metadata.identity chunk.metadata.identity = true :=
    ChunkIndex.overlaps_self (h.valid chunk hmem).identity
  rw [AreApart, ← heq, hself] at hapart
  cases hapart

/-- Accepted chunks can be stored one after the other. -/
theorem IsAccepted.storeAll (h : IsAccepted policy lz4 base chunks) (hidle : base.inFlightStores = ∅) :
    ∃ manager' stage, StorageManager.storeAll policy lz4 chunks base = .ok () manager' ∧
      IsStoring policy lz4 base chunks stage manager' ∧ ∀ chunk ∈ chunks, stage chunk = .stored := by
  rcases (isStoring_start hidle).storeAll h (fun chunk hmem => ⟨hmem, rfl⟩) h.nodup with
    ⟨manager', stage, hall, hstoring, hstored, _⟩
  exact ⟨manager', stage, hall, hstoring, hstored⟩

/-! ## Chunks that have been stored are accepted -/

/-- What the first section has found. -/
theorem reserve_eq_ok {id : Bytes} (h : StorageManager.reserve chunk manager = .ok id manager') :
    id = chunk.metadata.identity.chunkFilename ∧ manager'.index = manager.index ∧
      manager'.inFlightStores = insert id manager.inFlightStores := by
  simp only [StorageManager.reserve, Action.liftM_eq, Library.Program.bind_eq_ok, Action.ofExcept_eq_ok,
    get_bind, set_bind, pure_apply, EStateM.Result.ok.injEq] at h
  rcases h with ⟨name, _, ⟨hname, rfl⟩, _, _, ⟨_, rfl⟩, rfl, rfl⟩
  simp only [ChunkIdentity.deterministicFilename, GiveMePi.bind_eq_ok, pure_eq_ok,
    Except.ok.injEq] at hname
  rcases hname with ⟨_, _, rfl⟩
  exact ⟨rfl, rfl, rfl⟩

/-- What the writing of the file has found. -/
theorem writeChunk_eq_ok (h : writeChunk policy lz4 chunk manager = .ok () manager') :
    (∃ bytes, ChunkStore.prepare policy lz4 chunk = .ok bytes) ∧ manager'.index = manager.index ∧
      manager'.inFlightStores = manager.inFlightStores := by
  rw [writeChunk] at h
  split at h
  · next bytes hprepare =>
      cases h
      exact ⟨⟨bytes, hprepare⟩, rfl, rfl⟩
  · cases h
  · cases h

/-- What the second section has found. -/
theorem publishChunk_eq_ok (h : publishChunk policy chunk manager = .ok () manager') :
    manager.index.add (entryOf chunk.metadata) = .ok manager'.index ∧
      manager'.inFlightStores =
        manager.inFlightStores.erase chunk.metadata.identity.chunkFilename := by
  simp only [publishChunk, Action.liftM_eq, get_bind, Library.Program.bind_eq_ok, Action.ofExcept_eq_ok,
    modify_apply, EStateM.Result.ok.injEq, true_and] at h
  rcases h with ⟨next, _, ⟨hadd, rfl⟩, _, published, hpublish, rfl⟩
  rw [publishIndex] at hpublish
  split at hpublish
  · cases hpublish
  · cases hpublish
    exact ⟨ChunkIndex.addMetadata_eq_ok.mp hadd, rfl⟩

/-- A section that throws leaves the manager as it was. -/
theorem reserve_eq_error {e : Error} (h : StorageManager.reserve chunk manager = .error e manager') :
    manager' = manager := by
  simp only [StorageManager.reserve, Action.liftM_eq, Library.Program.bind_eq_error,
    Action.ofExcept_eq_error, Action.ofExcept_eq_ok, get_bind, set_bind, pure_apply, reduceCtorEq,
    and_false, exists_false, or_false] at h
  rcases h with ⟨_, rfl⟩ | ⟨_, _, ⟨_, rfl⟩, _, rfl⟩
  · rfl
  · rfl

theorem writeChunk_eq_error {e : Error} (h : writeChunk policy lz4 chunk manager = .error e manager') :
    manager' = manager := by
  rw [writeChunk] at h
  split at h <;> cases h <;> rfl

theorem publishChunk_eq_error {e : Error} (h : publishChunk policy chunk manager = .error e manager') :
    manager' = manager := by
  simp only [publishChunk, Action.liftM_eq, get_bind, Library.Program.bind_eq_error,
    Action.ofExcept_eq_error, Action.ofExcept_eq_ok, modify_apply, reduceCtorEq, and_false,
    exists_false, or_false] at h
  rcases h with ⟨_, rfl⟩ | ⟨_, _, ⟨_, rfl⟩, hpublish⟩
  · rfl
  · rw [publishIndex] at hpublish
    split at hpublish <;> cases hpublish
    rfl

/-- What a store that returns has found. -/
theorem store_eq_ok {id : Bytes} (h : store policy lz4 chunk manager = .ok id manager') :
    (∃ bytes, ChunkStore.prepare policy lz4 chunk = .ok bytes) ∧
      manager.index.add (entryOf chunk.metadata) = .ok manager'.index ∧
        (manager.inFlightStores = ∅ → manager'.inFlightStores = ∅) := by
  rw [StorageManager.store, Library.Program.bind_eq_ok] at h
  rcases h with ⟨name, reserved, hreserve, hrest⟩
  rcases reserve_eq_ok hreserve with ⟨hname, hindex, hflight⟩
  rw [Action.attempt] at hrest
  split at hrest
  · next hbody =>
      cases hrest
      simp only [Library.Program.bind_eq_ok, pure_apply, EStateM.Result.ok.injEq] at hbody
      rcases hbody with ⟨_, written, hwrite, _, _, hpublish, rfl, rfl⟩
      rcases writeChunk_eq_ok hwrite with ⟨hprepare, hindex', hflight'⟩
      rcases publishChunk_eq_ok hpublish with ⟨hadd, hflight''⟩
      refine ⟨hprepare, by rwa [hindex', hindex] at hadd, fun hidle => ?_⟩
      rw [hflight'', hflight', hflight, hidle, hname]
      simp
  · simp at hrest

theorem isAccepted_nil (base : StorageManager) : IsAccepted policy lz4 base [] where
  prepared := by simp
  valid := by simp
  fresh := by simp
  apartBase := by simp
  apart := List.Pairwise.nil
  count_le := base.limits.count_le
  filename_le := by simp

/-- The first chunk has been added, and the others are accepted after it. -/
theorem IsAccepted.cons (hprepare : ∃ bytes, ChunkStore.prepare policy lz4 chunk = .ok bytes)
    (hadd : base.index.add (entryOf chunk.metadata) = .ok manager.index)
    (h : IsAccepted policy lz4 manager chunks) : IsAccepted policy lz4 base (chunk :: chunks) := by
  rcases ChunkIndex.add_eq_ok.mp hadd with ⟨hvalid, hfresh, hapart, hindex⟩
  have hentries : ∀ entry, entry ∈ manager.index.entries ↔
      entry = keyedEntry chunk ∨ entry ∈ base.index.entries := by
    intro entry
    rw [hindex]
    exact OrderedMap.mem_emplace hfresh
  have hlength : base.index.entries.length + 1 ≤ manager.index.entries.length := by
    have hnodup : (keyedEntry chunk :: base.index.entries).Nodup := by
      rw [List.nodup_cons]
      refine ⟨fun hmem => ?_, base.index.sorted.imp fun hlt heq => hlt.ne (congrArg Prod.fst heq)⟩
      exact nomatch hfresh.symm.trans (OrderedMap.contains_eq_true_iff.mpr ⟨_, hmem⟩)
    have hsubset : keyedEntry chunk :: base.index.entries ⊆ manager.index.entries := by
      intro entry hmem
      rw [hentries]
      exact List.mem_cons.mp hmem
    simpa using (hnodup.subperm hsubset).length_le
  constructor
  · exact List.forall_mem_cons.mpr ⟨hprepare, h.prepared⟩
  · exact List.forall_mem_cons.mpr ⟨hvalid, h.valid⟩
  · refine List.forall_mem_cons.mpr ⟨hfresh, fun other hmem => ?_⟩
    rw [← Bool.not_eq_true, OrderedMap.contains_eq_true_iff]
    rintro ⟨entry, hentry⟩
    have := OrderedMap.contains_eq_true_iff.mpr ⟨entry, (hentries _).mpr (.inr hentry)⟩
    rw [h.fresh other hmem] at this
    cases this
  · refine List.forall_mem_cons.mpr ⟨hapart, fun other hmem existing hexisting => ?_⟩
    exact h.apartBase other hmem existing ((hentries existing).mpr (.inr hexisting))
  · refine List.pairwise_cons.mpr ⟨fun other hmem => ?_, h.apart⟩
    exact h.apartBase other hmem (keyedEntry chunk) ((hentries _).mpr (.inl rfl))
  · have hcount := h.count_le
    rw [List.length_cons]
    omega
  · refine List.forall_mem_cons.mpr ⟨?_, h.filename_le⟩
    exact manager.limits.filename_le (keyedEntry chunk) ((hentries _).mpr (.inl rfl))

/-- Chunks that have been stored one after the other are accepted together. -/
theorem isAccepted_of_storeAll
    (h : StorageManager.storeAll policy lz4 chunks base = .ok () manager) :
    IsAccepted policy lz4 base chunks := by
  induction chunks generalizing base with
  | nil => exact isAccepted_nil base
  | cons chunk rest ih =>
      rw [StorageManager.storeAll, forM_cons] at h
      simp only [bind_assoc, pure_bind, Library.Program.bind_eq_ok] at h
      rcases h with ⟨id, middle, hstore, hrest⟩
      rcases store_eq_ok hstore with ⟨hprepare, hadd, _⟩
      exact .cons hprepare hadd (ih hrest)

/-- A chunk that is stored is loaded. -/
theorem IsStoring.load (hlz4 : lz4.IsLossless)
    (h : IsStoring policy lz4 base chunks stage manager) (hmem : chunk ∈ chunks)
    (hstored : stage chunk = .stored) :
    StorageManager.load policy lz4 chunk.metadata.identity manager = .ok (some chunk) manager := by
  rcases h.chunkFile chunk hmem (by rw [hstored]; trivial) with ⟨bytes, hprepare, hlookup⟩
  have hentry : manager.index.find? chunk.metadata.identity = some (entryOf chunk.metadata) :=
    OrderedMap.find?_eq_some_iff.mpr ((h.index _).mpr (.inr ⟨chunk, hmem, hstored, rfl⟩))
  have hfile : manager.chunkFile? policy (entryOf chunk.metadata) = some bytes := hlookup
  have hloaded := checkLoaded_eq (ChunkStore.decode_of_prepare hlz4 hprepare) (Eq.refl (entryOf chunk.metadata))
  simp only [StorageManager.load, get_bind, hentry, hfile, Action.liftM_eq, hloaded,
    Action.ofExcept_ok, pure_apply]

end StorageManager

end GiveMePi.Storage
