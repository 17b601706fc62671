import GiveMePi.Storage.SpillLoops

/-! # The workers of a spill

A spill with a writer, for every interleaving of its workers: it stores the planned chunks and ends as
planned if the manager accepts them, and throws if it does not. -/

namespace GiveMePi.Storage.StorageMergeCoordinator

open Binary (BinaryNode)
open Checkpoint (ComputationIdentity)
open StorageManager
open ChunkIndex (entryOf overlaps IsValidEntry)
open Library (Caller Inevitable OrderedMap JobPlace Pool)

variable {policy : StoragePolicy} {memoryBudgetBytes : UInt64} {lz4 : Lz4}
  {computation : ComputationIdentity} {level : UInt32} {memory : CoordinatorMemory}
  {candidates : List EvictionCandidate} {pending rest : List PendingWrite} {submitted : ℕ}
  {awaited : ℕ → Prop} {results : ℕ → WriteResult}

/-! ## The calling thread -/

theorem unwindWrites_settles (e : Error) (hlt : ∀ write ∈ rest, write.position < submitted)
    (hall : ∀ position < submitted, awaited position ∨ ∃ write ∈ rest, write.position = position) :
    (unwindWrites e rest memory).Settles True submitted awaited := by
  induction rest generalizing memory awaited with
  | nil => exact fun _ position hposition => (hall position hposition).resolve_right (by simp)
  | cons write rest ih =>
      rcases List.forall_mem_cons.mp hlt with ⟨hwrite, hrest⟩
      refine ⟨hwrite, fun result => ?_⟩
      have hnext : ∀ position < submitted, (position = write.position ∨ awaited position) ∨
          ∃ write ∈ rest, write.position = position := by
        intro position hposition
        rcases hall position hposition with hawaited | ⟨other, hmem, rfl⟩
        · exact .inl (.inr hawaited)
        · rcases List.mem_cons.mp hmem with rfl | hmem
          · exact .inl (.inl rfl)
          · exact .inr ⟨other, hmem, rfl⟩
      dsimp only
      split
      · cases result with
        | ok _ => exact ih hrest hnext
        | error detail => exact ih hrest hnext
      · exact ih hrest hnext

theorem collectWrites_settles (hlt : ∀ write ∈ pending, write.position < submitted)
    (hall : ∀ position < submitted, ∃ write ∈ pending, write.position = position)
    (hsuffix : ∀ write ∈ rest, write ∈ pending)
    (hrest : ∀ position < submitted, awaited position ∨ ∃ write ∈ rest, write.position = position) :
    (collectWrites pending rest memory).Settles True submitted awaited := by
  induction rest generalizing memory awaited with
  | nil => exact fun _ position hposition => (hrest position hposition).resolve_right (by simp)
  | cons write rest ih =>
      rcases List.forall_mem_cons.mp hsuffix with ⟨hwrite, hsuffix⟩
      refine ⟨hlt write hwrite, fun result => ?_⟩
      cases result with
      | error detail =>
          exact unwindWrites_settles _ hlt fun position hposition => .inr (hall position hposition)
      | ok _ =>
          refine ih hsuffix fun position hposition => ?_
          rcases hrest position hposition with hawaited | ⟨other, hmem, rfl⟩
          · exact .inl (.inr hawaited)
          · rcases List.mem_cons.mp hmem with rfl | hmem
            · exact .inl (.inl rfl)
            · exact .inr ⟨other, hmem, rfl⟩

/-- The writes stand at the positions that have been handed over. -/
def AreNumbered (pending : List PendingWrite) : Prop :=
  pending.map PendingWrite.position = List.range pending.length

theorem AreNumbered.lt (h : AreNumbered pending) :
    ∀ write ∈ pending, write.position < pending.length := by
  intro write hmem
  have hposition := List.mem_map_of_mem (f := PendingWrite.position) hmem
  rw [h] at hposition
  exact List.mem_range.mp hposition

theorem AreNumbered.exists (h : AreNumbered pending) :
    ∀ position < pending.length, ∃ write ∈ pending, write.position = position := by
  intro position hlt
  rw [← List.mem_range, ← h, List.mem_map] at hlt
  exact hlt

theorem AreNumbered.append (h : AreNumbered pending) (index : ℕ) (storedBytes : UInt64) :
    AreNumbered (pending ++ [⟨index, pending.length, storedBytes⟩]) := by
  rw [AreNumbered, List.map_append, h, List.length_append, List.length_singleton, List.range_succ]
  rfl

/-- Whatever happens, the thread waits for all writes that it has submitted. -/
theorem submitWrites_settles (h : AreNumbered pending) :
    (submitWrites policy lz4 computation level candidates pending memory).Settles True
      pending.length awaited := by
  induction candidates generalizing pending memory with
  | nil =>
      exact collectWrites_settles h.lt h.exists (fun _ hmem => hmem) fun position hlt =>
        .inr (h.exists position hlt)
  | cons candidate rest ih =>
      rw [submitWrites]
      split
      · exact ih h
      · next index _ =>
          split
          · exact unwindWrites_settles _ h.lt fun position hlt => .inr (h.exists position hlt)
          · next chunk begun _ =>
              have hnext := @ih begun _ (h.append index chunk.metadata.storedSize)
              rw [List.length_append, List.length_singleton] at hnext
              exact hnext

theorem asyncSpill_settles (level : UInt32) (memory : CoordinatorMemory) :
    (asyncSpill policy memoryBudgetBytes lz4 computation level memory).Settles True 0
      fun _ => False := by
  rw [asyncSpill]
  split
  · exact fun _ position hlt => absurd hlt (Nat.not_lt_zero position)
  · exact fun _ position hlt => absurd hlt (Nat.not_lt_zero position)
  · exact @submitWrites_settles policy lz4 computation level _ _ [] _ rfl

theorem jobs_unwindWrites (e : Error) (rest : List PendingWrite) (memory : CoordinatorMemory)
    (results : ℕ → WriteResult) : (unwindWrites e rest memory).jobs results = [] := by
  induction rest generalizing memory with
  | nil => rfl
  | cons write rest ih =>
      simp only [unwindWrites, Caller.jobs]
      split
      · split <;> exact ih _
      · exact ih _

theorem jobs_collectWrites (pending rest : List PendingWrite) (memory : CoordinatorMemory)
    (results : ℕ → WriteResult) : (collectWrites pending rest memory).jobs results = [] := by
  induction rest generalizing memory with
  | nil => rfl
  | cons write rest ih =>
      simp only [collectWrites, Caller.jobs]
      split
      · exact ih _
      · exact jobs_unwindWrites _ _ _ _

/-- What is submitted does not depend on the results. -/
theorem jobs_submitWrites (candidates : List EvictionCandidate) (pending : List PendingWrite)
    (memory : CoordinatorMemory) (results results' : ℕ → WriteResult) :
    (submitWrites policy lz4 computation level candidates pending memory).jobs results =
      (submitWrites policy lz4 computation level candidates pending memory).jobs results' := by
  induction candidates generalizing pending memory with
  | nil =>
      simp only [submitWrites]
      rw [jobs_collectWrites, jobs_collectWrites]
  | cons candidate rest ih =>
      simp only [submitWrites]
      split
      · exact ih _ _
      · split
        · rw [jobs_unwindWrites, jobs_unwindWrites]
        · exact congrArg (_ :: ·) (ih _ _)

theorem jobs_asyncSpill (level : UInt32) (memory : CoordinatorMemory) (results : ℕ → WriteResult) :
    (asyncSpill policy memoryBudgetBytes lz4 computation level memory).jobs results =
      (plannedSpill policy memoryBudgetBytes lz4 computation level memory).1 := by
  rw [← (asyncSpill_stored level memory).1, asyncSpill]
  split
  · rfl
  · rfl
  · exact jobs_submitWrites _ _ _ _ _

theorem value_unwindWrites (e : Error) (rest : List PendingWrite) (memory : CoordinatorMemory)
    (results : ℕ → WriteResult) :
    ∃ memory', (unwindWrites e rest memory).value results = .error e memory' := by
  induction rest generalizing memory with
  | nil => exact ⟨_, rfl⟩
  | cons write rest ih =>
      simp only [unwindWrites, Caller.value]
      split
      · split <;> exact ih _
      · exact ih _

theorem collectWrites_returns {memory' : CoordinatorMemory}
    (h : (collectWrites pending rest memory).value results = .ok () memory') :
    ∀ write ∈ rest, results write.position = .ok () := by
  induction rest generalizing memory with
  | nil => simp
  | cons write rest ih =>
      simp only [collectWrites, Caller.value] at h
      split at h
      · next hresult => exact List.forall_mem_cons.mpr ⟨hresult, ih h⟩
      · next detail _ =>
          rcases value_unwindWrites (.runtimeError detail) pending
            (failWrite write.index detail memory) results with ⟨_, hvalue⟩
          cases hvalue.symm.trans h

/-- A call that returns has stored everything. -/
theorem submitWrites_returns {memory' : CoordinatorMemory} (hnumbered : AreNumbered pending)
    (h : (submitWrites policy lz4 computation level candidates pending memory).value results =
      .ok () memory') :
    ∀ position < pending.length +
        ((submitWrites policy lz4 computation level candidates pending memory).jobs results).length,
      results position = .ok () := by
  induction candidates generalizing pending memory with
  | nil =>
      simp only [submitWrites] at h ⊢
      rw [jobs_collectWrites]
      intro position hlt
      rcases hnumbered.exists position hlt with ⟨write, hmem, rfl⟩
      exact collectWrites_returns h write hmem
  | cons candidate rest ih =>
      simp only [submitWrites] at h ⊢
      split at h
      · exact ih hnumbered h
      · next index hindex =>
          split at h
          · next e begun _ =>
              rcases value_unwindWrites e pending begun results with ⟨_, hvalue⟩
              cases hvalue.symm.trans h
          · next chunk begun hbegin =>
              have hnext := ih (hnumbered.append index chunk.metadata.storedSize) h
              intro position hlt
              refine hnext position ?_
              simp only [Caller.jobs, List.length_cons, List.length_append,
                List.length_nil] at hlt ⊢
              omega

theorem asyncSpill_returns {memory' : CoordinatorMemory}
    (h : (asyncSpill policy memoryBudgetBytes lz4 computation level memory).value results =
      .ok () memory') :
    ∀ position < (plannedSpill policy memoryBudgetBytes lz4 computation level memory).1.length,
      results position = .ok () := by
  rw [← jobs_asyncSpill level memory results]
  rw [asyncSpill] at h ⊢
  split
  · exact fun position hlt => absurd hlt (Nat.not_lt_zero position)
  · exact fun position hlt => absurd hlt (Nat.not_lt_zero position)
  · next plan hbegin =>
      rw [hbegin] at h
      have hnumbered : AreNumbered [] := rfl
      intro position hlt
      refine submitWrites_returns hnumbered h position ?_
      rwa [List.length_nil, Nat.zero_add]

/-! ## The workers -/

section Workers

variable {base : StorageManager} {chunks : List Chunk} {writers capacity : ℕ}
  {stage : Chunk → StoreStage}
  {pool pool' : Pool writers StorageManager Chunk StorePhase WriteResult CoordinatorEnd}

/-- The place of a chunk shows how far its store is; none is refused. -/
def Fits (chunk : Chunk) : JobPlace writers StorePhase WriteResult → StoreStage → Prop
  | .queued, stage => stage = .waiting
  | .held _ (.reserve held), stage => held = chunk ∧ stage = .waiting
  | .held _ (.write held), stage => held = chunk ∧ stage = .reserved
  | .held _ (.publish held), stage => held = chunk ∧ stage = .written
  | .held _ (.undo _ _), _ => False
  | .finished result, stage => result = .ok () ∧ stage = .stored

/-- The manager stores the chunks as far as their places show. -/
structure StoresOnPool (policy : StoragePolicy) (lz4 : Lz4) (base : StorageManager)
    (chunks : List Chunk) (stage : Chunk → StoreStage)
    (pool : Pool writers StorageManager Chunk StorePhase WriteResult CoordinatorEnd) : Prop where
  storing : StorageManager.IsStoring policy lz4 base chunks stage pool.memory
  fits : ∀ (position : ℕ) (chunk : Chunk) (place : JobPlace writers StorePhase WriteResult),
    pool.jobs[position]? = some (chunk, place) → Fits chunk place (stage chunk)
  waiting : ∀ chunk, chunk ∉ pool.jobs.map Prod.fst → stage chunk = .waiting

/-- No result is an error. -/
theorem StoresOnPool.explains (h : StoresOnPool policy lz4 base chunks stage pool) :
    pool.Explains allStored := by
  intro position chunk result hfinished
  exact (h.fits position chunk _ hfinished).1.symm

theorem eq_of_job_eq (hnodup : (pool.jobs.map Prod.fst).Nodup) {position other : ℕ} {chunk : Chunk}
    {place place' : JobPlace writers StorePhase WriteResult}
    (h : pool.jobs[position]? = some (chunk, place))
    (hother : pool.jobs[other]? = some (chunk, place')) : other = position := by
  have hlt : other < (pool.jobs.map Prod.fst).length := by
    rw [List.length_map]
    exact (List.getElem?_eq_some_iff.mp hother).1
  refine (List.getElem?_inj hlt hnodup).mp ?_
  rw [List.getElem?_map, List.getElem?_map, h, hother]
  rfl

/-- A chunk moves to its next stage. -/
theorem StoresOnPool.move (h : StoresOnPool policy lz4 base chunks stage pool)
    (hnodup : (pool.jobs.map Prod.fst).Nodup) {position : ℕ} {chunk : Chunk}
    {old place : JobPlace writers StorePhase WriteResult} {target : StoreStage}
    {manager : StorageManager} (hold : pool.jobs[position]? = some (chunk, old))
    (hstoring : StorageManager.IsStoring policy lz4 base chunks (Function.update stage chunk target)
      manager)
    (hfits : Fits chunk place target) :
    StoresOnPool policy lz4 base chunks (Function.update stage chunk target)
      { pool.put position chunk place with memory := manager } := by
  refine ⟨hstoring, fun other chunk' place' hother => ?_, fun chunk' hchunk' => ?_⟩
  · change (pool.put position chunk place).jobs[other]? = _ at hother
    rw [Pool.getElem?_put hold] at hother
    split at hother
    · cases hother
      rwa [Function.update_self]
    · next hne =>
        have hapart : chunk' ≠ chunk := by
          rintro rfl
          exact hne (eq_of_job_eq hnodup hold hother)
        rw [Function.update_of_ne hapart]
        exact h.fits other chunk' place' hother
  · change chunk' ∉ (pool.put position chunk place).jobs.map Prod.fst at hchunk'
    rw [Pool.map_fst_put hold] at hchunk'
    have hmem : chunk ∈ pool.jobs.map Prod.fst := by
      have hmap := List.mem_map_of_mem (f := Prod.fst) (List.mem_of_getElem? hold)
      exact hmap
    have hne : chunk' ≠ chunk := fun heq => hchunk' (heq ▸ hmem)
    rw [Function.update_of_ne hne]
    exact h.waiting chunk' hchunk'

/-- The step lemma of accepted chunks. -/
theorem StoresOnPool.step (haccepted : IsAccepted policy lz4 base chunks)
    (hjobs : pool.jobs.map Prod.fst ++ pool.caller.jobs allStored = chunks)
    (h : StoresOnPool policy lz4 base chunks stage pool)
    (hstep : pool.Step (AsyncChunkWriter.workerLoop policy lz4) capacity pool') :
    ∃ stage', StoresOnPool policy lz4 base chunks stage' pool' := by
  have hnodup : (pool.jobs.map Prod.fst ++ pool.caller.jobs allStored).Nodup :=
    hjobs ▸ haccepted.nodup
  have hsubmitted := (List.nodup_append.mp hnodup).1
  have hchunks {position : ℕ} {chunk : Chunk} {place : JobPlace writers StorePhase WriteResult}
      (hjob : pool.jobs[position]? = some (chunk, place)) : chunk ∈ chunks := by
    rw [← hjobs]
    exact List.mem_append_left _ (List.mem_map_of_mem (f := Prod.fst) (List.mem_of_getElem? hjob))
  cases hstep with
  | @submit chunk rest hcaller _ =>
      refine ⟨stage, h.storing, fun position chunk' place hjob => ?_, fun chunk' hchunk' => ?_⟩
      · rw [List.getElem?_append] at hjob
        split at hjob
        · exact h.fits position chunk' place hjob
        · rw [List.getElem?_singleton] at hjob
          split at hjob
          · cases hjob
            refine h.waiting chunk fun hmem => ?_
            rw [hcaller] at hnodup
            exact (List.nodup_append.mp hnodup).2.2 chunk hmem chunk List.mem_cons_self rfl
          · cases hjob
      · refine h.waiting chunk' fun hmem => hchunk' ?_
        rw [List.map_append]
        exact List.mem_append_left _ hmem
  | await _ _ => exact ⟨stage, h.storing, h.fits, h.waiting⟩
  | @claim position chunk worker _ hold _ =>
      have hwaiting : stage chunk = .waiting := h.fits position chunk _ hold
      have hsame : Function.update stage chunk .waiting = stage := by
        rw [← hwaiting, Function.update_eq_self]
      have hmoved := @StoresOnPool.move policy lz4 base chunks writers stage pool h hsubmitted position
        chunk _ (.held worker (.reserve chunk)) .waiting pool.memory hold (hsame.symm ▸ h.storing)
        ⟨rfl, rfl⟩
      exact ⟨_, hmoved⟩
  | @piece position chunk worker phase phase' hold hpiece =>
      have hfits := h.fits position chunk _ hold
      cases phase with
      | reserve held =>
          rcases hfits with ⟨rfl, hstage⟩
          rcases h.storing.reserve haccepted (hchunks hold) hstage with ⟨manager', hreserve, hstoring⟩
          simp only [AsyncChunkWriter.workerLoop, AsyncChunkWriter.piece, hreserve,
            Sum.inl.injEq] at hpiece ⊢
          subst hpiece
          exact ⟨_, h.move hsubmitted hold hstoring ⟨rfl, rfl⟩⟩
      | write held =>
          rcases hfits with ⟨rfl, hstage⟩
          rcases h.storing.write haccepted (hchunks hold) hstage with ⟨manager', hwrite, hstoring⟩
          simp only [AsyncChunkWriter.workerLoop, AsyncChunkWriter.piece, hwrite,
            Sum.inl.injEq] at hpiece ⊢
          subst hpiece
          exact ⟨_, h.move hsubmitted hold hstoring ⟨rfl, rfl⟩⟩
      | publish held =>
          rcases hfits with ⟨rfl, hstage⟩
          rcases h.storing.publish haccepted (hchunks hold) hstage with ⟨manager', hpublish, _⟩
          simp [AsyncChunkWriter.workerLoop, AsyncChunkWriter.piece, hpublish] at hpiece
      | undo held e => exact hfits.elim
  | @finish position chunk worker phase result hold hpiece =>
      have hfits := h.fits position chunk _ hold
      cases phase with
      | reserve held =>
          rcases hfits with ⟨rfl, hstage⟩
          rcases h.storing.reserve haccepted (hchunks hold) hstage with ⟨manager', hreserve, _⟩
          simp [AsyncChunkWriter.workerLoop, AsyncChunkWriter.piece, hreserve] at hpiece
      | write held =>
          rcases hfits with ⟨rfl, hstage⟩
          rcases h.storing.write haccepted (hchunks hold) hstage with ⟨manager', hwrite, _⟩
          simp [AsyncChunkWriter.workerLoop, AsyncChunkWriter.piece, hwrite] at hpiece
      | publish held =>
          rcases hfits with ⟨rfl, hstage⟩
          rcases h.storing.publish haccepted (hchunks hold) hstage with ⟨manager', hpublish, hstoring⟩
          simp only [AsyncChunkWriter.workerLoop, AsyncChunkWriter.piece, hpublish,
            Sum.inr.injEq] at hpiece ⊢
          subst hpiece
          exact ⟨_, h.move hsubmitted hold hstoring ⟨rfl, rfl⟩⟩
      | undo held e => exact hfits.elim

/-! ## Refusals -/

/-- What the place of a chunk says about it, when the index is the given one. -/
def Shows (policy : StoragePolicy) (lz4 : Lz4) (base : StorageManager) (index : ChunkIndex)
    (chunk : Chunk) : JobPlace writers StorePhase WriteResult → Prop
  | .held _ (.reserve held) | .held _ (.write held) => held = chunk
  | .held _ (.publish held) =>
      held = chunk ∧ ∃ bytes, ChunkStore.prepare policy lz4 chunk = .ok bytes
  | .finished (.ok _) => (∃ bytes, ChunkStore.prepare policy lz4 chunk = .ok bytes) ∧
      IsValidEntry (entryOf chunk.metadata) ∧
        base.index.contains chunk.metadata.identity = false ∧
          (∀ existing ∈ base.index.entries, overlaps existing.1 chunk.metadata.identity = false) ∧
            keyedEntry chunk ∈ index.entries
  | .queued | .held _ (.undo _ _) | .finished (.error _) => True

theorem Shows.mono {index index' : ChunkIndex} {chunk : Chunk}
    {place : JobPlace writers StorePhase WriteResult} (h : Shows policy lz4 base index chunk place)
    (hle : index.entries ⊆ index'.entries) : Shows policy lz4 base index' chunk place := by
  match place with
  | .queued | .held _ (.undo _ _) | .finished (.error _) => trivial
  | .held _ (.reserve _) | .held _ (.write _) | .held _ (.publish _) => exact h
  | .finished (.ok _) => exact ⟨h.1, h.2.1, h.2.2.1, h.2.2.2.1, hle h.2.2.2.2⟩

/-- What has been stored so far has been accepted. -/
structure HasStored (policy : StoragePolicy) (lz4 : Lz4) (base : StorageManager)
    (pool : Pool writers StorageManager Chunk StorePhase WriteResult CoordinatorEnd) : Prop where
  kept : base.index.entries ⊆ pool.memory.index.entries
  shows : ∀ (position : ℕ) (chunk : Chunk) (place : JobPlace writers StorePhase WriteResult),
    pool.jobs[position]? = some (chunk, place) → Shows policy lz4 base pool.memory.index chunk place
  apart : ∀ (position other : ℕ) (chunk chunk' : Chunk), position ≠ other →
    pool.jobs[position]? = some (chunk, .finished (.ok ())) →
      pool.jobs[other]? = some (chunk', .finished (.ok ())) → AreApart chunk chunk'

/-- A section of a worker leaves the index alone, or it is the one that adds the chunk. -/
theorem piece_index (phase : StorePhase) (manager : StorageManager) :
    (AsyncChunkWriter.piece policy lz4 phase manager).1.index = manager.index ∧
        (AsyncChunkWriter.piece policy lz4 phase manager).2 ≠ .inr (.ok ()) ∨
      ∃ chunk, phase = .publish chunk ∧
        (AsyncChunkWriter.piece policy lz4 phase manager).2 = .inr (.ok ()) ∧
          manager.index.add (entryOf chunk.metadata) =
            .ok (AsyncChunkWriter.piece policy lz4 phase manager).1.index := by
  cases phase with
  | reserve chunk =>
      rw [AsyncChunkWriter.piece]
      split
      · next _ hreserve => exact .inl ⟨(reserve_eq_ok hreserve).2.1, by simp⟩
      · next _ hreserve => exact .inl ⟨by rw [reserve_eq_error hreserve], by simp⟩
  | write chunk =>
      rw [AsyncChunkWriter.piece]
      split
      · next _ hwrite => exact .inl ⟨(writeChunk_eq_ok hwrite).2.1, by simp⟩
      · next _ hwrite => exact .inl ⟨by rw [writeChunk_eq_error hwrite], by simp⟩
  | publish chunk =>
      rw [AsyncChunkWriter.piece]
      split
      · next _ hpublish => exact .inr ⟨chunk, rfl, rfl, (publishChunk_eq_ok hpublish).1⟩
      · next _ hpublish => exact .inl ⟨by rw [publishChunk_eq_error hpublish], by simp⟩
  | undo chunk e => exact .inl ⟨rfl, by simp [AsyncChunkWriter.piece]⟩

/-- A job moves to a place that is no success, or it is the one that has just been added. -/
theorem HasStored.move (h : HasStored policy lz4 base pool) {position : ℕ} {chunk : Chunk}
    {old place : JobPlace writers StorePhase WriteResult} {manager : StorageManager}
    (hold : pool.jobs[position]? = some (chunk, old))
    (hindex : pool.memory.index.entries ⊆ manager.index.entries)
    (hshows : Shows policy lz4 base manager.index chunk place)
    (happart : place = .finished (.ok ()) → ∀ other ≠ position, ∀ chunk',
      pool.jobs[other]? = some (chunk', .finished (.ok ())) → AreApart chunk' chunk) :
    HasStored policy lz4 base { pool.put position chunk place with memory := manager } := by
  refine ⟨fun entry hentry => hindex (h.kept hentry), fun other chunk' place' hother => ?_,
    fun left right chunk' chunk'' hne hleft hright => ?_⟩
  · change (pool.put position chunk place).jobs[other]? = _ at hother
    rw [Pool.getElem?_put hold] at hother
    split at hother
    · cases hother
      exact hshows
    · exact (h.shows other chunk' place' hother).mono hindex
  · change (pool.put position chunk place).jobs[left]? = _ at hleft
    change (pool.put position chunk place).jobs[right]? = _ at hright
    rw [Pool.getElem?_put hold] at hleft hright
    split at hleft
    · next hl =>
        cases hleft
        rw [if_neg fun hr => hne (hl.trans hr.symm)] at hright
        exact symm (happart rfl right (fun hr => hne (hl.trans hr.symm)) chunk'' hright)
    · split at hright
      · next hl hr =>
          cases hright
          exact happart rfl left hl chunk' hleft
      · exact h.apart left right chunk' chunk'' hne hleft hright

/-- The step lemma of all chunks. -/
theorem HasStored.step (h : HasStored policy lz4 base pool)
    (hstep : pool.Step (AsyncChunkWriter.workerLoop policy lz4) capacity pool') :
    HasStored policy lz4 base pool' := by
  cases hstep with
  | @submit chunk rest _ _ =>
      have hold : ∀ (position : ℕ) (chunk' : Chunk) (place : JobPlace writers StorePhase WriteResult),
          (pool.jobs ++ [(chunk, .queued)])[position]? = some (chunk', place) →
            pool.jobs[position]? = some (chunk', place) ∨ place = .queued := by
        intro position chunk' place hjob
        rw [List.getElem?_append] at hjob
        split at hjob
        · exact .inl hjob
        · rw [List.getElem?_singleton] at hjob
          split at hjob
          · cases hjob
            exact .inr rfl
          · cases hjob
      refine ⟨h.kept, fun position chunk' place hjob => ?_,
        fun position other chunk' chunk'' hne hleft hright => ?_⟩
      · rcases hold position chunk' place hjob with hjob | rfl
        · exact h.shows position chunk' place hjob
        · trivial
      · rcases hold position chunk' _ hleft with hleft | hleft
        · rcases hold other chunk'' _ hright with hright | hright
          · exact h.apart position other chunk' chunk'' hne hleft hright
          · cases hright
        · cases hleft
  | await _ _ => exact ⟨h.kept, h.shows, h.apart⟩
  | claim _ hold _ =>
      exact h.move hold (List.Subset.refl _) rfl (fun heq => by cases heq)
  | @piece position chunk worker phase phase' hold hpiece =>
      have hshows := h.shows position chunk _ hold
      simp only [AsyncChunkWriter.workerLoop] at hpiece ⊢
      rcases @piece_index policy lz4 phase pool.memory with ⟨hindex, _⟩ | ⟨_, _, hadded, _⟩
      · refine h.move hold (by rw [hindex]; exact List.Subset.refl _) ?_ (fun heq => by cases heq)
        cases phase with
        | reserve held =>
            rw [AsyncChunkWriter.piece] at hpiece
            split at hpiece
            · cases hpiece
              exact hshows
            · cases hpiece
        | write held =>
            rw [AsyncChunkWriter.piece] at hpiece
            split at hpiece
            · next _ hwrite =>
                cases hpiece
                exact ⟨hshows, (hshows : held = chunk) ▸ (writeChunk_eq_ok hwrite).1⟩
            · cases hpiece
              trivial
        | publish held =>
            rw [AsyncChunkWriter.piece] at hpiece
            split at hpiece
            · cases hpiece
            · cases hpiece
              trivial
        | undo held e => cases hpiece
      · rw [hadded] at hpiece
        cases hpiece
  | @finish position chunk worker phase result hold hpiece =>
      have hshows := h.shows position chunk _ hold
      simp only [AsyncChunkWriter.workerLoop] at hpiece ⊢
      rcases @piece_index policy lz4 phase pool.memory with ⟨hindex, hfailed⟩ | ⟨held, rfl, hadded, hadd⟩
      · have herror : ∃ detail, result = .error detail := by
          cases result with
          | ok _ => exact absurd hpiece hfailed
          | error detail => exact ⟨detail, rfl⟩
        rcases herror with ⟨detail, rfl⟩
        exact h.move hold (by rw [hindex]; exact List.Subset.refl _) trivial (fun heq => by cases heq)
      · rw [hadded] at hpiece
        cases hpiece
        rcases hshows with ⟨rfl, hprepare⟩
        rcases ChunkIndex.add_eq_ok.mp hadd with ⟨hvalid, hfresh, hapart, hindex⟩
        have hentries : ∀ entry,
            entry ∈ (AsyncChunkWriter.piece policy lz4 (.publish held) pool.memory).1.index.entries ↔
              entry = keyedEntry held ∨ entry ∈ pool.memory.index.entries := by
          intro entry
          rw [hindex]
          exact OrderedMap.mem_emplace hfresh
        refine h.move hold (fun entry hentry => (hentries entry).mpr (.inr hentry)) ?_ ?_
        · refine ⟨hprepare, hvalid, ?_, fun existing hexisting => hapart existing (h.kept hexisting),
            (hentries _).mpr (.inl rfl)⟩
          rw [← Bool.not_eq_true, OrderedMap.contains_eq_true_iff]
          rintro ⟨entry, hentry⟩
          cases hfresh.symm.trans (OrderedMap.contains_eq_true_iff.mpr ⟨entry, h.kept hentry⟩)
        · intro _ other _ chunk' hother
          exact hapart (keyedEntry chunk') (h.shows other chunk' _ hother).2.2.2.2

/-- If everything has been stored, everything was acceptable. -/
theorem HasStored.isAccepted (h : HasStored policy lz4 base pool)
    (hall : ∀ (position : ℕ) (chunk : Chunk), (pool.jobs.map Prod.fst)[position]? = some chunk →
      pool.jobs[position]? = some (chunk, .finished (.ok ()))) :
    IsAccepted policy lz4 base (pool.jobs.map Prod.fst) := by
  have hshows : ∀ chunk ∈ pool.jobs.map Prod.fst,
      Shows policy lz4 base pool.memory.index chunk
        (.finished (.ok ()) : JobPlace writers StorePhase WriteResult) := by
    intro chunk hmem
    rcases List.getElem?_of_mem hmem with ⟨position, hposition⟩
    exact h.shows position chunk _ (hall position chunk hposition)
  have hapart : (pool.jobs.map Prod.fst).Pairwise AreApart := by
    rw [List.pairwise_iff_getElem]
    intro left right hleft hright hlt
    exact h.apart left right _ _ hlt.ne (hall left _ (List.getElem?_eq_getElem hleft))
      (hall right _ (List.getElem?_eq_getElem hright))
  constructor
  · exact fun chunk hmem => (hshows chunk hmem).1
  · exact fun chunk hmem => (hshows chunk hmem).2.1
  · exact fun chunk hmem => (hshows chunk hmem).2.2.1
  · exact fun chunk hmem => (hshows chunk hmem).2.2.2.1
  · exact hapart
  · have hnodup : (base.index.entries ++ (pool.jobs.map Prod.fst).map keyedEntry).Nodup := by
      rw [List.nodup_append]
      refine ⟨base.index.sorted.imp fun hlt heq => hlt.ne (congrArg Prod.fst heq), ?_, ?_⟩
      · refine List.pairwise_map.mpr (hapart.imp_of_mem fun {chunk other} hmem _ hne heq => ?_)
        have hidentity : chunk.metadata.identity = other.metadata.identity := congrArg Prod.fst heq
        have hself : overlaps chunk.metadata.identity chunk.metadata.identity = true :=
          ChunkIndex.overlaps_self (hshows chunk hmem).2.1.identity
        rw [AreApart, ← hidentity, hself] at hne
        cases hne
      · intro entry hbase other hother heq
        rcases List.mem_map.mp hother with ⟨chunk, hmem, rfl⟩
        have hcontains := OrderedMap.contains_eq_true_iff.mpr ⟨_, heq ▸ hbase⟩
        cases (hshows chunk hmem).2.2.1.symm.trans hcontains
    have hsubset : base.index.entries ++ (pool.jobs.map Prod.fst).map keyedEntry ⊆
        pool.memory.index.entries := by
      intro entry hentry
      rcases List.mem_append.mp hentry with hbase | hmap
      · exact h.kept hbase
      · rcases List.mem_map.mp hmap with ⟨chunk, hmem, rfl⟩
        exact (hshows chunk hmem).2.2.2.2
    have hlength := (hnodup.subperm hsubset).length_le
    rw [List.length_append, List.length_map] at hlength
    exact hlength.trans pool.memory.limits.count_le
  · intro chunk hmem
    exact pool.memory.limits.filename_le (keyedEntry chunk) (hshows chunk hmem).2.2.2.2

/-! ## A whole spill -/

/-- What holds of the threads of a spill at any time. -/
structure IsSpill (policy : StoragePolicy) (memoryBudgetBytes : UInt64) (lz4 : Lz4)
    (computation : ComputationIdentity) (level : UInt32) (memory : CoordinatorMemory)
    (base : StorageManager)
    (pool : Pool writers StorageManager Chunk StorePhase WriteResult CoordinatorEnd) : Prop where
  follows : pool.Follows (asyncSpill policy memoryBudgetBytes lz4 computation level memory)
  settling : pool.IsSettling True
  stored : HasStored policy lz4 base pool
  accepted : IsAccepted policy lz4 base
      (plannedSpill policy memoryBudgetBytes lz4 computation level memory).1 →
    ∃ stage, StoresOnPool policy lz4 base
      (plannedSpill policy memoryBudgetBytes lz4 computation level memory).1 stage pool

theorem isSpill_start (hidle : base.inFlightStores = ∅) (level : UInt32)
    (memory : CoordinatorMemory) :
    IsSpill policy memoryBudgetBytes lz4 computation level memory base
      (.start writers base (asyncSpill policy memoryBudgetBytes lz4 computation level memory)) where
  follows := Pool.follows_start _ _
  settling := (asyncSpill_settles level memory).mono fun _ h => h.elim
  stored := ⟨List.Subset.refl _, (fun _ _ _ h => nomatch h), fun _ _ _ _ _ h => nomatch h⟩
  accepted _ :=
    ⟨fun _ => .waiting, isStoring_start hidle, (fun _ _ _ h => nomatch h), fun _ _ => rfl⟩

theorem IsSpill.step
    (h : IsSpill policy memoryBudgetBytes lz4 computation level memory base pool)
    (hstep : pool.Step (AsyncChunkWriter.workerLoop policy lz4) capacity pool') :
    IsSpill policy memoryBudgetBytes lz4 computation level memory base pool' where
  follows := hstep.follows h.follows
  settling := hstep.isSettling h.settling
  stored := h.stored.step hstep
  accepted haccepted := by
    rcases h.accepted haccepted with ⟨stage, hstores⟩
    have hjobs := (h.follows allStored hstores.explains).1
    rw [jobs_asyncSpill] at hjobs
    exact hstores.step haccepted hjobs hstep

/-- A spill whose chunks the manager accepts ends as planned, with all of them stored, and one whose
chunks it does not accept throws. -/
theorem IsSpill.ends (hidle : base.inFlightStores = ∅)
    (h : IsSpill policy memoryBudgetBytes lz4 computation level memory base pool)
    {result : CoordinatorEnd} (hdone : pool.caller = .done result) :
    match storeAll policy lz4
        (plannedSpill policy memoryBudgetBytes lz4 computation level memory).1 base with
    | .ok _ manager => pool.memory = manager ∧
        result = (plannedSpill policy memoryBudgetBytes lz4 computation level memory).2
    | .error _ _ => ∃ e memory', result = .error e memory' := by
  have hfinished {position : ℕ} (hlt : position < pool.jobs.length) : pool.HasFinished position :=
    h.settling.hasFinished trivial ⟨result, hdone⟩ hlt
  cases hall : storeAll policy lz4
      (plannedSpill policy memoryBudgetBytes lz4 computation level memory).1 base with
  | ok _ manager =>
      have haccepted := isAccepted_of_storeAll hall
      rcases h.accepted haccepted with ⟨stage, hstores⟩
      rcases h.follows allStored hstores.explains with ⟨hjobs, hvalue⟩
      rw [hdone, jobs_asyncSpill] at hjobs
      rw [hdone, (asyncSpill_stored level memory).2] at hvalue
      have hstored : ∀ chunk ∈ (plannedSpill policy memoryBudgetBytes lz4 computation level memory).1,
          stage chunk = .stored := by
        intro chunk hmem
        rw [← hjobs, Caller.jobs, List.append_nil, List.mem_map] at hmem
        rcases hmem with ⟨⟨_, place⟩, hmem, rfl⟩
        rcases List.getElem?_of_mem hmem with ⟨position, hposition⟩
        rcases hfinished (List.getElem?_eq_some_iff.mp hposition).1 with ⟨chunk', result', hplace⟩
        rw [hplace] at hposition
        cases hposition
        exact (hstores.fits position _ _ hplace).2
      rcases haccepted.storeAll hidle with ⟨manager', stage', hall', hstoring, hstored'⟩
      rw [hall] at hall'
      cases hall'
      exact ⟨hstores.storing.eq_of_stored hstoring hstored hstored', hvalue⟩
  | error e manager =>
      cases result with
      | error e' memory' => exact ⟨e', memory', rfl⟩
      | ok _ memory' =>
          -- otherwise everything has been stored, and would be stored one after the other
          have : Inhabited WriteResult := ⟨.ok ()⟩
          rcases pool.exists_explains with ⟨results, hresults⟩
          rcases h.follows results hresults with ⟨hjobs, hvalue⟩
          rw [hdone, jobs_asyncSpill, Caller.jobs, List.append_nil] at hjobs
          rw [hdone] at hvalue
          have hok := asyncSpill_returns hvalue.symm
          have haccepted : IsAccepted policy lz4 base (pool.jobs.map Prod.fst) := by
            refine h.stored.isAccepted fun position chunk hposition => ?_
            have hlt := (List.getElem?_eq_some_iff.mp hposition).1
            rcases hfinished (by simpa using hlt) with ⟨chunk', result', hplace⟩
            have hresult := hok position (by rwa [hjobs] at hlt)
            rw [hresults position chunk' result' hplace] at hresult
            rw [List.getElem?_map, hplace] at hposition
            cases hposition
            rw [hplace, hresult]
          rw [hjobs] at haccepted
          rcases haccepted.storeAll hidle with ⟨manager', _, hall', _⟩
          cases hall.symm.trans hall'

end Workers

end GiveMePi.Storage.StorageMergeCoordinator
