import GiveMePi.Storage.SpillLoops

/-! # The loops of a preparation

A preparation with a reader restores the nodes that one without a reader restores: as long as every
chunk is found, the loads of a level do not depend on each other, and loads leave the manager alone. -/

namespace GiveMePi.Storage.StorageMergeCoordinator

open Binary (BinaryNode)
open Checkpoint (ComputationIdentity)
open CoordinatorMemory MergeMemory StorageManager
open Library (Caller JobPlace Pool)
open Library.Program

variable {policy : StoragePolicy} {lz4 : Lz4} {level : UInt32} {manager : StorageManager}
  {memory : CoordinatorMemory} {index other : ℕ}

/-! ## Loads on their own -/

/-- The end of a load of the given manager. -/
def fetched (policy : StoragePolicy) (lz4 : Lz4) (manager : StorageManager)
    (identity : ChunkIdentity) : ReadResult :=
  match load policy lz4 identity manager with
  | .ok (some chunk) _ => .ok chunk
  | .ok none _ => AsyncChunkReader.notFound
  | .error e _ => .error e.what

/-- The identity a node is loaded by, if it is to be loaded. -/
def loadIdentity (level : UInt32) (record : ResidentMergeNode) : Option ChunkIdentity :=
  if record.level ≠ level ∨ record.lifecycle.state ≠ .stored then none else some record.identity

/-- What becomes of a record when the preparation comes to its node. -/
def beginRecord (level : UInt32) (record : ResidentMergeNode) : ResidentMergeNode :=
  if record.level ≠ level ∨ record.lifecycle.state ≠ .stored then { record with mergeDistance := 0 }
  else { record with
    mergeDistance := 0
    lifecycle := { record.lifecycle with state := .loading } }

theorem beginLoad_eq (level : UInt32) (index : ℕ) (memory : CoordinatorMemory) :
    beginLoad level index memory =
      .ok (memory.residentNodes[index]?.bind (loadIdentity level))
        (memory.updateRecord index (beginRecord level)) := by
  obtain ⟨marked, hmarked⟩ : ∃ marked, marked = memory.updateRecord index fun record =>
    { record with mergeDistance := 0 } := ⟨_, rfl⟩
  have hget : marked.residentNodes[index]? = (memory.residentNodes[index]?).map fun record =>
      { record with mergeDistance := 0 } := by
    rw [hmarked, getElem?_updateRecord]
    simp
  simp only [beginLoad, modify_bind, get_bind, ← hmarked, hget]
  have hsame (update : ResidentMergeNode → ResidentMergeNode)
      (h : ∀ record, memory.residentNodes[index]? = some record →
        update { record with mergeDistance := 0 } = beginRecord level record) :
      marked.updateRecord index update = memory.updateRecord index (beginRecord level) := by
    rw [hmarked]
    simp only [updateRecord, CoordinatorMemory.mk.injEq, true_and, and_true]
    apply List.ext_getElem?
    intro k
    simp only [List.getElem?_modify, Option.map_eq_map, Option.map_map]
    by_cases hk : index = k
    · subst hk
      cases hrecord : memory.residentNodes[index]? with
      | none => rfl
      | some record => simp [h record hrecord]
    · simp [hk, Function.comp_def]
  have hkeep (h : ∀ record, memory.residentNodes[index]? = some record →
      { record with mergeDistance := 0 } = beginRecord level record) :
      marked = memory.updateRecord index (beginRecord level) := by
    rw [← hsame id h]
    simp [updateRecord]
  cases hrecord : memory.residentNodes[index]? with
  | none =>
      simp only [Option.map_none, Option.bind_none, pure_apply]
      rw [hkeep (by simp [hrecord])]
  | some record =>
      simp only [Option.map_some, Option.bind_some, loadIdentity]
      by_cases hskip : record.level ≠ level ∨ record.lifecycle.state ≠ .stored
      · rw [if_pos hskip, if_pos hskip, pure_apply, hkeep]
        intro record' hrecord'
        rw [hrecord] at hrecord'
        cases hrecord'
        rw [beginRecord, if_pos hskip]
      · have hstate : record.lifecycle.state = .stored := not_not.mp (not_or.mp hskip).2
        rw [if_neg hskip, if_neg hskip]
        simp only [NodeLifecycle.beginLoad, NodeLifecycle.advance, hstate, if_true, set_bind,
          pure_apply, setLifecycle]
        rw [hsame]
        intro record' hrecord'
        rw [hrecord] at hrecord'
        cases hrecord'
        rw [beginRecord, if_neg hskip]

/-- The values of a chunk are put back, and its load is complete. -/
def finishLoad (index : ℕ) (chunk : Chunk) (memory : CoordinatorMemory) : CoordinatorMemory :=
  { memory.updateRecord index fun record =>
      { record with lifecycle := { record.lifecycle with state := .resident } } with
    nodes := memory.nodes.modify index fun node => { node with p := chunk.p, q := chunk.q, t := chunk.t }
    reloadCount := memory.reloadCount + 1 }

/-- A load that ends. -/
theorem restoreNode_completeLoad {chunk : Chunk} {record : ResidentMergeNode}
    (hvalid : chunk.metadata.IsValid) (hrecord : memory.residentNodes[index]? = some record)
    (hstate : record.lifecycle.state = .loading) :
    (do restoreNode index chunk; completeLoad index : Action CoordinatorMemory Unit) memory =
      .ok () (finishLoad index chunk memory) := by
  have hrestored : BinaryNodeChunkAdapter.toBinaryNode chunk = .ok
      ⟨chunk.metadata.identity.location.start, chunk.metadata.identity.location.stop, chunk.p,
        chunk.q, chunk.t⟩ := by
    have hvalidate : chunk.metadata.validate = .ok () := ChunkMetadata.validate_eq_ok.mpr hvalid
    rw [BinaryNodeChunkAdapter.toBinaryNode, hvalidate]
    rfl
  simp only [restoreNode, hrestored, Action.liftM_eq, Action.ofExcept_ok, pure_bind, modify_bind,
    completeLoad, get_bind, hrecord, Option.bind_some, NodeLifecycle.completeLoad,
    NodeLifecycle.advance, hstate, if_true, set_apply]
  congr 1
  simp only [finishLoad, setLifecycle, updateRecord, CoordinatorMemory.mk.injEq, true_and, and_true]
  apply List.ext_getElem?
  intro k
  simp only [List.getElem?_modify, Option.map_eq_map]
  by_cases hk : index = k
  · subst hk
    simp [hrecord]
  · simp [hk]

theorem getElem?_finishLoad (hne : index ≠ other) (chunk : Chunk) (memory : CoordinatorMemory) :
    (finishLoad index chunk memory).residentNodes[other]? = memory.residentNodes[other]? :=
  getElem?_updateRecord_of_ne hne _ _

theorem updateRecord_finishLoad (hne : index ≠ other) (chunk : Chunk) (memory : CoordinatorMemory)
    (update : ResidentMergeNode → ResidentMergeNode) :
    (finishLoad index chunk memory).updateRecord other update =
      finishLoad index chunk (memory.updateRecord other update) := by
  have hcomm := updateRecord_comm hne memory (fun record =>
    { record with lifecycle := { record.lifecycle with state := .resident } }) update
  simp only [finishLoad, updateRecord, CoordinatorMemory.mk.injEq, true_and, and_true] at hcomm ⊢
  exact hcomm

/-! ## The loop without a reader -/

/-- One node, with what the manager holds for it. -/
def reloadNode (policy : StoragePolicy) (lz4 : Lz4) (manager : StorageManager) (level : UInt32)
    (memory : CoordinatorMemory) (index : ℕ) : CoordinatorMemory :=
  match (memory.residentNodes[index]?.bind (loadIdentity level)).map
      (fetched policy lz4 manager) with
  | some (.ok chunk) => finishLoad index chunk (memory.updateRecord index (beginRecord level))
  | _ => memory.updateRecord index (beginRecord level)

/-- Every node of the level that is to be loaded is found. -/
def AreLoadable (policy : StoragePolicy) (lz4 : Lz4) (manager : StorageManager) (level : UInt32)
    (indices : List ℕ) (memory : CoordinatorMemory) : Prop :=
  ∀ index ∈ indices, ∀ identity,
    memory.residentNodes[index]?.bind (loadIdentity level) = some identity →
      ∃ chunk, load policy lz4 identity manager = .ok (some chunk) manager ∧ chunk.metadata.IsValid

theorem fetched_eq {identity : ChunkIdentity} {chunk : Chunk} {manager' : StorageManager}
    (h : load policy lz4 identity manager = .ok (some chunk) manager') :
    fetched policy lz4 manager identity = .ok chunk := by
  rw [fetched, h]

/-- A node that is to be loaded is loading. -/
theorem state_beginRecord {record : ResidentMergeNode} {identity : ChunkIdentity}
    (h : loadIdentity level record = some identity) :
    (beginRecord level record).lifecycle.state = .loading := by
  rw [loadIdentity] at h
  rw [beginRecord]
  split at h
  · cases h
  · next hskip => rw [if_neg hskip]

theorem getElem?_reloadNode (hne : index ≠ other) (memory : CoordinatorMemory) :
    (reloadNode policy lz4 manager level memory index).residentNodes[other]? =
      memory.residentNodes[other]? := by
  rw [reloadNode]
  split
  · rw [getElem?_finishLoad hne, getElem?_updateRecord_of_ne hne]
  · rw [getElem?_updateRecord_of_ne hne]

theorem prepareNode_eq (hloadable : AreLoadable policy lz4 manager level [index] memory) :
    prepareNode policy lz4 level index ⟨memory, manager⟩ =
      .ok () ⟨reloadNode policy lz4 manager level memory index, manager⟩ := by
  have hbegin : onCoordinator (beginLoad level index) ⟨memory, manager⟩ =
      .ok (memory.residentNodes[index]?.bind (loadIdentity level))
        ⟨memory.updateRecord index (beginRecord level), manager⟩ := by
    simp only [onCoordinator, beginLoad_eq]
  rw [prepareNode, bind_of_ok hbegin]
  cases hidentity : memory.residentNodes[index]?.bind (loadIdentity level) with
  | none =>
      simp only [reloadNode, hidentity, Option.map_none]
      rfl
  | some identity =>
      rcases hloadable index (List.mem_singleton_self index) identity hidentity with
        ⟨chunk, hload, hvalid⟩
      rcases Option.bind_eq_some_iff.mp hidentity with ⟨record, hrecord, hrecordIdentity⟩
      have hloading : (memory.updateRecord index (beginRecord level)).residentNodes[index]? =
          some (beginRecord level record) := by
        rw [getElem?_updateRecord, hrecord]
        simp
      have hfinish := restoreNode_completeLoad hvalid hloading (state_beginRecord hrecordIdentity)
      have hloaded : onManager (load policy lz4 identity)
          ⟨memory.updateRecord index (beginRecord level), manager⟩ =
            .ok (some chunk)
              (⟨memory.updateRecord index (beginRecord level), manager⟩ : MergeMemory) := by
        simp only [onManager, hload]
      simp only [reloadNode, hidentity, Option.map_some, fetched_eq hload, Action.attempt,
        bind_of_ok hloaded, onCoordinator, hfinish]

/-- The loop without a reader. -/
theorem forM_prepareNode {indices : List ℕ} (hnodup : indices.Nodup)
    (hloadable : AreLoadable policy lz4 manager level indices memory) :
    indices.forM (prepareNode policy lz4 level) ⟨memory, manager⟩ =
      .ok () ⟨indices.foldl (reloadNode policy lz4 manager level) memory, manager⟩ := by
  induction indices generalizing memory with
  | nil => rfl
  | cons index rest ih =>
      rcases List.nodup_cons.mp hnodup with ⟨hfresh, hnodup⟩
      have hfirst : AreLoadable policy lz4 manager level [index] memory := fun other hmem =>
        hloadable other (List.mem_singleton.mp hmem ▸ List.mem_cons_self)
      have hrest : AreLoadable policy lz4 manager level rest
          (reloadNode policy lz4 manager level memory index) := by
        intro other hmem identity hidentity
        have hne : index ≠ other := fun heq => hfresh (heq ▸ hmem)
        rw [getElem?_reloadNode hne] at hidentity
        exact hloadable other (List.mem_cons_of_mem _ hmem) identity hidentity
      rw [forM_cons, bind_of_ok (prepareNode_eq hfirst), List.foldl_cons]
      exact ih hnodup hrest

/-- A preparation without a reader. -/
theorem prepareMergeNodes_eq
    (hloadable : AreLoadable policy lz4 manager level (List.range memory.nodes.length) memory) :
    prepareMergeNodes policy lz4 level ⟨memory, manager⟩ =
      match checkPrepare memory with
      | .error e => .error e ⟨memory, manager⟩
      | .ok _ => .ok () ⟨(List.range memory.nodes.length).foldl
          (reloadNode policy lz4 manager level) memory, manager⟩ := by
  simp only [prepareMergeNodes, get_bind]
  cases checkPrepare memory with
  | error e => rfl
  | ok _ =>
      simp only [Action.liftM_eq, Action.ofExcept_ok, pure_bind]
      exact forM_prepareNode List.nodup_range hloadable

/-! ## The loop with a reader -/

section Reader

variable {results : ℕ → ReadResult} {pending : List PendingRead} {indices : List ℕ}

/-- The pending loads come to their ends. -/
def completeReads (results : ℕ → ReadResult) (pending : List PendingRead)
    (memory : CoordinatorMemory) : CoordinatorMemory :=
  pending.foldl (fun memory read =>
    match results read.position with
    | .ok chunk => finishLoad read.index chunk memory
    | .error _ => memory) memory

/-- The nodes are loading, none of them twice, and their chunks are found. -/
structure AreLoading (results : ℕ → ReadResult) (pending : List PendingRead)
    (memory : CoordinatorMemory) : Prop where
  loading : ∀ read ∈ pending, ∃ record, memory.residentNodes[read.index]? = some record ∧
    record.lifecycle.state = .loading
  found : ∀ read ∈ pending, ∃ chunk, results read.position = .ok chunk ∧ chunk.metadata.IsValid
  apart : pending.Pairwise fun read other => read.index ≠ other.index

theorem collectReads_loaded (h : AreLoading results pending memory) :
    (collectReads policy manager pending memory).value results =
      .ok () (completeReads results pending memory) := by
  induction pending generalizing memory with
  | nil => rfl
  | cons read rest ih =>
      rcases h.loading read List.mem_cons_self with ⟨record, hrecord, hstate⟩
      rcases h.found read List.mem_cons_self with ⟨chunk, hresult, hvalid⟩
      rcases List.pairwise_cons.mp h.apart with ⟨hne, hapart⟩
      have hfinish := restoreNode_completeLoad hvalid hrecord hstate
      have hrest : AreLoading results rest (finishLoad read.index chunk memory) := by
        refine ⟨fun other hmem => ?_, fun other hmem => h.found other (List.mem_cons_of_mem _ hmem),
          hapart⟩
        rw [getElem?_finishLoad (hne other hmem)]
        exact h.loading other (List.mem_cons_of_mem _ hmem)
      simp only [collectReads, Caller.value, hresult, hfinish, completeReads, List.foldl_cons]
      exact ih hrest

theorem completeReads_frame {index : ℕ} (hfresh : ∀ read ∈ pending, read.index ≠ index)
    (memory : CoordinatorMemory) (update : ResidentMergeNode → ResidentMergeNode) :
    (completeReads results pending memory).residentNodes[index]? = memory.residentNodes[index]? ∧
      (completeReads results pending memory).updateRecord index update =
        completeReads results pending (memory.updateRecord index update) := by
  induction pending generalizing memory with
  | nil => exact ⟨rfl, rfl⟩
  | cons read rest ih =>
      rcases List.forall_mem_cons.mp hfresh with ⟨hread, hrest⟩
      simp only [completeReads, List.foldl_cons]
      cases results read.position with
      | error detail => exact ih hrest memory
      | ok chunk =>
          have h := ih hrest (finishLoad read.index chunk memory)
          rw [getElem?_finishLoad hread, updateRecord_finishLoad hread] at h
          exact h

/-- The loop with a reader ends like the one without. What has been submitted is as good as loaded. -/
theorem submitReads_loaded (hloading : AreLoading results pending memory)
    (hfresh : ∀ read ∈ pending, read.index ∉ indices) (hnodup : indices.Nodup)
    (hloadable : AreLoadable policy lz4 manager level indices memory)
    (hresults : ∀ k identity,
      ((submitReads policy manager level indices pending memory).jobs results)[k]? = some identity →
        results (pending.length + k) = fetched policy lz4 manager identity) :
    (submitReads policy manager level indices pending memory).value results =
      .ok () (indices.foldl (reloadNode policy lz4 manager level)
        (completeReads results pending memory)) := by
  induction indices generalizing pending memory with
  | nil => exact collectReads_loaded hloading
  | cons index rest ih =>
      rcases List.nodup_cons.mp hnodup with ⟨hindex, hnodup⟩
      have hne : ∀ read ∈ pending, read.index ≠ index := fun read hmem heq =>
        hfresh read hmem (heq ▸ List.mem_cons_self)
      have hfresh' : ∀ read ∈ pending, read.index ∉ rest := fun read hmem hrest =>
        hfresh read hmem (List.mem_cons_of_mem _ hrest)
      rcases @completeReads_frame results pending index hne memory (beginRecord level) with
        ⟨hsame, hupdate⟩
      have hkept : ∀ other, index ≠ other →
          (memory.updateRecord index (beginRecord level)).residentNodes[other]? =
            memory.residentNodes[other]? := fun other hother =>
        getElem?_updateRecord_of_ne hother _ _
      have hrest : AreLoadable policy lz4 manager level rest
          (memory.updateRecord index (beginRecord level)) := by
        intro other hmem identity hidentity
        rw [hkept other fun heq => hindex (heq ▸ hmem)] at hidentity
        exact hloadable other (List.mem_cons_of_mem _ hmem) identity hidentity
      have hstill : ∀ read ∈ pending, ∃ record,
          (memory.updateRecord index (beginRecord level)).residentNodes[read.index]? = some record ∧
            record.lifecycle.state = .loading := by
        intro read hmem
        rw [hkept read.index (hne read hmem).symm]
        exact hloading.loading read hmem
      simp only [submitReads, beginLoad_eq, List.foldl_cons, reloadNode, hsame, hupdate]
        at hresults ⊢
      cases hidentity : memory.residentNodes[index]?.bind (loadIdentity level) with
      | none =>
          rw [hidentity] at hresults
          exact ih ⟨hstill, hloading.found, hloading.apart⟩ hfresh' hnodup hrest hresults
      | some identity =>
          rw [hidentity] at hresults
          rcases hloadable index List.mem_cons_self identity hidentity with ⟨chunk, hload, hvalid⟩
          have hchunk : results pending.length = .ok chunk := by
            rw [← fetched_eq hload]
            exact hresults 0 identity rfl
          rcases Option.bind_eq_some_iff.mp hidentity with ⟨record, hrecord, hrecordIdentity⟩
          have hnew : (memory.updateRecord index (beginRecord level)).residentNodes[index]? =
              some (beginRecord level record) := by
            rw [getElem?_updateRecord, hrecord]
            simp
          have hnext : AreLoading results (pending ++ [⟨index, pending.length⟩])
              (memory.updateRecord index (beginRecord level)) := by
            constructor
            · rw [List.forall_mem_append, List.forall_mem_singleton]
              exact ⟨hstill, _, hnew, state_beginRecord hrecordIdentity⟩
            · rw [List.forall_mem_append, List.forall_mem_singleton]
              exact ⟨hloading.found, chunk, hchunk, hvalid⟩
            · rw [List.pairwise_append]
              refine ⟨hloading.apart, List.pairwise_singleton _ _, fun read hmem last hlast => ?_⟩
              rw [List.mem_singleton.mp hlast]
              exact hne read hmem
          have hnextFresh : ∀ read ∈ pending ++ [⟨index, pending.length⟩], read.index ∉ rest := by
            rw [List.forall_mem_append, List.forall_mem_singleton]
            exact ⟨hfresh', hindex⟩
          have hvalue := ih hnext hnextFresh hnodup hrest fun k identity' hk => by
            rw [List.length_append, List.length_singleton, Nat.add_assoc, Nat.add_comm 1]
            exact hresults (k + 1) identity' hk
          simp only [completeReads, List.foldl_append, List.foldl_cons, List.foldl_nil, hchunk]
            at hvalue
          simp only [Option.map_some, fetched_eq hload, Caller.value]
          exact hvalue

end Reader

/-! ## The workers of a preparation -/

section Workers

variable {readers capacity : ℕ}
  {pool pool' : Pool readers StorageManager ChunkIdentity LoadPhase ReadResult CoordinatorEnd}
  {pending : List PendingRead} {submitted : ℕ} {awaited : ℕ → Prop}

theorem collectReads_settles (hlt : ∀ read ∈ pending, read.position < submitted) :
    (collectReads policy manager pending memory).Settles False submitted awaited := by
  induction pending generalizing memory awaited with
  | nil => exact fun h => h.elim
  | cons read rest ih =>
      rcases List.forall_mem_cons.mp hlt with ⟨hread, hrest⟩
      refine ⟨hread, fun result => ?_⟩
      cases result with
      | error detail => exact fun h => h.elim
      | ok chunk =>
          dsimp only
          split
          · exact ih hrest
          · exact fun h => h.elim

theorem submitReads_settles {indices : List ℕ} (hlt : ∀ read ∈ pending, read.position < pending.length) :
    (submitReads policy manager level indices pending memory).Settles False pending.length awaited := by
  induction indices generalizing pending memory with
  | nil => exact collectReads_settles hlt
  | cons index rest ih =>
      simp only [submitReads, beginLoad_eq]
      cases memory.residentNodes[index]?.bind (loadIdentity level) with
      | none => exact ih hlt
      | some identity =>
          have hnext := @ih (memory.updateRecord index (beginRecord level))
            (pending ++ [⟨index, pending.length⟩])
          rw [List.forall_mem_append, List.forall_mem_singleton, List.length_append,
            List.length_singleton] at hnext
          exact hnext ⟨fun read hmem => Nat.lt_succ_of_lt (hlt read hmem), Nat.lt_succ_self _⟩

theorem asyncPrepare_settles (manager : StorageManager) (level : UInt32)
    (memory : CoordinatorMemory) :
    (asyncPrepare policy manager level memory).Settles False 0 fun _ => False := by
  rw [asyncPrepare]
  split
  · exact fun h => h.elim
  · exact @submitReads_settles policy level manager memory [] _ _ (by simp)

/-- What the place of an identity says about it. -/
def ShowsLoad (policy : StoragePolicy) (lz4 : Lz4) (manager : StorageManager)
    (identity : ChunkIdentity) : JobPlace readers LoadPhase ReadResult → Prop
  | .queued => True
  | .held _ (.lookup held) => held = identity
  | .held _ (.read held entry) => held = identity ∧ manager.index.find? identity = some entry
  | .finished result => result = fetched policy lz4 manager identity

/-- What holds of the threads of a preparation at any time. -/
structure IsPreparation (policy : StoragePolicy) (lz4 : Lz4) (manager : StorageManager)
    (level : UInt32) (memory : CoordinatorMemory)
    (pool : Pool readers StorageManager ChunkIdentity LoadPhase ReadResult CoordinatorEnd) :
    Prop where
  follows : pool.Follows (asyncPrepare policy manager level memory)
  settling : pool.IsSettling False
  same : pool.memory = manager
  shows : ∀ (position : ℕ) (identity : ChunkIdentity) (place : JobPlace readers LoadPhase ReadResult),
    pool.jobs[position]? = some (identity, place) → ShowsLoad policy lz4 manager identity place

theorem isPreparation_start (manager : StorageManager) (level : UInt32)
    (memory : CoordinatorMemory) :
    IsPreparation policy lz4 manager level memory
      (.start readers manager (asyncPrepare policy manager level memory)) where
  follows := Pool.follows_start _ _
  settling := (asyncPrepare_settles manager level memory).mono fun _ h => h.elim
  same := rfl
  shows _ _ _ h := nomatch h

/-- A section of a load: it leaves the manager alone, and what it finds is what is there. -/
theorem piece_load {identity : ChunkIdentity} {worker : Fin readers} {phase : LoadPhase}
    (h : ShowsLoad policy lz4 manager identity (.held worker phase)) :
    (AsyncChunkReader.piece policy lz4 phase manager).1 = manager ∧
      match (AsyncChunkReader.piece policy lz4 phase manager).2 with
      | .inl phase' => ShowsLoad policy lz4 manager identity (.held worker phase')
      | .inr result => result = fetched policy lz4 manager identity := by
  cases phase with
  | lookup held =>
      obtain rfl : held = identity := h
      rw [AsyncChunkReader.piece, fetched]
      simp only [load, get_bind]
      cases hentry : manager.index.find? held with
      | none => exact ⟨rfl, rfl⟩
      | some entry => exact ⟨rfl, rfl, hentry⟩
  | read held entry =>
      rcases h with ⟨rfl, hentry⟩
      rw [AsyncChunkReader.piece, fetched]
      simp only [load, get_bind, hentry]
      cases hfile : manager.chunkFile? policy entry with
      | none => exact ⟨rfl, rfl⟩
      | some content =>
          simp only [Action.liftM_eq]
          cases StorageSystem.checkLoaded policy lz4 held entry content content.length with
          | error e => exact ⟨rfl, rfl⟩
          | ok loaded =>
              cases loaded with
              | none => exact ⟨rfl, rfl⟩
              | some chunk => exact ⟨rfl, rfl⟩

theorem IsPreparation.step (h : IsPreparation policy lz4 manager level memory pool)
    (hstep : pool.Step (AsyncChunkReader.workerLoop policy lz4) capacity pool') :
    IsPreparation policy lz4 manager level memory pool' := by
  refine ⟨hstep.follows h.follows, hstep.isSettling h.settling, ?_, ?_⟩
  · cases hstep with
    | submit _ _ | await _ _ | claim _ _ _ => exact h.same
    | piece hold _ | finish hold _ =>
        have hpiece := (piece_load (h.shows _ _ _ hold)).1
        rw [← h.same] at hpiece
        exact hpiece.trans h.same
  · have hput {position : ℕ} {identity : ChunkIdentity}
        {old place : JobPlace readers LoadPhase ReadResult}
        (hold : pool.jobs[position]? = some (identity, old))
        (hplace : ShowsLoad policy lz4 manager identity place) (other : ℕ)
        (identity' : ChunkIdentity) (place' : JobPlace readers LoadPhase ReadResult)
        (hother : (pool.put position identity place).jobs[other]? = some (identity', place')) :
        ShowsLoad policy lz4 manager identity' place' := by
      rw [Pool.getElem?_put hold] at hother
      split at hother
      · cases hother
        exact hplace
      · exact h.shows other identity' place' hother
    cases hstep with
    | submit _ _ =>
        intro position identity place hjob
        rw [List.getElem?_append] at hjob
        split at hjob
        · exact h.shows position identity place hjob
        · rw [List.getElem?_singleton] at hjob
          split at hjob
          · cases hjob
            trivial
          · cases hjob
    | await _ _ => exact h.shows
    | claim _ hold _ => exact hput hold rfl
    | @piece position identity worker phase phase' hold hpiece =>
        have hload := (piece_load (h.shows _ _ _ hold)).2
        rw [h.same] at hpiece
        simp only [AsyncChunkReader.workerLoop] at hpiece
        rw [hpiece] at hload
        exact hput hold hload
    | @finish position identity worker phase result hold hpiece =>
        have hload := (piece_load (h.shows _ _ _ hold)).2
        rw [h.same] at hpiece
        simp only [AsyncChunkReader.workerLoop] at hpiece
        rw [hpiece] at hload
        exact hput hold hload

/-- A preparation with a reader ends like one without, as long as every chunk is found. -/
theorem IsPreparation.ends (h : IsPreparation policy lz4 manager level memory pool)
    (hloadable : AreLoadable policy lz4 manager level (List.range memory.nodes.length) memory)
    {result : CoordinatorEnd} (hdone : pool.caller = .done result) :
    AsyncMerges.withManager pool.memory result =
      prepareMergeNodes policy lz4 level ⟨memory, manager⟩ := by
  obtain ⟨results, hresults⟩ : ∃ results : ℕ → ReadResult, ∀ position identity,
      (pool.jobs.map Prod.fst)[position]? = some identity →
        results position = fetched policy lz4 manager identity := by
    refine ⟨fun position =>
      match (pool.jobs.map Prod.fst)[position]? with
      | some identity => fetched policy lz4 manager identity
      | none => AsyncChunkReader.notFound, fun position identity hidentity => ?_⟩
    simp only [hidentity]
  have hexplains : pool.Explains results := by
    intro position identity result' hplace
    rw [h.shows position identity _ hplace]
    refine hresults position identity ?_
    rw [List.getElem?_map, hplace]
    rfl
  rcases h.follows results hexplains with ⟨hjobs, hvalue⟩
  rw [hdone, Caller.jobs, List.append_nil] at hjobs
  rw [hdone, Caller.value] at hvalue
  rw [h.same, hvalue, prepareMergeNodes_eq hloadable]
  rw [hjobs] at hresults
  rw [asyncPrepare] at hresults ⊢
  cases hcheck : checkPrepare memory with
  | error e => rfl
  | ok _ =>
      rw [hcheck] at hresults
      have hloaded := @submitReads_loaded policy lz4 level manager memory results [] _
        ⟨by simp, by simp, List.Pairwise.nil⟩ (by simp) List.nodup_range hloadable
        (by simpa using hresults)
      simp only [hloaded]
      rfl

end Workers

end GiveMePi.Storage.StorageMergeCoordinator
