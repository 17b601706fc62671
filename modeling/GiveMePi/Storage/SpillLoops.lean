import GiveMePi.Library.ProgramLogic
import GiveMePi.Storage.AsyncMerges
import GiveMePi.Storage.StoreOrders

/-! # The loops of a spill

A synchronous spill and one with a writer hand the same chunks to the manager, and if none of them is
refused, they leave the same memory: what happens to one node does not touch the others, so that it
may happen now or when all writes have been submitted. -/

namespace GiveMePi.Storage.StorageMergeCoordinator

open Binary (BinaryNode)
open Checkpoint (ComputationIdentity)
open CoordinatorMemory MergeMemory StorageManager AsyncMerges
open Library (Caller)
open Library.Program

variable (policy : StoragePolicy) (memoryBudgetBytes : UInt64) (lz4 : Lz4)
  (computation : ComputationIdentity)

/-! ## A spill without refusals -/

/-- The chunks that the loop over the candidates makes, and how it ends, if all of them are stored. -/
def spilled (level : UInt32) :
    List EvictionCandidate → CoordinatorMemory → List Chunk × CoordinatorEnd
  | [], memory => ([], .ok () memory)
  | candidate :: rest, memory =>
      match spillIndex? memory level candidate with
      | none => spilled level rest memory
      | some index =>
          match beginSpill policy lz4 computation level index memory with
          | .error e memory => ([], .error e memory)
          | .ok chunk memory =>
              let others := spilled level rest
                (completeWrite index chunk.metadata.storedSize memory)
              (chunk :: others.1, others.2)

/-- The end of a spill after its handler. -/
def unwound : CoordinatorEnd → CoordinatorEnd
  | .ok () memory => .ok () memory
  | .error e memory => .error e (failSpills memory)

/-- The chunks of a whole spill, and how it ends, if all of them are stored. -/
def plannedSpill (level : UInt32) (memory : CoordinatorMemory) : List Chunk × CoordinatorEnd :=
  match beginSpills memoryBudgetBytes memory with
  | .error e => ([], .error e memory)
  | .ok none => ([], .ok () memory)
  | .ok (some plan) =>
      let all := spilled policy lz4 computation level plan.candidates memory
      (all.1, unwound all.2)

variable {policy memoryBudgetBytes lz4 computation} {level : UInt32} {memory : CoordinatorMemory}

/-! ## Nodes on their own -/

theorem mapState_ofExcept {σ τ α : Type} (f : σ → τ) (x : Except Error α) (s : σ) :
    mapState f (Action.ofExcept x s) = Action.ofExcept x (f s) := by
  cases x <;> rfl

theorem getElem?_updateRecord (memory : CoordinatorMemory) (index other : ℕ)
    (update : ResidentMergeNode → ResidentMergeNode) :
    (memory.updateRecord index update).residentNodes[other]? =
      (memory.residentNodes[other]?).map fun record =>
        if index = other then update record else record :=
  List.getElem?_modify _ _ _ _

theorem getElem?_updateRecord_of_ne {index other : ℕ} (hne : index ≠ other)
    (memory : CoordinatorMemory) (update : ResidentMergeNode → ResidentMergeNode) :
    (memory.updateRecord index update).residentNodes[other]? = memory.residentNodes[other]? := by
  simp [getElem?_updateRecord, hne]

theorem updateRecord_comm {index other : ℕ} (hne : index ≠ other) (memory : CoordinatorMemory)
    (update update' : ResidentMergeNode → ResidentMergeNode) :
    (memory.updateRecord index update).updateRecord other update' =
      (memory.updateRecord other update').updateRecord index update := by
  simp only [updateRecord, CoordinatorMemory.mk.injEq, true_and, and_true]
  apply List.ext_getElem?
  intro k
  simp only [List.getElem?_modify, Option.map_eq_map, Option.map_map]
  congr 1
  funext record
  by_cases hother : other = k
  · have hindex : index ≠ k := fun heq => hne (heq.trans hother.symm)
    simp [hother, hindex]
  · simp [hother]

/-- How a spill begins, as a function of the node: the next life cycle, if there is one, and the
chunk. -/
def spillStart (policy : StoragePolicy) (lz4 : Lz4) (computation : ComputationIdentity)
    (level : UInt32) :
    Option ResidentMergeNode → Option BinaryNode → Option NodeLifecycle × Except Error Chunk
  | some record, some node =>
      match record.lifecycle.beginSpill with
      | none => (none, .error (.logicError "cannot begin merge node spill"))
      | some lifecycle =>
          (some lifecycle,
            BinaryNodeChunkAdapter.toChunk lz4 node computation level policy.compression)
  | _, _ => (none, .error (.outOfRange "no resident node"))

def moveOn (index : ℕ) (memory : CoordinatorMemory) : Option NodeLifecycle → CoordinatorMemory
  | none => memory
  | some lifecycle => memory.setLifecycle index lifecycle

theorem beginSpill_eq_spillStart (index : ℕ) (memory : CoordinatorMemory) :
    beginSpill policy lz4 computation level index memory =
      Action.ofExcept
        (spillStart policy lz4 computation level memory.residentNodes[index]?
          memory.nodes[index]?).2
        (moveOn index memory (spillStart policy lz4 computation level memory.residentNodes[index]?
          memory.nodes[index]?).1) := by
  simp only [beginSpill, get_bind]
  cases memory.residentNodes[index]? with
  | none => rfl
  | some record =>
      cases memory.nodes[index]? with
      | none => rfl
      | some node =>
          cases hlifecycle : record.lifecycle.beginSpill <;> simp only [spillStart, hlifecycle] <;> rfl

/-- What begins a spill that makes a chunk. -/
theorem beginSpill_eq_ok {index : ℕ} {chunk : Chunk} {memory' : CoordinatorMemory} :
    beginSpill policy lz4 computation level index memory = .ok chunk memory' ↔
      memory' = memory.setLifecycle index ⟨.spilling, none⟩ ∧
        ∃ record node, memory.residentNodes[index]? = some record ∧
          memory.nodes[index]? = some node ∧ record.lifecycle.state = .resident ∧
            BinaryNodeChunkAdapter.toChunk lz4 node computation level policy.compression =
              .ok chunk := by
  simp only [beginSpill, get_bind]
  cases hrecord : memory.residentNodes[index]? with
  | none => simp
  | some record =>
      cases hnode : memory.nodes[index]? with
      | none => simp
      | some node =>
          by_cases hstate : record.lifecycle.state = .resident
          · simp only [NodeLifecycle.beginSpill, NodeLifecycle.advance, hstate, if_true, set_bind,
              Action.liftM_eq, Action.ofExcept_eq_ok, Option.some.injEq, exists_and_left]
            constructor
            · rintro ⟨hchunk, rfl⟩
              exact ⟨rfl, record, rfl, node, rfl, hstate, hchunk⟩
            · rintro ⟨rfl, _, rfl, _, rfl, _, hchunk⟩
              exact ⟨hchunk, rfl⟩
          · simp only [NodeLifecycle.beginSpill, NodeLifecycle.advance, hstate, if_false, throw_apply,
              reduceCtorEq, false_iff, not_and, not_exists]
            rintro _ _ _ ⟨rfl⟩ _ hresident
            exact absurd hresident hstate

/-! ## The loop without a writer -/

/-- A node that is spilling becomes a stored one. -/
theorem completeSpill_releaseNode {index : ℕ} {record : ResidentMergeNode} (storedBytes : UInt64)
    (hrecord : memory.residentNodes[index]? = some record)
    (hlifecycle : record.lifecycle = ⟨.spilling, none⟩) :
    completeSpill index (releaseNode index storedBytes memory) =
      .ok () (completeWrite index storedBytes memory) := by
  have hreleased : (releaseNode index storedBytes memory).residentNodes[index]? = some record :=
    hrecord
  simp only [completeSpill, get_bind, hreleased, Option.bind_some, NodeLifecycle.completeSpill,
    NodeLifecycle.advance, hlifecycle, if_true, set_apply]
  congr 1
  simp only [setLifecycle, updateRecord, completeWrite, CoordinatorMemory.mk.injEq, true_and, and_true]
  apply List.ext_getElem?
  intro k
  simp only [List.getElem?_modify]
  by_cases hk : index = k
  · subst hk
    simp [releaseNode, hrecord, hlifecycle, NodeLifecycle.finishAsyncSpill]
  · simp [hk]

/-- One candidate whose store returns. -/
theorem spillCandidate_stored {candidate : EvictionCandidate} {index : ℕ} {chunk : Chunk}
    {begun : CoordinatorMemory} {manager manager' : StorageManager} {id : Bytes}
    (hindex : spillIndex? memory level candidate = some index)
    (hbegin : beginSpill policy lz4 computation level index memory = .ok chunk begun)
    (hstore : store policy lz4 chunk manager = .ok id manager') :
    spillCandidate policy lz4 computation level candidate ⟨memory, manager⟩ =
      .ok () ⟨completeWrite index chunk.metadata.storedSize begun, manager'⟩ := by
  rcases beginSpill_eq_ok.mp hbegin with ⟨hbegun, record, _, hrecord, _⟩
  have hspilling : begun.residentNodes[index]? =
      some { record with lifecycle := ⟨.spilling, none⟩ } := by
    rw [hbegun, setLifecycle, getElem?_updateRecord, hrecord]
    simp
  have hcomplete := completeSpill_releaseNode chunk.metadata.storedSize hspilling rfl
  have hlifted : onCoordinator (beginSpill policy lz4 computation level index) ⟨memory, manager⟩ =
      .ok chunk ⟨begun, manager⟩ := by
    simp only [onCoordinator, hbegin]
  simp only [spillCandidate, get_bind, hindex, bind_of_ok hlifted, Action.attempt]
  have hstored : onManager (store policy lz4 chunk) ⟨begun, manager⟩ =
      .ok id (⟨begun, manager'⟩ : MergeMemory) := by
    simp only [onManager, hstore]
  have hreleased : onCoordinator (modify (releaseNode index chunk.metadata.storedSize))
      ⟨begun, manager'⟩ =
        .ok ⟨⟩ (⟨releaseNode index chunk.metadata.storedSize begun, manager'⟩ : MergeMemory) := rfl
  simp only [bind_of_ok hstored, bind_of_ok hreleased, onCoordinator, hcomplete]

/-- One candidate whose store is refused. -/
theorem spillCandidate_refused {candidate : EvictionCandidate} {index : ℕ} {chunk : Chunk}
    {begun : CoordinatorMemory} {manager manager' : StorageManager} {e : Error}
    (hindex : spillIndex? memory level candidate = some index)
    (hbegin : beginSpill policy lz4 computation level index memory = .ok chunk begun)
    (hstore : store policy lz4 chunk manager = .error e manager') :
    ∃ memory', spillCandidate policy lz4 computation level candidate ⟨memory, manager⟩ =
      .error e memory' := by
  have hlifted : onCoordinator (beginSpill policy lz4 computation level index) ⟨memory, manager⟩ =
      .ok chunk ⟨begun, manager⟩ := by
    simp only [onCoordinator, hbegin]
  have hrefused : onManager (store policy lz4 chunk) ⟨begun, manager⟩ =
      .error e (⟨begun, manager'⟩ : MergeMemory) := by
    simp only [onManager, hstore]
  refine ⟨⟨begun.updateRecord index fun record => record.update NodeLifecycle.failSpill, manager'⟩,
    ?_⟩
  simp only [spillCandidate, get_bind, hindex, bind_of_ok hlifted, Action.attempt,
    bind_of_error hrefused]
  rfl

/-- The loop without a writer: all chunks are stored and it ends as if nothing could be refused, or
it throws. -/
theorem forM_spillCandidate (candidates : List EvictionCandidate) (memory : CoordinatorMemory)
    (manager : StorageManager) :
    match storeAll policy lz4 (spilled policy lz4 computation level candidates memory).1 manager with
    | .ok _ manager' =>
        candidates.forM (spillCandidate policy lz4 computation level) ⟨memory, manager⟩ =
          withManager manager' (spilled policy lz4 computation level candidates memory).2
    | .error _ _ => ∃ e memory',
        candidates.forM (spillCandidate policy lz4 computation level) ⟨memory, manager⟩ =
          .error e memory' := by
  induction candidates generalizing memory manager with
  | nil => rfl
  | cons candidate rest ih =>
      rw [forM_cons]
      cases hindex : spillIndex? memory level candidate with
      | none =>
          have hskip : spillCandidate policy lz4 computation level candidate ⟨memory, manager⟩ =
              .ok () ⟨memory, manager⟩ := by
            simp only [spillCandidate, get_bind, hindex, pure_apply]
          simp only [spilled, hindex, bind_of_ok hskip]
          exact ih memory manager
      | some index =>
          cases hbegin : beginSpill policy lz4 computation level index memory with
          | error e begun =>
              have hlifted : onCoordinator (beginSpill policy lz4 computation level index)
                  ⟨memory, manager⟩ = .error e ⟨begun, manager⟩ := by
                simp only [onCoordinator, hbegin]
              have hthrow : spillCandidate policy lz4 computation level candidate
                  ⟨memory, manager⟩ = .error e ⟨begun, manager⟩ := by
                simp only [spillCandidate, get_bind, hindex, bind_of_error hlifted]
              simp only [spilled, hindex, hbegin, bind_of_error hthrow]
              rfl
          | ok chunk begun =>
              simp only [spilled, hindex, hbegin, storeAll, forM_cons, bind_assoc, pure_bind]
              cases hstore : store policy lz4 chunk manager with
              | error e manager' =>
                  rcases spillCandidate_refused hindex hbegin hstore with ⟨memory', hthrow⟩
                  simp only [bind_of_error hstore, bind_of_error hthrow]
                  exact ⟨e, memory', rfl⟩
              | ok id manager' =>
                  have hstored := spillCandidate_stored hindex hbegin hstore
                  simp only [bind_of_ok hstore, bind_of_ok hstored]
                  exact ih _ manager'

/-- A spill without a writer. -/
theorem spillAfterMergeLevel_eq_plannedSpill (memory : CoordinatorMemory) (manager : StorageManager) :
    match storeAll policy lz4
        (plannedSpill policy memoryBudgetBytes lz4 computation level memory).1 manager with
    | .ok _ manager' =>
        spillAfterMergeLevel policy memoryBudgetBytes lz4 computation level ⟨memory, manager⟩ =
          withManager manager' (plannedSpill policy memoryBudgetBytes lz4 computation level memory).2
    | .error _ _ => ∃ e memory',
        spillAfterMergeLevel policy memoryBudgetBytes lz4 computation level ⟨memory, manager⟩ =
          .error e memory' := by
  simp only [spillAfterMergeLevel, get_bind, plannedSpill]
  cases beginSpills memoryBudgetBytes memory with
  | error e => rfl
  | ok planned =>
      cases planned with
      | none => rfl
      | some plan =>
          have hloop := @forM_spillCandidate policy lz4 computation level plan.candidates memory manager
          simp only [Action.liftM_eq, Action.ofExcept_ok, pure_bind, Action.attempt]
          cases hall : storeAll policy lz4
              (spilled policy lz4 computation level plan.candidates memory).1 manager with
          | error e manager' =>
              rw [hall] at hloop
              rcases hloop with ⟨e', memory', hloop⟩
              simp only [hloop]
              exact ⟨e', _, rfl⟩
          | ok _ manager' =>
              rw [hall] at hloop
              simp only at hloop
              rw [hloop]
              cases (spilled policy lz4 computation level plan.candidates memory).2 <;> rfl

/-! ## Writes that complete later -/

section Frame

variable {index other : ℕ} {storedBytes : UInt64}

theorem getElem?_completeWrite (hne : index ≠ other) (storedBytes : UInt64)
    (memory : CoordinatorMemory) :
    (completeWrite index storedBytes memory).residentNodes[other]? = memory.residentNodes[other]? ∧
      (completeWrite index storedBytes memory).nodes[other]? = memory.nodes[other]? := by
  constructor
  · rw [completeWrite, getElem?_updateRecord_of_ne hne]
    rfl
  · simp [completeWrite, updateRecord, releaseNode, hne]

theorem isSpilling_completeWrite (hne : index ≠ other) :
    isSpilling (completeWrite index storedBytes memory) other = isSpilling memory other := by
  rw [isSpilling, (getElem?_completeWrite hne storedBytes memory).1, isSpilling]

/-- The life cycle of one node moves on while the values of another one are released. -/
theorem setLifecycle_completeWrite (hne : index ≠ other) (lifecycle : NodeLifecycle) :
    (completeWrite index storedBytes memory).setLifecycle other lifecycle =
      completeWrite index storedBytes (memory.setLifecycle other lifecycle) := by
  rw [completeWrite, setLifecycle, updateRecord_comm hne]
  rfl

theorem beginSpill_completeWrite (hne : index ≠ other) :
    beginSpill policy lz4 computation level other (completeWrite index storedBytes memory) =
      mapState (completeWrite index storedBytes)
        (beginSpill policy lz4 computation level other memory) := by
  rcases getElem?_completeWrite hne storedBytes memory with ⟨hrecords, hnodes⟩
  have hmove : ∀ lifecycle, moveOn other (completeWrite index storedBytes memory) lifecycle =
      completeWrite index storedBytes (moveOn other memory lifecycle) := by
    intro lifecycle
    cases lifecycle with
    | none => rfl
    | some lifecycle => exact setLifecycle_completeWrite hne lifecycle
  rw [beginSpill_eq_spillStart, beginSpill_eq_spillStart, hrecords, hnodes, hmove, mapState_ofExcept]

/-- Whether a candidate stands for a node does not depend on nodes with other names. -/
theorem spillIndex?_completeWrite {candidate : EvictionCandidate}
    (hother : ∀ record, memory.residentNodes[index]? = some record →
      record.chunkId ≠ candidate.chunkId) :
    spillIndex? (completeWrite index storedBytes memory) level candidate =
      spillIndex? memory level candidate := by
  have hlength : (completeWrite index storedBytes memory).residentNodes.length =
      memory.residentNodes.length := List.length_modify _ _ _
  rw [spillIndex?, spillIndex?, hlength]
  congr 1
  funext k
  by_cases hk : index = k
  · subst hk
    have hrecord : (completeWrite index storedBytes memory).residentNodes[index]? =
        (memory.residentNodes[index]?).map fun record =>
          { record with lifecycle := record.lifecycle.finishAsyncSpill (.ok ()) } := by
      rw [completeWrite, getElem?_updateRecord]
      simp [releaseNode]
    have hnode : (completeWrite index storedBytes memory).nodes[index]? =
        (memory.nodes[index]?).map BinaryNode.clearValues := by
      simp [completeWrite, updateRecord, releaseNode]
    rw [hrecord, hnode]
    cases hold : memory.residentNodes[index]? with
    | none => rfl
    | some record =>
        have hne := hother record hold
        cases memory.nodes[index]? <;> simp [hne]
  · rcases getElem?_completeWrite hk storedBytes memory with ⟨hrecords, hnodes⟩
    rw [hrecords, hnodes]

/-- The beginning of a spill leaves the other nodes alone. -/
theorem getElem?_moveOn (hne : index ≠ other) (lifecycle : Option NodeLifecycle) :
    (moveOn index memory lifecycle).residentNodes[other]? = memory.residentNodes[other]? := by
  cases lifecycle with
  | none => rfl
  | some lifecycle => exact getElem?_updateRecord_of_ne hne _ _

theorem getElem?_of_beginSpill_error (hne : index ≠ other) {e : Error} {memory' : CoordinatorMemory}
    (h : beginSpill policy lz4 computation level index memory = .error e memory') :
    memory'.residentNodes[other]? = memory.residentNodes[other]? := by
  rw [beginSpill_eq_spillStart, Action.ofExcept_eq_error] at h
  rw [h.2, getElem?_moveOn hne]

end Frame

/-- All of the writes have been stored. -/
def completeAll (pending : List PendingWrite) (memory : CoordinatorMemory) : CoordinatorMemory :=
  pending.foldl (fun memory write => completeWrite write.index write.storedBytes memory) memory

/-- The nodes of the writes are spilling, and none of them twice. -/
structure IsPending (pending : List PendingWrite) (memory : CoordinatorMemory) : Prop where
  spilling : ∀ write ∈ pending, isSpilling memory write.index = true
  apart : pending.Pairwise fun write other => write.index ≠ other.index

theorem IsPending.complete {write : PendingWrite} {rest : List PendingWrite}
    (h : IsPending (write :: rest) memory) :
    IsPending rest (completeWrite write.index write.storedBytes memory) := by
  rcases List.pairwise_cons.mp h.apart with ⟨hne, hapart⟩
  refine ⟨fun other hmem => ?_, hapart⟩
  rw [isSpilling_completeWrite (hne other hmem)]
  exact h.spilling other (List.mem_cons_of_mem _ hmem)

theorem spillIndex?_completeAll {candidate : EvictionCandidate} {pending : List PendingWrite}
    (hother : ∀ write ∈ pending, ∀ record, memory.residentNodes[write.index]? = some record →
      record.chunkId ≠ candidate.chunkId) (hapart : pending.Pairwise fun w o => w.index ≠ o.index) :
    spillIndex? (completeAll pending memory) level candidate = spillIndex? memory level candidate := by
  induction pending generalizing memory with
  | nil => rfl
  | cons write rest ih =>
      rcases List.pairwise_cons.mp hapart with ⟨hne, hapart⟩
      rcases List.forall_mem_cons.mp hother with ⟨hwrite, hrest⟩
      rw [completeAll, List.foldl_cons, ← completeAll, ih _ hapart, spillIndex?_completeWrite hwrite]
      intro other hmem record hrecord
      rw [(getElem?_completeWrite (hne other hmem) _ _).1] at hrecord
      exact hrest other hmem record hrecord

theorem beginSpill_completeAll {index : ℕ} {pending : List PendingWrite}
    (hne : ∀ write ∈ pending, write.index ≠ index) :
    beginSpill policy lz4 computation level index (completeAll pending memory) =
      mapState (completeAll pending) (beginSpill policy lz4 computation level index memory) := by
  induction pending generalizing memory with
  | nil =>
      change beginSpill policy lz4 computation level index memory = _
      cases beginSpill policy lz4 computation level index memory <;> rfl
  | cons write rest ih =>
      rcases List.forall_mem_cons.mp hne with ⟨hwrite, hrest⟩
      rw [completeAll, List.foldl_cons, ← completeAll, ih hrest, beginSpill_completeWrite hwrite]
      cases beginSpill policy lz4 computation level index memory <;> rfl

/-! ## The loop with a writer -/

/-- Every write has been stored. -/
def allStored : ℕ → WriteResult :=
  fun _ => .ok ()

theorem unwindWrites_stored (e : Error) {pending : List PendingWrite}
    (h : IsPending pending memory) :
    (unwindWrites e pending memory).jobs allStored = [] ∧
      (unwindWrites e pending memory).value allStored =
        .error e (failSpills (completeAll pending memory)) := by
  induction pending generalizing memory with
  | nil => exact ⟨rfl, rfl⟩
  | cons write rest ih =>
      have hspilling := h.spilling write List.mem_cons_self
      simp only [unwindWrites, Caller.jobs, Caller.value, hspilling, if_true, allStored]
      exact ih h.complete

theorem collectWrites_stored (pending rest : List PendingWrite) (memory : CoordinatorMemory) :
    (collectWrites pending rest memory).jobs allStored = [] ∧
      (collectWrites pending rest memory).value allStored = .ok () (completeAll rest memory) := by
  induction rest generalizing memory with
  | nil => exact ⟨rfl, rfl⟩
  | cons write rest ih =>
      simp only [collectWrites, Caller.jobs, Caller.value, allStored]
      exact ih _

/-- The node that a candidate stands for has its name. -/
theorem chunkId_of_spillIndex? {candidate : EvictionCandidate} {index : ℕ}
    (h : spillIndex? memory level candidate = some index) {record : ResidentMergeNode}
    (hrecord : memory.residentNodes[index]? = some record) :
    record.chunkId = candidate.chunkId := by
  have hfound := List.find?_some h
  rw [hrecord] at hfound
  cases hnode : memory.nodes[index]? with
  | none => simp [hnode] at hfound
  | some node =>
      simp only [hnode, Bool.and_eq_true, decide_eq_true_eq] at hfound
      exact hfound.1.1

/-- The loop with a writer hands over the chunks of a loop without one, and ends like it. What has been
submitted is as good as stored. -/
theorem submitWrites_stored {candidates : List EvictionCandidate} {pending : List PendingWrite}
    (hpending : IsPending pending memory)
    (hdistinct : candidates.Pairwise fun candidate other => candidate.chunkId ≠ other.chunkId)
    (hother : ∀ candidate ∈ candidates, ∀ write ∈ pending, ∀ record,
      memory.residentNodes[write.index]? = some record → record.chunkId ≠ candidate.chunkId) :
    (submitWrites policy lz4 computation level candidates pending memory).jobs allStored =
        (spilled policy lz4 computation level candidates (completeAll pending memory)).1 ∧
      (submitWrites policy lz4 computation level candidates pending memory).value allStored =
        unwound (spilled policy lz4 computation level candidates (completeAll pending memory)).2 := by
  induction candidates generalizing pending memory with
  | nil => exact collectWrites_stored pending pending memory
  | cons candidate rest ih =>
      rcases List.pairwise_cons.mp hdistinct with ⟨hfirst, hdistinct⟩
      rcases List.forall_mem_cons.mp hother with ⟨hcandidate, hother⟩
      have hsame := @spillIndex?_completeAll level memory candidate pending hcandidate hpending.apart
      cases hindex : spillIndex? memory level candidate with
      | none =>
          simp only [submitWrites, spilled, hsame, hindex]
          exact ih hpending hdistinct hother
      | some index =>
          -- the node of the candidate is none of those that are being written
          have hne : ∀ write ∈ pending, write.index ≠ index := by
            intro write hmem heq
            have hspilling := hpending.spilling write hmem
            rw [isSpilling, heq] at hspilling
            cases hrecord : memory.residentNodes[index]? with
            | none => simp [hrecord] at hspilling
            | some record =>
                exact hcandidate write hmem record (heq ▸ hrecord)
                  (chunkId_of_spillIndex? hindex hrecord)
          have hbegin := @beginSpill_completeAll policy lz4 computation level memory index pending hne
          cases hbegun : beginSpill policy lz4 computation level index memory with
          | error e begun =>
              have hkept : IsPending pending begun := by
                refine ⟨fun write hmem => ?_, hpending.apart⟩
                rw [isSpilling, getElem?_of_beginSpill_error (hne write hmem).symm hbegun]
                exact hpending.spilling write hmem
              simp only [submitWrites, spilled, hsame, hindex, hbegin, hbegun, mapState]
              exact unwindWrites_stored e hkept
          | ok chunk begun =>
              rcases beginSpill_eq_ok.mp hbegun with ⟨rfl, record, _, hrecord, _⟩
              have hsame' : ∀ write ∈ pending,
                  (memory.setLifecycle index ⟨.spilling, none⟩).residentNodes[write.index]? =
                    memory.residentNodes[write.index]? := fun write hmem =>
                getElem?_updateRecord_of_ne (hne write hmem).symm _ _
              have hnew : (memory.setLifecycle index ⟨.spilling, none⟩).residentNodes[index]? =
                  some { record with lifecycle := ⟨.spilling, none⟩ } := by
                rw [setLifecycle, getElem?_updateRecord, hrecord]
                simp
              have hnext : IsPending (pending ++ [⟨index, pending.length, chunk.metadata.storedSize⟩])
                  (memory.setLifecycle index ⟨.spilling, none⟩) := by
                constructor
                · simp only [List.forall_mem_append, List.forall_mem_singleton]
                  refine ⟨fun write hmem => ?_, ?_⟩
                  · rw [isSpilling, hsame' write hmem]
                    exact hpending.spilling write hmem
                  · simp [isSpilling, hnew]
                · rw [List.pairwise_append]
                  refine ⟨hpending.apart, List.pairwise_singleton _ _, fun write hmem other hlast => ?_⟩
                  rw [List.mem_singleton.mp hlast]
                  exact hne write hmem
              have hnames : ∀ candidate ∈ rest,
                  ∀ write ∈ pending ++ [⟨index, pending.length, chunk.metadata.storedSize⟩],
                    ∀ record, (memory.setLifecycle index
                      ⟨.spilling, none⟩).residentNodes[write.index]? = some record →
                        record.chunkId ≠ candidate.chunkId := by
                intro other hmem
                simp only [List.forall_mem_append, List.forall_mem_singleton]
                refine ⟨fun write hwrite record' hrecord' => ?_, fun record' hrecord' => ?_⟩
                · rw [hsame' write hwrite] at hrecord'
                  exact hother other hmem write hwrite record' hrecord'
                · rw [hnew] at hrecord'
                  cases hrecord'
                  exact fun heq => hfirst other hmem
                    ((chunkId_of_spillIndex? hindex hrecord).symm.trans heq)
              have hrest := ih hnext hdistinct hnames
              simp only [completeAll, List.foldl_append, List.foldl_cons, List.foldl_nil] at hrest
              simp only [submitWrites, spilled, hsame, hindex, hbegin, hbegun, mapState, Caller.jobs,
                Caller.value]
              exact ⟨congrArg (chunk :: ·) hrest.1, hrest.2⟩

/-! ## Plans -/

theorem collectCandidates_ids {mergeDistance : Bytes → Option ℕ} {residentChunks : List (Bytes × UInt64)}
    {seen : List Bytes} {candidates : List EvictionCandidate}
    (h : collectCandidates mergeDistance residentChunks seen = .ok candidates) :
    (∀ candidate ∈ candidates, candidate.chunkId ∉ seen) ∧
      candidates.Pairwise fun candidate other => candidate.chunkId ≠ other.chunkId := by
  induction residentChunks generalizing seen candidates with
  | nil =>
      cases h
      exact ⟨by simp, List.Pairwise.nil⟩
  | cons chunk rest ih =>
      rcases chunk with ⟨id, bytes⟩
      simp only [collectCandidates, GiveMePi.bind_eq_ok, throwIf_eq_ok] at h
      rcases h with ⟨_, hfresh, others, hothers, hlast⟩
      rcases ih hothers with ⟨hseen, hapart⟩
      have hkept : ∀ candidate ∈ others, candidate.chunkId ≠ id ∧ candidate.chunkId ∉ seen := by
        intro candidate hmem
        simpa [not_or] using hseen candidate hmem
      split at hlast
      · cases hlast
        exact ⟨fun candidate hmem => (hkept candidate hmem).2, hapart⟩
      · cases hlast
        refine ⟨List.forall_mem_cons.mpr ⟨hfresh, fun candidate hmem => (hkept candidate hmem).2⟩, ?_⟩
        exact List.pairwise_cons.mpr ⟨fun other hmem heq => (hkept other hmem).1 heq.symm, hapart⟩

theorem evictUntilBudgetSatisfied_sublist (neededBytes : UInt64) (candidates : List EvictionCandidate)
    (evictedBytes : UInt64) :
    (evictUntilBudgetSatisfied neededBytes candidates evictedBytes).1.Sublist candidates := by
  induction candidates generalizing evictedBytes with
  | nil => exact List.Sublist.refl _
  | cons candidate rest ih =>
      rw [evictUntilBudgetSatisfied]
      split
      · exact List.nil_sublist _
      · exact (ih _).cons_cons candidate

/-- A plan names no chunk twice. -/
theorem distinct_of_beginSpills {plan : EvictionPlan}
    (h : beginSpills memoryBudgetBytes memory = .ok (some plan)) :
    plan.candidates.Pairwise fun candidate other => candidate.chunkId ≠ other.chunkId := by
  simp only [beginSpills, GiveMePi.bind_eq_ok, spillPlan] at h
  rcases h with ⟨_, _, h⟩
  split at h
  · cases h
  · simp only [planEvictions, getEvictionCandidates, GiveMePi.bind_eq_ok, pure_eq_ok,
      Except.ok.injEq, Option.some.injEq] at h
    rcases h with ⟨_, ⟨_, ⟨_, _, candidates, hcandidates, rfl⟩, rfl⟩, _, _, rfl⟩
    have hdistinct := (collectCandidates_ids hcandidates).2
    have hsorted : (candidates.mergeSort EvictionCandidate.before).Pairwise fun candidate other =>
        candidate.chunkId ≠ other.chunkId := by
      refine ((List.mergeSort_perm _ _).pairwise_iff ?_).mpr hdistinct
      exact fun hne => hne.symm
    exact ((hsorted.filter _).sublist (evictUntilBudgetSatisfied_sublist _ _ _))

/-- A spill with a writer hands over the planned chunks, and ends as planned if they are stored. -/
theorem asyncSpill_stored (level : UInt32) (memory : CoordinatorMemory) :
    (asyncSpill policy memoryBudgetBytes lz4 computation level memory).jobs allStored =
        (plannedSpill policy memoryBudgetBytes lz4 computation level memory).1 ∧
      (asyncSpill policy memoryBudgetBytes lz4 computation level memory).value allStored =
        (plannedSpill policy memoryBudgetBytes lz4 computation level memory).2 := by
  rw [asyncSpill, plannedSpill]
  cases hbegin : beginSpills memoryBudgetBytes memory with
  | error e => exact ⟨rfl, rfl⟩
  | ok planned =>
      cases planned with
      | none => exact ⟨rfl, rfl⟩
      | some plan =>
          exact submitWrites_stored ⟨by simp, List.Pairwise.nil⟩ (distinct_of_beginSpills hbegin)
            (by simp)

end GiveMePi.Storage.StorageMergeCoordinator
