import GiveMePi.Library.WorkerPool
import GiveMePi.Storage.StorageMergeCoordinator

/-! # Merge storage with a writer and a reader

The calls of a coordinator that hands its chunks to the workers of an `AsyncChunkWriter`, and its
identities to those of an `AsyncChunkReader`. The coordinator is the only client of both, nothing is
cancelled, and no queue is shut down while a call is under way. -/

namespace GiveMePi.Storage

open Binary (BinaryNode)
open Checkpoint (ComputationIdentity)
open Library (Caller Pool WorkerLoop)

/-! ## The workers of the writer -/

/-- The sections of `StorageManager::store`, for the worker that is about to enter them. -/
inductive StorePhase where
  | reserve (chunk : Chunk)
  | write (chunk : Chunk)
  | publish (chunk : Chunk)
  | undo (chunk : Chunk) (error : Error)

/-- The end of a write: stored, or failed with the text of its exception. -/
abbrev WriteResult := Except String Unit

namespace AsyncChunkWriter

variable (policy : StoragePolicy) (lz4 : Lz4)

/-- A section of `workerLoop` in the manager. -/
def piece : StorePhase → StorageManager → StorageManager × (StorePhase ⊕ WriteResult)
  | .reserve chunk, manager =>
      match manager.reserve chunk with
      | .ok _ manager => (manager, .inl (.write chunk))
      | .error e manager => (manager, .inr (.error e.what))
  | .write chunk, manager =>
      match manager.writeChunk policy lz4 chunk with
      | .ok _ manager => (manager, .inl (.publish chunk))
      | .error e manager => (manager, .inl (.undo chunk e))
  | .publish chunk, manager =>
      match manager.publishChunk policy chunk with
      | .ok _ manager => (manager, .inr (.ok ()))
      | .error e manager => (manager, .inl (.undo chunk e))
  | .undo chunk e, manager => (manager.undoStore policy chunk, .inr (.error e.what))

def rank : StorePhase → ℕ
  | .reserve _ => 3
  | .write _ => 2
  | .publish _ => 1
  | .undo _ _ => 0

def workerLoop : WorkerLoop StorageManager Chunk StorePhase WriteResult where
  start := .reserve
  piece := piece policy lz4
  rank := rank
  rank_lt phase manager phase' h := by
    cases phase with
    | reserve chunk | write chunk | publish chunk =>
        simp only [piece] at h
        split at h <;> simp at h <;> subst h <;> simp [rank]
    | undo chunk e => simp [piece] at h

end AsyncChunkWriter

/-! ## The workers of the reader -/

/-- The sections of `StorageManager::load`. -/
inductive LoadPhase where
  | lookup (identity : ChunkIdentity)
  | read (identity : ChunkIdentity) (entry : ChunkIndexEntry)

/-- The end of a read: a chunk, or the text of an exception. -/
abbrev ReadResult := Except String Chunk

namespace AsyncChunkReader

variable (policy : StoragePolicy) (lz4 : Lz4)

def notFound : ReadResult :=
  .error "async reload found no indexed chunk"

/-- A section of `workerLoop` in the manager. -/
def piece : LoadPhase → StorageManager → StorageManager × (LoadPhase ⊕ ReadResult)
  | .lookup identity, manager =>
      match manager.index.find? identity with
      | none => (manager, .inr notFound)
      | some entry => (manager, .inl (.read identity entry))
  | .read identity entry, manager =>
      match manager.chunkFile? policy entry with
      | none => (manager, .inr notFound)
      | some content =>
          match StorageSystem.checkLoaded policy lz4 identity entry content content.length with
          | .ok (some chunk) => (manager, .inr (.ok chunk))
          | .ok none => (manager, .inr notFound)
          | .error e => (manager, .inr (.error e.what))

def rank : LoadPhase → ℕ
  | .lookup _ => 1
  | .read _ _ => 0

def workerLoop : WorkerLoop StorageManager ChunkIdentity LoadPhase ReadResult where
  start := .lookup
  piece := piece policy lz4
  rank := rank
  rank_lt phase manager phase' h := by
    cases phase with
    | lookup identity =>
        simp only [piece] at h
        split at h
        · simp at h
        · simp only [Sum.inl.injEq] at h
          subst h
          simp [rank]
    | read identity entry =>
        simp only [piece] at h
        split at h
        · simp at h
        · split at h <;> simp at h

end AsyncChunkReader

namespace StorageMergeCoordinator

open CoordinatorMemory MergeMemory StorageManager

variable (policy : StoragePolicy) (memoryBudgetBytes : UInt64) (lz4 : Lz4)
  (computation : ComputationIdentity)

/-- How a call that leaves the manager alone ends. -/
abbrev CoordinatorEnd := EStateM.Result Error CoordinatorMemory Unit

/-! ## Spilling -/

abbrev WriteCaller := Caller Chunk WriteResult CoordinatorEnd

structure PendingWrite where
  index : ℕ
  position : ℕ
  storedBytes : UInt64

/-- The end of a write that has been stored. -/
def completeWrite (index : ℕ) (storedBytes : UInt64) (memory : CoordinatorMemory) :
    CoordinatorMemory :=
  (releaseNode index storedBytes memory).updateRecord index fun record =>
    { record with lifecycle := record.lifecycle.finishAsyncSpill (.ok ()) }

/-- The end of a write that has failed. -/
def failWrite (index : ℕ) (detail : String) (memory : CoordinatorMemory) : CoordinatorMemory :=
  memory.updateRecord index fun record =>
    { record with lifecycle := record.lifecycle.finishAsyncSpill (.error detail) }

def isSpilling (memory : CoordinatorMemory) (index : ℕ) : Bool :=
  (memory.residentNodes[index]?.map fun record => record.lifecycle.state) = some .spilling

/-- The handler: every write is waited for, and those whose nodes are still spilling are ended. -/
def unwindWrites (error : Error) : List PendingWrite → CoordinatorMemory → WriteCaller
  | [], memory => .done (.error error (failSpills memory))
  | write :: rest, memory => .await write.position fun result =>
      if isSpilling memory write.index then
        match result with
        | .ok () =>
            unwindWrites error rest (completeWrite write.index write.storedBytes memory)
        | .error detail => unwindWrites error rest (failWrite write.index detail memory)
      else unwindWrites error rest memory

/-- The loop over the pending writes. -/
def collectWrites (pending : List PendingWrite) :
    List PendingWrite → CoordinatorMemory → WriteCaller
  | [], memory => .done (.ok () memory)
  | write :: rest, memory => .await write.position fun
      | .ok () =>
          collectWrites pending rest (completeWrite write.index write.storedBytes memory)
      | .error detail =>
          unwindWrites (.runtimeError detail) pending (failWrite write.index detail memory)

/-- The loop over the candidates. -/
def submitWrites (level : UInt32) :
    List EvictionCandidate → List PendingWrite → CoordinatorMemory → WriteCaller
  | [], pending, memory => collectWrites pending pending memory
  | candidate :: rest, pending, memory =>
      match spillIndex? memory level candidate with
      | none => submitWrites level rest pending memory
      | some index =>
          match beginSpill policy lz4 computation level index memory with
          | .error e memory => unwindWrites e pending memory
          | .ok chunk memory => .submit chunk
              (submitWrites level rest
                (pending ++ [⟨index, pending.length, chunk.metadata.storedSize⟩]) memory)

/-- `spillAfterMergeLevel` with a writer. -/
def asyncSpill (level : UInt32) (memory : CoordinatorMemory) : WriteCaller :=
  match beginSpills memoryBudgetBytes memory with
  | .error e => .done (.error e memory)
  | .ok none => .done (.ok () memory)
  | .ok (some plan) => submitWrites policy lz4 computation level plan.candidates [] memory

/-! ## Reloading -/

abbrev ReadCaller := Caller ChunkIdentity ReadResult CoordinatorEnd

structure PendingRead where
  index : ℕ
  position : ℕ

/-- The handler. -/
def failLoads (memory : CoordinatorMemory) : CoordinatorMemory :=
  { memory with
    residentNodes := memory.residentNodes.map fun record =>
      record.update (NodeLifecycle.failLoad true) }

/-- A load that has failed. Whether the chunk is still there is asked of the manager, which no load
changes. -/
def failRead (manager : StorageManager) (index : ℕ) (memory : CoordinatorMemory) :
    CoordinatorMemory :=
  match memory.residentNodes[index]? with
  | none => memory
  | some record => failLoad index (manager.contains policy record.identity) memory

/-- The loop over the pending reads. -/
def collectReads (manager : StorageManager) : List PendingRead → CoordinatorMemory → ReadCaller
  | [], memory => .done (.ok () memory)
  | read :: rest, memory => .await read.position fun
      | .error detail =>
          .done (.error (.runtimeError detail) (failLoads (failRead policy manager read.index memory)))
      | .ok chunk =>
          match (do restoreNode read.index chunk; completeLoad read.index :
              Action CoordinatorMemory Unit) memory with
          | .ok _ memory => collectReads manager rest memory
          | .error e memory => .done (.error e (failLoads memory))

/-- The loop over the nodes. -/
def submitReads (manager : StorageManager) (level : UInt32) :
    List ℕ → List PendingRead → CoordinatorMemory → ReadCaller
  | [], pending, memory => collectReads policy manager pending memory
  | index :: rest, pending, memory =>
      match beginLoad level index memory with
      | .error e memory => .done (.error e (failLoads memory))
      | .ok none memory => submitReads manager level rest pending memory
      | .ok (some identity) memory => .submit identity
          (submitReads manager level rest (pending ++ [⟨index, pending.length⟩]) memory)

/-- `prepareMergeNodes` with a reader. -/
def asyncPrepare (manager : StorageManager) (level : UInt32) (memory : CoordinatorMemory) :
    ReadCaller :=
  match checkPrepare memory with
  | .error e => .done (.error e memory)
  | .ok () => submitReads policy manager level (List.range memory.nodes.length) [] memory

/-! ## Sequences of calls -/

/-- The calls of a split. The nodes of an observation are those of the calls behind it. -/
inductive MergeCall where
  | observe (nodes : List BinaryNode) (level : UInt32)
  | spill (level : UInt32)
  | prepare (level : UInt32)

/-- The calls of a stage: those of `completeStage`, and the preparation of its merges. -/
def stageCalls (nodes : List BinaryNode) (level : UInt32) : List MergeCall :=
  if nodes.length > 1 then [.observe nodes level, .spill level, .prepare level]
  else [.observe nodes level]

/-- How a call ends. -/
abbrev CallEnd := EStateM.Result Error MergeMemory Unit

def observeCall (nodes : List BinaryNode) (level : UInt32) : Action MergeMemory Unit := do
  modify fun memory => { memory with nodes }
  observeResidentNodes policy lz4 computation nodes level

/-- A call without a writer and a reader. -/
def syncCall : MergeCall → Action MergeMemory Unit
  | .observe nodes level => observeCall policy lz4 computation nodes level
  | .spill level => spillAfterMergeLevel policy memoryBudgetBytes lz4 computation level
  | .prepare level => prepareMergeNodes policy lz4 level

/-- How the calls end one after the other, up to the first exception. -/
def syncEnds : List MergeCall → MergeMemory → List CallEnd
  | [], _ => []
  | call :: rest, memory =>
      match syncCall policy memoryBudgetBytes lz4 computation call memory with
      | .ok () memory => .ok () memory :: syncEnds rest memory
      | .error e memory => [.error e memory]

/-- The threads of the call that is under way. -/
inductive MergeActivity (writers readers : ℕ) where
  | idle
  | spilling (pool : Pool writers StorageManager Chunk StorePhase WriteResult CoordinatorEnd)
  | loading (pool : Pool readers StorageManager ChunkIdentity LoadPhase ReadResult CoordinatorEnd)

/-- A coordinator with a writer and a reader: the memory before the call under way, the calls from
this one on, and how those before it ended. -/
structure AsyncMerges (writers readers : ℕ) where
  memory : MergeMemory
  calls : List MergeCall
  ends : List CallEnd
  activity : MergeActivity writers readers

namespace AsyncMerges

variable {writers readers : ℕ}

def start (writers readers : ℕ) (calls : List MergeCall) (memory : MergeMemory) :
    AsyncMerges writers readers where
  memory := memory
  calls := calls
  ends := []
  activity := .idle

/-- The call ends; an exception is the end of the split. -/
def finishCall (merges : AsyncMerges writers readers) : CallEnd → AsyncMerges writers readers
  | .ok () memory => ⟨memory, merges.calls.tail, merges.ends ++ [.ok () memory], .idle⟩
  | .error e memory => ⟨memory, [], merges.ends ++ [.error e memory], .idle⟩

/-- The end of a call whose workers leave the given manager. -/
def withManager (manager : StorageManager) : CoordinatorEnd → CallEnd
  | .ok () memory => .ok () ⟨memory, manager⟩
  | .error e memory => .error e ⟨memory, manager⟩

/-- A step of the calling thread or of a worker. -/
inductive Step (writeCapacity readCapacity : ℕ) (merges : AsyncMerges writers readers) :
    AsyncMerges writers readers → Prop where
  | observe {nodes : List BinaryNode} {level : UInt32} {rest : List MergeCall} :
      merges.activity = .idle → merges.calls = .observe nodes level :: rest →
      Step writeCapacity readCapacity merges
        (merges.finishCall (observeCall policy lz4 computation nodes level merges.memory))
  | spill {level : UInt32} {rest : List MergeCall} :
      merges.activity = .idle → merges.calls = .spill level :: rest →
      Step writeCapacity readCapacity merges
        { merges with activity := .spilling (.start writers merges.memory.manager
          (asyncSpill policy memoryBudgetBytes lz4 computation level
            merges.memory.toCoordinatorMemory)) }
  | prepare {level : UInt32} {rest : List MergeCall} :
      merges.activity = .idle → merges.calls = .prepare level :: rest →
      Step writeCapacity readCapacity merges
        { merges with activity := .loading (.start readers merges.memory.manager
          (asyncPrepare policy merges.memory.manager level merges.memory.toCoordinatorMemory)) }
  | write {pool pool'} : merges.activity = .spilling pool →
      pool.Step (AsyncChunkWriter.workerLoop policy lz4) writeCapacity pool' →
      Step writeCapacity readCapacity merges { merges with activity := .spilling pool' }
  | read {pool pool'} : merges.activity = .loading pool →
      pool.Step (AsyncChunkReader.workerLoop policy lz4) readCapacity pool' →
      Step writeCapacity readCapacity merges { merges with activity := .loading pool' }
  | spilled {pool result} : merges.activity = .spilling pool → pool.caller = .done result →
      Step writeCapacity readCapacity merges
        (merges.finishCall (withManager pool.memory result))
  | prepared {pool result} : merges.activity = .loading pool → pool.caller = .done result →
      Step writeCapacity readCapacity merges
        (merges.finishCall (withManager pool.memory result))

end AsyncMerges

end StorageMergeCoordinator

end GiveMePi.Storage
