import GiveMePi.Binary.SplitParallel
import GiveMePi.Storage.ReliableManager

/-! # The coordinator of merge storage

The resident nodes of a merge level, their life cycles, and the calls that a split makes between its
stages: accounting, spilling and reloading. Reports of progress are left out. -/

namespace GiveMePi.Storage

open Binary (BinaryNode BinaryMergeCoordinator)
open Checkpoint (ComputationIdentity BlockLocation.create)

/-! ## The life cycle of a node -/

inductive NodeLifecycleState where
  | resident
  | spilling
  | stored
  | loading
  | corrupted
  | removed
deriving DecidableEq, Repr

structure NodeLifecycle where
  state : NodeLifecycleState
  error : Option String
deriving DecidableEq, Repr

namespace NodeLifecycle

def initial : NodeLifecycle :=
  ⟨.resident, none⟩

/-- A transition that one state alone allows. -/
def advance (source target : NodeLifecycleState) (lifecycle : NodeLifecycle) :
    Option NodeLifecycle :=
  if lifecycle.state = source then some { lifecycle with state := target } else none

def beginSpill (lifecycle : NodeLifecycle) : Option NodeLifecycle :=
  advance .resident .spilling { lifecycle with error := none }

def completeSpill : NodeLifecycle → Option NodeLifecycle :=
  advance .spilling .stored

def failSpill : NodeLifecycle → Option NodeLifecycle :=
  advance .spilling .resident

/-- `finishAsyncSpill` of a write that has ended: stored, or failed with a text. -/
def finishAsyncSpill (result : Except String Unit) (lifecycle : NodeLifecycle) : NodeLifecycle :=
  if lifecycle.state ≠ .spilling then lifecycle
  else
    match result with
    | .ok _ => ⟨.stored, none⟩
    | .error detail =>
        { state := .resident, error := if detail.isEmpty then lifecycle.error else some detail }

def beginLoad : NodeLifecycle → Option NodeLifecycle :=
  advance .stored .loading

def completeLoad : NodeLifecycle → Option NodeLifecycle :=
  advance .loading .resident

def failLoad (artifactExists : Bool) : NodeLifecycle → Option NodeLifecycle :=
  advance .loading (if artifactExists then .corrupted else .removed)

end NodeLifecycle

/-! ## The coordinator -/

structure ResidentMergeNode where
  identity : ChunkIdentity
  chunkId : Bytes
  residentBytes : UInt64
  level : UInt32
  lifecycle : NodeLifecycle
  mergeDistance : ℕ
deriving DecidableEq, Repr

/-- A transition whose result is not looked at. -/
def ResidentMergeNode.update (record : ResidentMergeNode)
    (transition : NodeLifecycle → Option NodeLifecycle) : ResidentMergeNode :=
  { record with lifecycle := (transition record.lifecycle).getD record.lifecycle }

/-- What only the calling thread works on: the nodes it is given, and the fields of the
coordinator. -/
structure CoordinatorMemory where
  nodes : List BinaryNode
  residentNodes : List ResidentMergeNode
  spillCount : UInt64
  reloadCount : UInt64
  spilledBytes : UInt64

namespace CoordinatorMemory

/-- The fields of a new coordinator. -/
def initial : CoordinatorMemory where
  nodes := []
  residentNodes := []
  spillCount := 0
  reloadCount := 0
  spilledBytes := 0

def updateRecord (memory : CoordinatorMemory) (index : ℕ)
    (update : ResidentMergeNode → ResidentMergeNode) : CoordinatorMemory :=
  { memory with residentNodes := memory.residentNodes.modify index update }

def setLifecycle (memory : CoordinatorMemory) (index : ℕ) (lifecycle : NodeLifecycle) :
    CoordinatorMemory :=
  memory.updateRecord index fun record => { record with lifecycle }

end CoordinatorMemory

/-- The memory of the coordinator and its manager. -/
structure MergeMemory extends CoordinatorMemory where
  manager : StorageManager

namespace MergeMemory

/-- The memory of a new coordinator. -/
def initial (manager : StorageManager) : MergeMemory :=
  ⟨.initial, manager⟩

/-- An action of the manager. -/
def onManager {α : Type} (action : Action StorageManager α) : Action MergeMemory α := fun memory =>
  match action memory.manager with
  | .ok a manager => .ok a { memory with manager }
  | .error e manager => .error e { memory with manager }

/-- An action that leaves the manager alone. -/
def onCoordinator {α : Type} (action : Action CoordinatorMemory α) : Action MergeMemory α :=
  fun memory =>
    match action memory.toCoordinatorMemory with
    | .ok a coordinator => .ok a ⟨coordinator, memory.manager⟩
    | .error e coordinator => .error e ⟨coordinator, memory.manager⟩

end MergeMemory

namespace StorageMergeCoordinator

open CoordinatorMemory MergeMemory StorageManager

variable (policy : StoragePolicy) (memoryBudgetBytes : UInt64) (lz4 : Lz4)
  (computation : ComputationIdentity)

/-! ## Accounting -/

/-- The record of one node; the metadata is made for its size. -/
def residentNode (count : ℕ) (level : UInt32) (node : BinaryNode) :
    Except Error ResidentMergeNode := do
  throwIf (node.start ≥ node.stop)
    (.invalidArgument "merge coordinator received an invalid BinaryNode range")
  let location ← BlockLocation.create node.start node.stop level computation
  let identity ← ChunkIdentity.create computation location
  let metadata ← ChunkCodec.createMetadata lz4 identity node.p node.q node.t .none
  let chunkId ← identity.deterministicFilename
  pure
    { identity
      chunkId
      residentBytes := metadata.uncompressedSize
      level
      lifecycle := .initial
      mergeDistance := if count > 1 then 1 else 0 }

/-- The loop over the nodes, with the set of the names so far. -/
def residentNodesOf (count : ℕ) (level : UInt32) :
    List BinaryNode → Finset Bytes → Except Error (List ResidentMergeNode)
  | [], _ => pure []
  | node :: rest, identities => do
      let record ← residentNode lz4 computation count level node
      throwIf (record.chunkId ∈ identities)
        (.invalidArgument "merge coordinator received duplicate resident identity")
      let others ← residentNodesOf count level rest (insert record.chunkId identities)
      pure (record :: others)

/-- The spilled copy of a node that has been merged is removed. -/
def retire (record : ResidentMergeNode) : Action MergeMemory Unit := do
  let memory ← get
  if memory.manager.contains policy record.identity then
    let removed ← onManager (remove policy record.identity)
    throwIf (removed = false) (.runtimeError "cannot retire consumed spilled merge node")

def observeResidentNodes (nodes : List BinaryNode) (level : UInt32) : Action MergeMemory Unit := do
  let next ← residentNodesOf lz4 computation nodes.length level nodes ∅
  let memory ← get
  memory.residentNodes.forM (retire policy)
  modify fun memory => { memory with residentNodes := next }

/-- The resident bytes of a snapshot. -/
def residentBytes (residentNodes : List ResidentMergeNode) : UInt64 :=
  (residentNodes.filter fun record => record.lifecycle.state = .resident ∨
    record.lifecycle.state = .spilling).foldl (fun total record => total + record.residentBytes) 0

/-! ## Spilling -/

/-- The plan of a spill that is needed, or nothing. -/
def spillPlan (memory : CoordinatorMemory) : Except Error (Option EvictionPlan) := do
  let current := residentBytes memory.residentNodes
  if current ≤ memoryBudgetBytes then pure none
  else
    let plan ← planEvictions
      (memory.residentNodes.map fun record => (record.chunkId, record.residentBytes))
      (memory.residentNodes.map ResidentMergeNode.chunkId)
      (fun id => (memory.residentNodes.find? fun record => record.chunkId = id).map
        ResidentMergeNode.mergeDistance)
      memoryBudgetBytes (current - memoryBudgetBytes)
    throwIf (plan.budgetSatisfied = false)
      (.runtimeError "merge resident set cannot satisfy storage memory budget")
    pure (some plan)

/-- The node that a candidate stands for: the loop over the resident nodes ends at the first one of
the level whose values are resident. -/
def spillIndex? (memory : CoordinatorMemory) (level : UInt32) (candidate : EvictionCandidate) :
    Option ℕ :=
  (List.range memory.residentNodes.length).find? fun index =>
    match memory.residentNodes[index]?, memory.nodes[index]? with
    | some record, some node =>
        record.chunkId = candidate.chunkId && record.level = level && node.hasValues
    | _, _ => false

/-- The beginning of a spill: the life cycle moves on and the chunk is made. -/
def beginSpill (level : UInt32) (index : ℕ) : Action CoordinatorMemory Chunk := do
  let memory ← get
  match memory.residentNodes[index]?, memory.nodes[index]? with
  | some record, some node =>
      match record.lifecycle.beginSpill with
      | none => throw (.logicError "cannot begin merge node spill")
      | some lifecycle => do
          set (memory.setLifecycle index lifecycle)
          BinaryNodeChunkAdapter.toChunk lz4 node computation level policy.compression
  | _, _ => throw (.outOfRange "no resident node")

/-- The values of a stored node are released and counted. -/
def releaseNode (index : ℕ) (storedBytes : UInt64) (memory : CoordinatorMemory) :
    CoordinatorMemory :=
  { memory with
    nodes := memory.nodes.modify index BinaryNode.clearValues
    spillCount := memory.spillCount + 1
    spilledBytes := memory.spilledBytes + storedBytes }

/-- The end of a synchronous spill. -/
def completeSpill (index : ℕ) : Action CoordinatorMemory Unit := do
  let memory ← get
  match (memory.residentNodes[index]?.bind fun record => record.lifecycle.completeSpill) with
  | none => throw (.logicError "cannot complete merge node spill")
  | some lifecycle => set (memory.setLifecycle index lifecycle)

/-- What is still spilling becomes resident again. -/
def failSpills (memory : CoordinatorMemory) : CoordinatorMemory :=
  { memory with
    residentNodes := memory.residentNodes.map fun record => record.update NodeLifecycle.failSpill }

/-- One candidate, without a writer. -/
def spillCandidate (level : UInt32) (candidate : EvictionCandidate) : Action MergeMemory Unit := do
  let memory ← get
  match spillIndex? memory.toCoordinatorMemory level candidate with
  | none => pure ()
  | some index => do
      let chunk ← onCoordinator (beginSpill policy lz4 computation level index)
      Action.attempt
        (do
          let _ ← onManager (store policy lz4 chunk)
          onCoordinator (modify (releaseNode index chunk.metadata.storedSize))
          onCoordinator (completeSpill index))
        (fun e => do
          onCoordinator (modify fun memory => memory.updateRecord index fun record =>
            record.update NodeLifecycle.failSpill)
          throw e)

def checkSizes (text : String) (memory : CoordinatorMemory) : Except Error Unit :=
  throwIf (memory.nodes.length ≠ memory.residentNodes.length) (.logicError text)

/-- The checks of a spill and its plan. -/
def beginSpills (memory : CoordinatorMemory) : Except Error (Option EvictionPlan) := do
  checkSizes "merge coordinator resident set does not match spill nodes" memory
  spillPlan memoryBudgetBytes memory

def spillAfterMergeLevel (level : UInt32) : Action MergeMemory Unit := do
  let memory ← get
  match ← beginSpills memoryBudgetBytes memory.toCoordinatorMemory with
  | none => pure ()
  | some plan =>
      Action.attempt (plan.candidates.forM (spillCandidate policy lz4 computation level))
        (fun e => do
          onCoordinator (modify failSpills)
          throw e)

/-! ## Reloading -/

/-- The values of a chunk become those of a node. -/
def restoreNode (index : ℕ) (chunk : Chunk) : Action CoordinatorMemory Unit := do
  let restored ← BinaryNodeChunkAdapter.toBinaryNode chunk
  modify fun memory => { memory with
    nodes := memory.nodes.modify index fun node =>
      { node with p := restored.p, q := restored.q, t := restored.t } }

def completeLoad (index : ℕ) : Action CoordinatorMemory Unit := do
  let memory ← get
  match (memory.residentNodes[index]?.bind fun record => record.lifecycle.completeLoad) with
  | none => throw (.logicError "cannot complete spilled node load")
  | some lifecycle =>
      set { memory.setLifecycle index lifecycle with reloadCount := memory.reloadCount + 1 }

def failLoad (index : ℕ) (artifactExists : Bool) (memory : CoordinatorMemory) :
    CoordinatorMemory :=
  memory.updateRecord index fun record => record.update (NodeLifecycle.failLoad artifactExists)

/-- The beginning of a load: whether the node is to be loaded, and the identity it is stored as. -/
def beginLoad (level : UInt32) (index : ℕ) : Action CoordinatorMemory (Option ChunkIdentity) := do
  modify fun memory => memory.updateRecord index fun record => { record with mergeDistance := 0 }
  let memory ← get
  match memory.residentNodes[index]? with
  | none => pure none
  | some record =>
      if record.level ≠ level ∨ record.lifecycle.state ≠ .stored then pure none
      else
        match record.lifecycle.beginLoad with
        | none => throw (.logicError "cannot begin spilled node load")
        | some lifecycle => do
            set (memory.setLifecycle index lifecycle)
            pure (some record.identity)

/-- One node, without a reader. -/
def prepareNode (level : UInt32) (index : ℕ) : Action MergeMemory Unit := do
  match ← onCoordinator (beginLoad level index) with
  | none => pure ()
  | some identity =>
      Action.attempt
        (do
          match ← onManager (load policy lz4 identity) with
          | none => do
              onCoordinator (modify (failLoad index false))
              throw (.runtimeError "spilled merge node is missing")
          | some chunk => onCoordinator do
              restoreNode index chunk
              completeLoad index)
        (fun e => do
          onCoordinator (modify (failLoad index true))
          throw e)

def checkPrepare (memory : CoordinatorMemory) : Except Error Unit :=
  checkSizes "merge coordinator resident set does not match merge nodes" memory

def prepareMergeNodes (level : UInt32) : Action MergeMemory Unit := do
  let memory ← get
  checkPrepare memory.toCoordinatorMemory
  (List.range memory.nodes.length).forM (prepareNode policy lz4 level)

/-! ## The coordinator of a split -/

/-- A call that may change the nodes it is given. -/
def onNodes (action : Action MergeMemory Unit) (nodes : List BinaryNode) :
    Action MergeMemory (List BinaryNode) := do
  modify fun memory => { memory with nodes }
  action
  let memory ← get
  pure memory.nodes

def coordinator : BinaryMergeCoordinator MergeMemory where
  observeResidentNodes := observeResidentNodes policy lz4 computation
  prepareMergeNodes nodes level := onNodes (prepareMergeNodes policy lz4 level) nodes
  spillAfterMergeLevel nodes level :=
    onNodes (spillAfterMergeLevel policy memoryBudgetBytes lz4 computation level) nodes

end StorageMergeCoordinator

end GiveMePi.Storage
