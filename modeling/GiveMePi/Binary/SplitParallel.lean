import GiveMePi.Binary.BinarySplitter
import GiveMePi.Library.ForkJoin
import GiveMePi.Numeric

/-! # Parallel binary splitting

The blocks of a frontier are computed in one stage and merged pairwise in further ones, with
coordinators called between the stages. -/

namespace GiveMePi.Binary

open Library (Schedule)

/-! ## Interfaces -/

/-- One resident node of a verified frontier and its tree level. -/
structure BinaryFrontierNode where
  node : BinaryNode
  treeLevel : UInt32
deriving DecidableEq, Repr

structure ParallelSplitOptions where
  sequentialCutoff : UInt64
  tasksPerWorker : UInt64
deriving DecidableEq, Repr

/-- What the splitter sees of a scheduler: whether it takes work, and the course each stage takes,
by the number of the stage and of its jobs. -/
structure Executor where
  running : Bool
  workerCount : UInt64
  ownsCurrentWorker : Bool
  schedule : ℕ → (jobs : ℕ) → Schedule jobs

variable {σ : Type}

structure BinarySplitObserver (σ : Type) where
  termsCompleted : UInt64 → σ → σ
  mergeLevelStarted : UInt32 → σ → σ

/-- The coordinator of storage. The functions that may change the nodes return them. -/
structure BinaryMergeCoordinator (σ : Type) where
  observeResidentNodes : List BinaryNode → UInt32 → Action σ Unit
  prepareMergeNodes : List BinaryNode → UInt32 → Action σ (List BinaryNode)
  spillAfterMergeLevel : List BinaryNode → UInt32 → Action σ (List BinaryNode)

structure BinaryCheckpointCoordinator (σ : Type) where
  commitFrontier : List BinaryNode → List UInt32 → Action σ Unit

/-- The null observer. -/
def BinarySplitObserver.absent : BinarySplitObserver σ where
  termsCompleted _ s := s
  mergeLevelStarted _ s := s

/-- The null storage coordinator. -/
def BinaryMergeCoordinator.absent : BinaryMergeCoordinator σ where
  observeResidentNodes _ _ := pure ()
  prepareMergeNodes nodes _ := pure nodes
  spillAfterMergeLevel nodes _ := pure nodes

/-- The null checkpoint coordinator. -/
def BinaryCheckpointCoordinator.absent : BinaryCheckpointCoordinator σ where
  commitFrontier _ _ := pure ()

/-! ## Policy -/

def boundedBlockCount (termCount sequentialCutoff workerCount tasksPerWorker : UInt64) : UInt64 :=
  let requestedBlocks := 1 + (termCount - 1) / sequentialCutoff
  let maximumBlocks :=
    if workerCount > uint64Max / tasksPerWorker then uint64Max else workerCount * tasksPerWorker
  min requestedBlocks maximumBlocks

def maximumTreeLevelFrom (termCount capacity : UInt64) (level : UInt32) (h : 0 < capacity) :
    UInt32 :=
  if hlt : capacity < termCount then
    if hbig : capacity > uint64Max / 2 then level + 1
    else maximumTreeLevelFrom termCount (capacity * 2) (level + 1) (by
      rw [UInt64.lt_iff_toNat_lt, toNat_mul_two hbig]
      exact Nat.mul_pos (by decide) (UInt64.lt_iff_toNat_lt.mp h))
  else level
termination_by termCount.toNat - capacity.toNat
decreasing_by
  have hcapacity : 0 < capacity.toNat := UInt64.lt_iff_toNat_lt.mp h
  have hcount := UInt64.lt_iff_toNat_lt.mp hlt
  rw [toNat_mul_two hbig]
  omega

def maximumTreeLevel (termCount : UInt64) : UInt32 :=
  maximumTreeLevelFrom termCount 1 0 uint64_zero_lt_one

def acceptsStagedWork (executor : Executor) : Bool :=
  executor.running && executor.workerCount != 0 && !executor.ownsCurrentWorker

/-! ## The initial frontier -/

def validateFrontier (start stop : UInt64) : UInt64 → List BinaryFrontierNode → Except Error Unit
  | _, [] => pure ()
  | coveredEnd, seed :: rest => do
      throwIf (seed.node.start ≥ seed.node.stop)
        (.invalidArgument "Binary Splitting frontier node requires start < end")
      throwIf (seed.node.start < start ∨ seed.node.stop > stop)
        (.invalidArgument "Binary Splitting frontier node is outside the split range")
      throwIf (seed.node.start < coveredEnd)
        (.invalidArgument "Binary Splitting frontier nodes overlap")
      throwIf (seed.node.hasValues = false)
        (.invalidArgument "Binary Splitting frontier node is not resident")
      validateFrontier start stop seed.node.stop rest

def sortAndValidateFrontier (frontier : List BinaryFrontierNode) (start stop : UInt64) :
    Except Error (List BinaryFrontierNode) := do
  let frontier := frontier.mergeSort fun left right => left.node.start ≤ right.node.start
  validateFrontier start stop start frontier
  pure frontier

structure PendingBlock where
  index : ℕ
  start : UInt64
  stop : UInt64
deriving DecidableEq, Repr

/-- The slots of the first stage: seeds keep theirs, and every gap is cut into pending blocks. -/
structure Layout where
  slots : List (Option BinaryNode)
  treeLevels : List UInt32
  pendingBlocks : List PendingBlock
deriving DecidableEq, Repr

namespace Layout

def empty : Layout :=
  ⟨[], [], []⟩

def pushBlock (layout : Layout) (start stop : UInt64) : Layout where
  slots := layout.slots ++ [none]
  treeLevels := layout.treeLevels ++ [0]
  pendingBlocks := layout.pendingBlocks ++ [⟨layout.slots.length, start, stop⟩]

def pushSeed (layout : Layout) (seed : BinaryFrontierNode) : Layout where
  slots := layout.slots ++ [some seed.node]
  treeLevels := layout.treeLevels ++ [seed.treeLevel]
  pendingBlocks := layout.pendingBlocks

/-- The loop over the blocks of a gap, by the number of blocks left. -/
def appendBlocks (baseBlockSize largerBlockCount : UInt64) :
    ℕ → UInt64 → UInt64 → Layout → Layout
  | 0, _, _, layout => layout
  | remaining + 1, block, blockStart, layout =>
      let blockStop := blockStart + baseBlockSize + (if block < largerBlockCount then 1 else 0)
      appendBlocks baseBlockSize largerBlockCount remaining (block + 1) blockStop
        (layout.pushBlock blockStart blockStop)

variable (executor : Executor) (options : ParallelSplitOptions) (parallelExecution : Bool)

def appendGap (layout : Layout) (gapStart gapStop : UInt64) : Layout :=
  let gapSize := gapStop - gapStart
  let blockCount :=
    if parallelExecution then
      boundedBlockCount gapSize options.sequentialCutoff executor.workerCount
        options.tasksPerWorker
    else 1
  appendBlocks (gapSize / blockCount) (gapSize % blockCount) blockCount.toNat 0 gapStart layout

/-- The loop over the seeds, with the bound of what is covered, and the gap behind the last. -/
def appendFrontier (stop : UInt64) : List BinaryFrontierNode → UInt64 → Layout → Layout
  | [], coveredEnd, layout =>
      if coveredEnd < stop then
        appendGap executor options parallelExecution layout coveredEnd stop
      else layout
  | seed :: rest, coveredEnd, layout =>
      let layout :=
        if coveredEnd < seed.node.start then
          appendGap executor options parallelExecution layout coveredEnd seed.node.start
        else layout
      appendFrontier stop rest seed.node.stop (layout.pushSeed seed)

end Layout

/-! ## Stages -/

/-- One task of a stage: the slot it fills, what it computes and what it tells the observer. -/
structure StageJob (σ : Type) where
  slot : ℕ
  compute : Except Error BinaryNode
  completed : σ → σ

/-- What the tasks of a stage share: the slots, the exceptions the handles hold, and the rest. -/
structure StageMemory (σ : Type) where
  slots : List (Option BinaryNode)
  failures : List (ℕ × Error)
  world : σ

namespace StageMemory

def fill (memory : StageMemory σ) (job : StageJob σ) (node : BinaryNode) : StageMemory σ where
  slots := memory.slots.set job.slot (some node)
  failures := memory.failures
  world := job.completed memory.world

end StageMemory

/-- The caller runs a task itself; what the task throws, the caller throws. -/
def runOnCaller (jobs : List (StageJob σ)) (index : ℕ) : EStateM Error (StageMemory σ) Unit :=
  fun memory =>
    match jobs[index]? with
    | none => .ok () memory
    | some job =>
        match job.compute with
        | .ok node => .ok () (memory.fill job node)
        | .error e => .error e memory

/-- A worker runs a task; what the task throws, its handle keeps. -/
def runOnWorker (jobs : List (StageJob σ)) (index : ℕ) : EStateM Error (StageMemory σ) Unit :=
  fun memory =>
    match jobs[index]? with
    | none => .ok () memory
    | some job =>
        match job.compute with
        | .ok node => .ok () (memory.fill job node)
        | .error e => .ok () { memory with failures := (index, e) :: memory.failures }

/-- The exception `waitForStage` rethrows: that of the first handle that failed. -/
def firstFailure (count : ℕ) (failures : List (ℕ × Error)) : Option Error :=
  (List.range count).findSome? fun index => failures.lookup index

def runStage (jobs : List (StageJob σ)) (schedule : Schedule jobs.length)
    (slots : List (Option BinaryNode)) : Action σ (List (Option BinaryNode)) := fun world =>
  match schedule.run (runOnCaller jobs) (runOnWorker jobs) ⟨slots, [], world⟩ with
  | .ok _ memory =>
      match firstFailure jobs.length memory.failures with
      | none => .ok memory.slots memory.world
      | some e => .error e memory.world
  | .error e memory => .error e memory.world

/-- `slot.value()` of every slot. -/
def slotValues : List (Option BinaryNode) → Except Error (List BinaryNode)
  | [] => pure []
  | none :: _ => throw .badOptionalAccess
  | some node :: rest => do
      let nodes ← slotValues rest
      pure (node :: nodes)

/-- The task of a pending block. Blocks are never empty, so the range check of `splitSequential`,
which the recursion itself leaves out, changes nothing. -/
def blockJob (observer : BinarySplitObserver σ) (block : PendingBlock) : StageJob σ where
  slot := block.index
  compute := splitSequential block.start block.stop
  completed := observer.termsCompleted (block.stop - block.start)

def mergePairs : List BinaryNode → List (Except Error BinaryNode)
  | left :: right :: rest => merge left right :: mergePairs rest
  | _ => []

def mergeJobs (nodes : List BinaryNode) : List (StageJob σ) :=
  (mergePairs nodes).mapIdx fun pair result => ⟨pair, result, id⟩

def nextTreeLevels (termCount : UInt64) : List UInt32 → List UInt32
  | left :: right :: rest =>
      let childLevel := max left right
      min (if childLevel = uint32Max then childLevel else childLevel + 1)
        (maximumTreeLevel termCount) :: nextTreeLevels termCount rest
  | rest => rest

section Split

variable (executor : Executor) (observer : BinarySplitObserver σ)
  (mergeCoordinator : BinaryMergeCoordinator σ)
  (checkpointCoordinator : BinaryCheckpointCoordinator σ)

/-- The course of a stage: without parallel execution the caller runs every task itself. -/
def stageSchedule (parallelExecution : Bool) (stage jobs : ℕ) : Schedule jobs :=
  if parallelExecution then executor.schedule stage jobs else Schedule.caller jobs

/-- Storage accounting, durable checkpoint, then spill. -/
def completeStage (nodes : List BinaryNode) (treeLevels : List UInt32) (mergeLevel : UInt32)
    (computedNodes : Bool) : Action σ (List BinaryNode) := do
  mergeCoordinator.observeResidentNodes nodes mergeLevel
  if computedNodes then
    checkpointCoordinator.commitFrontier nodes treeLevels
  if nodes.length > 1 then
    mergeCoordinator.spillAfterMergeLevel nodes mergeLevel
  else
    pure nodes

/-- The merge levels. Each has fewer nodes than the one before, so the number of nodes bounds their
number; the last two cases do not arise. -/
def mergeLevels (termCount : UInt64) (parallelExecution : Bool) :
    ℕ → List BinaryNode → List UInt32 → UInt32 → Action σ BinaryNode
  | _, [node], _, _ => pure node
  | levels + 1, nodes, treeLevels, mergeLevel => do
      let nodes ← mergeCoordinator.prepareMergeNodes nodes mergeLevel
      modify (observer.mergeLevelStarted mergeLevel)
      let mergeLevel := mergeLevel + 1
      let jobs := mergeJobs nodes
      let mergeResults ← runStage jobs
        (stageSchedule executor (parallelExecution && decide (jobs.length > 1)) mergeLevel.toNat
          jobs.length)
        (List.replicate jobs.length none)
      let merged ← slotValues mergeResults
      let nextLevel := merged ++ nodes.drop (2 * (nodes.length / 2))
      let treeLevels := nextTreeLevels termCount treeLevels
      let nodes ← completeStage mergeCoordinator checkpointCoordinator nextLevel treeLevels
        mergeLevel true
      mergeLevels termCount parallelExecution levels nodes treeLevels mergeLevel
  | 0, _, _, _ => throw (.logicError "no node to merge")

def splitParallel (start stop : UInt64) (options : ParallelSplitOptions)
    (initialFrontier : List BinaryFrontierNode) : Action σ BinaryNode := do
  validateRange start stop
  throwIf (options.sequentialCutoff = 0)
    (.invalidArgument "Binary Splitting sequential cutoff must be greater than zero")
  throwIf (options.tasksPerWorker = 0)
    (.invalidArgument "Binary Splitting tasks per worker must be greater than zero")
  let frontier ← sortAndValidateFrontier initialFrontier start stop
  let termCount := stop - start
  let parallelExecution := acceptsStagedWork executor
  if frontier.isEmpty ∧ (termCount ≤ options.sequentialCutoff ∨ parallelExecution = false ∨
      boundedBlockCount termCount options.sequentialCutoff executor.workerCount
        options.tasksPerWorker < 2) then
    let result ← splitSequential start stop
    modify (observer.termsCompleted termCount)
    checkpointCoordinator.commitFrontier [result] [0]
    pure result
  else
    let layout := Layout.appendFrontier executor options parallelExecution stop frontier start
      Layout.empty
    let jobs := layout.pendingBlocks.map (blockJob observer)
    let slots ← runStage jobs (stageSchedule executor parallelExecution 0 jobs.length) layout.slots
    let nodes ← slotValues slots
    let nodes ← completeStage mergeCoordinator checkpointCoordinator nodes layout.treeLevels 0
      (!layout.pendingBlocks.isEmpty)
    mergeLevels executor observer mergeCoordinator checkpointCoordinator termCount
      parallelExecution nodes.length nodes layout.treeLevels 0

end Split

end GiveMePi.Binary
