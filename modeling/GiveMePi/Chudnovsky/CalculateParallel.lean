import GiveMePi.Binary.SplitParallel
import GiveMePi.Checkpoint.CheckpointFrontierWriter
import GiveMePi.Chudnovsky.ChudnovskyCalculator
import GiveMePi.Progress.ResumeProgress

/-! # The calculation with workers

The calculation reports to a tracker: the phases it enters, and the terms of every block that a task
completes. The merge level, the task counts and the times, which only the reports read, are left
out. -/

namespace GiveMePi.Chudnovsky

open Binary (BinaryCheckpointCoordinator BinaryFrontierNode BinaryMergeCoordinator BinaryNode
  BinarySplitObserver Executor ParallelSplitOptions)
open Checkpoint (AcceptedCheckpoint CheckpointFrontierWriter WriterSession)
open Progress (ProgressPhase ProgressTracker)

/-- The calls that count terms or enter a phase. -/
inductive TrackerCall where
  /-- The observer reports a block. -/
  | termsCompleted (count : UInt64)
  /-- The calculation counts what is left. -/
  | completeTerms (count : UInt64)
  | transitionTo (phase : ProgressPhase)
deriving DecidableEq, Repr

def TrackerCall.perform : TrackerCall → ProgressTracker → Bool × ProgressTracker
  | termsCompleted count, tracker => tracker.addCompletedTerms count
  | completeTerms count, tracker => tracker.addCompletedTerms count
  | transitionTo phase, tracker => tracker.transitionTo phase

/-- What a calculation acts on: the writer and the world with the tracker, the storage, and the flag
of the observer. No function reads `calls`, which are the calls made so far and what the tracker
answered, the latest first. -/
structure Calculation (τ : Type) where
  session : WriterSession
  storage : τ
  merging : Bool
  calls : List (TrackerCall × Bool)

namespace Calculation

variable {τ α : Type}

def tracker (calculation : Calculation τ) : Option ProgressTracker :=
  calculation.session.world.tracker

def setTracker (tracker : ProgressTracker) (calculation : Calculation τ) : Calculation τ :=
  { calculation with
    session :=
      { calculation.session with
        world := { calculation.session.world with tracker := some tracker } } }

/-- One call; nothing is refused when there is no tracker. -/
def call (call : TrackerCall) (calculation : Calculation τ) : Bool × Calculation τ :=
  match calculation.tracker with
  | none => (true, calculation)
  | some tracker =>
      let (done, tracker) := call.perform tracker
      (done, { calculation.setTracker tracker with calls := (call, done) :: calculation.calls })

/-- A call that must not be refused. -/
def require (call : TrackerCall) (what : String) : Action (Calculation τ) Unit := fun calculation =>
  match calculation.call call with
  | (true, calculation) => .ok () calculation
  | (false, calculation) => .error (.logicError what) calculation

def onSession (action : Action WriterSession α) : Action (Calculation τ) α := fun calculation =>
  match action calculation.session with
  | .ok a session => .ok a { calculation with session := session }
  | .error e session => .error e { calculation with session := session }

def onStorage (action : Action τ α) : Action (Calculation τ) α := fun calculation =>
  match action calculation.storage with
  | .ok a storage => .ok a { calculation with storage := storage }
  | .error e storage => .error e { calculation with storage := storage }

end Calculation

open Calculation

variable {τ : Type}

/-- `TrackerSplitObserver` -/
def trackerSplitObserver : BinarySplitObserver (Calculation τ) where
  termsCompleted count calculation := (calculation.call (.termsCompleted count)).2
  mergeLevelStarted _ calculation :=
    if calculation.tracker.isNone ∨ calculation.merging = true then calculation
    else
      let (merging, calculation) := calculation.call (.transitionTo .merging)
      { calculation with merging := merging }

/-- The coordinator of storage, which does not see the progress. -/
def storageCoordinator (mergeCoordinator : BinaryMergeCoordinator τ) :
    BinaryMergeCoordinator (Calculation τ) where
  observeResidentNodes nodes mergeLevel :=
    onStorage (mergeCoordinator.observeResidentNodes nodes mergeLevel)
  prepareMergeNodes nodes mergeLevel :=
    onStorage (mergeCoordinator.prepareMergeNodes nodes mergeLevel)
  spillAfterMergeLevel nodes mergeLevel :=
    onStorage (mergeCoordinator.spillAfterMergeLevel nodes mergeLevel)

/-- The writer of checkpoints, if they are enabled. -/
def checkpointCoordinator (checkpointEnabled : Bool) :
    BinaryCheckpointCoordinator (Calculation τ) :=
  if checkpointEnabled then
    ⟨fun nodes treeLevels => onSession (CheckpointFrontierWriter.commitFrontier nodes treeLevels)⟩
  else .absent

def beginProgress (precision : PrecisionPlan) : Action (Calculation τ) Unit := do
  let calculation ← get
  match calculation.tracker with
  | none => pure ()
  | some tracker => do
      throwIf (tracker.plan.targetDigits ≠ precision.requestedDigits ∨
          tracker.plan.totalTerms ≠ precision.termCount)
        (.invalidArgument "Progress tracker work plan does not match calculation precision")
      require (.transitionTo .splitting) "Cannot enter progress splitting phase"

def completeTerms (totalTerms : UInt64) : Action (Calculation τ) Unit := do
  let calculation ← get
  match calculation.tracker with
  | none => pure ()
  | some tracker => do
      throwIf (tracker.completedTerms > totalTerms)
        (.logicError "Cannot publish completed calculation terms")
      require (.completeTerms (totalTerms - tracker.completedTerms))
        "Cannot publish completed calculation terms"

/-- `makeResult` with its transitions. -/
def finishResult (precision : PrecisionPlan) (node : BinaryNode) (deferProgressCompletion : Bool) :
    Action (Calculation τ) PiCalculationResult := do
  require (.transitionTo .finalizing) "Cannot enter progress finalization phase"
  let result ← makeResult precision node
  if deferProgressCompletion then pure result
  else do
    require (.transitionTo .writingOutput) "Cannot complete progress lifecycle"
    require (.transitionTo .completed) "Cannot complete progress lifecycle"
    pure result

def failProgress (calculation : Calculation τ) : Calculation τ :=
  match calculation.tracker with
  | none => calculation
  | some tracker => calculation.setTracker tracker.markFailed.2

/-- The steps of `calculateParallel` in its `try` block. -/
def calculateSteps (request : PiCalculationRequest) (deferProgressCompletion : Bool)
    (executor : Executor) (options : ParallelSplitOptions)
    (mergeCoordinator : BinaryMergeCoordinator τ) (initialFrontier : List BinaryFrontierNode)
    (checkpointEnabled : Bool) : Action (Calculation τ) PiCalculationResult := do
  let precision ← PrecisionPolicy.create request.digits request.guardDigits
  beginProgress precision
  modify fun calculation => { calculation with merging := false }
  let node ← Binary.splitParallel executor trackerSplitObserver
    (storageCoordinator mergeCoordinator) (checkpointCoordinator checkpointEnabled) 0
    precision.termCount options initialFrontier
  completeTerms precision.termCount
  finishResult precision node deferProgressCompletion

/-- `calculateParallel`; whether the completion is deferred is the third field of the request. -/
def calculateParallel (request : PiCalculationRequest) (deferProgressCompletion : Bool)
    (executor : Executor) (options : ParallelSplitOptions)
    (mergeCoordinator : BinaryMergeCoordinator τ) (initialFrontier : List BinaryFrontierNode)
    (checkpointEnabled : Bool) : Action (Calculation τ) PiCalculationResult :=
  Action.attempt
    (calculateSteps request deferProgressCompletion executor options mergeCoordinator
      initialFrontier checkpointEnabled)
    fun error => do
      modify failProgress
      throw error

/-- The nodes that the program takes over from a plan. -/
def frontierOf (accepted : List AcceptedCheckpoint) : List BinaryFrontierNode :=
  accepted.map fun checkpoint =>
    { node :=
        { start := checkpoint.block.location.start
          stop := checkpoint.block.location.stop
          p := checkpoint.block.p
          q := checkpoint.block.q
          t := checkpoint.block.t }
      treeLevel := checkpoint.block.location.treeLevel }

end GiveMePi.Chudnovsky
