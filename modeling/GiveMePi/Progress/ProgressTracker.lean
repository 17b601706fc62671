import GiveMePi.Error
import GiveMePi.Numeric

/-! # The progress of a computation

The tracker as the coordinating thread sees it: every function is one step on the counters. -/

namespace GiveMePi.Progress

inductive ProgressPhase where
  | initializing
  | validatingCheckpoints
  | splitting
  | merging
  | finalizing
  | writingOutput
  | verifyingOutput
  | completed
  | failed
deriving DecidableEq, Repr

inductive ProgressTerminalState where
  | running
  | completed
  | failed
deriving DecidableEq, Repr

def terminalState : ProgressPhase → ProgressTerminalState
  | .completed => .completed
  | .failed => .failed
  | _ => .running

def isTerminal (phase : ProgressPhase) : Bool :=
  terminalState phase ≠ .running

def isValidTransition (current next : ProgressPhase) : Bool :=
  if current = next then true
  else if isTerminal current then false
  else if next = .failed then true
  else match current with
    | .initializing => next = .validatingCheckpoints || next = .splitting
    | .validatingCheckpoints => next = .splitting
    | .splitting => next = .merging || next = .finalizing
    | .merging => next = .finalizing
    | .finalizing => next = .writingOutput || next = .completed
    | .writingOutput => next = .verifyingOutput || next = .completed
    | .verifyingOutput => next = .completed
    | .completed => false
    | .failed => false

structure CheckpointRangeProgress where
  startTerm : UInt64
  endTerm : UInt64
  treeLevel : UInt32
deriving DecidableEq, Repr

structure ProgressWorkPlan where
  targetDigits : UInt64
  totalTerms : UInt64
  totalCheckpointBlocks : UInt64
deriving DecidableEq, Repr

structure CheckpointProgressUpdate where
  completedBlocks : UInt64
  durableBlocks : UInt64
  checkpointBytes : UInt64
  lastCommitted : Option CheckpointRangeProgress
deriving DecidableEq, Repr

structure ProgressTracker where
  plan : ProgressWorkPlan
  phase : ProgressPhase
  completedTerms : UInt64
  completedCheckpointBlocks : UInt64
  durableCheckpointBlocks : UInt64
  checkpointBytes : UInt64
  lastValidatedCheckpoint : Option CheckpointRangeProgress
  lastCommittedCheckpoint : Option CheckpointRangeProgress
deriving DecidableEq, Repr

namespace ProgressTracker

/-- The tracker of a work plan before any work. -/
def ofPlan (plan : ProgressWorkPlan) : ProgressTracker where
  plan := plan
  phase := .initializing
  completedTerms := 0
  completedCheckpointBlocks := 0
  durableCheckpointBlocks := 0
  checkpointBytes := 0
  lastValidatedCheckpoint := none
  lastCommittedCheckpoint := none

/-- The constructor. -/
def create (plan : ProgressWorkPlan) : Except Error ProgressTracker := do
  throwIf (plan.targetDigits = 0) (.invalidArgument "Target digits must be greater than zero")
  throwIf (plan.totalTerms = 0) (.invalidArgument "Total terms must be greater than zero")
  pure (ofPlan plan)

def isRunning (tracker : ProgressTracker) : Bool :=
  !isTerminal tracker.phase

/-! The functions return whether they took effect, and the tracker they leave. -/

def transitionTo (next : ProgressPhase) (tracker : ProgressTracker) : Bool × ProgressTracker :=
  if isValidTransition tracker.phase next then (true, { tracker with phase := next })
  else (false, tracker)

def addCompletedTerms (count : UInt64) (tracker : ProgressTracker) : Bool × ProgressTracker :=
  if tracker.isRunning ∧ count ≤ tracker.plan.totalTerms - tracker.completedTerms then
    (true, { tracker with completedTerms := tracker.completedTerms + count })
  else (false, tracker)

/-- Whether a range is empty or ends behind the last term. -/
def rejectsRange (tracker : ProgressTracker) (range : CheckpointRangeProgress) : Bool :=
  range.startTerm ≥ range.endTerm || range.endTerm > tracker.plan.totalTerms

def publishCheckpointProgress (update : CheckpointProgressUpdate) (tracker : ProgressTracker) :
    Bool × ProgressTracker :=
  if update.lastCommitted.any tracker.rejectsRange ∨ isTerminal tracker.phase then (false, tracker)
  else
    let remaining := tracker.plan.totalCheckpointBlocks - tracker.completedCheckpointBlocks
    (true,
      { tracker with
        completedCheckpointBlocks :=
          tracker.completedCheckpointBlocks + min update.completedBlocks remaining
        durableCheckpointBlocks := update.durableBlocks
        checkpointBytes := update.checkpointBytes
        lastCommittedCheckpoint :=
          if update.lastCommitted.isSome then update.lastCommitted
          else tracker.lastCommittedCheckpoint })

def recordValidatedCheckpoint (checkpoint : CheckpointRangeProgress) (tracker : ProgressTracker) :
    Bool × ProgressTracker :=
  if tracker.rejectsRange checkpoint ∨ isTerminal tracker.phase then (false, tracker)
  else (true, { tracker with lastValidatedCheckpoint := some checkpoint })

/-- The detail of the failure, which only the reports read, is left out. -/
def markFailed (tracker : ProgressTracker) : Bool × ProgressTracker :=
  if isTerminal tracker.phase then (false, tracker) else (true, { tracker with phase := .failed })

end ProgressTracker

end GiveMePi.Progress
