import GiveMePi.Binary.SplitParallel
import GiveMePi.Checkpoint.CheckpointResumePlanner

/-! # The progress of a resumed computation -/

namespace GiveMePi.Progress

open Binary (ParallelSplitOptions)
open Checkpoint (AcceptedCheckpoint BlockLocation CheckpointResumePlan MissingRange)

structure AcceptedMetadata where
  location : BlockLocation
  fileSize : UInt64
deriving DecidableEq, Repr

/-- The number of blocks the splitter makes of a range. -/
def plannedBlocks (options : ParallelSplitOptions) (maximumBlocks : UInt64)
    (range : MissingRange) : UInt64 :=
  let termCount := range.stop - range.start
  let requestedBlocks := 1 + (termCount - 1) / options.sequentialCutoff
  min requestedBlocks maximumBlocks

/-- The loop over the ranges; the total stops at the largest number. -/
def addPlannedBlocks (options : ParallelSplitOptions) (maximumBlocks : UInt64) :
    UInt64 → List MissingRange → UInt64
  | total, [] => total
  | total, range :: rest =>
      if range.stop ≤ range.start then addPlannedBlocks options maximumBlocks total rest
      else
        let blocks := plannedBlocks options maximumBlocks range
        addPlannedBlocks options maximumBlocks
          (if blocks > uint64Max - total then uint64Max else total + blocks) rest

def planCheckpointBlocks (plan : CheckpointResumePlan) (options : ParallelSplitOptions)
    (workerCount : UInt64) (checkpointWritingEnabled : Bool) : Except Error UInt64 := do
  let total := UInt64.ofNat plan.acceptedBlocks.length
  if checkpointWritingEnabled = false ∨ plan.rangesToRecalculate = [] then pure total
  else do
    throwIf (options.sequentialCutoff = 0 ∨ options.tasksPerWorker = 0)
      (.invalidArgument "Checkpoint planning requires non-zero split options")
    let maximumBlocks :=
      if workerCount > uint64Max / options.tasksPerWorker then uint64Max
      else workerCount * options.tasksPerWorker
    pure (addPlannedBlocks options maximumBlocks total plan.rangesToRecalculate)

namespace ResumeProgressRestorer

/-- Whether a tracker has recorded nothing yet and has room for the accepted blocks. -/
def isFresh (plan : CheckpointResumePlan) (tracker : ProgressTracker) : Bool :=
  tracker.completedTerms = 0 && tracker.completedCheckpointBlocks = 0 &&
    tracker.durableCheckpointBlocks = 0 && tracker.checkpointBytes = 0 &&
    tracker.lastValidatedCheckpoint.isNone && tracker.lastCommittedCheckpoint.isNone &&
    terminalState tracker.phase = .running &&
    UInt64.ofNat plan.acceptedBlocks.length ≤ tracker.plan.totalCheckpointBlocks

/-- Whether a block belongs to the computation the tracker follows. -/
def belongsTo (tracker : ProgressTracker) (checkpoint : AcceptedCheckpoint) : Bool :=
  checkpoint.block.identity.requestedDigits = tracker.plan.targetDigits &&
    checkpoint.block.identity.termCount = tracker.plan.totalTerms

/-- Whether the first range comes before the second: by start, then by end. -/
def precedes (left right : AcceptedMetadata) : Bool :=
  if left.location.start ≠ right.location.start then
    left.location.start < right.location.start
  else left.location.stop < right.location.stop

/-- The terms and bytes counted so far, and the end of the range before. -/
structure Totals where
  completedTerms : UInt64
  checkpointBytes : UInt64
  previousEnd : Option UInt64
deriving DecidableEq, Repr

/-- The loop over the ranges in order; it stops at one that does not fit. -/
def sumMetadata (totalTerms : UInt64) : Totals → List AcceptedMetadata → Option Totals
  | totals, [] => some totals
  | totals, metadata :: rest =>
      let location := metadata.location
      if location.start ≥ location.stop ∨ location.stop > totalTerms ∨
          totals.previousEnd.any (fun previousEnd => location.start < previousEnd) = true then none
      else
        let length := location.stop - location.start
        if totals.completedTerms > totalTerms - length ∨
            totals.checkpointBytes > uint64Max - metadata.fileSize then none
        else
          sumMetadata totalTerms
            ⟨totals.completedTerms + length, totals.checkpointBytes + metadata.fileSize,
              some location.stop⟩ rest

/-- The steps on the tracker; each may be refused. -/
def apply (accepted : List AcceptedMetadata) (totals : Totals) (tracker : ProgressTracker) :
    Bool × ProgressTracker :=
  match tracker.addCompletedTerms totals.completedTerms with
  | (false, tracker) => (false, tracker)
  | (true, tracker) =>
      let count := UInt64.ofNat accepted.length
      match tracker.publishCheckpointProgress ⟨count, count, totals.checkpointBytes, none⟩ with
      | (false, tracker) => (false, tracker)
      | (true, tracker) =>
          match accepted.getLast? with
          | none => (true, tracker)
          | some last =>
              tracker.recordValidatedCheckpoint
                ⟨last.location.start, last.location.stop, last.location.treeLevel⟩

def restore (plan : CheckpointResumePlan) (tracker : ProgressTracker) : Bool × ProgressTracker :=
  if isFresh plan tracker = false then (false, tracker)
  else if (plan.acceptedBlocks.all (belongsTo tracker)) = false then (false, tracker)
  else
    let accepted := (plan.acceptedBlocks.map fun checkpoint =>
      (⟨checkpoint.block.location, checkpoint.fileSize⟩ : AcceptedMetadata)).mergeSort
        fun left right => !precedes right left
    match sumMetadata tracker.plan.totalTerms ⟨0, 0, none⟩ accepted with
    | none => (false, tracker)
    | some totals => apply accepted totals tracker

end ResumeProgressRestorer

end GiveMePi.Progress
