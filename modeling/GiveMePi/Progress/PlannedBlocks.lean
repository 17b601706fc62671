import GiveMePi.Checkpoint.CheckpointResumePlanner
import GiveMePi.Progress.RestoredProgress

/-! # The number of planned blocks

The planned number of checkpoint blocks counts the accepted blocks and the blocks that the splitter
makes of the ranges between them. -/

namespace GiveMePi.Progress

open Binary (BinaryFrontierNode Executor Layout LayoutPiece ParallelSplitOptions acceptsStagedWork
  boundedBlockCount computedBlocks splitPieces)
open Binary.Layout (frontierPieces gapPieces gapPiecesBelow)
open Checkpoint (AcceptedCheckpoint BlockLocation CheckpointResumePlan MissingRange)
open Checkpoint.CheckpointResumePlanner (complement complementFrom)
open Library (Apart)

/-- The bound of the blocks of a range. -/
def maximumBlocks (options : ParallelSplitOptions) (workerCount : UInt64) : UInt64 :=
  if workerCount > uint64Max / options.tasksPerWorker then uint64Max
  else workerCount * options.tasksPerWorker

theorem plannedBlocks_eq (options : ParallelSplitOptions) (workerCount start stop : UInt64) :
    plannedBlocks options (maximumBlocks options workerCount) ⟨start, stop⟩ =
      boundedBlockCount (stop - start) options.sequentialCutoff workerCount
        options.tasksPerWorker := rfl

theorem addPlannedBlocks_append (options : ParallelSplitOptions) (bound total : UInt64)
    (left right : List MissingRange) :
    addPlannedBlocks options bound total (left ++ right) =
      addPlannedBlocks options bound (addPlannedBlocks options bound total left) right := by
  induction left generalizing total with
  | nil => rfl
  | cons range rest ih =>
      rw [List.cons_append, addPlannedBlocks, addPlannedBlocks]
      split
      · exact ih total
      · exact ih _

variable {executor : Executor} {options : ParallelSplitOptions}

/-- The blocks of a row of pieces. -/
def blockCount (pieces : List LayoutPiece) : ℕ :=
  (pieces.filterMap LayoutPiece.block?).length

theorem blockCount_append (left right : List LayoutPiece) :
    blockCount (left ++ right) = blockCount left + blockCount right := by
  rw [blockCount, List.filterMap_append, List.length_append]
  rfl

/-- The plan counts the blocks of a gap as the splitter does. -/
theorem toNat_addPlannedBlocks_gap (total coveredEnd bound : UInt64) :
    (addPlannedBlocks options (maximumBlocks options executor.workerCount) total
      (if coveredEnd < bound then [⟨coveredEnd, bound⟩] else [])).toNat =
      min (2 ^ 64 - 1)
        (total.toNat + blockCount (gapPiecesBelow executor options true coveredEnd bound)) := by
  rw [gapPiecesBelow]
  split
  · next hlt =>
      have hcount : blockCount (gapPieces executor options true coveredEnd bound) =
          (boundedBlockCount (bound - coveredEnd) options.sequentialCutoff executor.workerCount
            options.tasksPerWorker).toNat := Layout.blockPieces_length _ _ _ _ _
      rw [hcount, addPlannedBlocks, if_neg (not_le.mpr hlt), addPlannedBlocks, plannedBlocks_eq,
        toNat_saturatingAdd]
  · have := total.toNat_lt
    change total.toNat = min _ (total.toNat + 0)
    omega

/-- The location that a seed stands for. -/
def seedLocation (seed : BinaryFrontierNode) : BlockLocation :=
  ⟨seed.node.start, seed.node.stop, seed.treeLevel⟩

/-- The plan counts the blocks between the seeds as the splitter does. -/
theorem toNat_addPlannedBlocks_frontier {stop : UInt64} {seeds : List BinaryFrontierNode}
    (total coveredEnd : UInt64)
    (h : Apart coveredEnd (seeds.map fun seed => seed.node.range) stop) :
    (addPlannedBlocks options (maximumBlocks options executor.workerCount) total
      (complementFrom stop coveredEnd (seeds.map seedLocation))).toNat =
      min (2 ^ 64 - 1)
        (total.toNat + blockCount (frontierPieces executor options true stop seeds coveredEnd)) := by
  induction seeds generalizing total coveredEnd with
  | nil => exact toNat_addPlannedBlocks_gap total coveredEnd stop
  | cons seed rest ih =>
      obtain ⟨hcovered, hlt, hrest⟩ := h
      have hmax : max coveredEnd (seedLocation seed).stop = seed.node.stop :=
        max_eq_right (hcovered.trans hlt.le)
      have hgap : _ = min (2 ^ 64 - 1) (total.toNat +
          blockCount (gapPiecesBelow executor options true coveredEnd seed.node.start)) :=
        toNat_addPlannedBlocks_gap total coveredEnd (seedLocation seed).start
      rw [List.map_cons, complementFrom, addPlannedBlocks_append, hmax, ih _ _ hrest, hgap,
        frontierPieces, blockCount_append]
      have hseed : blockCount (.seed seed :: frontierPieces executor options true stop rest
          seed.node.stop) =
          blockCount (frontierPieces executor options true stop rest seed.node.stop) := rfl
      rw [hseed]
      omega

end GiveMePi.Progress
