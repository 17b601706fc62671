import GiveMePi.Binary.SplitRuns
import GiveMePi.Progress.ResumeProgress

/-! # What a restored tracker has counted

The restored terms are those of the accepted blocks, and what a split computes are all others. -/

namespace GiveMePi.Progress

open Binary (BinaryFrontierNode Executor LayoutPiece ParallelSplitOptions computedBlocks splitPieces
  splitPieces_seed?)
open Library (Tiles)

/-- The number of terms in a range. -/
def rangeTerms (range : UInt64 × UInt64) : ℕ :=
  range.2.toNat - range.1.toNat

theorem sum_rangeTerms {start stop : UInt64} {ranges : List (UInt64 × UInt64)}
    (h : Tiles start ranges stop) :
    start.toNat + (ranges.map rangeTerms).sum = stop.toNat := by
  induction ranges generalizing start with
  | nil => exact congrArg UInt64.toNat h
  | cons range rest ih =>
      obtain ⟨rfl, hlt, hrest⟩ := h
      have := UInt64.lt_iff_toNat_lt.mp hlt
      rw [List.map_cons, List.sum_cons, ← ih hrest, rangeTerms]
      omega

/-- The terms of the blocks of a split and those of its seeds are all terms. -/
theorem sum_computedBlocks {executor : Executor} {start stop : UInt64}
    {options : ParallelSplitOptions} {frontier : List BinaryFrontierNode}
    (h : Tiles start ((splitPieces executor start stop options frontier).map LayoutPiece.range)
      stop) :
    start.toNat + ((frontier.map fun seed => rangeTerms seed.node.range).sum +
      ((computedBlocks executor start stop options frontier).map rangeTerms).sum) = stop.toNat := by
  have hperm := List.mergeSort_perm frontier fun left right =>
    decide (left.node.start ≤ right.node.start)
  rw [← sum_rangeTerms h, LayoutPiece.sum_ranges, splitPieces_seed?, (hperm.map _).sum_eq,
    computedBlocks]

/-- A running tracker counts what fits into its plan. -/
theorem ProgressTracker.addCompletedTerms_eq {tracker : ProgressTracker} {count : UInt64}
    (hrunning : isTerminal tracker.phase = false)
    (hroom : tracker.completedTerms.toNat + count.toNat ≤ tracker.plan.totalTerms.toNat) :
    tracker.addCompletedTerms count =
        (true, { tracker with completedTerms := tracker.completedTerms + count }) ∧
      (tracker.completedTerms + count).toNat = tracker.completedTerms.toNat + count.toNat := by
  have hsize := tracker.plan.totalTerms.toNat_lt
  refine ⟨?_, toNat_add_of_lt (by omega)⟩
  rw [addCompletedTerms, if_pos]
  refine ⟨by simp [isRunning, hrunning], ?_⟩
  rw [UInt64.le_iff_toNat_le, UInt64.toNat_sub_of_le _ _ (UInt64.le_iff_toNat_le.mpr (by omega))]
  omega

/-- A publication changes neither the plan nor the phase nor the terms. -/
theorem ProgressTracker.publishCheckpointProgress_frame (tracker : ProgressTracker)
    (update : CheckpointProgressUpdate) :
    (tracker.publishCheckpointProgress update).2.plan = tracker.plan ∧
      (tracker.publishCheckpointProgress update).2.phase = tracker.phase ∧
      (tracker.publishCheckpointProgress update).2.completedTerms = tracker.completedTerms := by
  rw [publishCheckpointProgress]
  split
  · exact ⟨rfl, rfl, rfl⟩
  · exact ⟨rfl, rfl, rfl⟩

namespace ResumeProgressRestorer

def metadataTerms (metadata : AcceptedMetadata) : ℕ :=
  rangeTerms (metadata.location.start, metadata.location.stop)

/-- The loop counts the terms of all ranges. -/
theorem completedTerms_sumMetadata {totalTerms : UInt64} {totals last : Totals}
    {accepted : List AcceptedMetadata} (h : sumMetadata totalTerms totals accepted = some last) :
    last.completedTerms.toNat =
      totals.completedTerms.toNat + (accepted.map metadataTerms).sum := by
  induction accepted generalizing totals with
  | nil =>
      obtain rfl := Option.some.inj h
      rfl
  | cons metadata rest ih =>
      rw [sumMetadata] at h
      split at h
      · cases h
      · next hrange =>
          simp only at h
          split at h
          · cases h
          · next hroom =>
              simp only [not_or, ge_iff_le, not_le, gt_iff_lt, not_lt] at hrange hroom
              have hlength := UInt64.toNat_sub_of_le _ _ hrange.1.le
              have hlt := UInt64.lt_iff_toNat_lt.mp hrange.1
              have hstop := UInt64.le_iff_toNat_le.mp hrange.2.1
              have hterms := UInt64.le_iff_toNat_le.mp hroom.1
              have hsub := UInt64.toNat_sub_of_le totalTerms
                (metadata.location.stop - metadata.location.start)
                (by rw [UInt64.le_iff_toNat_le]; omega)
              have hsize := totalTerms.toNat_lt
              rw [ih h, toNat_add_of_lt (by omega), List.map_cons, List.sum_cons, hlength]
              simp only [metadataTerms, rangeTerms]
              omega

/-- The terms of the accepted blocks of a plan. -/
def acceptedTerms (plan : Checkpoint.CheckpointResumePlan) : ℕ :=
  (plan.acceptedBlocks.map fun checkpoint =>
    rangeTerms (checkpoint.block.location.start, checkpoint.block.location.stop)).sum

/-- What a restored tracker has counted. -/
structure IsRestored (plan : Checkpoint.CheckpointResumePlan) (fresh tracker : ProgressTracker) :
    Prop where
  workPlan : tracker.plan = fresh.plan
  phase : tracker.phase = fresh.phase
  terms : tracker.completedTerms.toNat = acceptedTerms plan
  blocks : tracker.completedCheckpointBlocks = UInt64.ofNat plan.acceptedBlocks.length

/-- The steps on the tracker leave its plan and its phase. -/
theorem apply_eq {accepted : List AcceptedMetadata} {totals : Totals}
    {fresh tracker : ProgressTracker} (h : apply accepted totals fresh = (true, tracker)) :
    tracker.plan = fresh.plan ∧ tracker.phase = fresh.phase ∧
      tracker.completedTerms = fresh.completedTerms + totals.completedTerms ∧
        tracker.completedCheckpointBlocks = fresh.completedCheckpointBlocks +
          min (UInt64.ofNat accepted.length)
            (fresh.plan.totalCheckpointBlocks - fresh.completedCheckpointBlocks) := by
  have hadd (counted : ProgressTracker)
      (hcounted : fresh.addCompletedTerms totals.completedTerms = (true, counted)) :
      counted = { fresh with
        completedTerms := fresh.completedTerms + totals.completedTerms } := by
    rw [ProgressTracker.addCompletedTerms] at hcounted
    split at hcounted
    · exact (Prod.mk.inj hcounted).2.symm
    · cases hcounted
  have hrecord (counted : ProgressTracker) (range : CheckpointRangeProgress)
      (hrecorded : counted.recordValidatedCheckpoint range = (true, tracker)) :
      tracker = { counted with lastValidatedCheckpoint := some range } := by
    rw [ProgressTracker.recordValidatedCheckpoint] at hrecorded
    split at hrecorded
    · cases hrecorded
    · exact (Prod.mk.inj hrecorded).2.symm
  rw [apply] at h
  split at h
  · cases h
  · next counted hcounted =>
      obtain rfl := hadd counted hcounted
      simp only at h
      split at h
      · cases h
      · next published hpublished =>
          rw [ProgressTracker.publishCheckpointProgress] at hpublished
          split at hpublished
          · cases hpublished
          · obtain rfl := (Prod.mk.inj hpublished).2
            split at h
            · obtain rfl := (Prod.mk.inj h).2
              exact ⟨rfl, rfl, rfl, rfl⟩
            · obtain rfl := hrecord _ _ h
              exact ⟨rfl, rfl, rfl, rfl⟩

theorem isRestored_of_restore {plan : Checkpoint.CheckpointResumePlan}
    {fresh tracker : ProgressTracker} (h : restore plan fresh = (true, tracker)) :
    IsRestored plan fresh tracker := by
  rw [restore] at h
  split at h
  · cases h
  · next hfresh =>
      split at h
      · cases h
      · simp only [isFresh, Bool.not_eq_false, Bool.and_eq_true, decide_eq_true_eq] at hfresh
        obtain ⟨⟨⟨⟨⟨⟨⟨hterms, hblocks⟩, -⟩, -⟩, -⟩, -⟩, hrunning⟩, hroom⟩ := hfresh
        simp only at h
        split at h
        · cases h
        · next totals htotals =>
            obtain ⟨hplan, hphase, hcompleted, hcheckpoints⟩ := apply_eq h
            have hperm := List.mergeSort_perm (plan.acceptedBlocks.map fun checkpoint =>
              (⟨checkpoint.block.location, checkpoint.fileSize⟩ : AcceptedMetadata))
                fun left right => !precedes right left
            refine ⟨hplan, hphase, ?_, ?_⟩
            · rw [hcompleted, hterms, UInt64.zero_add, completedTerms_sumMetadata htotals,
                (hperm.map metadataTerms).sum_eq, List.map_map, UInt64.toNat_zero, Nat.zero_add]
              rfl
            · rw [hcheckpoints, hblocks, UInt64.zero_add, UInt64.sub_zero, hperm.length_eq,
                List.length_map, min_eq_left hroom]

end ResumeProgressRestorer

end GiveMePi.Progress
