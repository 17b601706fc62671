import GiveMePi.Binary.ParallelCorrectness
import GiveMePi.Checkpoint.CheckpointFrontierWriter
import GiveMePi.Checkpoint.PlannerSoundness
import GiveMePi.Progress.ResumeProgress

/-! # What the next stages make of a plan

The writer, the progress and the splitter check the accepted blocks once more, each in its own way.
None of them finds a fault in the blocks of a plan. -/

namespace GiveMePi.Checkpoint

open Library (Apart Tiles)
open CheckpointBlockCodec (blockBytes)
open CheckpointManifestValidator (rangeOf)
open CheckpointResumePlanner (IsResumable acceptedOf)

/-! ## The writer -/

namespace CheckpointFrontierWriter

/-- What the constructor asks of an entry by itself, besides its range. -/
structure IsOwnEntry (identity : ComputationIdentity) (entry : ManifestEntry) : Prop where
  complete : entry.completion = CompletionState.complete
  filename : entry.filename = CheckpointStore.blockFilename identity entry.location

theorem validateEntries_eq_ok_iff {directory : Bytes} {identity : ComputationIdentity}
    (hidentity : identity.IsValid) {cursor : UInt64} {entries : List ManifestEntry} {u : Unit}
    (hcursor : cursor ≤ identity.termCount) :
    validateEntries directory identity cursor entries = .ok u ↔
      Apart cursor (entries.map rangeOf) identity.termCount ∧
        ∀ entry ∈ entries, IsOwnEntry identity entry := by
  induction entries generalizing cursor with
  | nil => simpa [validateEntries, Apart] using hcursor
  | cons entry rest ih =>
      simp only [validateEntries, bind_eq_ok, throwIf_eq_ok, BlockLocation.validate_eq_ok,
        CheckpointStore.blockPath_eq_ok, not_not, not_lt]
      constructor
      · intro h
        obtain ⟨_, ⟨hlt, hstop⟩, _, hstart, _, hcomplete, _, ⟨-, -, -, rfl⟩, _, hfilename, hrest⟩ := h
        obtain ⟨hapart, hown⟩ := (ih hstop).mp hrest
        exact ⟨⟨hstart, hlt, hapart⟩, List.forall_mem_cons.mpr ⟨⟨hcomplete, hfilename⟩, hown⟩⟩
      · intro h
        obtain ⟨⟨hstart, hlt, hapart⟩, hown⟩ := h
        obtain ⟨hentry, hown⟩ := List.forall_mem_cons.mp hown
        have hstop : entry.location.stop ≤ identity.termCount := hapart.le
        exact ⟨(), ⟨hlt, hstop⟩, (), hstart, (), hentry.complete, _, ⟨hidentity, hlt, hstop, rfl⟩, (),
          hentry.filename, (ih hstop).mpr ⟨hapart, hown⟩⟩

/-- The writer that the constructor returns. -/
def fresh (directory : Bytes) (identity : ComputationIdentity) (interval : ℤ)
    (entries : List ManifestEntry) : CheckpointFrontierWriter where
  directory := directory
  identity := identity
  interval := interval * clockTicksPerSecond
  entries := entries
  lastCommit := none
  commitCount := 0
  initialFrontierWork := none
  initialFrontierWorkPublished := false

/-- The constructor takes the entries that are apart, and orders them. -/
theorem create_eq_ok_iff {directory : Bytes} {identity : ComputationIdentity} {interval : ℤ}
    {accepted : List ManifestEntry} {writer : CheckpointFrontierWriter} :
    create directory identity interval accepted = .ok writer ↔
      directory ≠ [] ∧ identity.IsValid ∧ 0 ≤ interval ∧
        (Apart 0 ((CheckpointManifestCodec.sortEntries accepted).map rangeOf) identity.termCount ∧
          ∀ entry ∈ CheckpointManifestCodec.sortEntries accepted, IsOwnEntry identity entry) ∧
            writer = fresh directory identity interval
              (CheckpointManifestCodec.sortEntries accepted) := by
  simp only [create, bind_eq_ok, throwIf_eq_ok, pure_eq_ok, Except.ok.injEq, not_lt]
  constructor
  · intro h
    obtain ⟨_, hdirectory, _, hidentity, _, hinterval, _, hentries, rfl⟩ := h
    exact ⟨hdirectory, hidentity, hinterval,
      (validateEntries_eq_ok_iff hidentity UInt64.zero_le).mp hentries, rfl⟩
  · intro h
    obtain ⟨hdirectory, hidentity, hinterval, hentries, rfl⟩ := h
    exact ⟨(), hdirectory, (), hidentity, (), hinterval, (),
      (validateEntries_eq_ok_iff hidentity UInt64.zero_le).mpr hentries, rfl⟩

end CheckpointFrontierWriter

/-! ## Accepted blocks -/

/-- The terms of an accepted block. -/
def AcceptedCheckpoint.range (checkpoint : AcceptedCheckpoint) : UInt64 × UInt64 :=
  (checkpoint.block.location.start, checkpoint.block.location.stop)

/-- Accepted blocks in order, apart from each other, with the entries that record them. -/
structure AreAdmissible (identity : ComputationIdentity) (accepted : List AcceptedCheckpoint) :
    Prop where
  pairwise : accepted.Pairwise fun left right =>
    left.block.location.stop ≤ right.block.location.start
  resumable : ∀ checkpoint ∈ accepted, IsResumable identity checkpoint.block
  entry : ∀ checkpoint ∈ accepted, checkpoint.manifestEntry = checkpoint.block.entry

namespace AreAdmissible

variable {identity : ComputationIdentity} {accepted : List AcceptedCheckpoint}

theorem bounds (h : AreAdmissible identity accepted) {checkpoint : AcceptedCheckpoint}
    (hmem : checkpoint ∈ accepted) :
    checkpoint.block.location.start < checkpoint.block.location.stop ∧
      checkpoint.block.location.stop ≤ identity.termCount := by
  have hresumable := h.resumable checkpoint hmem
  exact ⟨hresumable.decodable.start_lt, hresumable.identity_eq ▸ hresumable.decodable.stop_le⟩

theorem apart (h : AreAdmissible identity accepted) :
    Apart 0 (accepted.map AcceptedCheckpoint.range) identity.termCount := by
  apply Apart.of_pairwise (List.pairwise_map.mpr h.pairwise) _ UInt64.zero_le
  intro interval hmem
  obtain ⟨checkpoint, hcheckpoint, rfl⟩ := List.mem_map.mp hmem
  exact ⟨UInt64.zero_le, h.bounds hcheckpoint⟩

theorem pairwise_start (h : AreAdmissible identity accepted) :
    accepted.Pairwise fun left right => left.block.location.start < right.block.location.start :=
  h.pairwise.imp_of_mem fun hleft _ hle => (h.bounds hleft).1.trans_le hle

theorem map_rangeOf (h : AreAdmissible identity accepted) :
    (accepted.map fun checkpoint => checkpoint.manifestEntry).map rangeOf =
      accepted.map AcceptedCheckpoint.range := by
  rw [List.map_map]
  apply List.map_congr_left
  intro checkpoint hmem
  rw [Function.comp_apply, h.entry checkpoint hmem]
  rfl

/-- The writer takes the entries of accepted blocks as they are. -/
theorem create_writer (h : AreAdmissible identity accepted) {directory : Bytes} {interval : ℤ}
    (hdirectory : directory ≠ []) (hidentity : identity.IsValid) (hinterval : 0 ≤ interval) :
    CheckpointFrontierWriter.create directory identity interval
        (accepted.map fun checkpoint => checkpoint.manifestEntry) =
      .ok (.fresh directory identity interval
        (accepted.map fun checkpoint => checkpoint.manifestEntry)) := by
  have hsort : CheckpointManifestCodec.sortEntries
      (accepted.map fun checkpoint => checkpoint.manifestEntry) =
        accepted.map fun checkpoint => checkpoint.manifestEntry := by
    apply CheckpointManifestCodec.sortEntries_eq
    apply List.pairwise_map.mpr
    apply h.pairwise_start.imp_of_mem
    intro left right hleft hright hlt
    rw [h.entry left hleft, h.entry right hright]
    exact BlockLocation.lt_iff.mpr (Or.inl hlt)
  rw [CheckpointFrontierWriter.create_eq_ok_iff, hsort, h.map_rangeOf]
  refine ⟨hdirectory, hidentity, hinterval, ⟨h.apart, ?_⟩, rfl⟩
  intro entry hmem
  obtain ⟨checkpoint, hcheckpoint, rfl⟩ := List.mem_map.mp hmem
  rw [h.entry checkpoint hcheckpoint, ← (h.resumable checkpoint hcheckpoint).identity_eq]
  exact ⟨rfl, rfl⟩

end AreAdmissible

end GiveMePi.Checkpoint

/-! ## The progress -/

namespace GiveMePi.Progress

open Checkpoint (AcceptedCheckpoint AreAdmissible CheckpointResumePlan ComputationIdentity)
open Library (Apart)

/-- Planning only adds to the accepted blocks. -/
theorem le_addPlannedBlocks {options : Binary.ParallelSplitOptions} {maximumBlocks : UInt64}
    {total : UInt64} {ranges : List Checkpoint.MissingRange} :
    total ≤ addPlannedBlocks options maximumBlocks total ranges := by
  induction ranges generalizing total with
  | nil => exact le_rfl
  | cons range rest ih =>
      rw [addPlannedBlocks]
      split
      · exact ih
      · refine le_trans ?_ ih
        split
        · exact le_uint64Max total
        · next h =>
            rw [not_gt_uint64Max_sub] at h
            rw [UInt64.le_iff_toNat_le, UInt64.toNat_add, Nat.mod_eq_of_lt h]
            exact Nat.le_add_right _ _

theorem le_planCheckpointBlocks {plan : CheckpointResumePlan}
    {options : Binary.ParallelSplitOptions} {workerCount : UInt64}
    {checkpointWritingEnabled : Bool} {total : UInt64}
    (h : planCheckpointBlocks plan options workerCount checkpointWritingEnabled = .ok total) :
    UInt64.ofNat plan.acceptedBlocks.length ≤ total := by
  rw [planCheckpointBlocks] at h
  split at h
  · exact (Except.ok.inj h).le
  · obtain ⟨_, -, h⟩ := bind_eq_ok.mp h
    exact Except.ok.inj h ▸ le_addPlannedBlocks

namespace ResumeProgressRestorer

/-- The bytes of all accepted files. -/
def totalBytes (accepted : List AcceptedCheckpoint) : ℕ :=
  (accepted.map fun checkpoint => checkpoint.fileSize.toNat).sum

def metadataOf (checkpoint : AcceptedCheckpoint) : AcceptedMetadata :=
  ⟨checkpoint.block.location, checkpoint.fileSize⟩

/-- The loop passes ranges that are apart: the terms counted never exceed the range's start. -/
theorem sumMetadata_eq_some {totalTerms cursor : UInt64} {totals : Totals}
    {accepted : List AcceptedCheckpoint}
    (hapart : Apart cursor (accepted.map AcceptedCheckpoint.range) totalTerms)
    (hterms : totals.completedTerms ≤ cursor)
    (hprevious : ∀ previousEnd ∈ totals.previousEnd, previousEnd ≤ cursor)
    (hbytes : totals.checkpointBytes.toNat + totalBytes accepted < 2 ^ 64) :
    ∃ last, sumMetadata totalTerms totals (accepted.map metadataOf) = some last ∧
      last.completedTerms ≤ totalTerms := by
  induction accepted generalizing cursor totals with
  | nil => exact ⟨totals, rfl, hterms.trans hapart.le⟩
  | cons checkpoint rest ih =>
      obtain ⟨hcursor, hlt, hrest⟩ := hapart
      have hstop : checkpoint.block.location.stop ≤ totalTerms := hrest.le
      obtain ⟨length, hlength⟩ : ∃ length, length =
          checkpoint.block.location.stop - checkpoint.block.location.start := ⟨_, rfl⟩
      have hlengthNat := UInt64.toNat_sub_of_le _ _ hlt.le
      rw [← hlength] at hlengthNat
      have hstopNat := UInt64.le_iff_toNat_le.mp hstop
      have hltNat := UInt64.lt_iff_toNat_lt.mp hlt
      have hsize := checkpoint.block.location.stop.toNat_lt
      have htermsNat := UInt64.le_iff_toNat_le.mp (hterms.trans hcursor)
      have hroom : totals.completedTerms ≤ totalTerms - length := by
        rw [UInt64.le_iff_toNat_le, UInt64.toNat_sub_of_le _ _
          (UInt64.le_iff_toNat_le.mpr (by omega))]
        omega
      have hsum : (metadataOf checkpoint).fileSize.toNat + totals.checkpointBytes.toNat +
          totalBytes rest < 2 ^ 64 := by
        rw [totalBytes, List.map_cons, List.sum_cons, ← totalBytes] at hbytes
        change checkpoint.fileSize.toNat + _ + _ < _
        omega
      have hbefore : ¬ totals.previousEnd.any (fun previousEnd =>
          checkpoint.block.location.start < previousEnd) = true := by
        rw [Option.any_eq_true]
        intro hany
        obtain ⟨previousEnd, hmem, hstart⟩ := hany
        exact (of_decide_eq_true hstart).not_ge ((hprevious previousEnd hmem).trans hcursor)
      rw [List.map_cons, sumMetadata]
      change ∃ last, (if checkpoint.block.location.start ≥ checkpoint.block.location.stop ∨ _ then _
        else if totals.completedTerms > totalTerms -
          (checkpoint.block.location.stop - checkpoint.block.location.start) ∨ _ then _
        else sumMetadata totalTerms ⟨totals.completedTerms +
          (checkpoint.block.location.stop - checkpoint.block.location.start), _, _⟩ _) = _ ∧ _
      rw [← hlength, if_neg, if_neg]
      · apply ih hrest
        · rw [UInt64.le_iff_toNat_le, toNat_add_of_lt (by omega)]
          omega
        · intro previousEnd hmem
          exact (Option.some.inj hmem).ge
        · rw [toNat_add_of_lt (by omega)]
          omega
      · exact not_or.mpr ⟨not_lt.mpr hroom, not_gt_uint64Max_sub.mpr (by omega)⟩
      · exact not_or.mpr ⟨hlt.not_ge, not_or.mpr ⟨hstop.not_gt, hbefore⟩⟩

/-- No step on a running tracker is refused. -/
theorem apply_eq_true {accepted : List AcceptedMetadata} {totals : Totals}
    {tracker : ProgressTracker} (hrunning : isTerminal tracker.phase = false)
    (hnone : tracker.completedTerms = 0)
    (hcount : totals.completedTerms ≤ tracker.plan.totalTerms)
    (hbounds : ∀ metadata ∈ accepted, metadata.location.start < metadata.location.stop ∧
      metadata.location.stop ≤ tracker.plan.totalTerms) :
    (apply accepted totals tracker).1 = true := by
  have hadd : tracker.addCompletedTerms totals.completedTerms =
      (true, { tracker with completedTerms := tracker.completedTerms + totals.completedTerms }) := by
    rw [ProgressTracker.addCompletedTerms, if_pos]
    refine ⟨by simp [ProgressTracker.isRunning, hrunning], ?_⟩
    rw [hnone, UInt64.sub_zero]
    exact hcount
  simp only [apply, hadd, ProgressTracker.publishCheckpointProgress, Option.any_none, hrunning,
    Bool.false_eq_true, or_self, if_false]
  cases hlast : accepted.getLast? with
  | none => rfl
  | some last =>
      obtain ⟨hlt, hle⟩ := hbounds last (List.mem_of_getLast? hlast)
      simp [ProgressTracker.recordValidatedCheckpoint, ProgressTracker.rejectsRange, hlt.not_ge,
        hle.not_gt, hrunning]

/-- The tracker of a computation before its blocks are restored. -/
def isRestorable (identity : ComputationIdentity) (plan : CheckpointResumePlan)
    (tracker : ProgressTracker) : Prop :=
  isFresh plan tracker = true ∧ tracker.plan.targetDigits = identity.requestedDigits ∧
    tracker.plan.totalTerms = identity.termCount

/-- The blocks of a plan are restored, unless their bytes cannot be counted. -/
theorem restore_eq_true {identity : ComputationIdentity} {plan : CheckpointResumePlan}
    {tracker : ProgressTracker} (h : AreAdmissible identity plan.acceptedBlocks)
    (htracker : isRestorable identity plan tracker)
    (hbytes : totalBytes plan.acceptedBlocks < 2 ^ 64) : (restore plan tracker).1 = true := by
  obtain ⟨hfresh, hdigits, hterms⟩ := htracker
  have hbelongs : plan.acceptedBlocks.all (belongsTo tracker) = true := by
    rw [List.all_eq_true]
    intro checkpoint hmem
    have hidentity := (h.resumable checkpoint hmem).identity_eq
    simp [belongsTo, hidentity, hdigits, hterms]
  have hsort : (plan.acceptedBlocks.map metadataOf).mergeSort
      (fun left right => !precedes right left) = plan.acceptedBlocks.map metadataOf := by
    apply List.mergeSort_of_pairwise
    apply List.pairwise_map.mpr
    apply h.pairwise_start.imp
    intro left right hlt
    simp [precedes, metadataOf, hlt.ne', hlt.not_gt]
  obtain ⟨totals, htotals, hcount⟩ := @sumMetadata_eq_some _ _ ⟨0, 0, none⟩ _
    (hterms ▸ h.apart) le_rfl (by simp) (by simpa using hbytes)
  have hrunning : isTerminal tracker.phase = false := by
    simp only [isFresh, Bool.and_eq_true, decide_eq_true_eq] at hfresh
    simp [isTerminal, hfresh.1.2]
  have hnone : tracker.completedTerms = 0 := by
    simp only [isFresh, Bool.and_eq_true, decide_eq_true_eq] at hfresh
    exact hfresh.1.1.1.1.1.1.1
  have hmetadata : (plan.acceptedBlocks.map fun checkpoint =>
      (⟨checkpoint.block.location, checkpoint.fileSize⟩ : AcceptedMetadata)) =
        plan.acceptedBlocks.map metadataOf := rfl
  rw [restore, if_neg (by simp [hfresh]), if_neg (by simp [hbelongs])]
  simp only [hmetadata, hsort, htotals]
  apply apply_eq_true hrunning hnone hcount
  intro metadata hmem
  obtain ⟨checkpoint, hcheckpoint, rfl⟩ := List.mem_map.mp hmem
  exact hterms ▸ h.bounds hcheckpoint

end ResumeProgressRestorer

end GiveMePi.Progress
