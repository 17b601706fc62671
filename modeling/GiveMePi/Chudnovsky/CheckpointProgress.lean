import GiveMePi.Checkpoint.PlanAdmissibility
import GiveMePi.Checkpoint.WriterProgress
import GiveMePi.Chudnovsky.CheckpointBlocks
import GiveMePi.Library.ProgramLogic

/-! # The progress of checkpoints

The first frontier that is published counts the blocks that were computed for it; every later one
counts none. -/

namespace GiveMePi.Chudnovsky

open Binary (BinaryCheckpointCoordinator BinaryMergeCoordinator BinaryNode BinarySplitObserver
  Executor IsSplittable Keep LayoutPiece ParallelSplitOptions acceptsStagedWork computedBlocks
  splitParallel splitParallel_phases splitPieces splitPieces_seed? splitPieces_tiles)
open Checkpoint (AcceptedCheckpoint BlockLocation CheckpointFrontierWriter
  CheckpointManifestCodec.sortEntries CheckpointResumePlan ComputationIdentity ManifestEntry
  WriterSession)
open Checkpoint.CheckpointFrontierWriter (Holds IsUpdateOf candidates commitFrontier_keeps
  publish_meets)
open Library (Meets Tiles Watched)
open Progress (ProgressTracker blockCount isTerminal planCheckpointBlocks
  ResumeProgressRestorer.restore)

/-! ## The entries of the writer -/

/-- Disjoint blocks are ordered by their starts. -/
theorem location_le_iff {left right : BlockLocation} (hleft : left.start < left.stop)
    (hright : right.start < right.stop)
    (hdisjoint : left.stop ≤ right.start ∨ right.stop ≤ left.start) :
    left ≤ right ↔ left.start ≤ right.start := by
  rw [← not_lt, ← not_lt, BlockLocation.lt_iff, not_or]
  refine ⟨fun h => h.1, fun h => ⟨h, fun hequal => ?_⟩⟩
  rcases hdisjoint with hle | hle
  · exact absurd (hleft.trans_le hle) (by rw [hequal.1]; exact lt_irrefl _)
  · exact absurd (hright.trans_le hle) (by rw [hequal.1]; exact lt_irrefl _)

/-- The entries of a plan, in order, are those of its seeds. -/
theorem IsPlanOf.records {termCount : UInt64} {plan : CheckpointResumePlan}
    (h : IsPlanOf termCount plan) (executor : Executor) (options : ParallelSplitOptions) :
    Records (CheckpointManifestCodec.sortEntries
        (plan.acceptedBlocks.map fun checkpoint => checkpoint.manifestEntry))
      (splitPieces executor 0 termCount options (frontierOf plan.acceptedBlocks)) := by
  have horder : ∀ left ∈ plan.acceptedBlocks, ∀ right ∈ plan.acceptedBlocks,
      (left.block.location ≤ right.block.location ↔
        left.block.location.start ≤ right.block.location.start) := by
    intro left hleft right hright
    refine @List.Pairwise.forall_of_forall_of_flip AcceptedCheckpoint _
      (fun left right => left.block.location ≤ right.block.location ↔
        left.block.location.start ≤ right.block.location.start)
      (fun _ _ => ⟨fun _ => le_rfl, fun _ => le_rfl⟩) (h.disjoint.imp_of_mem ?_)
      (h.disjoint.imp_of_mem ?_) _ hleft _ hright
    · intro left right hleft hright hdisjoint
      exact location_le_iff (h.bounds left hleft).1 (h.bounds right hright).1 hdisjoint
    · intro left right hleft hright hdisjoint
      exact location_le_iff (h.bounds right hright).1 (h.bounds left hleft).1 hdisjoint.symm
  have hlocations : (plan.acceptedBlocks.map fun checkpoint => checkpoint.manifestEntry).map
      (fun entry => entry.location) =
        plan.acceptedBlocks.map fun checkpoint => checkpoint.block.location := by
    rw [List.map_map]
    exact List.map_congr_left h.entry
  rw [Records, splitPieces_seed?, ← seedsOf, map_seedLocation_seedsOf, ← hlocations,
    CheckpointManifestCodec.sortEntries]
  apply List.map_mergeSort
  intro left hleft right hright
  obtain ⟨leftBlock, hleftBlock, rfl⟩ := List.mem_map.mp hleft
  obtain ⟨rightBlock, hrightBlock, rfl⟩ := List.mem_map.mp hright
  rw [h.entry leftBlock hleftBlock, h.entry rightBlock hrightBlock]
  exact decide_eq_decide.mpr (horder leftBlock hleftBlock rightBlock hrightBlock)

/-! ## Publications -/

/-- What a writer has counted: the accepted blocks before its first publication, and all planned
blocks from there on. -/
def IsAccounted (accepted total : UInt64) (tracker : Option ProgressTracker)
    (writer : CheckpointFrontierWriter) : Prop :=
  ∃ counted, tracker = some counted ∧ counted.completedCheckpointBlocks =
    if writer.initialFrontierWorkPublished then total else accepted

/-- Nothing was published, and the first frontier will have a number of new blocks. -/
structure IsUnpublished (accepted blocks : UInt64) (identity : ComputationIdentity)
    (entries : List ManifestEntry) (tracker : Option ProgressTracker)
    (writer : CheckpointFrontierWriter) : Prop where
  tracker : ∃ counted, tracker = some counted ∧ isTerminal counted.phase = false ∧
    counted.plan.totalTerms = identity.termCount ∧
    counted.plan.totalCheckpointBlocks = accepted + blocks ∧
    counted.completedCheckpointBlocks = accepted
  identity : writer.identity = identity
  entries : writer.entries = entries
  lastCommit : writer.lastCommit = none
  commitCount : writer.commitCount = 0
  published : writer.initialFrontierWorkPublished = false
  work : writer.initialFrontierWork = none ∨ writer.initialFrontierWork = some blocks

/-- All planned blocks are counted. -/
structure IsSettled (accepted total : UInt64) (tracker : Option ProgressTracker)
    (writer : CheckpointFrontierWriter) : Prop where
  tracker : ∃ counted, tracker = some counted ∧ counted.plan.totalCheckpointBlocks = total ∧
    counted.completedCheckpointBlocks = total
  published : writer.initialFrontierWorkPublished = true ∨ accepted = total

section

variable {accepted blocks total : UInt64} {identity : ComputationIdentity}
  {entries : List ManifestEntry} {tracker : Option ProgressTracker}
  {writer : CheckpointFrontierWriter}

theorem IsUnpublished.isAccounted
    (h : IsUnpublished accepted blocks identity entries tracker writer) :
    IsAccounted accepted (accepted + blocks) tracker writer := by
  obtain ⟨counted, htracker, -, -, -, hcompleted⟩ := h.tracker
  refine ⟨counted, htracker, ?_⟩
  rw [h.published, hcompleted]
  rfl

theorem IsSettled.isAccounted (h : IsSettled accepted total tracker writer) :
    IsAccounted accepted total tracker writer := by
  obtain ⟨counted, htracker, -, hcompleted⟩ := h.tracker
  refine ⟨counted, htracker, ?_⟩
  rcases h.published with hpublished | hequal
  · rw [hpublished, hcompleted]
    rfl
  · rw [hcompleted, hequal, ite_self]

/-- When nothing is left to compute, all planned blocks are counted from the start. -/
theorem IsUnpublished.isSettled (h : IsUnpublished accepted 0 identity entries tracker writer) :
    IsSettled accepted (accepted + 0) tracker writer := by
  obtain ⟨counted, htracker, -, -, htotal, hcompleted⟩ := h.tracker
  refine ⟨⟨counted, htracker, htotal, ?_⟩, .inr (UInt64.add_zero accepted).symm⟩
  rw [hcompleted, UInt64.add_zero]

/-- No more blocks are counted than are planned. -/
theorem publishCheckpointProgress_settled {counted : ProgressTracker}
    (h : counted.completedCheckpointBlocks = counted.plan.totalCheckpointBlocks)
    (update : Progress.CheckpointProgressUpdate) :
    (counted.publishCheckpointProgress update).2.completedCheckpointBlocks =
      counted.completedCheckpointBlocks := by
  rw [ProgressTracker.publishCheckpointProgress]
  split
  · rfl
  · simp only [h, UInt64.sub_self, min_eq_right UInt64.zero_le, UInt64.add_zero]

/-- A commit after the first publication counts nothing. -/
theorem IsSettled.commitFrontier_meets (nodes : List BinaryNode) (treeLevels : List UInt32) :
    Meets (Holds (IsSettled accepted total))
      (CheckpointFrontierWriter.commitFrontier nodes treeLevels)
      (fun _ => Holds (IsSettled accepted total)) (fun _ => Holds (IsSettled accepted total)) := by
  apply commitFrontier_keeps
  · exact fun _ _ _ h => ⟨h.tracker, h.published⟩
  · intro tracker writer candidates update h _
    obtain ⟨counted, rfl, htotal, hcompleted⟩ := h.tracker
    refine ⟨⟨_, rfl, ?_, ?_⟩, .inl rfl⟩
    · rw [(counted.publishCheckpointProgress_frame update).1, htotal]
    · have hsettled := publishCheckpointProgress_settled (hcompleted.trans htotal.symm) update
      exact hsettled.trans hcompleted
  · exact fun _ _ _ _ _ h => ⟨h.tracker, h.published⟩

/-- The first publication counts the blocks that were computed. -/
theorem IsUnpublished.publish (h : IsUnpublished accepted blocks identity entries tracker writer)
    {found : List Checkpoint.CandidateEntry} {update : Progress.CheckpointProgressUpdate}
    (hsome : writer.initialFrontierWork.isSome = true) (hupdate : IsUpdateOf writer found update)
    (hbounds : ∀ candidate ∈ found,
      candidate.entry.location.start < candidate.entry.location.stop ∧
        candidate.entry.location.stop ≤ identity.termCount) :
    IsSettled accepted (accepted + blocks)
      (tracker.map fun tracker => (tracker.publishCheckpointProgress update).2)
      { writer with initialFrontierWorkPublished := true } := by
  obtain ⟨counted, rfl, hphase, hterms, htotal, hcompleted⟩ := h.tracker
  have hwork : writer.initialFrontierWork = some blocks := by
    refine h.work.resolve_left fun hnone => ?_
    rw [hnone] at hsome
    cases hsome
  have hblocks : update.completedBlocks = blocks := by
    rw [hupdate.completedBlocks, h.published, hwork]
    rfl
  have hrange : update.lastCommitted.any counted.rejectsRange = false := by
    rw [hupdate.lastCommitted, CheckpointFrontierWriter.lastCommitted]
    cases hlast : (found.filter fun candidate => candidate.newNode.isSome).getLast? with
    | none => rfl
    | some candidate =>
        have hmem := List.mem_of_mem_filter (List.mem_of_getLast? hlast)
        have hvalid := hbounds candidate hmem
        simp [ProgressTracker.rejectsRange, hterms, hvalid]
  have hpublish : (counted.publishCheckpointProgress update).2.completedCheckpointBlocks =
      counted.completedCheckpointBlocks + min update.completedBlocks
        (counted.plan.totalCheckpointBlocks - counted.completedCheckpointBlocks) := by
    rw [ProgressTracker.publishCheckpointProgress, if_neg (by simp [hrange, hphase])]
  refine ⟨⟨_, rfl, ?_, ?_⟩, .inl rfl⟩
  · rw [(counted.publishCheckpointProgress_frame update).1, htotal]
  · rw [hpublish, hblocks, htotal, hcompleted, UInt64.add_comm accepted blocks,
      UInt64.add_sub_cancel, min_self, UInt64.add_comm]

/-- The commit of the first frontier counts the blocks that were computed for it. -/
theorem IsUnpublished.commitFrontier_meets {pieces : List LayoutPiece} {stop : UInt64}
    (htiles : Tiles 0 (pieces.map LayoutPiece.range) stop) (hrecords : Records entries pieces)
    (hblocks : blocks = UInt64.ofNat (blockCount pieces)) :
    Meets (Holds (IsUnpublished accepted blocks identity entries))
      (CheckpointFrontierWriter.commitFrontier (pieces.map LayoutPiece.node)
        (pieces.map LayoutPiece.treeLevel))
      (fun _ => Holds (IsSettled accepted (accepted + blocks)))
      (fun _ => Holds (IsAccounted accepted (accepted + blocks))) := by
  have haccounted (session : WriterSession)
      (h : Holds (IsUnpublished accepted blocks identity entries) session) :
      Holds (IsAccounted accepted (accepted + blocks)) session := h.isAccounted
  rw [CheckpointFrontierWriter.commitFrontier]
  refine Meets.bind (Action.guard_meets fun _ => haccounted) fun _ => ?_
  refine Meets.bind (Action.guard_meets fun _ => haccounted) fun _ => ?_
  refine Meets.bind_of (fun writer session => (writer.lastCommit = none ∧
    writer.commitCount = 0 ∧ writer.identity = identity ∧ writer.entries = entries) ∧
      Holds (IsUnpublished accepted blocks identity entries) session) ?_
        fun writer => Meets.of_pre ?_
  · exact fun session h => ⟨⟨h.lastCommit, h.commitCount, h.identity, h.entries⟩, h⟩
  rintro ⟨hlastCommit, hcommitCount, rfl, rfl⟩
  have hgated : writer.isGated (pieces.map LayoutPiece.node) = pure false := by
    rw [CheckpointFrontierWriter.isGated, hlastCommit]
  rw [hgated]
  refine Meets.bind_of (fun gated session => gated = false ∧
    Holds (IsUnpublished accepted blocks writer.identity writer.entries) session)
      (fun session h => ⟨rfl, h⟩) fun gated => Meets.of_pre ?_
  rintro rfl
  rw [if_neg Bool.false_ne_true]
  refine Meets.bind (Action.ofExcept_meets fun _ session _ => haccounted session) fun result =>
    Meets.of_pre fun hcandidates => ?_
  have hentries : Records (writer.entries.dropWhile fun entry => entry.location.start < 0)
      pieces := by
    rwa [dropWhile_of_start_le fun _ _ => UInt64.zero_le]
  obtain ⟨hcount, hbounds⟩ := candidates_pieces htiles hentries hcandidates
  refine Meets.bind (Action.guard_meets fun _ => haccounted) fun _ => ?_
  rw [if_neg (fun hsame => hsame.1 hcommitCount)]
  refine Meets.bind (Action.guard_meets fun _ => haccounted) fun _ => ?_
  refine (publish_meets ?_ ?_ ?_).consequence (fun _ => id) (fun _ _ => id)
    fun _ session h => h.elim (haccounted session) fun h => IsSettled.isAccounted h
  · intro tracker other h
    refine { h with work := .inr ?_ }
    rw [CheckpointFrontierWriter.withWork]
    rcases h.work with hnone | hsome
    · simp [hnone, hcount, hblocks]
    · simp [hsome]
  · exact fun tracker other update h hsome hupdate => h.publish hsome hupdate hbounds
  · exact fun _ _ _ _ _ h => ⟨h.tracker, h.published⟩

end

/-! ## Calculations -/

variable {τ : Type}

def TrackerCall.isReport : TrackerCall → Bool
  | termsCompleted _ => true
  | _ => false

/-- The number of blocks that the observer reported. -/
def reportedBlocks (calls : List (TrackerCall × Bool)) : ℕ :=
  (calls.filter fun call => call.1.isReport).length

theorem TrackerCall.perform_frame (call : TrackerCall) (counted : ProgressTracker) :
    (call.perform counted).2.plan = counted.plan ∧
      (call.perform counted).2.completedCheckpointBlocks = counted.completedCheckpointBlocks := by
  cases call with
  | termsCompleted count =>
      simp only [perform, ProgressTracker.addCompletedTerms]
      split <;> exact ⟨rfl, rfl⟩
  | completeTerms count =>
      simp only [perform, ProgressTracker.addCompletedTerms]
      split <;> exact ⟨rfl, rfl⟩
  | transitionTo phase =>
      simp only [perform, ProgressTracker.transitionTo]
      split <;> exact ⟨rfl, rfl⟩

/-- A call changes the tracker of the session only. -/
theorem Calculation.call_eq {calculation : Calculation τ} {counted : ProgressTracker}
    (h : calculation.session.world.tracker = some counted) (call : TrackerCall) :
    (calculation.call call).2 =
      { calculation.setTracker (call.perform counted).2 with
        calls := (call, (call.perform counted).1) :: calculation.calls } := by
  have htracker : calculation.tracker = some counted := h
  rw [Calculation.call, htracker]

section

variable {accepted blocks total : UInt64} {identity : ComputationIdentity}
  {entries : List ManifestEntry} {calculation : Calculation τ}

theorem IsAccounted.call (h : Holds (IsAccounted accepted total) calculation.session)
    (call : TrackerCall) :
    Holds (IsAccounted accepted total) (calculation.call call).2.session := by
  obtain ⟨counted, htracker, hcompleted⟩ := h
  rw [Calculation.call_eq htracker]
  exact ⟨_, rfl, (call.perform_frame counted).2.trans hcompleted⟩

/-- A calculation before the first publication, whose tasks in `done` have reported. -/
structure IsComputing (accepted blocks : UInt64) (identity : ComputationIdentity)
    (entries : List ManifestEntry) (done : Finset ℕ) (calculation : Calculation τ) : Prop where
  session : Holds (IsUnpublished accepted blocks identity entries) calculation.session
  reported : reportedBlocks calculation.calls = done.card

/-- A calculation whose planned blocks are counted, with the number of blocks reported. -/
structure IsCounted (accepted total : UInt64) (reported : ℕ) (calculation : Calculation τ) :
    Prop where
  session : Holds (IsSettled accepted total) calculation.session
  reported : reportedBlocks calculation.calls = reported

variable {reported : ℕ} {done : Finset ℕ}

theorem IsComputing.isAccounted
    (h : IsComputing accepted blocks identity entries done calculation) :
    Holds (IsAccounted accepted (accepted + blocks)) calculation.session :=
  IsUnpublished.isAccounted h.session

theorem IsCounted.isAccounted (h : IsCounted accepted total reported calculation) :
    Holds (IsAccounted accepted total) calculation.session :=
  IsSettled.isAccounted h.session

/-- Every computed block is reported once. -/
theorem IsComputing.termsCompleted
    (h : IsComputing accepted blocks identity entries done calculation) (count : UInt64) {i : ℕ}
    (hnew : i ∉ done) :
    IsComputing accepted blocks identity entries (insert i done)
      (trackerSplitObserver.termsCompleted count calculation) := by
  obtain ⟨counted, htracker, hphase, hterms, htotal, hcompleted⟩ := h.session.tracker
  have hcall : trackerSplitObserver.termsCompleted count calculation =
      { calculation.setTracker (counted.addCompletedTerms count).2 with
        calls := (.termsCompleted count, (counted.addCompletedTerms count).1) ::
          calculation.calls } := Calculation.call_eq htracker _
  obtain ⟨hplan, hblocks⟩ := (TrackerCall.termsCompleted count).perform_frame counted
  have hsame : (counted.addCompletedTerms count).2.phase = counted.phase := by
    rw [ProgressTracker.addCompletedTerms]
    split <;> rfl
  rw [hcall]
  refine ⟨{ h.session with tracker := ⟨_, rfl, ?_, ?_, ?_, ?_⟩ }, ?_⟩
  · rw [hsame, hphase]
  · exact (congrArg _ hplan).trans hterms
  · exact (congrArg _ hplan).trans htotal
  · exact hblocks.trans hcompleted
  · rw [Finset.card_insert_of_notMem hnew, ← h.reported]
    rfl

theorem IsCounted.call (h : IsCounted accepted total reported calculation) (call : TrackerCall)
    (hother : call.isReport = false) :
    IsCounted accepted total reported (calculation.call call).2 := by
  obtain ⟨counted, htracker, htotal, hcompleted⟩ := h.session.tracker
  obtain ⟨hplan, hblocks⟩ := call.perform_frame counted
  have hreported : reportedBlocks ((call, (call.perform counted).1) :: calculation.calls) =
      reported := by
    rw [reportedBlocks, List.filter_cons_of_neg (by simp [hother]), ← h.reported, reportedBlocks]
  rw [Calculation.call_eq htracker]
  exact ⟨⟨⟨_, rfl, (congrArg _ hplan).trans htotal, hblocks.trans hcompleted⟩, h.session.published⟩,
    hreported⟩

/-- The start of a merge level counts no blocks. -/
theorem IsCounted.mergeLevelStarted (h : IsCounted accepted total reported calculation)
    (mergeLevel : UInt32) :
    IsCounted accepted total reported
      (trackerSplitObserver.mergeLevelStarted mergeLevel calculation) := by
  change IsCounted accepted total reported (if calculation.tracker.isNone ∨
    calculation.merging = true then calculation else _)
  split
  · exact h
  · obtain ⟨hsession, hreported⟩ := h.call (.transitionTo .merging) rfl
    exact ⟨hsession, hreported⟩

/-- What storage does is not seen. -/
theorem onStorage_keeps {α : Type} {condition : Calculation τ → Prop}
    (hcondition : ∀ calculation storage, condition calculation →
      condition { calculation with storage := storage }) (action : Action τ α) :
    Meets condition (Calculation.onStorage action) (fun _ => condition) (fun _ => condition) := by
  intro calculation h
  rw [Calculation.onStorage]
  cases action calculation.storage with
  | ok a storage => exact hcondition _ _ h
  | error e storage => exact hcondition _ _ h

/-- An action of the session, in a calculation. -/
theorem onSession_meets {α : Type} {action : Action WriterSession α} {pre : WriterSession → Prop}
    {post : α → WriterSession → Prop} {fail : Error → WriterSession → Prop}
    (h : Meets pre action post fail) (calls : List (TrackerCall × Bool) → Prop) :
    Meets (fun calculation : Calculation τ => pre calculation.session ∧ calls calculation.calls)
      (Calculation.onSession action)
      (fun a calculation => post a calculation.session ∧ calls calculation.calls)
      (fun e calculation => fail e calculation.session ∧ calls calculation.calls) := by
  rintro calculation ⟨hpre, hcalls⟩
  have hresult := h calculation.session hpre
  rw [Calculation.onSession]
  cases hrun : action calculation.session with
  | ok a session =>
      rw [hrun] at hresult
      exact ⟨hresult, hcalls⟩
  | error e session =>
      rw [hrun] at hresult
      exact ⟨hresult, hcalls⟩

variable {pieces : List LayoutPiece} {stop : UInt64}

/-- The commit of the first frontier. -/
theorem isComputing_commitFrontier (htiles : Tiles 0 (pieces.map LayoutPiece.range) stop)
    (hrecords : Records entries pieces) (hblocks : blocks = UInt64.ofNat (blockCount pieces)) :
    Meets (IsComputing (τ := τ) accepted blocks identity entries done)
      ((checkpointCoordinator true).commitFrontier (pieces.map LayoutPiece.node)
        (pieces.map LayoutPiece.treeLevel))
      (fun _ => IsCounted accepted (accepted + blocks) done.card)
      (fun _ calculation => Holds (IsAccounted accepted (accepted + blocks)) calculation.session) :=
  (onSession_meets (IsUnpublished.commitFrontier_meets htiles hrecords hblocks)
    fun calls => reportedBlocks calls = done.card).consequence
      (fun _ h => ⟨h.session, h.reported⟩) (fun _ _ h => ⟨h.1, h.2⟩) fun _ _ h => h.1

/-- The coordinators keep what is counted. -/
theorem keep_isCounted (mergeCoordinator : BinaryMergeCoordinator τ) :
    Keep trackerSplitObserver (storageCoordinator mergeCoordinator) (checkpointCoordinator true)
      (IsCounted accepted total reported) where
  level := fun mergeLevel _ h => h.mergeLevelStarted mergeLevel
  observe := fun _ _ => onStorage_keeps (fun _ _ h => ⟨h.session, h.reported⟩) _
  prepare := fun _ _ => onStorage_keeps (fun _ _ h => ⟨h.session, h.reported⟩) _
  spill := fun _ _ => onStorage_keeps (fun _ _ h => ⟨h.session, h.reported⟩) _
  commit := fun nodes treeLevels =>
    (onSession_meets (IsSettled.commitFrontier_meets nodes treeLevels)
      fun calls => reportedBlocks calls = reported).consequence
        (fun _ h => ⟨h.session, h.reported⟩) (fun _ _ h => ⟨h.1, h.2⟩) fun _ _ h => ⟨h.1, h.2⟩

end

/-! ## Watched splits -/

/-- Every state that a report leaves is recorded. -/
def watchedObserver : BinarySplitObserver (Watched (Calculation τ)) where
  termsCompleted count := Watched.update (trackerSplitObserver.termsCompleted count)
  mergeLevelStarted mergeLevel :=
    Watched.update (trackerSplitObserver.mergeLevelStarted mergeLevel)

/-- Every state that storage leaves is recorded. -/
def watchedStorage (mergeCoordinator : BinaryMergeCoordinator τ) :
    BinaryMergeCoordinator (Watched (Calculation τ)) where
  observeResidentNodes nodes mergeLevel :=
    Watched.watch ((storageCoordinator mergeCoordinator).observeResidentNodes nodes mergeLevel)
  prepareMergeNodes nodes mergeLevel :=
    Watched.watch ((storageCoordinator mergeCoordinator).prepareMergeNodes nodes mergeLevel)
  spillAfterMergeLevel nodes mergeLevel :=
    Watched.watch ((storageCoordinator mergeCoordinator).spillAfterMergeLevel nodes mergeLevel)

/-- Every state that a commit leaves is recorded. -/
def watchedCheckpoints : BinaryCheckpointCoordinator (Watched (Calculation τ)) where
  commitFrontier nodes treeLevels :=
    Watched.watch ((checkpointCoordinator true).commitFrontier nodes treeLevels)

/-- A condition on the state, when every recorded state is accounted. -/
def SeesAccounted (accepted total : UInt64) (now : Calculation τ → Prop) :
    Watched (Calculation τ) → Prop :=
  Watched.Sees (fun calculation => Holds (IsAccounted accepted total) calculation.session) now

def SeesComputing (accepted blocks : UInt64) (identity : ComputationIdentity)
    (entries : List ManifestEntry) (done : Finset ℕ) : Watched (Calculation τ) → Prop :=
  SeesAccounted accepted (accepted + blocks)
    (IsComputing accepted blocks identity entries done)

section

variable {accepted blocks total : UInt64} {identity : ComputationIdentity}
  {entries : List ManifestEntry} {executor : Executor} {options : ParallelSplitOptions}
  {plan : CheckpointResumePlan}

/-- When nothing was to be computed, everything is counted from the start. -/
theorem IsComputing.isCounted {done : Finset ℕ} {calculation : Calculation τ}
    (h : IsComputing accepted blocks identity entries done calculation) (hnone : blocks = 0) :
    IsCounted accepted (accepted + blocks) done.card calculation := by
  subst hnone
  exact ⟨IsUnpublished.isSettled h.session, h.reported⟩

variable (mergeCoordinator : BinaryMergeCoordinator τ) (hplan : IsPlanOf identity.termCount plan)
  (hentries : entries = CheckpointManifestCodec.sortEntries
    (plan.acceptedBlocks.map fun checkpoint => checkpoint.manifestEntry))
  (hblocks : blocks = UInt64.ofNat (blocksOf executor identity.termCount options plan).length)

include hplan hentries hblocks

/-- A split reports its blocks one by one, and counts them with the first frontier. -/
theorem splitParallel_isCounted :
    Meets (IsComputing (τ := τ) accepted blocks identity entries ∅)
      (splitParallel executor trackerSplitObserver (storageCoordinator mergeCoordinator)
        (checkpointCoordinator true) 0 identity.termCount options (frontierOf plan.acceptedBlocks))
      (fun _ => IsCounted accepted (accepted + blocks)
        (blocksOf executor identity.termCount options plan).length)
      (fun _ calculation =>
        Holds (IsAccounted accepted (accepted + blocks)) calculation.session) := by
  apply splitParallel_phases
  · exact fun _ _ h => h.isAccounted
  · exact fun _ i block _ done hnew _ h => h.termsCompleted _ hnew
  · intro nodes
    exact (onStorage_keeps (fun _ _ h => ⟨h.session, h.reported⟩) _).consequence (fun _ => id)
      (fun _ _ => id) fun _ _ h => h.isAccounted
  · intro hsplittable _
    rw [← Finset.card_range (blocksOf executor identity.termCount options plan).length]
    exact isComputing_commitFrontier (hsplittable.tiles executor)
      (hentries ▸ hplan.records executor options) hblocks
  · intro _ hnone s h
    have hnil : blocksOf executor identity.termCount options plan = [] := hnone
    rw [hnil] at hblocks ⊢
    exact h.isCounted hblocks
  · exact keep_isCounted mergeCoordinator
  · exact fun _ _ h => h.isAccounted

/-- Every state recorded in a split is accounted. -/
theorem splitParallel_sees :
    Meets (SeesComputing (τ := τ) accepted blocks identity entries ∅)
      (splitParallel executor watchedObserver (watchedStorage mergeCoordinator) watchedCheckpoints
        0 identity.termCount options (frontierOf plan.acceptedBlocks))
      (fun _ => SeesAccounted accepted (accepted + blocks) (IsCounted accepted (accepted + blocks)
        (blocksOf executor identity.termCount options plan).length))
      (fun _ => SeesAccounted accepted (accepted + blocks) fun calculation =>
        Holds (IsAccounted accepted (accepted + blocks)) calculation.session) := by
  have hkeep := @keep_isCounted τ accepted (accepted + blocks)
    (blocksOf executor identity.termCount options plan).length mergeCoordinator
  have hcounted {α : Type} {action : Action (Calculation τ) α}
      (h : Meets (IsCounted accepted (accepted + blocks)
          (blocksOf executor identity.termCount options plan).length) action
        (fun _ => IsCounted accepted (accepted + blocks)
          (blocksOf executor identity.termCount options plan).length)
        (fun _ => IsCounted accepted (accepted + blocks)
          (blocksOf executor identity.termCount options plan).length)) :=
    Watched.watch_meets h (fun _ _ h => h.isAccounted) fun _ _ h => h.isAccounted
  apply splitParallel_phases
  · exact fun _ _ h => h.imp fun _ h => h.isAccounted
  · intro _ i block _ done hnew _ h
    exact h.update (fun _ h => h.termsCompleted _ hnew) fun _ h => h.isAccounted
  · intro nodes
    refine Watched.watch_meets ?_ (fun _ _ h => h.isAccounted) fun _ _ h => h
    exact (onStorage_keeps (fun _ _ h => ⟨h.session, h.reported⟩) _).consequence (fun _ => id)
      (fun _ _ => id) fun _ _ h => h.isAccounted
  · intro hsplittable _
    rw [← Finset.card_range (blocksOf executor identity.termCount options plan).length]
    exact Watched.watch_meets (isComputing_commitFrontier (hsplittable.tiles executor)
      (hentries ▸ hplan.records executor options) hblocks) (fun _ _ h => h.isAccounted)
        fun _ _ h => h
  · intro _ hnone s h
    have hnil : blocksOf executor identity.termCount options plan = [] := hnone
    rw [hnil] at hblocks ⊢
    exact h.imp fun _ h => h.isCounted hblocks
  · exact
      { level := fun mergeLevel _ h =>
          h.update (fun s hs => hkeep.level mergeLevel s hs) fun _ h => h.isAccounted
        observe := fun nodes mergeLevel => hcounted (hkeep.observe nodes mergeLevel)
        prepare := fun nodes mergeLevel => hcounted (hkeep.prepare nodes mergeLevel)
        spill := fun nodes mergeLevel => hcounted (hkeep.spill nodes mergeLevel)
        commit := fun nodes treeLevels => hcounted (hkeep.commit nodes treeLevels) }
  · exact fun _ _ h => h.imp fun _ h => h.isAccounted

end

/-! ## Whole calculations -/

section

variable {accepted blocks total : UInt64} {identity : ComputationIdentity}
  {entries : List ManifestEntry}

theorem isAccounted_require (call : TrackerCall) (what : String) :
    Meets (fun calculation : Calculation τ => Holds (IsAccounted accepted total) calculation.session)
      (Calculation.require call what)
      (fun _ calculation => Holds (IsAccounted accepted total) calculation.session)
      (fun _ calculation => Holds (IsAccounted accepted total) calculation.session) := by
  intro calculation h
  have hcall := IsAccounted.call h call
  rw [Calculation.require]
  cases hrun : calculation.call call with
  | mk done after =>
      rw [hrun] at hcall
      cases done with
      | true => exact hcall
      | false => exact hcall

theorem beginProgress_eq (precision : PrecisionPlan) {calculation : Calculation τ}
    {counted : ProgressTracker} (h : calculation.tracker = some counted) :
    beginProgress precision calculation =
      (Action.ofExcept (throwIf (counted.plan.targetDigits ≠ precision.requestedDigits ∨
          counted.plan.totalTerms ≠ precision.termCount)
        (.invalidArgument "Progress tracker work plan does not match calculation precision")) >>=
          fun _ => Calculation.require (.transitionTo .splitting)
            "Cannot enter progress splitting phase") calculation := by
  simp only [beginProgress, Library.Program.get_bind, h]
  rfl

theorem isComputing_require (what : String) :
    Meets (IsComputing (τ := τ) accepted blocks identity entries ∅)
      (Calculation.require (.transitionTo .splitting) what)
      (fun _ => IsComputing accepted blocks identity entries ∅)
      (fun _ calculation => Holds (IsAccounted accepted (accepted + blocks)) calculation.session) := by
  intro calculation h
  have haccounted := IsAccounted.call h.isAccounted (.transitionTo .splitting)
  obtain ⟨counted, htracker, hphase, hplan⟩ := h.session.tracker
  have hcall := Calculation.call_eq htracker (.transitionTo .splitting)
  have hkept : IsComputing accepted blocks identity entries ∅
      (calculation.call (.transitionTo .splitting)).2 := by
    rw [hcall]
    have hstays : isTerminal (counted.transitionTo .splitting).2.phase = false ∧
        (counted.transitionTo .splitting).2 =
          { counted with phase := (counted.transitionTo .splitting).2.phase } := by
      rw [ProgressTracker.transitionTo]
      split
      · exact ⟨rfl, rfl⟩
      · exact ⟨hphase, rfl⟩
    refine ⟨{ h.session with tracker := ⟨_, rfl, hstays.1, ?_⟩ }, h.reported⟩
    rw [TrackerCall.perform, hstays.2]
    exact hplan
  rw [Calculation.require]
  cases hrun : calculation.call (.transitionTo .splitting) with
  | mk done after =>
      rw [hrun] at hkept haccounted
      cases done with
      | true => exact hkept
      | false => exact haccounted

/-- A calculation that begins has the terms of the computation. -/
theorem isComputing_beginProgress (precision : PrecisionPlan) :
    Meets (IsComputing (τ := τ) accepted blocks identity entries ∅) (beginProgress precision)
      (fun _ calculation => precision.termCount = identity.termCount ∧
        IsComputing accepted blocks identity entries ∅ calculation)
      (fun _ calculation => Holds (IsAccounted accepted (accepted + blocks)) calculation.session) := by
  intro calculation h
  obtain ⟨counted, htracker, -, hterms, -⟩ := h.session.tracker
  rw [beginProgress_eq precision htracker]
  by_cases hmismatch : counted.plan.targetDigits ≠ precision.requestedDigits ∨
      counted.plan.totalTerms ≠ precision.termCount
  · rw [throwIf_pos hmismatch]
    exact h.isAccounted
  · rw [throwIf_neg hmismatch]
    rw [not_or, not_not, not_not] at hmismatch
    have hterms' : precision.termCount = identity.termCount := hmismatch.2.symm.trans hterms
    exact ((isComputing_require "Cannot enter progress splitting phase").weaken
      fun _ _ hbegun => ⟨hterms', hbegun⟩) calculation h

theorem isAccounted_completeTerms (totalTerms : UInt64) :
    Meets (fun calculation : Calculation τ => Holds (IsAccounted accepted total) calculation.session)
      (completeTerms totalTerms)
      (fun _ calculation => Holds (IsAccounted accepted total) calculation.session)
      (fun _ calculation => Holds (IsAccounted accepted total) calculation.session) := by
  refine Meets.bind_of (fun _ calculation => Holds (IsAccounted accepted total) calculation.session)
    (fun _ h => h) fun seen => ?_
  cases seen.tracker with
  | none => exact Meets.pure fun _ h => h
  | some counted =>
      exact Meets.bind (Action.guard_meets fun _ _ h => h) fun _ => isAccounted_require _ _

theorem isAccounted_finishResult (precision : PrecisionPlan) (node : BinaryNode)
    (deferProgressCompletion : Bool) :
    Meets (fun calculation : Calculation τ => Holds (IsAccounted accepted total) calculation.session)
      (finishResult precision node deferProgressCompletion)
      (fun _ calculation => Holds (IsAccounted accepted total) calculation.session)
      (fun _ calculation => Holds (IsAccounted accepted total) calculation.session) := by
  rw [finishResult]
  refine Meets.bind (isAccounted_require _ _) fun _ => ?_
  refine Meets.bind (Action.guard_meets fun _ _ h => h) fun result => ?_
  refine Meets.ite (fun _ => Meets.pure fun _ h => h) fun _ => ?_
  refine Meets.bind (isAccounted_require _ _) fun _ => ?_
  exact Meets.bind (isAccounted_require _ _) fun _ => Meets.pure fun _ h => h

/-- A calculation that fails has counted what it had. -/
theorem isAccounted_failProgress {calculation : Calculation τ}
    (h : Holds (IsAccounted accepted total) calculation.session) :
    Holds (IsAccounted accepted total) (failProgress calculation).session := by
  obtain ⟨counted, htracker, hcompleted⟩ := h
  have hfound : calculation.tracker = some counted := htracker
  have hsame : counted.markFailed.2.completedCheckpointBlocks =
      counted.completedCheckpointBlocks := by
    rw [ProgressTracker.markFailed]
    split <;> rfl
  rw [failProgress, hfound]
  exact ⟨_, rfl, hsame.trans hcompleted⟩

/-- A calculation ends, or throws, with all planned blocks counted if it published any. -/
theorem calculateParallel_isAccounted {executor : Executor} {options : ParallelSplitOptions}
    {plan : CheckpointResumePlan} (request : PiCalculationRequest)
    (deferProgressCompletion : Bool) (mergeCoordinator : BinaryMergeCoordinator τ)
    (hplan : IsPlanOf identity.termCount plan)
    (hentries : entries = CheckpointManifestCodec.sortEntries
      (plan.acceptedBlocks.map fun checkpoint => checkpoint.manifestEntry))
    (hblocks : blocks = UInt64.ofNat (blocksOf executor identity.termCount options plan).length) :
    Meets (IsComputing (τ := τ) accepted blocks identity entries ∅)
      (calculateParallel request deferProgressCompletion executor options mergeCoordinator
        (frontierOf plan.acceptedBlocks) true)
      (fun _ calculation => Holds (IsAccounted accepted (accepted + blocks)) calculation.session)
      (fun _ calculation => Holds (IsAccounted accepted (accepted + blocks)) calculation.session) := by
  apply Action.attempt_meets fun _ calculation =>
    Holds (IsAccounted accepted (accepted + blocks)) calculation.session
  · rw [calculateSteps]
    refine Meets.bind (Action.guard_meets fun _ _ h => h.isAccounted) fun precision => ?_
    refine Meets.bind (isComputing_beginProgress precision) fun _ => Meets.of_pre fun hterms => ?_
    refine Meets.bind_of (fun _ => IsComputing accepted blocks identity entries ∅)
      (fun _ h => ⟨h.session, h.reported⟩) fun _ => ?_
    rw [hterms]
    refine Meets.bind (splitParallel_isCounted mergeCoordinator hplan hentries hblocks)
      fun node => ?_
    refine Meets.strengthen ?_ fun _ h => h.isAccounted
    exact Meets.bind (isAccounted_completeTerms _) fun _ => isAccounted_finishResult _ _ _
  · intro error calculation h
    exact isAccounted_failProgress h

end

/-! ## The claims of the accounting -/

/-- A calculation with a tracker and a writer, before any call. -/
structure StartsWith (tracker : ProgressTracker) (writer : CheckpointFrontierWriter)
    (calculation : Calculation τ) : Prop where
  tracker : calculation.session.world.tracker = some tracker
  writer : calculation.session.writer = writer
  calls : calculation.calls = []

/-- A tracker restored from a plan and a writer made of it have counted the accepted blocks. -/
theorem StartsWith.isComputing {plan : CheckpointResumePlan} {identity : ComputationIdentity}
    {directory : Bytes} {interval : ℤ} {writer : CheckpointFrontierWriter}
    {fresh tracker : ProgressTracker} {blocks : UInt64} {calculation : Calculation τ}
    (h : StartsWith tracker writer calculation)
    (hwriter : CheckpointFrontierWriter.create directory identity interval
      (plan.acceptedBlocks.map fun checkpoint => checkpoint.manifestEntry) = .ok writer)
    (hrestore : ResumeProgressRestorer.restore plan fresh = (true, tracker))
    (hterms : fresh.plan.totalTerms = identity.termCount)
    (htotal : fresh.plan.totalCheckpointBlocks =
      UInt64.ofNat plan.acceptedBlocks.length + blocks) :
    IsComputing (UInt64.ofNat plan.acceptedBlocks.length) blocks identity
      (CheckpointManifestCodec.sortEntries
        (plan.acceptedBlocks.map fun checkpoint => checkpoint.manifestEntry)) ∅ calculation := by
  obtain ⟨-, -, -, -, rfl⟩ := CheckpointFrontierWriter.create_eq_ok_iff.mp hwriter
  have hrestored := Progress.ResumeProgressRestorer.isRestored_of_restore hrestore
  have hrunning : isTerminal tracker.phase = false := by
    rw [hrestored.phase]
    rw [ResumeProgressRestorer.restore] at hrestore
    split at hrestore
    · cases hrestore
    · next hfresh =>
        simp only [Progress.ResumeProgressRestorer.isFresh, Bool.not_eq_false, Bool.and_eq_true,
          decide_eq_true_eq] at hfresh
        simp [isTerminal, hfresh.1.2]
  refine ⟨?_, by rw [h.calls]; rfl⟩
  rw [Holds, h.tracker, h.writer]
  exact
    { tracker := ⟨tracker, rfl, hrunning, hrestored.workPlan ▸ hterms, hrestored.workPlan ▸ htotal,
        hrestored.blocks⟩
      identity := rfl
      entries := rfl
      lastCommit := rfl
      commitCount := rfl
      published := rfl
      work := .inl rfl }

/-- The planned number of blocks is that of the accepted blocks and of those that a split computes;
and in a run with the restored tracker and a writer made of the plan, the completed blocks are the
accepted ones before the first publication and all planned ones from there on. -/
theorem checkpointBlocks_accounted (executor : Executor) (options : ParallelSplitOptions)
    (mergeCoordinator : BinaryMergeCoordinator τ) (request : PiCalculationRequest)
    (deferProgressCompletion : Bool) {plan : CheckpointResumePlan} {termCount : UInt64}
    (hplan : IsPlanOf termCount plan) (hterms : termCount ≠ 0)
    (haccepts : acceptsStagedWork executor = true) (hcutoff : options.sequentialCutoff ≠ 0)
    (htasks : options.tasksPerWorker ≠ 0) :
    planCheckpointBlocks plan options executor.workerCount true =
        .ok (UInt64.ofNat (plan.acceptedBlocks.length +
          (blocksOf executor termCount options plan).length)) ∧
      ∀ (directory : Bytes) (identity : ComputationIdentity) (interval : ℤ)
        (writer : CheckpointFrontierWriter) (fresh tracker : ProgressTracker),
        identity.termCount = termCount →
        CheckpointFrontierWriter.create directory identity interval
          (plan.acceptedBlocks.map fun checkpoint => checkpoint.manifestEntry) = .ok writer →
        ResumeProgressRestorer.restore plan fresh = (true, tracker) →
        fresh.plan.totalTerms = termCount →
        planCheckpointBlocks plan options executor.workerCount true =
          .ok fresh.plan.totalCheckpointBlocks →
        Meets (fun watched : Watched (Calculation τ) =>
            watched.history = [] ∧ StartsWith tracker writer watched.state)
          (splitParallel executor watchedObserver (watchedStorage mergeCoordinator)
            watchedCheckpoints 0 termCount options (frontierOf plan.acceptedBlocks))
          (fun _ => SeesAccounted (UInt64.ofNat plan.acceptedBlocks.length)
            fresh.plan.totalCheckpointBlocks fun calculation =>
              reportedBlocks calculation.calls = (blocksOf executor termCount options plan).length)
          (fun _ => SeesAccounted (UInt64.ofNat plan.acceptedBlocks.length)
            fresh.plan.totalCheckpointBlocks fun _ => True) ∧
        Meets (StartsWith (τ := τ) tracker writer)
          (calculateParallel request deferProgressCompletion executor options mergeCoordinator
            (frontierOf plan.acceptedBlocks) true)
          (fun _ calculation => Holds (IsAccounted (UInt64.ofNat plan.acceptedBlocks.length)
            fresh.plan.totalCheckpointBlocks) calculation.session)
          (fun _ calculation => Holds (IsAccounted (UInt64.ofNat plan.acceptedBlocks.length)
            fresh.plan.totalCheckpointBlocks) calculation.session) := by
  have hplanned := planCheckpointBlocks_eq hplan hterms haccepts hcutoff htasks
  refine ⟨hplanned, ?_⟩
  rintro directory identity interval writer fresh tracker rfl hwriter hrestore hfresh htotal
  obtain ⟨blocks, hblocks⟩ : ∃ blocks, blocks =
      UInt64.ofNat (blocksOf executor identity.termCount options plan).length := ⟨_, rfl⟩
  have hsum : fresh.plan.totalCheckpointBlocks =
      UInt64.ofNat plan.acceptedBlocks.length + blocks := by
    rw [hblocks, ← UInt64.ofNat_add]
    exact Except.ok.inj (htotal.symm.trans hplanned)
  have hstart (calculation : Calculation τ) (h : StartsWith tracker writer calculation) :=
    h.isComputing hwriter hrestore hfresh hsum
  rw [hsum]
  constructor
  · have hsplit := @splitParallel_sees τ (UInt64.ofNat plan.acceptedBlocks.length) blocks identity _
      executor options plan mergeCoordinator hplan rfl hblocks
    refine hsplit.consequence ?_ ?_ ?_
    · rintro watched ⟨hempty, h⟩
      exact ⟨hstart _ h, by rw [hempty]; exact fun _ hmem => absurd hmem List.not_mem_nil⟩
    · exact fun _ _ h => h.imp fun _ h => h.reported
    · exact fun _ _ h => h.imp fun _ _ => trivial
  · exact (calculateParallel_isAccounted request deferProgressCompletion mergeCoordinator hplan rfl
      hblocks).strengthen hstart

/-- The identity of ten digits. -/
def tenIdentity : ComputationIdentity := ⟨⟨1⟩, 1, 1, 10, 16, 26, 3⟩

/-- The first term of ten digits, in the file that its entry names. -/
def recordedBlock : AcceptedCheckpoint where
  path := ⟨ascii "checkpoints", Checkpoint.CheckpointStore.blockFilename tenIdentity ⟨0, 1, 0⟩⟩
  fileSize := 200
  block := ⟨tenIdentity, ⟨0, 1, 0⟩, 1, 1, 13591409⟩
  manifestEntry :=
    ⟨⟨0, 1, 0⟩, Checkpoint.CheckpointStore.blockFilename tenIdentity ⟨0, 1, 0⟩, 96, .crc32c, 0,
      .complete⟩

/-- A plan that takes the first term over. -/
def recordedPlan : CheckpointResumePlan where
  acceptedBlocks := [recordedBlock]
  rangesToRecalculate := [⟨1, 3⟩]
  rejectedBlocks := []
  ignoredTemporaryFiles := []
  diagnostics := []

/-- A tracker that follows the three blocks of the plan. -/
def recordedTracker : ProgressTracker :=
  ProgressTracker.ofPlan ⟨10, 3, 3⟩

/-- An executor with two workers. -/
def twoWorkers : Executor :=
  ⟨true, 2, false, fun _ jobs => Library.Schedule.caller jobs⟩

theorem recordedPlan_isPlanOf : IsPlanOf 3 recordedPlan where
  bounds := by simp [recordedPlan, recordedBlock]
  disjoint := List.pairwise_singleton _ _
  entry := by simp [recordedPlan, recordedBlock]
  ranges := by decide +kernel

theorem checkpointBlocks_accounted_ten :
    planCheckpointBlocks recordedPlan ⟨1, 4⟩ 2 true = .ok 3 ∧
      Meets (fun watched : Watched (Calculation Unit) => watched.history = [] ∧
          StartsWith (ResumeProgressRestorer.restore recordedPlan recordedTracker).2
            (.fresh (ascii "checkpoints") tenIdentity 60 [recordedBlock.manifestEntry])
            watched.state)
        (splitParallel twoWorkers watchedObserver (watchedStorage .absent) watchedCheckpoints 0 3
          ⟨1, 4⟩ (frontierOf recordedPlan.acceptedBlocks))
        (fun _ => SeesAccounted 1 3 fun calculation => reportedBlocks calculation.calls =
          (blocksOf twoWorkers 3 ⟨1, 4⟩ recordedPlan).length)
        (fun _ => SeesAccounted 1 3 fun _ => True) := by
  have hcreate : CheckpointFrontierWriter.create (ascii "checkpoints") tenIdentity 60
      (recordedPlan.acceptedBlocks.map fun checkpoint => checkpoint.manifestEntry) =
        .ok (.fresh (ascii "checkpoints") tenIdentity 60 [recordedBlock.manifestEntry]) := by
    decide +kernel
  have hrestore : ResumeProgressRestorer.restore recordedPlan recordedTracker = (true,
      (ResumeProgressRestorer.restore recordedPlan recordedTracker).2) := by
    decide +kernel
  have htotal : planCheckpointBlocks recordedPlan ⟨1, 4⟩ twoWorkers.workerCount true =
      .ok recordedTracker.plan.totalCheckpointBlocks := by
    decide +kernel
  have haccounted := (checkpointBlocks_accounted twoWorkers ⟨1, 4⟩
    (BinaryMergeCoordinator.absent : BinaryMergeCoordinator Unit) ⟨10, 16⟩ false
    recordedPlan_isPlanOf (by decide) (by decide) (by decide) (by decide)).2
  exact ⟨htotal, (haccounted (ascii "checkpoints") tenIdentity 60 _ recordedTracker _ rfl hcreate
    hrestore rfl htotal).1⟩

end GiveMePi.Chudnovsky
