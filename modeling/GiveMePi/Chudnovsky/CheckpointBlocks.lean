import GiveMePi.Chudnovsky.CalculateParallel
import GiveMePi.Library.ProgramLogic
import GiveMePi.Progress.PlannedBlocks

/-! # The checkpoint blocks of a calculation

The planned number of blocks is what the tracker counts, from the first frontier that the writer
publishes on. -/

namespace GiveMePi.Chudnovsky

open Binary (BinaryFrontierNode BinaryMergeCoordinator BinaryNode Executor Layout LayoutPiece
  ParallelSplitOptions acceptsStagedWork boundedBlockCount boundedBlockCount_bounds computedBlocks
  computedBlocks_lt splitParallel
  splitParallel_phases splitPieces splitPieces_seed? splitPieces_tiles)
open Checkpoint.CheckpointResumePlanner (complement)
open Checkpoint (AcceptedCheckpoint BlockLocation CheckpointFrontierWriter CheckpointResumePlan)
open Library (Apart Meets Tiles Watched)
open Progress (ProgressTracker blockCount maximumBlocks planCheckpointBlocks rangeTerms
  seedLocation)

/-! ## Resume plans -/

/-- A plan of a computation: accepted blocks that are disjoint parts of its terms, in any order,
with the entries that record them, and the ranges they leave. -/
structure IsPlanOf (termCount : UInt64) (plan : CheckpointResumePlan) : Prop where
  bounds : ∀ checkpoint ∈ plan.acceptedBlocks,
    checkpoint.block.location.start < checkpoint.block.location.stop ∧
      checkpoint.block.location.stop ≤ termCount
  disjoint : plan.acceptedBlocks.Pairwise fun left right =>
    left.block.location.stop ≤ right.block.location.start ∨
      right.block.location.stop ≤ left.block.location.start
  entry : ∀ checkpoint ∈ plan.acceptedBlocks,
    checkpoint.manifestEntry.location = checkpoint.block.location
  ranges : plan.rangesToRecalculate = complement plan.acceptedBlocks termCount

/-! ## The planned number -/

/-- The seeds of a plan, in order. -/
def seedsOf (plan : CheckpointResumePlan) : List BinaryFrontierNode :=
  (frontierOf plan.acceptedBlocks).mergeSort fun left right => left.node.start ≤ right.node.start

theorem map_seedLocation_frontierOf (accepted : List AcceptedCheckpoint) :
    (frontierOf accepted).map seedLocation =
      accepted.map fun checkpoint => checkpoint.block.location := by
  rw [frontierOf, List.map_map]
  rfl

theorem map_seedLocation_seedsOf (plan : CheckpointResumePlan) :
    (seedsOf plan).map seedLocation =
      (plan.acceptedBlocks.map fun checkpoint => checkpoint.block.location).mergeSort
        fun left right => left.start ≤ right.start := by
  rw [seedsOf, List.map_mergeSort, map_seedLocation_frontierOf]
  intro left _ right _
  rfl

namespace IsPlanOf

variable {termCount : UInt64} {plan : CheckpointResumePlan}

theorem seed_bounds (h : IsPlanOf termCount plan) {seed : BinaryFrontierNode}
    (hmem : seed ∈ seedsOf plan) :
    seed.node.start < seed.node.stop ∧ seed.node.stop ≤ termCount := by
  have hfrontier := (List.mergeSort_perm _ _).mem_iff.mp hmem
  obtain ⟨checkpoint, hcheckpoint, rfl⟩ := List.mem_map.mp hfrontier
  exact h.bounds checkpoint hcheckpoint

/-- The seeds of a plan are apart. -/
theorem apart (h : IsPlanOf termCount plan) :
    Apart 0 ((seedsOf plan).map fun seed => seed.node.range) termCount := by
  have hdisjoint : (seedsOf plan).Pairwise fun left right =>
      left.node.stop ≤ right.node.start ∨ right.node.stop ≤ left.node.start := by
    apply (List.mergeSort_perm _ _).symm.pairwise _ fun hor => hor.symm
    rw [frontierOf]
    exact List.pairwise_map.mpr h.disjoint
  have hstarts : (seedsOf plan).Pairwise fun left right => left.node.start ≤ right.node.start := by
    have hpairwise := @List.pairwise_mergeSort BinaryFrontierNode
      (fun left right => decide (left.node.start ≤ right.node.start))
      (fun a b c hab hbc => by simpa using (of_decide_eq_true hab).trans (of_decide_eq_true hbc))
      (fun a b => by simpa using le_total a.node.start b.node.start)
      (frontierOf plan.acceptedBlocks)
    exact hpairwise.imp of_decide_eq_true
  apply Apart.of_pairwise _ _ UInt64.zero_le
  · apply List.pairwise_map.mpr
    refine (hstarts.and hdisjoint).imp_of_mem fun {left right} _ hright hpair => ?_
    rcases hpair.2 with hle | hle
    · exact hle
    · have hlt := (h.seed_bounds hright).1
      exact absurd (hlt.trans_le (hle.trans hpair.1)) (lt_irrefl _)
  · intro range hmem
    obtain ⟨seed, hseed, rfl⟩ := List.mem_map.mp hmem
    exact ⟨UInt64.zero_le, h.seed_bounds hseed⟩

end IsPlanOf

/-- The blocks that the splitter computes for a plan. -/
def blocksOf (executor : Executor) (termCount : UInt64) (options : ParallelSplitOptions)
    (plan : CheckpointResumePlan) : List (UInt64 × UInt64) :=
  computedBlocks executor 0 termCount options (frontierOf plan.acceptedBlocks)

section

variable {termCount : UInt64} {plan : CheckpointResumePlan} {executor : Executor}
  {options : ParallelSplitOptions}

/-- A calculation that the caller does at once is planned as one block. -/
theorem boundedBlockCount_of_direct (hterms : termCount ≠ 0)
    (haccepts : acceptsStagedWork executor = true) (htasks : options.tasksPerWorker ≠ 0)
    (hdirect : termCount ≤ options.sequentialCutoff ∨ acceptsStagedWork executor = false ∨
      boundedBlockCount termCount options.sequentialCutoff executor.workerCount
        options.tasksPerWorker < 2) :
    (boundedBlockCount termCount options.sequentialCutoff executor.workerCount
      options.tasksPerWorker).toNat = 1 := by
  have hworkers : executor.workerCount ≠ 0 := by
    simp only [acceptsStagedWork, Bool.and_eq_true, bne_iff_ne] at haccepts
    exact haccepts.1.2
  have hpositive : 0 < (boundedBlockCount termCount options.sequentialCutoff executor.workerCount
      options.tasksPerWorker).toNat := (boundedBlockCount_bounds hterms hworkers htasks).1
  rcases hdirect with hsmall | hidle | hfew
  · have hquotient : (termCount - 1) / options.sequentialCutoff = 0 := by
      have hle := UInt64.le_iff_toNat_le.mp hsmall
      have hne : termCount.toNat ≠ 0 := fun hzero => hterms (UInt64.toNat_inj.mp hzero)
      have hone : (1 : UInt64) ≤ termCount := by
        rw [UInt64.le_iff_toNat_le, UInt64.toNat_one]
        omega
      rw [← UInt64.toNat_inj, UInt64.toNat_div, UInt64.toNat_sub_of_le _ _ hone, UInt64.toNat_one,
        UInt64.toNat_zero]
      exact Nat.div_eq_of_lt (by omega)
    have hle : boundedBlockCount termCount options.sequentialCutoff executor.workerCount
        options.tasksPerWorker ≤ 1 := by
      rw [boundedBlockCount, hquotient]
      exact min_le_left _ _
    have := UInt64.le_iff_toNat_le.mp hle
    rw [UInt64.toNat_one] at this
    omega
  · rw [haccepts] at hidle
    cases hidle
  · have := UInt64.lt_iff_toNat_lt.mp hfew
    rw [show (2 : UInt64).toNat = 2 from rfl] at this
    omega

theorem length_blocksOf (plan : CheckpointResumePlan) (hterms : termCount ≠ 0)
    (haccepts : acceptsStagedWork executor = true) (htasks : options.tasksPerWorker ≠ 0) :
    (blocksOf executor termCount options plan).length =
      blockCount (Layout.frontierPieces executor options true termCount (seedsOf plan) 0) := by
  rw [blocksOf, computedBlocks, splitPieces]
  split
  · next hdirect =>
      have hnil : frontierOf plan.acceptedBlocks = [] := List.isEmpty_iff.mp hdirect.1
      have hseeds : seedsOf plan = [] := by rw [seedsOf, hnil, List.mergeSort_nil]
      have hpositive : 0 < termCount := UInt64.pos_iff_ne_zero.mpr hterms
      have hcount := boundedBlockCount_of_direct hterms haccepts htasks
        (UInt64.sub_zero termCount ▸ hdirect.2)
      rw [hseeds, Layout.frontierPieces, Layout.gapPiecesBelow, if_pos hpositive]
      refine Eq.trans ?_ (Layout.blockPieces_length _ _ _ _ _).symm
      rw [Layout.gapBlockCount, if_pos rfl, UInt64.sub_zero, hcount]
      rfl
  · rw [haccepts]
    rfl

/-- A plan has no more blocks than terms. -/
theorem IsPlanOf.length_le (h : IsPlanOf termCount plan) (hterms : termCount ≠ 0)
    (htasks : options.tasksPerWorker ≠ 0) :
    plan.acceptedBlocks.length + (blocksOf executor termCount options plan).length ≤
      termCount.toNat := by
  have htiles := splitPieces_tiles executor (UInt64.pos_iff_ne_zero.mpr hterms) htasks h.apart
  have hsum := Progress.sum_computedBlocks htiles
  have hseeds : plan.acceptedBlocks.length ≤
      ((frontierOf plan.acceptedBlocks).map fun seed => rangeTerms seed.node.range).sum := by
    rw [frontierOf, List.map_map]
    refine le_of_eq_of_le (List.length_map _).symm (List.length_le_sum_of_one_le _ ?_)
    intro terms hmem
    obtain ⟨checkpoint, hcheckpoint, rfl⟩ := List.mem_map.mp hmem
    have hlt := UInt64.lt_iff_toNat_lt.mp (h.bounds checkpoint hcheckpoint).1
    exact Nat.sub_pos_of_lt hlt
  have hblocks : (blocksOf executor termCount options plan).length ≤
      ((blocksOf executor termCount options plan).map rangeTerms).sum := by
    refine le_of_eq_of_le (List.length_map _).symm (List.length_le_sum_of_one_le _ ?_)
    intro terms hmem
    obtain ⟨block, hblock, rfl⟩ := List.mem_map.mp hmem
    exact Nat.sub_pos_of_lt (UInt64.lt_iff_toNat_lt.mp (computedBlocks_lt htiles hblock))
  rw [UInt64.toNat_zero] at hsum
  have : blocksOf executor termCount options plan =
    computedBlocks executor 0 termCount options (frontierOf plan.acceptedBlocks) := rfl
  rw [this] at hblocks ⊢
  omega

/-- The planned number is the number of accepted blocks and of blocks that the splitter computes. -/
theorem planCheckpointBlocks_eq (h : IsPlanOf termCount plan) (hterms : termCount ≠ 0)
    (haccepts : acceptsStagedWork executor = true) (hcutoff : options.sequentialCutoff ≠ 0)
    (htasks : options.tasksPerWorker ≠ 0) :
    planCheckpointBlocks plan options executor.workerCount true =
      .ok (UInt64.ofNat (plan.acceptedBlocks.length +
        (blocksOf executor termCount options plan).length)) := by
  have hle : plan.acceptedBlocks.length + (blocksOf executor termCount options plan).length ≤
      termCount.toNat := h.length_le hterms htasks
  have hsize := termCount.toNat_lt
  have htotal : planCheckpointBlocks plan options executor.workerCount true =
      .ok (Progress.addPlannedBlocks options (maximumBlocks options executor.workerCount)
        (UInt64.ofNat plan.acceptedBlocks.length) plan.rangesToRecalculate) := by
    rw [planCheckpointBlocks]
    split
    · next hnone =>
        rw [hnone.resolve_left (by decide)]
        rfl
    · rw [throwIf_neg (not_or.mpr ⟨hcutoff, htasks⟩)]
      rfl
  have hseeds : plan.rangesToRecalculate =
      Checkpoint.CheckpointResumePlanner.complementFrom termCount 0
        ((seedsOf plan).map seedLocation) := by
    rw [h.ranges, complement, map_seedLocation_seedsOf]
  rw [htotal, hseeds]
  apply congrArg Except.ok
  have hwidth : UInt64.size = 2 ^ 64 := rfl
  rw [← UInt64.toNat_inj, Progress.toNat_addPlannedBlocks_frontier _ _ h.apart,
    ← length_blocksOf plan hterms haccepts htasks, UInt64.toNat_ofNat_of_lt' (by omega),
    UInt64.toNat_ofNat_of_lt' (by omega)]
  omega

end

/-! ## The first frontier -/

open Checkpoint (CandidateEntry ComputationIdentity ManifestEntry)
open Checkpoint.CheckpointFrontierWriter (candidateOf candidates lowerBound newCandidate)

/-- The entries that record the seeds of a row of pieces. -/
def Records (entries : List ManifestEntry) (pieces : List LayoutPiece) : Prop :=
  entries.map (fun entry => entry.location) =
    (pieces.filterMap LayoutPiece.seed?).map seedLocation

theorem Records.start_le {entries : List ManifestEntry} {pieces : List LayoutPiece}
    {start stop : UInt64} (h : Records entries pieces)
    (htiles : Tiles start (pieces.map LayoutPiece.range) stop) :
    ∀ entry ∈ entries, start ≤ entry.location.start := by
  intro entry hmem
  have hlocation : entry.location ∈ (pieces.filterMap LayoutPiece.seed?).map seedLocation :=
    h ▸ List.mem_map_of_mem hmem
  obtain ⟨seed, hseed, heq⟩ := List.mem_map.mp hlocation
  obtain ⟨piece, hpiece, hsome⟩ := List.mem_filterMap.mp hseed
  cases piece with
  | block blockStart blockStop => cases hsome
  | seed frontierNode =>
      cases hsome
      rw [← heq]
      exact (htiles.bounds_of_mem (List.mem_map_of_mem hpiece)).1

theorem dropWhile_of_start_le {entries : List ManifestEntry} {start : UInt64}
    (h : ∀ entry ∈ entries, start ≤ entry.location.start) :
    entries.dropWhile (fun entry => entry.location.start < start) = entries := by
  cases entries with
  | nil => rfl
  | cons entry rest =>
      have hnot := not_lt.mpr (h entry List.mem_cons_self)
      rw [List.dropWhile_cons, if_neg (by simpa using hnot)]

/-- What starts before a location is passed over. -/
theorem lowerBound_dropWhile (existing : List ManifestEntry) (location : BlockLocation) :
    lowerBound existing location =
      lowerBound (existing.dropWhile fun entry => entry.location.start < location.start)
        location := by
  induction existing with
  | nil => rfl
  | cons entry rest ih =>
      by_cases hlt : entry.location.start < location.start
      · have hbefore : entry.location < location := BlockLocation.lt_iff.mpr (.inl hlt)
        rw [lowerBound, List.dropWhile_cons, if_pos (decide_eq_true hbefore), List.dropWhile_cons,
          if_pos (decide_eq_true hlt), ← ih]
        rfl
      · rw [List.dropWhile_cons, if_neg (by simpa using hlt)]

/-- A node before all entries is new. -/
theorem candidateOf_of_start_lt {entries : List ManifestEntry} (location : BlockLocation)
    (node : BinaryNode) (h : ∀ entry ∈ entries, location.start < entry.location.start) :
    lowerBound entries location = entries ∧
      candidateOf entries location node = newCandidate location node := by
  cases entries with
  | nil => exact ⟨rfl, rfl⟩
  | cons entry rest =>
      have hbefore := h entry List.mem_cons_self
      have hnot : ¬ entry.location < location := by
        rw [BlockLocation.lt_iff, not_or]
        exact ⟨hbefore.asymm, fun heq => hbefore.ne heq.1.symm⟩
      have hne : entry.location ≠ location := fun heq => hbefore.ne (heq ▸ rfl)
      constructor
      · rw [lowerBound, List.dropWhile_cons, if_neg (by simpa using hnot)]
      · exact if_neg hne

theorem newCandidate_eq_ok {location : BlockLocation} {node : BinaryNode}
    {candidate : CandidateEntry} (h : newCandidate location node = .ok candidate) :
    candidate = ⟨⟨location, [], 0, .crc32c, 0, .complete⟩, some node⟩ := by
  obtain ⟨_, -, hpure⟩ := bind_eq_ok.mp h
  exact (Except.ok.inj hpure).symm

/-- The blocks of a row of pieces, and only they, are new to a writer that has the entries of the
seeds. -/
theorem candidates_pieces {identity : ComputationIdentity} {pieces : List LayoutPiece}
    {cursor stop last : UInt64} {existing : List ManifestEntry} {result : List CandidateEntry}
    (htiles : Tiles cursor (pieces.map LayoutPiece.range) stop)
    (hrecords : Records (existing.dropWhile fun entry => entry.location.start < cursor) pieces)
    (h : candidates identity existing cursor ((pieces.map LayoutPiece.node).zip
      (pieces.map LayoutPiece.treeLevel)) = .ok (result, last)) :
    (result.filter fun candidate => candidate.newNode.isSome).length = blockCount pieces ∧
      ∀ candidate ∈ result, candidate.entry.location.start < candidate.entry.location.stop ∧
        candidate.entry.location.stop ≤ identity.termCount := by
  induction pieces generalizing cursor existing result with
  | nil =>
      cases h
      exact ⟨rfl, fun _ hmem => absurd hmem List.not_mem_nil⟩
  | cons piece rest ih =>
      obtain ⟨hstart, hlt, hrest⟩ := htiles
      rw [List.map_cons, List.map_cons, List.zip_cons_cons, candidates] at h
      simp only [bind_eq_ok, throwIf_eq_ok, pure_eq_ok, Except.ok.injEq, Prod.mk.injEq,
        Prod.exists] at h
      obtain ⟨-, hcursor, location, hlocation, candidate, hcandidate, others, final, hothers,
        rfl, rfl⟩ := h
      obtain ⟨hbounds, rfl⟩ : (piece.node.start < piece.node.stop ∧
          piece.node.stop ≤ identity.termCount) ∧
            location = ⟨piece.node.start, piece.node.stop, piece.treeLevel⟩ := by
        rw [BlockLocation.create] at hlocation
        obtain ⟨_, hvalid, hpure⟩ := bind_eq_ok.mp hlocation
        exact ⟨BlockLocation.validate_eq_ok.mp hvalid, (Except.ok.inj hpure).symm⟩
      have hstartNode : piece.node.start = cursor := not_not.mp hcursor
      have hstopNode : piece.node.stop = piece.range.2 := congrArg Prod.snd piece.node_range
      obtain ⟨entries, hentries⟩ : ∃ entries, entries =
          existing.dropWhile fun entry => decide (entry.location.start < cursor) := ⟨_, rfl⟩
      have hlower : lowerBound existing ⟨piece.node.start, piece.node.stop, piece.treeLevel⟩ =
          lowerBound entries ⟨piece.node.start, piece.node.stop, piece.treeLevel⟩ := by
        rw [lowerBound_dropWhile, hstartNode, hentries]
      rw [← hentries] at hrecords
      rw [hlower] at hcandidate hothers
      cases piece with
      | block blockStart blockStop =>
          have hrecordsRest : Records entries rest := hrecords
          have hafter := hrecordsRest.start_le hrest
          have hbefore : ∀ entry ∈ entries, blockStart < entry.location.start := fun entry hmem =>
            hbounds.1.trans_le (hafter entry hmem)
          obtain ⟨hsame, hnew⟩ := candidateOf_of_start_lt ⟨blockStart, blockStop, 0⟩
            (BinaryNode.ofRange blockStart blockStop) hbefore
          change candidateOf (lowerBound entries ⟨blockStart, blockStop, 0⟩) _ _ = _ at hcandidate
          change candidates identity (lowerBound entries ⟨blockStart, blockStop, 0⟩) _ _ = _
            at hothers
          rw [hsame] at hcandidate hothers
          obtain ⟨hcount, hall⟩ := ih hrest (by rwa [dropWhile_of_start_le hafter]) hothers
          obtain rfl := newCandidate_eq_ok (hnew.symm.trans hcandidate)
          refine ⟨?_, List.forall_mem_cons.mpr ⟨hbounds, hall⟩⟩
          rw [List.filter_cons_of_pos rfl, List.length_cons, hcount]
          rfl
      | seed frontierNode =>
          cases entries with
          | nil => cases hrecords
          | cons entry later =>
              obtain ⟨hentry, hrecordsRest⟩ : entry.location = seedLocation frontierNode ∧
                  Records later rest := List.cons.inj hrecords
              have hafter := hrecordsRest.start_le hrest
              have hsame : lowerBound (entry :: later) (seedLocation frontierNode) =
                  entry :: later := by
                rw [lowerBound, List.dropWhile_cons, hentry, if_neg (by simp)]
              have hdrop : (entry :: later).dropWhile (fun entry =>
                  entry.location.start < frontierNode.node.stop) = later := by
                have hlt : (seedLocation frontierNode).start < frontierNode.node.stop := hbounds.1
                rw [List.dropWhile_cons, hentry, if_pos (decide_eq_true hlt)]
                exact dropWhile_of_start_le hafter
              change candidateOf (lowerBound (entry :: later) (seedLocation frontierNode)) _ _ = _
                at hcandidate
              change candidates identity
                (lowerBound (entry :: later) (seedLocation frontierNode)) _ _ = _ at hothers
              rw [hsame] at hcandidate hothers
              obtain rfl : (⟨entry, none⟩ : CandidateEntry) = candidate := by
                have hfound : candidateOf (entry :: later) (seedLocation frontierNode)
                    frontierNode.node = .ok ⟨entry, none⟩ := if_pos hentry
                exact Except.ok.inj (hfound.symm.trans hcandidate)
              obtain ⟨hcount, hall⟩ := ih hrest (hdrop.symm ▸ hrecordsRest) hothers
              refine ⟨hcount, List.forall_mem_cons.mpr ⟨?_, hall⟩⟩
              rw [hentry]
              exact hbounds

end GiveMePi.Chudnovsky
