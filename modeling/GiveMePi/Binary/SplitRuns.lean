import GiveMePi.Binary.LayoutPieces

/-! # What the coordinators keep during a split

The blocks of the first stage are reported one by one. From the commit of their frontier on, a
condition that the coordinators keep holds to the end, whether the split returns or throws. -/

namespace GiveMePi.Binary

open Library (Apart Meets Schedule Tiles)

variable {σ : Type}

/-! ## Stages -/

/-- What the tasks done so far leave when none fails. -/
structure StageMemory.Reports (invariant : Finset ℕ → σ → Prop) (done : Finset ℕ)
    (memory : StageMemory σ) : Prop where
  failures : memory.failures = []
  world : invariant done memory.world

/-- The tasks of a stage that succeed are completed one by one; the invariant speaks of those that
are. -/
theorem runStage_each {jobs : List (StageJob σ)} {schedule : Schedule jobs.length}
    {slots : List (Option BinaryNode)} {invariant : Finset ℕ → σ → Prop}
    {fail : Error → σ → Prop}
    (hcompute : ∀ job ∈ jobs, ∃ node, job.compute = .ok node)
    (hjobs : ∀ (i : ℕ) (job : StageJob σ), jobs[i]? = some job → ∀ done, i ∉ done →
      ∀ s, invariant done s → invariant (insert i done) (job.completed s)) :
    Meets (invariant ∅) (runStage jobs schedule slots)
      (fun _ => invariant (Finset.range jobs.length)) fail := by
  have hrun : Meets (StageMemory.Reports invariant ∅)
      (schedule.run (runOnCaller jobs) (runOnWorker jobs))
      (fun _ => StageMemory.Reports invariant (Finset.range jobs.length))
      (fun _ _ => False) := by
    have hjob (i : ℕ) (hi : i < jobs.length) : ∃ job node, jobs[i]? = some job ∧
        job.compute = .ok node := by
      obtain ⟨node, hnode⟩ := hcompute jobs[i] (List.getElem_mem hi)
      exact ⟨jobs[i], node, List.getElem?_eq_getElem hi, hnode⟩
    apply Schedule.run_meets
    · intro i done hi hdone memory hmemory
      obtain ⟨job, node, hget, hnode⟩ := hjob i hi
      simp only [runOnCaller, hget, hnode]
      exact ⟨hmemory.failures, hjobs i job hget done hdone _ hmemory.world⟩
    · intro i done hi hdone memory hmemory
      obtain ⟨job, node, hget, hnode⟩ := hjob i hi
      simp only [runOnWorker, hget, hnode]
      exact ⟨hmemory.failures, hjobs i job hget done hdone _ hmemory.world⟩
  intro s hs
  have hresult := hrun ⟨slots, [], s⟩ ⟨rfl, hs⟩
  rw [runStage]
  cases hexec : schedule.run (runOnCaller jobs) (runOnWorker jobs) ⟨slots, [], s⟩ with
  | error e memory =>
      rw [hexec] at hresult
      exact hresult.elim
  | ok u memory =>
      rw [hexec] at hresult
      have hnone : firstFailure jobs.length memory.failures = none := by
        rw [hresult.failures, firstFailure, List.findSome?_eq_none_iff]
        simp
      simp only [hnone]
      exact hresult.world

/-- A condition on the rest of the memory, however many tasks are done. -/
def StageMemory.HasWorld (invariant : σ → Prop) (_ : Finset ℕ) (memory : StageMemory σ) : Prop :=
  invariant memory.world

/-- Whatever its tasks do, a stage keeps what their reports keep. -/
theorem runStage_keeps {jobs : List (StageJob σ)} {schedule : Schedule jobs.length}
    {slots : List (Option BinaryNode)} {invariant : σ → Prop}
    (hjobs : ∀ job ∈ jobs, ∀ s, invariant s → invariant (job.completed s)) :
    Meets invariant (runStage jobs schedule slots) (fun _ => invariant) (fun _ => invariant) := by
  have hrun : Meets (StageMemory.HasWorld invariant ∅)
      (schedule.run (runOnCaller jobs) (runOnWorker jobs))
      (fun _ => StageMemory.HasWorld invariant (Finset.range jobs.length))
      (fun _ memory => invariant memory.world) := by
    apply Schedule.run_meets
    · intro i done hi _ memory hmemory
      have hget : jobs[i]? = some jobs[i] := List.getElem?_eq_getElem hi
      cases hnode : jobs[i].compute with
      | ok node =>
          simp only [runOnCaller, hget, hnode]
          exact hjobs _ (List.getElem_mem hi) _ hmemory
      | error e =>
          simp only [runOnCaller, hget, hnode]
          exact hmemory
    · intro i done hi _ memory hmemory
      have hget : jobs[i]? = some jobs[i] := List.getElem?_eq_getElem hi
      cases hnode : jobs[i].compute with
      | ok node =>
          simp only [runOnWorker, hget, hnode]
          exact hjobs _ (List.getElem_mem hi) _ hmemory
      | error e =>
          simp only [runOnWorker, hget, hnode]
          exact hmemory
  intro s hs
  have hresult := hrun ⟨slots, [], s⟩ hs
  rw [runStage]
  cases hexec : schedule.run (runOnCaller jobs) (runOnWorker jobs) ⟨slots, [], s⟩ with
  | error e memory =>
      rw [hexec] at hresult
      exact hresult
  | ok u memory =>
      rw [hexec] at hresult
      simp only
      cases firstFailure jobs.length memory.failures with
      | none => exact hresult
      | some e => exact hresult

/-! ## Conditions the coordinators keep -/

section Keeps

variable {executor : Executor} {observer : BinarySplitObserver σ}
  {mergeCoordinator : BinaryMergeCoordinator σ}
  {checkpointCoordinator : BinaryCheckpointCoordinator σ} {invariant : σ → Prop}

/-- The coordinators and the start of a merge level keep a condition, also what is thrown. -/
structure Keep (observer : BinarySplitObserver σ) (mergeCoordinator : BinaryMergeCoordinator σ)
    (checkpointCoordinator : BinaryCheckpointCoordinator σ) (invariant : σ → Prop) : Prop where
  level : ∀ mergeLevel s, invariant s → invariant (observer.mergeLevelStarted mergeLevel s)
  observe : ∀ nodes mergeLevel, Meets invariant
    (mergeCoordinator.observeResidentNodes nodes mergeLevel) (fun _ => invariant) fun _ => invariant
  prepare : ∀ nodes mergeLevel, Meets invariant
    (mergeCoordinator.prepareMergeNodes nodes mergeLevel) (fun _ => invariant) fun _ => invariant
  spill : ∀ nodes mergeLevel, Meets invariant
    (mergeCoordinator.spillAfterMergeLevel nodes mergeLevel) (fun _ => invariant) fun _ => invariant
  commit : ∀ nodes treeLevels, Meets invariant
    (checkpointCoordinator.commitFrontier nodes treeLevels) (fun _ => invariant) fun _ => invariant

namespace Keep

variable (h : Keep observer mergeCoordinator checkpointCoordinator invariant)

include h

theorem spillStage (nodes : List BinaryNode) (mergeLevel : UInt32) :
    Meets invariant (if nodes.length > 1 then mergeCoordinator.spillAfterMergeLevel nodes mergeLevel
      else pure nodes) (fun _ => invariant) (fun _ => invariant) :=
  Meets.ite (fun _ => h.spill nodes mergeLevel) fun _ => Meets.pure fun _ => id

theorem completeStage (nodes : List BinaryNode) (treeLevels : List UInt32) (mergeLevel : UInt32)
    (computedNodes : Bool) :
    Meets invariant (completeStage mergeCoordinator checkpointCoordinator nodes treeLevels
      mergeLevel computedNodes) (fun _ => invariant) (fun _ => invariant) := by
  rw [Binary.completeStage]
  refine Meets.bind (h.observe nodes mergeLevel) fun _ => ?_
  cases computedNodes with
  | true => exact Meets.bind (h.commit nodes treeLevels) fun _ => h.spillStage nodes mergeLevel
  | false => exact h.spillStage nodes mergeLevel

theorem mergeLevels (termCount : UInt64) (parallelExecution : Bool) (levels : ℕ)
    (nodes : List BinaryNode) (treeLevels : List UInt32) (mergeLevel : UInt32) :
    Meets invariant (mergeLevels executor observer mergeCoordinator checkpointCoordinator termCount
      parallelExecution levels nodes treeLevels mergeLevel)
      (fun _ => invariant) (fun _ => invariant) := by
  induction levels generalizing nodes treeLevels mergeLevel with
  | zero =>
      match nodes with
      | [node] => exact Meets.pure fun _ => id
      | [] => exact Meets.throw fun _ => id
      | _ :: _ :: _ => exact Meets.throw fun _ => id
  | succ levels ih =>
      by_cases hsingle : ∃ node, nodes = [node]
      · obtain ⟨node, rfl⟩ := hsingle
        exact Meets.pure fun _ => id
      · rw [Binary.mergeLevels]
        · refine Meets.bind (h.prepare nodes mergeLevel) fun nodes => ?_
          refine Meets.bind_of (fun _ => invariant)
            (fun s hs => h.level mergeLevel s hs) fun _ => ?_
          refine Meets.bind (runStage_keeps ?_) fun results => ?_
          · intro job hmem s hs
            obtain ⟨pair, hpair, rfl⟩ := List.mem_mapIdx.mp hmem
            exact hs
          · simp only [Action.liftM_eq]
            refine Meets.bind_of (fun _ => invariant) ?_ fun merged => ?_
            · intro s hs
              cases slotValues results with
              | ok nodes => exact hs
              | error e => exact hs
            · exact Meets.bind (h.completeStage _ _ _ _) fun nodes => ih _ _ _
        · intro node hnode
          exact hsingle ⟨node, hnode⟩

end Keep

/-! ## The first stage -/

/-- The pieces of a split: one block when the caller computes everything at once. -/
def splitPieces (executor : Executor) (start stop : UInt64) (options : ParallelSplitOptions)
    (frontier : List BinaryFrontierNode) : List LayoutPiece :=
  let termCount := stop - start
  let parallelExecution := acceptsStagedWork executor
  if frontier.isEmpty ∧ (termCount ≤ options.sequentialCutoff ∨ parallelExecution = false ∨
      boundedBlockCount termCount options.sequentialCutoff executor.workerCount
        options.tasksPerWorker < 2) then
    [.block start stop]
  else Layout.frontierPieces executor options parallelExecution stop
    (frontier.mergeSort fun left right => left.node.start ≤ right.node.start) start

/-- The blocks that a split computes. -/
def computedBlocks (executor : Executor) (start stop : UInt64) (options : ParallelSplitOptions)
    (frontier : List BinaryFrontierNode) : List (UInt64 × UInt64) :=
  (splitPieces executor start stop options frontier).filterMap LayoutPiece.block?

/-- What a split checks before it starts. -/
structure IsSplittable (start stop : UInt64) (options : ParallelSplitOptions)
    (frontier : List BinaryFrontierNode) : Prop where
  lt : start < stop
  sequentialCutoff : options.sequentialCutoff ≠ 0
  tasksPerWorker : options.tasksPerWorker ≠ 0
  frontier : validateFrontier start stop start
    (frontier.mergeSort fun left right => left.node.start ≤ right.node.start) = .ok ()

/-- The checks that a split passes, and what is sorted by them. -/
theorem IsSplittable.of_checks {start stop : UInt64} {options : ParallelSplitOptions}
    {frontier sorted : List BinaryFrontierNode} {u : Unit} {e e' : Error}
    (hrange : validateRange start stop = .ok u)
    (hcutoff : throwIf (options.sequentialCutoff = 0) e = .ok u)
    (htasks : throwIf (options.tasksPerWorker = 0) e' = .ok u)
    (hsort : sortAndValidateFrontier frontier start stop = .ok sorted) :
    IsSplittable start stop options frontier ∧ sorted.isEmpty = frontier.isEmpty ∧
      sorted = frontier.mergeSort fun left right => left.node.start ≤ right.node.start := by
  have hlt : start < stop := by
    by_contra hnot
    rw [validateRange, if_pos (not_lt.mp hnot)] at hrange
    cases hrange
  obtain ⟨hsorted, hvalid⟩ : sorted = (frontier.mergeSort fun left right =>
      left.node.start ≤ right.node.start) ∧ validateFrontier start stop start sorted = .ok () := by
    rw [sortAndValidateFrontier] at hsort
    obtain ⟨_, hvalid, hpure⟩ := bind_eq_ok.mp hsort
    obtain rfl := Except.ok.inj hpure
    exact ⟨rfl, hvalid⟩
  have hempty : sorted.isEmpty = frontier.isEmpty := by
    have hlength := (List.mergeSort_perm frontier fun left right =>
      decide (left.node.start ≤ right.node.start)).length_eq
    rw [← hsorted] at hlength
    rw [Bool.eq_iff_iff, List.isEmpty_iff_length_eq_zero, List.isEmpty_iff_length_eq_zero, hlength]
  exact ⟨⟨hlt, throwIf_eq_ok.mp hcutoff, throwIf_eq_ok.mp htasks, hsorted ▸ hvalid⟩, hempty, hsorted⟩

/-- The pieces of a split follow each other from its start to its end. -/
theorem splitPieces_tiles (executor : Executor) {start stop : UInt64}
    {options : ParallelSplitOptions} {frontier : List BinaryFrontierNode} (hlt : start < stop)
    (htasks : options.tasksPerWorker ≠ 0)
    (hapart : Apart start ((frontier.mergeSort fun left right =>
      left.node.start ≤ right.node.start).map fun seed => seed.node.range) stop) :
    Tiles start ((splitPieces executor start stop options frontier).map LayoutPiece.range)
      stop := by
  rw [splitPieces]
  split
  · exact Tiles.singleton hlt
  · apply Layout.frontierPieces_tiles _ htasks hapart
    intro haccepts
    simp only [acceptsStagedWork, Bool.and_eq_true, bne_iff_ne] at haccepts
    exact haccepts.1.2

theorem IsSplittable.tiles {start stop : UInt64} {options : ParallelSplitOptions}
    {frontier : List BinaryFrontierNode} (h : IsSplittable start stop options frontier)
    (executor : Executor) :
    Tiles start ((splitPieces executor start stop options frontier).map LayoutPiece.range)
      stop :=
  splitPieces_tiles executor h.lt h.tasksPerWorker
    (Layout.apart_of_validateFrontier h.lt.le h.frontier)

/-- No block of a split is empty. -/
theorem computedBlocks_lt {executor : Executor} {start stop : UInt64}
    {options : ParallelSplitOptions} {frontier : List BinaryFrontierNode}
    (h : Tiles start ((splitPieces executor start stop options frontier).map LayoutPiece.range)
      stop) {block : UInt64 × UInt64}
    (hmem : block ∈ computedBlocks executor start stop options frontier) : block.1 < block.2 := by
  obtain ⟨piece, hpiece, hblock⟩ := List.mem_filterMap.mp hmem
  have hlt := (h.bounds_of_mem (List.mem_map_of_mem hpiece)).2.1
  cases piece with
  | seed frontierNode => cases hblock
  | block blockStart blockStop =>
      cases hblock
      exact hlt

theorem splitPieces_seed? (executor : Executor) (start stop : UInt64)
    (options : ParallelSplitOptions) (frontier : List BinaryFrontierNode) :
    (splitPieces executor start stop options frontier).filterMap LayoutPiece.seed? =
      frontier.mergeSort fun left right => left.node.start ≤ right.node.start := by
  rw [splitPieces]
  split
  · next hdirect =>
      rw [List.isEmpty_iff.mp hdirect.1]
      simp [LayoutPiece.seed?, List.filterMap_cons]
  · exact Layout.frontierPieces_seed? _ _ _

/-- The tasks of a row of pieces fill the slots and report block by block. -/
theorem runStage_blockJobs {pieces : List LayoutPiece}
    {schedule : Schedule ((Layout.empty.pushAll pieces).pendingBlocks.map
      (blockJob observer)).length}
    {before : Finset ℕ → σ → Prop} {fail : Error → σ → Prop}
    (hblocks : ∀ piece ∈ pieces, piece.range.1 < piece.range.2)
    (hterms : ∀ (i : ℕ) (block : UInt64 × UInt64),
      (pieces.filterMap LayoutPiece.block?)[i]? = some block → ∀ done, i ∉ done →
        ∀ s, before done s → before (insert i done) (observer.termsCompleted (block.2 - block.1) s)) :
    Meets (before ∅)
      (runStage ((Layout.empty.pushAll pieces).pendingBlocks.map (blockJob observer)) schedule
        (Layout.empty.pushAll pieces).slots)
      (fun result s => result = (pieces.map LayoutPiece.node).map some ∧
        before (Finset.range (pieces.filterMap LayoutPiece.block?).length) s) fail := by
  have hpending := Layout.pendingBlocks_pushAll Layout.empty pieces
  rw [show Layout.empty.pendingBlocks = [] from rfl, List.map_nil, List.nil_append] at hpending
  have hcompute : ∀ block ∈ (Layout.empty.pushAll pieces).pendingBlocks,
      splitSequential block.start block.stop =
        .ok (BinaryNode.ofRange block.start block.stop) := fun block hmem =>
    splitSequential_eq
      (hblocks _ (List.mem_of_getElem? (Layout.mem_pendingBlocks_pushAll.mp hmem)))
  have hslots : Meets (fun _ : σ => True)
      (runStage ((Layout.empty.pushAll pieces).pendingBlocks.map (blockJob observer)) schedule
        (Layout.empty.pushAll pieces).slots)
      (fun result _ => result = (pieces.map LayoutPiece.node).map some ∧ True)
      (fun _ _ => True) := by
    apply runStage_meets
    · simp [Layout.empty]
    · intro job hmem
      obtain ⟨block, hblock, rfl⟩ := List.mem_map.mp hmem
      refine ⟨_, hcompute block hblock, ?_, fun _ => id⟩
      rw [List.getElem?_map]
      exact congrArg _ (Layout.mem_pendingBlocks_pushAll.mp hblock)
    · intro k node hk
      simp only [Layout.slots_pushAll, Layout.empty, List.nil_append, List.getElem?_map,
        Option.map_eq_some_iff] at hk
      obtain ⟨piece, hpiece, hslot⟩ := hk
      cases piece with
      | seed frontierNode =>
          rw [List.getElem?_map, hpiece]
          exact hslot
      | block blockStart blockStop => cases hslot
    · intro k hk
      simp only [Layout.slots_pushAll, Layout.empty, List.nil_append, List.getElem?_map,
        Option.map_eq_some_iff] at hk
      obtain ⟨piece, hpiece, hslot⟩ := hk
      cases piece with
      | seed frontierNode => cases hslot
      | block blockStart blockStop =>
          have hmem : (⟨k, blockStart, blockStop⟩ : PendingBlock) ∈
              (Layout.empty.pushAll pieces).pendingBlocks :=
            Layout.mem_pendingBlocks_pushAll.mpr hpiece
          exact ⟨_, List.mem_map_of_mem hmem, rfl⟩
  have hreports : Meets (before ∅)
      (runStage ((Layout.empty.pushAll pieces).pendingBlocks.map (blockJob observer)) schedule
        (Layout.empty.pushAll pieces).slots)
      (fun _ => before (Finset.range (pieces.filterMap LayoutPiece.block?).length)) fail := by
    have hlength : ((Layout.empty.pushAll pieces).pendingBlocks.map (blockJob observer)).length =
        (pieces.filterMap LayoutPiece.block?).length := by
      rw [← hpending, List.length_map, List.length_map]
    rw [← hlength]
    apply runStage_each
    · intro job hmem
      obtain ⟨block, hblock, rfl⟩ := List.mem_map.mp hmem
      exact ⟨_, hcompute block hblock⟩
    · intro i job hget done hdone s hs
      rw [List.getElem?_map, Option.map_eq_some_iff] at hget
      obtain ⟨block, hblock, rfl⟩ := hget
      have hrange : (pieces.filterMap LayoutPiece.block?)[i]? = some (block.start, block.stop) := by
        rw [← hpending, List.getElem?_map, hblock]
        rfl
      exact hterms i _ hrange done hdone s hs
  apply (hslots.and hreports).consequence (fun s hs => ⟨trivial, hs⟩) _ (fun _ _ h => h.2)
  intro result s h
  exact ⟨h.1.1, h.2⟩

/-- What a split does, in two phases: the blocks are computed and reported, and from the commit of
their frontier on a condition is kept. -/
theorem splitParallel_phases {start stop : UInt64} {options : ParallelSplitOptions}
    {frontier : List BinaryFrontierNode} {before : Finset ℕ → σ → Prop} {after : σ → Prop}
    {fail : Error → σ → Prop}
    (hthrow : ∀ e s, before ∅ s → fail e s)
    (hterms : IsSplittable start stop options frontier → ∀ (i : ℕ) (block : UInt64 × UInt64),
      (computedBlocks executor start stop options frontier)[i]? = some block → ∀ done, i ∉ done →
        ∀ s, before done s → before (insert i done) (observer.termsCompleted (block.2 - block.1) s))
    (hobserve : ∀ nodes, Meets
      (before (Finset.range (computedBlocks executor start stop options frontier).length))
      (mergeCoordinator.observeResidentNodes nodes 0)
      (fun _ => before (Finset.range (computedBlocks executor start stop options frontier).length))
      fail)
    (hcommit : IsSplittable start stop options frontier →
      computedBlocks executor start stop options frontier ≠ [] → Meets
      (before (Finset.range (computedBlocks executor start stop options frontier).length))
      (checkpointCoordinator.commitFrontier
        ((splitPieces executor start stop options frontier).map LayoutPiece.node)
        ((splitPieces executor start stop options frontier).map LayoutPiece.treeLevel))
      (fun _ => after) fail)
    (hskip : IsSplittable start stop options frontier →
      computedBlocks executor start stop options frontier = [] → ∀ s, before ∅ s → after s)
    (hkeep : Keep observer mergeCoordinator checkpointCoordinator after)
    (hafter : ∀ e s, after s → fail e s) :
    Meets (before ∅)
      (splitParallel executor observer mergeCoordinator checkpointCoordinator start stop options
        frontier)
      (fun _ => after) fail := by
  have hexcept {α : Type} (x : Except Error α) {next : α → Action σ BinaryNode}
      (hnext : ∀ a, x = .ok a → Meets (before ∅) (next a) (fun _ => after) fail) :
      Meets (before ∅) ((liftM x : Action σ α) >>= next) (fun _ => after) fail := by
    cases x with
    | ok a => exact hnext a rfl
    | error e => exact fun s hs => hthrow e s hs
  rw [splitParallel]
  refine hexcept _ fun _ hrange => ?_
  refine hexcept _ fun _ hcutoff => ?_
  refine hexcept _ fun _ htasks => ?_
  refine hexcept _ fun sorted hsort => ?_
  obtain ⟨hsplittable, hempty, hsorted⟩ := IsSplittable.of_checks hrange hcutoff htasks hsort
  have hlt := hsplittable.lt
  replace hterms := hterms hsplittable
  replace hcommit := hcommit hsplittable
  replace hskip := hskip hsplittable
  simp only [hempty]
  by_cases hdirect : frontier.isEmpty ∧ (stop - start ≤ options.sequentialCutoff ∨
      acceptsStagedWork executor = false ∨ boundedBlockCount (stop - start)
        options.sequentialCutoff executor.workerCount options.tasksPerWorker < 2)
  · have hpieces : splitPieces executor start stop options frontier = [.block start stop] := by
      rw [splitPieces]
      exact if_pos hdirect
    have hblocks : computedBlocks executor start stop options frontier = [(start, stop)] := by
      rw [computedBlocks, hpieces]
      rfl
    rw [if_pos hdirect]
    rw [hblocks, hpieces] at hcommit
    refine hexcept _ fun result hresult => ?_
    rw [splitSequential_eq hlt] at hresult
    obtain rfl := Except.ok.inj hresult
    refine Meets.bind_of (fun _ => before (Finset.range 1)) ?_ fun _ => ?_
    · intro s hs
      have hreported := hterms 0 (start, stop) (by rw [hblocks]; rfl) ∅ (Finset.notMem_empty 0) s hs
      rwa [show insert 0 (∅ : Finset ℕ) = Finset.range 1 from rfl] at hreported
    · refine Meets.bind (hcommit (List.cons_ne_nil _ _)) fun _ => ?_
      exact Meets.pure fun _ => id
  · have hpieces : splitPieces executor start stop options frontier =
        Layout.frontierPieces executor options (acceptsStagedWork executor) stop sorted start := by
      rw [splitPieces, hsorted]
      exact if_neg hdirect
    obtain ⟨pieces, hname⟩ : ∃ pieces, pieces = splitPieces executor start stop options frontier :=
      ⟨_, rfl⟩
    obtain ⟨layout, hlayout⟩ : ∃ layout, layout = Layout.appendFrontier executor options
      (acceptsStagedWork executor) stop sorted start Layout.empty := ⟨_, rfl⟩
    rw [if_neg hdirect, ← hlayout]
    obtain rfl : layout = Layout.empty.pushAll pieces := by
      rw [hlayout, hname, hpieces, Layout.appendFrontier_eq]
    have hblocks : computedBlocks executor start stop options frontier =
        pieces.filterMap LayoutPiece.block? := by
      rw [computedBlocks, hname]
    have hlevels : (Layout.empty.pushAll pieces).treeLevels =
        pieces.map LayoutPiece.treeLevel := by
      simp [Layout.empty]
    have hnonempty : ∀ piece ∈ pieces, piece.range.1 < piece.range.2 := by
      have htiles := hsplittable.tiles executor
      rw [← hname] at htiles
      exact fun piece hmem => (htiles.bounds_of_mem (List.mem_map_of_mem hmem)).2.1
    rw [← hname] at hcommit
    rw [hlevels]
    rw [hblocks] at hterms hobserve hcommit hskip
    have hpending : (Layout.empty.pushAll pieces).pendingBlocks.isEmpty =
        (pieces.filterMap LayoutPiece.block?).isEmpty := by
      have heq := Layout.pendingBlocks_pushAll Layout.empty pieces
      rw [show Layout.empty.pendingBlocks = [] from rfl, List.map_nil, List.nil_append] at heq
      rw [← heq, List.isEmpty_map]
    refine Meets.bind (runStage_blockJobs hnonempty hterms) fun slots => Meets.of_pre ?_
    rintro rfl
    simp only [slotValues_map_some, Action.liftM_eq, Action.ofExcept_ok, pure_bind]
    refine Meets.bind_of (fun _ => after) ?_ fun nodes =>
      (hkeep.mergeLevels _ _ _ _ _ _).consequence (fun _ => id) (fun _ _ => id) hafter
    rw [completeStage]
    refine Meets.bind (hobserve _) fun _ => ?_
    have hspill := (hkeep.spillStage (pieces.map LayoutPiece.node) 0).consequence (fun _ => id)
      (fun _ _ => id) hafter
    rw [hpending]
    cases hblock : pieces.filterMap LayoutPiece.block? with
    | nil =>
        rw [hblock] at hskip
        exact hspill.strengthen (hskip rfl)
    | cons block rest =>
        rw [hblock] at hcommit
        exact Meets.bind (hcommit (List.cons_ne_nil _ _)) fun _ => hspill

end Keeps

end GiveMePi.Binary
