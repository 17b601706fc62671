import GiveMePi.Binary.FrontierCommits
import GiveMePi.Storage.ResidentAccounting

/-! # Splits that need no spilling

A split whose frontiers all fit into the memory budget, with the storage coordinator beside any
observer and checkpoints: it returns exactly when every payload it shows fits into one chunk. -/

namespace GiveMePi

variable {σ ω α : Type}

/-! ## Coordinators beside each other -/

namespace Binary

/-- An action on the first part of a world. -/
def onFirst (action : Action σ α) : Action (σ × ω) α := fun world =>
  match action world.1 with
  | .ok a s => .ok a (s, world.2)
  | .error e s => .error e (s, world.2)

def onSecond (action : Action ω α) : Action (σ × ω) α := fun world =>
  match action world.2 with
  | .ok a w => .ok a (world.1, w)
  | .error e w => .error e (world.1, w)

def BinaryMergeCoordinator.first (coordinator : BinaryMergeCoordinator σ) :
    BinaryMergeCoordinator (σ × ω) where
  observeResidentNodes nodes level := onFirst (coordinator.observeResidentNodes nodes level)
  prepareMergeNodes nodes level := onFirst (coordinator.prepareMergeNodes nodes level)
  spillAfterMergeLevel nodes level := onFirst (coordinator.spillAfterMergeLevel nodes level)

def BinarySplitObserver.second (observer : BinarySplitObserver ω) :
    BinarySplitObserver (σ × ω) where
  termsCompleted count world := (world.1, observer.termsCompleted count world.2)
  mergeLevelStarted level world := (world.1, observer.mergeLevelStarted level world.2)

def BinaryCheckpointCoordinator.second (coordinator : BinaryCheckpointCoordinator ω) :
    BinaryCheckpointCoordinator (σ × ω) where
  commitFrontier nodes treeLevels := onSecond (coordinator.commitFrontier nodes treeLevels)

/-! ## The frontiers of a split -/

/-- A frontier and those that its merge levels make of it. -/
def mergedFrontiers (nodes : List BinaryNode) : List (List BinaryNode) :=
  if 1 < nodes.length then nodes :: mergedFrontiers (joinPairs nodes) else [nodes]
termination_by nodes.length
decreasing_by
  rw [length_joinPairs]
  omega

/-- The frontiers that a split shows to its coordinator of storage. -/
def shownFrontiers (executor : Executor) (start stop : UInt64) (options : ParallelSplitOptions)
    (frontier : List BinaryFrontierNode) : List (List BinaryNode) :=
  if IsDirect executor start stop options frontier then []
  else mergedFrontiers ((splitPieces executor start stop options frontier).map LayoutPiece.node)

end Binary

namespace Storage.StorageMergeCoordinator

open Binary
open BinaryNodeChunkAdapter (literals)
open Checkpoint (ComputationIdentity CheckpointBlockCodec.payloadBytes GMPSerialization.magnitude
  GMPSerialization.exportBytes)
open Library (Meets SeriesBlock Tiles)
open Library.Program

variable {policy : StoragePolicy} {memoryBudgetBytes : UInt64} {lz4 : Lz4}
  {computation : ComputationIdentity}

theorem IsResident.of_isFrontier {start stop : UInt64} {nodes : List BinaryNode}
    (h : IsFrontier start nodes stop) (hvalid : computation.IsValid)
    (hstop : stop ≤ computation.termCount) : IsResident computation nodes where
  isValid := hvalid
  bounds node hmem :=
    ⟨h.lt_of_mem hmem, (h.tiles.bounds_of_mem (List.mem_map_of_mem hmem)).2.2.trans hstop⟩
  apart := by
    have hapart : nodes.Pairwise fun node other => node.stop ≤ other.start :=
      List.pairwise_map.mp h.tiles.pairwise_le
    refine hapart.imp_of_mem fun {node other} hmem _ hle heq => ?_
    rw [Prod.mk.injEq] at heq
    have hlt := h.lt_of_mem hmem
    rw [heq.1] at hlt
    exact absurd hle hlt.not_ge

/-! ## Nothing to spill -/

/-- The bytes of a frontier. -/
def totalSize (nodes : List BinaryNode) : ℕ :=
  (nodes.map payloadSize).sum

def AllFit (nodes : List BinaryNode) : Prop :=
  ∀ node ∈ nodes, payloadSize node ≤ 2 ^ 30

theorem residentBytes_toNat {count : ℕ} {level : UInt32} {nodes : List BinaryNode}
    (h : totalSize nodes < 2 ^ 64) :
    (residentBytes (nodes.map (recordOf computation count level))).toNat = totalSize nodes := by
  have hfilter : (nodes.map (recordOf computation count level)).filter (fun record =>
      record.lifecycle.state = .resident ∨ record.lifecycle.state = .spilling) =
        nodes.map (recordOf computation count level) := by
    rw [List.filter_eq_self]
    intro record hmem
    rcases List.mem_map.mp hmem with ⟨node, _, rfl⟩
    rfl
  have hsizes : ((nodes.map (recordOf computation count level)).map fun record =>
      record.residentBytes.toNat).sum = totalSize nodes := by
    rw [totalSize, List.map_map]
    refine congrArg List.sum (List.map_congr_left fun node hmem => ?_)
    have hle : payloadSize node ≤ totalSize nodes := List.le_sum_of_mem (List.mem_map_of_mem hmem)
    exact UInt64.toNat_ofNat_of_lt (lt_of_le_of_lt hle h)
  have hwraps : Library.Wraps (2 ^ 64 - 1) UInt64.toNat
      (fun record : ResidentMergeNode => record.residentBytes.toNat)
      (fun total record => total + record.residentBytes) :=
    wraps_toNat fun _ _ => rfl
  rw [residentBytes, hfilter, hwraps.foldl_of_le (by rw [hsizes]; simpa using Nat.le_pred_of_lt h),
    hsizes]
  simp

/-- A frontier within the budget is left alone by a spill. -/
theorem spillAfterMergeLevel_eq {count : ℕ} {level : UInt32} {nodes : List BinaryNode}
    (h : totalSize nodes ≤ memoryBudgetBytes.toNat) {memory : MergeMemory}
    (hnodes : memory.nodes = nodes)
    (hrecords : memory.residentNodes = nodes.map (recordOf computation count level)) :
    spillAfterMergeLevel policy memoryBudgetBytes lz4 computation level memory =
      .ok () memory := by
  have hle : residentBytes memory.residentNodes ≤ memoryBudgetBytes := by
    have hlimit := memoryBudgetBytes.toNat_lt
    rw [UInt64.le_iff_toNat_le, hrecords, residentBytes_toNat (by omega)]
    exact h
  have hsizes : memory.nodes.length = memory.residentNodes.length := by
    rw [hnodes, hrecords, List.length_map]
  have hplan : beginSpills memoryBudgetBytes memory.toCoordinatorMemory = .ok none := by
    simp [beginSpills, checkSizes, hsizes, spillPlan, hle]
  simp only [spillAfterMergeLevel, get_bind, hplan, Action.liftM_eq, Action.ofExcept_ok, pure_bind]
  rfl

/-- Resident nodes are not loaded. -/
theorem prepareMergeNodes_returns {level : UInt32} {memory : MergeMemory}
    (hlength : memory.nodes.length = memory.residentNodes.length)
    (hresident : ∀ record ∈ memory.residentNodes, record.lifecycle.state = .resident) :
    ∃ memory', prepareMergeNodes policy lz4 level memory = .ok () memory' ∧
      memory'.nodes = memory.nodes := by
  have hloop : ∀ (indices : List ℕ) (memory : MergeMemory),
      (∀ record ∈ memory.residentNodes, record.lifecycle.state = .resident) →
      ∃ memory', indices.forM (prepareNode policy lz4 level) memory = .ok () memory' ∧
        memory'.nodes = memory.nodes := by
    intro indices
    induction indices with
    | nil =>
        intro memory _
        exact ⟨memory, rfl, rfl⟩
    | cons index rest ih =>
        intro memory hresident
        obtain ⟨marked, hmarked⟩ : ∃ marked, marked = memory.updateRecord index fun record =>
          { record with mergeDistance := 0 } := ⟨_, rfl⟩
        have hkept : ∀ record ∈ marked.residentNodes, record.lifecycle.state = .resident := by
          intro record hmem
          rw [hmarked] at hmem
          rcases List.getElem?_of_mem hmem with ⟨k, hk⟩
          simp only [CoordinatorMemory.updateRecord, List.getElem?_modify] at hk
          rcases Option.map_eq_some_iff.mp hk with ⟨old, hold, rfl⟩
          have hstate := hresident old (List.mem_of_getElem? hold)
          split <;> exact hstate
        have hnode : prepareNode policy lz4 level index memory =
            .ok () ⟨marked, memory.manager⟩ := by
          have hbegin : beginLoad level index memory.toCoordinatorMemory = .ok none marked := by
            simp only [beginLoad, modify_bind, get_bind, ← hmarked]
            cases hrecord : marked.residentNodes[index]? with
            | none => rfl
            | some record =>
                have hstate := hkept record (List.mem_of_getElem? hrecord)
                simp [hstate]
          have hlifted : MergeMemory.onCoordinator (beginLoad level index) memory =
              .ok none ⟨marked, memory.manager⟩ := by
            rw [MergeMemory.onCoordinator, hbegin]
          rw [prepareNode, bind_of_ok hlifted]
          rfl
        rcases ih ⟨marked, memory.manager⟩ hkept with ⟨memory', hrest, hnodes⟩
        refine ⟨memory', ?_, ?_⟩
        · rw [forM_cons, bind_of_ok hnode, hrest]
        · rw [hnodes, hmarked]
          rfl
  rcases hloop (List.range memory.nodes.length) memory hresident with ⟨memory', hprepare, hnodes⟩
  refine ⟨memory', ?_, hnodes⟩
  have hsizes : checkPrepare memory.toCoordinatorMemory = .ok () := throwIf_neg (not_not.mpr hlength)
  simp only [prepareMergeNodes, get_bind, hsizes, Action.liftM_eq, Action.ofExcept_ok, pure_bind,
    hprepare]

/-! ## The contract of the coordinator -/

/-- What is known of a frontier that is to be shown: it may be resident, what is merged of it stays
within the budget, and whether all of it fits decides about the whole split. -/
structure IsDecisive (computation : ComputationIdentity) (memoryBudgetBytes : UInt64) (good : Prop)
    (nodes : List BinaryNode) : Prop where
  budget : ∀ shown ∈ mergedFrontiers nodes, totalSize shown ≤ memoryBudgetBytes.toNat
  good_iff : good ↔ ∀ shown ∈ mergedFrontiers nodes, AllFit shown

namespace IsDecisive

variable {good : Prop} {nodes : List BinaryNode}

theorem mem_mergedFrontiers (nodes : List BinaryNode) : nodes ∈ mergedFrontiers nodes := by
  rw [mergedFrontiers]
  split <;> simp

theorem mergedFrontiers_eq (hlength : 1 < nodes.length) :
    mergedFrontiers nodes = nodes :: mergedFrontiers (joinPairs nodes) := by
  rw [mergedFrontiers, if_pos hlength]

theorem not_good (h : IsDecisive computation memoryBudgetBytes good nodes) (hfit : ¬ AllFit nodes) :
    ¬ good :=
  fun hgood => hfit (h.good_iff.mp hgood nodes (mem_mergedFrontiers nodes))

theorem next (h : IsDecisive computation memoryBudgetBytes good nodes) (hfit : AllFit nodes)
    (hlength : 1 < nodes.length) :
    IsDecisive computation memoryBudgetBytes good (joinPairs nodes) where
  budget shown hmem := by
    refine h.budget shown ?_
    rw [mergedFrontiers_eq hlength]
    exact List.mem_cons_of_mem _ hmem
  good_iff := by
    rw [h.good_iff, mergedFrontiers_eq hlength, List.forall_mem_cons]
    exact and_iff_right hfit

theorem good_of_single {node : BinaryNode}
    (h : IsDecisive computation memoryBudgetBytes good [node]) (hfit : AllFit [node]) : good := by
  rw [h.good_iff, mergedFrontiers, if_neg (by simp), List.forall_mem_singleton]
  exact hfit

end IsDecisive

/-- The nodes are the resident ones of the coordinator, and all of them fit. -/
structure HasShown (computation : ComputationIdentity) (memoryBudgetBytes : UInt64) (good : Prop)
    (level : UInt32) (nodes : List BinaryNode) (memory : MergeMemory) : Prop where
  decisive : IsDecisive computation memoryBudgetBytes good nodes
  fit : AllFit nodes
  records : ∃ count, memory.residentNodes = nodes.map (recordOf computation count level)

section Contract

variable {observer : BinarySplitObserver ω} {checkpointCoordinator : BinaryCheckpointCoordinator ω}

theorem commit_meets
    (hcommit : ∀ nodes treeLevels w, ∃ w', checkpointCoordinator.commitFrontier nodes treeLevels w =
      .ok () w')
    {condition : MergeMemory → Prop} {fail : Error → MergeMemory × ω → Prop}
    (nodes : List BinaryNode) (treeLevels : List UInt32) :
    Meets (fun world : MergeMemory × ω => condition world.1)
      (checkpointCoordinator.second.commitFrontier nodes treeLevels)
      (fun _ world => condition world.1) fail := by
  intro world hworld
  rcases hcommit nodes treeLevels world.2 with ⟨w', hw'⟩
  simp only [BinaryCheckpointCoordinator.second, onSecond, hw']
  exact hworld

/-- A split whose frontiers are within the budget ends well exactly when all of them fit. -/
def contract (policy : StoragePolicy) (lz4 : Lz4) (hvalid : computation.IsValid)
    (hcommit : ∀ nodes treeLevels w, ∃ w', checkpointCoordinator.commitFrontier nodes treeLevels w =
      .ok () w')
    (start : UInt64) {stop : UInt64} (hstop : stop ≤ computation.termCount) (good : Prop) :
    StageContract observer.second
      (coordinator policy memoryBudgetBytes lz4 computation).first checkpointCoordinator.second
      (fun _ => True) start stop (fun _ _ => ¬ good) where
  initial _ := False
  fresh _ nodes _ _ := IsDecisive computation memoryBudgetBytes good nodes
  observed level nodes _ world :=
    HasShown computation memoryBudgetBytes good level nodes world.1
  committed level nodes _ world :=
    HasShown computation memoryBudgetBytes good level nodes world.1
  spilled level nodes nodes' _ world :=
    nodes' = nodes ∧ HasShown computation memoryBudgetBytes good level nodes world.1
  prepared _ nodes _ _ := IsDecisive computation memoryBudgetBytes good nodes ∧ AllFit nodes
  finished _ := good
  terms _ _ h := h
  direct := fun _ h => h.elim
  start_fresh _ _ _ _ h := h.elim
  observe level nodes treeLevels hstage := by
    intro world hdecisive
    have hresident := IsResident.of_isFrontier hstage.frontier hvalid hstop
    have hobserve := observeResidentNodes_eq policy lz4 computation nodes level world.1
    have hfits := residentNodesOf_isResident lz4 hresident nodes.length level
    simp only [BinaryMergeCoordinator.first, onFirst, coordinator]
    cases hrecords : residentNodesOf lz4 computation nodes.length level nodes ∅ with
    | error e =>
        rw [hrecords] at hobserve hfits
        rw [hobserve]
        exact hdecisive.not_good fun hfit => nomatch hfits.mpr hfit
    | ok records =>
        rw [hrecords] at hobserve
        rcases hobserve with ⟨memory', hobserve, rfl, _⟩
        rw [hobserve]
        have heq := (residentNodesOf_eq_ok.mp hrecords).1
        rw [← heq] at hfits
        exact ⟨hdecisive, hfits.mp hrecords, _, heq⟩
  commit level nodes treeLevels _ := commit_meets hcommit nodes treeLevels
  skip _ _ _ _ h := h
  spill level nodes treeLevels _ _ := by
    intro world hshown
    rcases hshown.records with ⟨count, hrecords⟩
    have hbudget := hshown.decisive.budget nodes (IsDecisive.mem_mergedFrontiers nodes)
    have hspill : spillAfterMergeLevel policy memoryBudgetBytes lz4 computation level
        { world.1 with nodes } = .ok () { world.1 with nodes } :=
      spillAfterMergeLevel_eq hbudget rfl hrecords
    simp only [BinaryMergeCoordinator.first, onFirst, coordinator, onNodes, modify_bind,
      bind_of_ok hspill, get_bind, pure_apply]
    exact ⟨trivial, trivial, hshown.decisive, hshown.fit, count, hrecords⟩
  prepare level nodes nodes' treeLevels _ _ := by
    intro world hspilled
    rcases hspilled with ⟨rfl, hshown⟩
    rcases hshown.records with ⟨count, hrecords⟩
    obtain ⟨memory', hprepare, hnodes⟩ : ∃ memory', prepareMergeNodes policy lz4 level
        { world.1 with nodes := nodes' } = .ok () memory' ∧ memory'.nodes = nodes' := by
      refine prepareMergeNodes_returns (by simp [hrecords]) fun record hmem => ?_
      rw [hrecords] at hmem
      rcases List.mem_map.mp hmem with ⟨node, _, rfl⟩
      rfl
    simp only [BinaryMergeCoordinator.first, onFirst, coordinator, onNodes, modify_bind,
      bind_of_ok hprepare, get_bind, pure_apply, hnodes]
    exact ⟨trivial, hshown.decisive, hshown.fit⟩
  merge _ _ _ _ hlength _ h := h.1.next h.2 hlength
  finish _ _ _ _ _ h := h.decisive.good_of_single h.fit

/-- A split within the budget returns exactly when every payload that it shows fits into a chunk. -/
theorem splitParallel_isOk (policy : StoragePolicy) (lz4 : Lz4) (executor : Executor)
    (observer : BinarySplitObserver ω)
    (hcommit : ∀ nodes treeLevels w, ∃ w', checkpointCoordinator.commitFrontier nodes treeLevels w =
      .ok () w')
    (hvalid : computation.IsValid) {start stop : UInt64} (hlt : start < stop)
    (hstop : stop ≤ computation.termCount) {options : ParallelSplitOptions}
    (hcutoff : options.sequentialCutoff ≠ 0) (htasks : options.tasksPerWorker ≠ 0)
    {frontier : List BinaryFrontierNode} (hfrontier : IsInitialFrontier start stop frontier)
    (hbudget : ∀ shown ∈ shownFrontiers executor start stop options frontier,
      totalSize shown ≤ memoryBudgetBytes.toNat) (world : MergeMemory × ω) :
    (∃ node world', splitParallel executor observer.second
        (coordinator policy memoryBudgetBytes lz4 computation).first checkpointCoordinator.second
        start stop options frontier world = .ok node world') ↔
      ∀ shown ∈ shownFrontiers executor start stop options frontier, AllFit shown := by
  obtain ⟨good, hgood⟩ : ∃ good : Prop, good ↔
      ∀ shown ∈ shownFrontiers executor start stop options frontier, AllFit shown := ⟨_, Iff.rfl⟩
  have hsplittable : IsSplittable start stop options frontier := by
    rcases hfrontier.sortAndValidateFrontier_eq with ⟨sorted, hsort, _⟩
    have hrange : validateRange start stop = .ok () := by
      rw [validateRange, if_neg hlt.not_ge]
      rfl
    exact (IsSplittable.of_checks hrange
      (throwIf_neg hcutoff : throwIf _ (.invalidArgument "") = _)
      (throwIf_neg htasks : throwIf _ (.invalidArgument "") = _) hsort).1
  have hmeets : Meets (fun _ => True)
      (splitParallel executor observer.second
        (coordinator policy memoryBudgetBytes lz4 computation).first checkpointCoordinator.second
        start stop options frontier)
      (fun node _ => node = BinaryNode.ofRange start stop ∧ good) (fun _ _ => ¬ good) := by
    refine StageContract.splitParallel_meets_stages executor
      (contract policy lz4 hvalid hcommit start hstop good) (fun h => absurd hsplittable h)
      (fun _ _ _ => trivial) (fun hdirect _ => ?_) (fun hdirect _ world _ => ?_)
      (fun seed hmem => hfrontier.isTrue hmem) (fun _ _ => trivial) fun _ _ => trivial
    · have hshown : good := by
        rw [hgood, shownFrontiers, if_pos hdirect]
        simp
      have hdone : Meets (fun _ : MergeMemory × ω => True)
          (checkpointCoordinator.second.commitFrontier [BinaryNode.ofRange start stop] [0])
          (fun _ _ => True) fun _ _ => ¬ good :=
        @commit_meets ω _ hcommit (fun _ => True) _ _ _
      exact hdone.weaken fun _ _ _ => hshown
    · rw [shownFrontiers, if_neg hdirect] at hgood hbudget
      exact ⟨hbudget, hgood⟩
  have hrun := hmeets world trivial
  rw [← hgood]
  split at hrun
  · next node world' heq => simp [heq, hrun.2]
  · next e world' heq => simp [heq, hrun]

end Contract

/-- Accounting succeeds exactly when every payload fits into a chunk: in one observation, whatever
the state of the coordinator, and in a whole split that is within the budget. -/
theorem accounting_isOk_iff_allFit (policy : StoragePolicy) (lz4 : Lz4) (memoryBudgetBytes : UInt64)
    (computation : ComputationIdentity) (hvalid : computation.IsValid) :
    (∀ (nodes : List BinaryNode) (level : UInt32) (memory : MergeMemory),
      IsResident computation nodes →
      ((∃ memory', observeResidentNodes policy lz4 computation nodes level memory =
        .ok () memory') ↔ AllFit nodes)) ∧
    ∀ (ω : Type) (executor : Executor) (observer : BinarySplitObserver ω)
      (checkpointCoordinator : BinaryCheckpointCoordinator ω),
      (∀ nodes treeLevels w, ∃ w', checkpointCoordinator.commitFrontier nodes treeLevels w =
        .ok () w') →
      ∀ (start stop : UInt64), start < stop → stop ≤ computation.termCount →
      ∀ (options : ParallelSplitOptions), options.sequentialCutoff ≠ 0 →
      options.tasksPerWorker ≠ 0 →
      ∀ frontier : List BinaryFrontierNode, IsInitialFrontier start stop frontier →
      (∀ shown ∈ shownFrontiers executor start stop options frontier,
        totalSize shown ≤ memoryBudgetBytes.toNat) →
      ∀ world : MergeMemory × ω,
      ((∃ node world', splitParallel executor observer.second
          (coordinator policy memoryBudgetBytes lz4 computation).first
          checkpointCoordinator.second start stop options frontier world = .ok node world') ↔
        ∀ shown ∈ shownFrontiers executor start stop options frontier, AllFit shown) := by
  refine ⟨fun nodes level memory hresident => observeResidentNodes_isOk hresident level memory, ?_⟩
  intro ω executor observer checkpointCoordinator hcommit start stop hlt hstop options hcutoff htasks
    frontier hfrontier hbudget world
  exact splitParallel_isOk policy lz4 executor observer hcommit hvalid hlt hstop hcutoff htasks
    hfrontier hbudget world

/-- An executor that takes no work. -/
def stoppedExecutor : Executor :=
  ⟨false, 0, false, fun _ => Library.Schedule.caller⟩

/-- One digit has three terms: a seed of two, the last one, and the node that is merged of them. -/
theorem accounting_isOk_three :
    let computation : ComputationIdentity := ⟨⟨1⟩, 1, 1, 1, 16, 17, 3⟩
    let policy : StoragePolicy := ⟨ascii "storage", .none⟩
    let memory := MergeMemory.initial .create
    let observer : BinarySplitObserver Unit := .absent
    (∃ memory', observeResidentNodes policy literals computation
        [BinaryNode.ofRange 0 2, BinaryNode.ofRange 2 3] 0 memory = .ok () memory') ∧
      ∃ node world', splitParallel stoppedExecutor observer.second
        (coordinator policy 1024 literals computation).first
        BinaryCheckpointCoordinator.absent.second 0 3 ⟨1, 1⟩ [⟨BinaryNode.ofRange 0 2, 1⟩]
        (memory, ()) = .ok node world' := by
  intro computation policy memory observer
  have hpieces : (splitPieces stoppedExecutor 0 3 ⟨1, 1⟩ [⟨BinaryNode.ofRange 0 2, 1⟩]).map
      LayoutPiece.node = [BinaryNode.ofRange 0 2, BinaryNode.ofRange 2 3] := by
    rw [splitPieces, if_neg (by simp), List.mergeSort_singleton]
    rfl
  have hshown : shownFrontiers stoppedExecutor 0 3 ⟨1, 1⟩ [⟨BinaryNode.ofRange 0 2, 1⟩] =
      [[BinaryNode.ofRange 0 2, BinaryNode.ofRange 2 3], [BinaryNode.ofRange 0 3]] := by
    rw [shownFrontiers, if_neg (by simp [IsDirect]), hpieces]
    simp [mergedFrontiers, joinPairs]
  have hfirst : AllFit [BinaryNode.ofRange 0 2, BinaryNode.ofRange 2 3] := by
    rw [AllFit, List.forall_mem_cons, List.forall_mem_singleton]
    exact ⟨by decide, by decide⟩
  have hlast : AllFit [BinaryNode.ofRange 0 3] := by
    rw [AllFit, List.forall_mem_singleton]
    decide
  have haccounting := accounting_isOk_iff_allFit policy literals 1024 computation (by decide)
  refine ⟨(haccounting.1 _ 0 memory ⟨by decide, by decide, by decide⟩).mpr hfirst,
    (haccounting.2 Unit stoppedExecutor observer _ (fun _ _ w => ⟨w, rfl⟩) 0 3 (by decide) (by decide)
      ⟨1, 1⟩ (by decide) (by decide) _ ?_ ?_ (memory, ())).mpr ?_⟩
  · refine ⟨by simp, List.pairwise_singleton _ _, ?_⟩
    rw [List.forall_mem_singleton]
    exact splitSequential_eq (by decide)
  · rw [hshown, List.forall_mem_cons, List.forall_mem_singleton]
    exact ⟨by decide, by decide⟩
  · rw [hshown, List.forall_mem_cons, List.forall_mem_singleton]
    exact ⟨hfirst, hlast⟩

/-! ## A payload beyond the limit -/

theorem payloadSize_eq (node : BinaryNode) :
    payloadSize node = (node.p.natAbs.size + 7) / 8 + (node.q.natAbs.size + 7) / 8 +
      (node.t.natAbs.size + 7) / 8 := by
  simp only [payloadSize, CheckpointBlockCodec.payloadBytes, List.length_append,
    GMPSerialization.magnitude, GMPSerialization.exportBytes, Library.length_toBytes]

/-- The denominators of the first terms grow by 53 bits a term. -/
theorem pow_le_rangeBlock_q (n : ℕ) : 2 ^ (53 * n) ≤ (rangeBlock 0 (n + 1)).q.natAbs := by
  induction n with
  | zero => simp [rangeBlock, leafBlock]
  | succ n ih =>
      have hleaf : 2 ^ 53 ≤ (leafBlock (n + 1)).q.natAbs := by
        have hcube : 1 ≤ (n + 1) ^ 3 := Nat.one_le_pow _ _ (Nat.succ_pos n)
        have hcast : (leafBlock (n + 1)).q = (((n + 1) ^ 3 * 10939058860032000 : ℕ) : ℤ) := by
          simp [leafBlock]
        rw [hcast, Int.natAbs_natCast]
        omega
      rw [rangeBlock, SeriesBlock.range_succ _ (Nat.zero_le _), SeriesBlock.mul_q, Int.natAbs_mul,
        Nat.mul_succ, pow_add]
      exact Nat.mul_le_mul ih hleaf

/-- The values of a term below `2 ^ 28` have at most 200 bits. -/
theorem leafBlock_le {k : ℕ} (h : k < 2 ^ 28) :
    (leafBlock k).p.natAbs ≤ 2 ^ 200 ∧ (leafBlock k).q.natAbs ≤ 2 ^ 200 ∧
      (leafBlock k).t.natAbs ≤ 2 ^ 200 := by
  by_cases hzero : k = 0
  · subst hzero
    decide
  · have hcube : k ^ 3 ≤ (2 ^ 28) ^ 3 := Nat.pow_le_pow_left h.le 3
    have hfirst : (6 * (k : ℤ) - 5).natAbs ≤ 2 ^ 31 := by omega
    have hsecond : (2 * (k : ℤ) - 1).natAbs ≤ 2 ^ 29 := by omega
    have hthird : (6 * (k : ℤ) - 1).natAbs ≤ 2 ^ 31 := by omega
    have hp : ((6 * (k : ℤ) - 5) * (2 * k - 1) * (6 * k - 1)).natAbs ≤ 2 ^ 31 * 2 ^ 29 * 2 ^ 31 := by
      rw [Int.natAbs_mul, Int.natAbs_mul]
      exact Nat.mul_le_mul (Nat.mul_le_mul hfirst hsecond) hthird
    have hfactor : (13591409 + 545140134 * (k : ℤ)).natAbs ≤ 2 ^ 58 := by omega
    rw [leafBlock, if_neg hzero]
    refine ⟨hp.trans (by norm_num), ?_, ?_⟩
    · have hcast : (k : ℤ) ^ 3 * 10939058860032000 = ((k ^ 3 * 10939058860032000 : ℕ) : ℤ) := by
        simp
      rw [hcast, Int.natAbs_natCast]
      omega
    · rw [Int.natAbs_mul, Int.natAbs_pow, Int.natAbs_mul]
      have hsign : (-1 : ℤ).natAbs ^ k = 1 := by simp
      rw [hsign, one_mul]
      exact (Nat.mul_le_mul hfactor hp).trans (by norm_num)

theorem rangeBlock_le {n : ℕ} (h : n ≤ 2 ^ 28) :
    (rangeBlock 0 n).p.natAbs ≤ 2 ^ (200 * n) ∧ (rangeBlock 0 n).q.natAbs ≤ 2 ^ (200 * n) ∧
      (rangeBlock 0 n).t.natAbs ≤ n * 2 ^ (200 * n) := by
  induction n with
  | zero => simp [rangeBlock]
  | succ n ih =>
      rcases ih (by omega) with ⟨hp, hq, ht⟩
      rcases leafBlock_le (show n < 2 ^ 28 by omega) with ⟨hlp, hlq, hlt⟩
      rw [rangeBlock, SeriesBlock.range_succ _ (Nat.zero_le _), Nat.mul_succ, pow_add]
      refine ⟨?_, ?_, ?_⟩
      · rw [SeriesBlock.mul_p, Int.natAbs_mul]
        exact Nat.mul_le_mul hp hlp
      · rw [SeriesBlock.mul_q, Int.natAbs_mul]
        exact Nat.mul_le_mul hq hlq
      · rw [SeriesBlock.mul_t]
        refine (Int.natAbs_add_le _ _).trans ?_
        rw [Int.natAbs_mul, Int.natAbs_mul]
        calc _ ≤ n * 2 ^ (200 * n) * 2 ^ 200 + 2 ^ (200 * n) * 2 ^ 200 :=
              Nat.add_le_add (Nat.mul_le_mul ht hlq) (Nat.mul_le_mul hp hlt)
          _ = (n + 1) * (2 ^ (200 * n) * 2 ^ 200) := by ring

/-- The node of the first terms: its payload is at least its denominator, and 75 bytes a term bound
it from above. -/
theorem payloadSize_ofRange {stop : UInt64} (hpos : 0 < stop.toNat) (h : stop.toNat ≤ 2 ^ 28) :
    53 * (stop.toNat - 1) ≤ 8 * payloadSize (BinaryNode.ofRange 0 stop) ∧
      payloadSize (BinaryNode.ofRange 0 stop) ≤ 75 * stop.toNat + 15 := by
  obtain ⟨n, hn⟩ : ∃ n, stop.toNat = n + 1 := ⟨stop.toNat - 1, by omega⟩
  have hzero : (0 : UInt64).toNat = 0 := rfl
  rw [payloadSize_eq, BinaryNode.ofRange, hzero, hn]
  have hlow : 53 * n < (rangeBlock 0 (n + 1)).q.natAbs.size := Nat.lt_size.mpr (pow_le_rangeBlock_q n)
  rcases rangeBlock_le (show n + 1 ≤ 2 ^ 28 by omega) with ⟨hp, hq, ht⟩
  have hnext : ∀ bits, 2 ^ bits < 2 ^ (bits + 1) := fun bits =>
    Nat.pow_lt_pow_right (by decide) (Nat.lt_succ_self bits)
  have hpSize := Nat.size_le.mpr (hp.trans_lt (hnext _))
  have hqSize := Nat.size_le.mpr (hq.trans_lt (hnext _))
  have htSize : (rangeBlock 0 (n + 1)).t.natAbs.size ≤ 28 + 200 * (n + 1) + 1 := by
    refine Nat.size_le.mpr (lt_of_le_of_lt ?_ (hnext _))
    rw [pow_add]
    exact ht.trans (Nat.mul_le_mul_right _ (by omega))
  dsimp only
  omega

/-- The identity of a computation of 2.7 billion digits. -/
def largeComputation : ComputationIdentity :=
  ⟨⟨1⟩, 1, 1, 2700000000, 16, 2700000016, 190386916⟩

/-- The final node of that computation is within a budget of 16 GiB, and its observation throws. -/
theorem observeResidentNodes_largeComputation :
    ¬ ∀ (nodes : List BinaryNode) (level : UInt32) (memoryBudgetBytes : UInt64)
      (memory : MergeMemory), IsResident largeComputation nodes →
      totalSize nodes ≤ memoryBudgetBytes.toNat →
      ∃ memory', observeResidentNodes ⟨ascii "storage", .none⟩ literals largeComputation nodes level
        memory = .ok () memory' := by
  intro h
  have hstop : (190386916 : UInt64).toNat = 190386916 := rfl
  have hresident : IsResident largeComputation [BinaryNode.ofRange 0 190386916] := by
    refine ⟨by decide, ?_, List.pairwise_singleton _ _⟩
    rw [List.forall_mem_singleton]
    exact ⟨by decide, by decide⟩
  have hsize := @payloadSize_ofRange 190386916 (by decide) (by decide)
  rw [hstop] at hsize
  have htotal : totalSize [BinaryNode.ofRange 0 190386916] ≤ (0x400000000 : UInt64).toNat := by
    have hbudget : (0x400000000 : UInt64).toNat = 17179869184 := rfl
    rw [totalSize, List.map_singleton, List.sum_singleton, hbudget]
    omega
  have hfit := (observeResidentNodes_isOk hresident 27 (MergeMemory.initial .create)).mp
    (h _ 27 _ _ hresident htotal) _ List.mem_cons_self
  omega

end Storage.StorageMergeCoordinator

end GiveMePi
