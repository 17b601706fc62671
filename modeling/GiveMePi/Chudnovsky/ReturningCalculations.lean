import GiveMePi.Checkpoint.ReturningCommits
import GiveMePi.Chudnovsky.HeldCalculations
import GiveMePi.Chudnovsky.ProgressLifecycle

/-! # Calculations that return

A calculation from a plan of true blocks whose split returns has the result of the sequential
calculation. The split returns without storage, and with a writer whose commits return. -/

namespace GiveMePi.Chudnovsky

open Binary (BinaryFrontierNode BinaryMergeCoordinator BinaryNode Executor IsInitialFrontier
  IsPublishable IsStage ParallelSplitOptions StageContract Within maximumTreeLevel splitParallel
  splitSequential_eq)
open Checkpoint (FitsFiles FrontierPromise IsCalm)
open Checkpoint.CheckpointFrontierWriter (CanCommit HoldsValues commitFrontier_returns)
open Library (Meets)
open Progress (ProgressTracker isValidTransition rangeTerms)

variable {τ : Type}

/-! ## The calculation -/

/-- The result that can be made is returned, and the output is left to be written where the
completion is deferred. -/
theorem finishResult_returns {precision : PrecisionPlan} {node : BinaryNode}
    {result : PiCalculationResult} (hresult : makeResult precision node = .ok result)
    (deferProgressCompletion : Bool) {workPlan : Progress.ProgressWorkPlan}
    {phase : Progress.ProgressPhase} {terms reported : ℕ} {merging : Bool}
    (hphase : isValidTransition phase .finalizing = true) :
    Meets (IsAt (τ := τ) workPlan phase terms reported merging)
      (finishResult precision node deferProgressCompletion)
      (fun returned calculation => returned = result ∧ (deferProgressCompletion = true →
        IsAt workPlan .finalizing terms reported merging calculation))
      (fun _ _ => False) := by
  rw [finishResult, hresult]
  refine Meets.bind (IsAt.require_meets hphase) fun _ => ?_
  simp only [Action.liftM_eq, Action.ofExcept_ok, pure_bind]
  refine Meets.ite (fun _ => Meets.pure fun _ h => ⟨rfl, fun _ => h⟩) fun hcompleted => ?_
  refine Meets.bind (IsAt.require_meets rfl) fun _ => ?_
  exact Meets.bind (IsAt.require_meets rfl) fun _ =>
    Meets.pure fun _ _ => ⟨rfl, fun hdeferred => absurd hdeferred hcompleted⟩

/-- What is left behind the split. -/
theorem finishSplit_returns {precision : PrecisionPlan} {node : BinaryNode}
    {result : PiCalculationResult} (hresult : makeResult precision node = .ok result)
    (deferProgressCompletion : Bool) {workPlan : Progress.ProgressWorkPlan} {restored : ℕ} :
    Meets (IsSplit (τ := τ) workPlan restored)
      (completeTerms workPlan.totalTerms >>= fun _ =>
        finishResult precision node deferProgressCompletion)
      (fun returned calculation => returned = result ∧ (deferProgressCompletion = true →
        ∃ tracker, calculation.tracker = some tracker ∧ tracker.phase = .finalizing))
      (fun _ _ => False) := by
  refine Meets.exists_pre fun reported => Meets.exists_pre fun merging => Meets.of_pre fun _ => ?_
  refine Meets.bind (IsAt.completeTerms_meets ?_) fun _ =>
    (finishResult_returns hresult deferProgressCompletion ?_).weaken fun _ calculation h =>
      ⟨h.1, fun hdeferred => ?_⟩
  · cases merging <;> rfl
  · cases merging <;> rfl
  · obtain ⟨tracker, htracker, -, hphase, -⟩ := (h.2 hdeferred).tracker
    exact ⟨tracker, htracker, hphase⟩

section

variable {mergeCoordinator : BinaryMergeCoordinator τ} {checkpointEnabled : Bool}
  {executor : Executor} {options : ParallelSplitOptions} {frontier : List BinaryFrontierNode}
  {ready left : Calculation τ → Prop}

/-- A calculation whose split returns, when its tracker has the terms of its seeds. -/
theorem calculateParallel_returns {request : PiCalculationRequest}
    {result : PiCalculationResult} (hresult : calculateSequential request = .ok result)
    (deferProgressCompletion : Bool) {precision : PrecisionPlan}
    (hprecision : PrecisionPolicy.create request.digits request.guardDigits = .ok precision)
    (hready : IsUntracked ready) (hleft : IsUntracked left)
    (hsplit : Meets ready
      (splitParallel executor trackerSplitObserver (storageCoordinator mergeCoordinator)
        (checkpointCoordinator checkpointEnabled) 0 precision.termCount options frontier)
      (fun node calculation => node = BinaryNode.ofRange 0 precision.termCount ∧
        left calculation) (fun _ _ => False))
    {tracker : ProgressTracker}
    (hdigits : tracker.plan.targetDigits = precision.requestedDigits)
    (hterms : tracker.plan.totalTerms = precision.termCount)
    (hphase : tracker.phase = .initializing ∨ tracker.phase = .validatingCheckpoints)
    (hrestored : tracker.completedTerms.toNat =
      (frontier.map fun seed => rangeTerms seed.node.range).sum) :
    Meets (fun calculation : Calculation τ =>
        (calculation.tracker = some tracker ∧ calculation.calls = []) ∧ ready calculation)
      (calculateParallel request deferProgressCompletion executor options mergeCoordinator frontier
        checkpointEnabled)
      (fun returned calculation => returned = result ∧ left calculation ∧
        (deferProgressCompletion = true → ∃ tracker, calculation.tracker = some tracker ∧
          tracker.phase = .finalizing)) (fun _ _ => False) := by
  have hpos : 0 < precision.termCount := by
    rw [UInt64.lt_iff_toNat_lt, (PrecisionPolicy.create_eq_ok_iff.mp hprecision).terms_eq]
    exact Nat.succ_pos _
  have hmake : makeResult precision (BinaryNode.ofRange 0 precision.termCount) = .ok result := by
    rw [calculateSequential, hprecision, ok_bind, splitSequential_eq hpos, ok_bind] at hresult
    exact hresult
  have hbegin : Meets (fun calculation : Calculation τ =>
      calculation.tracker = some tracker ∧ calculation.calls = []) (beginProgress precision)
      (fun _ calculation => IsAt tracker.plan .splitting tracker.completedTerms.toNat 0
        calculation.merging calculation) (fun _ _ => False) :=
    beginProgress_meets hdigits hterms hphase
  have hcounted : Meets (IsAt tracker.plan .splitting tracker.completedTerms.toNat 0 false)
      (splitParallel executor trackerSplitObserver (storageCoordinator mergeCoordinator)
        (checkpointCoordinator checkpointEnabled) 0 tracker.plan.totalTerms options frontier)
      (fun _ => IsSplit tracker.plan tracker.completedTerms.toNat)
      (fun _ calculation => AreAccepted calculation.calls) :=
    splitParallel_isSplit executor options mergeCoordinator checkpointEnabled hrestored
  apply Action.attempt_meets (fun _ _ => False)
  · rw [calculateSteps]
    simp only [hprecision, Action.liftM_eq, Action.ofExcept_ok, pure_bind]
    refine Meets.bind ((hbegin.and (hready.beginProgress precision)).consequence (fun _ => id)
      (fun _ _ => id) fun _ _ h => h.1) fun _ => ?_
    refine Meets.bind_of
      (fun _ calculation => IsAt tracker.plan .splitting tracker.completedTerms.toNat 0 false
        calculation ∧ ready calculation)
      (fun calculation h => ⟨⟨h.1.tracker, h.1.accepted, h.1.reported, rfl⟩, hready.2 _ _ _ h.2⟩)
      fun _ => ?_
    rw [← hterms] at hmake hsplit ⊢
    refine Meets.bind_of (fun node calculation => node = BinaryNode.ofRange 0
        tracker.plan.totalTerms ∧ left calculation ∧
          IsSplit tracker.plan tracker.completedTerms.toNat calculation)
      ((hcounted.and hsplit).consequence (fun _ => id)
        (fun _ _ h => ⟨h.2.1, h.2.2, h.1⟩) fun _ _ h => h.2)
      fun node => Meets.of_pre fun hnode => ?_
    have hkept : Meets left (completeTerms tracker.plan.totalTerms >>= fun _ =>
        finishResult precision node deferProgressCompletion) (fun _ => left) (fun _ => left) :=
      Meets.bind (hleft.completeTerms _) fun _ =>
        (hleft.finishResult _ _ _).weaken fun _ _ h => h.2
    exact (hkept.and (finishSplit_returns (hnode ▸ hmake) deferProgressCompletion)).consequence
      (fun _ => id) (fun _ _ h => ⟨h.2.1, h.1, h.2.2⟩) fun _ _ h => h.2
  · exact fun e calculation h => h.elim

end

/-! ## The split -/

/-- Where checkpoints are enabled, the next commit returns. -/
structure MayCommit (promise : FrontierPromise) (checkpointEnabled : Bool)
    (calculation : Calculation τ) : Prop where
  calm : IsCalm promise.environment calculation.session.world
  canCommit : checkpointEnabled = true → CanCommit promise calculation.session

section

variable {promise : FrontierPromise} {checkpointEnabled : Bool}

theorem isUntracked_mayCommit :
    IsUntracked (MayCommit (τ := τ) promise checkpointEnabled) := by
  refine ⟨fun tracker calculation h => ?_, fun _ _ _ h => ⟨h.calm, h.canCommit⟩⟩
  have hcalm : IsCalm promise.environment (calculation.setTracker tracker).session.world :=
    ⟨h.calm.environment, h.calm.condition⟩
  refine ⟨hcalm, fun henabled => ?_⟩
  obtain ⟨⟨hcontinues, hsorted, hkeeps⟩, -⟩ := h.canCommit henabled
  exact ⟨⟨hcontinues, hsorted, hkeeps.kept, hkeeps.environment, hkeeps.condition⟩, hcalm⟩

variable (hstable : promise.IsStable) (hreliable : promise.environment.IsReliable)
  (hidentity : promise.identity.IsValid) (hfits : FitsFiles promise.identity promise.values)
  (hvalues : promise.values = BinaryNode.ofRange)
include hstable hreliable hidentity hfits hvalues

/-- The commit of a publishable frontier of true nodes returns. -/
theorem commitFrontier_mayCommit {nodes : List BinaryNode} {treeLevels : List UInt32}
    (htrue : ∀ node ∈ nodes, node.IsTrue)
    (hpublishable : IsPublishable promise.identity.termCount [] nodes treeLevels) :
    Meets (MayCommit (τ := τ) promise checkpointEnabled)
      ((checkpointCoordinator checkpointEnabled).commitFrontier nodes treeLevels)
      (fun _ => MayCommit promise checkpointEnabled) (fun _ _ => False) := by
  cases checkpointEnabled with
  | false => exact Meets.pure fun _ h => h
  | true =>
      have hnodes (node : BinaryNode) (hmem : node ∈ nodes) : HoldsValues promise.values node :=
        fun _ => hvalues ▸ htrue node hmem
      intro calculation hcalculation
      have hrun := commitFrontier_returns hstable hreliable hidentity hfits hnodes hpublishable
        calculation.session (hcalculation.canCommit rfl)
      simp only [checkpointCoordinator, if_true, Calculation.onSession]
      cases hcommit : Checkpoint.CheckpointFrontierWriter.commitFrontier nodes treeLevels
          calculation.session with
      | ok u session =>
          rw [hcommit] at hrun
          exact ⟨hrun.calm, fun _ => hrun⟩
      | error e session =>
          rw [hcommit] at hrun
          exact hrun

/-- The contract of a split without storage whose commits return. -/
def commitContract :
    StageContract (trackerSplitObserver (τ := τ)) (storageCoordinator .absent)
      (checkpointCoordinator checkpointEnabled)
      (fun level => level ≤ maximumTreeLevel promise.identity.termCount) 0
      promise.identity.termCount (fun _ _ => False) where
  initial := MayCommit promise checkpointEnabled
  fresh _ _ _ := MayCommit promise checkpointEnabled
  observed _ _ _ := MayCommit promise checkpointEnabled
  committed _ _ _ := MayCommit promise checkpointEnabled
  spilled _ nodes nodes' _ calculation :=
    nodes' = nodes ∧ MayCommit promise checkpointEnabled calculation
  prepared _ _ _ := MayCommit promise checkpointEnabled
  finished := MayCommit promise checkpointEnabled
  terms count _ h := isUntracked_mayCommit.termsCompleted h count
  direct := (commitFrontier_mayCommit hstable hreliable hidentity hfits hvalues
    (fun _ hmem => List.mem_singleton.mp hmem ▸ BinaryNode.ofRange_isTrue _ _)
    (IsPublishable.single hidentity.termCount_pos)).weaken fun _ _ h => h
  start_fresh _ _ _ _ h := h
  observe _ _ _ _ := Meets.pure fun _ h => h
  commit _ _ _ hstage := commitFrontier_mayCommit hstable hreliable hidentity hfits hvalues
    hstage.frontier.isTrue
    (hstage.isPublishable hidentity.termCount_pos (Within.of_subset (List.nil_subset _)))
  skip _ _ _ _ h := h
  spill _ _ _ _ _ := Meets.pure fun _ h => ⟨rfl, rfl, h⟩
  prepare _ _ _ _ _ _ := Meets.pure fun _ h => h
  merge mergeLevel _ _ _ _ _ h := isUntracked_mayCommit.mergeLevelStarted h mergeLevel
  finish _ _ _ _ _ h := h

/-- A split without storage whose commits return has the node of the whole range. -/
theorem splitParallel_commits (executor : Executor) {options : ParallelSplitOptions}
    (hcutoff : options.sequentialCutoff ≠ 0) (htasks : options.tasksPerWorker ≠ 0)
    {frontier : List BinaryFrontierNode}
    (hfrontier : IsInitialFrontier 0 promise.identity.termCount frontier)
    (hlevels : ∀ seed ∈ frontier,
      seed.treeLevel ≤ maximumTreeLevel promise.identity.termCount) :
    Meets (MayCommit (τ := τ) promise checkpointEnabled)
      (splitParallel executor trackerSplitObserver (storageCoordinator .absent)
        (checkpointCoordinator checkpointEnabled) 0 promise.identity.termCount options frontier)
      (fun node calculation => node = BinaryNode.ofRange 0 promise.identity.termCount ∧
        MayCommit promise checkpointEnabled calculation)
      (fun _ _ => False) := by
  have hcap (level : UInt32) (h : level ≤ maximumTreeLevel (promise.identity.termCount - 0)) :
      level ≤ maximumTreeLevel promise.identity.termCount := by
    rwa [UInt64.sub_zero] at h
  exact ((commitContract hstable hreliable hidentity hfits hvalues).splitParallel_meets executor
    hidentity.termCount_pos hcutoff htasks hfrontier hcap hlevels).weaken fun _ _ h => h

end

end GiveMePi.Chudnovsky
