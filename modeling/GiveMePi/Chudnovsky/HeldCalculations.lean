import GiveMePi.Checkpoint.WriterCrashes
import GiveMePi.Chudnovsky.CalculateParallel
import GiveMePi.Binary.FrontierCommits

/-! # Calculations keep what is promised of the checkpoints

However the tasks of a calculation run and however it ends, its writer keeps the promise; what it
returns is the result of the sequential calculation. -/

namespace GiveMePi.Chudnovsky

open Binary (BinaryCheckpointCoordinator BinaryFrontierNode BinaryMergeCoordinator BinaryNode
  BinarySplitObserver Executor IsFrontier IsStage ParallelSplitOptions StageContract
  StorageContract splitParallel splitSequential_eq)
open Checkpoint (FrontierPromise WriterSession)
open Checkpoint.CheckpointFrontierWriter (HoldsValues IsHeld commitFrontier_holds)
open Library (Meets)

variable {τ : Type}

/-! ## The tracker -/

/-- What no call on the tracker changes. -/
def IsUntracked (kept : Calculation τ → Prop) : Prop :=
  (∀ tracker calculation, kept calculation → kept (calculation.setTracker tracker)) ∧
    ∀ merging calls calculation, kept calculation →
      kept { calculation with merging := merging, calls := calls }

namespace IsUntracked

variable {kept : Calculation τ → Prop} (h : IsUntracked kept)

include h

theorem call {calculation : Calculation τ} (hkept : kept calculation) (call : TrackerCall) :
    kept (calculation.call call).2 := by
  rw [Calculation.call]
  cases calculation.tracker with
  | none => exact hkept
  | some tracker => exact h.2 _ _ _ (h.1 _ _ hkept)

theorem require (call : TrackerCall) (what : String) :
    Meets kept (Calculation.require call what) (fun _ => kept) (fun _ => kept) := by
  intro calculation hkept
  have hcall := h.call hkept call
  rw [Calculation.require]
  cases hrun : calculation.call call with
  | mk done after =>
      rw [hrun] at hcall
      cases done with
      | true => exact hcall
      | false => exact hcall

theorem beginProgress (precision : PrecisionPlan) :
    Meets kept (beginProgress precision) (fun _ => kept) (fun _ => kept) := by
  refine Meets.bind_of (fun _ => kept) (fun _ hkept => hkept) fun seen => ?_
  cases seen.tracker with
  | none => exact Meets.pure fun _ hkept => hkept
  | some tracker =>
      exact Meets.bind (Action.guard_meets fun _ _ hkept => hkept) fun _ => h.require _ _

theorem completeTerms (totalTerms : UInt64) :
    Meets kept (completeTerms totalTerms) (fun _ => kept) (fun _ => kept) := by
  refine Meets.bind_of (fun _ => kept) (fun _ hkept => hkept) fun seen => ?_
  cases seen.tracker with
  | none => exact Meets.pure fun _ hkept => hkept
  | some tracker =>
      exact Meets.bind (Action.guard_meets fun _ _ hkept => hkept) fun _ => h.require _ _

/-- The result is the one that is made of the node. -/
theorem finishResult (precision : PrecisionPlan) (node : BinaryNode)
    (deferProgressCompletion : Bool) :
    Meets kept (finishResult precision node deferProgressCompletion)
      (fun result calculation => makeResult precision node = .ok result ∧ kept calculation)
      (fun _ => kept) := by
  rw [Chudnovsky.finishResult]
  refine Meets.bind (h.require _ _) fun _ => ?_
  refine Meets.bind (Action.ofExcept_meets fun _ _ _ hkept => hkept) fun result => ?_
  refine Meets.of_pre fun hresult => ?_
  refine Meets.ite (fun _ => Meets.pure fun _ hkept => ⟨hresult, hkept⟩) fun _ => ?_
  refine Meets.bind (h.require _ _) fun _ => ?_
  exact Meets.bind (h.require _ _) fun _ => Meets.pure fun _ hkept => ⟨hresult, hkept⟩

theorem failProgress {calculation : Calculation τ} (hkept : kept calculation) :
    kept (failProgress calculation) := by
  rw [Chudnovsky.failProgress]
  cases calculation.tracker with
  | none => exact hkept
  | some tracker => exact h.1 _ _ hkept

theorem termsCompleted {calculation : Calculation τ} (hkept : kept calculation) (count : UInt64) :
    kept (trackerSplitObserver.termsCompleted count calculation) :=
  h.call hkept _

theorem mergeLevelStarted {calculation : Calculation τ} (hkept : kept calculation)
    (mergeLevel : UInt32) : kept (trackerSplitObserver.mergeLevelStarted mergeLevel calculation) := by
  simp only [trackerSplitObserver]
  split
  · exact hkept
  · exact h.2 _ _ _ (h.call hkept _)

end IsUntracked

/-! ## The session and the storage -/

/-- The promise is kept, and the storage is in a condition. -/
def HoldsPromise (promise : FrontierPromise) (condition : τ → Prop) (calculation : Calculation τ) :
    Prop :=
  IsHeld promise calculation.session ∧ condition calculation.storage

variable {promise : FrontierPromise}

theorem isUntracked_holdsPromise (condition : τ → Prop) :
    IsUntracked (HoldsPromise promise condition) := by
  refine ⟨fun tracker calculation h => ?_, fun _ _ _ h => h⟩
  obtain ⟨⟨hcontinues, hsorted, hkeeps⟩, hcondition⟩ := h
  exact ⟨⟨hcontinues, hsorted, hkeeps.kept, hkeeps.environment, hkeeps.condition⟩, hcondition⟩

theorem holdsPromise_onStorage {α : Type} {action : Action τ α} {pre : τ → Prop}
    {post : α → τ → Prop} (h : Meets pre action post fun _ _ => True) :
    Meets (HoldsPromise promise pre) (Calculation.onStorage action)
      (fun a => HoldsPromise promise (post a))
      (fun _ => HoldsPromise promise fun _ => True) := by
  intro calculation hcalculation
  have hrun := h calculation.storage hcalculation.2
  rw [Calculation.onStorage]
  cases haction : action calculation.storage with
  | ok a storage =>
      rw [haction] at hrun
      exact ⟨hcalculation.1, hrun⟩
  | error e storage => exact ⟨hcalculation.1, trivial⟩

/-- The commit of true nodes. -/
theorem holdsPromise_commitFrontier (hstable : promise.IsStable)
    (hvalues : promise.values = BinaryNode.ofRange) (checkpointEnabled : Bool)
    (condition : τ → Prop) {nodes : List BinaryNode} (treeLevels : List UInt32)
    (htrue : ∀ node ∈ nodes, node.IsTrue) :
    Meets (HoldsPromise promise condition)
      ((checkpointCoordinator checkpointEnabled).commitFrontier nodes treeLevels)
      (fun _ => HoldsPromise promise condition)
      (fun _ => HoldsPromise promise fun _ => True) := by
  cases checkpointEnabled with
  | false => exact Meets.pure fun _ h => h
  | true =>
      have hnodes (node : BinaryNode) (hmem : node ∈ nodes) : HoldsValues promise.values node :=
        fun _ => hvalues ▸ htrue node hmem
      intro calculation hcalculation
      have hrun := commitFrontier_holds hstable treeLevels hnodes calculation.session
        hcalculation.1
      simp only [checkpointCoordinator, if_true, Calculation.onSession]
      cases hcommit : Checkpoint.CheckpointFrontierWriter.commitFrontier nodes treeLevels
          calculation.session with
      | ok u session =>
          rw [hcommit] at hrun
          exact ⟨hrun, hcalculation.2⟩
      | error e session =>
          rw [hcommit] at hrun
          exact ⟨hrun, trivial⟩

/-! ## Calculations -/

section

variable {mergeCoordinator : BinaryMergeCoordinator τ}
  (storage : StorageContract .absent mergeCoordinator .absent) (hstable : promise.IsStable)
  (hvalues : promise.values = BinaryNode.ofRange) (checkpointEnabled : Bool)

/-- The contract of the stages of a calculation, between which the promise is kept. -/
def promiseContract (start stop : UInt64) :
    StageContract trackerSplitObserver (storageCoordinator mergeCoordinator)
      (checkpointCoordinator checkpointEnabled) (fun _ => True) start stop
      (fun _ => HoldsPromise promise fun _ => True) where
  initial := HoldsPromise promise storage.ready
  fresh _ _ _ := HoldsPromise promise storage.ready
  observed mergeLevel nodes _ := HoldsPromise promise (storage.shown nodes mergeLevel)
  committed mergeLevel nodes _ := HoldsPromise promise (storage.shown nodes mergeLevel)
  spilled mergeLevel nodes nodes' _ := HoldsPromise promise (storage.held nodes nodes' mergeLevel)
  prepared _ _ _ := HoldsPromise promise storage.ready
  finished := HoldsPromise promise fun _ => True
  terms count calculation h := (isUntracked_holdsPromise _).termsCompleted h count
  direct := by
    refine (holdsPromise_commitFrontier hstable hvalues checkpointEnabled storage.ready [0]
      ?_).weaken fun _ _ h => ⟨h.1, trivial⟩
    intro node hmem
    rw [List.mem_singleton.mp hmem]
    rfl
  start_fresh _ _ _ _ h := h
  observe mergeLevel nodes _ _ := holdsPromise_onStorage (storage.observe nodes mergeLevel)
  commit mergeLevel nodes treeLevels hstage :=
    holdsPromise_commitFrontier hstable hvalues checkpointEnabled _ treeLevels
      hstage.frontier.isTrue
  skip _ _ _ _ h := h
  spill mergeLevel nodes _ _ _ :=
    (holdsPromise_onStorage (storage.spill nodes mergeLevel)).weaken
      fun _ _ h => ⟨h.2.1, h.1, h.2.2⟩
  prepare mergeLevel nodes nodes' _ _ _ :=
    (holdsPromise_onStorage (storage.prepare nodes nodes' mergeLevel)).weaken
      fun _ _ h => ⟨h.2.1, h.1, h.2.2⟩
  merge mergeLevel _ _ _ _ calculation h :=
    (isUntracked_holdsPromise _).mergeLevelStarted h mergeLevel
  finish _ _ _ _ _ h := ⟨h.1, trivial⟩

include storage hstable hvalues

/-- A calculation from true seeds keeps the promise, and returns what the sequential one returns. -/
theorem calculateParallel_holds (request : PiCalculationRequest) (deferProgressCompletion : Bool)
    (executor : Executor) (options : ParallelSplitOptions) {frontier : List BinaryFrontierNode}
    (htrue : ∀ seed ∈ frontier, seed.node.IsTrue) :
    Meets (HoldsPromise promise storage.ready)
      (calculateParallel request deferProgressCompletion executor options mergeCoordinator frontier
        checkpointEnabled)
      (fun result calculation => calculateSequential request = .ok result ∧
        IsHeld promise calculation.session)
      (fun _ calculation => IsHeld promise calculation.session) := by
  have hready : IsUntracked (HoldsPromise promise storage.ready) := isUntracked_holdsPromise _
  have hany : IsUntracked (HoldsPromise promise fun _ : τ => True) := isUntracked_holdsPromise _
  have hforget (calculation : Calculation τ) (h : HoldsPromise promise storage.ready calculation) :
      HoldsPromise promise (fun _ => True) calculation := ⟨h.1, trivial⟩
  rw [calculateParallel]
  refine Action.attempt_meets (fun _ => HoldsPromise promise fun _ => True) ?_ fun error => ?_
  · rw [calculateSteps]
    refine Meets.bind (Action.ofExcept_meets fun _ _ _ h => hforget _ h) fun precision => ?_
    refine Meets.of_pre fun hcreated => ?_
    have hprecision : PrecisionPolicy.create request.digits request.guardDigits = .ok precision :=
      hcreated
    refine Meets.bind ((hready.beginProgress precision).consequence (fun _ => id) (fun _ _ => id)
      fun _ _ h => hforget _ h) fun _ => ?_
    refine Meets.bind_of (fun _ => HoldsPromise promise storage.ready) (fun _ h => h) fun _ => ?_
    refine Meets.bind ((promiseContract storage hstable hvalues checkpointEnabled 0
      precision.termCount).splitParallel_meets_pieces executor (fun _ _ h => hforget _ h)
        (fun count _ h => hready.termsCompleted h count) (fun _ _ => ?_) (fun _ h => h) htrue
          (fun _ _ => trivial) fun _ _ => trivial) fun node => ?_
    · exact (promiseContract storage hstable hvalues checkpointEnabled 0
        precision.termCount).direct
    refine Meets.of_pre fun hnode => ?_
    refine Meets.bind (hany.completeTerms precision.termCount) fun _ => ?_
    refine (hany.finishResult precision node deferProgressCompletion).weaken ?_
    intro result calculation h
    refine ⟨?_, h.2.1⟩
    have hpos : 0 < precision.termCount := by
      rw [UInt64.lt_iff_toNat_lt, (PrecisionPolicy.create_eq_ok_iff.mp hprecision).terms_eq]
      exact Nat.succ_pos _
    rw [calculateSequential, hprecision, ok_bind, splitSequential_eq hpos, ok_bind, ← hnode]
    exact h.1
  · refine Meets.bind_of (fun _ => HoldsPromise promise fun _ => True)
      (fun _ h => hany.failProgress h) fun _ => ?_
    exact Meets.throw fun _ h => h.1

end

end GiveMePi.Chudnovsky
