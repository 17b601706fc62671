import GiveMePi.Binary.SplitRuns
import GiveMePi.Checkpoint.WriterProgress
import GiveMePi.Chudnovsky.CalculateParallel
import GiveMePi.Library.ProgramLogic
import GiveMePi.Progress.RestoredProgress

/-! # The progress of a calculation

Every term is counted once: those of the accepted blocks when the plan is restored, and those of
every other block when it is computed. No call on the tracker is refused. -/

namespace GiveMePi.Chudnovsky

open Binary (BinaryFrontierNode BinaryMergeCoordinator BinaryNode Executor IsSplittable Keep
  LayoutPiece ParallelSplitOptions computedBlocks splitParallel splitParallel_phases splitPieces
  splitPieces_seed?)
open Checkpoint (AcceptedCheckpoint CheckpointFrontierWriter CheckpointResumePlan)
open Library (Meets)
open Progress (ProgressPhase ProgressTracker ProgressWorkPlan ResumeProgressRestorer.acceptedTerms
  ResumeProgressRestorer.restore isTerminal isValidTransition rangeTerms sum_rangeTerms)

variable {τ : Type}

/-! ## The calls -/

/-- The terms that the observer reported. -/
def reportedTerms (calls : List (TrackerCall × Bool)) : ℕ :=
  (calls.filterMap fun call => match call.1 with
    | .termsCompleted count => some count.toNat
    | _ => none).sum

/-- No call was refused. -/
def AreAccepted (calls : List (TrackerCall × Bool)) : Prop :=
  ∀ call ∈ calls, call.2 = true

@[simp] theorem reportedTerms_termsCompleted (count : UInt64) (done : Bool)
    (calls : List (TrackerCall × Bool)) :
    reportedTerms ((.termsCompleted count, done) :: calls) = count.toNat + reportedTerms calls := by
  simp [reportedTerms]

@[simp] theorem reportedTerms_completeTerms (count : UInt64) (done : Bool)
    (calls : List (TrackerCall × Bool)) :
    reportedTerms ((.completeTerms count, done) :: calls) = reportedTerms calls := by
  simp [reportedTerms]

@[simp] theorem reportedTerms_transitionTo (phase : ProgressPhase) (done : Bool)
    (calls : List (TrackerCall × Bool)) :
    reportedTerms ((.transitionTo phase, done) :: calls) = reportedTerms calls := by
  simp [reportedTerms]

/-- A calculation whose calls were all accepted, in a phase and with a number of terms counted. -/
structure IsAt (workPlan : ProgressWorkPlan) (phase : ProgressPhase) (terms reported : ℕ)
    (merging : Bool) (calculation : Calculation τ) : Prop where
  tracker : ∃ tracker, calculation.tracker = some tracker ∧ tracker.plan = workPlan ∧
    tracker.phase = phase ∧ tracker.completedTerms.toNat = terms
  accepted : AreAccepted calculation.calls
  reported : reportedTerms calculation.calls = reported
  merging : calculation.merging = merging

theorem require_eq {call : TrackerCall} {what : String} {calculation : Calculation τ}
    (h : (calculation.call call).1 = true) :
    Calculation.require call what calculation = .ok () (calculation.call call).2 := by
  rw [Calculation.require]
  cases hcall : calculation.call call with
  | mk done after =>
      rw [hcall] at h
      obtain rfl : done = true := h
      rfl

namespace IsAt

variable {workPlan : ProgressWorkPlan} {phase next : ProgressPhase} {terms reported : ℕ}
  {merging : Bool} {calculation : Calculation τ}

/-- A valid transition is accepted. -/
theorem transitionTo (h : IsAt workPlan phase terms reported merging calculation)
    (hvalid : isValidTransition phase next = true) :
    (calculation.call (.transitionTo next)).1 = true ∧
      IsAt workPlan next terms reported merging (calculation.call (.transitionTo next)).2 := by
  obtain ⟨tracker, htracker, hplan, rfl, hterms⟩ := h.tracker
  have hcall : calculation.call (.transitionTo next) =
      (true, { calculation.setTracker { tracker with phase := next } with
        calls := (.transitionTo next, true) :: calculation.calls }) := by
    simp only [Calculation.call, htracker, TrackerCall.perform, ProgressTracker.transitionTo,
      hvalid, if_true]
  rw [hcall]
  refine ⟨rfl, ⟨_, rfl, hplan, rfl, hterms⟩, List.forall_mem_cons.mpr ⟨rfl, h.accepted⟩, ?_,
    h.merging⟩
  rw [reportedTerms_transitionTo, h.reported]

theorem require_meets {what : String} {fail : Error → Calculation τ → Prop}
    (hvalid : isValidTransition phase next = true) :
    Meets (IsAt workPlan phase terms reported merging)
      (Calculation.require (.transitionTo next) what)
      (fun _ => IsAt workPlan next terms reported merging) fail := by
  intro calculation h
  obtain ⟨hdone, hnext⟩ := h.transitionTo hvalid
  rw [require_eq hdone]
  exact hnext

/-- A report that fits into the plan is accepted. -/
theorem termsCompleted (h : IsAt workPlan phase terms reported merging calculation)
    (hphase : isTerminal phase = false) {count : UInt64}
    (hroom : terms + count.toNat ≤ workPlan.totalTerms.toNat) :
    IsAt workPlan phase (terms + count.toNat) (reported + count.toNat) merging
      (calculation.call (.termsCompleted count)).2 := by
  obtain ⟨tracker, htracker, rfl, rfl, rfl⟩ := h.tracker
  obtain ⟨hadd, hsum⟩ := ProgressTracker.addCompletedTerms_eq hphase hroom
  have hcall : calculation.call (.termsCompleted count) =
      (true, { calculation.setTracker { tracker with
          completedTerms := tracker.completedTerms + count } with
        calls := (.termsCompleted count, true) :: calculation.calls }) := by
    simp only [Calculation.call, htracker, TrackerCall.perform, hadd]
  rw [hcall]
  refine ⟨⟨_, rfl, rfl, rfl, hsum⟩, List.forall_mem_cons.mpr ⟨rfl, h.accepted⟩, ?_, h.merging⟩
  rw [reportedTerms_termsCompleted, h.reported, Nat.add_comm]

/-- The calculation counts what is left of the plan, which may be nothing. -/
theorem completeTerms_meets {fail : Error → Calculation τ → Prop}
    (hphase : isTerminal phase = false) :
    Meets (IsAt workPlan phase workPlan.totalTerms.toNat reported merging)
      (completeTerms workPlan.totalTerms)
      (fun _ => IsAt workPlan phase workPlan.totalTerms.toNat reported merging) fail := by
  intro calculation h
  obtain ⟨tracker, htracker, rfl, rfl, hterms⟩ := h.tracker
  have hequal : tracker.completedTerms = tracker.plan.totalTerms := UInt64.toNat_inj.mp hterms
  have hroom : tracker.completedTerms.toNat + (0 : UInt64).toNat ≤
      tracker.plan.totalTerms.toNat := hterms.le
  obtain ⟨hadd, hsum⟩ := ProgressTracker.addCompletedTerms_eq hphase hroom
  have hnot : ¬ tracker.completedTerms > tracker.plan.totalTerms := by
    rw [hequal]
    exact lt_irrefl _
  have hrun : completeTerms tracker.plan.totalTerms calculation =
      Calculation.require (.completeTerms (tracker.plan.totalTerms - tracker.completedTerms))
        "Cannot publish completed calculation terms" calculation := by
    simp only [completeTerms, Library.Program.get_bind, htracker]
    rw [throwIf_neg hnot]
    rfl
  have hcall : calculation.call (.completeTerms 0) =
      (true, { calculation.setTracker { tracker with
          completedTerms := tracker.completedTerms + 0 } with
        calls := (.completeTerms 0, true) :: calculation.calls }) := by
    simp only [Calculation.call, htracker, TrackerCall.perform, hadd]
  rw [hrun, hequal, UInt64.sub_self, require_eq (by rw [hcall]), hcall]
  refine ⟨⟨_, rfl, rfl, rfl, ?_⟩, List.forall_mem_cons.mpr ⟨rfl, h.accepted⟩, ?_, h.merging⟩
  · rw [hsum, hterms]
    rfl
  · rw [reportedTerms_completeTerms, h.reported]

/-- What storage does is not seen. -/
theorem onStorage_meets {α : Type} (action : Action τ α) :
    Meets (IsAt workPlan phase terms reported merging) (Calculation.onStorage action)
      (fun _ => IsAt workPlan phase terms reported merging)
      (fun _ => IsAt workPlan phase terms reported merging) := by
  intro calculation h
  rw [Calculation.onStorage]
  cases action calculation.storage with
  | ok a storage => exact ⟨h.tracker, h.accepted, h.reported, h.merging⟩
  | error e storage => exact ⟨h.tracker, h.accepted, h.reported, h.merging⟩

/-- A published frontier changes neither the phase nor the terms. -/
theorem commitFrontier_meets (checkpointEnabled : Bool) (nodes : List BinaryNode)
    (treeLevels : List UInt32) :
    Meets (IsAt workPlan phase terms reported merging)
      ((checkpointCoordinator (τ := τ) checkpointEnabled).commitFrontier nodes treeLevels)
      (fun _ => IsAt workPlan phase terms reported merging)
      (fun _ => IsAt workPlan phase terms reported merging) := by
  cases checkpointEnabled with
  | false => exact Meets.pure fun _ => id
  | true =>
      intro calculation h
      let condition (found : Option ProgressTracker) (_ : CheckpointFrontierWriter) : Prop :=
        ∃ tracker, found = some tracker ∧ tracker.plan = workPlan ∧ tracker.phase = phase ∧
          tracker.completedTerms.toNat = terms
      have hpublish (found : Option ProgressTracker) (writer : CheckpointFrontierWriter)
          (update : Progress.CheckpointProgressUpdate) (h : condition found writer) :
          condition (found.map fun tracker => (tracker.publishCheckpointProgress update).2)
            { writer with initialFrontierWorkPublished := true } := by
        obtain ⟨tracker, rfl, rfl, rfl, rfl⟩ := h
        obtain ⟨hplan, hphase, hterms⟩ := tracker.publishCheckpointProgress_frame update
        exact ⟨_, rfl, hplan, hphase, congrArg UInt64.toNat hterms⟩
      have hkeeps : Meets (CheckpointFrontierWriter.Holds condition)
          (CheckpointFrontierWriter.commitFrontier nodes treeLevels)
          (fun _ => CheckpointFrontierWriter.Holds condition)
          (fun _ => CheckpointFrontierWriter.Holds condition) :=
        CheckpointFrontierWriter.commitFrontier_keeps (fun _ _ _ h => h)
          (fun found writer _ update h _ => hpublish found writer update h) fun _ _ _ _ _ h => h
      have hcommit := hkeeps calculation.session h.tracker
      have hcoordinator : (checkpointCoordinator (τ := τ) true).commitFrontier nodes treeLevels =
          Calculation.onSession (CheckpointFrontierWriter.commitFrontier nodes treeLevels) := rfl
      rw [hcoordinator, Calculation.onSession]
      cases hrun : CheckpointFrontierWriter.commitFrontier nodes treeLevels calculation.session with
      | ok u session =>
          rw [hrun] at hcommit
          exact ⟨hcommit, h.accepted, h.reported, h.merging⟩
      | error e session =>
          rw [hrun] at hcommit
          exact ⟨hcommit, h.accepted, h.reported, h.merging⟩

end IsAt

/-! ## The split -/

/-- The tasks in `done` have reported their blocks. -/
def HasReported (workPlan : ProgressWorkPlan) (restored : ℕ) (blocks : List (UInt64 × UInt64))
    (done : Finset ℕ) : Calculation τ → Prop :=
  IsAt workPlan .splitting (restored + ∑ i ∈ done, blocks[i]?.elim 0 rangeTerms)
    (∑ i ∈ done, blocks[i]?.elim 0 rangeTerms) false

/-- All terms are counted, and the phase is that of the merge levels if there was one. -/
def IsSplit (workPlan : ProgressWorkPlan) (restored : ℕ) (calculation : Calculation τ) : Prop :=
  ∃ reported merging, restored + reported = workPlan.totalTerms.toNat ∧
    IsAt workPlan (if merging then .merging else .splitting) workPlan.totalTerms.toNat reported
      merging calculation

variable {workPlan : ProgressWorkPlan} {restored : ℕ}

/-- A merge level enters its phase when it is the first one. -/
theorem IsSplit.mergeLevelStarted {calculation : Calculation τ}
    (h : IsSplit workPlan restored calculation) (mergeLevel : UInt32) :
    IsSplit workPlan restored (trackerSplitObserver.mergeLevelStarted mergeLevel calculation) := by
  obtain ⟨reported, merging, hsum, hat⟩ := h
  obtain ⟨tracker, htracker, -⟩ := hat.tracker
  cases merging with
  | true =>
      have hsame : trackerSplitObserver.mergeLevelStarted mergeLevel calculation = calculation :=
        if_pos (.inr hat.merging)
      rw [hsame]
      exact ⟨reported, true, hsum, hat⟩
  | false =>
      have hvalid : isValidTransition (if false then .merging else .splitting) .merging = true := rfl
      obtain ⟨hdone, hnext⟩ := hat.transitionTo hvalid
      have hnot : ¬ (calculation.tracker.isNone ∨ calculation.merging = true) := by
        simp [htracker, hat.merging]
      have hstarted : trackerSplitObserver.mergeLevelStarted mergeLevel calculation =
          { (calculation.call (.transitionTo .merging)).2 with merging := true } := by
        rw [← hdone]
        exact if_neg hnot
      rw [hstarted]
      exact ⟨reported, true, hsum, hnext.tracker, hnext.accepted, hnext.reported, rfl⟩

theorem sum_range_blocks (blocks : List (UInt64 × UInt64)) :
    ∑ i ∈ Finset.range blocks.length, blocks[i]?.elim 0 rangeTerms =
      (blocks.map rangeTerms).sum := by
  induction blocks with
  | nil => rfl
  | cons block rest ih =>
      rw [List.length_cons, Finset.sum_range_succ', List.map_cons, List.sum_cons, ← ih]
      exact Nat.add_comm _ _

/-- A block that has not been reported is, and the report is accepted. -/
theorem HasReported.termsCompleted {blocks : List (UInt64 × UInt64)} {done : Finset ℕ} {i : ℕ}
    {block : UInt64 × UInt64} {calculation : Calculation τ}
    (h : HasReported workPlan restored blocks done calculation) (hget : blocks[i]? = some block)
    (hnew : i ∉ done) (hlt : block.1 < block.2)
    (hsum : restored + (blocks.map rangeTerms).sum = workPlan.totalTerms.toNat) :
    HasReported workPlan restored blocks (insert i done)
      (trackerSplitObserver.termsCompleted (block.2 - block.1) calculation) := by
  have hcount : (block.2 - block.1).toNat = rangeTerms block :=
    UInt64.toNat_sub_of_le _ _ hlt.le
  have hinsert : ∑ j ∈ insert i done, blocks[j]?.elim 0 rangeTerms =
      ∑ j ∈ done, blocks[j]?.elim 0 rangeTerms + (block.2 - block.1).toNat := by
    rw [Finset.sum_insert hnew, hget, hcount, Nat.add_comm]
    rfl
  have hle : ∑ j ∈ insert i done, blocks[j]?.elim 0 rangeTerms ≤ (blocks.map rangeTerms).sum := by
    rw [← sum_range_blocks]
    apply Finset.sum_le_sum_of_ne_zero
    intro j _ hne
    rw [Finset.mem_range]
    by_contra hout
    rw [List.getElem?_eq_none (not_lt.mp hout)] at hne
    exact hne rfl
  rw [HasReported, hinsert, ← Nat.add_assoc]
  refine IsAt.termsCompleted h rfl ?_
  rw [Nat.add_assoc, ← hinsert]
  omega

/-- An action that the progress does not see. -/
def IsUnseen {α : Type} (action : Action (Calculation τ) α) : Prop :=
  ∀ workPlan phase terms reported merging,
    Meets (IsAt workPlan phase terms reported merging) action
      (fun _ => IsAt workPlan phase terms reported merging)
      (fun _ => IsAt workPlan phase terms reported merging)

theorem IsUnseen.isSplit {α : Type} {action : Action (Calculation τ) α} (h : IsUnseen action) :
    Meets (IsSplit workPlan restored) action (fun _ => IsSplit workPlan restored)
      (fun _ => IsSplit workPlan restored) := by
  rintro calculation ⟨reported, merging, hsum, hat⟩
  have hresult := h _ _ _ _ _ calculation hat
  cases hrun : action calculation with
  | ok a after =>
      rw [hrun] at hresult
      exact ⟨reported, merging, hsum, hresult⟩
  | error e after =>
      rw [hrun] at hresult
      exact ⟨reported, merging, hsum, hresult⟩

theorem isUnseen_onStorage {α : Type} (action : Action τ α) :
    IsUnseen (Calculation.onStorage action) :=
  fun _ _ _ _ _ => IsAt.onStorage_meets action

theorem isUnseen_commitFrontier (checkpointEnabled : Bool) (nodes : List BinaryNode)
    (treeLevels : List UInt32) :
    IsUnseen ((checkpointCoordinator (τ := τ) checkpointEnabled).commitFrontier nodes
      treeLevels) :=
  fun _ _ _ _ _ => IsAt.commitFrontier_meets checkpointEnabled nodes treeLevels

/-- A split counts the terms of every block, and refuses nothing. -/
theorem splitParallel_isSplit (executor : Executor) (options : ParallelSplitOptions)
    (mergeCoordinator : BinaryMergeCoordinator τ) {frontier : List BinaryFrontierNode}
    (checkpointEnabled : Bool)
    (hrestored : restored = (frontier.map fun seed => rangeTerms seed.node.range).sum) :
    Meets (IsAt workPlan .splitting restored 0 false)
      (splitParallel executor trackerSplitObserver (storageCoordinator mergeCoordinator)
        (checkpointCoordinator checkpointEnabled) 0 workPlan.totalTerms options frontier)
      (fun _ => IsSplit workPlan restored)
      (fun _ calculation => AreAccepted calculation.calls) := by
  obtain ⟨blocks, hblocks⟩ : ∃ blocks, blocks =
      computedBlocks executor 0 workPlan.totalTerms options frontier := ⟨_, rfl⟩
  have hsum (h : IsSplittable 0 workPlan.totalTerms options frontier) :
      restored + (blocks.map rangeTerms).sum = workPlan.totalTerms.toNat := by
    have hall := Progress.sum_computedBlocks (h.tiles executor)
    rwa [UInt64.toNat_zero, Nat.zero_add, ← hblocks, ← hrestored] at hall
  have hsplit (h : IsSplittable 0 workPlan.totalTerms options frontier) (s : Calculation τ)
      (hs : HasReported workPlan restored blocks (Finset.range blocks.length) s) :
      IsSplit workPlan restored s := by
    rw [HasReported, sum_range_blocks, hsum h] at hs
    exact ⟨_, false, hsum h, hs⟩
  have haccepted (e : Error) (s : Calculation τ) (hs : IsSplit workPlan restored s) :
      AreAccepted s.calls := by
    obtain ⟨_, _, -, hat⟩ := hs
    exact hat.accepted
  have hkeep : Keep trackerSplitObserver (storageCoordinator mergeCoordinator)
      (checkpointCoordinator checkpointEnabled) (IsSplit (τ := τ) workPlan restored) :=
    { level := fun mergeLevel _ hs => hs.mergeLevelStarted mergeLevel
      observe := fun _ _ => (isUnseen_onStorage _).isSplit
      prepare := fun _ _ => (isUnseen_onStorage _).isSplit
      spill := fun _ _ => (isUnseen_onStorage _).isSplit
      commit := fun _ _ => (isUnseen_commitFrontier _ _ _).isSplit }
  have hstart : IsAt (τ := τ) workPlan .splitting restored 0 false =
      HasReported workPlan restored blocks ∅ := by
    rw [HasReported, Finset.sum_empty, Nat.add_zero]
  rw [hstart]
  apply splitParallel_phases
  · exact fun _ _ hs => hs.accepted
  · intro h i block hget done hnew s hs
    rw [← hblocks] at hget
    have hmem := List.mem_of_getElem? hget
    rw [hblocks] at hmem
    exact hs.termsCompleted hget hnew (Binary.computedBlocks_lt (h.tiles executor) hmem) (hsum h)
  · intro nodes
    exact (isUnseen_onStorage _ _ _ _ _ _).consequence (fun _ => id) (fun _ _ => id)
      fun _ _ hs => hs.accepted
  · intro h _
    rw [← hblocks]
    exact (isUnseen_commitFrontier _ _ _).isSplit.consequence (hsplit h) (fun _ _ => id) haccepted
  · intro h hnone s hs
    rw [← hblocks] at hnone
    apply hsplit h s
    rw [hnone] at hs ⊢
    exact hs
  · exact hkeep
  · exact haccepted

/-! ## The calculation -/

/-- A calculation that returned: no call was refused, every term was counted once, either when the
plan was restored or by one report, and the phase is the last one. -/
structure IsFinished (precision : PrecisionPlan) (restored : ℕ) (phase : ProgressPhase)
    (calculation : Calculation τ) : Prop where
  accepted : AreAccepted calculation.calls
  counted : restored + reportedTerms calculation.calls = precision.termCount.toNat
  tracker : ∃ tracker, calculation.tracker = some tracker ∧
    tracker.completedTerms = precision.termCount ∧ tracker.phase = phase

/-- A calculation that failed in its split, or in its result when every term was counted; no call
was refused. -/
structure IsFailed (precision : PrecisionPlan) (restored : ℕ) (splits : Error → Prop)
    (error : Error) (calculation : Calculation τ) : Prop where
  accepted : AreAccepted calculation.calls
  cause : splits error ∨ (∃ node, makeResult precision node = .error error) ∧
    restored + reportedTerms calculation.calls = precision.termCount.toNat

theorem IsAt.isFinished {precision : PrecisionPlan} {phase : ProgressPhase} {reported : ℕ}
    {merging : Bool} {calculation : Calculation τ}
    (h : IsAt workPlan phase workPlan.totalTerms.toNat reported merging calculation)
    (hsum : restored + reported = workPlan.totalTerms.toNat)
    (hterms : workPlan.totalTerms = precision.termCount) :
    IsFinished precision restored phase calculation := by
  obtain ⟨tracker, htracker, -, hphase, hcompleted⟩ := h.tracker
  rw [hterms] at hsum hcompleted
  refine ⟨h.accepted, h.reported ▸ hsum, tracker, htracker, UInt64.toNat_inj.mp hcompleted, hphase⟩

/-- The split of a calculation throws, when its tracker has entered the phase of the splitting. -/
def SplitFails (executor : Executor) (options : ParallelSplitOptions)
    (mergeCoordinator : BinaryMergeCoordinator τ) (frontier : List BinaryFrontierNode)
    (checkpointEnabled : Bool) (tracker : ProgressTracker) (error : Error) : Prop :=
  ∃ before after : Calculation τ,
    IsAt tracker.plan .splitting tracker.completedTerms.toNat 0 false before ∧
      splitParallel executor trackerSplitObserver (storageCoordinator mergeCoordinator)
        (checkpointCoordinator checkpointEnabled) 0 tracker.plan.totalTerms options frontier
          before = .error error after

/-- The result enters the last phases, none of which is refused. -/
theorem finishResult_meets {precision : PrecisionPlan} {splits : Error → Prop} (node : BinaryNode)
    (deferProgressCompletion : Bool) (hterms : workPlan.totalTerms = precision.termCount)
    {phase : ProgressPhase} {reported : ℕ} {merging : Bool}
    (hphase : isValidTransition phase .finalizing = true)
    (hsum : restored + reported = workPlan.totalTerms.toNat) :
    Meets (IsAt (τ := τ) workPlan phase workPlan.totalTerms.toNat reported merging)
      (finishResult precision node deferProgressCompletion)
      (fun _ => IsFinished precision restored
        (if deferProgressCompletion then .finalizing else .completed))
      (IsFailed precision restored splits) := by
  rw [finishResult]
  refine Meets.bind (IsAt.require_meets hphase) fun _ => ?_
  cases hresult : makeResult precision node with
  | error error =>
      intro calculation h
      refine ⟨h.accepted, .inr ⟨⟨node, hresult⟩, ?_⟩⟩
      rw [h.reported, hsum, hterms]
  | ok result =>
      simp only [Action.liftM_eq, Action.ofExcept_ok, pure_bind]
      cases deferProgressCompletion with
      | true => exact Meets.pure fun _ h => h.isFinished hsum hterms
      | false =>
          refine Meets.bind (IsAt.require_meets rfl) fun _ => ?_
          refine Meets.bind (IsAt.require_meets rfl) fun _ => ?_
          exact Meets.pure fun _ h => h.isFinished hsum hterms

/-- A tracker that follows the calculation lets it begin. -/
theorem beginProgress_meets {precision : PrecisionPlan} {tracker : ProgressTracker}
    {fail : Error → Calculation τ → Prop}
    (hdigits : tracker.plan.targetDigits = precision.requestedDigits)
    (hterms : tracker.plan.totalTerms = precision.termCount)
    (hphase : tracker.phase = .initializing ∨ tracker.phase = .validatingCheckpoints) :
    Meets (fun calculation : Calculation τ =>
        calculation.tracker = some tracker ∧ calculation.calls = [])
      (beginProgress precision)
      (fun _ calculation => IsAt tracker.plan .splitting tracker.completedTerms.toNat 0
        calculation.merging calculation) fail := by
  rintro calculation ⟨htracker, hcalls⟩
  have hat : IsAt tracker.plan tracker.phase tracker.completedTerms.toNat 0 calculation.merging
      calculation := by
    refine ⟨⟨tracker, htracker, rfl, rfl, rfl⟩, ?_, ?_, rfl⟩
    · rw [hcalls]
      exact fun _ h => absurd h List.not_mem_nil
    · rw [hcalls]
      rfl
  have hvalid : isValidTransition tracker.phase .splitting = true := by
    rcases hphase with hphase | hphase
    · rw [hphase]
      rfl
    · rw [hphase]
      rfl
  have hnot : ¬ (tracker.plan.targetDigits ≠ precision.requestedDigits ∨
      tracker.plan.totalTerms ≠ precision.termCount) := by
    simp [hdigits, hterms]
  have hrun : beginProgress precision calculation =
      Calculation.require (.transitionTo .splitting) "Cannot enter progress splitting phase"
        calculation := by
    simp only [beginProgress, Library.Program.get_bind, htracker]
    rw [throwIf_neg hnot]
    rfl
  obtain ⟨hdone, hnext⟩ := hat.transitionTo hvalid
  rw [hrun, require_eq hdone]
  exact { hnext with merging := rfl }

/-- A calculation with a restored tracker counts every term once, and no call on the tracker is
refused, however the tasks run and whatever storage and checkpoints do. -/
theorem calculateParallel_lifecycle (request : PiCalculationRequest)
    (deferProgressCompletion : Bool) (executor : Executor) (options : ParallelSplitOptions)
    (mergeCoordinator : BinaryMergeCoordinator τ) (plan : CheckpointResumePlan)
    (checkpointEnabled : Bool) {precision : PrecisionPlan} {fresh tracker : ProgressTracker}
    (hprecision : PrecisionPolicy.create request.digits request.guardDigits = .ok precision)
    (hrestore : Progress.ResumeProgressRestorer.restore plan fresh = (true, tracker))
    (hdigits : fresh.plan.targetDigits = precision.requestedDigits)
    (hterms : fresh.plan.totalTerms = precision.termCount)
    (hphase : fresh.phase = .initializing ∨ fresh.phase = .validatingCheckpoints) :
    Meets (fun calculation : Calculation τ =>
        calculation.tracker = some tracker ∧ calculation.calls = [])
      (calculateParallel request deferProgressCompletion executor options mergeCoordinator
        (frontierOf plan.acceptedBlocks) checkpointEnabled)
      (fun _ => IsFinished precision tracker.completedTerms.toNat
        (if deferProgressCompletion then .finalizing else .completed))
      (IsFailed precision tracker.completedTerms.toNat
        (SplitFails executor options mergeCoordinator (frontierOf plan.acceptedBlocks)
          checkpointEnabled tracker)) := by
  have hrestored := Progress.ResumeProgressRestorer.isRestored_of_restore hrestore
  rw [← hrestored.workPlan] at hdigits hterms
  rw [← hrestored.phase] at hphase
  have hsum : tracker.completedTerms.toNat =
      ((frontierOf plan.acceptedBlocks).map fun seed => rangeTerms seed.node.range).sum := by
    rw [hrestored.terms, Progress.ResumeProgressRestorer.acceptedTerms, frontierOf, List.map_map]
    rfl
  apply Action.attempt_meets (IsFailed precision tracker.completedTerms.toNat
    (SplitFails executor options mergeCoordinator (frontierOf plan.acceptedBlocks)
      checkpointEnabled tracker))
  · rw [calculateSteps]
    simp only [hprecision, Action.liftM_eq, Action.ofExcept_ok, pure_bind]
    refine Meets.bind (beginProgress_meets hdigits hterms hphase) fun _ => ?_
    refine Meets.bind_of
      (fun _ => IsAt tracker.plan .splitting tracker.completedTerms.toNat 0 false)
      (fun calculation h => ⟨h.tracker, h.accepted, h.reported, rfl⟩) fun _ => ?_
    rw [← hterms]
    refine Meets.bind_of (fun _ => IsSplit tracker.plan tracker.completedTerms.toNat) ?_
      fun node => ?_
    · intro before hbefore
      have hresult := splitParallel_isSplit executor options mergeCoordinator
        checkpointEnabled hsum before hbefore
      cases hrun : splitParallel executor trackerSplitObserver (storageCoordinator mergeCoordinator)
          (checkpointCoordinator checkpointEnabled) 0 tracker.plan.totalTerms options
          (frontierOf plan.acceptedBlocks) before with
      | ok node after =>
          rw [hrun] at hresult
          exact hresult
      | error error after =>
          rw [hrun] at hresult
          exact ⟨hresult, .inl ⟨before, after, hbefore, hrun⟩⟩
    · refine Meets.exists_pre fun reported => Meets.exists_pre fun merging =>
        Meets.of_pre fun hall => ?_
      refine Meets.bind (IsAt.completeTerms_meets ?_) fun _ => ?_
      · cases merging <;> rfl
      · refine finishResult_meets node deferProgressCompletion hterms ?_ hall
        cases merging <;> rfl
  · intro error calculation h
    have hcalls : (failProgress calculation).calls = calculation.calls := by
      rw [failProgress]
      cases calculation.tracker with
      | none => rfl
      | some tracker => rfl
    refine ⟨?_, ?_⟩
    · rw [hcalls]
      exact h.accepted
    · rw [hcalls]
      exact h.cause

open Checkpoint (AcceptedCheckpoint CheckpointBlock ComputationIdentity ManifestEntry)

/-- The first term of ten digits. -/
def firstBlock : AcceptedCheckpoint where
  path := ⟨ascii "checkpoints", ascii "first.checkpoint"⟩
  fileSize := 200
  block :=
    ⟨⟨⟨1⟩, 1, 1, 10, 16, 26, 3⟩, ⟨0, 1, 0⟩, 1, 1, 13591409⟩
  manifestEntry := ⟨⟨0, 1, 0⟩, ascii "first.checkpoint", 96, ⟨1⟩, 0, ⟨1⟩⟩

/-- A plan that takes the first term over. -/
def resumedPlan : CheckpointResumePlan where
  acceptedBlocks := [firstBlock]
  rangesToRecalculate := [⟨1, 3⟩]
  rejectedBlocks := []
  ignoredTemporaryFiles := []
  diagnostics := []

/-- The tracker of ten digits while the checkpoints are checked. -/
def validatingTracker : ProgressTracker :=
  { ProgressTracker.ofPlan ⟨10, 3, 3⟩ with phase := .validatingCheckpoints }

theorem calculateParallel_lifecycle_ten :
    Meets (fun calculation : Calculation Unit =>
        calculation.tracker =
            some (Progress.ResumeProgressRestorer.restore resumedPlan validatingTracker).2 ∧
          calculation.calls = [])
      (calculateParallel ⟨10, 16⟩ false ⟨true, 2, false, fun _ jobs => Library.Schedule.caller jobs⟩
        ⟨1, 4⟩ BinaryMergeCoordinator.absent (frontierOf resumedPlan.acceptedBlocks) true)
      (fun _ => IsFinished ⟨10, 16, 26, 3, 158⟩ 1 .completed)
      (IsFailed ⟨10, 16, 26, 3, 158⟩ 1
        (SplitFails ⟨true, 2, false, fun _ jobs => Library.Schedule.caller jobs⟩ ⟨1, 4⟩
          (BinaryMergeCoordinator.absent : BinaryMergeCoordinator Unit)
          (frontierOf resumedPlan.acceptedBlocks) true
          (Progress.ResumeProgressRestorer.restore resumedPlan validatingTracker).2)) := by
  have hrestore : Progress.ResumeProgressRestorer.restore resumedPlan validatingTracker =
      (true, (Progress.ResumeProgressRestorer.restore resumedPlan validatingTracker).2) := by
    decide +kernel
  have hprecision : PrecisionPolicy.create 10 16 = .ok ⟨10, 16, 26, 3, 158⟩ := by decide
  have hone : (Progress.ResumeProgressRestorer.restore resumedPlan
      validatingTracker).2.completedTerms.toNat = 1 := by
    decide +kernel
  have hmeets := calculateParallel_lifecycle ⟨10, 16⟩ false
    ⟨true, 2, false, fun _ jobs => Library.Schedule.caller jobs⟩ ⟨1, 4⟩
    (BinaryMergeCoordinator.absent : BinaryMergeCoordinator Unit) resumedPlan true hprecision
    hrestore rfl rfl (.inr rfl)
  rw [hone] at hmeets
  exact hmeets

end GiveMePi.Chudnovsky
