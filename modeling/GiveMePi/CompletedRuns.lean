import GiveMePi.Checkpoint.ReturningCommits
import GiveMePi.Chudnovsky.ReturningCalculations
import GiveMePi.InterruptedRuns
import GiveMePi.ResumablePlans

/-! # Runs that complete

However often a computation was interrupted, a run in which no change of a file fails returns the
result of the sequential calculation. Nothing that the runs before left stands in its way. -/

namespace GiveMePi.Main

open Binary (BinaryMergeCoordinator BinaryNode IsInitialFrontier splitSequential_eq)
open Checkpoint
open Checkpoint.AtomicFileCommit (LacksTemps)
open Checkpoint.CheckpointBlockCodec (blockBytes)
open Checkpoint.CheckpointResumePlanner (AreTaken FitsNames LacksManifest acceptedOf create_keeps)
open Chudnovsky (Calculation MayCommit PiCalculationResult PrecisionPlan calculateParallel_returns
  calculateSequential frontierOf isUntracked_mayCommit splitParallel_commits)
open Chudnovsky.PrecisionPolicy (defaultGuardDigits)
open Library (Meets Schedule)
open Progress (ProgressTracker ResumeProgressRestorer.isRestored_of_restore
  ResumeProgressRestorer.totalBytes rangeTerms)

/-! ## What a plan gives the later stages -/

/-- What the calculation needs of a plan to return. -/
structure IsRunnable (config : Config) (identity : ComputationIdentity)
    (plan : CheckpointResumePlan) : Prop where
  tiled : IsTiled identity plan
  isTrue : HasTrueBlocks plan
  bytes : ResumeProgressRestorer.totalBytes plan.acceptedBlocks < 2 ^ 64
  anew : config.resumeEnabled = false → plan.acceptedBlocks = []

section

variable {config : Config} {identity : ComputationIdentity} {plan : CheckpointResumePlan}

/-- The splitter takes the true blocks of a plan. -/
theorem isInitialFrontier_frontierOf (htiled : IsTiled identity plan) (htrue : HasTrueBlocks plan) :
    IsInitialFrontier 0 identity.termCount (frontierOf plan.acceptedBlocks) where
  bounds seed hmem := by
    obtain ⟨checkpoint, hcheckpoint, rfl⟩ := List.mem_map.mp hmem
    exact ⟨UInt64.zero_le, htiled.admissible.bounds hcheckpoint⟩
  disjoint := (List.pairwise_map.mpr htiled.admissible.pairwise).imp Or.inl
  eq_splitSequential seed hmem := by
    have hnode := htrue seed hmem
    obtain ⟨checkpoint, hcheckpoint, rfl⟩ := List.mem_map.mp hmem
    rw [splitSequential_eq (htiled.admissible.bounds hcheckpoint).1, Except.ok.injEq]
    exact hnode.symm

theorem treeLevel_le_of_isTiled (htiled : IsTiled identity plan) :
    ∀ seed ∈ frontierOf plan.acceptedBlocks,
      seed.treeLevel ≤ Binary.maximumTreeLevel identity.termCount := by
  intro seed hmem
  obtain ⟨checkpoint, hcheckpoint, rfl⟩ := List.mem_map.mp hmem
  exact (htiled.admissible.resumable checkpoint hcheckpoint).level_le

/-- A true block that was taken over is the block of its range. -/
theorem block_eq_of_isTrue (htiled : IsTiled identity plan) (htrue : HasTrueBlocks plan)
    {checkpoint : AcceptedCheckpoint} (hmem : checkpoint ∈ plan.acceptedBlocks) :
    checkpoint.block = blockOf identity BinaryNode.ofRange checkpoint.block.location := by
  have hidentity := (htiled.admissible.resumable checkpoint hmem).identity_eq
  have hnode := htrue _ (List.mem_map_of_mem hmem)
  obtain ⟨path, fileSize, ⟨blockIdentity, location, p, q, t⟩, entry⟩ := checkpoint
  obtain rfl : blockIdentity = identity := hidentity
  rw [BinaryNode.IsTrue, BinaryNode.mk.injEq] at hnode
  obtain ⟨-, -, hp, hq, ht⟩ := hnode
  simp only [blockOf, CheckpointBlock.mk.injEq, true_and]
  exact ⟨hp, hq, ht⟩

/-- The bytes of true blocks can be counted. -/
theorem totalBytes_lt {directory : Bytes} {initial : FileSystem}
    (hfits : FitsFiles identity BinaryNode.ofRange) (htiled : IsTiled identity plan)
    (htrue : HasTrueBlocks plan) (htaken : AreTaken initial directory identity plan.acceptedBlocks) :
    ResumeProgressRestorer.totalBytes plan.acceptedBlocks < 2 ^ 64 := by
  have htotal := hfits.total (plan.acceptedBlocks.map fun checkpoint => checkpoint.block.location)
    (by rw [List.map_map]; exact htiled.admissible.apart)
  refine lt_of_le_of_lt ?_ htotal
  rw [ResumeProgressRestorer.totalBytes, List.map_map]
  refine List.sum_le_sum fun checkpoint hmem => ?_
  obtain ⟨block, -, -, htake⟩ := htaken checkpoint hmem
  have hsize : checkpoint.fileSize = UInt64.ofNat (blockBytes checkpoint.block).length := by
    rw [htake]
    rfl
  rw [hsize, UInt64.toNat_ofNat', Function.comp_apply, ← block_eq_of_isTrue htiled htrue hmem]
  exact Nat.mod_le _ _

/-- The plan that calculates everything. -/
theorem isTiled_of_nothing (hidentity : identity.IsValid) :
    IsTiled identity ⟨[], [⟨0, identity.termCount⟩], [], [], []⟩ where
  admissible := ⟨List.Pairwise.nil, by simp, by simp⟩
  ranges := by
    rw [List.map_nil, CheckpointResumePlanner.complementFrom, if_pos hidentity.termCount_pos]

end

/-! ## The stages -/

section

variable {config : Config} {identity : ComputationIdentity} {environment : Environment}
  {initial : FileSystem}

/-- What a checked configuration says of its directories. -/
theorem directories_of_isAccepted (h : config.IsAccepted)
    (henabled : config.checkpointEnabled = true ∨ config.resumeEnabled = true) :
    config.checkpointDirectory ≠ [] ∧ config.checkpointQuarantineDirectory ≠ [] := by
  have hrun := h.run
  simp only [Config.checkRun, bind_eq_ok, throwIf_eq_ok] at hrun
  obtain ⟨-, -, -, -, -, -, -, hdirectories, -⟩ := hrun
  exact not_or.mp fun hempty => hdirectories ⟨henabled, hempty⟩

/-- What a run needs of the files that it finds. -/
structure IsResumableIn (environment : Environment) (config : Config)
    (identity : ComputationIdentity) (initial : FileSystem) (world : World) : Prop where
  promise : KeepsPromise config.checkpointDirectory identity environment
    (fun files => files = initial) world
  calm : IsCalm environment world

theorem resumePlan_returns (hreliable : environment.IsReliable) (haccepted : config.IsAccepted)
    (hidentity : identity.IsValid) (hfits : FitsFiles identity BinaryNode.ofRange)
    (hnames : FitsNames environment initial)
    (h : IsResumed config.checkpointDirectory identity initial) :
    Meets (IsResumableIn environment config identity initial) (resumePlan config identity)
      (fun plan world => IsRunnable config identity plan ∧
        KeepsPlan config.checkpointDirectory identity environment plan world ∧
          IsCalm environment world)
      (fun _ _ => False) := by
  rw [resumePlan]
  refine Meets.ite (fun henabled => ?_) fun hdisabled => ?_
  · obtain ⟨hdirectory, hquarantine⟩ := directories_of_isAccepted haccepted (Or.inr henabled)
    have hplan := create_returns hdirectory hquarantine hidentity hnames h
    have htiled := CheckpointResumePlanner.create_isTiled identity hdirectory hquarantine hnames
    have hquarantined (path : Path) (validation : ValidationResult) :
        Meets (IsCalm environment) (CheckpointQuarantine.quarantine
          config.checkpointQuarantineDirectory path validation) (fun _ => IsCalm environment)
          (fun _ => IsCalm environment) :=
      (CheckpointQuarantine.quarantine_isCalm hreliable _ path validation).consequence
        (fun _ => id) (fun _ _ => id) fun _ _ hno => hno.elim
    have hcalm := create_keeps hquarantined config.checkpointDirectory identity
    refine ((hplan.and htiled).and hcalm).consequence ?_ ?_ fun _ _ hfail => hfail.1.1
    · exact fun world hworld => ⟨⟨hworld.promise, CheckpointResumePlanner.keeps_noGuarantee hworld.promise.environment
        hworld.promise.condition⟩, hworld.calm⟩
    · intro plan world hworld
      obtain ⟨⟨hkeeps, ⟨htiled, htaken, -⟩, -⟩, hcalm⟩ := hworld
      exact ⟨⟨htiled, hkeeps.1, totalBytes_lt hfits htiled hkeeps.1 htaken,
        fun hdisabled => absurd henabled (by simp [hdisabled])⟩, hkeeps, hcalm⟩
  · refine Meets.pure fun world hworld => ⟨⟨isTiled_of_nothing hidentity, ?_, ?_, fun _ => rfl⟩,
      keepsPlan_of_none rfl hworld.promise, hworld.calm⟩
    · simp [HasTrueBlocks, frontierOf]
    · simp [ResumeProgressRestorer.totalBytes]

/-- The tracker follows the calculation, and has the terms of the accepted blocks. -/
theorem makeTracker_follows {plan : CheckpointResumePlan} {precision : PrecisionPlan}
    {workers : UInt64} {tracker : ProgressTracker}
    (hanew : config.resumeEnabled = false → plan.acceptedBlocks = [])
    (h : makeTracker config precision plan workers = .ok tracker) :
    tracker.plan.targetDigits = precision.requestedDigits ∧
      tracker.plan.totalTerms = precision.termCount ∧
      (tracker.phase = .initializing ∨ tracker.phase = .validatingCheckpoints) ∧
      tracker.completedTerms.toNat =
        ((frontierOf plan.acceptedBlocks).map fun seed => rangeTerms seed.node.range).sum := by
  simp only [makeTracker, ProgressTracker.create, bind_eq_ok, throwIf_eq_ok, pure_eq_ok,
    Except.ok.injEq] at h
  obtain ⟨total, -, fresh, ⟨_, -, _, -, rfl⟩, h⟩ := h
  cases henabled : config.resumeEnabled with
  | false =>
      rw [henabled, if_neg Bool.false_ne_true, Except.ok.injEq] at h
      rw [← h, hanew henabled]
      exact ⟨rfl, rfl, Or.inl rfl, rfl⟩
  | true =>
      rw [henabled, if_pos rfl] at h
      obtain ⟨entered, hentered⟩ : ∃ entered : ProgressTracker, entered =
          { ProgressTracker.ofPlan ⟨precision.requestedDigits, precision.termCount, total⟩ with
            phase := .validatingCheckpoints } := ⟨_, rfl⟩
      have htransition : (ProgressTracker.ofPlan ⟨precision.requestedDigits, precision.termCount,
          total⟩).transitionTo .validatingCheckpoints = (true, entered) := by
        rw [hentered]
        rfl
      rw [htransition] at h
      obtain ⟨restored, last, hrestore⟩ : ∃ restored last,
          Progress.ResumeProgressRestorer.restore plan entered = (restored, last) := ⟨_, _, rfl⟩
      simp only [hrestore, bind_eq_ok, throwIf_eq_ok, Except.ok.injEq, not_or,
        Bool.not_eq_false] at h
      obtain ⟨_, ⟨-, rfl⟩, rfl⟩ := h
      have hrestored := ResumeProgressRestorer.isRestored_of_restore hrestore
      refine ⟨?_, ?_, Or.inr ?_, ?_⟩
      · rw [hrestored.workPlan, hentered]
        rfl
      · rw [hrestored.workPlan, hentered]
        rfl
      · rw [hrestored.phase, hentered]
      · rw [hrestored.terms, Progress.ResumeProgressRestorer.acceptedTerms, frontierOf,
          List.map_map]
        rfl

/-- A calculation is done, and the output may be written. -/
structure IsCalculated (environment : Environment) (world : World) : Prop where
  calm : IsCalm environment world
  tracker : ∃ tracker, world.tracker = some tracker ∧ tracker.phase = .finalizing

/-- A run over files that can be resumed, without storage, where no change of a file fails. -/
theorem calculate_returns {τ : Type} (mergeCoordinator : BinaryMergeCoordinator τ) (storage : τ)
    (hardwareConcurrency : UInt64) (schedule : ℕ → (jobs : ℕ) → Schedule jobs)
    (hreliable : environment.IsReliable) (haccepted : config.IsAccepted)
    (hstorage : config.outOfCoreEnabled = false) (hidentity : identityOf config.digits = .ok identity)
    (hfits : FitsFiles identity BinaryNode.ofRange) (hnames : FitsNames environment initial)
    (h : IsResumed config.checkpointDirectory identity initial) {result : PiCalculationResult}
    (hresult : calculateSequential ⟨config.digits, defaultGuardDigits⟩ = .ok result) :
    Meets (IsResumableIn environment config identity initial)
      (calculate config hardwareConcurrency schedule mergeCoordinator storage)
      (fun returned world => returned = result ∧ IsCalculated environment world)
      (fun _ _ => False) := by
  simp only [identityOf, bind_eq_ok] at hidentity
  obtain ⟨precision, hprecision, hidentity⟩ := hidentity
  have hvalid := (ComputationIdentity.fromPrecisionPlan_isValid hidentity).1
  have hterms := (fromPrecisionPlan_counts hidentity).2.1
  simp only [calculate, hprecision, hidentity, Action.liftM_eq, Action.ofExcept_ok, pure_bind]
  refine Meets.bind (resumePlan_returns hreliable haccepted hvalid hfits hnames h) fun plan => ?_
  refine Meets.of_pre fun hrunnable => ?_
  obtain ⟨tracker, htracker⟩ := makeTracker_of_isTiled hrunnable.tiled hrunnable.bytes config
    (workerCount config hardwareConcurrency) hidentity
  obtain ⟨hdigits, htotal, hphase, hrestored⟩ := makeTracker_follows hrunnable.anew htracker
  obtain ⟨writer, hwriter⟩ : ∃ writer, makeWriter config identity plan = .ok writer := by
    cases henabled : config.checkpointEnabled with
    | true =>
        exact makeWriter_of_isTiled hrunnable.tiled hvalid
          (directories_of_isAccepted haccepted (Or.inl henabled)).1
    | false => exact ⟨_, by rw [makeWriter, henabled, if_neg Bool.false_ne_true]; rfl⟩
  simp only [htracker, hwriter, hstorage, Action.ofExcept_ok, pure_bind]
  refine Meets.bind_of (fun _ world => world.tracker = some tracker ∧
    KeepsPlan config.checkpointDirectory identity environment plan world ∧
      IsCalm environment world) ?_ fun _ => ?_
  · rintro world ⟨⟨htrue, hkeeps⟩, hcalm⟩
    exact ⟨rfl, ⟨htrue, hkeeps.kept, hkeeps.environment, hkeeps.condition⟩, hcalm.environment,
      hcalm.condition⟩
  have hsplit : Meets
      (MayCommit (τ := τ) (promiseOf config.checkpointDirectory identity environment)
        config.checkpointEnabled) _ _ _ :=
    splitParallel_commits promiseOf_isStable hreliable hvalid hfits rfl
      (scheduler (workerCount config hardwareConcurrency) schedule)
      (by decide : splitOptions.sequentialCutoff ≠ 0) (by decide)
      (isInitialFrontier_frontierOf hrunnable.tiled hrunnable.isTrue)
      (treeLevel_le_of_isTiled hrunnable.tiled)
  refine onCalculation_meets ?_ ((calculateParallel_returns hresult true hprecision
    isUntracked_mayCommit isUntracked_mayCommit (hterms ▸ hsplit) hdigits htotal hphase
    hrestored).weaken fun _ _ h => ⟨h.1, h.2.1.calm, h.2.2 rfl⟩)
  rintro world ⟨htracked, hkeeps, hcalm⟩
  exact ⟨⟨htracked, rfl⟩, hcalm, fun _ => ⟨makeWriter_isHeld hwriter hkeeps, hcalm⟩⟩

end

/-! ## Histories -/

/-- A run of a checked configuration without storage, in which no change of a file fails, over files
without a temporary file of its process. -/
structure Attempt.IsUndisturbed (attempt : Attempt) (files : FileSystem) : Prop where
  accepted : attempt.config.IsAccepted
  storage : attempt.config.outOfCoreEnabled = false
  reliable : attempt.environment.IsReliable
  temps : LacksTemps attempt.environment.processId files

/-- However often a computation was interrupted, by whatever: a run that nothing disturbs returns,
and it returns the result of the sequential calculation, if there is one. -/
theorem interrupted_calculate_completes {digits : UInt64} {directory : Bytes}
    {identity : ComputationIdentity} {initial files : FileSystem}
    (hidentity : identityOf digits = .ok identity) (hfits : FitsFiles identity BinaryNode.ofRange)
    (hinitial : LacksManifest directory identity initial)
    (h : Reaches digits directory initial files) {attempt : Attempt}
    (hof : attempt.IsOf digits directory files) (hundisturbed : attempt.IsUndisturbed files)
    {result : PiCalculationResult}
    (hresult : calculateSequential ⟨digits, defaultGuardDigits⟩ = .ok result) :
    ∃ world, attempt.run files = .ok result world := by
  obtain ⟨rfl, rfl, hnames⟩ := hof
  have hresumed := isResumed_of_reaches hidentity hinitial h
  have hrun := calculate_returns attempt.mergeCoordinator attempt.storage
    attempt.hardwareConcurrency attempt.schedule hundisturbed.reliable hundisturbed.accepted
    hundisturbed.storage hidentity hfits hnames hresumed hresult
    (World.start attempt.environment files none)
    ⟨⟨.nil fun _ => hresumed, rfl, rfl⟩, rfl, hundisturbed.temps⟩
  rw [Attempt.run]
  cases hcalculate : calculate attempt.config attempt.hardwareConcurrency attempt.schedule
      attempt.mergeCoordinator attempt.storage (World.start attempt.environment files none) with
  | ok returned world =>
      rw [hcalculate] at hrun
      obtain rfl : returned = result := hrun.1
      exact ⟨world, rfl⟩
  | error e world =>
      rw [hcalculate] at hrun
      exact hrun.elim

/-- The numbers of ten digits are short. -/
theorem fitsFiles_ten : FitsFiles tenDigits BinaryNode.ofRange := by
  have hshort : ∀ i j : Fin 5, i < j →
      ∀ number ∈ [(BinaryNode.ofRange (UInt64.ofNat i) (UInt64.ofNat j)).p,
        (BinaryNode.ofRange (UInt64.ofNat i) (UInt64.ofNat j)).q,
        (BinaryNode.ofRange (UInt64.ofNat i) (UInt64.ofNat j)).t],
          number.natAbs < 256 ^ 64 := by
    decide
  have hvalues (start stop : UInt64) (hlt : start < stop) (hstop : stop ≤ tenDigits.termCount) :
      ∀ number ∈ [(BinaryNode.ofRange start stop).p, (BinaryNode.ofRange start stop).q,
        (BinaryNode.ofRange start stop).t], number.natAbs < 256 ^ 64 := by
    have hltNat := UInt64.lt_iff_toNat_lt.mp hlt
    have hstopNat : stop.toNat ≤ 4 := UInt64.le_iff_toNat_le.mp hstop
    have hranges := hshort ⟨start.toNat, by omega⟩ ⟨stop.toNat, by omega⟩ hltNat
    simpa using hranges
  exact FitsFiles.of_lt_pow (by decide) hvalues (by decide)

/-- Ten digits in an empty directory. -/
def quietAttempt : Attempt where
  config := { digits := 10, outOfCoreEnabled := false }
  environment := CheckpointResumePlanner.willing
  hardwareConcurrency := 2
  schedule _ jobs := Schedule.caller jobs
  Storage := Unit
  mergeCoordinator := .absent
  contract := Binary.LeavesNodes.absent.storageContract
  storage := ()
  ready := trivial

theorem interrupted_calculate_completes_ten :
    ∃ world, quietAttempt.run ∅ = .ok ⟨⟨10, 32, 42, 4, 211⟩, "3.1415926536"⟩ world := by
  have hnone (path : Path) : (∅ : FileSystem).lookup path = none := AList.lookup_empty path
  refine interrupted_calculate_completes identityOf_ten fitsFiles_ten (hnone _) .start
    ⟨rfl, rfl, fun path _ bytes hlookup => ?_⟩
    ⟨⟨by decide, by decide, by decide⟩, rfl, fun _ => rfl, fun path _ => hnone path⟩ ?_
  · rw [hnone] at hlookup
    cases hlookup
  · decide +kernel

end GiveMePi.Main
