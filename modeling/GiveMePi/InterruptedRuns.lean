import GiveMePi.Checkpoint.PublishedPlans
import GiveMePi.Chudnovsky.HeldCalculations
import GiveMePi.Main

/-! # Interrupted runs

A calculation may be cut behind any change of a file, or fail, and be started again with other
workers, any number of times. What it leaves on disk can be resumed, and a run that returns has the
result of the sequential calculation. -/

namespace GiveMePi.Main

open Binary (BinaryFrontierNode BinaryMergeCoordinator BinaryNode StorageContract)
open Checkpoint
open Checkpoint.CheckpointFrontierWriter (IsHeld create_eq_ok_iff isSorted_of_apart)
open Checkpoint.CheckpointResumePlanner (FitsNames LacksManifest TakesOver create_startsAnew
  create_takesOver lacksManifest_isFramed)
open Chudnovsky (Calculation HoldsPromise PiCalculationResult calculateParallel_holds
  calculateSequential frontierOf)
open Chudnovsky.PrecisionPolicy (defaultGuardDigits)
open FileSystem (IsFramed)
open Library (Meets Schedule)
open World (Keeps)

/-! ## Runs -/

/-- One start of the program, with all that surrounds it: the operating system, the course of its
tasks and its storage, which gives back the nodes it is shown. -/
structure Attempt where
  config : Config
  environment : Environment
  hardwareConcurrency : UInt64
  schedule : ℕ → (jobs : ℕ) → Schedule jobs
  Storage : Type
  mergeCoordinator : BinaryMergeCoordinator Storage
  contract : StorageContract .absent mergeCoordinator .absent
  storage : Storage
  ready : contract.ready storage

namespace Attempt

/-- The run over the files it finds. -/
def run (attempt : Attempt) (files : FileSystem) :
    EStateM.Result Error World PiCalculationResult :=
  calculate attempt.config attempt.hardwareConcurrency attempt.schedule attempt.mergeCoordinator
    attempt.storage (World.start attempt.environment files none)

/-- The changes of the files in a run. -/
def trace (attempt : Attempt) (files : FileSystem) : List FileStep :=
  match attempt.run files with
  | .ok _ world => world.trace
  | .error _ world => world.trace

/-- What a run leaves that is cut, at the latest at its end. -/
def Leaves (attempt : Attempt) (files after : FileSystem) : Prop :=
  after = files ∨ ∃ step ∈ attempt.trace files, after = step.files

/-- A run of the computation of some digits over a directory. -/
structure IsOf (attempt : Attempt) (digits : UInt64) (directory : Bytes) (files : FileSystem) :
    Prop where
  digits : attempt.config.digits = digits
  directory : attempt.config.checkpointDirectory = directory
  names : FitsNames attempt.environment files

end Attempt

/-- The files that interrupted runs leave, one after the other. -/
inductive Reaches (digits : UInt64) (directory : Bytes) (initial : FileSystem) : FileSystem → Prop
  | start : Reaches digits directory initial initial
  | interrupted {files after : FileSystem} (attempt : Attempt) :
      Reaches digits directory initial files → attempt.IsOf digits directory files →
        attempt.Leaves files after → Reaches digits directory initial after

/-- The identity of the computation of some digits. -/
def identityOf (digits : UInt64) : Except Error ComputationIdentity := do
  let precision ← Chudnovsky.PrecisionPolicy.create digits defaultGuardDigits
  ComputationIdentity.fromPrecisionPlan precision

/-! ## What is promised of the directory -/

/-- No manifest, or a frontier of true nodes. -/
def IsResumed (directory : Bytes) (identity : ComputationIdentity) (files : FileSystem) : Prop :=
  LacksManifest directory identity files ∨ HoldsFrontier directory identity BinaryNode.ofRange files

def promiseOf (directory : Bytes) (identity : ComputationIdentity) (environment : Environment) :
    FrontierPromise where
  directory := directory
  identity := identity
  values := BinaryNode.ofRange
  standby := LacksManifest directory identity
  initially := True
  environment := environment

section

variable {directory : Bytes} {identity : ComputationIdentity} {environment : Environment}

theorem promiseOf_isStable : (promiseOf directory identity environment).IsStable where
  framed := lacksManifest_isFramed
  insert_block _ location h :=
    (AList.lookup_insert_ne (path_ne_manifestPathOf location).symm).trans h

/-- A writer of backed entries is held. -/
theorem isHeld_of_keeps {interval : ℤ} {accepted : List ManifestEntry}
    {writer : CheckpointFrontierWriter} {world : World}
    (hcreate : CheckpointFrontierWriter.create directory identity interval accepted = .ok writer)
    (h : (promiseOf directory identity environment).Keeps accepted world) :
    IsHeld (promiseOf directory identity environment) ⟨world, writer⟩ := by
  obtain ⟨-, -, -, ⟨hapart, -⟩, rfl⟩ := create_eq_ok_iff.mp hcreate
  refine ⟨⟨rfl, rfl, rfl⟩, isSorted_of_apart hapart, ?_⟩
  exact h.mono fun entry hmem =>
    (CheckpointManifestCodec.sortEntries_perm accepted).mem_iff.mp hmem

/-- The entries of the accepted blocks. -/
def entriesOf (plan : CheckpointResumePlan) : List ManifestEntry :=
  plan.acceptedBlocks.map fun checkpoint => checkpoint.manifestEntry

/-- The accepted blocks have the values of their ranges. -/
def HasTrueBlocks (plan : CheckpointResumePlan) : Prop :=
  ∀ seed ∈ frontierOf plan.acceptedBlocks, seed.node.IsTrue

/-- The promise is kept, with a condition on the files. -/
def KeepsPromise (directory : Bytes) (identity : ComputationIdentity) (environment : Environment)
    (condition : FileSystem → Prop) : World → Prop :=
  Keeps (promiseOf directory identity environment).guarantee condition

/-- The promise is kept, and the files back the accepted blocks. -/
def KeepsPlan (directory : Bytes) (identity : ComputationIdentity) (environment : Environment)
    (plan : CheckpointResumePlan) (world : World) : Prop :=
  HasTrueBlocks plan ∧ KeepsPromise directory identity environment
    (AreBacked directory identity BinaryNode.ofRange (entriesOf plan)) world

theorem KeepsPromise.forget {condition : FileSystem → Prop} {world : World}
    (h : KeepsPromise directory identity environment condition world) :
    KeepsPromise directory identity environment (fun _ => True) world :=
  Keeps.mono h fun _ _ => trivial

/-- A plan without accepted blocks needs no files. -/
theorem keepsPlan_of_none {plan : CheckpointResumePlan} {condition : FileSystem → Prop}
    {world : World} (hnone : plan.acceptedBlocks = [])
    (h : KeepsPromise directory identity environment condition world) :
    KeepsPlan directory identity environment plan world := by
  refine ⟨by simp [HasTrueBlocks, hnone, frontierOf], Keeps.mono h fun _ _ => ?_⟩
  simp [entriesOf, hnone, AreBacked]

/-- What is taken over of a frontier is backed. -/
theorem keepsPlan_of_takesOver {plan : CheckpointResumePlan} {manifest : CheckpointManifest}
    {initial : FileSystem} {world : World}
    (hplan : TakesOver directory identity BinaryNode.ofRange manifest initial plan)
    (h : KeepsPromise directory identity environment
      (HoldsManifest directory identity BinaryNode.ofRange manifest) world) :
    KeepsPlan directory identity environment plan world := by
  constructor
  · intro seed hmem
    simp only [hplan.accepted, frontierOf, List.map_map, List.mem_map] at hmem
    obtain ⟨entry, -, rfl⟩ := hmem
    rfl
  · refine Keeps.mono h fun files hfiles => ?_
    rw [entriesOf, hplan.accepted, hfiles.map_takenOver]
    exact hfiles.backed

/-- From what can be resumed, the planner returns what a writer can go on from. -/
theorem create_returns {quarantineDirectory : Bytes} {initial : FileSystem}
    (hdirectory : directory ≠ []) (hquarantine : quarantineDirectory ≠ [])
    (hidentity : identity.IsValid) (hnames : FitsNames environment initial)
    (h : IsResumed directory identity initial) :
    Meets (KeepsPromise directory identity environment fun files => files = initial)
      (CheckpointResumePlanner.create directory quarantineDirectory identity)
      (KeepsPlan directory identity environment) (fun _ _ => False) := by
  have hguarantee : (promiseOf directory identity environment).guarantee.IsFramed :=
    promiseOf_isStable.isFramed
  rcases h with hlacks | ⟨manifest, hholds⟩
  · refine (create_startsAnew hdirectory hquarantine hidentity hguarantee (fun _ => Or.inl) hnames
      hlacks).weaken ?_
    exact fun plan world hworld => keepsPlan_of_none hworld.1.accepted hworld.2
  · refine (create_takesOver hdirectory hquarantine hguarantee (fun _ hfiles => Or.inr ⟨_, hfiles⟩)
      hnames (areCongruent_ofRange identity) hholds).weaken ?_
    exact fun plan world hworld => keepsPlan_of_takesOver hworld.1 hworld.2

/-- The planner leaves what a writer can go on from, where it finds what can be resumed. -/
theorem create_keepsPlan {quarantineDirectory : Bytes} {initial : FileSystem}
    (hidentity : identity.IsValid) (hnames : FitsNames environment initial)
    (h : IsResumed directory identity initial) :
    Meets (KeepsPromise directory identity environment fun files => files = initial)
      (CheckpointResumePlanner.create directory quarantineDirectory identity)
      (KeepsPlan directory identity environment)
      (fun _ => KeepsPromise directory identity environment fun _ => True) := by
  by_cases hempty : directory = [] ∨ quarantineDirectory = []
  · rw [CheckpointResumePlanner.create, Action.liftM_eq, throwIf_pos hempty]
    exact fun world hworld => KeepsPromise.forget hworld
  obtain ⟨hdirectory, hquarantine⟩ := not_or.mp hempty
  exact (create_returns hdirectory hquarantine hidentity hnames h).consequence (fun _ => id)
    (fun _ _ => id) fun _ _ => False.elim

theorem resumePlan_keepsPlan {config : Config} {initial : FileSystem}
    (hidentity : identity.IsValid) (hnames : FitsNames environment initial)
    (h : IsResumed config.checkpointDirectory identity initial) :
    Meets (KeepsPromise config.checkpointDirectory identity environment
        fun files => files = initial)
      (resumePlan config identity) (KeepsPlan config.checkpointDirectory identity environment)
      (fun _ => KeepsPromise config.checkpointDirectory identity environment fun _ => True) := by
  rw [resumePlan]
  refine Meets.ite (fun _ => create_keepsPlan hidentity hnames h) fun _ => ?_
  exact Meets.pure fun world hworld => keepsPlan_of_none rfl hworld

/-- The writer that goes on from a plan is held. -/
theorem makeWriter_isHeld {config : Config} {plan : CheckpointResumePlan}
    {writer : CheckpointFrontierWriter} {world : World}
    (hwriter : makeWriter config identity plan = .ok writer)
    (h : KeepsPlan config.checkpointDirectory identity environment plan world) :
    IsHeld (promiseOf config.checkpointDirectory identity environment) ⟨world, writer⟩ := by
  rw [makeWriter] at hwriter
  split at hwriter
  · exact isHeld_of_keeps hwriter h.2
  · rw [pure_eq_ok, Except.ok.injEq] at hwriter
    rw [← hwriter]
    refine ⟨⟨rfl, rfl, rfl⟩, List.Pairwise.nil, Keeps.mono h.2 fun _ _ => ?_⟩
    exact fun entry hmem => absurd hmem List.not_mem_nil

theorem onCalculation_meets {τ α : Type} {action : Action (Calculation τ) α}
    {writer : CheckpointFrontierWriter} {storage : τ} {held : World → Prop}
    {pre : Calculation τ → Prop} {post : α → World → Prop} {fail : Error → World → Prop}
    (hstart : ∀ world, held world → pre ⟨⟨world, writer⟩, storage, false, []⟩)
    (h : Meets pre action (fun a calculation => post a calculation.session.world)
      (fun e calculation => fail e calculation.session.world)) :
    Meets held (onCalculation writer storage action) post fail := by
  intro world hworld
  have hrun := h _ (hstart world hworld)
  rw [onCalculation]
  cases haction : action ⟨⟨world, writer⟩, storage, false, []⟩ with
  | ok a calculation =>
      rw [haction] at hrun
      exact hrun
  | error e calculation =>
      rw [haction] at hrun
      exact hrun

/-- The storage of a run that may go without one. -/
theorem exists_contract {τ : Type} {mergeCoordinator : BinaryMergeCoordinator τ}
    (contract : StorageContract .absent mergeCoordinator .absent) {storage : τ}
    (hready : contract.ready storage) (enabled : Bool) :
    ∃ contract' : StorageContract .absent (if enabled = true then mergeCoordinator else .absent)
      .absent, contract'.ready storage := by
  cases enabled with
  | true => exact ⟨contract, hready⟩
  | false => exact ⟨Binary.LeavesNodes.absent.storageContract, trivial⟩

/-- A run keeps the promise, and what it returns is the sequential result. -/
theorem calculate_holds {τ : Type} {mergeCoordinator : BinaryMergeCoordinator τ}
    (contract : StorageContract .absent mergeCoordinator .absent) {storage : τ}
    (hready : contract.ready storage) {config : Config} (hardwareConcurrency : UInt64)
    (schedule : ℕ → (jobs : ℕ) → Schedule jobs) {initial : FileSystem}
    (hidentity : identityOf config.digits = .ok identity) (hnames : FitsNames environment initial)
    (h : IsResumed config.checkpointDirectory identity initial) :
    Meets (KeepsPromise config.checkpointDirectory identity environment
        fun files => files = initial)
      (calculate config hardwareConcurrency schedule mergeCoordinator storage)
      (fun result world => calculateSequential ⟨config.digits, defaultGuardDigits⟩ = .ok result ∧
        KeepsPromise config.checkpointDirectory identity environment (fun _ => True) world)
      (fun _ => KeepsPromise config.checkpointDirectory identity environment fun _ => True) := by
  simp only [identityOf, bind_eq_ok] at hidentity
  obtain ⟨precision, hprecision, hidentity⟩ := hidentity
  have hvalid := (ComputationIdentity.fromPrecisionPlan_isValid hidentity).1
  obtain ⟨contract', hready'⟩ := exists_contract contract hready config.outOfCoreEnabled
  simp only [calculate, hprecision, hidentity, Action.liftM_eq, Action.ofExcept_ok, pure_bind]
  refine Meets.bind (resumePlan_keepsPlan hvalid hnames h) fun plan => ?_
  refine Meets.bind (Action.guard_meets fun _ _ hplan => hplan.2.forget) fun tracker => ?_
  refine Meets.bind_of (fun _ => KeepsPlan config.checkpointDirectory identity environment plan)
    (fun _ hplan => ⟨hplan.1, hplan.2.kept, hplan.2.environment, hplan.2.condition⟩) fun _ => ?_
  refine Meets.bind (Action.ofExcept_meets fun _ _ _ hplan => hplan.2.forget) fun writer => ?_
  refine Meets.of_pre fun hwriter => ?_
  have hstart (world : World)
      (hplan : KeepsPlan config.checkpointDirectory identity environment plan world) :
      HasTrueBlocks plan ∧ HoldsPromise (promiseOf config.checkpointDirectory identity environment)
        contract'.ready ⟨⟨world, writer⟩, storage, false, []⟩ :=
    ⟨hplan.1, makeWriter_isHeld hwriter hplan, hready'⟩
  refine onCalculation_meets hstart (Meets.of_pre fun htrue => ?_)
  refine (calculateParallel_holds contract' promiseOf_isStable rfl config.checkpointEnabled _ _ _ _
    htrue).consequence (fun _ => id) ?_ ?_
  · exact fun result calculation hheld => ⟨hheld.1, KeepsPromise.forget hheld.2.keeps⟩
  · exact fun error calculation hheld => KeepsPromise.forget hheld.keeps

end

/-! ## Histories -/

section

variable {digits : UInt64} {directory : Bytes} {identity : ComputationIdentity}
  {initial files after : FileSystem} {attempt : Attempt}

/-- A run over files that can be resumed. -/
theorem Attempt.run_holds (hidentity : identityOf digits = .ok identity)
    (hof : attempt.IsOf digits directory files) (h : IsResumed directory identity files) :
    (∀ step ∈ attempt.trace files, IsResumed directory identity step.files) ∧
      ∀ result world, attempt.run files = .ok result world →
        calculateSequential ⟨digits, defaultGuardDigits⟩ = .ok result := by
  obtain ⟨rfl, rfl, hnames⟩ := hof
  have hpast {world : World} (hkeeps : KeepsPromise attempt.config.checkpointDirectory identity
      attempt.environment (fun _ => True) world) (step : FileStep) (hmem : step ∈ world.trace) :
      IsResumed attempt.config.checkpointDirectory identity step.files := by
    obtain ⟨newer, older, htrace⟩ := List.append_of_mem hmem
    exact hkeeps.kept.past step older ⟨newer, htrace.symm⟩ (Or.inl trivial)
  have hrun := calculate_holds attempt.contract attempt.ready attempt.hardwareConcurrency
    attempt.schedule hidentity hnames h (World.start attempt.environment files none)
    ⟨.nil fun _ => h, rfl, rfl⟩
  rw [Attempt.trace, Attempt.run]
  cases hresult : calculate attempt.config attempt.hardwareConcurrency attempt.schedule
      attempt.mergeCoordinator attempt.storage (World.start attempt.environment files none) with
  | ok result world =>
      rw [hresult] at hrun
      refine ⟨hpast hrun.2, fun result' world' heq => ?_⟩
      rw [EStateM.Result.ok.injEq] at heq
      exact heq.1 ▸ hrun.1
  | error e world =>
      rw [hresult] at hrun
      refine ⟨hpast hrun, fun result' world' heq => ?_⟩
      cases heq

/-- What an interrupted run leaves can be resumed. -/
theorem Attempt.leaves_isResumed (hidentity : identityOf digits = .ok identity)
    (hof : attempt.IsOf digits directory files) (h : IsResumed directory identity files)
    (hleaves : attempt.Leaves files after) : IsResumed directory identity after := by
  rcases hleaves with rfl | ⟨step, hmem, rfl⟩
  · exact h
  · exact (run_holds hidentity hof h).1 step hmem

/-- What interrupted runs leave can be resumed. -/
theorem isResumed_of_reaches (hidentity : identityOf digits = .ok identity)
    (hinitial : LacksManifest directory identity initial)
    (h : Reaches digits directory initial files) : IsResumed directory identity files := by
  induction h with
  | start => exact Or.inl hinitial
  | interrupted attempt _ hof hleaves ih => exact Attempt.leaves_isResumed hidentity hof ih hleaves

end

/-- The identity of ten digits. -/
def tenDigits : ComputationIdentity where
  algorithm := AlgorithmId.chudnovskyBinarySplitting
  arithmeticVersion := 1
  formulaVersion := 1
  requestedDigits := 10
  guardDigits := 32
  workingDigits := 42
  termCount := 4

theorem identityOf_ten : identityOf 10 = .ok tenDigits := by
  rfl

end GiveMePi.Main
