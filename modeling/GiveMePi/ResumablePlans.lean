import GiveMePi.Binary.SplitRuns
import GiveMePi.Checkpoint.PlanTiling
import GiveMePi.Checkpoint.PublishedFrontiers
import GiveMePi.Chudnovsky.CheckpointBlocks
import GiveMePi.Main

/-! # Every plan can be used

Whatever the planner finds on disk, the writer takes the entries of its plan, the tracker its
blocks, and the splitter its frontier. -/

namespace GiveMePi.Main

open Binary (BinaryFrontierNode IsSplittable ParallelSplitOptions validateFrontier)
open Checkpoint
open Checkpoint.CheckpointResumePlanner
open Chudnovsky (PrecisionPlan frontierOf)
open Library (Apart Tiles)
open Progress (ProgressTracker ResumeProgressRestorer.isRestorable
  ResumeProgressRestorer.restore_eq_true ResumeProgressRestorer.totalBytes le_planCheckpointBlocks
  planCheckpointBlocks)

/-- What the next stages need of a plan for the files it was made of. -/
structure IsUsable (files : FileSystem) (directory : Bytes) (identity : ComputationIdentity)
    (plan : CheckpointResumePlan) : Prop where
  /-- Every accepted block is recorded in the manifest, held by the file that the entry names, and
  has the residues of its range. -/
  taken : ∀ checkpoint ∈ plan.acceptedBlocks, ∃ manifest block,
    IsOnDisk files directory identity manifest ∧ checkpoint.manifestEntry ∈ manifest.entries ∧
      IsResumable identity block ∧ IsStored files directory block ∧
        checkpoint = acceptedOf directory block
  tiles : ∃ ranges, Tiles 0 ranges identity.termCount ∧
    ranges.Perm (plan.acceptedBlocks.map AcceptedCheckpoint.range ++
      plan.rangesToRecalculate.map MissingRange.range)
  writer : ∀ config : Config, config.checkpointDirectory = directory →
    ∃ writer, makeWriter config identity plan = .ok writer
  tracker : ResumeProgressRestorer.totalBytes plan.acceptedBlocks < 2 ^ 64 →
    ∀ config precision workers, ComputationIdentity.fromPrecisionPlan precision = .ok identity →
      ∃ tracker, makeTracker config precision plan workers = .ok tracker
  /-- Only a block of three zeros is refused. -/
  splits : IsSplittable 0 identity.termCount splitOptions (frontierOf plan.acceptedBlocks) ↔
    ∀ seed ∈ frontierOf plan.acceptedBlocks, seed.node.hasValues = true

section

variable {identity : ComputationIdentity} {plan : CheckpointResumePlan}

theorem makeWriter_of_isTiled (h : IsTiled identity plan) (hidentity : identity.IsValid)
    {config : Config} (hdirectory : config.checkpointDirectory ≠ []) :
    ∃ writer, makeWriter config identity plan = .ok writer := by
  rw [makeWriter]
  split
  · exact ⟨_, h.admissible.create_writer hdirectory hidentity (Int.natCast_nonneg _)⟩
  · exact ⟨_, rfl⟩

/-- The number of planned blocks with the program's split options. -/
theorem exists_planCheckpointBlocks (plan : CheckpointResumePlan) (workers : UInt64)
    (checkpointEnabled : Bool) : ∃ total, planCheckpointBlocks plan splitOptions workers
      checkpointEnabled = .ok total ∧ UInt64.ofNat plan.acceptedBlocks.length ≤ total := by
  obtain ⟨total, htotal⟩ : ∃ total,
      planCheckpointBlocks plan splitOptions workers checkpointEnabled = .ok total := by
    rw [planCheckpointBlocks]
    split
    · exact ⟨_, rfl⟩
    · exact ⟨_, rfl⟩
  exact ⟨total, htotal, le_planCheckpointBlocks htotal⟩

/-- The digits and terms of an identity are those of its precision, and there are some. -/
theorem fromPrecisionPlan_counts {precision : PrecisionPlan}
    (h : ComputationIdentity.fromPrecisionPlan precision = .ok identity) :
    (identity.requestedDigits = precision.requestedDigits ∧ precision.requestedDigits ≠ 0) ∧
      identity.termCount = precision.termCount ∧ precision.termCount ≠ 0 := by
  simp only [ComputationIdentity.fromPrecisionPlan, bind_eq_ok, throwIf_eq_ok, pure_eq_ok,
    Except.ok.injEq, not_or] at h
  obtain ⟨_, hdigits, _, -, _, -, _, hterms, _, -, rfl⟩ := h
  exact ⟨⟨rfl, hdigits.1⟩, rfl, hterms⟩

/-- The accepted blocks are restored into the tracker, unless their bytes cannot be counted. -/
theorem makeTracker_of_isTiled (h : IsTiled identity plan)
    (hbytes : ResumeProgressRestorer.totalBytes plan.acceptedBlocks < 2 ^ 64) (config : Config)
    {precision : PrecisionPlan} (workers : UInt64)
    (hidentity : ComputationIdentity.fromPrecisionPlan precision = .ok identity) :
    ∃ tracker, makeTracker config precision plan workers = .ok tracker := by
  obtain ⟨⟨hdigits, hdigitsPos⟩, hterms, htermsPos⟩ := fromPrecisionPlan_counts hidentity
  obtain ⟨total, htotal, hle⟩ :=
    exists_planCheckpointBlocks plan workers config.checkpointEnabled
  have hcreate : ProgressTracker.create ⟨precision.requestedDigits, precision.termCount, total⟩ =
      .ok (.ofPlan ⟨precision.requestedDigits, precision.termCount, total⟩) := by
    simp only [ProgressTracker.create, throwIf_neg hdigitsPos, throwIf_neg htermsPos, ok_bind,
      pure_eq_ok]
  rw [makeTracker, htotal, ok_bind, hcreate, ok_bind]
  split
  · obtain ⟨entered, hentered⟩ : ∃ entered : ProgressTracker, entered =
        { ProgressTracker.ofPlan ⟨precision.requestedDigits, precision.termCount, total⟩ with
          phase := .validatingCheckpoints } := ⟨_, rfl⟩
    have htransition : (ProgressTracker.ofPlan ⟨precision.requestedDigits, precision.termCount,
        total⟩).transitionTo .validatingCheckpoints = (true, entered) := by
      rw [hentered]
      rfl
    have hrestorable : ResumeProgressRestorer.isRestorable identity plan entered := by
      rw [hentered]
      refine ⟨?_, hdigits.symm, hterms.symm⟩
      simp [Progress.ResumeProgressRestorer.isFresh, ProgressTracker.ofPlan, Progress.terminalState,
        hle]
    have hrestore := ResumeProgressRestorer.restore_eq_true h.admissible hrestorable hbytes
    rw [htransition]
    refine ⟨(Progress.ResumeProgressRestorer.restore plan entered).2, ?_⟩
    simp only [hrestore]
    rfl
  · exact ⟨_, rfl⟩

theorem hasValues_of_validateFrontier {start stop coveredEnd : UInt64}
    {seeds : List BinaryFrontierNode} {u : Unit}
    (h : validateFrontier start stop coveredEnd seeds = .ok u) :
    ∀ seed ∈ seeds, seed.node.hasValues = true := by
  induction seeds generalizing coveredEnd with
  | nil => exact fun _ hmem => absurd hmem List.not_mem_nil
  | cons seed rest ih =>
      simp only [validateFrontier, bind_eq_ok, throwIf_eq_ok] at h
      obtain ⟨_, -, _, -, _, -, _, hvalues, hrest⟩ := h
      exact List.forall_mem_cons.mpr ⟨by simpa using hvalues, ih hrest⟩

/-- The splitter takes the frontier of a plan whose blocks have values. -/
theorem isSplittable_iff_of_isTiled (h : IsTiled identity plan) (hidentity : identity.IsValid) :
    IsSplittable 0 identity.termCount splitOptions (frontierOf plan.acceptedBlocks) ↔
      ∀ seed ∈ frontierOf plan.acceptedBlocks, seed.node.hasValues = true := by
  have hordered : (frontierOf plan.acceptedBlocks).Pairwise fun left right =>
      left.node.stop ≤ right.node.start :=
    List.pairwise_map.mpr h.admissible.pairwise
  have hsorted : (frontierOf plan.acceptedBlocks).mergeSort
      (fun left right => left.node.start ≤ right.node.start) = frontierOf plan.acceptedBlocks := by
    apply List.mergeSort_of_pairwise
    exact List.pairwise_map.mpr (h.admissible.pairwise_start.imp fun hlt => decide_eq_true hlt.le)
  have hbounds (seed : BinaryFrontierNode) (hmem : seed ∈ frontierOf plan.acceptedBlocks) :
      0 ≤ seed.node.start ∧ seed.node.start < seed.node.stop ∧
        seed.node.stop ≤ identity.termCount := by
    obtain ⟨checkpoint, hcheckpoint, rfl⟩ := List.mem_map.mp hmem
    exact ⟨UInt64.zero_le, h.admissible.bounds hcheckpoint⟩
  constructor
  · intro hsplittable
    have hfrontier := hsplittable.frontier
    rw [hsorted] at hfrontier
    exact hasValues_of_validateFrontier hfrontier
  · intro hvalues
    refine ⟨hidentity.termCount_pos, by decide, by decide, ?_⟩
    rw [hsorted]
    exact Binary.validateFrontier_eq_ok hbounds hvalues
      (fun seed hmem => (hbounds seed hmem).1) hordered

/-- From every directory whose manifest names no file that is too long, whatever its files hold and
whatever goes wrong with the quarantine, the planner returns a usable plan, and keeps the accepted
files in place. -/
theorem create_isUsable {directory quarantineDirectory : Bytes} (hdirectory : directory ≠ [])
    (hquarantine : quarantineDirectory ≠ []) (hidentity : identity.IsValid) (world : World)
    (hnames : FitsNames world.environment world.files)
    (hshort : HasShortNames world.environment world.files directory identity) :
    ∃ plan after, create directory quarantineDirectory identity world = .ok plan after ∧
      IsUsable world.files directory identity plan ∧ ∀ checkpoint ∈ plan.acceptedBlocks,
        after.files.lookup checkpoint.path = world.files.lookup checkpoint.path := by
  have hmeets := create_isTiled identity hdirectory hquarantine hnames world
    (keeps_noGuarantee rfl rfl)
  cases hrun : create directory quarantineDirectory identity world with
  | error e after =>
      rw [hrun] at hmeets
      exact absurd hshort hmeets
  | ok plan after =>
      rw [hrun] at hmeets
      obtain ⟨⟨htiled, htaken, hlisted⟩, hkeeps⟩ := hmeets
      refine ⟨plan, after, rfl, ⟨?_, htiled.exists_tiles, ?_, ?_, ?_⟩, hkeeps.condition.unmoved⟩
      · intro checkpoint hmem
        obtain ⟨block, hresumable, hstored, heq⟩ := htaken checkpoint hmem
        rcases hlisted with hnone | ⟨manifest, hdisk, hsublist⟩
        · rw [hnone] at hmem
          exact absurd hmem List.not_mem_nil
        · refine ⟨manifest, block, hdisk, ?_, hresumable, hstored, heq⟩
          have hlistedEntry := hsublist.subset (List.mem_map_of_mem hmem)
          exact (CheckpointManifestValidator.acceptable_of_accepted hlistedEntry).1
      · rintro config rfl
        exact makeWriter_of_isTiled htiled hidentity hdirectory
      · exact fun hbytes config precision workers =>
          makeTracker_of_isTiled htiled hbytes config workers
      · exact isSplittable_iff_of_isTiled htiled hidentity

end

/-- A directory with a stray file. -/
theorem create_isUsable_stray :
    ∃ plan after, create (ascii "checkpoints") (ascii "quarantine")
        ModularPQTVerifier.tenDigitsIdentity strayWorld = .ok plan after ∧
      IsUsable strayWorld.files (ascii "checkpoints") ModularPQTVerifier.tenDigitsIdentity plan ∧
        ∀ checkpoint ∈ plan.acceptedBlocks,
          after.files.lookup checkpoint.path = strayWorld.files.lookup checkpoint.path := by
  refine create_isUsable (by decide) (by decide) (by decide) strayWorld ?_ ?_
  · intro path _ bytes hlookup
    by_cases heq : path = strayPath
    · rw [heq]
      decide
    · rw [strayWorld, World.start, AList.lookup_insert_ne heq] at hlookup
      cases hlookup
  · intro manifest hdisk
    have hlookup := (loadManifest_eq_ok_iff.mp hdisk).2.2.1
    have hne : manifestPathOf (ascii "checkpoints") ModularPQTVerifier.tenDigitsIdentity ≠
        strayPath := by decide
    rw [strayWorld, World.start, AList.lookup_insert_ne hne] at hlookup
    cases hlookup

end GiveMePi.Main
