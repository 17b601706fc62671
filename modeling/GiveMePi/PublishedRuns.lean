import GiveMePi.Chudnovsky.KnownDigits
import GiveMePi.CompletedRuns
import GiveMePi.Publication

/-! # Whole runs

A run calculates and publishes. It may be cut behind any change of a file, in the calculation or in
the publication, or fail, and be started again, any number of times. -/

namespace GiveMePi.Main

open Binary (BinaryNode splitSequential_eq)
open Checkpoint
open Checkpoint.AtomicFileCommit (LacksTemps not_isTempOf)
open Checkpoint.CheckpointResumePlanner (LacksManifest)
open Chudnovsky (PiCalculationResult calculateSequential doubled_workingDigits_of_makeResult
  makeResult_known)
open Chudnovsky.PrecisionPolicy (defaultGuardDigits)
open FileSystem (DependsOn)
open Library.Program (stateAfter)
open Verification
open Verification.FinalVerifier (Agrees IsVerified)

/-! ## The files of a computation -/

/-- The paths in a directory that a computation has a frontier under. -/
def IsCheckpointPath (directory : Bytes) (identity : ComputationIdentity) (path : Path) : Prop :=
  path = manifestPathOf directory identity ∨
    ∃ location, path = ⟨directory, CheckpointStore.blockFilename identity location⟩

section

variable {directory : Bytes} {identity : ComputationIdentity} {path : Path}

theorem IsCheckpointPath.isFinal (h : IsCheckpointPath directory identity path) : path.IsFinal := by
  rcases h with rfl | ⟨location, rfl⟩
  · exact manifestPathOf_isFinal directory identity
  · exact Or.inl (CheckpointBlock.isFinal_path (blockOf identity BinaryNode.ofRange location)
      directory)

/-- Whether a computation can be resumed is up to these files. -/
theorem isResumed_dependsOn :
    DependsOn (IsResumed directory identity) (IsCheckpointPath directory identity) := by
  intro files files' hagrees h
  have hmanifest := hagrees _ (Or.inl rfl)
  rcases h with hlacks | hholds
  · exact Or.inl (hmanifest.trans hlacks)
  · refine Or.inr (hholds.of_lookup hmanifest fun entry hentry => hentry.of_lookup ?_)
    exact hagrees _ (Or.inr ⟨entry.location, rfl⟩)

end

/-! ## Runs -/

/-- One start of the program, with what the publication meets. -/
structure PublishingAttempt extends Attempt where
  surroundings : Surroundings

namespace PublishingAttempt

/-- The run over the files it finds. -/
def run (attempt : PublishingAttempt) (files : FileSystem) : EStateM.Result Error World Unit :=
  calculateAndPublish attempt.config attempt.hardwareConcurrency attempt.schedule
    attempt.mergeCoordinator attempt.storage attempt.surroundings
    (World.start attempt.environment files none)

/-- The changes of the files in a run. -/
def trace (attempt : PublishingAttempt) (files : FileSystem) : List FileStep :=
  match attempt.run files with
  | .ok _ world => world.trace
  | .error _ world => world.trace

/-- What a run leaves that is cut, at the latest at its end. -/
def Leaves (attempt : PublishingAttempt) (files after : FileSystem) : Prop :=
  after = files ∨ ∃ step ∈ attempt.trace files, after = step.files

/-- A run of the computation of some digits over a directory, whose output and manifest are files of
their own. -/
structure IsOf (attempt : PublishingAttempt) (digits : UInt64) (directory : Bytes)
    (identity : ComputationIdentity) (files : FileSystem) : Prop where
  isOf : attempt.toAttempt.IsOf digits directory files
  output : ¬ IsCheckpointPath directory identity (outputPath attempt.config)
  manifest : ¬ IsCheckpointPath directory identity (manifestPath attempt.config)
  apart : outputPath attempt.config ≠ manifestPath attempt.config

/-- What a run that returns has made of a result. -/
structure HasPublished (attempt : PublishingAttempt) (digits : UInt64) (files : FileSystem)
    (result : PiCalculationResult) : Prop where
  sequential : calculateSequential ⟨digits, defaultGuardDigits⟩ = .ok result
  written : IsWritten attempt.config result files
  published : attempt.config.verificationEnabled = true →
    IsPublished attempt.config attempt.surroundings result files

end PublishingAttempt

section

variable {digits : UInt64} {directory : Bytes} {identity : ComputationIdentity}
  {initial files after : FileSystem} {attempt : PublishingAttempt}

/-- What a run over files that can be resumed leaves can be resumed, and a run that returns has
published the result of the sequential calculation. -/
theorem PublishingAttempt.run_holds (hidentity : identityOf digits = .ok identity)
    (hof : attempt.IsOf digits directory identity files)
    (h : IsResumed directory identity files) :
    (∀ step ∈ attempt.trace files, IsResumed directory identity step.files) ∧
      ∀ u world, attempt.run files = .ok u world →
        ∃ result, attempt.HasPublished digits world.files result := by
  obtain ⟨⟨rfl, rfl, hnames⟩, houtput, hmanifest, hpaths⟩ := hof
  have hpast {world : World} (hkeeps : KeepsPromise attempt.config.checkpointDirectory identity
      attempt.environment (fun _ => True) world) :
      ∀ step ∈ world.trace, IsResumed attempt.config.checkpointDirectory identity step.files := by
    intro step hmem
    obtain ⟨newer, older, htrace⟩ := List.append_of_mem hmem
    exact hkeeps.kept.past step older ⟨newer, htrace.symm⟩ (Or.inl trivial)
  have hcalculate := calculate_holds attempt.contract attempt.ready attempt.hardwareConcurrency
    attempt.schedule hidentity hnames h (World.start attempt.environment files none)
    ⟨.nil fun _ => h, rfl, rfl⟩
  rw [trace, run, calculateAndPublish]
  cases hrun : calculate attempt.config attempt.hardwareConcurrency attempt.schedule
      attempt.mergeCoordinator attempt.storage (World.start attempt.environment files none) with
  | error e world =>
      rw [hrun] at hcalculate
      rw [Library.Program.bind_of_error hrun]
      refine ⟨hpast hcalculate, fun u left hok => ?_⟩
      cases hok
  | ok result world =>
      rw [hrun] at hcalculate
      obtain ⟨hresult, hkeeps⟩ := hcalculate
      rw [Library.Program.bind_of_ok hrun]
      obtain ⟨setting, hsetting⟩ : ∃ setting : Setting, setting =
          ⟨attempt.config, attempt.surroundings, result, world.environment,
            IsResumed attempt.config.checkpointDirectory identity,
            world.files.lookup (manifestPath attempt.config)⟩ := ⟨_, rfl⟩
      have hapart : setting.IsApart := by
        rw [hsetting]
        refine ⟨fun files files' hagrees => isResumed_dependsOn files files' ?_, hpaths⟩
        intro path hpath
        refine hagrees path ⟨hpath.isFinal, ?_, ?_⟩
        · rintro rfl
          exact houtput hpath
        · rintro rfl
          exact hmanifest hpath
      have hbefore : setting.IsBefore world.files := by
        rw [hsetting]
        exact ⟨hkeeps.kept.current (Or.inl trivial), rfl⟩
      obtain ⟨newer, htrace, -, hsteps, -, hdone⟩ :=
        Setting.publish_leaves hapart (by rw [hsetting]) hbefore rfl
      rw [hsetting] at htrace hsteps hdone
      have hall : ∀ step ∈ newer ++ world.trace,
          IsResumed attempt.config.checkpointDirectory identity step.files := by
        intro step hmem
        rcases List.mem_append.mp hmem with hnewer | holder
        · exact (hsteps step hnewer).elim Setting.IsBefore.standing Setting.IsBehind.standing
        · exact hpast hkeeps step holder
      rw [Action.attempt]
      cases hpublish : publish attempt.config attempt.surroundings result world with
      | ok u left =>
          have hleft := hdone u left hpublish
          rw [stateAfter, hpublish] at htrace hleft
          refine ⟨fun step hmem => hall step (htrace ▸ hmem), fun _ _ hok => ?_⟩
          rw [EStateM.Result.ok.injEq] at hok
          rw [← hok.2]
          exact ⟨result, hresult, hleft.written, hleft.published⟩
      | error e left =>
          rw [stateAfter, hpublish] at htrace
          refine ⟨fun step hmem => hall step (htrace ▸ hmem), fun u left hok => ?_⟩
          cases hok

end

section

variable {digits : UInt64} {result : PiCalculationResult} {series : BBPSeries}
  {policy : BBPSamplePolicy}

end

end GiveMePi.Main
