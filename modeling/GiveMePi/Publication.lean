import GiveMePi.Checkpoint.ReliableCommits
import GiveMePi.Main
import GiveMePi.Verification.VerificationManifestStore

/-! # The publication of a result

What `main` makes of a result: it writes the output file, verifies the file, and commits a manifest
for it. Paths are compared as texts. -/

namespace GiveMePi

open Library.Program (Commutes)

/-- The path that a text names: `filename` is what follows the last slash, and the directory what
stands before the slashes there. -/
def Path.ofText (text : Bytes) : Path :=
  let filename := (text.reverse.takeWhile fun byte => byte ≠ 47).reverse
  let before := text.take (text.length - filename.length)
  let directory := (before.reverse.dropWhile fun byte => byte = 47).reverse
  ⟨if directory = [] ∧ before ≠ [] then ascii "/" else directory, filename⟩

example : Path.ofText (ascii "results//pi.txt") = ⟨ascii "results", ascii "pi.txt"⟩ := by decide

/-! ## Conditions on certain files -/

namespace FileSystem

/-- A condition on files that only speaks of certain paths. -/
def DependsOn (condition : FileSystem → Prop) (paths : Path → Prop) : Prop :=
  ∀ files files' : FileSystem, (∀ path, paths path → files'.lookup path = files.lookup path) →
    condition files → condition files'

namespace DependsOn

variable {condition : FileSystem → Prop} {paths : Path → Prop} {path : Path} {files : FileSystem}

theorem insert (h : DependsOn condition paths) (hpath : ¬ paths path) (content : Bytes)
    (hfiles : condition files) : condition (files.insert path content) := by
  refine h files _ (fun other hother => AList.lookup_insert_ne ?_) hfiles
  rintro rfl
  exact hpath hother

theorem erase (h : DependsOn condition paths) (hpath : ¬ paths path) (hfiles : condition files) :
    condition (files.erase path) := by
  refine h files _ (fun other hother => AList.lookup_erase_ne ?_) hfiles
  rintro rfl
  exact hpath hother

end DependsOn

end FileSystem

/-! ## What a commit does not see

What a program does to the files depends neither on the changes that were recorded before it nor on
the tracker. -/

/-- The world with the changes of an earlier program behind its own, and with another tracker. -/
def World.aside (earlier : List FileStep)
    (f : Option Progress.ProgressTracker → Option Progress.ProgressTracker) (world : World) : World :=
  { world with trace := world.trace ++ earlier, tracker := f world.tracker }

namespace World

variable {earlier : List FileStep}
  {f : Option Progress.ProgressTracker → Option Progress.ProgressTracker}

theorem perform_commutes (operation : FileOperation) (effect : FileSystem → FileSystem)
    (what : String) : Commutes (aside earlier f) (perform operation effect what) := by
  intro world
  simp only [perform, aside]
  cases world.environment.outcome world.operations <;> rfl

theorem takeWriteSize_commutes (request : ℕ) : Commutes (aside earlier f) (takeWriteSize request) :=
  fun _ => rfl

theorem nextTempSequence_commutes : Commutes (aside earlier f) nextTempSequence :=
  fun _ => rfl

theorem rename_commutes (source destination : Path) (what : String) :
    Commutes (aside earlier f) (rename source destination what) := by
  intro world
  have hfiles : (aside earlier f world).files = world.files := rfl
  simp only [rename, hfiles]
  cases world.files.lookup source with
  | none => rfl
  | some content => exact perform_commutes _ _ _ world

end World

section

variable {α : Type} {f : World → World}

theorem Action.attempt_commutes {body : Action World α} {handler : Error → Action World α}
    (hbody : Commutes f body) (hhandler : ∀ error, Commutes f (handler error)) :
    Commutes f (Action.attempt body handler) := by
  intro world
  rw [Action.attempt, Action.attempt, hbody world]
  cases body world with
  | ok a left => rfl
  | error e left => exact hhandler e left

theorem Action.ofExcept_commutes (x : Except Error α) :
    Commutes f (Action.ofExcept x : Action World α) := by
  cases x with
  | ok a => exact Commutes.pure a
  | error e => exact Commutes.throw e

end

namespace Checkpoint.AtomicFileCommit

variable {earlier : List FileStep}
  {f : Option Progress.ProgressTracker → Option Progress.ProgressTracker}

open World (aside perform_commutes)

theorem createTempPath_commutes (destination : Path) (attempts : ℕ) :
    Commutes (aside earlier f) (createTempPath destination attempts) := by
  induction attempts with
  | zero => exact Commutes.throw _
  | succ attempts ih =>
      rw [createTempPath]
      refine World.nextTempSequence_commutes.bind fun sequence =>
        Commutes.get_bind (fun _ => rfl) fun seen => ?_
      exact ih.ite ((perform_commutes _ _ _).bind fun _ => Commutes.pure _)

theorem writeAll_commutes (file : Path) (written remaining : Bytes) :
    Commutes (aside earlier f) (writeAll file written remaining) := by
  induction written, remaining using writeAll.induct with
  | case1 written =>
      rw [writeAll]
      exact Commutes.pure _
  | case2 written byte rest ih =>
      rw [writeAll]
      refine (Action.ofExcept_commutes _).bind fun _ => ?_
      refine (World.takeWriteSize_commutes _).bind fun size => ?_
      exact (perform_commutes _ _ _).bind fun _ => ih size

theorem write_commutes (destination : Path) (bytes : Bytes) :
    Commutes (aside earlier f) (write destination bytes) := by
  rw [write]
  refine (Action.ofExcept_commutes _).bind fun _ => ?_
  refine (createTempPath_commutes destination _).bind fun temp => ?_
  refine (Action.attempt_commutes ?_ fun error => ?_).bind fun _ => perform_commutes _ _ _
  · rw [writeAndRename]
    refine (writeAll_commutes temp [] bytes).bind fun _ => (perform_commutes _ _ _).bind fun _ => ?_
    exact (perform_commutes _ _ _).bind fun _ => World.rename_commutes _ _ _
  · refine (Action.attempt_commutes (perform_commutes _ _ _) fun _ => Commutes.pure _).bind fun _ => ?_
    exact Commutes.throw error

end Checkpoint.AtomicFileCommit

namespace Main

open Binary (BinaryMergeCoordinator)
open Checkpoint
open Checkpoint.AtomicFileCommit (AllowsScratch AllowsTemps IsTempOf LacksTemps)
open Chudnovsky (PiCalculationResult PrecisionPlan)
open FileSystem (DependsOn)
open Library (Meets Schedule)
open Library.Program (mapState stateAfter)
open Progress (ProgressPhase)
open Verification
open Verification.FinalVerifier (IsVerified)
open World (Keeps)

variable {τ : Type}

/-! ## The program -/

/-- What a publication meets besides the files: the digits that the series resolves, the openings of
the output file, and the seconds of the system clock. -/
structure Surroundings where
  series : BBPSeries
  deliveries : Deliveries
  unixSeconds : UInt64

def outputPath (config : Config) : Path :=
  Path.ofText config.outputFile

def manifestPath (config : Config) : Path :=
  Path.ofText (if config.verificationManifestFile = [] then config.outputFile ++ ascii ".verify"
    else config.verificationManifestFile)

def verificationIdentity (precision : PrecisionPlan) : VerificationIdentity :=
  ⟨precision.requestedDigits, precision.guardDigits, precision.workingDigits, precision.termCount⟩

/-- A phase that must not be refused. -/
def enterPhase (phase : ProgressPhase) (what : String) : Action World Unit := fun world =>
  match world.tracker with
  | none => .ok () world
  | some tracker =>
      let (entered, tracker) := tracker.transitionTo phase
      let world := { world with tracker := some tracker }
      if entered then .ok () world else .error (.logicError what) world

/-- The constructor of the stream; a directory is not opened. -/
def openOutput (path : Path) : Action World Unit :=
  Action.attempt
    (do
      throwIf (path.filename = [] ∨ path.filename = ascii "." ∨ path.filename = ascii "..")
        (.systemError "open")
      World.perform (.create path) (fun files => files.insert path []) "open")
    fun _ => throw (.runtimeError "Cannot open pi output file")

/-- The output through a stream, which gives its buffers to the file with a loop over `write`, and
reports the first failure when it is closed. -/
def writeOutput (path : Path) (bytes : Bytes) : Action World Unit := do
  openOutput path
  Action.attempt
    (do
      AtomicFileCommit.writeAll path [] bytes
      World.perform (.close path) id "close")
    fun _ => throw (.runtimeError "Cannot write pi output file")

/-- A run of the verification that passed. -/
def verifyOutput (config : Config) (surroundings : Surroundings) (precision : PrecisionPlan) :
    Action World FinalVerificationRun := do
  let samplePolicy ← BBPSamplePolicy.create config.bbpSampleCount.toNat
  let world ← get
  let run ← FinalVerifier.verifyFile surroundings.series
    (surroundings.deliveries.readings (world.files.lookup (outputPath config)))
    (verificationIdentity precision) samplePolicy
  throwIf (run.report.status ≠ .passed) (.runtimeError "Final output verification did not pass")
  pure run

def publishManifest (config : Config) (surroundings : Surroundings)
    (result : PiCalculationResult) : Action World Unit := do
  enterPhase .verifyingOutput "Cannot enter output verification phase"
  let run ← verifyOutput config surroundings result.precision
  let manifest ← VerificationManifest.fromRun run (outputPath config).filename
    (UInt64.ofNat (ascii result.decimal).length) surroundings.unixSeconds
  VerificationManifestStore.save (manifestPath config) manifest

/-- What `main` does with the result of a calculation. -/
def publish (config : Config) (surroundings : Surroundings) (result : PiCalculationResult) :
    Action World Unit := do
  enterPhase .writingOutput "Cannot enter output writing phase"
  writeOutput (outputPath config) (ascii result.decimal ++ [10])
  if config.verificationEnabled = true then publishManifest config surroundings result else pure ()
  enterPhase .completed "Cannot complete progress lifecycle"

def markFailed (world : World) : World :=
  { world with tracker := world.tracker.map fun tracker => tracker.markFailed.2 }

/-- What `main` does from the precision on. A calculation that throws has marked its tracker. -/
def calculateAndPublish (config : Config) (hardwareConcurrency : UInt64)
    (schedule : ℕ → (jobs : ℕ) → Schedule jobs) (mergeCoordinator : BinaryMergeCoordinator τ)
    (storage : τ) (surroundings : Surroundings) : Action World Unit := do
  let result ← calculate config hardwareConcurrency schedule mergeCoordinator storage
  Action.attempt (publish config surroundings result) fun error => do
    modify markFailed
    throw error

section

variable {earlier : List FileStep}
  {f : Option Progress.ProgressTracker → Option Progress.ProgressTracker} {config : Config}
  {surroundings : Surroundings} {result : PiCalculationResult}

theorem enterPhase_commutes (phase : ProgressPhase) (what : String) :
    Commutes (World.aside earlier id) (enterPhase phase what) := by
  intro world
  have htracker : (World.aside earlier id world).tracker = world.tracker := rfl
  simp only [enterPhase, htracker]
  cases world.tracker with
  | none => rfl
  | some tracker =>
      by_cases hentered : (tracker.transitionTo phase).1 = true
      · simp only [if_pos hentered]
        rfl
      · simp only [if_neg hentered]
        rfl

theorem writeOutput_commutes (path : Path) (bytes : Bytes) :
    Commutes (World.aside earlier f) (writeOutput path bytes) := by
  refine Commutes.bind (Action.attempt_commutes ?_ fun _ => Commutes.throw _) fun _ => ?_
  · exact (Action.ofExcept_commutes _).bind fun _ => World.perform_commutes _ _ _
  · refine Action.attempt_commutes ?_ fun _ => Commutes.throw _
    exact (AtomicFileCommit.writeAll_commutes path [] bytes).bind fun _ =>
      World.perform_commutes _ _ _

theorem verifyOutput_commutes (precision : PrecisionPlan) :
    Commutes (World.aside earlier f) (verifyOutput config surroundings precision) := by
  refine (Action.ofExcept_commutes _).bind fun samplePolicy => ?_
  refine Commutes.get_bind (fun _ => rfl) fun seen => ?_
  refine (Action.ofExcept_commutes _).bind fun run => ?_
  exact (Action.ofExcept_commutes _).bind fun _ => Commutes.pure run

theorem publishManifest_commutes :
    Commutes (World.aside earlier id) (publishManifest config surroundings result) := by
  refine (enterPhase_commutes _ _).bind fun _ => (verifyOutput_commutes _).bind fun run => ?_
  refine (Action.ofExcept_commutes _).bind fun manifest => ?_
  exact (Action.ofExcept_commutes _).bind fun bytes => AtomicFileCommit.write_commutes _ _

/-- A publication does the same, whatever was recorded before it. -/
theorem publish_commutes : Commutes (World.aside earlier id) (publish config surroundings result) := by
  rw [publish]
  refine (enterPhase_commutes _ _).bind fun _ => (writeOutput_commutes _ _).bind fun _ => ?_
  exact (publishManifest_commutes.bind fun _ => enterPhase_commutes _ _).ite
    (enterPhase_commutes _ _)

end

/-! ## What is published -/

/-- A manifest of a result: its name, identity and digest, and that the text passes. -/
structure IsManifestOf (config : Config) (surroundings : Surroundings)
    (result : PiCalculationResult) (manifest : VerificationManifest) : Prop where
  filename : manifest.outputFilename = (outputPath config).filename
  identity : manifest.identity = verificationIdentity result.precision
  digest : SHA256.hash (ascii result.decimal) = .ok manifest.sha256
  time : manifest.verifiedAtUnixSeconds = surroundings.unixSeconds
  verified : ∃ policy, BBPSamplePolicy.create config.bbpSampleCount.toNat = .ok policy ∧
    IsVerified surroundings.series (verificationIdentity result.precision) policy
      (ascii result.decimal) ∧
    manifest.bbpSamples.map VerificationManifestSample.position =
      policy.select (verificationIdentity result.precision)

/-- The output file holds the result. -/
def IsWritten (config : Config) (result : PiCalculationResult) (files : FileSystem) : Prop :=
  files.lookup (outputPath config) = some (ascii result.decimal ++ [10])

/-- The output file holds the result, and the manifest beside it is one of the result. -/
structure IsPublished (config : Config) (surroundings : Surroundings)
    (result : PiCalculationResult) (files : FileSystem) : Prop where
  output : IsWritten config result files
  manifest : ∃ manifest, VerificationManifestStore.load .whole
    (files.lookup (manifestPath config)) = .ok manifest ∧
      IsManifestOf config surroundings result manifest

/-- The final names that a publication has nothing to do with. -/
def IsElsewhere (config : Config) (path : Path) : Prop :=
  path.IsFinal ∧ path ≠ outputPath config ∧ path ≠ manifestPath config

/-- What a publication finds, and what it gives. -/
structure Setting where
  config : Config
  surroundings : Surroundings
  result : PiCalculationResult
  environment : Environment
  standing : FileSystem → Prop
  found : Option Bytes

namespace Setting

variable (setting : Setting)

/-- The manifest is still the one that was found. -/
structure IsBefore (files : FileSystem) : Prop where
  standing : setting.standing files
  found : files.lookup (manifestPath setting.config) = setting.found

/-- The output file is complete. -/
structure IsWithOutput (files : FileSystem) : Prop extends setting.IsBefore files where
  written : IsWritten setting.config setting.result files

/-- The publication is complete. -/
structure IsBehind (files : FileSystem) : Prop where
  standing : setting.standing files
  published : IsPublished setting.config setting.surroundings setting.result files

def guarantee : FileGuarantee where
  initially := True
  starts _ := False
  good files := setting.IsBefore files ∨ setting.IsBehind files
  environment := setting.environment

/-- The condition on the other files is one on them alone, and the manifest has a file of its
own. -/
structure IsApart : Prop where
  standing : DependsOn setting.standing (IsElsewhere setting.config)
  paths : outputPath setting.config ≠ manifestPath setting.config

variable {setting : Setting}

theorem startsWithRename : setting.guarantee.StartsWithRename :=
  fun _ hstarts => hstarts.elim

/-! ### The output file -/

section

variable {files : FileSystem} (hapart : setting.IsApart)
include hapart

theorem IsBefore.insert_output (h : setting.IsBefore files) (content : Bytes) :
    setting.IsBefore (files.insert (outputPath setting.config) content) where
  standing := hapart.standing.insert (fun hpath => hpath.2.1 rfl) content h.standing
  found := (AList.lookup_insert_ne hapart.paths.symm).trans h.found

theorem IsBefore.erase_output (h : setting.IsBefore files) :
    setting.IsBefore (files.erase (outputPath setting.config)) where
  standing := hapart.standing.erase (fun hpath => hpath.2.1 rfl) h.standing
  found := (AList.lookup_erase_ne hapart.paths.symm).trans h.found

theorem allowsScratch_output :
    AllowsScratch setting.guarantee setting.IsBefore setting.IsBefore
      (outputPath setting.config) where
  insert _ content h := h.insert_output hapart content
  erase _ h := h.erase_output hapart
  eraseAfter _ h := h.erase_output hapart
  goodInsert _ content h _ := Or.inl (h.insert_output hapart content)
  goodErase _ h _ := Or.inl ((h.elim id id).erase_output hapart)

theorem writeOutput_meets :
    Meets (Keeps setting.guarantee setting.IsBefore)
      (writeOutput (outputPath setting.config) (ascii setting.result.decimal ++ [10]))
      (fun _ => Keeps setting.guarantee setting.IsWithOutput)
      (fun _ => Keeps setting.guarantee setting.IsBefore) := by
  have hscratch := allowsScratch_output hapart
  rw [writeOutput, openOutput]
  refine Meets.bind_of (fun _ => Keeps setting.guarantee fun files =>
    setting.IsBefore files ∧ files.lookup (outputPath setting.config) = some []) ?_ fun _ => ?_
  · refine Action.attempt_meets (fun _ => Keeps setting.guarantee setting.IsBefore) ?_
      fun _ => Meets.throw fun _ h => h
    refine Meets.bind (Action.guard_meets fun _ _ h => h) fun _ => ?_
    refine World.perform_meets ?_ ?_ ?_ fun _ _ hstarts => hstarts.elim
    · exact fun files h => ⟨hscratch.insert files [] h, AList.lookup_insert files⟩
    · exact fun files h => ⟨h, hscratch.insert files [] h⟩
    · exact fun files h => hscratch.goodInsert files [] h
  · refine Action.attempt_meets (fun _ => Keeps setting.guarantee setting.IsBefore) ?_
      fun _ => Meets.throw fun _ h => h
    refine Meets.bind (AtomicFileCommit.writeAll_meets startsWithRename hscratch _
      (Nat.zero_le _)) fun _ => Meets.of_pre fun _ => ?_
    refine World.perform_meets ?_ ?_ (fun _ _ h => h) fun _ _ hstarts => hstarts.elim
    · exact fun files h => ⟨h.1, h.2⟩
    · exact fun files h => ⟨h.1, h.1⟩

end

/-! ### The verification -/

/-- A run of the verification that passed on the output. -/
structure IsRun (setting : Setting) (run : FinalVerificationRun) : Prop where
  digest : ∃ digest, run.sha256 = some digest ∧
    SHA256.hash (ascii setting.result.decimal) = .ok digest
  verified : ∃ policy, BBPSamplePolicy.create setting.config.bbpSampleCount.toNat = .ok policy ∧
    FinalVerifier.HasPassed (verificationIdentity setting.result.precision) policy run ∧
    IsVerified setting.surroundings.series (verificationIdentity setting.result.precision) policy
      (ascii setting.result.decimal)

theorem verifyOutput_meets :
    Meets (Keeps setting.guarantee setting.IsWithOutput)
      (verifyOutput setting.config setting.surroundings setting.result.precision)
      (fun run world => setting.IsRun run ∧ world.Keeps setting.guarantee setting.IsWithOutput)
      (fun _ => Keeps setting.guarantee setting.IsWithOutput) := by
  rw [verifyOutput]
  simp only [Action.liftM_eq]
  refine Meets.bind (Action.ofExcept_meets fun _ _ _ h => h) fun policy =>
    Meets.of_pre fun hpolicy => ?_
  refine Meets.bind Action.get_meets fun seen => ?_
  refine Meets.bind (Action.ofExcept_meets fun _ _ _ h => h.2) fun run =>
    Meets.of_pre fun hrun => ?_
  refine Meets.bind (Action.ofExcept_meets fun _ _ _ h => h.2) fun _ =>
    Meets.of_pre fun hstatus => ?_
  refine Meets.pure fun world h => ⟨?_, h.2⟩
  have hpassed := not_not.mp (throwIf_eq_ok.mp hstatus)
  rw [h.1, h.2.condition.written] at hrun
  obtain ⟨hverified, hdigest⟩ := FinalVerifier.isVerified_of_passed hrun hpassed
  exact ⟨hdigest, policy, hpolicy, FinalVerifier.hasPassed_of_verifyFile hrun hpassed, hverified⟩

/-- The manifest of such a run is one of the result. -/
theorem IsRun.isManifestOf {run : FinalVerificationRun} (h : setting.IsRun run)
    {byteCount : UInt64} {manifest : VerificationManifest}
    (hmanifest : VerificationManifest.fromRun run (outputPath setting.config).filename byteCount
      setting.surroundings.unixSeconds = .ok manifest) :
    IsManifestOf setting.config setting.surroundings setting.result manifest := by
  obtain ⟨digest, hdigest, hhash⟩ := h.digest
  obtain ⟨policy, hpolicy, hpassed, hverified⟩ := h.verified
  obtain ⟨hfilename, hidentity, hsha256, htime, hpositions⟩ := hpassed.fields_of_fromRun hmanifest
  obtain rfl : digest = manifest.sha256 := Option.some.inj (hdigest.symm.trans hsha256)
  exact ⟨hfilename, hidentity, hhash, htime, policy, hpolicy, hverified, hpositions⟩

/-! ### The manifest -/

theorem tempPath_ne (destination : Path) (processId sequence : ℕ) :
    AtomicFileCommit.tempPath destination processId sequence ≠ destination := by
  intro h
  have hlength := congrArg (fun path : Path => path.filename.length) h
  have htag : (ascii ".tmp.").length = 5 := rfl
  simp only [AtomicFileCommit.tempPath, List.length_append] at hlength
  omega

/-- A file that a publication has nothing to do with does not show in what is published. -/
theorem IsBehind.erase_temp {files : FileSystem} {temp : Path} (h : setting.IsBehind files)
    (hstanding : setting.standing (files.erase temp))
    (houtput : temp ≠ outputPath setting.config) (hmanifest : temp ≠ manifestPath setting.config) :
    setting.IsBehind (files.erase temp) := by
  refine ⟨hstanding, ?_, ?_⟩
  · rw [IsWritten, AList.lookup_erase_ne houtput.symm]
    exact h.published.output
  · rw [AList.lookup_erase_ne hmanifest.symm]
    exact h.published.manifest

/-- The temporary files of the manifest are neither the output nor elsewhere. -/
theorem allowsTemps (hapart : setting.IsApart) :
    AllowsTemps setting.guarantee setting.IsWithOutput setting.IsBehind
      (manifestPath setting.config) := by
  intro files processId sequence hfiles hfree
  obtain ⟨temp, htemp⟩ : ∃ temp, temp =
    AtomicFileCommit.tempPath (manifestPath setting.config) processId sequence := ⟨_, rfl⟩
  have hmanifest : temp ≠ manifestPath setting.config := htemp ▸ tempPath_ne _ _ _
  have helsewhere : ¬ IsElsewhere setting.config temp := fun hpath =>
    AtomicFileCommit.not_isFinal_tempPath (manifestPath setting.config) processId sequence
      (htemp ▸ hpath.1)
  rw [← htemp] at hfree ⊢
  have houtput : temp ≠ outputPath setting.config := by
    rintro rfl
    rw [hfiles.written] at hfree
    cases hfree
  have hinsert (files : FileSystem) (content : Bytes) (h : setting.IsBefore files) :
      setting.IsBefore (files.insert temp content) :=
    ⟨hapart.standing.insert helsewhere content h.standing,
      (AList.lookup_insert_ne hmanifest.symm).trans h.found⟩
  have herase (files : FileSystem) (h : setting.IsBefore files) :
      setting.IsBefore (files.erase temp) :=
    ⟨hapart.standing.erase helsewhere h.standing,
      (AList.lookup_erase_ne hmanifest.symm).trans h.found⟩
  have hbehind (files : FileSystem) (h : setting.IsBehind files) :
      setting.IsBehind (files.erase temp) :=
    h.erase_temp (hapart.standing.erase helsewhere h.standing) houtput hmanifest
  exact
    { insert := fun files content h =>
        ⟨hinsert files content h.toIsBefore,
          (AList.lookup_insert_ne houtput.symm).trans h.written⟩
      erase := fun files h =>
        ⟨herase files h.toIsBefore, (AList.lookup_erase_ne houtput.symm).trans h.written⟩
      eraseAfter := hbehind
      goodInsert := fun files content h _ => Or.inl (hinsert files content h.toIsBefore)
      goodErase := fun files h _ => h.elim (fun h => Or.inl (herase files h.toIsBefore))
        fun h => Or.inr (hbehind files h) }

/-- The commit of a manifest of the result completes the publication. -/
theorem save_meets (hapart : setting.IsApart) {manifest : VerificationManifest}
    (hmanifest : IsManifestOf setting.config setting.surroundings setting.result manifest) :
    Meets (Keeps setting.guarantee setting.IsWithOutput)
      (VerificationManifestStore.save (manifestPath setting.config) manifest)
      (fun _ => Keeps setting.guarantee setting.IsBehind)
      (fun _ => Keeps setting.guarantee fun files =>
        setting.IsBefore files ∨ setting.IsBehind files) := by
  rw [VerificationManifestStore.save]
  simp only [Action.liftM_eq]
  refine Meets.bind (Action.ofExcept_meets fun _ _ _ h => h.mono fun _ hfiles =>
    Or.inl hfiles.toIsBefore) fun bytes => Meets.of_pre fun hbytes => ?_
  have hload := (VerificationManifestStore.load_of_encode hbytes).1
  have hinstall (files : FileSystem) (h : setting.IsWithOutput files) :
      setting.IsBehind (files.insert (manifestPath setting.config) bytes) := by
    refine ⟨hapart.standing.insert (fun hpath => hpath.2.2 rfl) bytes h.standing, ?_, manifest,
      ?_, hmanifest⟩
    · exact (AList.lookup_insert_ne hapart.paths).trans h.written
    · rw [AList.lookup_insert]
      exact hload
  refine (AtomicFileCommit.write_meets_of_temps startsWithRename (allowsTemps hapart)
    (fun _ files h => hinstall files h) fun _ files h _ => Or.inr (hinstall files h)).consequence
    (fun _ => id) (fun _ _ => id) fun _ _ h => h.mono fun _ => Or.imp_left IsWithOutput.toIsBefore

/-! ### The publication -/

theorem enterPhase_meets {condition : FileSystem → Prop} (phase : ProgressPhase) (what : String) :
    Meets (Keeps setting.guarantee condition) (enterPhase phase what)
      (fun _ => Keeps setting.guarantee condition)
      (fun _ => Keeps setting.guarantee condition) := by
  intro world h
  rw [enterPhase]
  cases world.tracker with
  | none => exact h
  | some tracker =>
      by_cases hentered : (tracker.transitionTo phase).1 = true
      · simp only [if_pos hentered]
        exact ⟨h.kept, h.environment, h.condition⟩
      · simp only [if_neg hentered]
        exact ⟨h.kept, h.environment, h.condition⟩

theorem publishManifest_meets (hapart : setting.IsApart) :
    Meets (Keeps setting.guarantee setting.IsWithOutput)
      (publishManifest setting.config setting.surroundings setting.result)
      (fun _ => Keeps setting.guarantee setting.IsBehind)
      (fun _ => Keeps setting.guarantee fun files =>
        setting.IsBefore files ∨ setting.IsBehind files) := by
  have hbefore (error : Error) (world : World)
      (h : world.Keeps setting.guarantee setting.IsWithOutput) :
      world.Keeps setting.guarantee fun files => setting.IsBefore files ∨ setting.IsBehind files :=
    h.mono fun _ hfiles => Or.inl hfiles.toIsBefore
  rw [publishManifest]
  simp only [Action.liftM_eq]
  refine Meets.bind ((enterPhase_meets _ _).consequence (fun _ => id) (fun _ _ => id) hbefore)
    fun _ => ?_
  refine Meets.bind (verifyOutput_meets.consequence (fun _ => id) (fun _ _ => id) hbefore)
    fun run => Meets.of_pre fun hrun => ?_
  refine Meets.bind (Action.ofExcept_meets fun error world _ => hbefore error world) fun manifest =>
    Meets.of_pre fun hmanifest => ?_
  exact save_meets hapart (hrun.isManifestOf hmanifest)

/-- What a publication leaves when it returns. -/
structure IsDone (setting : Setting) (files : FileSystem) : Prop where
  standing : setting.standing files
  written : IsWritten setting.config setting.result files
  published : setting.config.verificationEnabled = true →
    IsPublished setting.config setting.surroundings setting.result files

theorem publish_meets (hapart : setting.IsApart) :
    Meets (Keeps setting.guarantee setting.IsBefore)
      (publish setting.config setting.surroundings setting.result)
      (fun _ => Keeps setting.guarantee setting.IsDone)
      (fun _ => Keeps setting.guarantee setting.standing) := by
  rw [publish]
  refine Meets.bind ((enterPhase_meets _ _).consequence (fun _ => id) (fun _ _ => id)
    fun _ _ h => h.mono fun _ => IsBefore.standing) fun _ => ?_
  refine Meets.bind ((writeOutput_meets hapart).consequence (fun _ => id) (fun _ _ => id)
    fun _ _ h => h.mono fun _ => IsBefore.standing) fun _ => ?_
  have hcompleted : Meets (Keeps setting.guarantee setting.IsDone)
      (enterPhase .completed "Cannot complete progress lifecycle")
      (fun _ => Keeps setting.guarantee setting.IsDone)
      (fun _ => Keeps setting.guarantee setting.standing) :=
    (enterPhase_meets _ _).consequence (fun _ => id) (fun _ _ => id)
      fun _ _ h => h.mono fun _ => IsDone.standing
  refine Meets.ite (fun _ => ?_) fun hdisabled => ?_
  · refine Meets.bind (publishManifest_meets hapart |>.consequence (fun _ => id)
      (fun _ _ => id) fun _ _ h => h.mono fun _ hfiles => ?_) fun _ => ?_
    · exact hfiles.elim IsBefore.standing IsBehind.standing
    · exact hcompleted.strengthen fun _ h => h.mono fun _ hfiles =>
        ⟨hfiles.standing, hfiles.published.output, fun _ => hfiles.published⟩
  · exact hcompleted.strengthen fun _ h => h.mono fun _ hfiles =>
      ⟨hfiles.standing, hfiles.written, fun henabled => absurd henabled hdisabled⟩

end Setting

/-! ## All or nothing -/

/-- What a publication leaves of the files, whatever was recorded before it. -/
theorem Setting.publish_leaves {setting : Setting} (hapart : setting.IsApart) {world : World}
    (henvironment : world.environment = setting.environment)
    (hbefore : setting.IsBefore world.files) {left : World}
    (hleft : left = stateAfter
      (publish setting.config setting.surroundings setting.result) world) :
    ∃ newer, left.trace = newer ++ world.trace ∧ left.environment = setting.environment ∧
      (∀ step ∈ newer, setting.IsBefore step.files ∨ setting.IsBehind step.files) ∧
      setting.standing left.files ∧
      ∀ u after, publish setting.config setting.surroundings setting.result world = .ok u after →
        setting.IsDone left.files := by
  obtain ⟨fresh, hfresh⟩ : ∃ fresh : World, fresh = { world with trace := [] } := ⟨_, rfl⟩
  have hworld : world = World.aside world.trace id fresh := by rw [hfresh]; rfl
  have hmeets := publish_meets hapart fresh
    ⟨hfresh ▸ .nil fun _ => Or.inl hbefore, hfresh ▸ henvironment, hfresh ▸ hbefore⟩
  have hpast {last : World} {condition : FileSystem → Prop}
      (hkeeps : last.Keeps setting.guarantee condition) (step : FileStep)
      (hmem : step ∈ last.trace) : setting.IsBefore step.files ∨ setting.IsBehind step.files := by
    obtain ⟨newer, older, htrace⟩ := List.append_of_mem hmem
    exact hkeeps.kept.past step older ⟨newer, htrace.symm⟩ (Or.inl trivial)
  have hrun : publish setting.config setting.surroundings setting.result world =
      mapState (World.aside world.trace id)
        (publish setting.config setting.surroundings setting.result fresh) := by
    rw [← publish_commutes fresh, ← hworld]
  rw [stateAfter, hrun] at hleft
  rw [hrun]
  cases hpublish : publish setting.config setting.surroundings setting.result fresh with
  | ok u last =>
      rw [hpublish] at hmeets hleft
      rw [hleft]
      exact ⟨last.trace, rfl, hmeets.environment, hpast hmeets, hmeets.condition.standing,
        fun _ _ _ => hmeets.condition⟩
  | error e last =>
      rw [hpublish] at hmeets hleft
      rw [hleft]
      refine ⟨last.trace, rfl, hmeets.environment, hpast hmeets, hmeets.condition, ?_⟩
      intro u after hok
      cases hok

/-- Wherever a publication is cut or fails, the manifest is still the one that was there before it,
or the output file holds the whole result and the manifest beside it is one of a result that
passes; no other file with a final name was changed. A publication that returns has written the
output, and has published it where the verification is enabled. -/
theorem publish_isAllOrNothing {config : Config} (surroundings : Surroundings)
    (result : PiCalculationResult) (hpaths : outputPath config ≠ manifestPath config)
    (world : World) :
    ∃ newer, (stateAfter (publish config surroundings result) world).trace = newer ++ world.trace ∧
      (∀ step ∈ newer,
        (∀ path, IsElsewhere config path → step.files.lookup path = world.files.lookup path) ∧
        (step.files.lookup (manifestPath config) = world.files.lookup (manifestPath config) ∨
          IsPublished config surroundings result step.files)) ∧
      ∀ u left, publish config surroundings result world = .ok u left →
        IsWritten config result left.files ∧
          (config.verificationEnabled = true →
            IsPublished config surroundings result left.files) := by
  obtain ⟨setting, hsetting⟩ : ∃ setting : Setting, setting =
      ⟨config, surroundings, result, world.environment, fun files =>
        ∀ path, IsElsewhere config path → files.lookup path = world.files.lookup path,
        world.files.lookup (manifestPath config)⟩ := ⟨_, rfl⟩
  have hapart : setting.IsApart := by
    rw [hsetting]
    refine ⟨fun files files' hagrees hfiles path hpath => ?_, hpaths⟩
    exact (hagrees path hpath).trans (hfiles path hpath)
  have hbefore : setting.IsBefore world.files := by
    rw [hsetting]
    exact ⟨fun _ _ => rfl, rfl⟩
  obtain ⟨newer, htrace, -, hsteps, -, hdone⟩ :=
    Setting.publish_leaves hapart (by rw [hsetting]) hbefore rfl
  rw [hsetting] at htrace hsteps hdone
  refine ⟨newer, htrace, fun step hmem => ?_, fun u left hok => ?_⟩
  · rcases hsteps step hmem with h | h
    · exact ⟨h.standing, Or.inl h.found⟩
    · exact ⟨h.standing, Or.inr h.published⟩
  · have hleft := hdone u left hok
    rw [stateAfter, hok] at hleft
    exact ⟨hleft.written, hleft.published⟩

/-! ### Ten digits -/

def tenDigitsConfig : Config :=
  { digits := 10, outOfCoreEnabled := false }

def tenDigitsResult : PiCalculationResult :=
  ⟨⟨10, 32, 42, 4, 211⟩, "3.1415926536"⟩

def firstSurroundings : Surroundings :=
  ⟨FinalVerifier.firstHexDigits, .whole, 1⟩

/-- A world without files, in which every change fails after it took place. -/
def failingWorld : World :=
  World.start ⟨fun _ => .failedAfter, id, fun _ => 0, 7, 255⟩ ∅ none

theorem publish_isAllOrNothing_ten :
    ∃ newer, (stateAfter (publish tenDigitsConfig firstSurroundings tenDigitsResult)
        failingWorld).trace = newer ++ failingWorld.trace ∧
      (∀ step ∈ newer,
        (∀ path, IsElsewhere tenDigitsConfig path →
          step.files.lookup path = failingWorld.files.lookup path) ∧
        (step.files.lookup (manifestPath tenDigitsConfig) =
            failingWorld.files.lookup (manifestPath tenDigitsConfig) ∨
          IsPublished tenDigitsConfig firstSurroundings tenDigitsResult step.files)) ∧
      ∀ u left, publish tenDigitsConfig firstSurroundings tenDigitsResult failingWorld =
          .ok u left →
        IsWritten tenDigitsConfig tenDigitsResult left.files ∧
          (tenDigitsConfig.verificationEnabled = true →
            IsPublished tenDigitsConfig firstSurroundings tenDigitsResult left.files) :=
  publish_isAllOrNothing firstSurroundings tenDigitsResult (by decide) failingWorld

/-! ## Publications that return -/

/-- The files are in a condition, and the progress in a phase. -/
structure IsOn (environment : Environment) (phase : ProgressPhase) (condition : FileSystem → Prop)
    (world : World) : Prop where
  isIn : world.IsIn environment condition
  tracker : ∃ tracker, world.tracker = some tracker ∧ tracker.phase = phase

section

variable {environment : Environment} {phase next : ProgressPhase}
  {condition post : FileSystem → Prop}

/-- What does not see the tracker leaves it. -/
theorem IsOn.of_commutes {α : Type} {program : Action World α}
    (hcommutes : ∀ tracker, Commutes (World.aside [] fun _ => tracker) program)
    (h : Meets (World.IsIn environment condition) program (fun _ => World.IsIn environment post)
      (fun _ _ => False)) :
    Meets (IsOn environment phase condition) program (fun _ => IsOn environment phase post)
      (fun _ _ => False) := by
  intro world hworld
  have hrun := h world hworld.isIn
  have hsame : World.aside [] (fun _ => world.tracker) world = world := by
    simp only [World.aside, List.append_nil]
  have hmap := hcommutes world.tracker world
  rw [hsame] at hmap
  cases hprogram : program world with
  | ok a left =>
      rw [hprogram] at hrun hmap
      refine ⟨hrun, ?_⟩
      have hleft : left.tracker = world.tracker := by
        rw [mapState, EStateM.Result.ok.injEq] at hmap
        rw [hmap.2]
        rfl
      rw [hleft]
      exact hworld.tracker
  | error e left =>
      rw [hprogram] at hrun
      exact hrun.elim

theorem enterPhase_returns (hvalid : Progress.isValidTransition phase next = true) (what : String) :
    Meets (IsOn environment phase condition) (enterPhase next what)
      (fun _ => IsOn environment next condition) (fun _ _ => False) := by
  intro world h
  obtain ⟨tracker, htracker, rfl⟩ := h.tracker
  simp only [enterPhase, htracker, Progress.ProgressTracker.transitionTo, hvalid, if_true]
  exact ⟨⟨h.isIn.environment, h.isIn.condition⟩, _, rfl, rfl⟩

end

/-- Nothing hinders a publication: no change of a file fails, no temporary file of an earlier
process is in its way, the paths are those of files, and every opening delivers the whole file. -/
structure IsUnhindered (config : Config) (surroundings : Surroundings)
    (environment : Environment) : Prop where
  reliable : environment.IsReliable
  outputTemp : ¬ IsTempOf environment.processId (outputPath config)
  manifestTemp : ¬ IsTempOf environment.processId (manifestPath config)
  outputName : CheckpointManifestCodec.isPlainFilename (outputPath config).filename = true
  outputNamed : (outputPath config).filename ≠ ascii "." ∧ (outputPath config).filename ≠ ascii ".."
  outputShort : (outputPath config).filename.length ≤ 255
  manifestName : (manifestPath config).filename ≠ []
  deliveries : surroundings.deliveries = .whole
  time : surroundings.unixSeconds ≠ 0

section

variable {config : Config} {surroundings : Surroundings} {environment : Environment}
  {result : PiCalculationResult}

theorem IsUnhindered.outputFilename (h : IsUnhindered config surroundings environment) :
    ¬ ((outputPath config).filename = [] ∨ (outputPath config).filename = ascii "." ∨
      (outputPath config).filename = ascii "..") := by
  rintro (hempty | hdot | hdots)
  · have hname := h.outputName
    rw [hempty] at hname
    cases hname
  · exact h.outputNamed.1 hdot
  · exact h.outputNamed.2 hdots

/-- The output is written to the end. -/
theorem writeOutput_returns (h : IsUnhindered config surroundings environment) {bytes : Bytes}
    (hlength : bytes.length ≤ AtomicFileCommit.fileSizeMax) :
    Meets (World.IsIn environment (LacksTemps environment.processId))
      (writeOutput (outputPath config) bytes)
      (fun _ => World.IsIn environment fun files => LacksTemps environment.processId files ∧
        files.lookup (outputPath config) = some bytes)
      (fun _ _ => False) := by
  have hinsert (files : FileSystem) (content : Bytes)
      (hfiles : LacksTemps environment.processId files) :
      LacksTemps environment.processId (files.insert (outputPath config) content) ∧
        (files.insert (outputPath config) content).lookup (outputPath config) = some content := by
    refine ⟨fun path hpath => ?_, AList.lookup_insert files⟩
    rw [AList.lookup_insert_ne ?_]
    · exact hfiles path hpath
    · rintro rfl
      exact h.outputTemp hpath
  rw [writeOutput, openOutput, throwIf_neg h.outputFilename]
  simp only [Action.liftM_eq, Action.ofExcept_ok, pure_bind]
  refine Meets.bind_of (fun _ => World.IsIn environment fun files =>
    LacksTemps environment.processId files ∧ files.lookup (outputPath config) = some [])
    (Action.attempt_meets (fun _ _ => False) (World.perform_returns h.reliable fun files hfiles =>
      hinsert files [] hfiles) fun _ _ hfalse => hfalse.elim) fun _ => ?_
  refine Action.attempt_meets (fun _ _ => False) ?_ fun _ _ hfalse => hfalse.elim
  refine Meets.bind (AtomicFileCommit.writeAll_returns_of h.reliable
    (fun content files => LacksTemps environment.processId files ∧
      files.lookup (outputPath config) = some content)
    (fun files _ content hfiles => hinsert files content hfiles.1) bytes hlength) fun _ => ?_
  exact World.perform_returns h.reliable fun _ hfiles => hfiles

/-- A text that passes is verified. -/
theorem verifyOutput_returns (hdeliveries : surroundings.deliveries = .whole)
    {policy : BBPSamplePolicy}
    (hpolicy : BBPSamplePolicy.create config.bbpSampleCount.toNat = .ok policy)
    (hverified : IsVerified surroundings.series (verificationIdentity result.precision) policy
      (ascii result.decimal)) :
    ∃ run, FinalVerifier.HasPassed (verificationIdentity result.precision) policy run ∧
      run.report.status = .passed ∧ ∀ world : World, IsWritten config result world.files →
        verifyOutput config surroundings result.precision world = .ok run world := by
  obtain ⟨run, digest, hrun, hpassed, -⟩ := hverified.passes
  refine ⟨run, FinalVerifier.hasPassed_of_verifyFile hrun hpassed, hpassed, fun world hwritten => ?_⟩
  rw [verifyOutput, hpolicy]
  simp only [Action.liftM_eq, Action.ofExcept_ok, pure_bind, Library.Program.get_bind]
  rw [hwritten, hdeliveries, hrun]
  simp only [Action.ofExcept_ok, pure_bind, hpassed, ne_eq, not_true_eq_false, not_false_eq_true,
    throwIf_neg, Library.Program.pure_apply]

/-- The manifest of a text that passes is committed. -/
theorem publishManifest_returns (h : IsUnhindered config surroundings environment)
    {policy : BBPSamplePolicy}
    (hpolicy : BBPSamplePolicy.create config.bbpSampleCount.toNat = .ok policy)
    (hverified : IsVerified surroundings.series (verificationIdentity result.precision) policy
      (ascii result.decimal)) :
    Meets (IsOn environment .writingOutput fun files =>
        LacksTemps environment.processId files ∧ IsWritten config result files)
      (publishManifest config surroundings result)
      (fun _ => IsOn environment .verifyingOutput (LacksTemps environment.processId))
      (fun _ _ => False) := by
  obtain ⟨run, hrun, hpassed, hverify⟩ := verifyOutput_returns h.deliveries hpolicy hverified
  have hcount : UInt64.ofNat (ascii result.decimal).length =
      (verificationIdentity result.precision).requestedDigits + 2 := by
    rw [hverified.canonical.length_eq, UInt64.ofNat_add, UInt64.ofNat_toNat]
    rfl
  obtain ⟨manifest, hmanifest, hvalid⟩ := hrun.exists_manifest hpassed h.outputName h.outputShort
    h.time
  have hencode : VerificationManifestCodec.encode manifest =
      .ok (VerificationManifestCodec.manifestBytes manifest) :=
    VerificationManifestCodec.encode_eq_ok_iff.mpr ⟨rfl, hvalid⟩
  have hlength := (VerificationManifestStore.load_of_encode hencode).2
  rw [publishManifest]
  refine Meets.bind (enterPhase_returns rfl _) fun _ => ?_
  refine Meets.bind_of (fun found world => found = run ∧ IsOn environment .verifyingOutput
    (LacksTemps environment.processId) world) (fun world hworld => ?_) fun found =>
      Meets.of_pre fun hfound => ?_
  · rw [hverify world hworld.isIn.condition.2]
    exact ⟨rfl, ⟨hworld.isIn.environment, hworld.isIn.condition.1⟩, hworld.tracker⟩
  · rw [hfound, hcount, hmanifest]
    simp only [VerificationManifestStore.save, hencode, Action.liftM_eq, Action.ofExcept_ok,
      pure_bind]
    refine IsOn.of_commutes (fun _ => AtomicFileCommit.write_commutes _ _)
      (AtomicFileCommit.write_returns h.reliable h.manifestName h.manifestTemp ?_)
    exact hlength.trans (by decide)

/-- A publication that nothing hinders returns when the verification is disabled or passes. -/
theorem publish_returns (h : IsUnhindered config surroundings environment)
    (hlength : (ascii result.decimal ++ [10]).length ≤ AtomicFileCommit.fileSizeMax)
    (hverified : config.verificationEnabled = true → ∃ policy,
      BBPSamplePolicy.create config.bbpSampleCount.toNat = .ok policy ∧
        IsVerified surroundings.series (verificationIdentity result.precision) policy
          (ascii result.decimal)) :
    Meets (IsOn environment .finalizing (LacksTemps environment.processId))
      (publish config surroundings result)
      (fun _ => IsOn environment .completed fun _ => True) (fun _ _ => False) := by
  have hforget (phase : ProgressPhase) (condition : FileSystem → Prop) (world : World)
      (hworld : IsOn environment phase condition world) :
      IsOn environment phase (fun _ => True) world :=
    ⟨hworld.isIn.mono fun _ _ => trivial, hworld.tracker⟩
  rw [publish]
  refine Meets.bind (enterPhase_returns rfl _) fun _ => ?_
  refine Meets.bind (IsOn.of_commutes (fun _ => writeOutput_commutes _ _)
    (writeOutput_returns h hlength)) fun _ => ?_
  refine Meets.ite (fun henabled => ?_) fun _ => ?_
  · obtain ⟨policy, hpolicy, hpasses⟩ := hverified henabled
    refine Meets.bind (publishManifest_returns h hpolicy hpasses) fun _ => ?_
    exact (enterPhase_returns rfl _).strengthen fun world hworld => hforget _ _ world hworld
  · exact (enterPhase_returns rfl _).strengthen fun world hworld => hforget _ _ world hworld

end

end Main

end GiveMePi
