import GiveMePi.Checkpoint.CheckpointManifestValidator
import GiveMePi.Checkpoint.CheckpointQuarantine
import GiveMePi.Checkpoint.ModularPQTVerifier

/-! # The plan of a resumed computation

The planner takes over the blocks that the manifest names and that pass every check, moves the other
checkpoint files away and plans the rest of the terms anew. -/

namespace GiveMePi.Checkpoint

structure AcceptedCheckpoint where
  path : Path
  fileSize : UInt64
  block : CheckpointBlock
  manifestEntry : ManifestEntry
deriving DecidableEq, Repr

structure RejectedCheckpoint where
  path : Path
  validation : ValidationResult
  quarantinedPath : Option Path
  quarantineOperation : Option ValidationResult

structure CheckpointResumePlan where
  acceptedBlocks : List AcceptedCheckpoint
  rangesToRecalculate : List MissingRange
  rejectedBlocks : List RejectedCheckpoint
  ignoredTemporaryFiles : List Path
  diagnostics : List ValidationDiagnostic

namespace CheckpointResumePlanner

/-- The loop over the locations in the order of their starts. -/
def complementFrom (termCount : UInt64) : UInt64 → List BlockLocation → List MissingRange
  | cursor, [] => if cursor < termCount then [⟨cursor, termCount⟩] else []
  | cursor, location :: rest =>
      (if cursor < location.start then [⟨cursor, location.start⟩] else []) ++
        complementFrom termCount (max cursor location.stop) rest

def complement (accepted : List AcceptedCheckpoint) (termCount : UInt64) : List MissingRange :=
  complementFrom termCount 0
    ((accepted.map fun checkpoint => checkpoint.block.location).mergeSort
      fun left right => left.start ≤ right.start)

/-- The plan as far as it is made, and the paths that are dealt with. -/
structure Progress where
  plan : CheckpointResumePlan
  processedPaths : List Path

namespace Progress

def addDiagnostics (progress : Progress) (diagnostics : List ValidationDiagnostic) : Progress :=
  { progress with
    plan := { progress.plan with diagnostics := progress.plan.diagnostics ++ diagnostics } }

def addRejected (progress : Progress) (rejected : RejectedCheckpoint) : Progress :=
  { progress with
    plan := { progress.plan with rejectedBlocks := progress.plan.rejectedBlocks ++ [rejected] } }

def addAccepted (progress : Progress) (accepted : AcceptedCheckpoint) : Progress where
  plan := { progress.plan with acceptedBlocks := progress.plan.acceptedBlocks ++ [accepted] }
  processedPaths := accepted.path :: progress.processedPaths

def addIgnored (progress : Progress) (path : Path) : Progress :=
  { progress with
    plan :=
      { progress.plan with
        ignoredTemporaryFiles := progress.plan.ignoredTemporaryFiles ++ [path] } }

end Progress

/-- `rejectFile`; every caller lets the file be quarantined. -/
def rejectFile (quarantineDirectory : Bytes) (path : Path) (validation : ValidationResult)
    (progress : Progress) : Action World Progress :=
  if path ∈ progress.processedPaths then pure progress
  else do
    let progress := { progress with processedPaths := path :: progress.processedPaths }
    let found ← World.exists_ path
    if found then do
      let outcome ← CheckpointQuarantine.quarantine quarantineDirectory path validation
      let progress :=
        if outcome.operation.isAccepted then progress
        else progress.addDiagnostics outcome.operation.diagnostics
      pure ((progress.addDiagnostics validation.diagnostics).addRejected
        ⟨path, validation, outcome.quarantinedPath, some outcome.operation⟩)
    else
      pure ((progress.addDiagnostics validation.diagnostics).addRejected
        ⟨path, validation, none, none⟩)

/-- The loop over the entries that the manifest validator did not accept. -/
def rejectEntries (checkpointDirectory quarantineDirectory : Bytes)
    (validation : CheckpointManifestValidation) :
    List ManifestEntry → Progress → Action World Progress
  | [], progress => pure progress
  | entry :: rest, progress =>
      if entry ∈ validation.acceptedEntries then
        rejectEntries checkpointDirectory quarantineDirectory validation rest progress
      else do
        let progress ← rejectFile quarantineDirectory ⟨checkpointDirectory, entry.filename⟩
          validation.validation progress
        rejectEntries checkpointDirectory quarantineDirectory validation rest progress

/-- The checks of one entry: what is accepted, or why it is rejected. -/
def examineEntry (files : FileSystem) (path : Path) (expectedIdentity : ComputationIdentity)
    (entry : ManifestEntry) : Except ValidationResult AcceptedCheckpoint :=
  let inspection := CheckpointFileInspector.inspect files path expectedIdentity
  match inspection.file with
  | none => .error inspection.validation
  | some file =>
      if inspection.validation.isAccepted = false then .error inspection.validation
      else
        let entryValidation := ManifestEntryValidator.validate entry file expectedIdentity
        if entryValidation.isAccepted = false then .error entryValidation
        else
          let modular := ModularPQTVerifier.validate file.block
          if modular.isAccepted = false then .error modular
          else .ok ⟨path, file.fileSize, file.block, entry⟩

/-- One step of the loop over the entries that the manifest validator accepted. -/
def acceptEntry (checkpointDirectory quarantineDirectory : Bytes)
    (expectedIdentity : ComputationIdentity) (entry : ManifestEntry) (progress : Progress) :
    Action World Progress := do
  let path : Path := ⟨checkpointDirectory, entry.filename⟩
  let world ← get
  match examineEntry world.files path expectedIdentity entry with
  | .error validation => rejectFile quarantineDirectory path validation progress
  | .ok accepted => pure (progress.addAccepted accepted)

/-- The loop over these entries. -/
def acceptEntries (checkpointDirectory quarantineDirectory : Bytes)
    (expectedIdentity : ComputationIdentity) :
    List ManifestEntry → Progress → Action World Progress
  | [], progress => pure progress
  | entry :: rest, progress => do
      let progress ← acceptEntry checkpointDirectory quarantineDirectory expectedIdentity entry
        progress
      acceptEntries checkpointDirectory quarantineDirectory expectedIdentity rest progress

/-- One step of the loop over the files of the directory. -/
def sweepCandidate (quarantineDirectory : Bytes) (manifestFilenames : List Bytes) (path : Path)
    (progress : Progress) : Action World Progress :=
  if CheckpointFileInspector.isTemporary path then pure (progress.addIgnored path)
  else if path.extension = ascii ".checkpoint" ∧ path.filename ∉ manifestFilenames then
    rejectFile quarantineDirectory path
      (.rejectedFor .manifest .unexpectedBlockFile
        "Checkpoint file is not a member of the manifest") progress
  else pure progress

/-- The loop over these files. -/
def sweepCandidates (quarantineDirectory : Bytes) (manifestFilenames : List Bytes) :
    List Path → Progress → Action World Progress
  | [], progress => pure progress
  | path :: rest, progress => do
      let progress ← sweepCandidate quarantineDirectory manifestFilenames path progress
      sweepCandidates quarantineDirectory manifestFilenames rest progress

/-- The manifest of the directory, if it can be loaded, and what it failed with otherwise. -/
def loadManifest (files : FileSystem) (checkpointDirectory : Bytes)
    (expectedIdentity : ComputationIdentity) :
    Bool × CheckpointManifest × List ValidationDiagnostic :=
  match CheckpointStore.loadManifest files checkpointDirectory expectedIdentity with
  | .ok manifest => (true, manifest, [])
  | .error error =>
      (false, ⟨expectedIdentity, []⟩, [⟨.manifest, .invalidManifest, error.what⟩])

/-- The last lines of `create`: the accepted blocks in order, and what they leave to calculate. -/
def finish (expectedIdentity : ComputationIdentity) (plan : CheckpointResumePlan) :
    CheckpointResumePlan :=
  let accepted := plan.acceptedBlocks.mergeSort fun left right =>
    left.block.location.start ≤ right.block.location.start
  { plan with
    acceptedBlocks := accepted
    rangesToRecalculate := complement accepted expectedIdentity.termCount }

/-- What is made of the entries of a manifest that could be loaded. -/
def takeEntries (checkpointDirectory quarantineDirectory : Bytes)
    (expectedIdentity : ComputationIdentity) (manifest : CheckpointManifest)
    (validation : CheckpointManifestValidation) (progress : Progress) : Action World Progress := do
  let progress ← rejectEntries checkpointDirectory quarantineDirectory validation manifest.entries
    progress
  acceptEntries checkpointDirectory quarantineDirectory expectedIdentity
    validation.acceptedEntries progress

/-- `create`, after the constructor's check of the directories. -/
def create (checkpointDirectory quarantineDirectory : Bytes)
    (expectedIdentity : ComputationIdentity) : Action World CheckpointResumePlan := do
  throwIf (checkpointDirectory = [] ∨ quarantineDirectory = [])
    (.invalidArgument "Resume planner directories must not be empty")
  let world ← get
  let (manifestLoaded, manifest, loadDiagnostics) :=
    loadManifest world.files checkpointDirectory expectedIdentity
  let validation := CheckpointManifestValidator.validate manifest expectedIdentity
  let progress : Progress :=
    ⟨⟨[], [], [], [], loadDiagnostics ++ validation.validation.diagnostics⟩, []⟩
  let progress ← (if manifestLoaded then
    takeEntries checkpointDirectory quarantineDirectory expectedIdentity manifest validation progress
    else pure progress)
  let world ← get
  let progress ← sweepCandidates quarantineDirectory
    (manifest.entries.map fun entry => entry.filename)
    (world.files.directoryEntries checkpointDirectory) progress
  pure (finish expectedIdentity progress.plan)

end CheckpointResumePlanner

end GiveMePi.Checkpoint
