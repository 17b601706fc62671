import GiveMePi.Checkpoint.AtomicFileCommit
import GiveMePi.Checkpoint.CheckpointFileInspector

/-! # The quarantine of rejected files

A rejected file is moved to the quarantine directory, next to a record of the reason. No failure
leaves the quarantine as an exception. -/

namespace GiveMePi.Checkpoint

structure QuarantineOutcome where
  operation : ValidationResult
  quarantinedPath : Option Path
  diagnosticPath : Option Path

namespace CheckpointQuarantine

def failure (detail : String) : ValidationResult :=
  .rejectedFor .quarantine .quarantineFailed detail

/-- The bytes of a text with its line ends made blanks. -/
def oneLine (value : Bytes) : Bytes :=
  value.map fun character => if character = 10 ∨ character = 13 then 32 else character

def maximumAttempts : ℕ := 128

def candidatePath (directory : Bytes) (source : Path) (reason : RejectionReason)
    (processId sequence : ℕ) : Path where
  directory := directory
  filename := source.filename ++ ascii ".rejected." ++ ascii reason.toString ++ ascii "." ++
    decimal processId ++ ascii "." ++ decimal sequence

/-- The loop over the attempts that are left: a name that exists is skipped. -/
def uniqueDestination (directory : Bytes) (source : Path) (reason : RejectionReason) :
    ℕ → Action World Path
  | 0 => throw (.runtimeError "Unable to allocate a unique quarantine path")
  | attempts + 1 => do
      let sequence ← World.nextQuarantineSequence
      let world ← get
      let candidate := candidatePath directory source reason world.environment.processId sequence
      let found ← World.exists_ candidate
      if found then uniqueDestination directory source reason attempts
      else pure candidate

/-- The path of the record of a quarantined file. -/
def diagnosticPath (destination : Path) : Path :=
  { destination with filename := destination.filename ++ ascii ".reason" }

def recordBytes (source : Path) (primary : ValidationDiagnostic) : Bytes :=
  ascii "original=" ++ oneLine (source.directory ++ ascii "/" ++ source.filename) ++ ascii "\n"
    ++ ascii "stage=" ++ ascii primary.stage.toString ++ ascii "\n"
    ++ ascii "reason=" ++ ascii primary.reason.toString ++ ascii "\n"
    ++ ascii "detail=" ++ oneLine (ascii primary.detail) ++ ascii "\n"

/-- The record is written before the file is moved, and removed again when it cannot be. -/
def recordAndMove (source destination : Path) (primary : ValidationDiagnostic) :
    Action World Unit := do
  AtomicFileCommit.write (diagnosticPath destination) (recordBytes source primary)
  Action.attempt (World.rename source destination "rename checkpoint to quarantine") fun error => do
    World.removeQuietly (diagnosticPath destination)
    throw error

def syncDirectories (directory : Bytes) (source : Path) : Action World Unit := do
  World.perform (.syncDirectory source.directory) id "sync quarantine directory"
  if source.directory ≠ directory then
    World.perform (.syncDirectory directory) id "sync quarantine directory"

/-- What is caught before the file has moved names no path. -/
def move (directory : Bytes) (source : Path) (primary : ValidationDiagnostic) :
    Action World QuarantineOutcome :=
  Action.attempt (do
    World.createDirectories directory
    let destination ← uniqueDestination directory source primary.reason maximumAttempts
    recordAndMove source destination primary
    Action.attempt (do
      syncDirectories directory source
      pure ⟨.accepted, some destination, some (diagnosticPath destination)⟩) fun error =>
        pure ⟨failure error.what, some destination, some (diagnosticPath destination)⟩)
    fun error => pure ⟨failure error.what, none, none⟩

def quarantine (directory : Bytes) (source : Path) (rejection : ValidationResult) :
    Action World QuarantineOutcome :=
  if CheckpointFileInspector.isTemporary source then
    pure ⟨.ignored .temporaryFile "Temporary checkpoint file is ignored, not quarantined", none,
      none⟩
  else if rejection.isRejected = false then
    pure ⟨failure "Only a rejected checkpoint can be quarantined", none, none⟩
  else match rejection.diagnostics with
    | [] => pure ⟨failure "Only a rejected checkpoint can be quarantined", none, none⟩
    | primary :: _ => move directory source primary

end CheckpointQuarantine

end GiveMePi.Checkpoint
