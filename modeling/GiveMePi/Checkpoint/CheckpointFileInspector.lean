import GiveMePi.Checkpoint.CheckpointBlockValidator
import GiveMePi.Checkpoint.CheckpointStore

/-! # Files of a checkpoint directory as blocks

A file is looked at by itself, and then against the manifest entry that names it. -/

namespace GiveMePi.Checkpoint

structure InspectedCheckpointFile where
  path : Path
  fileSize : UInt64
  payloadSize : UInt64
  checksumAlgorithm : ChecksumAlgorithm
  checksum : UInt32
  block : CheckpointBlock
deriving DecidableEq, Repr

structure CheckpointFileInspection where
  validation : ValidationResult
  file : Option InspectedCheckpointFile

namespace CheckpointFileInspection

def hasAcceptedFile (inspection : CheckpointFileInspection) : Bool :=
  inspection.validation.isAccepted && inspection.file.isSome

end CheckpointFileInspection

namespace CheckpointFileInspector

def isTemporary (path : Path) : Bool :=
  Path.contains path.filename (ascii ".tmp.")

def rejected (stage : ValidationStage) (reason : RejectionReason) (detail : String) :
    CheckpointFileInspection :=
  ⟨.rejectedFor stage reason detail, none⟩

def inspect (files : FileSystem) (path : Path) (expectedIdentity : ComputationIdentity) :
    CheckpointFileInspection :=
  if isTemporary path then
    ⟨.ignored .temporaryFile "Incomplete checkpoint temp file", none⟩
  else if path.extension ≠ ascii ".checkpoint" then
    rejected .discovery .unexpectedBlockFile
      "Candidate does not use the final checkpoint extension"
  else match files.lookup path with
    | none => rejected .discovery .fileReadFailed "cannot get file size"
    | some bytes =>
        if bytes.length > AtomicFileCommit.fileSizeMax then
          rejected .discovery .fileReadFailed "Checkpoint file exceeds supported memory limits"
        else
          let blockValidation := CheckpointBlockValidator.validate bytes expectedIdentity
          match blockValidation.block with
          | none => ⟨blockValidation.validation, none⟩
          | some validated =>
              if blockValidation.validation.isAccepted = false then
                ⟨blockValidation.validation, none⟩
              else
                ⟨.accepted,
                  some
                    { path := path
                      fileSize := validated.encodedSize
                      payloadSize := validated.payloadSize
                      checksumAlgorithm := validated.checksumAlgorithm
                      checksum := validated.checksum
                      block := validated.block }⟩

end CheckpointFileInspector

namespace ManifestEntryValidator

/-- `if (condition) add(diagnostics, reason, detail);` -/
def addIf (condition : Prop) [Decidable condition] (reason : RejectionReason) (detail : String) :
    List ValidationDiagnostic :=
  if condition then [⟨.manifest, reason, detail⟩] else []

def rangeDiagnostics (entry : ManifestEntry) (manifestIdentity : ComputationIdentity) :
    List ValidationDiagnostic :=
  match (do manifestIdentity.validate; entry.location.validate manifestIdentity :
      Except Error Unit) with
  | .error error => [⟨.manifest, .invalidRange, error.what⟩]
  | .ok _ => []

def filenameDiagnostics (entry : ManifestEntry) (file : InspectedCheckpointFile)
    (manifestIdentity : ComputationIdentity) : List ValidationDiagnostic :=
  match CheckpointStore.blockPath file.path.directory manifestIdentity entry.location with
  | .error error => [⟨.manifest, .filenameMismatch, error.what⟩]
  | .ok path =>
      addIf (entry.filename ≠ path.filename) .filenameMismatch
        "Manifest filename is not deterministic for its identity and location"

def validate (entry : ManifestEntry) (file : InspectedCheckpointFile)
    (manifestIdentity : ComputationIdentity) : ValidationResult :=
  .ofDiagnostics
    (rangeDiagnostics entry manifestIdentity ++
      addIf (file.block.identity ≠ manifestIdentity) .manifestIdentityMismatch
        "Block identity differs from manifest identity" ++
      addIf (file.block.location ≠ entry.location) .locationMismatch
        "Block range or tree level differs from manifest entry" ++
      addIf (entry.filename ≠ file.path.filename) .filenameMismatch
        "Manifest filename differs from the inspected file" ++
      filenameDiagnostics entry file manifestIdentity ++
      addIf (entry.payloadSize ≠ file.payloadSize) .sizeMismatch
        "Manifest payload size differs from the encoded P/Q/T payload" ++
      addIf (entry.checksumAlgorithm ≠ file.checksumAlgorithm ∨ entry.checksum ≠ file.checksum)
        .entryChecksumMismatch "Manifest checksum metadata differs from the block" ++
      addIf (entry.completion ≠ CompletionState.complete) .incompleteEntry
        "Manifest entry is not complete")

end ManifestEntryValidator

end GiveMePi.Checkpoint
