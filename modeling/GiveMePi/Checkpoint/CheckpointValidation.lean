import GiveMePi.Error

/-! # Results of validation -/

namespace GiveMePi.Checkpoint

inductive ValidationStatus where
  | accepted
  | rejected
  | ignored
deriving DecidableEq, Repr

inductive ValidationStage where
  | discovery
  | «structure»
  | compatibility
  | checksum
  | manifest
  | mathematics
  | quarantine
deriving DecidableEq, Repr

inductive RejectionReason where
  | temporaryFile
  | fileReadFailed
  | invalidMagic
  | unsupportedVersion
  | invalidIdentity
  | invalidRange
  | invalidTreeLevel
  | invalidPayloadLength
  | malformedBlock
  | nonCanonicalInteger
  | trailingBytes
  | checksumMetadataMismatch
  | checksumMismatch
  | invalidManifest
  | manifestIdentityMismatch
  | locationMismatch
  | missingManifestEntry
  | unexpectedBlockFile
  | filenameMismatch
  | sizeMismatch
  | entryChecksumMismatch
  | incompleteEntry
  | nonCanonicalOrder
  | duplicateRange
  | overlappingRange
  | missingRange
  | modularMismatch
  | quarantineFailed
deriving DecidableEq, Repr

structure ValidationDiagnostic where
  stage : ValidationStage
  reason : RejectionReason
  detail : String
deriving DecidableEq, Repr

/-- An accepted result has no diagnostics; any other one has some. -/
structure ValidationResult where
  status : ValidationStatus
  diagnostics : List ValidationDiagnostic
  accepted_iff : status = .accepted ↔ diagnostics = []

namespace ValidationResult

def accepted : ValidationResult :=
  ⟨.accepted, [], by simp⟩

def rejected (diagnostics : List ValidationDiagnostic) (h : diagnostics ≠ []) :
    ValidationResult :=
  ⟨.rejected, diagnostics, by simp [h]⟩

/-- The rejection with one diagnostic. -/
def rejectedFor (stage : ValidationStage) (reason : RejectionReason) (detail : String) :
    ValidationResult :=
  rejected [⟨stage, reason, detail⟩] (List.cons_ne_nil _ _)

def ignored (reason : RejectionReason) (detail : String) : ValidationResult :=
  ⟨.ignored, [⟨.discovery, reason, detail⟩], by simp⟩

/-- `diagnostics.empty() ? accepted() : rejected(diagnostics)` -/
def ofDiagnostics (diagnostics : List ValidationDiagnostic) : ValidationResult :=
  if h : diagnostics = [] then accepted else rejected diagnostics h

def isAccepted (result : ValidationResult) : Bool :=
  result.status = .accepted

def isRejected (result : ValidationResult) : Bool :=
  result.status = .rejected

@[simp] theorem isAccepted_accepted : accepted.isAccepted = true := rfl

@[simp] theorem isAccepted_rejectedFor (stage : ValidationStage) (reason : RejectionReason)
    (detail : String) : (rejectedFor stage reason detail).isAccepted = false := rfl

@[simp] theorem isAccepted_ignored (reason : RejectionReason) (detail : String) :
    (ignored reason detail).isAccepted = false := rfl

theorem isAccepted_iff {result : ValidationResult} :
    result.isAccepted = true ↔ result.diagnostics = [] := by
  rw [isAccepted, decide_eq_true_eq, result.accepted_iff]

@[simp] theorem diagnostics_ofDiagnostics (diagnostics : List ValidationDiagnostic) :
    (ofDiagnostics diagnostics).diagnostics = diagnostics := by
  rw [ofDiagnostics]
  split
  · next h => exact h.symm
  · rfl

theorem isAccepted_ofDiagnostics {diagnostics : List ValidationDiagnostic} :
    (ofDiagnostics diagnostics).isAccepted = true ↔ diagnostics = [] := by
  rw [isAccepted_iff, diagnostics_ofDiagnostics]

end ValidationResult

namespace ValidationStage

def toString : ValidationStage → String
  | discovery => "discovery"
  | «structure» => "structure"
  | compatibility => "compatibility"
  | checksum => "checksum"
  | manifest => "manifest"
  | mathematics => "mathematics"
  | quarantine => "quarantine"

end ValidationStage

namespace RejectionReason

def toString : RejectionReason → String
  | temporaryFile => "temporary_file"
  | fileReadFailed => "file_read_failed"
  | invalidMagic => "invalid_magic"
  | unsupportedVersion => "unsupported_version"
  | invalidIdentity => "invalid_identity"
  | invalidRange => "invalid_range"
  | invalidTreeLevel => "invalid_tree_level"
  | invalidPayloadLength => "invalid_payload_length"
  | malformedBlock => "malformed_block"
  | nonCanonicalInteger => "non_canonical_integer"
  | trailingBytes => "trailing_bytes"
  | checksumMetadataMismatch => "checksum_metadata_mismatch"
  | checksumMismatch => "checksum_mismatch"
  | invalidManifest => "invalid_manifest"
  | manifestIdentityMismatch => "manifest_identity_mismatch"
  | locationMismatch => "location_mismatch"
  | missingManifestEntry => "missing_manifest_entry"
  | unexpectedBlockFile => "unexpected_block_file"
  | filenameMismatch => "filename_mismatch"
  | sizeMismatch => "size_mismatch"
  | entryChecksumMismatch => "entry_checksum_mismatch"
  | incompleteEntry => "incomplete_entry"
  | nonCanonicalOrder => "non_canonical_order"
  | duplicateRange => "duplicate_range"
  | overlappingRange => "overlapping_range"
  | missingRange => "missing_range"
  | modularMismatch => "modular_mismatch"
  | quarantineFailed => "quarantine_failed"

end RejectionReason

end GiveMePi.Checkpoint
