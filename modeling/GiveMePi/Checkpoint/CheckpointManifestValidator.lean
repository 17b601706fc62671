import GiveMePi.Checkpoint.CheckpointManifest
import GiveMePi.Checkpoint.CheckpointValidation
import GiveMePi.Checkpoint.TreeLevel

/-! # The structure of a manifest

A manifest is accepted when its complete entries tile the terms of the computation. The entries that
are valid and overlap no other valid one are accepted in any case. -/

namespace GiveMePi.Checkpoint

structure MissingRange where
  start : UInt64
  stop : UInt64
deriving DecidableEq, Repr

structure CheckpointManifestValidation where
  validation : ValidationResult
  acceptedEntries : List ManifestEntry
  missingRanges : List MissingRange

namespace CheckpointManifestValidator

/-- The diagnostic `add` appends. -/
def diagnostic (reason : RejectionReason) (detail : String) : ValidationDiagnostic :=
  ⟨.manifest, reason, detail⟩

def maximumTreeLevel (termCount : UInt64) : UInt32 :=
  maximumTreeLevelFrom termCount 1 0 uint64_zero_lt_one

theorem maximumTreeLevel_eq (termCount : UInt64) :
    maximumTreeLevel termCount = Binary.maximumTreeLevel termCount :=
  maximumTreeLevelFrom_eq termCount 1 0 _

def identityDiagnostics (manifest : CheckpointManifest) (expectedIdentity : ComputationIdentity) :
    List ValidationDiagnostic :=
  match (do expectedIdentity.validate; manifest.identity.validate : Except Error Unit) with
  | .error error => [diagnostic .manifestIdentityMismatch error.what]
  | .ok _ =>
      if manifest.identity ≠ expectedIdentity then
        [diagnostic .manifestIdentityMismatch
          "Manifest identity differs from the target computation"]
      else []

/-- The loop over neighbours stops at the first pair out of order. -/
def orderDiagnostics : List ManifestEntry → List ValidationDiagnostic
  | left :: right :: rest =>
      if left.location ≥ right.location then
        [diagnostic .nonCanonicalOrder "Manifest entries are not in strict canonical order"]
      else orderDiagnostics (right :: rest)
  | _ => []

def rangeDiagnostics (expectedIdentity : ComputationIdentity) (entry : ManifestEntry) :
    List ValidationDiagnostic :=
  match entry.location.validate expectedIdentity with
  | .error error => [diagnostic .invalidRange error.what]
  | .ok _ => []

/-- What is wrong with an entry by itself. -/
def entryDiagnostics (expectedIdentity : ComputationIdentity) (entry : ManifestEntry) :
    List ValidationDiagnostic :=
  rangeDiagnostics expectedIdentity entry ++
  (if entry.location.treeLevel > maximumTreeLevel expectedIdentity.termCount then
    [diagnostic .invalidTreeLevel "Manifest entry tree level exceeds the computation tree"]
  else []) ++
  (if entry.completion ≠ CompletionState.complete then
    [diagnostic .incompleteEntry "Incomplete manifest entry cannot join the accepted frontier"]
  else [])

/-- The flags of the rejected entries, and the entry that reaches furthest with its index. -/
structure OverlapState where
  rejected : ℕ → Bool
  furthest : Option (ℕ × ManifestEntry)
  diagnostics : List ValidationDiagnostic

def overlapDiagnostic (entry furthest : ManifestEntry) : ValidationDiagnostic :=
  if entry.location.start = furthest.location.start ∧
      entry.location.stop = furthest.location.stop then
    diagnostic .duplicateRange "Multiple entries represent the same range"
  else diagnostic .overlappingRange "Manifest entry ranges overlap"

namespace OverlapState

/-- An entry that starts before the furthest end is rejected together with the furthest one. -/
def reject (state : OverlapState) (index : ℕ) (entry : ManifestEntry) : OverlapState :=
  match state.furthest with
  | none => state
  | some (furthestIndex, furthest) =>
      if entry.location.start < furthest.location.stop then
        { rejected := Function.update (Function.update state.rejected index true) furthestIndex true
          furthest := state.furthest
          diagnostics := state.diagnostics ++ [overlapDiagnostic entry furthest] }
      else state

def advance (state : OverlapState) (index : ℕ) (entry : ManifestEntry) : OverlapState :=
  match state.furthest with
  | none => { state with furthest := some (index, entry) }
  | some (_, furthest) =>
      if entry.location.stop > furthest.location.stop then
        { state with furthest := some (index, entry) }
      else state

def step (state : OverlapState) (index : ℕ) (entry : ManifestEntry) : OverlapState :=
  if state.rejected index then state else (state.reject index entry).advance index entry

/-- The loop over the sorted entries. -/
def run : ℕ → List ManifestEntry → OverlapState → OverlapState
  | _, [], state => state
  | index, entry :: rest, state => run (index + 1) rest (state.step index entry)

end OverlapState

/-- The gaps that entries in order leave from a cursor on. -/
def missingRanges (termCount : UInt64) : UInt64 → List ManifestEntry → List MissingRange
  | cursor, [] => if cursor < termCount then [⟨cursor, termCount⟩] else []
  | cursor, entry :: rest =>
      (if cursor < entry.location.start then [⟨cursor, entry.location.start⟩] else []) ++
        missingRanges termCount entry.location.stop rest

def missingDiagnostic (range : MissingRange) : ValidationDiagnostic :=
  diagnostic .missingRange
    ("Missing manifest range [" ++ toString range.start ++ ", " ++ toString range.stop ++ ")")

/-- The flags before overlaps are looked for. -/
def individuallyRejected (identityValid : Bool) (expectedIdentity : ComputationIdentity)
    (sorted : List ManifestEntry) (index : ℕ) : Bool :=
  match sorted[index]? with
  | none => !identityValid
  | some entry => !identityValid || !(entryDiagnostics expectedIdentity entry).isEmpty

/-- The entries whose flag is not set. -/
def selectEntries (sorted : List ManifestEntry) (rejected : ℕ → Bool) : List ManifestEntry :=
  sorted.zipIdx.filterMap fun (entry, index) => if rejected index then none else some entry

def validate (manifest : CheckpointManifest) (expectedIdentity : ComputationIdentity) :
    CheckpointManifestValidation :=
  let ofIdentity := identityDiagnostics manifest expectedIdentity
  let sorted := CheckpointManifestCodec.sortEntries manifest.entries
  let overlaps := OverlapState.run 0 sorted
    ⟨individuallyRejected ofIdentity.isEmpty expectedIdentity sorted, none, []⟩
  let accepted := selectEntries sorted overlaps.rejected
  let missing := missingRanges expectedIdentity.termCount 0 accepted
  { validation := ValidationResult.ofDiagnostics
      (ofIdentity ++ orderDiagnostics manifest.entries ++
        sorted.flatMap (entryDiagnostics expectedIdentity) ++ overlaps.diagnostics ++
          missing.map missingDiagnostic)
    acceptedEntries := accepted
    missingRanges := missing }

end CheckpointManifestValidator

end GiveMePi.Checkpoint
