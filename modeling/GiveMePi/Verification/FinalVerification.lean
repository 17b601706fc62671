import GiveMePi.Verification.VerificationManifest

/-! # The report of a final verification

The results of its stages, each with what was found, and the status they have together. How long a
stage took is left out. -/

namespace GiveMePi.Verification

inductive VerificationStage where
  | outputStructure
  | knownDigits
  | hash
  | bbp
  | manifest
deriving DecidableEq, Repr

inductive VerificationReason where
  | fileReadFailed
  | invalidOutputPrefix
  | invalidOutputLength
  | invalidOutputCharacter
  | trailingData
  | knownDigitsMismatch
  | hashMismatch
  | bbpMismatch
  | insufficientPrecision
  | unsupportedVersion
  | invalidManifest
  | operationFailed
deriving DecidableEq, Repr

structure VerificationDiagnostic where
  stage : VerificationStage
  reason : VerificationReason
  detail : String
  offset : Option UInt64
deriving DecidableEq, Repr

/-- The result of a stage, with diagnostics that fit its status. -/
structure VerificationCheckResult where
  stage : VerificationStage
  status : VerificationStatus
  diagnostics : List VerificationDiagnostic
  none_of_passed : ¬ (status = .passed ∧ diagnostics ≠ [])
  some_of_trouble : ¬ ((status = .failed ∨ status = .inconclusive) ∧ diagnostics = [])
  own_stage : ¬ ∃ diagnostic ∈ diagnostics, diagnostic.stage ≠ stage
deriving DecidableEq, Repr

namespace VerificationCheckResult

def create (stage : VerificationStage) (status : VerificationStatus)
    (diagnostics : List VerificationDiagnostic) : Except Error VerificationCheckResult :=
  if hpassed : status = .passed ∧ diagnostics ≠ [] then
    throw (.invalidArgument "Passed verification result cannot contain diagnostics")
  else if htrouble : (status = .failed ∨ status = .inconclusive) ∧ diagnostics = [] then
    throw (.invalidArgument "Failed or inconclusive verification requires diagnostics")
  else if hstage : ∃ diagnostic ∈ diagnostics, diagnostic.stage ≠ stage then
    throw (.invalidArgument "Verification diagnostic stage does not match its result")
  else
    pure ⟨stage, status, diagnostics, hpassed, htrouble, hstage⟩

def passed (stage : VerificationStage) : VerificationCheckResult :=
  ⟨stage, .passed, [], by simp, by simp, by simp⟩

def skipped (stage : VerificationStage) : VerificationCheckResult :=
  ⟨stage, .skipped, [], by simp, by simp, by simp⟩

def failed (stage : VerificationStage) (reason : VerificationReason) (detail : String)
    (offset : Option UInt64) : VerificationCheckResult :=
  ⟨stage, .failed, [⟨stage, reason, detail, offset⟩], by simp, by simp, by simp⟩

theorem create_eq_ok {stage : VerificationStage} {status : VerificationStatus}
    {diagnostics : List VerificationDiagnostic} (hpassed : ¬ (status = .passed ∧ diagnostics ≠ []))
    (htrouble : ¬ ((status = .failed ∨ status = .inconclusive) ∧ diagnostics = []))
    (hstage : ¬ ∃ diagnostic ∈ diagnostics, diagnostic.stage ≠ stage) :
    create stage status diagnostics =
      .ok ⟨stage, status, diagnostics, hpassed, htrouble, hstage⟩ := by
  rw [create, dif_neg hpassed, dif_neg htrouble, dif_neg hstage]
  rfl

theorem create_fields {stage : VerificationStage} {status : VerificationStatus}
    {diagnostics : List VerificationDiagnostic} {result : VerificationCheckResult}
    (h : create stage status diagnostics = .ok result) :
    result.stage = stage ∧ result.status = status ∧ result.diagnostics = diagnostics := by
  unfold create at h
  split_ifs at h
  cases h
  exact ⟨rfl, rfl, rfl⟩

end VerificationCheckResult

/-- What a report asks of an identity. -/
structure VerificationIdentity.IsValid (identity : VerificationIdentity) : Prop where
  requestedDigits : identity.requestedDigits ≠ 0
  workingDigits : identity.requestedDigits ≤ identity.workingDigits
  termCount : identity.termCount ≠ 0

structure FinalVerificationReport where
  identity : VerificationIdentity
  checks : List VerificationCheckResult
  valid : identity.IsValid
  nonempty : checks ≠ []
  distinct : (checks.map VerificationCheckResult.stage).Nodup

namespace FinalVerificationReport

def severity : VerificationStatus → ℕ
  | .skipped => 0
  | .passed => 1
  | .inconclusive => 2
  | .failed => 3

/-- The pass of the constructor's loop over one check. -/
def worse (status : VerificationStatus) (check : VerificationCheckResult) : VerificationStatus :=
  if severity check.status > severity status then check.status else status

def status (report : FinalVerificationReport) : VerificationStatus :=
  report.checks.foldl worse .skipped

def create (identity : VerificationIdentity) (checks : List VerificationCheckResult) :
    Except Error FinalVerificationReport :=
  if hidentity : identity.requestedDigits = 0 ∨ identity.workingDigits < identity.requestedDigits ∨
      identity.termCount = 0 then
    throw (.invalidArgument "Invalid final verification identity")
  else if hempty : checks = [] then
    throw (.invalidArgument "Final verification report requires at least one check")
  else if hdistinct : ¬ (checks.map VerificationCheckResult.stage).Nodup then
    throw (.invalidArgument "Final verification report contains a duplicate stage")
  else
    pure ⟨identity, checks, ⟨fun h => hidentity (.inl h),
      not_lt.mp fun h => hidentity (.inr (.inl h)), fun h => hidentity (.inr (.inr h))⟩, hempty,
      not_not.mp hdistinct⟩

theorem create_eq_ok {identity : VerificationIdentity} {checks : List VerificationCheckResult}
    (hvalid : identity.IsValid) (hempty : checks ≠ [])
    (hdistinct : (checks.map VerificationCheckResult.stage).Nodup) :
    create identity checks = .ok ⟨identity, checks, hvalid, hempty, hdistinct⟩ := by
  rw [create, dif_neg, dif_neg hempty, dif_neg (not_not.mpr hdistinct)]
  · rfl
  · rintro (h | h | h)
    · exact hvalid.requestedDigits h
    · exact not_lt.mpr hvalid.workingDigits h
    · exact hvalid.termCount h

theorem create_fields {identity : VerificationIdentity} {checks : List VerificationCheckResult}
    {report : FinalVerificationReport} (h : create identity checks = .ok report) :
    report.identity = identity ∧ report.checks = checks := by
  unfold create at h
  split_ifs at h
  cases h
  exact ⟨rfl, rfl⟩

/-! ## The overall status -/

theorem severity_worse (status : VerificationStatus) (check : VerificationCheckResult) :
    severity (worse status check) = max (severity status) (severity check.status) := by
  rw [worse]
  split <;> omega

theorem le_severity_foldl (checks : List VerificationCheckResult) (status : VerificationStatus) :
    severity status ≤ severity (checks.foldl worse status) ∧
      ∀ check ∈ checks, severity check.status ≤ severity (checks.foldl worse status) := by
  induction checks generalizing status with
  | nil => simp
  | cons check rest ih =>
      obtain ⟨hstart, hrest⟩ := ih (worse status check)
      rw [severity_worse] at hstart
      rw [List.foldl_cons, List.forall_mem_cons]
      exact ⟨(le_max_left _ _).trans hstart, (le_max_right _ _).trans hstart, hrest⟩

/-- No check of a passed report has failed or is inconclusive. -/
theorem passed_or_skipped {report : FinalVerificationReport} (h : report.status = .passed)
    {check : VerificationCheckResult} (hcheck : check ∈ report.checks) :
    check.status = .passed ∨ check.status = .skipped := by
  have hle := (le_severity_foldl report.checks .skipped).2 check hcheck
  change _ ≤ severity report.status at hle
  rw [h] at hle
  cases hstatus : check.status with
  | passed => exact .inl rfl
  | skipped => exact .inr rfl
  | failed | inconclusive =>
      rw [hstatus] at hle
      exact absurd hle (by decide)

theorem severity_foldl_le {checks : List VerificationCheckResult} {bound : ℕ}
    (h : ∀ check ∈ checks, severity check.status ≤ bound) {status : VerificationStatus}
    (hstatus : severity status ≤ bound) : severity (checks.foldl worse status) ≤ bound := by
  induction checks generalizing status with
  | nil => exact hstatus
  | cons check rest ih =>
      obtain ⟨hcheck, hrest⟩ := List.forall_mem_cons.mp h
      refine ih hrest ?_
      rw [severity_worse]
      exact max_le hstatus hcheck

/-- A report passes when some check does and the others do or are skipped. -/
theorem status_eq_passed {report : FinalVerificationReport}
    (h : ∀ check ∈ report.checks, check.status = .passed ∨ check.status = .skipped)
    (hpassed : ∃ check ∈ report.checks, check.status = .passed) : report.status = .passed := by
  obtain ⟨check, hmem, hcheck⟩ := hpassed
  have hle : severity report.status ≤ 1 := by
    refine severity_foldl_le (fun other hother => ?_) (Nat.zero_le 1)
    rcases h other hother with heq | heq <;> rw [heq] <;> decide
  have hge := (le_severity_foldl report.checks .skipped).2 check hmem
  change _ ≤ severity report.status at hge
  rw [hcheck] at hge
  cases hstatus : report.status with
  | passed => rfl
  | skipped | failed | inconclusive =>
      rw [hstatus] at hle hge
      simp [severity] at hle hge

end FinalVerificationReport

end GiveMePi.Verification
