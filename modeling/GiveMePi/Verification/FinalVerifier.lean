import GiveMePi.Verification.BBPSamplePolicy
import GiveMePi.Verification.DecimalFractions
import GiveMePi.Verification.KnownDigitsVerifier
import GiveMePi.Verification.SHA256Files

/-! # The verification of a final output

The checks of an output in memory, and of an output file, which is opened once for each of them. -/

namespace GiveMePi.Verification

/-! ## The digits of the series -/

structure BBPHexDigit where
  position : UInt64
  status : BBPDigitStatus
  digit : Option UInt8
deriving DecidableEq, Repr

namespace BBPHexDigit

def resolved (digit : BBPHexDigit) : Bool :=
  digit.status = .resolved && digit.digit.isSome

end BBPHexDigit

/-- The digit that the sums of the series resolve at a position, if they do. The sums are
floating-point numbers. -/
abbrev BBPSeries := UInt64 → Option (Fin 16)

namespace BBPHexDigitCalculator

def calculate (series : BBPSeries) (position : UInt64) : Except Error BBPHexDigit := do
  throwIf (position > maximumPosition) (.outOfRange "BBP hexadecimal position is too large")
  match series position with
  | none => pure ⟨position, .inconclusive, none⟩
  | some digit => pure ⟨position, .resolved, some (UInt8.ofNat digit)⟩

end BBPHexDigitCalculator

/-! ## Samples -/

structure BBPSampleVerification where
  position : UInt64
  status : VerificationStatus
  bbpDigit : Option UInt8
  outputDigit : Option UInt8
deriving DecidableEq, Repr

structure FinalVerificationRun where
  report : FinalVerificationReport
  sha256 : Option SHA256Digest
  knownDigits : Option KnownDigitsVerification
  bbpSamples : List BBPSampleVerification

structure BBPCheck where
  check : VerificationCheckResult
  samples : List BBPSampleVerification

namespace FinalVerifier

/-- The local variables of the loop over the positions. -/
structure Tally where
  samples : List BBPSampleVerification
  diagnostics : List VerificationDiagnostic
  aggregate : VerificationStatus

/-- The body of the loop. -/
def addSample (series : BBPSeries) (extractor : DecimalHexDigitExtractor) (tally : Tally)
    (position : UInt64) : Except Error Tally := do
  let expected ← BBPHexDigitCalculator.calculate series position
  let actual ← extractor.extract position
  let (status, aggregate, diagnostics) :=
    if expected.resolved = false ∨ actual.resolved = false then
      (VerificationStatus.inconclusive,
        if tally.aggregate ≠ .failed then .inconclusive else tally.aggregate,
        tally.diagnostics ++ [⟨.bbp, .insufficientPrecision,
          "BBP sample interval does not resolve to one digit", some position⟩])
    else if expected.digit ≠ actual.digit then
      (.failed, .failed,
        tally.diagnostics ++ [⟨.bbp, .bbpMismatch,
          "BBP digit differs from canonical decimal output", some position⟩])
    else (.passed, tally.aggregate, tally.diagnostics)
  pure ⟨tally.samples ++ [⟨position, status, expected.digit, actual.digit⟩], diagnostics,
    aggregate⟩

def verifySamples (series : BBPSeries) (extractor : DecimalHexDigitExtractor)
    (identity : VerificationIdentity) (policy : BBPSamplePolicy) : Except Error BBPCheck := do
  let positions := policy.select identity
  if positions = [] then pure ⟨.skipped .bbp, []⟩
  else do
    let tally ← positions.foldlM (addSample series extractor) ⟨[], [], .passed⟩
    let check ← VerificationCheckResult.create .bbp tally.aggregate tally.diagnostics
    pure ⟨check, tally.samples⟩

/-! ## The verifications -/

def stoppedAfterStructure (identity : VerificationIdentity) (check : VerificationCheckResult) :
    Except Error FinalVerificationRun := do
  let report ← FinalVerificationReport.create identity
    [check, .skipped .knownDigits, .skipped .hash, .skipped .bbp]
  pure ⟨report, none, none, []⟩

def verifyMemory (series : BBPSeries) (candidate : Bytes) (identity : VerificationIdentity)
    (samplePolicy : BBPSamplePolicy) : Except Error FinalVerificationRun :=
  let inspection := inspectCanonicalDecimal candidate identity.requestedDigits
  match inspection.accepted, inspection.decimal with
  | true, some decimal => do
      let known := KnownDigitsVerifier.verify decimal
      let digest ← SHA256.hash decimal.bytes
      let extractor ← DecimalHexDigitExtractor.ofDecimal decimal
      let bbp ← verifySamples series extractor identity samplePolicy
      let report ← FinalVerificationReport.create identity
        [inspection.verification, known.verification, .passed .hash, bbp.check]
      pure ⟨report, some digest, some known, bbp.samples⟩
  | _, _ => stoppedAfterStructure identity inspection.verification

/-- What the file delivers each time it is opened. -/
structure FileReadings where
  inspection : FileReading
  knownDigits : FileReading
  hash : FileReading
  fraction : FileReading

/-- A file that does not change, and is read the same way each time. -/
def FileReadings.same (reading : FileReading) : FileReadings :=
  ⟨reading, reading, reading, reading⟩

/-- The digest with the result of its check; an exception makes it a failed one. -/
def hashCheck (reading : FileReading) (file : InspectedOutputFile) :
    Option SHA256Digest × VerificationCheckResult :=
  match SHA256.hashFileStart reading file.canonicalByteCount with
  | .ok digest => (some digest, .passed .hash)
  | .error error => (none, .failed .hash .fileReadFailed error.what none)

/-- The samples of a file; an exception makes the check a failed one. -/
def fileSamples (series : BBPSeries) (reading : FileReading) (file : InspectedOutputFile)
    (identity : VerificationIdentity) (samplePolicy : BBPSamplePolicy) : BBPCheck :=
  match (do
    let extractor ← DecimalHexDigitExtractor.fromFile reading file
    verifySamples series extractor identity samplePolicy) with
  | .ok bbp => bbp
  | .error error => ⟨.failed .bbp .operationFailed error.what none, []⟩

def verifyFile (series : BBPSeries) (readings : FileReadings) (identity : VerificationIdentity)
    (samplePolicy : BBPSamplePolicy) : Except Error FinalVerificationRun :=
  let inspection := FinalOutputInspector.inspectFile readings.inspection identity.requestedDigits
  match inspection.accepted, inspection.file with
  | true, some file => do
      let known := KnownDigitsVerifier.verifyFile readings.knownDigits file
      let (digest, hashCheck) := hashCheck readings.hash file
      let bbp := fileSamples series readings.fraction file identity samplePolicy
      let report ← FinalVerificationReport.create identity
        [inspection.verification, known.verification, hashCheck, bbp.check]
      pure ⟨report, digest, some known, bbp.samples⟩
  | _, _ => stoppedAfterStructure identity inspection.verification

/-- The check of the hash, with a digest that differs from the expected one. -/
def mismatchedHash : VerificationCheckResult :=
  .failed .hash .hashMismatch "Canonical SHA-256 differs from verification manifest" none

/-- The overload that expects a digest. -/
def verifyFileAgainst (series : BBPSeries) (readings : FileReadings)
    (identity : VerificationIdentity) (expectedSha256 : SHA256Digest)
    (samplePolicy : BBPSamplePolicy) : Except Error FinalVerificationRun := do
  let run ← verifyFile series readings identity samplePolicy
  if run.sha256 = none ∨ run.sha256 = some expectedSha256 then pure run
  else do
    let report ← FinalVerificationReport.create identity
      (run.report.checks.map fun check =>
        if check.stage = .hash then mismatchedHash else check)
    pure { run with report := report }

/-! ## What the samples say -/

section Samples

variable {series : BBPSeries} {extractor : DecimalHexDigitExtractor}

/-- The series and the output resolve to the same digit. -/
def Agrees (series : BBPSeries) (extractor : DecimalHexDigitExtractor) (position : UInt64) : Prop :=
  ∃ digit : Fin 16, series position = some digit ∧
    extractor.extract position = .ok ⟨position, .resolved, some (UInt8.ofNat digit)⟩

/-- A sample that passed, exactly where series and output agree, with their common digit. -/
structure IsSampleOf (series : BBPSeries) (extractor : DecimalHexDigitExtractor)
    (sample : BBPSampleVerification) : Prop where
  passed_iff : sample.status = .passed ↔ Agrees series extractor sample.position
  digits : sample.status = .passed → ∃ digit : Fin 16,
    sample.bbpDigit = some (UInt8.ofNat digit) ∧ sample.outputDigit = some (UInt8.ofNat digit)

/-- What the loop has found of the positions before. -/
structure Tally.Covers (series : BBPSeries) (extractor : DecimalHexDigitExtractor)
    (positions : List UInt64) (tally : Tally) : Prop where
  positions : tally.samples.map BBPSampleVerification.position = positions
  samples : ∀ sample ∈ tally.samples, IsSampleOf series extractor sample
  passed_iff : tally.aggregate = .passed ↔ ∀ sample ∈ tally.samples, sample.status = .passed
  failed_iff : tally.aggregate = .failed ↔ ∃ sample ∈ tally.samples, sample.status = .failed
  not_skipped : tally.aggregate ≠ .skipped
  diagnostics_iff : tally.diagnostics = [] ↔ tally.aggregate = .passed
  stages : ∀ diagnostic ∈ tally.diagnostics, diagnostic.stage = .bbp

theorem covers_nil : Tally.Covers series extractor [] ⟨[], [], .passed⟩ := by
  constructor <;> simp

/-- A digit, where there is one, as the output resolves it. -/
def outputDigit (position : UInt64) (digit : Option (Fin 16)) : DecimalHexDigit :=
  ⟨position, if digit.isSome then .resolved else .inconclusive,
    digit.map fun digit => UInt8.ofNat digit⟩

/-- A digit, where there is one, as the series resolves it. -/
def seriesDigit (position : UInt64) (digit : Option (Fin 16)) : BBPHexDigit :=
  ⟨position, if digit.isSome then .resolved else .inconclusive,
    digit.map fun digit => UInt8.ofNat digit⟩

theorem ofNat_digit_inj {left right : Fin 16} :
    UInt8.ofNat left = UInt8.ofNat right ↔ left = right := by
  revert left right
  decide

theorem calculate_eq {position : UInt64} (h : position ≤ BBPHexDigitCalculator.maximumPosition) :
    BBPHexDigitCalculator.calculate series position =
      .ok (seriesDigit position (series position)) := by
  rw [BBPHexDigitCalculator.calculate, throwIf_neg (not_lt.mpr h), ok_bind]
  cases series position with
  | none => rfl
  | some digit => rfl

theorem exists_outputDigit (extractor : DecimalHexDigitExtractor) {position : UInt64}
    (h : position ≤ BBPHexDigitCalculator.maximumPosition) :
    ∃ digit, extractor.extract position = .ok (outputDigit position digit) := by
  have hfits : ¬ (position = uint64Max ∨ position + 1 > uint64Max / 4) := by
    rw [UInt64.le_iff_toNat_le, BBPSamplePolicy.maximumPosition_toNat] at h
    have haccepted : ∃ result, extractor.extract position = .ok result :=
      DecimalHexDigitExtractor.extract_isOk_iff.mpr (by omega)
    obtain ⟨result, hresult⟩ := haccepted
    rw [DecimalHexDigitExtractor.extract, bind_eq_ok] at hresult
    obtain ⟨_, hposition, -⟩ := hresult
    exact throwIf_eq_ok.mp hposition
  have heq := @DecimalHexDigitExtractor.extract_eq extractor position hfits
  dsimp only at heq
  split at heq
  · exact ⟨none, heq⟩
  · generalize (extractor.numerator * 2 ^ (4 * (position.toNat + 1) + 1) -
      2 ^ (4 * (position.toNat + 1))) / (10 ^ extractor.requestedDigits.toNat * 2 ^ 1) = lower at heq
    have hlt : (lower % 16).toNat < 16 := by omega
    exact ⟨some ⟨_, hlt⟩, heq⟩

theorem isSampleOf_inconclusive {position : UInt64} {output : Option (Fin 16)}
    (houtput : extractor.extract position = .ok (outputDigit position output))
    (h : series position = none ∨ output = none) (bbpDigit outputDigit : Option UInt8) :
    IsSampleOf series extractor ⟨position, .inconclusive, bbpDigit, outputDigit⟩ := by
  refine ⟨⟨fun hpassed => (by cases hpassed), ?_⟩, fun hpassed => (by cases hpassed)⟩
  rintro ⟨digit, hseries, hextract⟩
  rcases h with hnone | rfl
  · rw [hnone] at hseries
    cases hseries
  · rw [houtput] at hextract
    cases hextract

theorem isSampleOf_digits {position : UInt64} {expected actual : Fin 16}
    (hseries : series position = some expected)
    (hextract : extractor.extract position = .ok (outputDigit position (some actual))) :
    IsSampleOf series extractor ⟨position, if expected = actual then .passed else .failed,
      some (UInt8.ofNat expected), some (UInt8.ofNat actual)⟩ := by
  by_cases heq : expected = actual
  · subst heq
    rw [if_pos rfl]
    exact ⟨⟨fun _ => ⟨expected, hseries, hextract⟩, fun _ => rfl⟩, fun _ => ⟨expected, rfl, rfl⟩⟩
  · rw [if_neg heq]
    refine ⟨⟨fun hpassed => (by cases hpassed), ?_⟩, fun hpassed => (by cases hpassed)⟩
    rintro ⟨digit, hdigit, houtput⟩
    rw [hseries, Option.some.injEq] at hdigit
    rw [hextract, Except.ok.injEq, outputDigit, DecimalHexDigit.mk.injEq] at houtput
    have hsame := Option.some.inj houtput.2.2
    exact absurd (hdigit.trans (ofNat_digit_inj.mp hsame).symm) heq

namespace Tally.Covers

variable {positions : List UInt64} {tally : Tally} {sample : BBPSampleVerification}
  {diagnostic : VerificationDiagnostic}

theorem addPassed (h : tally.Covers series extractor positions)
    (hsample : IsSampleOf series extractor sample) (hstatus : sample.status = .passed) :
    Tally.Covers series extractor (positions ++ [sample.position])
      ⟨tally.samples ++ [sample], tally.diagnostics, tally.aggregate⟩ where
  positions := by simp [h.positions]
  samples := by simpa [or_imp, forall_and] using ⟨h.samples, hsample⟩
  passed_iff := by simp [h.passed_iff, or_imp, forall_and, hstatus]
  failed_iff := by simp [h.failed_iff, hstatus]
  not_skipped := h.not_skipped
  diagnostics_iff := h.diagnostics_iff
  stages := h.stages

theorem addFailed (h : tally.Covers series extractor positions)
    (hsample : IsSampleOf series extractor sample) (hstatus : sample.status = .failed)
    (hstage : diagnostic.stage = .bbp) :
    Tally.Covers series extractor (positions ++ [sample.position])
      ⟨tally.samples ++ [sample], tally.diagnostics ++ [diagnostic], .failed⟩ where
  positions := by simp [h.positions]
  samples := by simpa [or_imp, forall_and] using ⟨h.samples, hsample⟩
  passed_iff := by simp [or_imp, forall_and, hstatus]
  failed_iff := by simp [hstatus]
  not_skipped := by simp
  diagnostics_iff := by simp
  stages := by simpa [or_imp, forall_and, hstage] using h.stages

theorem addInconclusive (h : tally.Covers series extractor positions)
    (hsample : IsSampleOf series extractor sample) (hstatus : sample.status = .inconclusive)
    (hstage : diagnostic.stage = .bbp) :
    Tally.Covers series extractor (positions ++ [sample.position])
      ⟨tally.samples ++ [sample], tally.diagnostics ++ [diagnostic],
        if tally.aggregate ≠ .failed then .inconclusive else tally.aggregate⟩ where
  positions := by simp [h.positions]
  samples := by simpa [or_imp, forall_and] using ⟨h.samples, hsample⟩
  passed_iff := by
    by_cases hfailed : tally.aggregate = .failed <;>
      simp [hfailed, or_imp, forall_and, hstatus]
  failed_iff := by
    have hiff := h.failed_iff
    by_cases hfailed : tally.aggregate = .failed
    · simpa [hfailed, hstatus] using hiff.mp hfailed
    · simpa [hfailed, hstatus] using hiff
  not_skipped := by
    by_cases hfailed : tally.aggregate = .failed <;> simp [hfailed]
  diagnostics_iff := by
    by_cases hfailed : tally.aggregate = .failed <;> simp [hfailed]
  stages := by simpa [or_imp, forall_and, hstage] using h.stages

end Tally.Covers

/-- One more position is covered, and nothing is thrown. -/
theorem addSample_covers {positions : List UInt64} {tally : Tally} {position : UInt64}
    (h : tally.Covers series extractor positions)
    (hsafe : position ≤ BBPHexDigitCalculator.maximumPosition) :
    ∃ next, addSample series extractor tally position = .ok next ∧
      next.Covers series extractor (positions ++ [position]) := by
  obtain ⟨output, houtput⟩ := exists_outputDigit extractor hsafe
  have hunresolved := @isSampleOf_inconclusive series extractor position output houtput
  rw [addSample, calculate_eq hsafe, ok_bind, houtput, ok_bind]
  cases hexpected : series position with
  | none => exact ⟨_, rfl, h.addInconclusive (hunresolved (Or.inl hexpected) _ _) rfl rfl⟩
  | some expected =>
      cases output with
      | none => exact ⟨_, rfl, h.addInconclusive (hunresolved (Or.inr rfl) _ _) rfl rfl⟩
      | some actual =>
          have hsample := isSampleOf_digits hexpected houtput
          by_cases heq : expected = actual
          · subst heq
            rw [if_pos rfl] at hsample
            refine ⟨_, ?_, h.addPassed hsample rfl⟩
            simp [seriesDigit, outputDigit, BBPHexDigit.resolved, DecimalHexDigit.resolved]
          · rw [if_neg heq] at hsample
            have hdiagnostic : VerificationDiagnostic.stage ⟨.bbp, .bbpMismatch,
                "BBP digit differs from canonical decimal output", some position⟩ = .bbp := rfl
            refine ⟨_, ?_, h.addFailed hsample rfl hdiagnostic⟩
            simp [seriesDigit, outputDigit, BBPHexDigit.resolved, DecimalHexDigit.resolved,
              ofNat_digit_inj, heq]

/-- The loop covers all positions. -/
theorem foldlM_addSample {positions others : List UInt64} {tally : Tally}
    (h : tally.Covers series extractor positions)
    (hsafe : ∀ position ∈ others, position ≤ BBPHexDigitCalculator.maximumPosition) :
    ∃ last, others.foldlM (addSample series extractor) tally = .ok last ∧
      last.Covers series extractor (positions ++ others) := by
  induction others generalizing positions tally with
  | nil => exact ⟨tally, rfl, by rwa [List.append_nil]⟩
  | cons position rest ih =>
      obtain ⟨hposition, hrest⟩ := List.forall_mem_cons.mp hsafe
      obtain ⟨next, hnext, hcovers⟩ := addSample_covers h hposition
      obtain ⟨last, hlast, hall⟩ := ih hcovers hrest
      refine ⟨last, ?_, by rwa [List.append_assoc] at hall⟩
      rw [List.foldlM_cons, hnext]
      exact hlast

/-- What a check of samples says of its positions. -/
structure IsCheckOf (series : BBPSeries) (extractor : DecimalHexDigitExtractor)
    (positions : List UInt64) (bbp : BBPCheck) : Prop where
  stage : bbp.check.stage = .bbp
  covered : bbp.samples.map BBPSampleVerification.position = positions
  samples : ∀ sample ∈ bbp.samples, IsSampleOf series extractor sample
  passed_of : (bbp.check.status = .passed ∨ bbp.check.status = .skipped) →
    ∀ sample ∈ bbp.samples, sample.status = .passed
  of_passed : (∀ sample ∈ bbp.samples, sample.status = .passed) →
    bbp.check.status = .passed ∨ bbp.check.status = .skipped

/-- A check does not fail exactly where series and output agree on every position. -/
theorem IsCheckOf.passes_iff {positions : List UInt64} {bbp : BBPCheck}
    (h : IsCheckOf series extractor positions bbp) :
    (bbp.check.status = .passed ∨ bbp.check.status = .skipped) ↔
      ∀ position ∈ positions, Agrees series extractor position := by
  rw [← h.covered]
  constructor
  · intro hpasses position hmem
    obtain ⟨sample, hsample, rfl⟩ := List.mem_map.mp hmem
    exact (h.samples sample hsample).passed_iff.mp (h.passed_of hpasses sample hsample)
  · intro hagrees
    refine h.of_passed fun sample hsample => (h.samples sample hsample).passed_iff.mpr ?_
    exact hagrees sample.position (List.mem_map_of_mem hsample)

/-- The samples of the selected positions are checked, and nothing is thrown. -/
theorem verifySamples_eq_ok (series : BBPSeries) (extractor : DecimalHexDigitExtractor)
    (identity : VerificationIdentity) (policy : BBPSamplePolicy) :
    ∃ bbp, verifySamples series extractor identity policy = .ok bbp ∧
      IsCheckOf series extractor (policy.select identity) bbp := by
  rw [verifySamples]
  by_cases hempty : policy.select identity = []
  · rw [if_pos hempty, hempty]
    refine ⟨_, rfl, rfl, rfl, ?_, ?_, ?_⟩ <;> simp [VerificationCheckResult.skipped]
  · have hsafe (position : UInt64) (hmem : position ∈ policy.select identity) :
        position ≤ BBPHexDigitCalculator.maximumPosition :=
      (BBPSamplePolicy.safe_of_lt ((policy.select_isSelection identity).1.lt position hmem)).2.1
    have hnil : Tally.Covers series extractor [] ⟨[], [], .passed⟩ := covers_nil
    obtain ⟨tally, htally, hcovers⟩ := foldlM_addSample hnil hsafe
    have hdiagnostics := hcovers.diagnostics_iff
    have hcreate := @VerificationCheckResult.create_eq_ok .bbp tally.aggregate tally.diagnostics
      (fun hpassed => hpassed.2 (hdiagnostics.mpr hpassed.1))
      (fun htrouble => by
        rw [hdiagnostics.mp htrouble.2] at htrouble
        simp at htrouble)
      (fun hstage => by
        obtain ⟨diagnostic, hmem, hne⟩ := hstage
        exact hne (hcovers.stages diagnostic hmem))
    rw [if_neg hempty, htally, ok_bind, hcreate, ok_bind]
    refine ⟨_, rfl, rfl, hcovers.positions, hcovers.samples, ?_, ?_⟩
    · rintro (hpassed | hskipped)
      · exact hcovers.passed_iff.mp hpassed
      · exact absurd hskipped hcovers.not_skipped
    · exact fun hpassed => Or.inl (hcovers.passed_iff.mpr hpassed)

end Samples

end FinalVerifier

end GiveMePi.Verification
