import GiveMePi.Verification.VerificationAgreement
import GiveMePi.Verification.VerificationFormat

/-! # What a verification publishes

A run that passed becomes a manifest, whatever the file delivered each time it was opened. -/

namespace GiveMePi.Verification

open Checkpoint (CheckpointManifestCodec.isPlainFilename)

/-! ## The manifest of a run -/

namespace VerificationManifest

/-- The body of the loop over the samples. -/
def sampleOf (sample : BBPSampleVerification) : Except Error VerificationManifestSample :=
  match sample.status, sample.bbpDigit, sample.outputDigit with
  | .passed, some bbpDigit, some outputDigit =>
      pure ⟨sample.position, .passed, bbpDigit, outputDigit⟩
  | _, _, _ => throw (.invalidArgument "Verification run has unresolved BBP samples")

def fromRun (run : FinalVerificationRun) (outputFilename : Bytes) (canonicalByteCount : UInt64)
    (verifiedAtUnixSeconds : UInt64) : Except Error VerificationManifest :=
  match run.sha256, run.knownDigits with
  | some sha256, some knownDigits => do
      throwIf (run.report.status ≠ .passed ∨ knownDigits.matched = false)
        (.invalidArgument "Verification run is not publishable")
      let samples ← run.bbpSamples.mapM sampleOf
      let manifest : VerificationManifest :=
        ⟨run.report.identity, outputFilename, canonicalByteCount, sha256,
          knownDigits.referenceVersion, verifiedAtUnixSeconds, run.report.status, samples⟩
      manifest.validate
      pure manifest
  | _, _ => throw (.invalidArgument "Verification run is not publishable")

/-- The record of a sample with a common digit. -/
def agreedSample (position : UInt64) (digit : Fin 16) : VerificationManifestSample :=
  ⟨position, .passed, UInt8.ofNat digit, UInt8.ofNat digit⟩

/-- Samples that passed are recorded with their digits. -/
theorem mapM_sampleOf {samples : List BBPSampleVerification}
    (h : ∀ sample ∈ samples, sample.status = .passed ∧ ∃ digit : Fin 16,
      sample.bbpDigit = some (UInt8.ofNat digit) ∧
        sample.outputDigit = some (UInt8.ofNat digit)) :
    ∃ records, samples.mapM sampleOf = .ok records ∧
      records.map VerificationManifestSample.position =
        samples.map BBPSampleVerification.position ∧
      ∀ record ∈ records, ∃ digit, record = agreedSample record.position digit := by
  induction samples with
  | nil => exact ⟨[], rfl, rfl, by simp⟩
  | cons sample rest ih =>
      obtain ⟨⟨hstatus, digit, hbbp, houtput⟩, hrest⟩ := List.forall_mem_cons.mp h
      obtain ⟨records, hrecords, hpositions, hagreed⟩ := ih hrest
      have hsample : sampleOf sample = .ok (agreedSample sample.position digit) := by
        rw [sampleOf, hstatus, hbbp, houtput]
        rfl
      refine ⟨agreedSample sample.position digit :: records, ?_, ?_, ?_⟩
      · rw [List.mapM_cons, hsample, ok_bind, hrecords]
        rfl
      · rw [List.map_cons, List.map_cons, hpositions]
        rfl
      · exact List.forall_mem_cons.mpr ⟨⟨digit, rfl⟩, hagreed⟩

theorem digit_le (digit : Fin 16) : ¬ UInt8.ofNat digit > 15 := by
  revert digit
  decide

/-- Records in strict order of their positions are valid. -/
theorem validateSamples_eq_ok {records : List VerificationManifestSample}
    {previous : Option UInt64}
    (hprevious : ∀ position ∈ previous, ∀ record ∈ records, position < record.position)
    (hsorted : (records.map VerificationManifestSample.position).Pairwise (· < ·))
    (hagreed : ∀ record ∈ records, ∃ digit, record = agreedSample record.position digit) :
    validateSamples previous records = .ok () := by
  induction records generalizing previous with
  | nil => rfl
  | cons record rest ih =>
      rw [List.map_cons, List.pairwise_cons] at hsorted
      obtain ⟨⟨digit, hrecord⟩, hrest⟩ := List.forall_mem_cons.mp hagreed
      have hvalid : ¬ (record.status ≠ .passed ∨ record.bbpDigit > 15 ∨ record.outputDigit > 15 ∨
          record.bbpDigit ≠ record.outputDigit ∨
          (previous.any fun position => record.position ≤ position) = true) := by
        rw [not_or, not_or, not_or, not_or]
        refine ⟨?_, ?_, ?_, ?_, ?_⟩
        · rw [hrecord]
          exact not_not.mpr rfl
        · rw [hrecord]
          exact digit_le digit
        · rw [hrecord]
          exact digit_le digit
        · rw [hrecord]
          exact not_not.mpr rfl
        · cases previous with
          | none => exact Bool.false_ne_true
          | some position =>
              simpa using hprevious position rfl record List.mem_cons_self
      rw [validateSamples, throwIf_neg hvalid, ok_bind]
      refine ih ?_ hsorted.2 hrest
      intro position hposition other hmem
      rw [Option.mem_some_iff] at hposition
      rw [← hposition]
      exact hsorted.1 _ (List.mem_map_of_mem hmem)

end VerificationManifest

/-! ## Runs that passed -/

namespace FinalVerifier

open FinalOutputInspector (IsOutputFile)

section

variable {series : BBPSeries} {readings : FileReadings} {identity : VerificationIdentity}
  {policy : BBPSamplePolicy} {run : FinalVerificationRun}

/-- What a run holds when it passed. -/
structure HasPassed (identity : VerificationIdentity) (policy : BBPSamplePolicy)
    (run : FinalVerificationRun) : Prop where
  valid : identity.IsValid
  fits : ¬ identity.requestedDigits > uint64Max - 2
  identity_eq : run.report.identity = identity
  sha256 : ∃ digest, run.sha256 = some digest
  knownDigits : ∃ known, run.knownDigits = some known ∧ known.matched = true ∧
    known.referenceVersion = knownDigitsReferenceVersion
  positions : run.bbpSamples.map BBPSampleVerification.position = policy.select identity
  samples : ∀ sample ∈ run.bbpSamples, sample.status = .passed ∧ ∃ digit : Fin 16,
    sample.bbpDigit = some (UInt8.ofNat digit) ∧ sample.outputDigit = some (UInt8.ofNat digit)

theorem not_failed_of {status : VerificationStatus} (h : status = .passed ∨ status = .skipped) :
    status ≠ .failed := by
  rcases h with rfl | rfl <;> simp

theorem hashCheck_cases (reading : FileReading) (file : InspectedOutputFile) :
    (∃ digest, (hashCheck reading file).1 = some digest) ∨
      (hashCheck reading file).2.status = .failed := by
  rw [hashCheck]
  split
  · exact Or.inl ⟨_, rfl⟩
  · exact Or.inr rfl

theorem fileSamples_cases (series : BBPSeries) (reading : FileReading) (file : InspectedOutputFile)
    (identity : VerificationIdentity) (policy : BBPSamplePolicy) :
    (∃ extractor, IsCheckOf series extractor (policy.select identity)
        (fileSamples series reading file identity policy)) ∨
      (fileSamples series reading file identity policy).check.status = .failed := by
  cases hfile : DecimalHexDigitExtractor.fromFile reading file with
  | error error =>
      rw [fileSamples, hfile, error_bind]
      exact Or.inr rfl
  | ok extractor =>
      obtain ⟨bbp, hbbp, hcheck⟩ := verifySamples_eq_ok series extractor identity policy
      rw [fileSamples_of_ok hfile hbbp]
      exact Or.inl ⟨extractor, hcheck⟩

/-- What the checks of a run that passed found. -/
theorem checks_of_passed (h : verifyFile series readings identity policy = .ok run)
    (hpassed : run.report.status = .passed) :
    run.report.identity = identity ∧
    (∃ canonical, IsOutputFile readings.inspection identity.requestedDigits canonical) ∧
    ∃ file : InspectedOutputFile,
      file = ⟨identity.requestedDigits + 2 + 1, identity.requestedDigits + 2,
        identity.requestedDigits⟩ ∧
      run.knownDigits = some (KnownDigitsVerifier.verifyFile readings.knownDigits file) ∧
      (KnownDigitsVerifier.verifyFile readings.knownDigits file).matched = true ∧
      run.sha256 = (hashCheck readings.hash file).1 ∧
      (∃ digest, (hashCheck readings.hash file).1 = some digest) ∧
      run.bbpSamples = (fileSamples series readings.fraction file identity policy).samples ∧
      ((fileSamples series readings.fraction file identity policy).check.status = .passed ∨
        (fileSamples series readings.fraction file identity policy).check.status = .skipped) := by
  by_cases hfile : identity.requestedDigits ≠ 0 ∧
      ∃ canonical, IsOutputFile readings.inspection identity.requestedDigits canonical
  · obtain ⟨hpos, canonical, hcanonical⟩ := hfile
    rw [verifyFile_of_outputFile hpos hcanonical] at h
    dsimp only at h
    rw [bind_eq_ok] at h
    obtain ⟨report, hreport, hrun⟩ := h
    obtain ⟨hidentity, hchecks⟩ := FinalVerificationReport.create_fields hreport
    rw [pure_eq_ok, Except.ok.injEq] at hrun
    subst hrun
    have hall (check : VerificationCheckResult) (hmem : check ∈ report.checks) :
        check.status = .passed ∨ check.status = .skipped :=
      FinalVerificationReport.passed_or_skipped hpassed hmem
    rw [hchecks] at hall
    obtain ⟨-, hknown, hhash, hbbp, -⟩ : _ ∧ _ ∧ _ ∧ _ ∧ _ := by
      simpa only [List.forall_mem_cons] using hall
    obtain ⟨-, -, hskipped⟩ := KnownDigitsVerifier.verifyFile_fields readings.knownDigits
      ⟨identity.requestedDigits + 2 + 1, identity.requestedDigits + 2, identity.requestedDigits⟩
    refine ⟨hidentity, ⟨canonical, hcanonical⟩, _, rfl, rfl, ?_, rfl, ?_, rfl, hbbp⟩
    · exact decide_eq_true (hknown.resolve_right hskipped)
    · exact (hashCheck_cases _ _).resolve_right (not_failed_of hhash)
  · obtain ⟨reason, detail, offset, hstopped⟩ := verifyFile_of_not hfile
    rw [hstopped, stoppedAfterStructure, bind_eq_ok] at h
    obtain ⟨report, hreport, hrun⟩ := h
    rw [pure_eq_ok, Except.ok.injEq] at hrun
    subst hrun
    have hmem : VerificationCheckResult.failed .outputStructure reason detail offset ∈
        report.checks := by
      rw [(FinalVerificationReport.create_fields hreport).2]
      exact List.mem_cons_self
    exact absurd rfl (not_failed_of (FinalVerificationReport.passed_or_skipped hpassed hmem))

/-- A run that passed checked an output file, hashed it and found its digits right. -/
theorem hasPassed_of_verifyFile (h : verifyFile series readings identity policy = .ok run)
    (hpassed : run.report.status = .passed) : HasPassed identity policy run := by
  obtain ⟨hidentity, ⟨canonical, hcanonical⟩, file, -, hknown, hmatched, hsha256, hdigest, hsamples,
    hbbp⟩ := checks_of_passed h hpassed
  obtain ⟨extractor, hcheck⟩ := (fileSamples_cases series readings.fraction file identity
    policy).resolve_right (not_failed_of hbbp)
  have hversion := (KnownDigitsVerifier.verifyFile_fields readings.knownDigits file).1
  refine ⟨hidentity ▸ run.report.valid, not_lt_of_not_three hcanonical.fits, hidentity,
    hsha256 ▸ hdigest, ⟨_, hknown, hmatched, hversion⟩, hsamples ▸ hcheck.covered,
    fun sample hmem => ?_⟩
  rw [hsamples] at hmem
  have hstatus := hcheck.passed_of hbbp sample hmem
  exact ⟨hstatus, (hcheck.samples sample hmem).digits hstatus⟩

/-- The records of a run that passed are those of the selected positions. -/
theorem HasPassed.records (h : HasPassed identity policy run) :
    ∃ records, run.bbpSamples.mapM VerificationManifest.sampleOf = .ok records ∧
      records.map VerificationManifestSample.position = policy.select identity ∧
      records.length ≤ maximumBBPSampleCount ∧
      VerificationManifest.validateSamples none records = .ok () := by
  obtain ⟨hselection, hsorted⟩ := policy.select_isSelection identity
  obtain ⟨records, hrecords, hpositions, hagreed⟩ := VerificationManifest.mapM_sampleOf h.samples
  rw [h.positions] at hpositions
  refine ⟨records, hrecords, hpositions, ?_, ?_⟩
  · rw [← List.length_map (f := VerificationManifestSample.position), hpositions]
    exact hselection.length_le.trans policy.le
  · exact VerificationManifest.validateSamples_eq_ok (by simp) (hpositions ▸ hsorted) hagreed

variable {outputFilename : Bytes} {verifiedAtUnixSeconds : UInt64} {manifest : VerificationManifest}

/-- What the manifest of a run that passed records. -/
theorem HasPassed.fields_of_fromRun (h : HasPassed identity policy run) {byteCount : UInt64}
    (hmanifest : VerificationManifest.fromRun run outputFilename byteCount
      verifiedAtUnixSeconds = .ok manifest) :
    manifest.outputFilename = outputFilename ∧ manifest.identity = identity ∧
      run.sha256 = some manifest.sha256 ∧
      manifest.verifiedAtUnixSeconds = verifiedAtUnixSeconds ∧
      manifest.bbpSamples.map VerificationManifestSample.position = policy.select identity := by
  obtain ⟨digest, hdigest⟩ := h.sha256
  obtain ⟨known, hknown, -⟩ := h.knownDigits
  obtain ⟨records, hrecords, hpositions, -⟩ := h.records
  rw [VerificationManifest.fromRun, hdigest, hknown] at hmanifest
  simp only [hrecords, bind_eq_ok, pure_eq_ok, Except.ok.injEq] at hmanifest
  obtain ⟨-, -, _, rfl, -, -, rfl⟩ := hmanifest
  exact ⟨rfl, h.identity_eq, hdigest, rfl, hpositions⟩

/-- A run that passed has a manifest, under a plain name and behind the first second. -/
theorem HasPassed.exists_manifest (h : HasPassed identity policy run)
    (hstatus : run.report.status = .passed)
    (hname : CheckpointManifestCodec.isPlainFilename outputFilename = true)
    (hlength : outputFilename.length ≤ 255) (htime : verifiedAtUnixSeconds ≠ 0) :
    ∃ manifest, VerificationManifest.fromRun run outputFilename (identity.requestedDigits + 2)
      verifiedAtUnixSeconds = .ok manifest ∧ manifest.validate = .ok () := by
  obtain ⟨digest, hdigest⟩ := h.sha256
  obtain ⟨known, hknown, hmatched, hversion⟩ := h.knownDigits
  obtain ⟨records, hrecords, hpositions, hcount, hvalid⟩ := h.records
  obtain ⟨manifest, hmanifest⟩ : ∃ manifest : VerificationManifest, manifest =
      ⟨run.report.identity, outputFilename, identity.requestedDigits + 2, digest,
        known.referenceVersion, verifiedAtUnixSeconds, run.report.status, records⟩ := ⟨_, rfl⟩
  have haccepted : manifest.validate = .ok () := by
    have hidentity : ¬ (identity.requestedDigits = 0 ∨
        identity.requestedDigits > uint64Max - 2 ∨
        identity.workingDigits < identity.requestedDigits ∨ identity.termCount = 0 ∨
        identity.requestedDigits + 2 ≠ identity.requestedDigits + 2 ∨
        verifiedAtUnixSeconds = 0) := by
      rintro (hzero | hlarge | hless | hnone | hne | hearly)
      · exact h.valid.requestedDigits hzero
      · exact h.fits hlarge
      · exact not_lt.mpr h.valid.workingDigits hless
      · exact h.valid.termCount hnone
      · exact hne rfl
      · exact htime hearly
    have hfilename : ¬ (outputFilename.length > 255 ∨
        CheckpointManifestCodec.isPlainFilename outputFilename = false) := by
      rw [hname]
      simpa using hlength
    have hmetadata : ¬ (known.referenceVersion = 0 ∨
        records.length > maximumBBPSampleCount) := by
      rw [hversion]
      exact not_or.mpr ⟨by decide, not_lt.mpr hcount⟩
    rw [hmanifest, h.identity_eq, hstatus, VerificationManifest.validate]
    dsimp only
    rw [throwIf_neg hidentity, ok_bind, throwIf_neg (not_not.mpr rfl), ok_bind,
      throwIf_neg hfilename, ok_bind, throwIf_neg hmetadata, ok_bind]
    exact hvalid
  refine ⟨manifest, ?_, haccepted⟩
  rw [VerificationManifest.fromRun, hdigest, hknown]
  dsimp only
  rw [throwIf_neg (by simp [hstatus, hmatched]), ok_bind, hrecords, ok_bind, ← hmanifest,
    haccepted, ok_bind]
  rfl

end

/-- Whatever the file delivered each time it was opened, a run becomes a manifest exactly when it
passed, and the manifest comes back from its bytes, with the identity and the digest of the run and
a record for each selected position. -/
theorem fromRun_isPublished {series : BBPSeries} {readings : FileReadings}
    {identity : VerificationIdentity} {policy : BBPSamplePolicy} {run : FinalVerificationRun}
    (h : verifyFile series readings identity policy = .ok run) {outputFilename : Bytes}
    (hname : CheckpointManifestCodec.isPlainFilename outputFilename = true)
    (hlength : outputFilename.length ≤ 255) {verifiedAtUnixSeconds : UInt64}
    (htime : verifiedAtUnixSeconds ≠ 0) :
    (run.report.status ≠ .passed → ∃ error, VerificationManifest.fromRun run outputFilename
      (identity.requestedDigits + 2) verifiedAtUnixSeconds = .error error) ∧
    (run.report.status = .passed → ∃ manifest bytes,
      VerificationManifest.fromRun run outputFilename (identity.requestedDigits + 2)
        verifiedAtUnixSeconds = .ok manifest ∧
      VerificationManifestCodec.encode manifest = .ok bytes ∧
      VerificationManifestCodec.decode bytes = .ok manifest ∧
      manifest.identity = identity ∧ run.sha256 = some manifest.sha256 ∧
      manifest.bbpSamples.map VerificationManifestSample.position = policy.select identity) := by
  constructor
  · intro hstatus
    rw [VerificationManifest.fromRun]
    split
    · rw [throwIf_pos (Or.inl hstatus)]
      exact ⟨_, rfl⟩
    · exact ⟨_, rfl⟩
  · intro hstatus
    have hpassed := hasPassed_of_verifyFile h hstatus
    obtain ⟨manifest, hmanifest, haccepted⟩ := hpassed.exists_manifest hstatus hname hlength htime
    obtain ⟨-, hidentity, hdigest, -, hpositions⟩ := hpassed.fields_of_fromRun hmanifest
    exact ⟨manifest, VerificationManifestCodec.manifestBytes manifest, hmanifest,
      VerificationManifestCodec.encode_eq_ok_iff.mpr ⟨rfl, haccepted⟩,
      VerificationManifestCodec.decode_eq_ok_iff.mpr ⟨rfl, haccepted⟩, hidentity, hdigest,
      hpositions⟩

/-! ## Ten digits -/

/-- The series, resolved at the first positions. -/
def firstHexDigits : BBPSeries := fun position =>
  ([2, 4, 3, 15, 6, 10] : List (Fin 16))[position.toNat]?

def tenDigitsText : Bytes :=
  ascii "3.1415926536"

theorem tenDigitsText_isCanonical : IsCanonicalDecimal tenDigits.requestedDigits tenDigitsText :=
  ⟨ascii "1415926536", rfl, rfl, List.all_eq_true.mp (by decide)⟩

def tenDigitsDecimal : CanonicalDecimal :=
  ⟨tenDigitsText, tenDigits.requestedDigits, tenDigitsText_isCanonical⟩

def tenDigitsFile : FileReading :=
  ⟨true, tenDigitsText ++ [10], false, by decide⟩

theorem tenDigitsFile_isOutputFile :
    IsOutputFile tenDigitsFile tenDigits.requestedDigits tenDigitsText :=
  ⟨rfl, rfl, tenDigitsText_isCanonical, rfl⟩

/-- The digits agree at all six safe positions. -/
theorem tenDigits_agree {extractor : DecimalHexDigitExtractor}
    (hnumerator : extractor.numerator = 1415926536) (hdigits : extractor.requestedDigits = 10)
    {position : UInt64} (h : position < 6) : Agrees firstHexDigits extractor position := by
  have heq : extractor = ⟨1415926536, 10 ^ 10, 10, by decide, rfl⟩ := by
    obtain ⟨numerator, denominator, requestedDigits, hne, hpower⟩ := extractor
    subst hpower
    subst hnumerator
    subst hdigits
    rfl
  obtain ⟨number, hlt, rfl⟩ : ∃ number < 6, position = UInt64.ofNat number :=
    ⟨position.toNat, UInt64.lt_iff_toNat_lt.mp h, (UInt64.ofNat_toNat).symm⟩
  rw [heq]
  interval_cases number
  · exact ⟨2, rfl, rfl⟩
  · exact ⟨4, rfl, rfl⟩
  · exact ⟨3, rfl, rfl⟩
  · exact ⟨15, rfl, rfl⟩
  · exact ⟨6, rfl, rfl⟩
  · exact ⟨10, rfl, rfl⟩

/-- The run on ten digits passes. -/
theorem verifyFile_tenDigits : ∃ run,
    verifyFile firstHexDigits (.same tenDigitsFile) tenDigits eightSamples = .ok run ∧
      run.report.status = .passed := by
  obtain ⟨run, digest, extractor, bbp, hrun, -, hextractor, -, hcheck, -, hchecks, -⟩ :=
    @verifyMemory_eq_ok firstHexDigits tenDigits eightSamples tenDigits_isValid (by decide)
      tenDigitsText tenDigitsText_isCanonical (by decide)
  obtain ⟨made, hmade, hnumerator, hdigits⟩ :=
    DecimalHexDigitExtractor.ofDecimal_eq_ok tenDigitsDecimal (by decide)
  have hsame : made = extractor := Except.ok.inj (hmade.symm.trans hextractor)
  rw [hsame] at hnumerator hdigits
  have hvalue : appendDigits 0 tenDigitsDecimal.fractionalDigits = 1415926536 := by decide +kernel
  have hknown : (KnownDigitsVerifier.verify tenDigitsDecimal).verification = .passed .knownDigits := by
    decide +kernel
  have hbbp : bbp.check.status = .passed ∨ bbp.check.status = .skipped := by
    refine hcheck.passes_iff.mpr fun position hmem => ?_
    refine tenDigits_agree (hnumerator.trans (by rw [hvalue]; rfl)) hdigits ?_
    exact (eightSamples.select_isSelection tenDigits).1.lt position hmem
  change run.report.checks = [.passed .outputStructure,
    (KnownDigitsVerifier.verify tenDigitsDecimal).verification, .passed .hash, bbp.check] at hchecks
  refine ⟨run, ?_, FinalVerificationReport.status_eq_passed ?_ ?_⟩
  · rw [verifyFile_eq_verifyMemory (by decide) tenDigitsFile_isOutputFile (by decide)]
    exact hrun
  · rw [hchecks, hknown]
    simpa [VerificationCheckResult.passed] using hbbp
  · rw [hchecks]
    exact ⟨_, List.mem_cons_self, rfl⟩

theorem fromRun_isPublished_ten : ∃ run,
    (verifyFile firstHexDigits (.same tenDigitsFile) tenDigits eightSamples = .ok run ∧
      run.report.status = .passed) ∧
    (run.report.status ≠ .passed →
      ∃ error, VerificationManifest.fromRun run (ascii "pi.txt") 12 1 = .error error) ∧
    (run.report.status = .passed → ∃ manifest bytes,
      VerificationManifest.fromRun run (ascii "pi.txt") 12 1 = .ok manifest ∧
      VerificationManifestCodec.encode manifest = .ok bytes ∧
      VerificationManifestCodec.decode bytes = .ok manifest ∧
      manifest.identity = tenDigits ∧ run.sha256 = some manifest.sha256 ∧
      manifest.bbpSamples.map VerificationManifestSample.position =
        eightSamples.select tenDigits) := by
  obtain ⟨run, hrun, hpassed⟩ := verifyFile_tenDigits
  exact ⟨run, ⟨hrun, hpassed⟩,
    fromRun_isPublished hrun (by decide) (by decide) (by decide)⟩

end FinalVerifier

end GiveMePi.Verification
