import GiveMePi.Verification.FinalVerifier

/-! # Verifying a file and verifying its text

A file with a text and one newline behind it has the verdicts of the text in memory, although it is
opened anew for each check and read through buffers, in pieces and in groups of digits. -/

namespace GiveMePi.Verification

/-- Two runs with the same digest, known digits and samples, whose checks differ in their
diagnostics at most. -/
structure FinalVerificationRun.SameVerdicts (left right : FinalVerificationRun) : Prop where
  identity : left.report.identity = right.report.identity
  checks : left.report.checks.map (fun check => (check.stage, check.status)) =
    right.report.checks.map fun check => (check.stage, check.status)
  status : left.report.status = right.report.status
  sha256 : left.sha256 = right.sha256
  knownDigits : left.knownDigits = right.knownDigits
  bbpSamples : left.bbpSamples = right.bbpSamples

theorem FinalVerificationRun.SameVerdicts.refl (run : FinalVerificationRun) :
    run.SameVerdicts run :=
  ⟨rfl, rfl, rfl, rfl, rfl, rfl⟩

theorem SHA256.length_lt_of_hash {message : Bytes} {digest : SHA256Digest}
    (h : SHA256.hash message = .ok digest) : message.length < 2 ^ 61 := by
  by_contra hlong
  have hlimit := @SHA256.update_over_limit _ _ message SHA256.new_represents (by simpa using hlong)
  rw [SHA256.hash, Library.Program.bind_of_error hlimit] at h
  cases h

namespace FinalVerifier

open FinalOutputInspector (IsOutputFile inspectFile inspectFile_of_not inspectFile_of_outputFile)

section

variable {series : BBPSeries} {identity : VerificationIdentity} {policy : BBPSamplePolicy}

/-- A run that stops after the structure has the result of that check and nothing else. -/
theorem stoppedAfterStructure_eq_ok (hvalid : identity.IsValid) {check : VerificationCheckResult}
    (hstage : check.stage = .outputStructure) :
    ∃ run, stoppedAfterStructure identity check = .ok run ∧ run.report.identity = identity ∧
      run.report.checks = [check, .skipped .knownDigits, .skipped .hash, .skipped .bbp] ∧
      run.sha256 = none ∧ run.knownDigits = none ∧ run.bbpSamples = [] := by
  have hdistinct : ([check, .skipped .knownDigits, .skipped .hash, .skipped .bbp].map
      VerificationCheckResult.stage).Nodup := by
    simp [hstage, VerificationCheckResult.skipped]
  rw [stoppedAfterStructure, FinalVerificationReport.create_eq_ok hvalid (by simp) hdistinct]
  exact ⟨_, rfl, rfl, rfl, rfl, rfl, rfl⟩

/-- Two rejections have the same verdicts, whatever their reasons. -/
theorem stoppedAfterStructure_sameVerdicts (hvalid : identity.IsValid)
    (reason reason' : VerificationReason) (detail detail' : String)
    (offset offset' : Option UInt64) :
    ∃ left right,
      stoppedAfterStructure identity (.failed .outputStructure reason detail offset) = .ok left ∧
        stoppedAfterStructure identity (.failed .outputStructure reason' detail' offset') =
          .ok right ∧ left.SameVerdicts right := by
  obtain ⟨left, hleft, hidentity, hchecks, hsha256, hknown, hsamples⟩ :=
    @stoppedAfterStructure_eq_ok identity hvalid
      (.failed .outputStructure reason detail offset) rfl
  obtain ⟨right, hright, hidentity', hchecks', hsha256', hknown', hsamples'⟩ :=
    @stoppedAfterStructure_eq_ok identity hvalid
      (.failed .outputStructure reason' detail' offset') rfl
  refine ⟨left, right, hleft, hright, hidentity.trans hidentity'.symm, ?_, ?_,
    hsha256.trans hsha256'.symm, hknown.trans hknown'.symm, hsamples.trans hsamples'.symm⟩
  · rw [hchecks, hchecks']
    rfl
  · rw [FinalVerificationReport.status, FinalVerificationReport.status, hchecks, hchecks']
    rfl

theorem not_lt_of_not_three {requestedDigits : UInt64} (h : ¬ requestedDigits > uint64Max - 3) :
    ¬ requestedDigits > uint64Max - 2 := by
  have hthree : (uint64Max - 3).toNat = 2 ^ 64 - 4 := rfl
  have htwo : (uint64Max - 2).toNat = 2 ^ 64 - 3 := rfl
  simp only [gt_iff_lt, UInt64.lt_iff_toNat_lt, hthree, htwo] at h ⊢
  omega

theorem verifyMemory_of_canonical (hpos : identity.requestedDigits ≠ 0)
    (hfits : ¬ identity.requestedDigits > uint64Max - 2) {candidate : Bytes}
    (h : IsCanonicalDecimal identity.requestedDigits candidate) :
    verifyMemory series candidate identity policy = (do
      let decimal : CanonicalDecimal := ⟨candidate, identity.requestedDigits, h⟩
      let known := KnownDigitsVerifier.verify decimal
      let digest ← SHA256.hash decimal.bytes
      let extractor ← DecimalHexDigitExtractor.ofDecimal decimal
      let bbp ← verifySamples series extractor identity policy
      let report ← FinalVerificationReport.create identity
        [.passed .outputStructure, known.verification, .passed .hash, bbp.check]
      pure ⟨report, some digest, some known, bbp.samples⟩) := by
  rw [verifyMemory, inspectCanonicalDecimal_of_canonical hpos hfits h]
  rfl

theorem verifyMemory_of_not {candidate : Bytes}
    (h : ¬ (identity.requestedDigits ≠ 0 ∧ ¬ identity.requestedDigits > uint64Max - 2 ∧
      IsCanonicalDecimal identity.requestedDigits candidate)) :
    ∃ reason detail offset, verifyMemory series candidate identity policy =
      stoppedAfterStructure identity (.failed .outputStructure reason detail offset) := by
  obtain ⟨reason, detail, offset, hinspect⟩ := inspectCanonicalDecimal_of_not h
  refine ⟨reason, detail, offset, ?_⟩
  rw [verifyMemory, hinspect]
  rfl

theorem verifyFile_of_not {readings : FileReadings}
    (h : ¬ (identity.requestedDigits ≠ 0 ∧
      ∃ canonical, IsOutputFile readings.inspection identity.requestedDigits canonical)) :
    ∃ reason detail offset, verifyFile series readings identity policy =
      stoppedAfterStructure identity (.failed .outputStructure reason detail offset) := by
  obtain ⟨reason, detail, offset, hinspect⟩ := inspectFile_of_not h
  refine ⟨reason, detail, offset, ?_⟩
  rw [verifyFile, hinspect]
  rfl

theorem hashCheck_of_ok {reading : FileReading} {file : InspectedOutputFile} {digest : SHA256Digest}
    (h : SHA256.hashFileStart reading file.canonicalByteCount = .ok digest) :
    hashCheck reading file = (some digest, .passed .hash) := by
  rw [hashCheck, h]

theorem fileSamples_of_ok {reading : FileReading} {file : InspectedOutputFile}
    {extractor : DecimalHexDigitExtractor} {bbp : BBPCheck}
    (hextractor : DecimalHexDigitExtractor.fromFile reading file = .ok extractor)
    (hbbp : verifySamples series extractor identity policy = .ok bbp) :
    fileSamples series reading file identity policy = bbp := by
  rw [fileSamples, hextractor, ok_bind, hbbp]

theorem verifyFile_of_outputFile (hpos : identity.requestedDigits ≠ 0) {readings : FileReadings}
    {canonical : Bytes} (h : IsOutputFile readings.inspection identity.requestedDigits canonical) :
    verifyFile series readings identity policy = (do
      let digits := identity.requestedDigits
      let file : InspectedOutputFile := ⟨digits + 2 + 1, digits + 2, digits⟩
      let known := KnownDigitsVerifier.verifyFile readings.knownDigits file
      let hashed := hashCheck readings.hash file
      let bbp := fileSamples series readings.fraction file identity policy
      let report ← FinalVerificationReport.create identity
        [.passed .outputStructure, known.verification, hashed.2, bbp.check]
      pure ⟨report, hashed.1, some known, bbp.samples⟩) := by
  rw [verifyFile, inspectFile_of_outputFile hpos h]
  rfl

/-- The checks of a canonical text, none of which throws unless the text is too long to hash. -/
theorem verifyMemory_eq_ok (hvalid : identity.IsValid)
    (hfits : ¬ identity.requestedDigits > uint64Max - 2) {candidate : Bytes}
    (h : IsCanonicalDecimal identity.requestedDigits candidate) (hlimit : candidate.length < 2 ^ 61) :
    ∃ run digest extractor bbp,
      verifyMemory series candidate identity policy = .ok run ∧
      SHA256.hash candidate = .ok digest ∧
      DecimalHexDigitExtractor.ofDecimal ⟨candidate, identity.requestedDigits, h⟩ = .ok extractor ∧
      verifySamples series extractor identity policy = .ok bbp ∧
      IsCheckOf series extractor (policy.select identity) bbp ∧
      run.report.identity = identity ∧
      run.report.checks = [.passed .outputStructure,
        (KnownDigitsVerifier.verify ⟨candidate, identity.requestedDigits, h⟩).verification,
        .passed .hash, bbp.check] ∧
      run.sha256 = some digest ∧
      run.knownDigits =
        some (KnownDigitsVerifier.verify ⟨candidate, identity.requestedDigits, h⟩) ∧
      run.bbpSamples = bbp.samples := by
  obtain ⟨digest, hdigest, -⟩ := SHA256.hash_eq hlimit
  obtain ⟨extractor, hextractor, -, -⟩ := DecimalHexDigitExtractor.ofDecimal_eq_ok
    ⟨candidate, identity.requestedDigits, h⟩ hvalid.requestedDigits
  obtain ⟨bbp, hbbp, hcheck⟩ := verifySamples_eq_ok series extractor identity policy
  have hdistinct : ([.passed .outputStructure,
      (KnownDigitsVerifier.verify ⟨candidate, identity.requestedDigits, h⟩).verification,
      .passed .hash, bbp.check].map VerificationCheckResult.stage).Nodup := by
    simp [hcheck.stage, VerificationCheckResult.passed, KnownDigitsVerifier.verify,
      (KnownDigitsVerifier.compare_fields _ _).2.1]
  rw [verifyMemory_of_canonical hvalid.requestedDigits hfits h]
  dsimp only
  rw [hdigest, ok_bind, hextractor, ok_bind, hbbp, ok_bind,
    FinalVerificationReport.create_eq_ok hvalid (by simp) hdistinct, ok_bind]
  exact ⟨_, digest, extractor, bbp, rfl, rfl, rfl, hbbp, hcheck, rfl, rfl, rfl, rfl, rfl⟩

/-- An output file that does not change is verified as its text is. -/
theorem verifyFile_eq_verifyMemory (hpos : identity.requestedDigits ≠ 0) {reading : FileReading}
    {canonical : Bytes} (h : IsOutputFile reading identity.requestedDigits canonical)
    (hlimit : canonical.length < 2 ^ 61) :
    verifyFile series (.same reading) identity policy =
      verifyMemory series canonical identity policy := by
  obtain ⟨digest, hdigest, -⟩ := SHA256.hash_eq hlimit
  obtain ⟨extractor, hextractor, -, -⟩ := DecimalHexDigitExtractor.ofDecimal_eq_ok
    ⟨canonical, identity.requestedDigits, h.isCanonical⟩ hpos
  obtain ⟨bbp, hbbp, -⟩ := verifySamples_eq_ok series extractor identity policy
  have hfile := DecimalHexDigitExtractor.fromFile_eq_ofDecimal hpos h
  have hsize : canonical.length = (identity.requestedDigits + 2).toNat := by
    rw [h.isCanonical.length_eq, (FinalOutputInspector.toNat_sizes h.fits).1]
  have hhash : SHA256.hashFileStart reading (identity.requestedDigits + 2) = .ok digest :=
    (SHA256.hashFileStart_eq h.isOpen h.bytes hsize hlimit).trans hdigest
  have hreadings : IsOutputFile (FileReadings.same reading).inspection identity.requestedDigits
      canonical := h
  rw [verifyFile_of_outputFile hpos hreadings,
    verifyMemory_of_canonical hpos (not_lt_of_not_three h.fits) h.isCanonical]
  dsimp only [FileReadings.same]
  rw [hashCheck_of_ok hhash, fileSamples_of_ok (hfile.trans hextractor) hbbp,
    KnownDigitsVerifier.verifyFile_of_outputFile hpos h, hdigest, ok_bind, hextractor, ok_bind, hbbp,
    ok_bind]

end

/-- An arbitrary file passes the check of the structure exactly when it is a canonical text with one
newline behind it, and the file of a text has the verdicts of the text; for a canonical text it is
the same run. -/
theorem verifyFile_agrees (series : BBPSeries) {identity : VerificationIdentity}
    (hvalid : identity.IsValid) (policy : BBPSamplePolicy) :
    (∀ reading : FileReading,
      (inspectFile reading identity.requestedDigits).accepted = true ↔
        reading.isOpen = true ∧ reading.failed = false ∧ ∃ canonical,
          IsCanonicalDecimal identity.requestedDigits canonical ∧
            reading.bytes = canonical ++ [10]) ∧
    ∀ (reading : FileReading) (candidate : Bytes), reading.isOpen = true →
      reading.failed = false → reading.bytes = candidate ++ [10] →
      (candidate.length < 2 ^ 61 →
        ∃ run, verifyMemory series candidate identity policy = .ok run) ∧
      ∀ run, verifyMemory series candidate identity policy = .ok run →
        ∃ fileRun, verifyFile series (.same reading) identity policy = .ok fileRun ∧
          fileRun.SameVerdicts run ∧
          ((inspectCanonicalDecimal candidate identity.requestedDigits).accepted = true →
            fileRun = run) := by
  have hpos := hvalid.requestedDigits
  constructor
  · intro reading
    by_cases h : ∃ canonical, IsOutputFile reading identity.requestedDigits canonical
    · obtain ⟨canonical, hcanonical⟩ := h
      rw [inspectFile_of_outputFile hpos hcanonical]
      exact ⟨fun _ => ⟨hcanonical.isOpen, hcanonical.failed, canonical, hcanonical.isCanonical,
        hcanonical.bytes⟩, fun _ => rfl⟩
    · obtain ⟨reason, detail, offset, hinspect⟩ := inspectFile_of_not fun hfile => h hfile.2
      rw [hinspect]
      refine ⟨fun haccepted => (by cases haccepted), ?_⟩
      rintro ⟨hopen, hread, canonical, hcanonical, hbytes⟩
      exact absurd ⟨canonical, hopen, hread, hcanonical, hbytes⟩ h
  · intro reading candidate hopen hread hbytes
    have haccepted : identity.requestedDigits ≠ 0 ∧
        (∃ canonical, IsOutputFile reading identity.requestedDigits canonical) ↔
          IsCanonicalDecimal identity.requestedDigits candidate := by
      constructor
      · rintro ⟨-, canonical, hcanonical⟩
        have heq := List.append_cancel_right (hbytes.symm.trans hcanonical.bytes)
        exact heq ▸ hcanonical.isCanonical
      · exact fun hcanonical => ⟨hpos, candidate, hopen, hread, hcanonical, hbytes⟩
    by_cases h : IsCanonicalDecimal identity.requestedDigits candidate
    · have hfile : IsOutputFile reading identity.requestedDigits candidate :=
        ⟨hopen, hread, h, hbytes⟩
      have hfits := not_lt_of_not_three hfile.fits
      constructor
      · intro hlimit
        obtain ⟨run, _, _, _, hrun, -⟩ :=
          @verifyMemory_eq_ok series identity policy hvalid hfits candidate h hlimit
        exact ⟨run, hrun⟩
      · intro run hrun
        have hlimit : candidate.length < 2 ^ 61 := by
          rw [verifyMemory_of_canonical hpos hfits h] at hrun
          dsimp only at hrun
          rw [bind_eq_ok] at hrun
          obtain ⟨digest, hdigest, -⟩ := hrun
          exact SHA256.length_lt_of_hash hdigest
        exact ⟨run, (verifyFile_eq_verifyMemory hpos hfile hlimit).trans hrun, .refl run,
          fun _ => rfl⟩
    · obtain ⟨reason, detail, offset, hmemory⟩ :=
        @verifyMemory_of_not series identity policy candidate fun hcanonical => h hcanonical.2.2
      obtain ⟨reason', detail', offset', hfile⟩ :=
        @verifyFile_of_not series identity policy (.same reading)
          fun hcanonical => h (haccepted.mp hcanonical)
      obtain ⟨left, right, hleft, hright, hsame⟩ := stoppedAfterStructure_sameVerdicts hvalid
        reason' reason detail' detail offset' offset
      rw [hmemory, hfile, hleft, hright]
      refine ⟨fun _ => ⟨right, rfl⟩, fun run hrun => ⟨left, rfl, ?_, ?_⟩⟩
      · rw [← Except.ok.inj hrun]
        exact hsame
      · intro haccepted
        obtain ⟨reason, detail, offset, hinspect⟩ :=
          @inspectCanonicalDecimal_of_not candidate identity.requestedDigits
            fun hcanonical => h hcanonical.2.2
        rw [hinspect] at haccepted
        cases haccepted

def tenDigits : VerificationIdentity :=
  ⟨10, 32, 42, 4⟩

theorem tenDigits_isValid : tenDigits.IsValid :=
  ⟨by decide, by decide, by decide⟩

theorem eight_pos : 0 < 8 := by
  decide

theorem eight_le : 8 ≤ maximumBBPSampleCount := by
  decide

def eightSamples : BBPSamplePolicy :=
  ⟨8, eight_pos, eight_le⟩

theorem verifyFile_agrees_ten :
    (∀ reading : FileReading,
      (inspectFile reading 10).accepted = true ↔
        reading.isOpen = true ∧ reading.failed = false ∧ ∃ canonical,
          IsCanonicalDecimal 10 canonical ∧ reading.bytes = canonical ++ [10]) ∧
    ∀ (reading : FileReading) (candidate : Bytes), reading.isOpen = true →
      reading.failed = false → reading.bytes = candidate ++ [10] →
      (candidate.length < 2 ^ 61 →
        ∃ run, verifyMemory (fun _ => none) candidate tenDigits eightSamples = .ok run) ∧
      ∀ run, verifyMemory (fun _ => none) candidate tenDigits eightSamples = .ok run →
        ∃ fileRun, verifyFile (fun _ => none) (.same reading) tenDigits eightSamples =
            .ok fileRun ∧ fileRun.SameVerdicts run ∧
          ((inspectCanonicalDecimal candidate 10).accepted = true → fileRun = run) :=
  verifyFile_agrees (fun _ => none) tenDigits_isValid eightSamples

end FinalVerifier

end GiveMePi.Verification
