import GiveMePi.Verification.FinalOutputInspector
import Mathlib.Data.List.Find

/-! # Known digits

The first digits of an output, compared with published ones. -/

namespace GiveMePi.Verification

def knownDigitsReferenceVersion : UInt32 := 1

structure KnownDigitsVerification where
  verification : VerificationCheckResult
  referenceVersion : UInt32
  referenceDigits : UInt64
  comparedDigits : UInt64
deriving DecidableEq, Repr

namespace KnownDigitsVerification

def matched (known : KnownDigitsVerification) : Bool :=
  known.verification.status = .passed

end KnownDigitsVerification

namespace KnownDigitsVerifier

/-- One digit more than are published, which decides the rounding. -/
def referenceFractionalDigits : Bytes :=
  ascii ("14159265358979323846264338327950288419716939937510" ++
    "582097494459230781640628620899862803482534211706798")

def publishedReferenceDigits : UInt64 := 100

/-- The loop that rounds up, from the last digit to the first. -/
def roundUp : Bytes → Bytes
  | [] => []
  | digit :: rest => if digit ≠ 57 then (digit + 1) :: rest else 48 :: roundUp rest

/-- `expectedPrefix` -/
def expectedDigits (requestedDigits : UInt64) : Bytes :=
  let compared := min requestedDigits publishedReferenceDigits
  let expected := referenceFractionalDigits.take compared.toNat
  if requestedDigits ≤ publishedReferenceDigits ∧
      referenceFractionalDigits.getD requestedDigits.toNat 0 ≥ 53 then
    (roundUp expected.reverse).reverse
  else expected

/-- The loop over the compared digits: the index of the first that differs. -/
def firstMismatch (fractionalDigits expected : Bytes) (compared : ℕ) : Option ℕ :=
  (List.range compared).find? fun index => fractionalDigits[index]? ≠ expected[index]?

def compare (fractionalDigits : Bytes) (requestedDigits : UInt64) : KnownDigitsVerification :=
  let compared := min requestedDigits publishedReferenceDigits
  let verification :=
    match firstMismatch fractionalDigits (expectedDigits requestedDigits) compared.toNat with
    | none => .passed .knownDigits
    | some index =>
        .failed .knownDigits .knownDigitsMismatch "Canonical decimal differs from known pi prefix"
          (some (UInt64.ofNat index + 2))
  ⟨verification, knownDigitsReferenceVersion, publishedReferenceDigits, compared⟩

def readFailure (detail : String) : KnownDigitsVerification :=
  ⟨.failed .knownDigits .fileReadFailed detail none, knownDigitsReferenceVersion,
    publishedReferenceDigits, 0⟩

def verify (decimal : CanonicalDecimal) : KnownDigitsVerification :=
  compare decimal.fractionalDigits decimal.requestedDigits

/-- The overload for an inspected file, which is opened again. -/
def verifyFile (reading : FileReading) (file : InspectedOutputFile) : KnownDigitsVerification :=
  if file.HasInvalidSizes then
    readFailure "Invalid inspected output metadata"
  else
    let compared := min file.requestedDigits publishedReferenceDigits
    let requiredBytes := (compared + 2).toNat
    if reading.isOpen = false then
      readFailure "Cannot open output file for known-digits verification"
    else
      let start := reading.bytes.take requiredBytes
      if start.length ≠ requiredBytes then
        readFailure "Output file ended before the known prefix"
      else if start[0]? ≠ some 51 ∨ start[1]? ≠ some 46 then
        ⟨.failed .knownDigits .knownDigitsMismatch
          "Canonical decimal prefix changed after inspection"
          (some (if start[0]? = some 51 then 1 else 0)), knownDigitsReferenceVersion,
          publishedReferenceDigits, compared⟩
      else
        compare (start.drop 2) file.requestedDigits

/-! ## What is compared -/

/-- Digits behind the compared ones make no difference. -/
theorem compare_take (fractionalDigits : Bytes) (requestedDigits : UInt64) :
    compare (fractionalDigits.take (min requestedDigits publishedReferenceDigits).toNat)
      requestedDigits = compare fractionalDigits requestedDigits := by
  have hsame : firstMismatch
      (fractionalDigits.take (min requestedDigits publishedReferenceDigits).toNat)
      (expectedDigits requestedDigits) (min requestedDigits publishedReferenceDigits).toNat =
      firstMismatch fractionalDigits (expectedDigits requestedDigits)
        (min requestedDigits publishedReferenceDigits).toNat := by
    refine List.find?_congr fun index hindex => ?_
    rw [List.getElem?_take_of_lt (List.mem_range.mp hindex)]
  rw [compare, compare, hsame]

theorem toNat_compared (requestedDigits : UInt64) :
    (min requestedDigits publishedReferenceDigits + 2).toNat =
      (min requestedDigits publishedReferenceDigits).toNat + 2 ∧
    (min requestedDigits publishedReferenceDigits).toNat ≤ requestedDigits.toNat := by
  have hle : (min requestedDigits publishedReferenceDigits).toNat ≤ 100 :=
    UInt64.le_iff_toNat_le.mp (min_le_right _ _)
  refine ⟨toNat_add_of_lt ?_, UInt64.le_iff_toNat_le.mp (min_le_left _ _)⟩
  change _ + 2 < _
  omega

/-- An output file is compared as its text is. -/
theorem verifyFile_of_outputFile {reading : FileReading} {requestedDigits : UInt64}
    {canonical : Bytes} (hpos : requestedDigits ≠ 0)
    (h : FinalOutputInspector.IsOutputFile reading requestedDigits canonical) :
    verifyFile reading ⟨requestedDigits + 2 + 1, requestedDigits + 2, requestedDigits⟩ =
      verify ⟨canonical, requestedDigits, h.isCanonical⟩ := by
  obtain ⟨htwo, hle⟩ := toNat_compared requestedDigits
  have hlength := h.isCanonical.length_eq
  have hstart : reading.bytes.take (min requestedDigits publishedReferenceDigits + 2).toNat =
      51 :: 46 :: (canonical.drop 2).take (min requestedDigits publishedReferenceDigits).toNat := by
    rw [h.bytes, htwo, List.take_append_of_le_length (by omega), h.isCanonical.eq_append]
    rfl
  have hfull : (51 :: 46 :: (canonical.drop 2).take
      (min requestedDigits publishedReferenceDigits).toNat : Bytes).length =
      (min requestedDigits publishedReferenceDigits).toNat + 2 := by
    simp only [List.length_cons, List.length_take, List.length_drop, hlength]
    omega
  rw [verifyFile, if_neg (InspectedOutputFile.not_hasInvalidSizes hpos h.fits)]
  dsimp only
  rw [if_neg (by simp [h.isOpen]), hstart, if_neg (by rw [hfull, htwo]; simp), if_neg (by simp)]
  exact compare_take (canonical.drop 2) requestedDigits

theorem compare_fields (fractionalDigits : Bytes) (requestedDigits : UInt64) :
    (compare fractionalDigits requestedDigits).referenceVersion = knownDigitsReferenceVersion ∧
      (compare fractionalDigits requestedDigits).verification.stage = .knownDigits ∧
      (compare fractionalDigits requestedDigits).verification.status ≠ .skipped := by
  rw [compare]
  dsimp only
  split
  · exact ⟨rfl, rfl, by simp [VerificationCheckResult.passed]⟩
  · exact ⟨rfl, rfl, by simp [VerificationCheckResult.failed]⟩

/-- Every result names the version of the digits, and none is skipped. -/
theorem verifyFile_fields (reading : FileReading) (file : InspectedOutputFile) :
    (verifyFile reading file).referenceVersion = knownDigitsReferenceVersion ∧
      (verifyFile reading file).verification.stage = .knownDigits ∧
      (verifyFile reading file).verification.status ≠ .skipped := by
  have hfailed (reason detail offset) :
      (VerificationCheckResult.failed .knownDigits reason detail offset).stage = .knownDigits ∧
        (VerificationCheckResult.failed .knownDigits reason detail offset).status ≠ .skipped :=
    ⟨rfl, by simp [VerificationCheckResult.failed]⟩
  rw [verifyFile]
  dsimp only
  split_ifs
  · exact ⟨rfl, hfailed _ _ _⟩
  · exact ⟨rfl, hfailed _ _ _⟩
  · exact ⟨rfl, hfailed _ _ _⟩
  · exact ⟨rfl, hfailed _ _ _⟩
  · exact ⟨rfl, hfailed _ _ _⟩
  · exact compare_fields _ _

/-- Only the start of a file is compared, and only if it is there. -/
theorem start_of_verifyFile {reading : FileReading} {file : InspectedOutputFile}
    (h : (verifyFile reading file).matched = true) :
    reading.isOpen = true ∧
      (min file.requestedDigits publishedReferenceDigits + 2).toNat ≤ reading.bytes.length := by
  rw [KnownDigitsVerification.matched, decide_eq_true_iff, verifyFile] at h
  dsimp only at h
  have hfailed (reason detail offset) :
      (VerificationCheckResult.failed .knownDigits reason detail offset).status ≠ .passed := by
    simp [VerificationCheckResult.failed]
  split_ifs at h with hsizes hclosed hshort
  · exact absurd h (hfailed _ _ _)
  · exact absurd h (hfailed _ _ _)
  · exact absurd h (hfailed _ _ _)
  · exact absurd h (hfailed _ _ _)
  · exact absurd h (hfailed _ _ _)
  · rw [not_not, List.length_take] at hshort
    exact ⟨by simpa using hclosed, by omega⟩

theorem verifyFile_congr {left right : FileReading} {file : InspectedOutputFile}
    (hopen : left.isOpen = right.isOpen)
    (h : left.bytes.take (min file.requestedDigits publishedReferenceDigits + 2).toNat =
      right.bytes.take (min file.requestedDigits publishedReferenceDigits + 2).toNat) :
    verifyFile left file = verifyFile right file := by
  simp only [verifyFile, hopen, h]

/-! ## Digits that match -/

/-- Digits that begin with the expected ones match. -/
theorem compare_matched {fractionalDigits : Bytes} {requestedDigits : UInt64}
    (h : fractionalDigits.take (min requestedDigits publishedReferenceDigits).toNat =
      expectedDigits requestedDigits) :
    (compare fractionalDigits requestedDigits).matched = true := by
  have hnone : firstMismatch (expectedDigits requestedDigits) (expectedDigits requestedDigits)
      (min requestedDigits publishedReferenceDigits).toNat = none := by
    rw [firstMismatch, List.find?_eq_none]
    simp
  rw [← compare_take, h, compare, hnone]
  rfl

theorem expectedDigits_of_long {requestedDigits : UInt64} (hlt : 100 < requestedDigits.toNat) :
    min requestedDigits publishedReferenceDigits = 100 ∧
      expectedDigits requestedDigits = referenceFractionalDigits.take 100 := by
  have hlong : ¬ requestedDigits ≤ publishedReferenceDigits := by
    rw [UInt64.le_iff_toNat_le]
    exact not_le.mpr hlt
  have hmin : min requestedDigits publishedReferenceDigits = 100 := min_eq_right (not_le.mp hlong).le
  refine ⟨hmin, ?_⟩
  rw [expectedDigits, hmin, if_neg fun h => hlong h.1]
  rfl

end KnownDigitsVerifier

end GiveMePi.Verification
