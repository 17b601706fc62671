import GiveMePi.Verification.FinalVerification

/-! # Canonical decimals

The text `3.` and as many decimal digits as requested, and nothing else. -/

namespace GiveMePi.Verification

/-- `'0' <= value && value <= '9'` -/
def isDigit (value : UInt8) : Bool :=
  48 ≤ value && value ≤ 57

/-- The texts that are canonical. -/
structure IsCanonicalDecimal (requestedDigits : UInt64) (bytes : Bytes) : Prop where
  exists_digits : ∃ digits, bytes = ascii "3." ++ digits ∧
    digits.length = requestedDigits.toNat ∧ ∀ digit ∈ digits, isDigit digit = true

structure CanonicalDecimal where
  bytes : Bytes
  requestedDigits : UInt64
  canonical : IsCanonicalDecimal requestedDigits bytes

namespace CanonicalDecimal

def fractionalDigits (decimal : CanonicalDecimal) : Bytes :=
  decimal.bytes.drop 2

end CanonicalDecimal

structure CanonicalDecimalInspection where
  verification : VerificationCheckResult
  decimal : Option CanonicalDecimal

namespace CanonicalDecimalInspection

def accepted (inspection : CanonicalDecimalInspection) : Bool :=
  inspection.verification.status = .passed && inspection.decimal.isSome

def rejection (reason : VerificationReason) (detail : String) (offset : Option UInt64) :
    CanonicalDecimalInspection :=
  ⟨.failed .outputStructure reason detail offset, none⟩

end CanonicalDecimalInspection

/-- The loop over the digits: the offset of the first byte that is none. -/
def firstNonDigit : ℕ → Bytes → Option ℕ
  | _, [] => none
  | offset, value :: rest =>
      if isDigit value then firstNonDigit (offset + 1) rest else some offset

theorem firstNonDigit_eq_none {offset : ℕ} {bytes : Bytes} :
    firstNonDigit offset bytes = none ↔ ∀ value ∈ bytes, isDigit value = true := by
  induction bytes generalizing offset with
  | nil => simp [firstNonDigit]
  | cons value rest ih =>
      rw [firstNonDigit, List.forall_mem_cons]
      split
      · next hdigit => simp [ih, hdigit]
      · next hdigit => simp [hdigit]

theorem toNat_add_two {requestedDigits : UInt64} (hfits : ¬ requestedDigits > uint64Max - 2) :
    (requestedDigits + 2).toNat = requestedDigits.toNat + 2 := by
  rw [UInt64.not_lt, UInt64.le_iff_toNat_le] at hfits
  have hmax : (uint64Max - 2).toNat = 2 ^ 64 - 3 := rfl
  exact toNat_add_of_lt (by change _ + 2 < _; omega)

/-- What the checks before the last establish. -/
theorem isCanonicalDecimal_of_checks {candidate : Bytes} {requestedDigits : UInt64}
    (hfits : ¬ requestedDigits > uint64Max - 2)
    (hbegins : ¬ (candidate.length < 2 ∨ candidate[0]? ≠ some 51 ∨ candidate[1]? ≠ some 46))
    (hlong : ¬ candidate.length > (requestedDigits + 2).toNat)
    (hshort : ¬ candidate.length < (requestedDigits + 2).toNat)
    (hdigits : firstNonDigit 2 (candidate.drop 2) = none) :
    IsCanonicalDecimal requestedDigits candidate := by
  have htwo := toNat_add_two hfits
  rw [not_or, not_or, not_not, not_not] at hbegins
  obtain ⟨-, hthree, hpoint⟩ := hbegins
  match candidate, hthree, hpoint with
  | three :: point :: digits, hthree, hpoint =>
      obtain rfl : three = 51 := by simpa using hthree
      obtain rfl : point = 46 := by simpa using hpoint
      refine ⟨digits, rfl, ?_, firstNonDigit_eq_none.mp hdigits⟩
      simp only [List.length_cons] at hlong hshort
      omega

open CanonicalDecimalInspection in
def inspectCanonicalDecimal (candidate : Bytes) (requestedDigits : UInt64) :
    CanonicalDecimalInspection :=
  if requestedDigits = 0 then
    rejection .operationFailed "Requested digit count must be greater than zero" none
  else if hfits : requestedDigits > uint64Max - 2 then
    rejection .invalidOutputLength "Canonical decimal length does not fit this platform" none
  else if hbegins : candidate.length < 2 ∨ candidate[0]? ≠ some 51 ∨ candidate[1]? ≠ some 46 then
    rejection .invalidOutputPrefix "Canonical decimal must begin with 3."
      (some (if candidate[0]? = some 51 then 1 else 0))
  else if hlong : candidate.length > (requestedDigits + 2).toNat then
    rejection .trailingData "Canonical decimal contains trailing data" (some (requestedDigits + 2))
  else if hshort : candidate.length < (requestedDigits + 2).toNat then
    rejection .invalidOutputLength "Canonical decimal has fewer digits than requested"
      (some (UInt64.ofNat candidate.length))
  else
    match hdigits : firstNonDigit 2 (candidate.drop 2) with
    | some offset =>
        rejection .invalidOutputCharacter "Canonical decimal contains a non-ASCII digit"
          (some (UInt64.ofNat offset))
    | none =>
        ⟨.passed .outputStructure, some ⟨candidate, requestedDigits,
          isCanonicalDecimal_of_checks hfits hbegins hlong hshort hdigits⟩⟩

/-! ## What is accepted -/

namespace IsCanonicalDecimal

variable {requestedDigits : UInt64} {candidate : Bytes}

theorem length_eq (h : IsCanonicalDecimal requestedDigits candidate) :
    candidate.length = requestedDigits.toNat + 2 := by
  obtain ⟨digits, rfl, hlength, -⟩ := h
  rw [List.length_append, hlength]
  exact Nat.add_comm _ _

theorem digits_drop (h : IsCanonicalDecimal requestedDigits candidate) :
    ∀ digit ∈ candidate.drop 2, isDigit digit = true := by
  obtain ⟨digits, rfl, -, hdigits⟩ := h
  exact hdigits

theorem eq_append (h : IsCanonicalDecimal requestedDigits candidate) :
    candidate = ascii "3." ++ candidate.drop 2 := by
  obtain ⟨digits, rfl, -, -⟩ := h
  rfl

end IsCanonicalDecimal

/-- A canonical text is accepted as it is. -/
theorem inspectCanonicalDecimal_of_canonical {candidate : Bytes} {requestedDigits : UInt64}
    (hpos : requestedDigits ≠ 0) (hfits : ¬ requestedDigits > uint64Max - 2)
    (h : IsCanonicalDecimal requestedDigits candidate) :
    inspectCanonicalDecimal candidate requestedDigits =
      ⟨.passed .outputStructure, some ⟨candidate, requestedDigits, h⟩⟩ := by
  have hlength := h.length_eq
  have hdigits : firstNonDigit 2 (candidate.drop 2) = none :=
    firstNonDigit_eq_none.mpr h.digits_drop
  have hstart : candidate[0]? = some 51 ∧ candidate[1]? = some 46 := by
    rw [h.eq_append]
    exact ⟨rfl, rfl⟩
  rw [inspectCanonicalDecimal, if_neg hpos, dif_neg hfits,
    dif_neg (by rw [hstart.1, hstart.2]; simp; omega),
    dif_neg (by rw [toNat_add_two hfits]; omega), dif_neg (by rw [toNat_add_two hfits]; omega)]
  split
  · next offset hoffset => rw [hdigits] at hoffset; cases hoffset
  · rfl

/-- Every other text is rejected. -/
theorem inspectCanonicalDecimal_of_not {candidate : Bytes} {requestedDigits : UInt64}
    (h : ¬ (requestedDigits ≠ 0 ∧ ¬ requestedDigits > uint64Max - 2 ∧
      IsCanonicalDecimal requestedDigits candidate)) :
    ∃ reason detail offset, inspectCanonicalDecimal candidate requestedDigits =
      .rejection reason detail offset := by
  by_contra hnone
  simp only [not_exists] at hnone
  rw [inspectCanonicalDecimal] at hnone
  split at hnone
  · exact hnone _ _ _ rfl
  · next hpos =>
      split at hnone
      · exact hnone _ _ _ rfl
      · next hfits =>
          split_ifs at hnone with hbegins hthree hlong hshort
          · exact hnone _ _ _ rfl
          · exact hnone _ _ _ rfl
          · exact hnone _ _ _ rfl
          · exact hnone _ _ _ rfl
          · split at hnone
            · exact hnone _ _ _ rfl
            · next hdigits =>
                exact h ⟨hpos, hfits,
                  isCanonicalDecimal_of_checks hfits hbegins hlong hshort hdigits⟩

end GiveMePi.Verification
