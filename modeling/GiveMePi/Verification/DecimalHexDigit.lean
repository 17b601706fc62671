import GiveMePi.Bigint.GMPInteger
import Mathlib.Algebra.Order.Archimedean.Real.Basic
import Mathlib.Tactic.FieldSimp

/-! # Hexadecimal digits of a decimal fraction

A decimal fraction of `n` digits stands for every number within half a unit of its last digit. A
hexadecimal digit is reported only when it is the same for all of them. -/

namespace GiveMePi.Verification

inductive BBPDigitStatus where
  | resolved
  | inconclusive
deriving DecidableEq, Repr

structure DecimalHexDigit where
  position : UInt64
  status : BBPDigitStatus
  digit : Option UInt8
deriving DecidableEq, Repr

namespace DecimalHexDigit

def resolved (digit : DecimalHexDigit) : Bool :=
  digit.status = .resolved && digit.digit.isSome

end DecimalHexDigit

/-- A fraction with as many decimal digits as requested. -/
structure DecimalHexDigitExtractor where
  numerator : ℤ
  denominator : ℤ
  requestedDigits : UInt64
  requestedDigits_ne : requestedDigits ≠ 0
  denominator_eq : denominator = 10 ^ requestedDigits.toNat

namespace DecimalHexDigitExtractor

def ofNumerator (numerator : ℤ) (requestedDigits : UInt64) :
    Except Error DecimalHexDigitExtractor :=
  if h : requestedDigits = 0 then
    throw (.invalidArgument "Decimal hex extraction requires digits")
  else
    match hpower : GMPInteger.setPowerOfTen requestedDigits with
    | .error error => throw error
    | .ok denominator =>
        pure ⟨numerator, denominator, requestedDigits, h, by
          rw [GMPInteger.setPowerOfTen_eq] at hpower
          exact (Except.ok.inj hpower).symm⟩

/-- The exponent of the power of two that moves a digit in front of the point. -/
def shift (position : UInt64) : UInt64 :=
  4 * (position + 1)

def extract (extractor : DecimalHexDigitExtractor) (position : UInt64) :
    Except Error DecimalHexDigit := do
  throwIf (position = uint64Max ∨ position + 1 > uint64Max / 4)
    (.outOfRange "Hexadecimal position is too large")
  -- All terms of the interval are doubled, which keeps its ends integral.
  let center := extractor.numerator * 2 ^ (shift position + 1).toNat
  let radius := 1 * 2 ^ (shift position).toNat
  let doubledDenominator := extractor.denominator * 2 ^ 1
  let lower ← GMPInteger.floorDivide (center - radius) doubledDenominator
  let upper ← GMPInteger.floorDivide (center + radius) doubledDenominator
  if lower ≠ upper then
    pure ⟨position, .inconclusive, none⟩
  else
    pure ⟨position, .resolved, some (UInt8.ofNat (lower % 16).toNat)⟩

/-! ## Floors on an interval -/

/-- A scaled floor is constant on a closed interval exactly when it is the same at both ends. -/
theorem floor_mul_eq_on_ball_iff {scale center radius : ℝ} (hscale : 0 ≤ scale)
    (hradius : 0 ≤ radius) (n : ℤ) :
    (∀ x : ℝ, |x - center| ≤ radius → ⌊scale * x⌋ = n) ↔
      ⌊scale * (center - radius)⌋ = n ∧ ⌊scale * (center + radius)⌋ = n := by
  constructor
  · intro h
    refine ⟨h _ ?_, h _ ?_⟩
    · rw [sub_sub_cancel_left, abs_neg, abs_of_nonneg hradius]
    · rw [add_sub_cancel_left, abs_of_nonneg hradius]
  · rintro ⟨hlower, hupper⟩ x hx
    obtain ⟨hleft, hright⟩ := abs_le.mp hx
    apply le_antisymm
    · rw [← hupper]
      exact Int.floor_le_floor (mul_le_mul_of_nonneg_left (by linarith) hscale)
    · rw [← hlower]
      exact Int.floor_le_floor (mul_le_mul_of_nonneg_left (by linarith) hscale)

/-- The ends of the interval of a fraction, in units of the digit, as quotients of integers. -/
theorem floor_end_eq (numerator offset : ℤ) (digits shift : ℕ) :
    ⌊(2 : ℝ) ^ shift * (numerator / 10 ^ digits + offset * (1 / 2 * (1 / 10 ^ digits)))⌋ =
      (numerator * 2 ^ (shift + 1) + offset * 2 ^ shift) / (10 ^ digits * 2 ^ 1) := by
  have hpos : (0 : ℤ) ≤ 10 ^ digits * 2 ^ 1 := by positivity
  have hquotient : (2 : ℝ) ^ shift * (numerator / 10 ^ digits +
      offset * (1 / 2 * (1 / 10 ^ digits))) =
        ((numerator * 2 ^ (shift + 1) + offset * 2 ^ shift : ℤ) : ℝ) /
          ((10 ^ digits * 2 ^ 1 : ℤ) : ℝ) := by
    push_cast
    field_simp
    ring
  rw [hquotient, Int.floor_div_cast_of_nonneg hpos, Int.floor_intCast]

/-! ## The extracted digit -/

/-- The positions that are accepted are those whose exponents fit their type. -/
theorem toNat_shift {position : UInt64}
    (h : ¬ (position = uint64Max ∨ position + 1 > uint64Max / 4)) :
    (shift position).toNat = 4 * (position.toNat + 1) ∧
      (shift position + 1).toNat = (shift position).toNat + 1 ∧
        (shift position).toNat + 1 < 2 ^ 64 := by
  obtain ⟨hmax, hquarter⟩ := not_or.mp h
  have hne : position.toNat ≠ 2 ^ 64 - 1 := fun heq => hmax (UInt64.toNat_inj.mp heq)
  have hlt := position.toNat_lt
  have hone : (1 : UInt64).toNat = 1 := rfl
  have hfour : (4 : UInt64).toNat = 4 := rfl
  have hnext : (position + 1).toNat = position.toNat + 1 :=
    toNat_add_of_lt (by rw [hone]; omega)
  rw [UInt64.not_lt, UInt64.le_iff_toNat_le, UInt64.toNat_div, uint64Max_toNat, hnext,
    hfour] at hquarter
  have hshift : (shift position).toNat = 4 * (position.toNat + 1) := by
    rw [shift, UInt64.toNat_mul, hnext, hfour]
    omega
  refine ⟨hshift, toNat_add_of_lt ?_, ?_⟩ <;> rw [hshift]
  · rw [hone]
    omega
  · omega

variable (extractor : DecimalHexDigitExtractor)

/-- The value of the fraction. -/
noncomputable def value : ℝ :=
  extractor.numerator / (10 ^ extractor.requestedDigits.toNat : ℕ)

/-- Half a unit of the last decimal digit. -/
noncomputable def halfUnit : ℝ :=
  1 / 2 * (1 / (10 ^ extractor.requestedDigits.toNat : ℕ))

theorem value_eq :
    extractor.value = extractor.numerator / 10 ^ extractor.requestedDigits.toNat := by
  rw [value, Nat.cast_pow, Nat.cast_ofNat]

theorem halfUnit_eq :
    extractor.halfUnit = 1 / 2 * (1 / 10 ^ extractor.requestedDigits.toNat) := by
  rw [halfUnit, Nat.cast_pow, Nat.cast_ofNat]

/-- The hexadecimal digits of all numbers near the fraction, up to and with the one at a position,
are those of one integer. -/
def IsDetermined (position : UInt64) (digits : ℤ) : Prop :=
  ∀ x : ℝ, |x - extractor.value| ≤ extractor.halfUnit →
    ⌊16 ^ (position.toNat + 1) * x⌋ = digits

variable {extractor}

theorem isDetermined_iff {position : UInt64} {digits : ℤ} :
    extractor.IsDetermined position digits ↔
      (extractor.numerator * 2 ^ (4 * (position.toNat + 1) + 1) -
        2 ^ (4 * (position.toNat + 1))) /
          (10 ^ extractor.requestedDigits.toNat * 2 ^ 1) = digits ∧
      (extractor.numerator * 2 ^ (4 * (position.toNat + 1) + 1) +
        2 ^ (4 * (position.toNat + 1))) /
          (10 ^ extractor.requestedDigits.toNat * 2 ^ 1) = digits := by
  have hscale : (16 : ℝ) ^ (position.toNat + 1) = 2 ^ (4 * (position.toNat + 1)) := by
    rw [pow_mul]
    norm_num
  have hradius : (0 : ℝ) ≤ extractor.halfUnit := by
    rw [halfUnit_eq]
    positivity
  have hlower := floor_end_eq extractor.numerator (-1) extractor.requestedDigits.toNat
    (4 * (position.toNat + 1))
  have hupper := floor_end_eq extractor.numerator 1 extractor.requestedDigits.toNat
    (4 * (position.toNat + 1))
  rw [Int.cast_neg, Int.cast_one, neg_one_mul, neg_one_mul, ← sub_eq_add_neg,
    ← sub_eq_add_neg] at hlower
  rw [Int.cast_one, one_mul, one_mul] at hupper
  rw [IsDetermined, hscale, floor_mul_eq_on_ball_iff (by positivity) hradius, value_eq,
    halfUnit_eq, hlower, hupper]

/-- What the interval computation returns for a position that is accepted. -/
theorem extract_eq {position : UInt64}
    (h : ¬ (position = uint64Max ∨ position + 1 > uint64Max / 4)) :
    extractor.extract position =
      let lower := (extractor.numerator * 2 ^ (4 * (position.toNat + 1) + 1) -
        2 ^ (4 * (position.toNat + 1))) / (10 ^ extractor.requestedDigits.toNat * 2 ^ 1)
      let upper := (extractor.numerator * 2 ^ (4 * (position.toNat + 1) + 1) +
        2 ^ (4 * (position.toNat + 1))) / (10 ^ extractor.requestedDigits.toNat * 2 ^ 1)
      .ok (if lower ≠ upper then ⟨position, .inconclusive, none⟩
        else ⟨position, .resolved, some (UInt8.ofNat (lower % 16).toNat)⟩) := by
  obtain ⟨hshift, hsucc, -⟩ := toNat_shift h
  have hpos : (0 : ℤ) < 10 ^ extractor.requestedDigits.toNat * 2 ^ 1 := by positivity
  rw [extract, throwIf_neg h, ok_bind, hsucc, hshift, one_mul, extractor.denominator_eq]
  simp only [GMPInteger.floorDivide_eq hpos, ok_bind]
  split <;> rfl

theorem ofNumerator_eq_ok {numerator : ℤ} {requestedDigits : UInt64}
    {extractor : DecimalHexDigitExtractor} :
    ofNumerator numerator requestedDigits = .ok extractor ↔
      extractor.numerator = numerator ∧ extractor.requestedDigits = requestedDigits := by
  rw [ofNumerator]
  split
  · next hzero =>
      simp only [throw_eq_error, reduceCtorEq, false_iff, not_and]
      rintro - rfl
      exact extractor.requestedDigits_ne hzero
  · split
    · next error hpower => rw [GMPInteger.setPowerOfTen_eq] at hpower; cases hpower
    · next denominator hpower =>
        rw [GMPInteger.setPowerOfTen_eq] at hpower
        have hdenominator := Except.ok.inj hpower
        obtain ⟨number, power, digits, hne, heq⟩ := extractor
        simp only [pure_eq_ok, Except.ok.injEq, mk.injEq]
        constructor
        · rintro ⟨rfl, -, rfl⟩
          exact ⟨rfl, rfl⟩
        · rintro ⟨rfl, rfl⟩
          exact ⟨rfl, hdenominator.symm.trans heq.symm, rfl⟩

/-- Exactly the positions whose exponents fit are accepted. -/
theorem extract_isOk_iff {position : UInt64} :
    (∃ result, extractor.extract position = .ok result) ↔
      4 * (position.toNat + 1) < 2 ^ 64 := by
  constructor
  · rintro ⟨result, h⟩
    rw [extract, bind_eq_ok] at h
    obtain ⟨_, hposition, -⟩ := h
    obtain ⟨hshift, -, hlt⟩ := toNat_shift (throwIf_eq_ok.mp hposition)
    omega
  · intro h
    refine ⟨_, extract_eq (not_or.mpr ⟨?_, ?_⟩)⟩
    · rintro rfl
      rw [uint64Max_toNat] at h
      omega
    · have hone : (1 : UInt64).toNat = 1 := rfl
      rw [UInt64.not_lt, UInt64.le_iff_toNat_le, toNat_add_of_lt (by rw [hone]; omega),
        UInt64.toNat_div, uint64Max_toNat]
      change position.toNat + 1 ≤ (2 ^ 64 - 1) / 4
      omega

theorem toNat_ofNat_emod (n : ℤ) : ((UInt8.ofNat (n % 16).toNat).toNat : ℤ) = n % 16 := by
  have hnonneg := Int.emod_nonneg n (b := 16) (by decide)
  have hlt := Int.emod_lt_of_pos n (b := 16) (by decide)
  rw [UInt8.toNat_ofNat_of_lt' (by change _ < 256; omega)]
  omega

/-- A digit is resolved exactly when the interval of the fraction determines it, and then it is the
right one. -/
theorem extract_sound_complete (numerator : ℕ) (requestedDigits : UInt64)
    (extractor : DecimalHexDigitExtractor) (position : UInt64) (result : DecimalHexDigit)
    (hcreate : ofNumerator numerator requestedDigits = .ok extractor)
    (h : extractor.extract position = .ok result) :
    extractor.value = numerator / 10 ^ requestedDigits.toNat ∧
      extractor.halfUnit = 1 / 2 * (1 / 10 ^ requestedDigits.toNat) ∧
      (∀ digit : UInt8, result = ⟨position, .resolved, some digit⟩ ↔
        ∃ digits, extractor.IsDetermined position digits ∧ (digit.toNat : ℤ) = digits % 16) ∧
      ((¬ ∃ digits, extractor.IsDetermined position digits) →
        result = ⟨position, .inconclusive, none⟩) ∧
      (shift position).toNat = 4 * (position.toNat + 1) ∧
      (shift position + 1).toNat = 4 * (position.toNat + 1) + 1 := by
  obtain ⟨hnumerator, rfl⟩ := ofNumerator_eq_ok.mp hcreate
  obtain ⟨_, hposition, -⟩ := bind_eq_ok.mp (extract.eq_1 extractor position ▸ h)
  have haccepted := throwIf_eq_ok.mp hposition
  obtain ⟨hshift, hsucc, -⟩ := toNat_shift haccepted
  rw [extract_eq haccepted, Except.ok.injEq] at h
  refine ⟨?_, extractor.halfUnit_eq, ?_, ?_, hshift, hshift ▸ hsucc⟩
  · rw [value_eq, hnumerator, Int.cast_natCast]
  · intro digit
    simp only [isDetermined_iff]
    split at h
    · next hne =>
        constructor
        · rintro rfl
          cases h
        · rintro ⟨digits, ⟨hlower, hupper⟩, -⟩
          exact absurd (hlower.trans hupper.symm) hne
    · next heq =>
        rw [not_not] at heq
        subst h
        simp only [DecimalHexDigit.mk.injEq, true_and, Option.some.injEq]
        constructor
        · rintro rfl
          exact ⟨_, ⟨rfl, heq.symm⟩, toNat_ofNat_emod _⟩
        · rintro ⟨digits, ⟨hlower, -⟩, hdigit⟩
          rw [hlower, ← UInt8.toNat_inj, ← Nat.cast_inj (R := ℤ), toNat_ofNat_emod, hdigit]
  · intro hundetermined
    simp only [isDetermined_iff] at hundetermined
    split at h
    · exact h.symm
    · next heq =>
        exact absurd ⟨_, rfl, (not_not.mp heq).symm⟩ hundetermined

theorem extract_sound_complete_fourteen :
    let extractor : DecimalHexDigitExtractor := ⟨14, 10 ^ 2, 2, by decide, rfl⟩
    extractor.value = (14 : ℕ) / 10 ^ 2 ∧ extractor.halfUnit = 1 / 2 * (1 / 10 ^ 2) ∧
      (∀ digit : UInt8, (⟨0, .resolved, some 2⟩ : DecimalHexDigit) = ⟨0, .resolved, some digit⟩ ↔
        ∃ digits, extractor.IsDetermined 0 digits ∧ (digit.toNat : ℤ) = digits % 16) ∧
      ((¬ ∃ digits, extractor.IsDetermined 0 digits) →
        (⟨0, .resolved, some 2⟩ : DecimalHexDigit) = ⟨0, .inconclusive, none⟩) ∧
      (shift 0).toNat = 4 ∧ (shift 0 + 1).toNat = 5 :=
  extract_sound_complete 14 2 ⟨14, 10 ^ 2, 2, by decide, rfl⟩ 0 ⟨0, .resolved, some 2⟩
    (ofNumerator_eq_ok.mpr ⟨rfl, rfl⟩) (by decide)

end DecimalHexDigitExtractor

end GiveMePi.Verification
