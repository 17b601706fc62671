import GiveMePi.Error
import GiveMePi.Numeric
import Mathlib.Tactic.NormNum
import Mathlib.Tactic.Ring

/-! # Precision plans

The integer arithmetic that turns a digit request into working digits, a term count and a bit
estimate. -/

namespace GiveMePi.Chudnovsky

structure PrecisionPlan where
  requestedDigits : UInt64
  guardDigits : UInt32
  workingDigits : UInt64
  termCount : UInt64
  estimatedBits : UInt64
deriving DecidableEq, Repr

def checkedAdd (left right : UInt64) : Except Error UInt64 :=
  if right > uint64Max - left then
    throw (.overflowError "Precision plan addition overflow")
  else
    pure (left + right)

def multiplyDivideCeil (value multiplier divisor : UInt64) : Except Error UInt64 :=
  let quotient := value / divisor
  let remainder := value % divisor
  if quotient > uint64Max / multiplier then
    throw (.overflowError "Precision plan multiplication overflow")
  else
    let whole := quotient * multiplier
    let remainderProduct := remainder * multiplier
    let fraction := remainderProduct / divisor + (if remainderProduct % divisor ≠ 0 then 1 else 0)
    checkedAdd whole fraction

namespace PrecisionPolicy

def minimumGuardDigits : UInt32 := 16

def defaultGuardDigits : UInt32 := 32

def digitsPerTermScale : UInt64 := 1000000

/-- A lower bound of the decimal digits of one term, scaled by `digitsPerTermScale`. -/
def digitsPerTermLower : UInt64 := 14181647

def safetyTerms : UInt64 := 1

def binaryScaleNumerator : UInt64 := 3322

def binaryScaleDenominator : UInt64 := 1000

def binaryHeadroom : UInt64 := 64

@[simp] theorem digitsPerTermScale_toNat : digitsPerTermScale.toNat = 1000000 := rfl

@[simp] theorem digitsPerTermLower_toNat : digitsPerTermLower.toNat = 14181647 := rfl

@[simp] theorem safetyTerms_toNat : safetyTerms.toNat = 1 := rfl

@[simp] theorem binaryScaleNumerator_toNat : binaryScaleNumerator.toNat = 3322 := rfl

@[simp] theorem binaryScaleDenominator_toNat : binaryScaleDenominator.toNat = 1000 := rfl

@[simp] theorem binaryHeadroom_toNat : binaryHeadroom.toNat = 64 := rfl

def create (requestedDigits : UInt64) (guardDigits : UInt32) : Except Error PrecisionPlan := do
  throwIf (requestedDigits = 0)
    (.invalidArgument "Requested pi digits must be greater than zero")
  throwIf (guardDigits < minimumGuardDigits)
    (.invalidArgument "Guard digits are below the supported minimum")
  let workingDigits ← checkedAdd requestedDigits guardDigits.toUInt64
  let terms ← multiplyDivideCeil workingDigits digitsPerTermScale digitsPerTermLower
  let termCount64 ← checkedAdd terms safetyTerms
  throwIf (termCount64 > uint64Max)
    (.overflowError "Chudnovsky term count does not fit size_t")
  let scaleDigits ← checkedAdd workingDigits 2
  let bits ← multiplyDivideCeil scaleDigits binaryScaleNumerator binaryScaleDenominator
  let estimatedBits ← checkedAdd bits binaryHeadroom
  pure ⟨requestedDigits, guardDigits, workingDigits, termCount64, estimatedBits⟩

end PrecisionPolicy

/-! ## Exactness of the arithmetic -/

theorem checkedAdd_eq_ok_iff {left right sum : UInt64} :
    checkedAdd left right = .ok sum ↔ sum.toNat = left.toNat + right.toNat := by
  have hleft := left.toNat_lt
  have hright := right.toNat_lt
  have hsum := sum.toNat_lt
  have hsub : (uint64Max - left).toNat = 2 ^ 64 - 1 - left.toNat := by
    rw [UInt64.toNat_sub_of_le _ _ (le_uint64Max left), uint64Max_toNat]
  have hadd := UInt64.toNat_add left right
  rw [checkedAdd]
  split
  · next h =>
      have h' := UInt64.lt_iff_toNat_lt.mp h
      simp only [throw_eq_error, reduceCtorEq, false_iff]
      omega
  · next h =>
      have h' := mt UInt64.lt_iff_toNat_lt.mpr h
      simp only [pure_eq_ok, Except.ok.injEq]
      rw [← UInt64.toNat_inj]
      omega

/-- Rounding a quotient up, split at the integer part of the dividend's quotient. -/
theorem ceilDiv_split (value multiplier divisor : ℕ) (hd : 0 < divisor) :
    (value * multiplier + (divisor - 1)) / divisor =
      value / divisor * multiplier +
        (value % divisor * multiplier / divisor +
          if value % divisor * multiplier % divisor ≠ 0 then 1 else 0) := by
  set q := value / divisor
  set r := value % divisor
  have hvalue : value = divisor * q + r := (Nat.div_add_mod value divisor).symm
  set s := r * multiplier / divisor
  set u := r * multiplier % divisor
  have hproduct : r * multiplier = divisor * s + u := (Nat.div_add_mod _ _).symm
  have hulast : u < divisor := Nat.mod_lt _ hd
  have hsum : value * multiplier + (divisor - 1) =
      divisor * (q * multiplier + s) + (u + (divisor - 1)) := by
    rw [hvalue, add_mul, hproduct]
    ring
  rw [hsum, Nat.mul_add_div hd, add_assoc]
  congr 2
  split
  · rw [show u + (divisor - 1) = (u - 1) + divisor by omega, Nat.add_div_right _ hd,
      Nat.div_eq_of_lt (by omega)]
  · rw [Nat.div_eq_of_lt (by omega)]

/-- Rounding up the remainder's product adds at most the multiplier, so it does not wrap around. -/
theorem toNat_ceilFraction {product multiplier divisor : UInt64}
    (hlt : product.toNat < divisor.toNat * multiplier.toNat) :
    (product / divisor + if product % divisor ≠ 0 then 1 else 0).toNat =
      product.toNat / divisor.toNat + if product.toNat % divisor.toNat ≠ 0 then 1 else 0 := by
  have hmultiplier := multiplier.toNat_lt
  have hquotient : product.toNat / divisor.toNat < multiplier.toNat :=
    Nat.div_lt_of_lt_mul hlt
  have hcond : product % divisor ≠ 0 ↔ product.toNat % divisor.toNat ≠ 0 := by
    rw [ne_eq, ← UInt64.toNat_inj, UInt64.toNat_mod]
    rfl
  rw [UInt64.toNat_add, UInt64.toNat_div]
  by_cases h : product.toNat % divisor.toNat = 0
  · rw [if_neg (by rw [hcond]; exact not_not.mpr h), if_neg (not_not.mpr h), UInt64.toNat_zero,
      add_zero, Nat.mod_eq_of_lt (by omega)]
  · rw [if_pos (hcond.mpr h), if_pos h, UInt64.toNat_one, Nat.mod_eq_of_lt (by omega)]

/-- While the remainder's product cannot wrap around, `multiplyDivideCeil` is the exact rounded-up
quotient, and it throws exactly when that does not fit. -/
theorem multiplyDivideCeil_eq_ok_iff {value multiplier divisor result : UInt64}
    (hd : 0 < divisor.toNat) (hm : 0 < multiplier.toNat)
    (hfits : divisor.toNat * multiplier.toNat ≤ 2 ^ 64) :
    multiplyDivideCeil value multiplier divisor = .ok result ↔
      result.toNat =
        (value.toNat * multiplier.toNat + (divisor.toNat - 1)) / divisor.toNat := by
  rw [ceilDiv_split _ _ _ hd]
  have hresult := result.toNat_lt
  have hquotient : (value / divisor).toNat = value.toNat / divisor.toNat := UInt64.toNat_div ..
  have hlimit : (uint64Max / multiplier).toNat = (2 ^ 64 - 1) / multiplier.toNat := by
    rw [UInt64.toNat_div, uint64Max_toNat]
  have hremainder : value.toNat % divisor.toNat * multiplier.toNat <
      divisor.toNat * multiplier.toNat :=
    Nat.mul_lt_mul_of_pos_right (Nat.mod_lt _ hd) hm
  have hproduct : (value % divisor * multiplier).toNat =
      value.toNat % divisor.toNat * multiplier.toNat := by
    rw [UInt64.toNat_mul, UInt64.toNat_mod, Nat.mod_eq_of_lt (hremainder.trans_le hfits)]
  rw [multiplyDivideCeil]
  simp only
  split
  · next h =>
      have hbig : (2 ^ 64 - 1) / multiplier.toNat < value.toNat / divisor.toNat := by
        simpa only [hlimit, hquotient] using UInt64.lt_iff_toNat_lt.mp h
      have hover : 2 ^ 64 - 1 < value.toNat / divisor.toNat * multiplier.toNat :=
        (Nat.div_lt_iff_lt_mul hm).mp hbig
      simp only [throw_eq_error, reduceCtorEq, false_iff]
      intro heq
      exact absurd (hover.trans_le ((Nat.le_add_right _ _).trans heq.ge)) (by omega)
  · next h =>
      have hsmall : value.toNat / divisor.toNat ≤ (2 ^ 64 - 1) / multiplier.toNat := by
        simpa only [hlimit, hquotient, not_lt] using mt UInt64.lt_iff_toNat_lt.mpr h
      have hwhole : value.toNat / divisor.toNat * multiplier.toNat ≤ 2 ^ 64 - 1 :=
        (Nat.le_div_iff_mul_le hm).mp hsmall
      have hfraction := toNat_ceilFraction (hproduct.trans_lt hremainder)
      rw [checkedAdd_eq_ok_iff, hfraction, hproduct, UInt64.toNat_mul, hquotient,
        Nat.mod_eq_of_lt (by omega)]

namespace PrecisionPolicy

/-- The exact integers a plan holds. -/
structure IsPlan (requestedDigits : UInt64) (guardDigits : UInt32) (plan : PrecisionPlan) :
    Prop where
  digits_pos : requestedDigits ≠ 0
  guard_min : minimumGuardDigits ≤ guardDigits
  requested_eq : plan.requestedDigits = requestedDigits
  guard_eq : plan.guardDigits = guardDigits
  working_eq : plan.workingDigits.toNat = requestedDigits.toNat + guardDigits.toNat
  terms_eq : plan.termCount.toNat =
    (plan.workingDigits.toNat * 1000000 + 14181646) / 14181647 + 1
  bits_eq : plan.estimatedBits.toNat = ((plan.workingDigits.toNat + 2) * 3322 + 999) / 1000 + 64

theorem termCount_quotient {value result : UInt64} :
    multiplyDivideCeil value digitsPerTermScale digitsPerTermLower = .ok result ↔
      result.toNat = (value.toNat * 1000000 + 14181646) / 14181647 := by
  rw [multiplyDivideCeil_eq_ok_iff] <;> norm_num

theorem estimatedBits_quotient {value result : UInt64} :
    multiplyDivideCeil value binaryScaleNumerator binaryScaleDenominator = .ok result ↔
      result.toNat = (value.toNat * 3322 + 999) / 1000 := by
  rw [multiplyDivideCeil_eq_ok_iff] <;> norm_num

theorem toNat_sub_const {value const : UInt64} {rest n : ℕ} (hconst : const.toNat = n)
    (h : value.toNat = rest + n) : (value - const).toNat = rest := by
  rw [UInt64.toNat_sub_of_le _ _ (UInt64.le_iff_toNat_le.mpr (by omega))]
  omega

/-- `create` returns exactly the plan of the exact integers. -/
theorem create_eq_ok_iff {requestedDigits : UInt64} {guardDigits : UInt32} {plan : PrecisionPlan} :
    create requestedDigits guardDigits = .ok plan ↔
      IsPlan requestedDigits guardDigits plan := by
  have hmax (termCount : UInt64) : ¬ termCount > uint64Max :=
    UInt64.not_lt.mpr (le_uint64Max termCount)
  constructor
  · intro h
    simp only [create, bind_eq_ok, throwIf_eq_ok] at h
    obtain ⟨-, hdigits, -, hguard, working, hworking, terms, hterms, termCount, hcount, -, -,
      scale, hscale, bits, hbits, estimated, hestimated, hplan⟩ := h
    rw [checkedAdd_eq_ok_iff] at hworking hcount hscale hestimated
    rw [termCount_quotient] at hterms
    rw [estimatedBits_quotient] at hbits
    cases hplan
    refine ⟨hdigits, UInt32.not_lt.mp hguard, rfl, rfl, by simpa using hworking, ?_, ?_⟩
    · rw [hcount, hterms, safetyTerms_toNat]
    · rw [hestimated, hbits, hscale, binaryHeadroom_toNat]
      rfl
  · rintro ⟨hdigits, hguard, hrequested, hguardEq, hworking, hterms, hbits⟩
    have hw : checkedAdd requestedDigits guardDigits.toUInt64 = .ok plan.workingDigits := by
      rw [checkedAdd_eq_ok_iff, hworking, UInt32.toNat_toUInt64]
    have hterms' := toNat_sub_const safetyTerms_toNat hterms
    have ht : multiplyDivideCeil plan.workingDigits digitsPerTermScale digitsPerTermLower =
        .ok (plan.termCount - safetyTerms) := by
      rw [termCount_quotient, hterms']
    have hc : checkedAdd (plan.termCount - safetyTerms) safetyTerms = .ok plan.termCount := by
      rw [checkedAdd_eq_ok_iff, hterms', hterms, safetyTerms_toNat]
    have hlt := plan.estimatedBits.toNat_lt
    have hs : checkedAdd plan.workingDigits 2 = .ok (plan.workingDigits + 2) := by
      have htwo : (2 : UInt64).toNat = 2 := rfl
      rw [checkedAdd_eq_ok_iff, UInt64.toNat_add, htwo, Nat.mod_eq_of_lt]
      omega
    have hbits' := toNat_sub_const binaryHeadroom_toNat hbits
    have hb : multiplyDivideCeil (plan.workingDigits + 2) binaryScaleNumerator
        binaryScaleDenominator = .ok (plan.estimatedBits - binaryHeadroom) := by
      rw [estimatedBits_quotient, hbits', checkedAdd_eq_ok_iff.mp hs]
      rfl
    have he : checkedAdd (plan.estimatedBits - binaryHeadroom) binaryHeadroom =
        .ok plan.estimatedBits := by
      rw [checkedAdd_eq_ok_iff, hbits', hbits, binaryHeadroom_toNat]
    rw [create, throwIf_neg hdigits, ok_bind, throwIf_neg (UInt32.not_lt.mpr hguard), ok_bind, hw,
      ok_bind, ht, ok_bind, hc, ok_bind, throwIf_neg (hmax plan.termCount), ok_bind, hs, ok_bind,
      hb, ok_bind, he, ok_bind, ← hrequested, ← hguardEq]
    rfl

end PrecisionPolicy

end GiveMePi.Chudnovsky
