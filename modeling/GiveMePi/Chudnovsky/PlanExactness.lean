import GiveMePi.Chudnovsky.PrecisionPolicy
import GiveMePi.Numeric
import Mathlib.Data.Rat.Floor

/-! # Precision plans are exact

A plan holds the exact rounded-up integers, and there is none exactly when one of them does not fit
a word. No multiplication or addition on the way wraps around. -/

namespace GiveMePi.Chudnovsky

open Library

/-! ## Without wrap-around -/

def checkedAdd? (left right : UInt64) : Option (Except Error UInt64) := do
  let limit ← CheckedWord.sub uint64Max left
  if right > limit then
    some (throw (.overflowError "Precision plan addition overflow"))
  else
    let sum ← CheckedWord.add left right
    some (pure sum)

/-- `multiplyDivideCeil`, with no result where one of its operations would wrap around. -/
def multiplyDivideCeil? (value multiplier divisor : UInt64) : Option (Except Error UInt64) := do
  let quotient := value / divisor
  let remainder := value % divisor
  if quotient > uint64Max / multiplier then
    some (throw (.overflowError "Precision plan multiplication overflow"))
  else
    let whole ← CheckedWord.mul quotient multiplier
    let remainderProduct ← CheckedWord.mul remainder multiplier
    let fraction ← CheckedWord.add (remainderProduct / divisor)
      (if remainderProduct % divisor ≠ 0 then 1 else 0)
    checkedAdd? whole fraction

theorem checkedAdd?_eq (left right : UInt64) :
    checkedAdd? left right = some (checkedAdd left right) := by
  rw [checkedAdd?, checkedAdd, CheckedWord.sub_eq (le_uint64Max left), Option.bind_eq_bind,
    Option.bind_some]
  split
  · rfl
  · next h =>
      rw [CheckedWord.add_eq (not_gt_uint64Max_sub.mp h), Option.bind_some]

/-- Constants whose product is a word leave no room for a wrap-around. -/
theorem multiplyDivideCeil?_eq (value : UInt64) {multiplier divisor : UInt64}
    (hd : 0 < divisor.toNat) (hm : 0 < multiplier.toNat)
    (hfits : divisor.toNat * multiplier.toNat ≤ 2 ^ 64) :
    multiplyDivideCeil? value multiplier divisor =
      some (multiplyDivideCeil value multiplier divisor) := by
  rw [multiplyDivideCeil?, multiplyDivideCeil]
  simp only
  split
  · rfl
  next h =>
  have hwhole : (value / divisor).toNat * multiplier.toNat < 2 ^ 64 := by
    have hle : (value / divisor).toNat ≤ (2 ^ 64 - 1) / multiplier.toNat := by
      simpa [UInt64.lt_iff_toNat_lt] using h
    have := (Nat.le_div_iff_mul_le hm).mp hle
    omega
  have hproduct : (value % divisor).toNat * multiplier.toNat <
      divisor.toNat * multiplier.toNat := by
    rw [UInt64.toNat_mod]
    exact Nat.mul_lt_mul_of_pos_right (Nat.mod_lt _ hd) hm
  have hremainder := hproduct.trans_le hfits
  have hfraction : (value % divisor * multiplier / divisor).toNat < multiplier.toNat := by
    rw [UInt64.toNat_div, UInt64.toNat_mul, Nat.mod_eq_of_lt hremainder]
    exact Nat.div_lt_of_lt_mul hproduct
  have hsum : (value % divisor * multiplier / divisor).toNat +
      (if value % divisor * multiplier % divisor ≠ 0 then 1 else 0 : UInt64).toNat < 2 ^ 64 := by
    have := multiplier.toNat_lt
    split
    · rw [UInt64.toNat_one]
      omega
    · rw [UInt64.toNat_zero]
      omega
  rw [CheckedWord.mul_eq hwhole, CheckedWord.mul_eq hremainder]
  simp only [Option.bind_eq_bind, Option.bind_some]
  rw [CheckedWord.add_eq hsum, Option.bind_some, checkedAdd?_eq]

/-! ## The exact integers of a plan -/

/-- Rounding a fraction up on integers. -/
theorem ceil_div_eq (a : ℕ) {b : ℕ} (hb : 0 < b) : ⌈(a / b : ℚ)⌉₊ = (a + (b - 1)) / b := by
  have hpos : (0 : ℚ) < b := Nat.cast_pos.mpr hb
  apply eq_of_forall_ge_iff
  intro n
  have hdiv : (a + (b - 1)) / b ≤ n ↔ a + (b - 1) < (n + 1) * b := by
    rw [← Nat.lt_succ_iff, Nat.div_lt_iff_lt_mul hb]
  rw [hdiv, Nat.ceil_le, div_le_iff₀ hpos, ← Nat.cast_mul, Nat.cast_le, Nat.succ_mul]
  omega

namespace PrecisionPolicy

/-- One more than the terms that the working digits take, at 14.181647 digits for each. -/
def exactTermCount (workingDigits : ℕ) : ℕ :=
  ⌈(workingDigits * 10 ^ 6 / 14181647 : ℚ)⌉₊ + 1

/-- The bits of two more digits, at 3.322 for each, and the headroom. -/
def exactBits (workingDigits : ℕ) : ℕ :=
  ⌈((workingDigits + 2) * 3322 / 1000 : ℚ)⌉₊ + 64

theorem exactTermCount_eq (workingDigits : ℕ) :
    exactTermCount workingDigits = (workingDigits * 1000000 + 14181646) / 14181647 + 1 := by
  have h := ceil_div_eq (workingDigits * 1000000) (show 0 < 14181647 by decide)
  push_cast at h
  rw [exactTermCount, ← h]
  norm_num

theorem exactBits_eq (workingDigits : ℕ) :
    exactBits workingDigits = ((workingDigits + 2) * 3322 + 999) / 1000 + 64 := by
  have h := ceil_div_eq ((workingDigits + 2) * 3322) (show 0 < 1000 by decide)
  push_cast at h
  rw [exactBits, ← h]

/-- The exact integers fit words. -/
structure Fits (workingDigits : ℕ) : Prop where
  digits : workingDigits < 2 ^ 64
  terms : exactTermCount workingDigits < 2 ^ 64
  bits : exactBits workingDigits < 2 ^ 64

theorem exists_plan_iff {requestedDigits : UInt64} {guardDigits : UInt32}
    (hdigits : 1 ≤ requestedDigits) (hguard : minimumGuardDigits ≤ guardDigits) :
    (∃ plan, create requestedDigits guardDigits = .ok plan) ↔
      Fits (requestedDigits.toNat + guardDigits.toNat) := by
  constructor
  · intro h
    rcases h with ⟨plan, hplan⟩
    have hisPlan := create_eq_ok_iff.mp hplan
    rw [← hisPlan.working_eq]
    refine ⟨plan.workingDigits.toNat_lt, ?_, ?_⟩
    · rw [exactTermCount_eq, ← hisPlan.terms_eq]
      exact plan.termCount.toNat_lt
    · rw [exactBits_eq, ← hisPlan.bits_eq]
      exact plan.estimatedBits.toNat_lt
  · intro h
    have hpositive : requestedDigits ≠ 0 := by
      rintro rfl
      exact absurd hdigits (by decide)
    refine ⟨⟨requestedDigits, guardDigits,
      UInt64.ofNat (requestedDigits.toNat + guardDigits.toNat),
      UInt64.ofNat (exactTermCount (requestedDigits.toNat + guardDigits.toNat)),
      UInt64.ofNat (exactBits (requestedDigits.toNat + guardDigits.toNat))⟩,
      create_eq_ok_iff.mpr ⟨hpositive, hguard, rfl, rfl, ?_, ?_, ?_⟩⟩
    · exact UInt64.toNat_ofNat_of_lt' h.digits
    · rw [UInt64.toNat_ofNat_of_lt' h.terms, UInt64.toNat_ofNat_of_lt' h.digits, exactTermCount_eq]
    · rw [UInt64.toNat_ofNat_of_lt' h.bits, UInt64.toNat_ofNat_of_lt' h.digits, exactBits_eq]

/-- A plan is the exact one, it is refused exactly when an integer of it does not fit a word, and
the quotients behind it never wrap around. -/
theorem create_exact (requestedDigits : UInt64) (guardDigits : UInt32)
    (hdigits : 1 ≤ requestedDigits) (hguard : 16 ≤ guardDigits) :
    (∀ plan, create requestedDigits guardDigits = .ok plan →
      plan.requestedDigits = requestedDigits ∧ plan.guardDigits = guardDigits ∧
        plan.workingDigits.toNat = requestedDigits.toNat + guardDigits.toNat ∧
        plan.termCount.toNat = exactTermCount (requestedDigits.toNat + guardDigits.toNat) ∧
        plan.estimatedBits.toNat = exactBits (requestedDigits.toNat + guardDigits.toNat)) ∧
      ((∃ error, create requestedDigits guardDigits = .error error) ↔
        ¬ Fits (requestedDigits.toNat + guardDigits.toNat)) ∧
      ∀ value,
        multiplyDivideCeil? value digitsPerTermScale digitsPerTermLower =
            some (multiplyDivideCeil value digitsPerTermScale digitsPerTermLower) ∧
          multiplyDivideCeil? value binaryScaleNumerator binaryScaleDenominator =
            some (multiplyDivideCeil value binaryScaleNumerator binaryScaleDenominator) := by
  refine ⟨?_, ?_, ?_⟩
  · intro plan hplan
    have h := create_eq_ok_iff.mp hplan
    rw [exactTermCount_eq, exactBits_eq, ← h.working_eq]
    exact ⟨h.requested_eq, h.guard_eq, rfl, h.terms_eq, h.bits_eq⟩
  · have hrefused : (∃ error, create requestedDigits guardDigits = .error error) ↔
        ¬ ∃ plan, create requestedDigits guardDigits = .ok plan := by
      cases create requestedDigits guardDigits with
      | error error => simp
      | ok plan => simp
    rw [hrefused, exists_plan_iff hdigits hguard]
  · intro value
    refine ⟨multiplyDivideCeil?_eq value ?_ ?_ ?_, multiplyDivideCeil?_eq value ?_ ?_ ?_⟩
    all_goals simp

theorem create_exact_hundred : create 100 32 = .ok ⟨100, 32, 132, 11, 510⟩ ∧
    exactTermCount 132 = 11 ∧ exactBits 132 = 510 := by
  have hcreate : create 100 32 = .ok ⟨100, 32, 132, 11, 510⟩ := by rfl
  have h := (create_exact 100 32 (by decide) (by decide)).1 _ hcreate
  exact ⟨hcreate, h.2.2.2.1.symm, h.2.2.2.2.symm⟩

end PrecisionPolicy

end GiveMePi.Chudnovsky
