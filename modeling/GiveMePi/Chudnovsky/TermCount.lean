import GiveMePi.Binary.ClosedForm
import GiveMePi.Chudnovsky.PrecisionPolicy
import Mathlib.Algebra.Order.Field.GeomSum
import Mathlib.Algebra.Order.BigOperators.Group.Finset
import Mathlib.Tactic.Linarith

/-! # The planned terms suffice

Each term of the series is smaller than its predecessor by a factor of more than `10 ^ 14.181647`,
so the terms left out by a plan stay below its last working digit. -/

namespace GiveMePi.Chudnovsky

open Binary
open Nat (factorial)

/-! ## The size of one term -/

/-- The quotient of factorials of the `k`-th term grows by a factor below `1728 * k / (k + 1)`. -/
theorem factorial_quotient_le (k : ℕ) (hk : 1 ≤ k) :
    ((6 * k).factorial : ℚ) / ((3 * k).factorial * k.factorial ^ 3) * k ≤ 1728 ^ k := by
  induction k, hk using Nat.le_induction with
  | base =>
      have hsix : (6 * 1).factorial = 720 := rfl
      have hthree : (3 * 1).factorial = 6 := rfl
      rw [hsix, hthree, Nat.factorial_one]
      norm_num
  | succ k hk ih =>
      have hkq : (1 : ℚ) ≤ k := by exact_mod_cast hk
      have hpos : (0 : ℚ) < k + 1 := by positivity
      have hgrowth : 24 * ((6 * k + 1) * (2 * k + 1) * (6 * k + 5)) / (k + 1) ^ 3 * (k + 1) ≤
          1728 * (k : ℚ) := by
        rw [div_mul_eq_mul_div, div_le_iff₀ (by positivity)]
        nlinarith [mul_nonneg (sub_nonneg.mpr hkq) hpos.le]
      have hquotient : (0 : ℚ) ≤ ((6 * k).factorial : ℚ) / ((3 * k).factorial * k.factorial ^ 3) := by
        positivity
      calc ((6 * (k + 1)).factorial : ℚ) / ((3 * (k + 1)).factorial * (k + 1).factorial ^ 3) *
            ((k + 1 : ℕ) : ℚ)
          = ((6 * k).factorial : ℚ) / ((3 * k).factorial * k.factorial ^ 3) *
              (24 * ((6 * k + 1) * (2 * k + 1) * (6 * k + 5)) / (k + 1) ^ 3 * (k + 1)) := by
            rw [factorial_quotient_succ]
            push_cast
            ring
        _ ≤ ((6 * k).factorial : ℚ) / ((3 * k).factorial * k.factorial ^ 3) * (1728 * k) :=
            mul_le_mul_of_nonneg_left hgrowth hquotient
        _ = ((6 * k).factorial : ℚ) / ((3 * k).factorial * k.factorial ^ 3) * k * 1728 := by ring
        _ ≤ 1728 ^ k * 1728 := mul_le_mul_of_nonneg_right ih (by norm_num)
        _ = 1728 ^ (k + 1) := (pow_succ _ _).symm

/-- The factor by which the terms of the series shrink. -/
def termRatio : ℚ := 151931373056000

theorem termRatio_pow (k : ℕ) : (1728 : ℚ) ^ k / 640320 ^ (3 * k) = (1 / termRatio) ^ k := by
  rw [pow_mul, ← div_pow, termRatio]
  norm_num

/-- The `k`-th term is at most a constant times the `k`-th power of the ratio. -/
theorem abs_chudnovskyTerm_le (k : ℕ) (hk : 1 ≤ k) :
    |Binary.chudnovskyTerm k| ≤ 558731543 * (1 / termRatio) ^ k := by
  have hkq : (1 : ℚ) ≤ k := by exact_mod_cast hk
  have hterm : |Binary.chudnovskyTerm k| =
      (6 * k).factorial / ((3 * k).factorial * k.factorial ^ 3) *
        (13591409 + 545140134 * k) / 640320 ^ (3 * k) := by
    have hsplit : Binary.chudnovskyTerm k = (-1) ^ k *
        ((6 * k).factorial / ((3 * k).factorial * k.factorial ^ 3) *
          (13591409 + 545140134 * k) / 640320 ^ (3 * k)) := by
      rw [Binary.chudnovskyTerm]
      field_simp
    rw [hsplit, abs_mul, abs_neg_one_pow, one_mul, abs_of_nonneg (by positivity)]
  rw [hterm, ← termRatio_pow, ← mul_div_assoc]
  apply div_le_div_of_nonneg_right _ (by positivity)
  have hquotient : (0 : ℚ) ≤ ((6 * k).factorial : ℚ) / ((3 * k).factorial * k.factorial ^ 3) := by
    positivity
  calc ((6 * k).factorial : ℚ) / ((3 * k).factorial * k.factorial ^ 3) *
        (13591409 + 545140134 * (k : ℚ))
      ≤ ((6 * k).factorial : ℚ) / ((3 * k).factorial * k.factorial ^ 3) * (558731543 * k) :=
        mul_le_mul_of_nonneg_left (by linarith) hquotient
    _ = 558731543 * (((6 * k).factorial : ℚ) / ((3 * k).factorial * k.factorial ^ 3) * k) := by ring
    _ ≤ 558731543 * 1728 ^ k :=
        mul_le_mul_of_nonneg_left (factorial_quotient_le k hk) (by norm_num)

/-! ## The tail of the series -/

/-- The terms from the `n`-th on sum to less than the `(n - 1)`-th power of the ratio. -/
theorem abs_tail_lt {n m : ℕ} (hn : 1 ≤ n) :
    |∑ k ∈ Finset.Ico n m, Binary.chudnovskyTerm k| < (1 / termRatio) ^ (n - 1) := by
  have hratio : (0 : ℚ) < 1 / termRatio := by norm_num [termRatio]
  calc |∑ k ∈ Finset.Ico n m, Binary.chudnovskyTerm k|
      ≤ ∑ k ∈ Finset.Ico n m, |Binary.chudnovskyTerm k| := Finset.abs_sum_le_sum_abs _ _
    _ ≤ ∑ k ∈ Finset.Ico n m, 558731543 * (1 / termRatio) ^ k :=
        Finset.sum_le_sum fun k hk =>
          abs_chudnovskyTerm_le k (hn.trans (Finset.mem_Ico.mp hk).1)
    _ = 558731543 * ∑ k ∈ Finset.Ico n m, (1 / termRatio) ^ k := (Finset.mul_sum ..).symm
    _ ≤ 558731543 * ((1 / termRatio) ^ n / (1 - 1 / termRatio)) :=
        mul_le_mul_of_nonneg_left
          (geom_sum_Ico_le_of_lt_one hratio.le (by norm_num [termRatio])) (by norm_num)
    _ = (1 / termRatio) ^ (n - 1) * (558731543 * (1 / termRatio) / (1 - 1 / termRatio)) := by
        conv_lhs => rw [← Nat.sub_add_cancel hn, pow_succ]
        ring
    _ < (1 / termRatio) ^ (n - 1) * 1 :=
        mul_lt_mul_of_pos_left (by norm_num [termRatio]) (pow_pos hratio _)
    _ = (1 / termRatio) ^ (n - 1) := mul_one _

/-! ## The term count of a plan -/

/-- Comparing two powers through a pair of reference exponents. -/
theorem pow_le_pow_of_exponent_ratio {a b m n i j : ℕ} (ha : 0 < a) (hn : n ≠ 0)
    (hpow : a ^ m ≤ b ^ n) (hexponent : i * n ≤ m * j) : a ^ i ≤ b ^ j := by
  apply (Nat.pow_le_pow_iff_left hn).mp
  calc (a ^ i) ^ n = a ^ (i * n) := (pow_mul ..).symm
    _ ≤ a ^ (m * j) := Nat.pow_le_pow_right ha hexponent
    _ = (a ^ m) ^ j := pow_mul ..
    _ ≤ (b ^ n) ^ j := Nat.pow_le_pow_left hpow j
    _ = (b ^ j) ^ n := pow_right_comm ..

/-- `30136 / 2125` exceeds `14.181647`, and the ratio still reaches it. -/
theorem pow_le_termRatio_pow : 10 ^ 30136 ≤ 151931373056000 ^ 2125 :=
  Nat.le_of_ble_eq_true (by decide +kernel)

/-- The planned terms without the safety term reach all working digits. -/
theorem ten_pow_le_termRatio_pow {digits terms : ℕ}
    (h : digits * 1000000 ≤ terms * 14181647) :
    10 ^ digits ≤ 151931373056000 ^ terms := by
  have hexponent : digits * 2125 ≤ 30136 * terms := by linarith
  exact pow_le_pow_of_exponent_ratio (m := 30136) (n := 2125) (by omega) (by omega)
    pow_le_termRatio_pow hexponent

/-- Splitting the planned terms, or any longer prefix of the series, gives quotients that agree to
within the last working digit. -/
theorem truncation_below_working_digits (requestedDigits : UInt64) (guardDigits : UInt32)
    (plan : PrecisionPlan)
    (hplan : PrecisionPolicy.create requestedDigits guardDigits = .ok plan) (terms : UInt64)
    (hterms : plan.termCount ≤ terms) :
    ∃ longer planned, splitSequential 0 terms = .ok longer ∧
      splitSequential 0 plan.termCount = .ok planned ∧
      |(longer.t : ℚ) / longer.q - planned.t / planned.q| <
        1 / 10 ^ plan.workingDigits.toNat := by
  have hspec := PrecisionPolicy.create_eq_ok_iff.mp hplan
  have hcount := hspec.terms_eq
  have hle := UInt64.le_iff_toNat_le.mp hterms
  have hpos : (0 : UInt64) < plan.termCount := UInt64.lt_iff_toNat_lt.mpr (by simp [hcount])
  refine ⟨_, _, splitSequential_eq (UInt64.lt_of_lt_of_le hpos hterms), splitSequential_eq hpos, ?_⟩
  have hlonger := rangeBlock_zero_t_div_q terms.toNat
  have hplanned := rangeBlock_zero_t_div_q plan.termCount.toNat
  have hdigits : 10 ^ plan.workingDigits.toNat ≤
      151931373056000 ^ (plan.termCount.toNat - 1) :=
    ten_pow_le_termRatio_pow (by omega)
  have hreach : (10 : ℚ) ^ plan.workingDigits.toNat ≤ termRatio ^ (plan.termCount.toNat - 1) := by
    rw [termRatio]
    exact_mod_cast hdigits
  simp only [BinaryNode.ofRange, UInt64.toNat_zero]
  rw [hlonger, hplanned, Finset.sum_range_sub_sum_range hle]
  have htail : ∑ k ∈ Finset.range terms.toNat with plan.termCount.toNat ≤ k, Binary.chudnovskyTerm k =
      ∑ k ∈ Finset.Ico plan.termCount.toNat terms.toNat, Binary.chudnovskyTerm k := by
    congr 1
    ext k
    simp [and_comm]
  rw [htail]
  calc |∑ k ∈ Finset.Ico plan.termCount.toNat terms.toNat, Binary.chudnovskyTerm k|
      < (1 / termRatio) ^ (plan.termCount.toNat - 1) := abs_tail_lt (by omega)
    _ = 1 / termRatio ^ (plan.termCount.toNat - 1) := one_div_pow ..
    _ ≤ 1 / 10 ^ plan.workingDigits.toNat := one_div_le_one_div_of_le (by positivity) hreach

theorem truncation_below_working_digits_one :
    ∃ longer planned, splitSequential 0 10 = .ok longer ∧ splitSequential 0 3 = .ok planned ∧
      |(longer.t : ℚ) / longer.q - planned.t / planned.q| < 1 / 10 ^ 17 :=
  truncation_below_working_digits 1 16 ⟨1, 16, 17, 3, 128⟩ (by decide) 10 (by decide)

end GiveMePi.Chudnovsky
