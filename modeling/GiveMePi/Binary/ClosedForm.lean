import GiveMePi.Binary.BinarySplitter
import Mathlib.Algebra.Order.BigOperators.Ring.Finset
import Mathlib.Algebra.Order.Field.Basic
import Mathlib.Data.Nat.Factorial.Basic
import Mathlib.Data.Rat.Cast.Order
import Mathlib.Tactic.Positivity

/-! # The series behind a node -/

namespace GiveMePi.Binary

open Library (SeriesBlock)
open Nat (factorial)

/-- The numerator factor `(6k - 5) (2k - 1) (6k - 1)` of the `k`-th term, `1` for `k = 0`. -/
def pFactor (k : ℕ) : ℤ :=
  if k = 0 then 1 else (6 * k - 5) * (2 * k - 1) * (6 * k - 1)

/-- The denominator factor `k ^ 3 * 640320 ^ 3 / 24` of the `k`-th term, `1` for `k = 0`. -/
def qFactor (k : ℕ) : ℚ :=
  if k = 0 then 1 else k ^ 3 * (640320 ^ 3 / 24)

/-- The signed linear coefficient of the `k`-th term. -/
def termWeight (k : ℕ) : ℚ :=
  (-1) ^ k * (13591409 + 545140134 * k)

/-- The `k`-th term of the Chudnovsky series. -/
def chudnovskyTerm (k : ℕ) : ℚ :=
  (-1) ^ k * (6 * k).factorial * (13591409 + 545140134 * k) /
    ((3 * k).factorial * k.factorial ^ 3 * 640320 ^ (3 * k))

/-! ## Factors of the leaves -/

theorem leafBlock_p (k : ℕ) : (leafBlock k).p = pFactor k := by
  rw [leafBlock, pFactor]
  split <;> rfl

theorem leafBlock_q (k : ℕ) : ((leafBlock k).q : ℚ) = qFactor k := by
  rw [leafBlock, qFactor]
  split
  · simp
  · push_cast
    norm_num

theorem leafBlock_t (k : ℕ) : ((leafBlock k).t : ℚ) = termWeight k * (leafBlock k).p := by
  rw [leafBlock, termWeight]
  split
  · next h => simp [h]
  · push_cast
    ring

theorem leafBlock_q_pos (k : ℕ) : 0 < (leafBlock k).q := by
  rw [leafBlock]
  split
  · decide
  · next h =>
      have hk : (0 : ℤ) < k := by exact_mod_cast Nat.pos_of_ne_zero h
      positivity

theorem leafBlock_p_pos (k : ℕ) : 0 < (leafBlock k).p := by
  rw [leafBlock_p, pFactor]
  split
  · decide
  · next h =>
      have hk : (1 : ℤ) ≤ k := by exact_mod_cast Nat.one_le_iff_ne_zero.mpr h
      have h₁ : (0 : ℤ) < 6 * k - 5 := by omega
      have h₂ : (0 : ℤ) < 2 * k - 1 := by omega
      have h₃ : (0 : ℤ) < 6 * k - 1 := by omega
      positivity

theorem rangeBlock_q_pos {a b : ℕ} (h : a ≤ b) : 0 < (rangeBlock a b).q := by
  rw [SeriesBlock.range_q leafBlock h]
  exact Finset.prod_pos fun k _ => leafBlock_q_pos k

theorem rangeBlock_p_pos {a b : ℕ} (h : a ≤ b) : 0 < (rangeBlock a b).p := by
  rw [SeriesBlock.range_p leafBlock h]
  exact Finset.prod_pos fun k _ => leafBlock_p_pos k

/-- A node with the values of its range always counts as resident. -/
theorem ofRange_hasValues {start stop : UInt64} (h : start ≤ stop) :
    (BinaryNode.ofRange start stop).hasValues = true := by
  have hp := rangeBlock_p_pos (UInt64.le_iff_toNat_le.mp h)
  simp [BinaryNode.hasValues, BinaryNode.ofRange, hp.ne']

/-! ## The partial sums -/

theorem rangeBlock_t_div_q {a b : ℕ} (h : a ≤ b) :
    ((rangeBlock a b).t : ℚ) / (rangeBlock a b).q =
      ∑ k ∈ Finset.Ico a b, termWeight k * ∏ j ∈ Finset.Icc a k, ((pFactor j : ℚ) / qFactor j) := by
  have hsum := SeriesBlock.range_t_div_q (Int.castRingHom ℚ) leafBlock termWeight
    (fun k => by simpa using (leafBlock_q_pos k).ne') (fun k => by simpa using leafBlock_t k) h
  simpa only [eq_intCast, leafBlock_p, leafBlock_q] using hsum

/-- Adding one term multiplies the quotient of factorials by `24` times its numerator factor. -/
theorem factorial_quotient_succ (k : ℕ) :
    ((6 * (k + 1)).factorial : ℚ) / ((3 * (k + 1)).factorial * (k + 1).factorial ^ 3) =
      (6 * k).factorial / ((3 * k).factorial * k.factorial ^ 3) *
        (24 * ((6 * k + 1) * (2 * k + 1) * (6 * k + 5)) / (k + 1) ^ 3) := by
  have h₆ : (6 * (k + 1)).factorial = (6 * k + 6) * (6 * k + 5) * (6 * k + 4) * (6 * k + 3) *
      (6 * k + 2) * (6 * k + 1) * (6 * k).factorial := by
    rw [show 6 * (k + 1) = 6 * k + 5 + 1 by ring]
    simp only [Nat.factorial_succ]
    ring
  have h₃ : (3 * (k + 1)).factorial =
      (3 * k + 3) * (3 * k + 2) * (3 * k + 1) * (3 * k).factorial := by
    rw [show 3 * (k + 1) = 3 * k + 2 + 1 by ring]
    simp only [Nat.factorial_succ]
    ring
  rw [h₆, h₃, Nat.factorial_succ]
  have f₃ : ((3 * k).factorial : ℚ) ≠ 0 := by exact_mod_cast Nat.factorial_ne_zero _
  have f₁ : (k.factorial : ℚ) ≠ 0 := by exact_mod_cast Nat.factorial_ne_zero _
  push_cast
  have hk : (k : ℚ) + 1 ≠ 0 := by positivity
  have hk₁ : 3 * (k : ℚ) + 1 ≠ 0 := by positivity
  have hk₂ : 3 * (k : ℚ) + 2 ≠ 0 := by positivity
  field_simp
  ring

/-- The products of the factors telescope to the quotient of factorials of the series. -/
theorem prod_factors (k : ℕ) :
    ∏ j ∈ Finset.Icc 0 k, ((pFactor j : ℚ) / qFactor j) =
      (6 * k).factorial / ((3 * k).factorial * k.factorial ^ 3) / 640320 ^ (3 * k) := by
  induction k with
  | zero => simp [pFactor, qFactor]
  | succ k ih =>
      have hfactor : (pFactor (k + 1) : ℚ) / qFactor (k + 1) =
          24 * ((6 * k + 1) * (2 * k + 1) * (6 * k + 5)) / (k + 1) ^ 3 / 640320 ^ 3 := by
        have hk : (k : ℚ) + 1 ≠ 0 := by positivity
        rw [pFactor, qFactor, if_neg (Nat.succ_ne_zero k), if_neg (Nat.succ_ne_zero k)]
        push_cast
        field_simp
        ring
      rw [← Finset.insert_Icc_right_eq_Icc_add_one (Nat.zero_le _),
        Finset.prod_insert (by simp), ih, hfactor, factorial_quotient_succ, mul_add 3 k 1, pow_add]
      field_simp

/-- On an initial range the weighted products are the terms of the Chudnovsky series. -/
theorem termWeight_mul_prod (k : ℕ) :
    termWeight k * ∏ j ∈ Finset.Icc 0 k, ((pFactor j : ℚ) / qFactor j) = chudnovskyTerm k := by
  rw [prod_factors, termWeight, chudnovskyTerm]
  have f₃ : ((3 * k).factorial : ℚ) ≠ 0 := by exact_mod_cast Nat.factorial_ne_zero _
  have f₁ : (k.factorial : ℚ) ≠ 0 := by exact_mod_cast Nat.factorial_ne_zero _
  field_simp

/-- The quotient of an initial range is the partial sum of the Chudnovsky series. -/
theorem rangeBlock_zero_t_div_q (b : ℕ) :
    ((rangeBlock 0 b).t : ℚ) / (rangeBlock 0 b).q = ∑ k ∈ Finset.range b, chudnovskyTerm k := by
  rw [rangeBlock_t_div_q (Nat.zero_le b), Nat.Ico_zero_eq_range]
  exact Finset.sum_congr rfl fun k _ => termWeight_mul_prod k

/-- `splitSequential` computes the products of the factors and the weighted partial sum of its
range; from term `0` on, the quotient `T / Q` is the Chudnovsky partial sum. -/
theorem splitSequential_closed_form (start stop : UInt64) (h : start < stop) :
    ∃ node, splitSequential start stop = .ok node ∧ node.start = start ∧ node.stop = stop ∧
      node.p = ∏ k ∈ Finset.Ico start.toNat stop.toNat, pFactor k ∧
      (node.q : ℚ) = ∏ k ∈ Finset.Ico start.toNat stop.toNat, qFactor k ∧
      (node.t : ℚ) / node.q = ∑ k ∈ Finset.Ico start.toNat stop.toNat,
        (-1) ^ k * (13591409 + 545140134 * (k : ℚ)) *
          ∏ j ∈ Finset.Icc start.toNat k, ((pFactor j : ℚ) / qFactor j) ∧
      (start = 0 → (node.t : ℚ) / node.q = ∑ k ∈ Finset.range stop.toNat,
        (-1) ^ k * (6 * k).factorial * (13591409 + 545140134 * (k : ℚ)) /
          ((3 * k).factorial * k.factorial ^ 3 * 640320 ^ (3 * k))) := by
  have hle : start.toNat ≤ stop.toNat := (UInt64.lt_iff_toNat_lt.mp h).le
  refine ⟨BinaryNode.ofRange start stop, splitSequential_eq h, rfl, rfl, ?_, ?_, ?_, ?_⟩
  · simp only [BinaryNode.ofRange, SeriesBlock.range_p leafBlock hle, leafBlock_p]
  · simp only [BinaryNode.ofRange, SeriesBlock.range_q leafBlock hle, Int.cast_prod, leafBlock_q]
  · exact rangeBlock_t_div_q hle
  · intro hzero
    subst hzero
    exact rangeBlock_zero_t_div_q stop.toNat

theorem splitSequential_closed_form_three :
    ∃ node, splitSequential 0 3 = .ok node ∧ node.p = 1155 ∧
      (node.t : ℚ) / node.q = ∑ k ∈ Finset.range 3, chudnovskyTerm k := by
  obtain ⟨node, hsplit, -, -, hp, -, -, hsum⟩ := splitSequential_closed_form 0 3 (by decide)
  exact ⟨node, hsplit, hp.trans (by decide), hsum rfl⟩

end GiveMePi.Binary
