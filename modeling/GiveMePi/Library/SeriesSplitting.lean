import Mathlib.Algebra.BigOperators.Intervals
import Mathlib.Algebra.BigOperators.Field
import Mathlib.Tactic.FieldSimp
import Mathlib.Tactic.Ring

/-! # Binary splitting of a series

A block of consecutive terms of a series `∑ aₖ * ∏ pⱼ / qⱼ` is kept as three numbers. Adjacent
blocks compose by an associative operation, so every way of grouping the terms of a range gives
the same block. -/

namespace GiveMePi.Library

/-- Numerator product, denominator product and weighted numerator of a block of terms. -/
@[ext]
structure SeriesBlock (R : Type*) where
  p : R
  q : R
  t : R
deriving DecidableEq, Repr

namespace SeriesBlock

section Monoid

variable {R : Type*} [CommRing R]

/-- Blocks of adjacent ranges compose; the block of no terms is neutral. -/
instance : Monoid (SeriesBlock R) where
  mul x y := ⟨x.p * y.p, x.q * y.q, x.t * y.q + x.p * y.t⟩
  one := ⟨1, 1, 0⟩
  mul_assoc x y z := by
    apply SeriesBlock.ext
    · exact mul_assoc x.p y.p z.p
    · exact mul_assoc x.q y.q z.q
    · change (x.t * y.q + x.p * y.t) * z.q + x.p * y.p * z.t =
        x.t * (y.q * z.q) + x.p * (y.t * z.q + y.p * z.t)
      ring
  one_mul x := by
    apply SeriesBlock.ext
    · exact one_mul x.p
    · exact one_mul x.q
    · change 0 * x.q + 1 * x.t = x.t
      ring
  mul_one x := by
    apply SeriesBlock.ext
    · exact mul_one x.p
    · exact mul_one x.q
    · change x.t * 1 + x.p * 0 = x.t
      ring

@[simp] theorem mul_p (x y : SeriesBlock R) : (x * y).p = x.p * y.p := rfl

@[simp] theorem mul_q (x y : SeriesBlock R) : (x * y).q = x.q * y.q := rfl

@[simp] theorem mul_t (x y : SeriesBlock R) : (x * y).t = x.t * y.q + x.p * y.t := rfl

@[simp] theorem one_p : (1 : SeriesBlock R).p = 1 := rfl

@[simp] theorem one_q : (1 : SeriesBlock R).q = 1 := rfl

@[simp] theorem one_t : (1 : SeriesBlock R).t = 0 := rfl

/-- The block of the terms `a, …, b - 1`. -/
def range (leaf : ℕ → SeriesBlock R) (a b : ℕ) : SeriesBlock R :=
  ((List.range' a (b - a)).map leaf).prod

variable (leaf : ℕ → SeriesBlock R)

@[simp] theorem range_self (a : ℕ) : range leaf a a = 1 := by
  simp [range]

@[simp] theorem range_succ_self (a : ℕ) : range leaf a (a + 1) = leaf a := by
  simp [range]

/-- Adjacent ranges compose to the range they cover. -/
theorem range_mul_range {a b c : ℕ} (hab : a ≤ b) (hbc : b ≤ c) :
    range leaf a b * range leaf b c = range leaf a c := by
  have hlength : c - a = (b - a) + (c - b) := by omega
  have hstart : a + 1 * (b - a) = b := by omega
  rw [range, range, range, ← List.prod_append, ← List.map_append, hlength, ← List.range'_append,
    hstart]

theorem range_succ {a b : ℕ} (h : a ≤ b) :
    range leaf a (b + 1) = range leaf a b * leaf b := by
  rw [← range_mul_range leaf h (Nat.le_succ b), Nat.succ_eq_add_one, range_succ_self]

theorem range_eq_mul {a b : ℕ} (h : a < b) : range leaf a b = leaf a * range leaf (a + 1) b := by
  rw [← range_mul_range leaf (Nat.le_succ a) h, Nat.succ_eq_add_one, range_succ_self]

theorem range_p {a b : ℕ} (h : a ≤ b) :
    (range leaf a b).p = ∏ k ∈ Finset.Ico a b, (leaf k).p := by
  induction b, h using Nat.le_induction with
  | base => simp
  | succ b h ih => rw [range_succ leaf h, mul_p, ih, Finset.prod_Ico_succ_top h]

theorem range_q {a b : ℕ} (h : a ≤ b) :
    (range leaf a b).q = ∏ k ∈ Finset.Ico a b, (leaf k).q := by
  induction b, h using Nat.le_induction with
  | base => simp
  | succ b h ih => rw [range_succ leaf h, mul_q, ih, Finset.prod_Ico_succ_top h]

end Monoid

section Field

variable {R K : Type*} [CommRing R] [Field K] (φ : R →+* K) (leaf : ℕ → SeriesBlock R) (w : ℕ → K)

/-- The quotient of a block is the partial sum of its terms, each weighted by the quotient of the
numerators and denominators met so far. -/
theorem range_t_div_q (hq : ∀ k, φ (leaf k).q ≠ 0)
    (ht : ∀ k, φ (leaf k).t = w k * φ (leaf k).p) {a b : ℕ} (h : a ≤ b) :
    φ (range leaf a b).t / φ (range leaf a b).q =
      ∑ k ∈ Finset.Ico a b,
        w k * ∏ j ∈ Finset.Icc a k, (φ (leaf j).p / φ (leaf j).q) := by
  induction b, h using Nat.le_induction with
  | base => simp
  | succ b h ih =>
      have hden : φ (range leaf a b).q ≠ 0 := by
        rw [range_q leaf h, map_prod]
        exact Finset.prod_ne_zero_iff.mpr fun k _ => hq k
      have hprod : ∏ j ∈ Finset.Icc a b, (φ (leaf j).p / φ (leaf j).q) =
          φ (range leaf a b).p * φ (leaf b).p / (φ (range leaf a b).q * φ (leaf b).q) := by
        rw [← Finset.Ico_succ_right_eq_Icc, Nat.succ_eq_succ, Nat.succ_eq_add_one,
          Finset.prod_Ico_succ_top h, Finset.prod_div_distrib, range_p leaf h, range_q leaf h,
          map_prod, map_prod, div_mul_div_comm]
      rw [Finset.sum_Ico_succ_top h, ← ih, hprod, range_succ leaf h]
      simp only [mul_t, mul_q, map_add, map_mul, ht]
      have hb := hq b
      field_simp

end Field

section Domain

variable {R K : Type*} [CommRing R] [CommRing K] (φ : R →+* K) (leaf : ℕ → SeriesBlock R)

/-! ## Ranges whose factors vanish -/

/-- Past a vanishing denominator only the numerators of the terms before it count. -/
theorem range_t_of_q_eq_zero {a v b : ℕ} (hav : a ≤ v) (hvb : v < b) (hv : φ (leaf v).q = 0) :
    φ (range leaf a b).t = φ (range leaf a v).p * φ (range leaf v b).t := by
  have hq : φ (range leaf v b).q = 0 := by
    rw [range_q leaf hvb.le, map_prod]
    exact Finset.prod_eq_zero (Finset.left_mem_Ico.mpr hvb) hv
  rw [← range_mul_range leaf hav hvb.le, mul_t, map_add, map_mul, map_mul, hq, mul_zero, zero_add]

/-- From a vanishing numerator on no term contributes. -/
theorem range_t_of_p_eq_zero {a u b : ℕ} (hau : a ≤ u) (hub : u < b) (hu : φ (leaf u).p = 0)
    (ht : φ (leaf u).t = 0) :
    φ (range leaf a b).t = φ (range leaf a u).t * φ (range leaf u b).q := by
  have htail : φ (range leaf u b).t = 0 := by
    rw [range_eq_mul leaf hub, mul_t, map_add, map_mul, map_mul, hu, ht, zero_mul, zero_mul, zero_add]
  rw [← range_mul_range leaf hau hub.le, mul_t, map_add, map_mul, map_mul, htail, mul_zero,
    add_zero]

variable [IsDomain K]

theorem range_p_eq_zero_iff {a b : ℕ} (h : a ≤ b) :
    φ (range leaf a b).p = 0 ↔ ∃ k ∈ Set.Ico a b, φ (leaf k).p = 0 := by
  simp [range_p leaf h, map_prod, Finset.prod_eq_zero_iff]

theorem range_q_eq_zero_iff {a b : ℕ} (h : a ≤ b) :
    φ (range leaf a b).q = 0 ↔ ∃ k ∈ Set.Ico a b, φ (leaf k).q = 0 := by
  simp [range_q leaf h, map_prod, Finset.prod_eq_zero_iff]

/-- Where numerators and denominators both vanish, the weighted sum vanishes as soon as a numerator
does so no later than the last denominator; otherwise what counts lies between the two. -/
theorem range_t_eq_zero_iff (ht : ∀ k, φ (leaf k).p = 0 → φ (leaf k).t = 0) {a b u v : ℕ}
    (hu : IsLeast {k | k ∈ Set.Ico a b ∧ φ (leaf k).p = 0} u)
    (hv : IsGreatest {k | k ∈ Set.Ico a b ∧ φ (leaf k).q = 0} v) :
    φ (range leaf a b).t = 0 ↔ u ≤ v ∨ φ (range leaf v u).t = 0 := by
  obtain ⟨⟨⟨hau, hub⟩, hpu⟩, hfirst⟩ := hu
  obtain ⟨⟨⟨hav, hvb⟩, hqv⟩, hlast⟩ := hv
  rcases Nat.lt_or_ge v u with hlt | hle
  · have hp : φ (range leaf a v).p ≠ 0 := fun h => by
      obtain ⟨k, ⟨hak, hkv⟩, hk⟩ := (range_p_eq_zero_iff φ leaf hav).mp h
      have := hfirst ⟨⟨hak, hkv.trans hvb⟩, hk⟩
      omega
    have hq : φ (range leaf u b).q ≠ 0 := fun h => by
      obtain ⟨k, ⟨huk, hkb⟩, hk⟩ := (range_q_eq_zero_iff φ leaf hub.le).mp h
      have := hlast ⟨⟨hau.trans huk, hkb⟩, hk⟩
      omega
    rw [range_t_of_q_eq_zero φ leaf hav hvb hqv,
      range_t_of_p_eq_zero φ leaf hlt.le hub hpu (ht u hpu), mul_eq_zero, mul_eq_zero]
    simp only [hp, hq, false_or, or_false, Nat.not_le.mpr hlt]
  · have hq : φ (range leaf u b).q = 0 :=
      (range_q_eq_zero_iff φ leaf hub.le).mpr ⟨v, ⟨hle, hvb⟩, hqv⟩
    rw [range_t_of_p_eq_zero φ leaf hau hub hpu (ht u hpu), hq, mul_zero]
    simp only [hle, true_or]

end Domain

section Shift

variable {R K : Type*} [CommRing R] [CommRing K] (φ : R →+* K) (leaf : ℕ → SeriesBlock R)

/-- Ranges whose leaves agree up to a common factor of the weighted numerators. -/
theorem range_shift (c : K) (d : ℕ) {a b : ℕ} (h : a ≤ b)
    (hp : ∀ k ∈ Set.Ico a b, φ (leaf (k + d)).p = φ (leaf k).p)
    (hq : ∀ k ∈ Set.Ico a b, φ (leaf (k + d)).q = φ (leaf k).q)
    (ht : ∀ k ∈ Set.Ico a b, φ (leaf (k + d)).t = c * φ (leaf k).t) :
    φ (range leaf (a + d) (b + d)).p = φ (range leaf a b).p ∧
      φ (range leaf (a + d) (b + d)).q = φ (range leaf a b).q ∧
        φ (range leaf (a + d) (b + d)).t = c * φ (range leaf a b).t := by
  induction b, h using Nat.le_induction with
  | base => simp
  | succ b h ih =>
      have hmem : b ∈ Set.Ico a (b + 1) := ⟨h, Nat.lt_succ_self b⟩
      have hsub : ∀ k ∈ Set.Ico a b, k ∈ Set.Ico a (b + 1) := fun k hk =>
        ⟨hk.1, hk.2.trans (Nat.lt_succ_self b)⟩
      obtain ⟨ihp, ihq, iht⟩ := ih (fun k hk => hp k (hsub k hk)) (fun k hk => hq k (hsub k hk))
        fun k hk => ht k (hsub k hk)
      have hsucc : b + 1 + d = b + d + 1 := by omega
      rw [hsucc, range_succ leaf (Nat.add_le_add_right h d), range_succ leaf h]
      simp only [mul_p, mul_q, mul_t, map_add, map_mul, ihp, ihq, iht, hp b hmem, hq b hmem,
        ht b hmem, true_and]
      ring

end Shift

end SeriesBlock

end GiveMePi.Library
