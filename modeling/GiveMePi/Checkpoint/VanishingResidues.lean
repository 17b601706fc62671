import GiveMePi.Checkpoint.ModularPQTVerifier
import Mathlib.Algebra.Field.ZMod
import Mathlib.Data.Nat.Prime.Basic

/-! # Ranges whose residues vanish

A block that holds three zeros passes the recomputation exactly when all three residues of its
range vanish for each of the primes. -/

namespace GiveMePi.Checkpoint

namespace ModularPQTVerifier

open Binary (leafBlock rangeBlock)
open Library (SeriesBlock)

/-! ## The moduli are primes -/

/-- No odd number of an interval divides, the first one being odd. -/
def hasNoDivisor (n : ℕ) : ℕ → ℕ → Bool
  | 0, first => Nat.ble 1 (n % first) && Nat.ble 1 (n % (first + 2))
  | depth + 1, first => hasNoDivisor n depth first && hasNoDivisor n depth (first + 4 * 2 ^ depth)

theorem hasNoDivisor_spec {n depth first : ℕ} (h : hasNoDivisor n depth first = true)
    (hfirst : first % 2 = 1) {d : ℕ} (hodd : d % 2 = 1) (hle : first ≤ d)
    (hlt : d < first + 4 * 2 ^ depth) : ¬ d ∣ n := by
  induction depth generalizing first with
  | zero =>
      rw [hasNoDivisor, Bool.and_eq_true, Nat.ble_eq, Nat.ble_eq] at h
      have heq : d = first ∨ d = first + 2 := by
        rw [pow_zero] at hlt
        omega
      rw [Nat.dvd_iff_mod_eq_zero]
      rcases heq with rfl | rfl
      · exact Nat.one_le_iff_ne_zero.mp h.1
      · exact Nat.one_le_iff_ne_zero.mp h.2
  | succ depth ih =>
      rw [hasNoDivisor, Bool.and_eq_true] at h
      rw [pow_succ] at hlt
      rcases Nat.lt_or_ge d (first + 4 * 2 ^ depth) with hbelow | habove
      · exact ih h.1 hfirst hle hbelow
      · exact ih h.2 (by omega) habove (by omega)

/-- Trial division by the odd numbers up to the square root. -/
theorem prime_of_hasNoDivisor {n depth : ℕ} (hn : 2 ≤ n) (hodd : n % 2 = 1)
    (h : hasNoDivisor n depth 3 = true)
    (hsquare : n < (3 + 4 * 2 ^ depth) * (3 + 4 * 2 ^ depth)) : n.Prime := by
  rw [Nat.prime_def_le_sqrt]
  refine ⟨hn, fun d hd hsqrt hdvd => ?_⟩
  have hdodd : d % 2 = 1 := by
    by_contra heven
    have htwo : 2 ∣ n := (Nat.dvd_of_mod_eq_zero (by omega)).trans hdvd
    omega
  exact hasNoDivisor_spec h rfl hdodd (by omega) (hsqrt.trans_lt (Nat.sqrt_lt.mpr hsquare)) hdvd

theorem prime_of_mem {prime : UInt32} (h : prime ∈ verificationPrimes) : prime.toNat.Prime := by
  simp only [verificationPrimes, List.mem_cons, List.not_mem_nil, or_false] at h
  have htrial {n : ℕ} := @prime_of_hasNoDivisor n 13
  rcases h with rfl | rfl | rfl <;>
    exact htrial (by decide) (by decide) (by decide +kernel) (by decide)

/-! ## Where the factors vanish -/

/-- An index whose numerator factor vanishes. -/
def IsNumeratorRoot (prime k : ℕ) : Prop :=
  0 < k ∧ (prime : ℤ) ∣ (6 * k - 5) * (2 * k - 1) * (6 * k - 1)

/-- An index whose denominator factor vanishes. -/
def IsDenominatorRoot (prime k : ℕ) : Prop :=
  0 < k ∧ prime ∣ k

instance (prime k : ℕ) : Decidable (IsNumeratorRoot prime k) :=
  inferInstanceAs (Decidable (_ ∧ _))

instance (prime k : ℕ) : Decidable (IsDenominatorRoot prime k) :=
  inferInstanceAs (Decidable (_ ∧ _))

/-- The first index of the range whose numerator vanishes. -/
def IsFirstNumeratorRoot (prime start stop first : ℕ) : Prop :=
  IsLeast {k | k ∈ Set.Ico start stop ∧ IsNumeratorRoot prime k} first

/-- The last index of the range whose denominator vanishes. -/
def IsLastDenominatorRoot (prime start stop last : ℕ) : Prop :=
  IsGreatest {k | k ∈ Set.Ico start stop ∧ IsDenominatorRoot prime k} last

/-- The prime tells the values of a range from three zeros: its factors do not vanish in the range,
or a sum that starts after the last vanishing denominator is left. -/
def IsDetectable (prime start stop : ℕ) : Prop :=
  (∀ k ∈ Set.Ico start stop, ¬ IsNumeratorRoot prime k) ∨
  (∀ k ∈ Set.Ico start stop, ¬ IsDenominatorRoot prime k) ∨
  ∃ first last, IsFirstNumeratorRoot prime start stop first ∧
    IsLastDenominatorRoot prime start stop last ∧ last < first ∧
      ¬ (prime : ℤ) ∣ (rangeBlock 0 (first - last)).t

/-! ## The leaves modulo a prime -/

/-- What the argument needs of a modulus. -/
structure IsModulus (prime : ℕ) : Prop where
  isPrime : prime.Prime
  not_dvd_constant : ¬ prime ∣ 10939058860032000
  not_dvd_five : ¬ prime ∣ 5

theorem isModulus_of_mem {prime : UInt32} (h : prime ∈ verificationPrimes) :
    IsModulus prime.toNat := by
  have hprime := prime_of_mem h
  simp only [verificationPrimes, List.mem_cons, List.not_mem_nil, or_false] at h
  rcases h with rfl | rfl | rfl <;> exact ⟨hprime, by decide, by decide⟩

/-- The reduction modulo the number. -/
abbrev reduction (prime : ℕ) : ℤ →+* ZMod prime :=
  Int.castRingHom (ZMod prime)

theorem reduction_eq_zero_iff {prime : ℕ} {value : ℤ} :
    reduction prime value = 0 ↔ (prime : ℤ) ∣ value :=
  ZMod.intCast_zmod_eq_zero_iff_dvd value prime

theorem leafBlock_of_pos {k : ℕ} (h : 0 < k) :
    leafBlock k = ⟨(6 * k - 5) * (2 * k - 1) * (6 * k - 1), k ^ 3 * 10939058860032000,
      (-1) ^ k * ((13591409 + 545140134 * k) * ((6 * k - 5) * (2 * k - 1) * (6 * k - 1)))⟩ := by
  rw [leafBlock, if_neg h.ne']

section Modulus

variable {prime : ℕ} (hmodulus : IsModulus prime)
include hmodulus

theorem reduction_leaf_p {k : ℕ} :
    reduction prime (leafBlock k).p = 0 ↔ IsNumeratorRoot prime k := by
  rw [reduction_eq_zero_iff, IsNumeratorRoot]
  rcases Nat.eq_zero_or_pos k with rfl | hpos
  · have hone : ¬ (prime : ℤ) ∣ 1 := by exact_mod_cast hmodulus.isPrime.not_dvd_one
    simpa [leafBlock] using hone
  · rw [leafBlock_of_pos hpos]
    simp only [hpos, true_and]

theorem reduction_leaf_q {k : ℕ} :
    reduction prime (leafBlock k).q = 0 ↔ IsDenominatorRoot prime k := by
  rw [reduction_eq_zero_iff, IsDenominatorRoot]
  rcases Nat.eq_zero_or_pos k with rfl | hpos
  · have hone : ¬ (prime : ℤ) ∣ 1 := by exact_mod_cast hmodulus.isPrime.not_dvd_one
    simpa [leafBlock] using hone
  · have hcast : (k : ℤ) ^ 3 * 10939058860032000 = ((k ^ 3 * 10939058860032000 : ℕ) : ℤ) := by
      push_cast
      rfl
    rw [leafBlock_of_pos hpos]
    simp only [hpos, true_and]
    rw [hcast, Int.natCast_dvd_natCast, hmodulus.isPrime.dvd_mul]
    simp only [hmodulus.not_dvd_constant, or_false]
    exact ⟨hmodulus.isPrime.dvd_of_dvd_pow, fun h => dvd_pow h (by decide)⟩

omit hmodulus in
/-- The weighted numerator of a leaf is a multiple of its numerator. -/
theorem reduction_leaf_t {k : ℕ} (h : reduction prime (leafBlock k).p = 0) :
    reduction prime (leafBlock k).t = 0 := by
  rcases Nat.eq_zero_or_pos k with rfl | hpos
  · have hone : reduction prime (1 : ℤ) = 0 := h
    have ht : (leafBlock 0).t = 13591409 * 1 := rfl
    rw [ht, map_mul, hone, mul_zero]
  · rw [leafBlock_of_pos hpos] at h ⊢
    simp only [map_mul] at h ⊢
    rw [h, mul_zero, mul_zero]

omit hmodulus in
/-- After a multiple of the prime the factors repeat those after the start of the series. -/
theorem reduction_range_shift {last count : ℕ} (hdvd : prime ∣ last) (hcount : 1 ≤ count) :
    reduction prime (rangeBlock (1 + last) (count + last)).q =
        reduction prime (rangeBlock 1 count).q ∧
      reduction prime (rangeBlock (1 + last) (count + last)).t =
        (-1) ^ last * reduction prime (rangeBlock 1 count).t := by
  have hlast : reduction prime (last : ℤ) = 0 :=
    reduction_eq_zero_iff.mpr (Int.natCast_dvd_natCast.mpr hdvd)
  have hleaf {k : ℕ} (hk : k ∈ Set.Ico 1 count) : leafBlock k = _ ∧ leafBlock (k + last) = _ :=
    ⟨leafBlock_of_pos hk.1, leafBlock_of_pos (Nat.add_pos_left hk.1 last)⟩
  refine (SeriesBlock.range_shift (reduction prime) leafBlock ((-1) ^ last) last hcount ?_ ?_ ?_).2
  · intro k hk
    rw [(hleaf hk).1, (hleaf hk).2]
    push_cast
    simp only [map_mul, map_sub, map_add, hlast, add_zero]
  · intro k hk
    rw [(hleaf hk).1, (hleaf hk).2]
    push_cast
    simp only [map_mul, map_pow, map_add, hlast, add_zero]
  · intro k hk
    rw [(hleaf hk).1, (hleaf hk).2]
    push_cast
    simp only [map_mul, map_sub, map_add, map_pow, map_neg, map_one, hlast, add_zero, pow_add]
    ring

/-- From a multiple of the prime on, the sum is that of the start of the series up to a unit. -/
theorem reduction_range_from_root {first last : ℕ} (hroot : IsDenominatorRoot prime last)
    (hlt : last < first) :
    reduction prime (rangeBlock last first).t = 0 ↔
      (prime : ℤ) ∣ (rangeBlock 0 (first - last)).t := by
  obtain ⟨hpos, hdvd⟩ := hroot
  have hlast : reduction prime (last : ℤ) = 0 :=
    reduction_eq_zero_iff.mpr (Int.natCast_dvd_natCast.mpr hdvd)
  have hfirst : first - last + last = first := by omega
  obtain ⟨hq, ht⟩ := reduction_range_shift hdvd (by omega : 1 ≤ first - last)
  rw [hfirst, Nat.add_comm 1 last] at hq ht
  have hvalue : reduction prime (rangeBlock last first).t =
      reduction prime (-5 * (-1) ^ last) * reduction prime (rangeBlock 0 (first - last)).t := by
    rw [rangeBlock, SeriesBlock.range_eq_mul leafBlock hlt, rangeBlock,
      SeriesBlock.range_eq_mul leafBlock (by omega : 0 < first - last), SeriesBlock.mul_t,
      SeriesBlock.mul_t]
    simp only [map_add, map_mul, hq, ht, leafBlock_of_pos hpos]
    simp only [map_mul, map_sub, map_pow, map_neg, map_one, hlast, leafBlock, if_true, map_ofNat]
    ring
  have hunit : reduction prime (-5 * (-1) ^ last) ≠ 0 := fun h => by
    have hfive := reduction_eq_zero_iff.mp h
    rw [Int.natCast_dvd, Int.natAbs_mul, Int.natAbs_pow] at hfive
    simp only [Int.natAbs_neg, Int.natAbs_one, one_pow, mul_one] at hfive
    exact hmodulus.not_dvd_five hfive
  have := Fact.mk hmodulus.isPrime
  rw [hvalue, mul_eq_zero, ← reduction_eq_zero_iff]
  simp only [hunit, false_or]

/-! ## Three zeros -/

/-- All three residues of a range vanish exactly when the prime does not detect it. -/
theorem residues_vanish_iff {start stop : ℕ} (h : start ≤ stop) :
    (reduction prime (rangeBlock start stop).p = 0 ∧ reduction prime (rangeBlock start stop).q = 0 ∧
      reduction prime (rangeBlock start stop).t = 0) ↔ ¬ IsDetectable prime start stop := by
  have := Fact.mk hmodulus.isPrime
  have hp : reduction prime (rangeBlock start stop).p = 0 ↔
      ∃ k ∈ Set.Ico start stop, IsNumeratorRoot prime k := by
    simp only [rangeBlock, SeriesBlock.range_p_eq_zero_iff _ _ h, reduction_leaf_p hmodulus]
  have hq : reduction prime (rangeBlock start stop).q = 0 ↔
      ∃ k ∈ Set.Ico start stop, IsDenominatorRoot prime k := by
    simp only [rangeBlock, SeriesBlock.range_q_eq_zero_iff _ _ h, reduction_leaf_q hmodulus]
  have ht {first last : ℕ} (hfirst : IsFirstNumeratorRoot prime start stop first)
      (hlast : IsLastDenominatorRoot prime start stop last) :
      reduction prime (rangeBlock start stop).t = 0 ↔
        first ≤ last ∨ reduction prime (rangeBlock last first).t = 0 :=
    SeriesBlock.range_t_eq_zero_iff (reduction prime) leafBlock (fun k => reduction_leaf_t)
      (by simpa only [reduction_leaf_p hmodulus, IsFirstNumeratorRoot] using hfirst)
      (by simpa only [reduction_leaf_q hmodulus, IsLastDenominatorRoot] using hlast)
  rw [hp, hq, IsDetectable]
  constructor
  · rintro ⟨⟨k, hk, hroot⟩, ⟨j, hj, hmultiple⟩, hzero⟩
    rintro (hnone | hnone | ⟨first, last, hfirst, hlast, hlt, hndvd⟩)
    · exact hnone k hk hroot
    · exact hnone j hj hmultiple
    · rcases (ht hfirst hlast).mp hzero with hle | hsum
      · omega
      · exact hndvd ((reduction_range_from_root hmodulus hlast.1.2 hlt).mp hsum)
  · intro hnot
    push Not at hnot
    obtain ⟨⟨k, hk, hroot⟩, ⟨j, hj, hmultiple⟩, hall⟩ := hnot
    refine ⟨⟨k, hk, hroot⟩, ⟨j, hj, hmultiple⟩, ?_⟩
    have hbound : BddAbove {k | k ∈ Set.Ico start stop ∧ IsDenominatorRoot prime k} :=
      ⟨stop, fun k hk => hk.1.2.le⟩
    have hfirst : IsFirstNumeratorRoot prime start stop _ :=
      ⟨Nat.sInf_mem ⟨k, hk, hroot⟩, fun _ => Nat.sInf_le⟩
    have hlast : IsLastDenominatorRoot prime start stop _ :=
      ⟨Nat.sSup_mem ⟨j, hj, hmultiple⟩ hbound, fun _ => le_csSup hbound⟩
    rw [ht hfirst hlast]
    rcases Nat.lt_or_ge (sSup {k | k ∈ Set.Ico start stop ∧ IsDenominatorRoot prime k})
      (sInf {k | k ∈ Set.Ico start stop ∧ IsNumeratorRoot prime k}) with hlt | hle
    · exact .inr ((reduction_range_from_root hmodulus hlast.1.2 hlt).mpr
        (hall _ _ hfirst hlast hlt))
    · exact .inl hle

end Modulus

/-- A block without values. -/
def zeroBlock (identity : ComputationIdentity) (location : BlockLocation) : CheckpointBlock :=
  ⟨identity, location, 0, 0, 0⟩

/-- The node that a block is resumed from. -/
def seedNode (block : CheckpointBlock) : Binary.BinaryNode :=
  ⟨block.location.start, block.location.stop, block.p, block.q, block.t⟩

theorem isCongruent_zeroBlock_iff {identity : ComputationIdentity} {location : BlockLocation}
    (h : location.start < location.stop) {prime : UInt32} (hprime : prime ∈ verificationPrimes) :
    IsCongruent (zeroBlock identity location) prime.toNat ↔
      ¬ IsDetectable prime.toNat location.start.toNat location.stop.toNat := by
  have hzero (value : ℤ) : 0 ≡ value [ZMOD prime.toNat] ↔ reduction prime.toNat value = 0 := by
    rw [reduction_eq_zero_iff, Int.modEq_iff_dvd, sub_zero]
  rw [← residues_vanish_iff (isModulus_of_mem hprime) (UInt64.lt_iff_toNat_lt.mp h).le]
  simp only [IsCongruent, zeroBlock, hzero]

theorem seedNode_hasValues {block : CheckpointBlock} :
    (seedNode block).hasValues = false ↔ block = zeroBlock block.identity block.location := by
  obtain ⟨identity, location, p, q, t⟩ := block
  by_cases hp : p = 0 <;> by_cases hq : q = 0 <;> by_cases ht : t = 0 <;>
    simp [seedNode, Binary.BinaryNode.hasValues, zeroBlock, hp, hq, ht]

/-- The recomputation refuses the block of three zeros exactly when one of its primes detects the
range. -/
theorem zeroBlock_not_accepted_iff {identity : ComputationIdentity} {location : BlockLocation}
    (hidentity : identity.IsValid) (hstart : location.start < location.stop)
    (hstop : location.stop ≤ identity.termCount) :
    (validate (zeroBlock identity location)).isAccepted = false ↔
      ∃ prime ∈ verificationPrimes,
        IsDetectable prime.toNat location.start.toNat location.stop.toNat := by
  rw [← Bool.not_eq_true, validate_isAccepted_iff]
  have hiff : (∀ prime ∈ verificationPrimes,
      IsCongruent (zeroBlock identity location) prime.toNat) ↔ ∀ prime ∈ verificationPrimes,
        ¬ IsDetectable prime.toNat location.start.toNat location.stop.toNat :=
    forall₂_congr fun prime hprime => isCongruent_zeroBlock_iff hstart hprime
  change ¬ (identity.IsValid ∧ location.start < location.stop ∧
    location.stop ≤ identity.termCount ∧ _) ↔ _
  rw [hiff]
  simp only [hidentity, hstart, hstop, true_and]
  push Not
  rfl

/-- What the recomputation accepts has values to resume from, and three zeros are refused, exactly
for the ranges that one of its primes detects. -/
theorem acceptance_nonvacuous_iff (identity : ComputationIdentity) (location : BlockLocation)
    (hidentity : identity.IsValid) (hstart : location.start < location.stop)
    (hstop : location.stop ≤ identity.termCount) :
    ((validate (zeroBlock identity location)).isAccepted = false ∧
        ∀ p q t, (validate ⟨identity, location, p, q, t⟩).isAccepted = true →
          (seedNode ⟨identity, location, p, q, t⟩).hasValues = true) ↔
      ∃ prime ∈ verificationPrimes,
        IsDetectable prime.toNat location.start.toNat location.stop.toNat := by
  rw [← zeroBlock_not_accepted_iff hidentity hstart hstop, and_iff_left_iff_imp]
  intro hrefused p q t haccepted
  by_contra hvalues
  have hzero := seedNode_hasValues.mp (Bool.not_eq_true _ ▸ hvalues)
  rw [hzero] at haccepted
  exact absurd hrefused (by simpa using haccepted)

/-- The identity of ten digits, and all of its terms. -/
def tenDigitsIdentity : ComputationIdentity where
  algorithm := AlgorithmId.chudnovskyBinarySplitting
  arithmeticVersion := arithmeticFormatVersion
  formulaVersion := binarySplittingFormulaVersion
  requestedDigits := 10
  guardDigits := 16
  workingDigits := 26
  termCount := 3

theorem acceptance_nonvacuous_iff_ten :
    ((validate (zeroBlock tenDigitsIdentity ⟨0, 3, 2⟩)).isAccepted = false ∧
        ∀ p q t, (validate ⟨tenDigitsIdentity, ⟨0, 3, 2⟩, p, q, t⟩).isAccepted = true →
          (seedNode ⟨tenDigitsIdentity, ⟨0, 3, 2⟩, p, q, t⟩).hasValues = true) ↔
      ∃ prime ∈ verificationPrimes, IsDetectable prime.toNat 0 3 :=
  acceptance_nonvacuous_iff tenDigitsIdentity ⟨0, 3, 2⟩ (by decide) (by decide) (by decide)

/-- The identity of fifteen billion digits. -/
def largeIdentity : ComputationIdentity where
  algorithm := AlgorithmId.chudnovskyBinarySplitting
  arithmeticVersion := arithmeticFormatVersion
  formulaVersion := binarySplittingFormulaVersion
  requestedDigits := 15000000000
  guardDigits := 32
  workingDigits := 15000000032
  termCount := 1057705078

/-- Its first `1000000010` terms, which hold a multiple of each prime. -/
def largeLocation : BlockLocation :=
  ⟨0, 1000000010, 30⟩

/-- A root of the numerators before the first multiple of the prime leaves nothing to detect. -/
theorem not_isDetectable_of_le {prime start stop multiple : ℕ} (root : ℕ)
    (hroot : IsNumeratorRoot prime root) (hmultiple : IsDenominatorRoot prime multiple)
    (hstart : start ≤ root) (hle : root ≤ multiple) (hstop : multiple < stop) :
    ¬ IsDetectable prime start stop := by
  have hr : root ∈ Set.Ico start stop := ⟨hstart, hle.trans_lt hstop⟩
  have hm : multiple ∈ Set.Ico start stop := ⟨hstart.trans hle, hstop⟩
  rintro (hnone | hnone | ⟨first, last, hfirst, hlast, hlt, -⟩)
  · exact hnone root hr hroot
  · exact hnone multiple hm hmultiple
  · have h₁ := hfirst.2 ⟨hr, hroot⟩
    have h₂ := hlast.2 ⟨hm, hmultiple⟩
    omega

theorem zeroBlock_isAccepted_large :
    (validate (zeroBlock largeIdentity largeLocation)).isAccepted = true ∧
      (seedNode (zeroBlock largeIdentity largeLocation)).hasValues = false := by
  have hnone : ¬ ∃ prime ∈ verificationPrimes, IsDetectable prime.toNat largeLocation.start.toNat
      largeLocation.stop.toNat := by
    rintro ⟨prime, hprime, hdetect⟩
    simp only [verificationPrimes, List.mem_cons, List.not_mem_nil, or_false] at hprime
    rcases hprime with rfl | rfl | rfl
    · exact not_isDetectable_of_le 166374059 (by decide) ⟨by decide, dvd_refl _⟩
        (by decide) (by decide) (by decide) hdetect
    · exact not_isDetectable_of_le 166666668 (by decide) ⟨by decide, dvd_refl _⟩
        (by decide) (by decide) (by decide) hdetect
    · exact not_isDetectable_of_le 166666669 (by decide) ⟨by decide, dvd_refl _⟩
        (by decide) (by decide) (by decide) hdetect
  have hidentity : largeIdentity.IsValid := by decide
  have hstart : largeLocation.start < largeLocation.stop := by decide
  rw [← zeroBlock_not_accepted_iff hidentity hstart (by decide), Bool.not_eq_false] at hnone
  exact ⟨hnone, rfl⟩

end ModularPQTVerifier

end GiveMePi.Checkpoint
