import GiveMePi.Chudnovsky.ChudnovskyCalculator
import GiveMePi.Chudnovsky.TermCount
import Mathlib.Analysis.Real.Sqrt

/-! # The error of the fixed-point value

`finalizeFixedPoint` stays within a rounding of the guard digits of the exact real value, so its
text always has the planned width. -/

namespace GiveMePi.Chudnovsky

open Binary

/-- The real number that `finalizeFixedPoint` rounds, with all working digits before the point. -/
noncomputable def exactScaledPi (node : BinaryNode) (precision : PrecisionPlan) : ℝ :=
  10 ^ precision.workingDigits.toNat * 426880 * √10005 * node.q / node.t

/-! ## The quotient of the root -/

/-- The quotient of a prefix of the series is within one of its first term. -/
theorem abs_rangeBlock_quotient_lt (n : ℕ) (hn : 1 ≤ n) :
    |((rangeBlock 0 n).t : ℚ) / (rangeBlock 0 n).q - 13591409| < 1 := by
  have hfirst : Binary.chudnovskyTerm 0 = 13591409 := by norm_num [Binary.chudnovskyTerm]
  rw [rangeBlock_zero_t_div_q, Finset.range_eq_Ico, Finset.sum_eq_sum_Ico_succ_bot hn, hfirst,
    add_sub_cancel_left]
  simpa using abs_tail_lt (n := 1) (m := n) le_rfl

/-- The values of a prefix of the series, as real numbers. -/
theorem rangeBlock_zero_real (n : ℕ) (hn : 1 ≤ n) :
    (0 : ℝ) < (rangeBlock 0 n).q ∧
      13591408 * ((rangeBlock 0 n).q : ℝ) < (rangeBlock 0 n).t ∧
      ((rangeBlock 0 n).t : ℝ) < 13591410 * (rangeBlock 0 n).q := by
  have hq : (0 : ℚ) < (rangeBlock 0 n).q := by exact_mod_cast rangeBlock_q_pos (Nat.zero_le n)
  have habs := abs_lt.mp (abs_rangeBlock_quotient_lt n hn)
  have hlow : 13591408 * ((rangeBlock 0 n).q : ℚ) < (rangeBlock 0 n).t := by
    rw [← lt_div_iff₀ hq]
    linarith [habs.1]
  have hhigh : ((rangeBlock 0 n).t : ℚ) < 13591410 * (rangeBlock 0 n).q := by
    rw [← div_lt_iff₀ hq]
    linarith [habs.2]
  exact ⟨by exact_mod_cast hq, by exact_mod_cast hlow, by exact_mod_cast hhigh⟩

/-- What the last working digits of the root's value depend on: a real number just above three
hundredths. -/
theorem rootScale_bounds (n : ℕ) (hn : 1 ≤ n) :
    0 < 426880 * ((rangeBlock 0 n).q : ℝ) / (rangeBlock 0 n).t ∧
      426880 * ((rangeBlock 0 n).q : ℝ) / (rangeBlock 0 n).t < 1 ∧
      3.14 < √10005 * (426880 * ((rangeBlock 0 n).q : ℝ) / (rangeBlock 0 n).t) ∧
      √10005 * (426880 * ((rangeBlock 0 n).q : ℝ) / (rangeBlock 0 n).t) < 3.15 := by
  obtain ⟨hq, hlow, hhigh⟩ := rangeBlock_zero_real n hn
  have ht : (0 : ℝ) < (rangeBlock 0 n).t := by linarith
  have hrootLow : (100.02 : ℝ) < √10005 := by
    rw [Real.lt_sqrt (by norm_num)]
    norm_num
  have hrootHigh : √10005 < (100.03 : ℝ) := by
    rw [Real.sqrt_lt' (by norm_num)]
    norm_num
  have hscaleLow : 0.0314 < 426880 * ((rangeBlock 0 n).q : ℝ) / (rangeBlock 0 n).t := by
    rw [lt_div_iff₀ ht]
    linarith
  have hscaleHigh : 426880 * ((rangeBlock 0 n).q : ℝ) / (rangeBlock 0 n).t < 0.03145 := by
    rw [div_lt_iff₀ ht]
    linarith
  refine ⟨by linarith, by linarith, by nlinarith, by nlinarith⟩

/-! ## Two floors and a rounding -/

/-- The floor of a square root, scaled and divided with another floor, loses less than two. -/
theorem floorSquareRoot_floorDivide_bounds (radicand : ℕ) {num den : ℤ} (hnum : 0 < num)
    (hden : 0 < den) (hlt : num < den) :
    √radicand * (num / den) - 2 < ((Nat.sqrt radicand : ℤ) * num / den : ℤ) ∧
      ((Nat.sqrt radicand : ℤ) * num / den : ℤ) ≤ √radicand * ((num : ℝ) / den) := by
  have hdenR : (0 : ℝ) < den := by exact_mod_cast hden
  have hscalePos : (0 : ℝ) < num / den := div_pos (by exact_mod_cast hnum) hdenR
  have hscaleLt : (num : ℝ) / den < 1 := (div_lt_one hdenR).mpr (by exact_mod_cast hlt)
  have hrootLow : (Nat.sqrt radicand : ℝ) ≤ √radicand := Real.nat_sqrt_le_real_sqrt
  have hrootHigh : √radicand < Nat.sqrt radicand + 1 := Real.real_sqrt_lt_nat_sqrt_succ
  have hfloor : ((Nat.sqrt radicand : ℤ) * num / den : ℤ) =
      ⌊(Nat.sqrt radicand : ℝ) * (num / den)⌋ := by
    have hcast : (Nat.sqrt radicand : ℝ) * (num / den) =
        (((Nat.sqrt radicand : ℤ) * num : ℤ) : ℝ) / den := by
      push_cast
      ring
    rw [hcast, Int.floor_div_cast_of_nonneg hden.le, Int.floor_intCast]
  rw [hfloor]
  constructor
  · have hstep : √radicand * ((num : ℝ) / den) <
        (Nat.sqrt radicand : ℝ) * (num / den) + 1 := by nlinarith
    linarith [Int.sub_one_lt_floor ((Nat.sqrt radicand : ℝ) * ((num : ℝ) / den))]
  · exact (Int.floor_le _).trans (mul_le_mul_of_nonneg_right hrootLow hscalePos.le)

/-- Rounding to a multiple of a scale, halves upwards, moves a value by at most half the scale. -/
theorem roundingDivide_bounds {half : ℤ} (hhalf : 0 < half) (value : ℤ) :
    (value + half) / (2 * half) * (2 * half) ≤ value + half ∧
      value - half < (value + half) / (2 * half) * (2 * half) := by
  have hdiv := Int.mul_ediv_add_emod (value + half) (2 * half)
  have hnonneg := Int.emod_nonneg (value + half) (show 2 * half ≠ 0 by omega)
  have hlt := Int.emod_lt_of_pos (value + half) (show 0 < 2 * half by omega)
  constructor <;> linarith [mul_comm ((value + half) / (2 * half)) (2 * half)]

/-! ## The result of a plan -/

/-- The doubled working digits of a plan that passes the overflow check. -/
theorem toNat_doubled_workingDigits {workingDigits : UInt64}
    (hscale : 2 * workingDigits.toNat < 2 ^ 64) :
    ¬ workingDigits > uint64Max / 2 ∧ (workingDigits * 2).toNat = 2 * workingDigits.toNat := by
  have htwo : (2 : UInt64).toNat = 2 := rfl
  constructor
  · rw [UInt64.not_lt, UInt64.le_iff_toNat_le, UInt64.toNat_div, uint64Max_toNat, htwo]
    omega
  · rw [UInt64.toNat_mul, htwo]
    omega

/-- The integer of all working digits lies just below the exact value. -/
theorem scaledPiWithGuard_bounds {precision : PrecisionPlan} {terms : UInt64} (hterms : 0 < terms)
    (hscale : 2 * precision.workingDigits.toNat < 2 ^ 64) :
    ∃ scaledPi : ℤ, scaledPiWithGuard (BinaryNode.ofRange 0 terms) precision = .ok scaledPi ∧
      exactScaledPi (BinaryNode.ofRange 0 terms) precision - 2 < scaledPi ∧
      scaledPi ≤ exactScaledPi (BinaryNode.ofRange 0 terms) precision := by
  have hn : 1 ≤ terms.toNat := UInt64.lt_iff_toNat_lt.mp hterms
  obtain ⟨hq, hlow, hhigh⟩ := rangeBlock_zero_real terms.toNat hn
  obtain ⟨-, hscaleLt, -, -⟩ := rootScale_bounds terms.toNat hn
  have htReal : (0 : ℝ) < (rangeBlock 0 terms.toNat).t := by linarith
  have ht : 0 < (rangeBlock 0 terms.toNat).t := by exact_mod_cast htReal
  have hnum : 0 < 426880 * (rangeBlock 0 terms.toNat).q := by
    have : 0 < (rangeBlock 0 terms.toNat).q := by exact_mod_cast hq
    omega
  have hlt : 426880 * (rangeBlock 0 terms.toNat).q < (rangeBlock 0 terms.toNat).t := by
    have := (div_lt_one htReal).mp hscaleLt
    exact_mod_cast this
  obtain ⟨hcheck, hexponent⟩ := toNat_doubled_workingDigits hscale
  have hbounds := floorSquareRoot_floorDivide_bounds
    (10 ^ (2 * precision.workingDigits.toNat) * 10005) hnum ht hlt
  have hradicand : √((10 ^ (2 * precision.workingDigits.toNat) * 10005 : ℕ) : ℝ) =
      10 ^ precision.workingDigits.toNat * √10005 := by
    push_cast
    rw [Real.sqrt_mul (by positivity), mul_comm 2, pow_mul, Real.sqrt_sq (by positivity)]
  have hexact : exactScaledPi (BinaryNode.ofRange 0 terms) precision =
      √((10 ^ (2 * precision.workingDigits.toNat) * 10005 : ℕ) : ℝ) *
        ((426880 * (rangeBlock 0 terms.toNat).q : ℤ) / (rangeBlock 0 terms.toNat).t) := by
    rw [hradicand, exactScaledPi]
    simp only [BinaryNode.ofRange, UInt64.toNat_zero]
    push_cast
    ring
  refine ⟨_, ?_, by rw [hexact]; exact hbounds.1, by rw [hexact]; exact hbounds.2⟩
  have hroot : GMPInteger.floorSquareRoot (10 ^ (2 * precision.workingDigits.toNat) * 10005) =
      .ok (Nat.sqrt (10 ^ (2 * precision.workingDigits.toNat) * 10005)) := by
    exact_mod_cast GMPInteger.floorSquareRoot_natCast _
  rw [scaledPiWithGuard, throwIf_neg hcheck, ok_bind]
  simp only [GMPInteger.setPowerOfTen_eq, ok_bind, hexponent, hroot]
  simp only [BinaryNode.ofRange, UInt64.toNat_zero]
  rw [GMPInteger.floorDivide_eq ht, mul_assoc]

/-- The exact value of a plan's root lies between 3.14 and 3.15 units of the working digits. -/
theorem exactScaledPi_bounds (precision : PrecisionPlan) {terms : UInt64} (hterms : 0 < terms) :
    3.14 * 10 ^ precision.workingDigits.toNat <
        exactScaledPi (BinaryNode.ofRange 0 terms) precision ∧
      exactScaledPi (BinaryNode.ofRange 0 terms) precision <
        3.15 * 10 ^ precision.workingDigits.toNat := by
  obtain ⟨-, -, hlow, hhigh⟩ :=
    rootScale_bounds terms.toNat (UInt64.lt_iff_toNat_lt.mp hterms)
  have hpow : (0 : ℝ) < 10 ^ precision.workingDigits.toNat := by positivity
  have hexact : exactScaledPi (BinaryNode.ofRange 0 terms) precision =
      √10005 * (426880 * ((rangeBlock 0 terms.toNat).q : ℝ) / (rangeBlock 0 terms.toNat).t) *
        10 ^ precision.workingDigits.toNat := by
    rw [exactScaledPi]
    simp only [BinaryNode.ofRange, UInt64.toNat_zero]
    ring
  rw [hexact]
  exact ⟨mul_lt_mul_of_pos_right hlow hpow, mul_lt_mul_of_pos_right hhigh hpow⟩

/-- The rounding increment is half of the guard scale. -/
theorem two_mul_roundingIncrement {guardDigits : ℕ} (h : 1 ≤ guardDigits) :
    (2 : ℤ) * (5 * 10 ^ (guardDigits - 1)) = 10 ^ guardDigits := by
  conv_rhs => rw [← Nat.sub_add_cancel h, pow_succ]
  ring

/-- The rounding of `finalizeFixedPoint`, once the value with guard digits is known. -/
theorem finalizeFixedPoint_of_scaledPi {node : BinaryNode} {precision : PrecisionPlan}
    {scaledPi : ℤ} (hguard : PrecisionPolicy.minimumGuardDigits ≤ precision.guardDigits)
    (h : scaledPiWithGuard node precision = .ok scaledPi) :
    finalizeFixedPoint node precision =
      .ok ((scaledPi + 5 * 10 ^ (precision.guardDigits.toNat - 1)) /
        (2 * (5 * 10 ^ (precision.guardDigits.toNat - 1)))) := by
  have hmin : 16 ≤ precision.guardDigits.toNat := UInt32.le_iff_toNat_le.mp hguard
  have hpred : (precision.guardDigits - 1).toNat = precision.guardDigits.toNat - 1 :=
    UInt32.toNat_sub_of_le _ _ (UInt32.le_iff_toNat_le.mpr (le_trans (by decide) hmin))
  have hdouble := two_mul_roundingIncrement (show 1 ≤ precision.guardDigits.toNat by omega)
  rw [finalizeFixedPoint, h, ok_bind]
  simp only [GMPInteger.setPowerOfTen_eq, ok_bind, UInt32.toNat_toUInt64, hpred]
  rw [GMPInteger.floorDivide_eq (by positivity), hdouble, mul_comm 5]

/-- A value of the planned width is written with one digit before the point. -/
theorem formatDecimal_eq {scaledPi : ℤ} {precision : PrecisionPlan} {digits : List Char}
    (hlimit : precision.requestedDigits.toNat + 1 < 2 ^ 64)
    (htext : (GMPInteger.toString scaledPi).toList = '3' :: digits)
    (hlength : digits.length = precision.requestedDigits.toNat) :
    formatDecimal scaledPi precision = .ok (String.ofList ('3' :: '.' :: digits)) := by
  have hone : (1 : UInt64).toNat = 1 := rfl
  have hcheck : ¬ precision.requestedDigits > uint64Max - 1 := by
    rw [UInt64.not_lt, UInt64.le_iff_toNat_le,
      UInt64.toNat_sub_of_le _ _ (le_uint64Max 1), uint64Max_toNat, hone]
    omega
  have hexpected : (precision.requestedDigits + 1).toNat = digits.length + 1 := by
    rw [UInt64.toNat_add, hone, hlength, Nat.mod_eq_of_lt hlimit]
  rw [formatDecimal]
  simp only [htext, hexpected]
  rw [throwIf_neg hcheck, ok_bind, throwIf_neg (by simp)]
  rfl

/-- For every plan whose doubled working digits fit, the fixed-point value is the exact one up to
the floors and the rounding of the guard digits, and its text has the planned width. -/
theorem finalizeFixedPoint_error_bound (requestedDigits : UInt64) (guardDigits : UInt32)
    (plan : PrecisionPlan)
    (hplan : PrecisionPolicy.create requestedDigits guardDigits = .ok plan)
    (hscale : 2 * plan.workingDigits.toNat < 2 ^ 64) :
    ∃ node scaledPi result digits, splitSequential 0 plan.termCount = .ok node ∧
      0 < exactScaledPi node plan ∧
      scaledPiWithGuard node plan = .ok scaledPi ∧
      exactScaledPi node plan - 2 < scaledPi ∧ scaledPi ≤ exactScaledPi node plan ∧
      finalizeFixedPoint node plan = .ok result ∧
      |(result : ℝ) * 10 ^ guardDigits.toNat - exactScaledPi node plan| ≤
        5 * 10 ^ (guardDigits.toNat - 1) + 2 ∧
      (GMPInteger.toString result).toList = '3' :: digits ∧
      digits.length = requestedDigits.toNat ∧ (∀ c ∈ digits, c.isDigit) ∧
      formatDecimal result plan = .ok (String.ofList ('3' :: '.' :: digits)) := by
  obtain ⟨hdigits, hguard, hrequested, hguardEq, hworking, hcount, -⟩ :=
    PrecisionPolicy.create_eq_ok_iff.mp hplan
  have hmin : 16 ≤ guardDigits.toNat := UInt32.le_iff_toNat_le.mp hguard
  have hpositive : 0 < requestedDigits.toNat :=
    Nat.pos_of_ne_zero fun hzero => hdigits (UInt64.toNat_inj.mp hzero)
  have hterms : (0 : UInt64) < plan.termCount := UInt64.lt_iff_toNat_lt.mpr (by simp [hcount])
  obtain ⟨scaledPi, hscaledPi, hlow, hhigh⟩ := scaledPiWithGuard_bounds hterms hscale
  obtain ⟨hexactLow, hexactHigh⟩ := exactScaledPi_bounds plan hterms
  set exact := exactScaledPi (BinaryNode.ofRange 0 plan.termCount) plan
  obtain ⟨half, hhalf⟩ : ∃ half : ℤ, half = 5 * 10 ^ (guardDigits.toNat - 1) := ⟨_, rfl⟩
  have hhalfPos : 0 < half := by rw [hhalf]; positivity
  have hunit : 2 * half = 10 ^ guardDigits.toNat := by
    rw [hhalf, two_mul_roundingIncrement (by omega)]
  have hfinal := finalizeFixedPoint_of_scaledPi (hguardEq ▸ hguard) hscaledPi
  rw [hguardEq, ← hhalf] at hfinal
  have hround := roundingDivide_bounds hhalfPos scaledPi
  obtain ⟨result, hresult⟩ : ∃ result, result = (scaledPi + half) / (2 * half) := ⟨_, rfl⟩
  rw [← hresult, hunit] at hround
  rw [← hresult] at hfinal
  -- The result has the planned width: it lies between 3 and 4 units of its own scale.
  have hsplit : (10 : ℝ) ^ plan.workingDigits.toNat =
      10 ^ requestedDigits.toNat * 10 ^ guardDigits.toNat := by rw [hworking, pow_add]
  have hunitReal : (2 : ℝ) * half = 10 ^ guardDigits.toNat := by exact_mod_cast hunit
  have hhalfReal : (0 : ℝ) < half := by exact_mod_cast hhalfPos
  have hroundLow : (scaledPi : ℝ) - half < result * 10 ^ guardDigits.toNat := by
    exact_mod_cast hround.2
  have hroundHigh : (result : ℝ) * 10 ^ guardDigits.toNat ≤ scaledPi + half := by
    exact_mod_cast hround.1
  have hwide : (10 : ℝ) ≤ 10 ^ requestedDigits.toNat := by
    simpa using pow_le_pow_right₀ (show (1 : ℝ) ≤ 10 by norm_num) hpositive
  have hguardWide : (10 : ℝ) ^ 16 ≤ 10 ^ guardDigits.toNat :=
    pow_le_pow_right₀ (by norm_num) hmin
  have hresultLow : 3 * 10 ^ requestedDigits.toNat ≤ result := by
    have hscaled : (3 * 10 ^ requestedDigits.toNat : ℝ) * 10 ^ guardDigits.toNat <
        result * 10 ^ guardDigits.toNat := by nlinarith
    have hlt := lt_of_mul_lt_mul_right hscaled (by positivity)
    exact_mod_cast hlt.le
  have hresultHigh : result < (3 + 1) * 10 ^ requestedDigits.toNat := by
    have hscaled : (result : ℝ) * 10 ^ guardDigits.toNat <
        (3 + 1) * 10 ^ requestedDigits.toNat * 10 ^ guardDigits.toNat := by nlinarith
    have hlt := lt_of_mul_lt_mul_right hscaled (by positivity)
    exact_mod_cast hlt
  obtain ⟨digits, htext, hlength, hisDigit⟩ :=
    GMPInteger.toString_toList_leading (by decide) (by decide) hresultLow hresultHigh
  refine ⟨_, scaledPi, result, digits, splitSequential_eq hterms, ?_, hscaledPi, hlow, hhigh,
    hfinal, ?_, htext, hlength, hisDigit, formatDecimal_eq ?_ htext ?_⟩
  · linarith [show (0 : ℝ) < 10 ^ plan.workingDigits.toNat by positivity]
  · have hhalfEq : (half : ℝ) = 5 * 10 ^ (guardDigits.toNat - 1) := by exact_mod_cast hhalf
    rw [← hhalfEq, abs_le]
    constructor <;> linarith
  · rw [hrequested]
    omega
  · rw [hlength, hrequested]

theorem finalizeFixedPoint_error_bound_one :
    ∃ node scaledPi result digits, splitSequential 0 3 = .ok node ∧
      0 < exactScaledPi node ⟨1, 16, 17, 3, 128⟩ ∧
      scaledPiWithGuard node ⟨1, 16, 17, 3, 128⟩ = .ok scaledPi ∧
      exactScaledPi node ⟨1, 16, 17, 3, 128⟩ - 2 < scaledPi ∧
      scaledPi ≤ exactScaledPi node ⟨1, 16, 17, 3, 128⟩ ∧
      finalizeFixedPoint node ⟨1, 16, 17, 3, 128⟩ = .ok result ∧
      |(result : ℝ) * 10 ^ 16 - exactScaledPi node ⟨1, 16, 17, 3, 128⟩| ≤ 5 * 10 ^ 15 + 2 ∧
      (GMPInteger.toString result).toList = '3' :: digits ∧
      digits.length = 1 ∧ (∀ c ∈ digits, c.isDigit) ∧
      formatDecimal result ⟨1, 16, 17, 3, 128⟩ = .ok (String.ofList ('3' :: '.' :: digits)) :=
  finalizeFixedPoint_error_bound 1 16 ⟨1, 16, 17, 3, 128⟩ (by decide) (by decide)

end GiveMePi.Chudnovsky
