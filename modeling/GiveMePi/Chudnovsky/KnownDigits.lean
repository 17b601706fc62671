import GiveMePi.Chudnovsky.FixedPoint
import GiveMePi.StringConversion
import GiveMePi.Verification.DecimalFractions
import GiveMePi.Verification.KnownDigitsVerifier

/-! # The first digits of a calculation

Every text that the calculation produces is canonical and begins with the known digits, rounded
where it ends before them: all prefixes of the series that a plan can ask for agree with its first
twelve terms, which are enclosed between two integers. -/

namespace GiveMePi.Chudnovsky

open Binary Verification

/-! ## The values of the prefixes -/

/-- The value of pi that a number of terms gives. -/
noncomputable def piOfTerms (terms : ℕ) : ℝ :=
  (426880 : ℕ) * √(10005 : ℕ) * (rangeBlock 0 terms).q / (rangeBlock 0 terms).t

theorem piOfTerms_eq (terms : ℕ) :
    piOfTerms terms = 426880 * √10005 * (rangeBlock 0 terms).q / (rangeBlock 0 terms).t := by
  simp [piOfTerms]

theorem exactScaledPi_eq (terms : UInt64) (precision : PrecisionPlan) :
    exactScaledPi (BinaryNode.ofRange 0 terms) precision =
      10 ^ precision.workingDigits.toNat * piOfTerms terms.toNat := by
  rw [exactScaledPi, piOfTerms_eq]
  simp only [BinaryNode.ofRange, UInt64.toNat_zero]
  ring

theorem abs_seriesPrefix_sub_lt {short long : ℕ} (hshort : 1 ≤ short) (h : short ≤ long) :
    |((rangeBlock 0 long).t : ℝ) / (rangeBlock 0 long).q -
      (rangeBlock 0 short).t / (rangeBlock 0 short).q| < (1 / (termRatio : ℝ)) ^ (short - 1) := by
  have htail : |((rangeBlock 0 long).t : ℚ) / (rangeBlock 0 long).q -
      (rangeBlock 0 short).t / (rangeBlock 0 short).q| < (1 / termRatio) ^ (short - 1) := by
    rw [rangeBlock_zero_t_div_q, rangeBlock_zero_t_div_q, Finset.sum_range_sub_sum_range h]
    convert abs_tail_lt (n := short) (m := long) hshort using 2
    congr 1
    ext k
    simp [and_comm]
  exact_mod_cast htail

/-- The quotients of a number with two large ones differ less than these do. -/
theorem abs_div_sub_div_le {value left right : ℝ} (hvalue : 0 ≤ value) (hleft : 0 < left)
    (hright : 0 < right) (h : value ≤ left * right) :
    |value / left - value / right| ≤ |left - right| := by
  have hproduct : 0 < left * right := mul_pos hleft hright
  have hdiff : value / left - value / right = value / (left * right) * (right - left) := by
    field_simp
  rw [hdiff, abs_mul, abs_of_nonneg (div_nonneg hvalue hproduct.le), abs_sub_comm right]
  exact mul_le_of_le_one_left (abs_nonneg _) ((div_le_one hproduct).mpr h)

/-- A longer prefix of the series changes the value of pi by less than its first new term. -/
theorem abs_piOfTerms_sub_lt {short long : ℕ} (hshort : 1 ≤ short) (h : short ≤ long) :
    |piOfTerms long - piOfTerms short| < (1 / (termRatio : ℝ)) ^ (short - 1) := by
  have hroot : √10005 < (100.03 : ℝ) := by
    rw [Real.sqrt_lt' (by norm_num)]
    norm_num
  have hquotient (terms : ℕ) (hterms : 1 ≤ terms) :
      (13591408 : ℝ) < (rangeBlock 0 terms).t / (rangeBlock 0 terms).q ∧
        piOfTerms terms =
          426880 * √10005 / ((rangeBlock 0 terms).t / (rangeBlock 0 terms).q) := by
    obtain ⟨hq, hlow, -⟩ := rangeBlock_zero_real terms hterms
    exact ⟨(lt_div_iff₀ hq).mpr hlow, by rw [piOfTerms_eq, div_div_eq_mul_div]⟩
  obtain ⟨hlongLow, hlong⟩ := hquotient long (hshort.trans h)
  obtain ⟨hshortLow, hshortEq⟩ := hquotient short hshort
  rw [hlong, hshortEq]
  refine lt_of_le_of_lt (abs_div_sub_div_le (by positivity) (by linarith) (by linarith) ?_)
    (abs_seriesPrefix_sub_lt hshort h)
  nlinarith

/-! ## An enclosure -/

/-- The first hundred and ten digits of pi behind the point, as one integer. -/
def publishedPi : ℕ :=
  314159265358979323846264338327950288419716939937510582097494459230781640628620899862803482534211706798214808651

theorem squares_twelve :
    (publishedPi * (rangeBlock 0 12).t) ^ 2 ≤ 10005 * (10 ^ 110 * 426880 * (rangeBlock 0 12).q) ^ 2 ∧
      10005 * (10 ^ 110 * 426880 * (rangeBlock 0 12).q) ^ 2 <
        ((publishedPi + 1) * (rangeBlock 0 12).t) ^ 2 := by
  decide +kernel

/-- Twelve terms give the digits up to one unit of the last. -/
theorem piOfTerms_twelve :
    publishedPi ≤ 10 ^ 110 * piOfTerms 12 ∧ 10 ^ 110 * piOfTerms 12 < publishedPi + 1 := by
  obtain ⟨hq, hlow, -⟩ := rangeBlock_zero_real 12 (by decide)
  have ht : (0 : ℝ) < (rangeBlock 0 12).t := by linarith
  obtain ⟨hlower, hupper⟩ := squares_twelve
  have hsquare : (√10005 * (10 ^ 110 * 426880 * (rangeBlock 0 12).q)) ^ 2 =
      10005 * (10 ^ 110 * 426880 * ((rangeBlock 0 12).q : ℝ)) ^ 2 := by
    rw [mul_pow, Real.sq_sqrt (by norm_num)]
  have hvalue : 10 ^ 110 * piOfTerms 12 =
      √10005 * (10 ^ 110 * 426880 * (rangeBlock 0 12).q) / (rangeBlock 0 12).t := by
    rw [piOfTerms_eq]
    ring
  rw [hvalue, le_div_iff₀ ht, div_lt_iff₀ ht]
  constructor
  · refine (pow_le_pow_iff_left₀ (by positivity) (by positivity) two_ne_zero).mp ?_
    rw [hsquare]
    exact_mod_cast hlower
  · refine (pow_lt_pow_iff_left₀ (by positivity) (by positivity) two_ne_zero).mp ?_
    rw [hsquare]
    exact_mod_cast hupper

/-- All prefixes of a plan that reaches some digits give these. -/
theorem piOfTerms_close {terms digits : ℕ} (hterms : 1 ≤ terms) (hlimit : digits ≤ 116)
    (h : digits * 1000000 ≤ (terms - 1) * 14181647) :
    |10 ^ 110 * piOfTerms terms - publishedPi| < 1 + 10 ^ 110 / 10 ^ digits := by
  have hreach (count : ℕ) (hcount : digits * 1000000 ≤ count * 14181647) :
      (1 / (termRatio : ℝ)) ^ count ≤ 1 / 10 ^ digits := by
    have hpow : (10 : ℝ) ^ digits ≤ (termRatio : ℝ) ^ count := by
      rw [termRatio]
      exact_mod_cast ten_pow_le_termRatio_pow hcount
    rw [one_div_pow]
    exact one_div_le_one_div_of_le (by positivity) hpow
  have hclose : |piOfTerms terms - piOfTerms 12| < 1 / 10 ^ digits := by
    rcases le_total terms 12 with hshort | hlong
    · rw [abs_sub_comm]
      exact (abs_piOfTerms_sub_lt hterms hshort).trans_le (hreach _ h)
    · have hexponent : digits * 1000000 ≤ 11 * 14181647 :=
        (Nat.mul_le_mul_right _ hlimit).trans (by norm_num)
      exact (abs_piOfTerms_sub_lt (by decide) hlong).trans_le (hreach 11 hexponent)
  obtain ⟨hlower, hupper⟩ := piOfTerms_twelve
  rw [abs_lt] at hclose ⊢
  have hscaled : (10 : ℝ) ^ 110 / 10 ^ digits = 10 ^ 110 * (1 / 10 ^ digits) := by ring
  rw [hscaled]
  constructor <;> nlinarith [hclose.1, hclose.2]

/-! ## Rounding -/

/-- What the calculation rounds to: the value of its terms, to half a unit and the floors. -/
theorem finalizeFixedPoint_near {requestedDigits : UInt64} {guardDigits : UInt32}
    {plan : PrecisionPlan} (hplan : PrecisionPolicy.IsPlan requestedDigits guardDigits plan)
    (hscale : 2 * plan.workingDigits.toNat < 2 ^ 64) :
    ∃ result : ℤ, finalizeFixedPoint (BinaryNode.ofRange 0 plan.termCount) plan = .ok result ∧
      |result - 10 ^ requestedDigits.toNat * piOfTerms plan.termCount.toNat| ≤
        1 / 2 + 2 / 10 ^ 16 := by
  have hmin : 16 ≤ guardDigits.toNat := UInt32.le_iff_toNat_le.mp hplan.guard_min
  have hterms : (0 : UInt64) < plan.termCount :=
    UInt64.lt_iff_toNat_lt.mpr (by simp [hplan.terms_eq])
  obtain ⟨scaledPi, hscaledPi, hlow, hhigh⟩ := scaledPiWithGuard_bounds hterms hscale
  obtain ⟨half, hhalf⟩ : ∃ half : ℤ, half = 5 * 10 ^ (guardDigits.toNat - 1) := ⟨_, rfl⟩
  have hhalfPos : 0 < half := by rw [hhalf]; positivity
  have hunit : 2 * half = 10 ^ guardDigits.toNat := by
    rw [hhalf, two_mul_roundingIncrement (by omega)]
  have hfinal := finalizeFixedPoint_of_scaledPi (hplan.guard_eq ▸ hplan.guard_min) hscaledPi
  rw [hplan.guard_eq, ← hhalf] at hfinal
  have hround := roundingDivide_bounds hhalfPos scaledPi
  refine ⟨_, hfinal, ?_⟩
  generalize (scaledPi + half) / (2 * half) = result at hround
  have hunitReal : (2 : ℝ) * half = 10 ^ guardDigits.toNat := by exact_mod_cast hunit
  have hroundLow : (scaledPi : ℝ) - half < result * (2 * half) := by exact_mod_cast hround.2
  have hroundHigh : (result : ℝ) * (2 * half) ≤ scaledPi + half := by exact_mod_cast hround.1
  rw [hunitReal] at hroundLow hroundHigh
  rw [exactScaledPi_eq, hplan.working_eq, pow_add] at hlow hhigh
  have hwide : (10 : ℝ) ^ 16 ≤ 10 ^ guardDigits.toNat := pow_le_pow_right₀ (by norm_num) hmin
  have hunitPos : (0 : ℝ) < 10 ^ guardDigits.toNat := by positivity
  generalize (10 : ℝ) ^ guardDigits.toNat = unit at *
  have hfloors : 2 ≤ 2 / 10 ^ 16 * unit := by linarith
  rw [abs_le]
  constructor
  · refine le_of_mul_le_mul_right ?_ hunitPos
    linarith
  · refine le_of_mul_le_mul_right ?_ hunitPos
    linarith

/-! ## The text -/

/-- The text of a value holds its digits. -/
theorem formatDecimal_digits {value : ℤ} {precision : PrecisionPlan} {text : String}
    (hvalue : 0 ≤ value) (h : formatDecimal value precision = .ok text) :
    ∃ digits : Bytes, ascii text = ascii "3." ++ digits ∧
      digits.length = precision.requestedDigits.toNat ∧
      (∀ digit ∈ digits, isDigit digit = true) ∧ (appendDigits 3 digits : ℤ) = value := by
  lift value to ℕ using hvalue
  have htext : (GMPInteger.toString value).toList = Nat.toDigits 10 value := by
    rw [GMPInteger.toString, Int.repr_eq_if, if_pos (by omega), Int.toNat_natCast, Nat.toList_repr]
  rw [formatDecimal] at h
  dsimp only at h
  rw [htext, bind_eq_ok] at h
  obtain ⟨_, hfits, h⟩ := h
  rw [bind_eq_ok] at h
  obtain ⟨_, hwidth, h⟩ := h
  rw [throwIf_eq_ok, not_or, not_not, not_not] at hwidth
  rw [throwIf_eq_ok, UInt64.not_lt, UInt64.le_iff_toNat_le] at hfits
  obtain ⟨hlength, hhead⟩ := hwidth
  obtain ⟨rest, hdigits⟩ := List.head?_eq_some_iff.mp hhead
  have hisDigit (c : Char) (hc : c ∈ Nat.toDigits 10 value) : c.isDigit = true :=
    Nat.isDigit_of_mem_toDigits (by decide) (by decide) hc
  have hnumber := foldl_decimal value
  rw [decimal] at hnumber
  rw [hdigits] at h hlength hisDigit hnumber
  rw [pure_eq_ok, Except.ok.injEq] at h
  have hsize : (precision.requestedDigits + 1).toNat = precision.requestedDigits.toNat + 1 := by
    refine toNat_add_of_lt (Nat.lt_of_le_of_lt (Nat.add_le_add_right hfits 1) ?_)
    decide
  refine ⟨rest.map fun c => c.toNat.toUInt8, ?_, ?_, ?_, ?_⟩
  · rw [← h, ascii, String.toList_ofList]
    rfl
  · rw [List.length_map]
    rw [List.length_cons, hsize] at hlength
    omega
  · intro digit hmem
    obtain ⟨c, hc, rfl⟩ := List.mem_map.mp hmem
    have hbounds := toNat_toUInt8_of_isDigit (hisDigit c (List.mem_cons_of_mem _ hc))
    rw [isDigit, Bool.and_eq_true, decide_eq_true_iff, decide_eq_true_iff, UInt8.le_iff_toNat_le,
      UInt8.le_iff_toNat_le, hbounds.1]
    exact hbounds.2
  · exact_mod_cast hnumber

/-! ## The known digits -/

open KnownDigitsVerifier

/-- The known digits, rounded to each of their lengths, lie within half a unit of pi. -/
theorem expectedDigits_check : ∀ digits ∈ List.range 101, digits ≠ 0 →
    (expectedDigits (UInt64.ofNat digits)).length = digits ∧
      (expectedDigits (UInt64.ofNat digits)).all isDigit = true ∧
      1000 * publishedPi ≤
        (1000 * appendDigits 3 (expectedDigits (UInt64.ofNat digits)) + 498) * 10 ^ (110 - digits) ∧
      1000 * appendDigits 3 (expectedDigits (UInt64.ofNat digits)) * 10 ^ (110 - digits) ≤
        1000 * publishedPi + 498 * 10 ^ (110 - digits) := by
  decide +kernel

/-- Rounding a value near pi to at most a hundred digits gives the known ones. -/
theorem digits_eq_of_short {requestedDigits : UInt64} (hpos : requestedDigits ≠ 0)
    (hle : requestedDigits.toNat ≤ 100) {digits : Bytes}
    (hlength : digits.length = requestedDigits.toNat)
    (hdigits : ∀ digit ∈ digits, isDigit digit = true) {value : ℝ}
    (hvalue : |10 ^ 110 * value - publishedPi| < 1 + 10 ^ 110 / 10 ^ (requestedDigits.toNat + 16))
    (hnear : |(appendDigits 3 digits : ℝ) - 10 ^ requestedDigits.toNat * value| ≤
      1 / 2 + 2 / 10 ^ 16) :
    digits = expectedDigits requestedDigits := by
  have hzero : requestedDigits.toNat ≠ 0 := fun hzero => hpos (UInt64.toNat_inj.mp hzero)
  obtain ⟨hexpected, hall, hlow, hhigh⟩ := expectedDigits_check requestedDigits.toNat
    (List.mem_range.mpr (Nat.lt_succ_of_le hle)) hzero
  rw [UInt64.ofNat_toNat] at hexpected hall hlow hhigh
  refine appendDigits_inj 3 (hlength.trans hexpected.symm) hdigits (List.all_eq_true.mp hall) ?_
  obtain ⟨unit, hunitEq⟩ : ∃ unit : ℕ, unit = 10 ^ (110 - requestedDigits.toNat) := ⟨_, rfl⟩
  have hscale : (10 : ℝ) ^ 110 = unit * 10 ^ requestedDigits.toNat := by
    rw [hunitEq]
    push_cast
    rw [← pow_add]
    congr 1
    omega
  have hunit : (10 : ℝ) ^ 10 ≤ unit := by
    rw [hunitEq]
    push_cast
    exact pow_le_pow_right₀ (by norm_num) (by omega)
  rw [← hunitEq] at hlow hhigh
  have hlowReal : 1000 * (publishedPi : ℝ) ≤
      (1000 * appendDigits 3 (expectedDigits requestedDigits) + 498) * unit := by
    exact_mod_cast hlow
  have hhighReal : 1000 * (appendDigits 3 (expectedDigits requestedDigits) : ℝ) * unit ≤
      1000 * publishedPi + 498 * unit := by
    exact_mod_cast hhigh
  have hsmall : (10 : ℝ) ^ 110 / 10 ^ (requestedDigits.toNat + 16) = unit / 10 ^ 16 := by
    rw [hscale, pow_add]
    field_simp
  rw [hsmall, abs_lt, hscale, mul_assoc] at hvalue
  rw [abs_le] at hnear
  have hunitPos : (0 : ℝ) < unit := by linarith
  have hnearLow := mul_le_mul_of_nonneg_left hnear.1 hunitPos.le
  have hnearHigh := mul_le_mul_of_nonneg_left hnear.2 hunitPos.le
  generalize appendDigits 3 digits = number at *
  generalize appendDigits 3 (expectedDigits requestedDigits) = expected at *
  have hbelow : (number : ℝ) < expected + 1 := by
    refine lt_of_mul_lt_mul_left ?_ hunitPos.le
    linarith
  have habove : (expected : ℝ) < number + 1 := by
    refine lt_of_mul_lt_mul_left ?_ hunitPos.le
    linarith
  have hbelowNat : number < expected + 1 := by exact_mod_cast hbelow
  have haboveNat : expected < number + 1 := by exact_mod_cast habove
  omega

/-- Where the known digits end, pi is not near a multiple of their unit. -/
theorem referenceFractionalDigits_check :
    (referenceFractionalDigits.take 100).all isDigit = true ∧
      appendDigits 3 (referenceFractionalDigits.take 100) * 10 ^ 10 + 8 * 10 ^ 9 ≤ publishedPi ∧
      publishedPi + 17 * 10 ^ 8 ≤
        (appendDigits 3 (referenceFractionalDigits.take 100) + 1) * 10 ^ 10 := by
  decide +kernel

/-- More digits begin with the known ones. -/
theorem take_eq_of_long {requestedDigits : UInt64} (hlt : 100 < requestedDigits.toNat)
    {digits : Bytes} (hlength : digits.length = requestedDigits.toNat)
    (hdigits : ∀ digit ∈ digits, isDigit digit = true) {value : ℝ}
    (hvalue : |10 ^ 110 * value - publishedPi| < 1 + 10 ^ 110 / 10 ^ 116)
    (hnear : |(appendDigits 3 digits : ℝ) - 10 ^ requestedDigits.toNat * value| ≤
      1 / 2 + 2 / 10 ^ 16) :
    digits.take 100 = expectedDigits requestedDigits := by
  obtain ⟨hall, hlow, hhigh⟩ := referenceFractionalDigits_check
  rw [(expectedDigits_of_long hlt).2]
  have hfirst (digit : UInt8) (hmem : digit ∈ digits.take 100) : isDigit digit = true :=
    hdigits digit (List.mem_of_mem_take hmem)
  have hrest : appendDigits 0 (digits.drop 100) < 10 ^ (digits.drop 100).length :=
    appendDigits_lt fun digit hmem => hdigits digit (List.mem_of_mem_drop hmem)
  obtain ⟨scale, hscale⟩ : ∃ scale : ℕ, scale = 10 ^ (requestedDigits.toNat - 100) := ⟨_, rfl⟩
  rw [List.length_drop, hlength, ← hscale] at hrest
  have hnumber : appendDigits 3 digits =
      appendDigits 3 (digits.take 100) * scale + appendDigits 0 (digits.drop 100) := by
    conv_lhs => rw [← List.take_append_drop 100 digits, appendDigits_append, appendDigits_eq]
    rw [List.length_drop, hlength, hscale]
  have hpower : (10 : ℝ) ^ requestedDigits.toNat = scale * 10 ^ 100 := by
    rw [hscale]
    push_cast
    rw [← pow_add]
    congr 1
    omega
  have hten : (10 : ℝ) ≤ scale := by
    rw [hscale]
    push_cast
    exact le_self_pow₀ (by norm_num) (by omega)
  have hlength100 : (digits.take 100).length = (referenceFractionalDigits.take 100).length := by
    rw [List.length_take, hlength, min_eq_left hlt.le]
    rfl
  refine appendDigits_inj 3 hlength100 hfirst (List.all_eq_true.mp hall) ?_
  have hlowReal : (appendDigits 3 (referenceFractionalDigits.take 100) : ℝ) * 10 ^ 10 + 8 * 10 ^ 9 ≤
      publishedPi := by
    exact_mod_cast hlow
  have hhighReal : (publishedPi : ℝ) + 17 * 10 ^ 8 ≤
      (appendDigits 3 (referenceFractionalDigits.take 100) + 1) * 10 ^ 10 := by
    exact_mod_cast hhigh
  rw [abs_le, hpower, mul_assoc] at hnear
  rw [abs_lt] at hvalue
  generalize appendDigits 3 (referenceFractionalDigits.take 100) = expected at *
  generalize appendDigits 3 (digits.take 100) = first at *
  generalize appendDigits 3 digits = number at *
  -- The value lies well between the known digits and their successor.
  have hvalueLow : (expected : ℝ) + 7 / 10 ≤ 10 ^ 100 * value := by linarith
  have hvalueHigh : 10 ^ 100 * value ≤ expected + 1 - 1 / 10 := by linarith
  have hscaledLow := mul_le_mul_of_nonneg_left hvalueLow (show (0 : ℝ) ≤ scale by linarith)
  have hscaledHigh := mul_le_mul_of_nonneg_left hvalueHigh (show (0 : ℝ) ≤ scale by linarith)
  have hbelow : scale * expected ≤ number := by
    have hreal : (scale : ℝ) * expected ≤ number := by linarith
    exact_mod_cast hreal
  have habove : number < scale * (expected + 1) := by
    have hreal : (number : ℝ) < scale * (expected + 1) := by linarith
    exact_mod_cast hreal
  have hle : first < expected + 1 := by
    refine Nat.lt_of_mul_lt_mul_left (a := scale) ?_
    rw [mul_comm scale first]
    omega
  have hge : expected < first + 1 := by
    refine Nat.lt_of_mul_lt_mul_left (a := scale) ?_
    rw [mul_add, mul_comm scale first]
    omega
  omega

/-! ## Every result -/

theorem piOfTerms_pos {terms : ℕ} (hterms : 1 ≤ terms) : 0 < piOfTerms terms := by
  obtain ⟨hq, hlow, -⟩ := rangeBlock_zero_real terms hterms
  have ht : (0 : ℝ) < (rangeBlock 0 terms).t := by linarith
  rw [piOfTerms_eq]
  positivity

/-- A result passed the check of the doubled working digits. -/
theorem doubled_workingDigits_of_makeResult {plan : PrecisionPlan} {node : BinaryNode}
    {result : PiCalculationResult} (h : makeResult plan node = .ok result) :
    2 * plan.workingDigits.toNat < 2 ^ 64 := by
  rw [makeResult, bind_eq_ok] at h
  obtain ⟨value, hvalue, -⟩ := h
  rw [finalizeFixedPoint, bind_eq_ok] at hvalue
  obtain ⟨scaledPi, hscaledPi, -⟩ := hvalue
  rw [scaledPiWithGuard, bind_eq_ok] at hscaledPi
  obtain ⟨_, hcheck, -⟩ := hscaledPi
  rw [throwIf_eq_ok, UInt64.not_lt, UInt64.le_iff_toNat_le] at hcheck
  have hhalf : (uint64Max / 2).toNat = 2 ^ 63 - 1 := rfl
  omega

/-- What the last stage makes of the terms of a plan. -/
theorem makeResult_known {request : PiCalculationRequest} {plan : PrecisionPlan}
    {result : PiCalculationResult}
    (hplan : PrecisionPolicy.IsPlan request.digits request.guardDigits plan)
    (h : makeResult plan (BinaryNode.ofRange 0 plan.termCount) = .ok result) :
    ∃ hcanonical : IsCanonicalDecimal request.digits (ascii result.decimal),
      ¬ request.digits > uint64Max - 2 ∧
        (verify ⟨ascii result.decimal, request.digits, hcanonical⟩).matched = true := by
  have hscale := doubled_workingDigits_of_makeResult h
  have hmin : 16 ≤ request.guardDigits.toNat := UInt32.le_iff_toNat_le.mp hplan.guard_min
  have hworking := hplan.working_eq
  have hcount := hplan.terms_eq
  have hterms : 1 ≤ plan.termCount.toNat := by omega
  obtain ⟨value, hvalue, hnear⟩ := finalizeFixedPoint_near hplan hscale
  rw [makeResult, hvalue, ok_bind, bind_eq_ok] at h
  obtain ⟨text, htext, hresult⟩ := h
  rw [pure_eq_ok, Except.ok.injEq] at hresult
  subst hresult
  have hnonneg : 0 ≤ value := by
    have hpositive : 0 < 10 ^ request.digits.toNat * piOfTerms plan.termCount.toNat :=
      mul_pos (by positivity) (piOfTerms_pos hterms)
    have hreal : (-1 : ℝ) < value := by linarith [(abs_le.mp hnear).1]
    have hint : -1 < value := by exact_mod_cast hreal
    omega
  obtain ⟨digits, htext, hlength, hdigits, hnumber⟩ := formatDecimal_digits hnonneg htext
  rw [hplan.requested_eq] at hlength
  have hnumberReal : (appendDigits 3 digits : ℝ) = value := by exact_mod_cast hnumber
  rw [← hnumberReal] at hnear
  have hfits : ¬ request.digits > uint64Max - 2 := by
    have hmax : (uint64Max - 2).toNat = 2 ^ 64 - 3 := rfl
    rw [UInt64.not_lt, UInt64.le_iff_toNat_le, hmax]
    omega
  have hfraction : (ascii text).drop 2 = digits := by
    rw [htext]
    rfl
  refine ⟨⟨digits, htext, hlength, hdigits⟩, hfits, compare_matched ?_⟩
  rw [CanonicalDecimal.fractionalDigits]
  dsimp only
  rw [hfraction]
  rcases Nat.lt_or_ge 100 request.digits.toNat with hlong | hshort
  · rw [(expectedDigits_of_long hlong).1]
    exact take_eq_of_long hlong hlength hdigits (piOfTerms_close hterms le_rfl (by omega)) hnear
  · have hmin : min request.digits publishedReferenceDigits = request.digits :=
      min_eq_left (UInt64.le_iff_toNat_le.mpr hshort)
    rw [hmin, List.take_of_length_le hlength.le]
    exact digits_eq_of_short hplan.digits_pos hshort hlength hdigits
      (piOfTerms_close hterms (by omega) (by omega)) hnear

/-- Every result of the calculation is a canonical decimal with the known digits. -/
theorem calculateSequential_known {request : PiCalculationRequest} {result : PiCalculationResult}
    (h : calculateSequential request = .ok result) :
    ∃ hcanonical : IsCanonicalDecimal request.digits (ascii result.decimal),
      (inspectCanonicalDecimal (ascii result.decimal) request.digits).accepted = true ∧
        (verify ⟨ascii result.decimal, request.digits, hcanonical⟩).matched = true := by
  rw [calculateSequential, bind_eq_ok] at h
  obtain ⟨plan, hplan, h⟩ := h
  have hplan := PrecisionPolicy.create_eq_ok_iff.mp hplan
  have hterms : (0 : UInt64) < plan.termCount :=
    UInt64.lt_iff_toNat_lt.mpr (by simp [hplan.terms_eq])
  rw [splitSequential_eq hterms, ok_bind] at h
  obtain ⟨hcanonical, hfits, hmatched⟩ := makeResult_known hplan h
  refine ⟨hcanonical, ?_, hmatched⟩
  rw [inspectCanonicalDecimal_of_canonical hplan.digits_pos hfits hcanonical]
  rfl

/-- Ten digits, which the last one rounds. -/
theorem calculateSequential_known_ten : ∃ result, calculateSequential ⟨10, 16⟩ = .ok result ∧
    ∃ hcanonical : IsCanonicalDecimal 10 (ascii result.decimal),
      (inspectCanonicalDecimal (ascii result.decimal) 10).accepted = true ∧
        (verify ⟨ascii result.decimal, 10, hcanonical⟩).matched = true := by
  have hrun : calculateSequential ⟨10, 16⟩ = .ok ⟨⟨10, 16, 26, 3, 158⟩, "3.1415926536"⟩ := by
    decide +kernel
  exact ⟨_, hrun, calculateSequential_known hrun⟩

end GiveMePi.Chudnovsky
