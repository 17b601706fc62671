import GiveMePi.Error
import GiveMePi.Numeric
import Mathlib.Algebra.Order.Floor.Ring
import Mathlib.Data.Nat.Size
import Mathlib.Data.Nat.Sqrt
import Mathlib.Data.Rat.Floor
import Mathlib.Tactic.Linarith

/-! # Integers of unbounded size

A `GMPInteger` is an integer. The operations below are the ones that may throw. -/

namespace GiveMePi.GMPInteger

/-- The most words of 64 bits that the integers of GMP have. -/
def maximumLimbs : ℕ := 2 ^ 31 - 1

/-- Whether GMP can hold an integer; a larger result ends the process. -/
def Fits (value : ℤ) : Prop :=
  value.natAbs.size ≤ 64 * maximumLimbs

instance (value : ℤ) : Decidable (Fits value) :=
  inferInstanceAs (Decidable (_ ≤ _))

def setPowerOfTen (exponent : UInt64) : Except Error ℤ := do
  throwIf (exponent > uint64Max)
    (.overflowError "Power-of-ten exponent is unsupported by GMP")
  pure (10 ^ exponent.toNat)

def floorSquareRoot (value : ℤ) : Except Error ℤ := do
  throwIf (value < 0)
    (.domainError "Integer square root requires a non-negative value")
  pure (Nat.sqrt value.toNat)

def floorDivide (value divisor : ℤ) : Except Error ℤ := do
  throwIf (divisor = 0) (.domainError "Integer division by zero")
  pure (value.fdiv divisor)

def toString (value : ℤ) : String :=
  value.repr

theorem setPowerOfTen_eq (exponent : UInt64) :
    setPowerOfTen exponent = .ok (10 ^ exponent.toNat) := by
  rw [setPowerOfTen, throwIf_neg (UInt64.not_lt.mpr (le_uint64Max exponent))]
  rfl

theorem floorSquareRoot_natCast (n : ℕ) : floorSquareRoot n = .ok (Nat.sqrt n) := by
  rw [floorSquareRoot, throwIf_neg (by omega)]
  rfl

/-- Division by a positive integer rounds towards minus infinity. -/
theorem floorDivide_eq {value divisor : ℤ} (h : 0 < divisor) :
    floorDivide value divisor = .ok (value / divisor) := by
  rw [floorDivide, throwIf_neg h.ne', ← Int.fdiv_eq_ediv_of_nonneg _ h.le]
  rfl

/-! ## Decimal digits -/

/-- A number between two multiples of a power of ten starts with the multiplier's digit. -/
theorem toDigits_leading {lead : ℕ} (hpos : 0 < lead) (hlt : lead < 10) (width n : ℕ)
    (hlow : lead * 10 ^ width ≤ n) (hhigh : n < (lead + 1) * 10 ^ width) :
    ∃ digits, Nat.toDigits 10 n = lead.digitChar :: digits ∧ digits.length = width := by
  induction width generalizing n with
  | zero =>
      have hn : n = lead := by omega
      exact ⟨[], by rw [hn, Nat.toDigits_of_lt_base hlt], rfl⟩
  | succ width ih =>
      have hlow' : lead * 10 ^ width ≤ n / 10 := by
        rw [Nat.le_div_iff_mul_le (by decide), mul_assoc, ← pow_succ]
        exact hlow
      have hhigh' : n / 10 < (lead + 1) * 10 ^ width := by
        rw [Nat.div_lt_iff_lt_mul (by decide), mul_assoc, ← pow_succ]
        exact hhigh
      have hten : 10 ≤ n := by
        have hstep : 1 * 10 ^ 1 ≤ lead * 10 ^ (width + 1) :=
          Nat.mul_le_mul hpos (Nat.pow_le_pow_right (by decide) (by omega))
        omega
      obtain ⟨digits, hdigits, hlength⟩ := ih (n / 10) hlow' hhigh'
      refine ⟨digits ++ [(n % 10).digitChar], ?_, by simp [hlength]⟩
      rw [Nat.toDigits_of_base_le (by decide) hten, hdigits, List.cons_append]

/-- The decimal text of an integer whose leading digit and width are known. -/
theorem toString_toList_leading {lead width : ℕ} (hpos : 0 < lead) (hlt : lead < 10) {value : ℤ}
    (hlow : lead * 10 ^ width ≤ value) (hhigh : value < (lead + 1) * 10 ^ width) :
    ∃ digits, (toString value).toList = lead.digitChar :: digits ∧ digits.length = width ∧
      ∀ c ∈ digits, c.isDigit := by
  have hnonneg : 0 ≤ value := le_trans (by positivity) hlow
  lift value to ℕ using hnonneg
  obtain ⟨digits, hdigits, hlength⟩ :=
    toDigits_leading hpos hlt width value (by exact_mod_cast hlow) (by exact_mod_cast hhigh)
  have htext : (toString value).toList = Nat.toDigits 10 value := by
    rw [toString, Int.repr_eq_if, if_pos (by omega), Int.toNat_natCast, Nat.toList_repr]
  refine ⟨digits, htext.trans hdigits, hlength, fun c hc => ?_⟩
  apply Nat.isDigit_of_mem_toDigits (by decide) (by decide : 10 ≤ 10) (n := value)
  rw [hdigits]
  exact List.mem_cons_of_mem _ hc

end GiveMePi.GMPInteger
