import GiveMePi.Numeric
import Mathlib.Algebra.Group.Basic

/-! # The binary method

A power is computed by squaring, and a multiple by doubling, one binary digit of the exponent after the
other. The base is not squared once more after the last digit. -/

namespace GiveMePi.Library

/-- One digit: `result` is combined with `base` if it is one. -/
def combineDigit {α : Type*} (op : α → α → α) (exponent : UInt64) (result base : α) : α :=
  if exponent &&& 1 ≠ 0 then op result base else result

/-- The loop over the digits. -/
def binaryMethod {α : Type*} (op : α → α → α) (exponent : UInt64) (result base : α) : α :=
  if exponent = 0 then result
  else
    let result := combineDigit op exponent result base
    let exponent' := exponent >>> 1
    if exponent' = 0 then result else binaryMethod op exponent' result (op base base)
termination_by exponent.toNat
decreasing_by
  next hne _ =>
    have hpos : exponent.toNat ≠ 0 := fun h => hne (UInt64.toNat_inj.mp h)
    rw [UInt64.toNat_shiftRight]
    simp [Nat.shiftRight_eq_div_pow]
    omega

theorem toNat_lastDigit (exponent : UInt64) : (exponent &&& 1).toNat = exponent.toNat % 2 := by
  rw [UInt64.toNat_and]
  exact Nat.and_one_is_mod _

/-- The last digit and the others. -/
theorem toNat_digits (exponent : UInt64) :
    exponent.toNat = (exponent &&& 1).toNat + 2 * (exponent >>> 1).toNat := by
  rw [toNat_lastDigit, UInt64.toNat_shiftRight]
  simp [Nat.shiftRight_eq_div_pow]
  omega

section Spec

variable {α M : Type*} [Monoid M] {op : α → α → α} {isValid : α → Prop} {value : α → M}
  {result base : α}

theorem combineDigit_spec
    (hop : ∀ a b, isValid a → isValid b → isValid (op a b) ∧ value (op a b) = value a * value b)
    (exponent : UInt64) (hresult : isValid result) (hbase : isValid base) :
    isValid (combineDigit op exponent result base) ∧
      value (combineDigit op exponent result base) =
        value result * value base ^ (exponent &&& 1).toNat := by
  have hdigit := toNat_lastDigit exponent
  rw [combineDigit]
  split
  · next hne =>
      have hpos : (exponent &&& 1).toNat ≠ 0 := fun h => hne (UInt64.toNat_inj.mp h)
      have hone : (exponent &&& 1).toNat = 1 := by omega
      rw [hone, pow_one]
      exact hop result base hresult hbase
  · next heq =>
      rw [not_not.mp heq, UInt64.toNat_zero, pow_zero, mul_one]
      exact ⟨hresult, rfl⟩

/-- Where the operation stands for a product, the loop computes a power. -/
theorem binaryMethod_spec (isValid : α → Prop) (value : α → M)
    (hop : ∀ a b, isValid a → isValid b → isValid (op a b) ∧ value (op a b) = value a * value b)
    (exponent : UInt64) (hresult : isValid result) (hbase : isValid base) :
    isValid (binaryMethod op exponent result base) ∧
      value (binaryMethod op exponent result base) =
        value result * value base ^ exponent.toNat := by
  fun_induction binaryMethod op exponent result base with
  | case1 result base => simp [hresult]
  | case2 exponent result base hne result' exponent' hzero =>
      have hdigit : (exponent &&& 1).toNat = exponent.toNat := by
        have hdigits := toNat_digits exponent
        simp only [show exponent >>> 1 = 0 from hzero, UInt64.toNat_zero] at hdigits
        exact hdigits.symm
      rw [← hdigit]
      exact combineDigit_spec hop exponent hresult hbase
  | case3 exponent result base hne result' exponent' hnonzero ih =>
      rcases combineDigit_spec hop exponent hresult hbase with ⟨hvalid, hvalue⟩
      rcases hop base base hbase hbase with ⟨hsquare, hsquared⟩
      rcases ih hvalid hsquare with ⟨hrest, hpower⟩
      refine ⟨hrest, ?_⟩
      calc value (binaryMethod op exponent' result' (op base base))
          = value result * value base ^ (exponent &&& 1).toNat *
              (value base * value base) ^ exponent'.toNat := by rw [hpower, hvalue, hsquared]
        _ = value result * value base ^ exponent.toNat := by
            rw [← pow_two, ← pow_mul, mul_assoc, ← pow_add, ← toNat_digits]

end Spec

end GiveMePi.Library
