import GiveMePi.Library.BinaryMethod
import Mathlib.Data.ZMod.Basic

/-! # Modular arithmetic of the BBP series

The powers of 16 modulo the denominators of the series, for every modulus of 64 bits. The sums of the
series itself are floating-point numbers and left out. -/

namespace GiveMePi.Verification.BBPHexDigitCalculator

open Library

/-- Every denominator of a calculation up to this position is representable. -/
def maximumPosition : UInt64 :=
  (uint64Max - 6) / 8 - 65

def addModulo (left right modulus : UInt64) : UInt64 :=
  if left ≥ modulus - right then left - (modulus - right) else left + right

/-- The product, by doubling and adding where it does not fit into a word. -/
def multiplyModulo (left right modulus : UInt64) : UInt64 :=
  if left = 0 ∨ right ≤ uint64Max / left then (left * right) % modulus
  else binaryMethod (fun left right => addModulo left right modulus) right 0 (left % modulus)

def power16Modulo (exponent modulus : UInt64) : UInt64 :=
  binaryMethod (fun left right => multiplyModulo left right modulus) exponent (1 % modulus)
    (16 % modulus)

/-! ## Words as residues -/

variable {left right modulus : UInt64}

/-- The residue class of a word. -/
def residue (modulus word : UInt64) : ZMod modulus.toNat :=
  (word.toNat : ZMod modulus.toNat)

theorem residue_mod (modulus word : UInt64) : residue modulus (word % modulus) = residue modulus word := by
  rw [residue, UInt64.toNat_mod, ZMod.natCast_mod, residue]

/-- A word below the modulus is determined by its class. -/
theorem toNat_of_residue {word : UInt64} {n : ℕ} (hword : word < modulus)
    (h : residue modulus word = n) : word.toNat = n % modulus.toNat := by
  have hmod : word.toNat ≡ n [MOD modulus.toNat] := (ZMod.natCast_eq_natCast_iff _ _ _).mp h
  rw [← hmod, Nat.mod_eq_of_lt (UInt64.lt_iff_toNat_lt.mp hword)]

theorem mod_lt (hmodulus : modulus ≠ 0) (word : UInt64) : word % modulus < modulus := by
  have hpos : modulus.toNat ≠ 0 := fun h => hmodulus (UInt64.toNat_inj.mp h)
  rw [UInt64.lt_iff_toNat_lt, UInt64.toNat_mod]
  exact Nat.mod_lt _ (Nat.pos_of_ne_zero hpos)

/-! ## The operations -/

/-- A sum does not wrap around, whatever the size of the modulus. -/
theorem addModulo_eq (hleft : left < modulus) (hright : right < modulus) :
    addModulo left right modulus < modulus ∧
      residue modulus (addModulo left right modulus) =
        residue modulus left + residue modulus right := by
  rw [UInt64.lt_iff_toNat_lt] at hleft hright
  have hmodulus := modulus.toNat_lt
  have hgap : (modulus - right).toNat = modulus.toNat - right.toNat :=
    UInt64.toNat_sub_of_le _ _ (UInt64.le_iff_toNat_le.mpr hright.le)
  rw [addModulo]
  split
  · next hge =>
      have hle : modulus.toNat - right.toNat ≤ left.toNat := hgap ▸ UInt64.le_iff_toNat_le.mp hge
      have hvalue : (left - (modulus - right)).toNat = left.toNat - (modulus.toNat - right.toNat) := by
        rw [UInt64.toNat_sub_of_le _ _ hge, hgap]
      constructor
      · rw [UInt64.lt_iff_toNat_lt, hvalue]
        omega
      · have hsum : (left - (modulus - right)).toNat + modulus.toNat =
            left.toNat + right.toNat := by omega
        have hcast := congrArg (Nat.cast : ℕ → ZMod modulus.toNat) hsum
        simpa [residue] using hcast
  · next hlt =>
      have hsum : left.toNat + right.toNat < modulus.toNat := by
        have hlt' := UInt64.lt_iff_toNat_lt.mp (not_le.mp hlt)
        omega
      have hvalue : (left + right).toNat = left.toNat + right.toNat :=
        toNat_add_of_lt (hsum.trans hmodulus)
      constructor
      · rwa [UInt64.lt_iff_toNat_lt, hvalue]
      · simp only [residue, hvalue, Nat.cast_add]

/-- The product of two words, on either path. -/
theorem multiplyModulo_eq (hmodulus : modulus ≠ 0) (left right : UInt64) :
    multiplyModulo left right modulus < modulus ∧
      residue modulus (multiplyModulo left right modulus) =
        residue modulus left * residue modulus right := by
  rw [multiplyModulo]
  split
  · next hfits =>
      have hproduct : left.toNat * right.toNat < 2 ^ 64 := by
        rcases hfits with hzero | hle
        · rw [hzero, UInt64.toNat_zero, Nat.zero_mul]
          exact Nat.two_pow_pos 64
        · rw [UInt64.le_iff_toNat_le, UInt64.toNat_div, uint64Max_toNat] at hle
          have hmul := Nat.mul_le_of_le_div _ _ _ hle
          rw [Nat.mul_comm]
          omega
      refine ⟨mod_lt hmodulus _, ?_⟩
      rw [residue_mod]
      simp only [residue, UInt64.toNat_mul, Nat.mod_eq_of_lt hproduct, Nat.cast_mul]
  · -- so many summands as the right operand says
    have hzero : (0 : UInt64) < modulus :=
      UInt64.lt_iff_toNat_lt.mpr (Nat.pos_of_ne_zero fun h => hmodulus (UInt64.toNat_inj.mp h))
    have hmultiple := binaryMethod_spec (· < modulus)
      (fun word => Multiplicative.ofAdd (residue modulus word)) (fun a b ha hb => addModulo_eq ha hb) right hzero (mod_lt hmodulus left)
    refine ⟨hmultiple.1, ?_⟩
    have hvalue := congrArg Multiplicative.toAdd hmultiple.2
    simp only [residue_mod, toAdd_mul, toAdd_pow, toAdd_ofAdd, nsmul_eq_mul] at hvalue
    rw [hvalue]
    simp [residue, mul_comm]

theorem power16Modulo_eq (hmodulus : modulus ≠ 0) (exponent : UInt64) :
    power16Modulo exponent modulus < modulus ∧
      residue modulus (power16Modulo exponent modulus) = 16 ^ exponent.toNat := by
  have hpower := binaryMethod_spec (· < modulus) (residue modulus)
    (fun a b _ _ => multiplyModulo_eq hmodulus a b) exponent (mod_lt hmodulus 1)
    (mod_lt hmodulus 16)
  refine ⟨hpower.1, ?_⟩
  rw [power16Modulo, hpower.2, residue_mod, residue_mod]
  simp [residue]

/-- The modular power is the power, and no sum or product on its way is wrong, for all words. -/
theorem power16Modulo_exact (modulus : UInt64) (hmodulus : modulus ≠ 0) :
    (∀ exponent : UInt64,
      (power16Modulo exponent modulus).toNat = 16 ^ exponent.toNat % modulus.toNat) ∧
    (∀ left right : UInt64, left < modulus → right < modulus →
      (addModulo left right modulus).toNat = (left.toNat + right.toNat) % modulus.toNat) ∧
    ∀ left right : UInt64,
      (multiplyModulo left right modulus).toNat = left.toNat * right.toNat % modulus.toNat := by
  refine ⟨fun exponent => ?_, fun left right hleft hright => ?_, fun left right => ?_⟩
  · rcases power16Modulo_eq hmodulus exponent with ⟨hlt, hresidue⟩
    exact toNat_of_residue hlt (by rw [hresidue]; push_cast; rfl)
  · rcases addModulo_eq hleft hright with ⟨hlt, hresidue⟩
    exact toNat_of_residue hlt (by rw [hresidue, Nat.cast_add, residue, residue])
  · rcases multiplyModulo_eq hmodulus left right with ⟨hlt, hresidue⟩
    exact toNat_of_residue hlt (by rw [hresidue, Nat.cast_mul, residue, residue])

/-- A modulus close to the largest word. -/
theorem power16Modulo_exact_large :
    (∀ exponent : UInt64, (power16Modulo exponent 0xFFFFFFFFFFFFFFC5).toNat =
      16 ^ exponent.toNat % (2 ^ 64 - 59)) ∧
    (∀ left right : UInt64, left < 0xFFFFFFFFFFFFFFC5 → right < 0xFFFFFFFFFFFFFFC5 →
      (addModulo left right 0xFFFFFFFFFFFFFFC5).toNat =
        (left.toNat + right.toNat) % (2 ^ 64 - 59)) ∧
    ∀ left right : UInt64, (multiplyModulo left right 0xFFFFFFFFFFFFFFC5).toNat =
      left.toNat * right.toNat % (2 ^ 64 - 59) :=
  power16Modulo_exact 0xFFFFFFFFFFFFFFC5 (by decide)

end GiveMePi.Verification.BBPHexDigitCalculator
