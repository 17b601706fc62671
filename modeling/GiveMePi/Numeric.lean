import GiveMePi.Library.BoundedTotals
import Mathlib.Order.Defs.LinearOrder
import Mathlib.Tactic.Common

/-! # Numeric limits -/

namespace GiveMePi

/-- The largest value of the 64-bit integers; `size_t` is 64 bits wide. -/
def uint64Max : UInt64 := 0xFFFFFFFFFFFFFFFF

/-- The largest value of the 32-bit integers. -/
def uint32Max : UInt32 := 0xFFFFFFFF

@[simp] theorem uint64Max_toNat : uint64Max.toNat = 2 ^ 64 - 1 := rfl

@[simp] theorem uint32Max_toNat : uint32Max.toNat = 2 ^ 32 - 1 := rfl

theorem uint64_zero_lt_one : (0 : UInt64) < 1 := by decide

theorem le_uint64Max (a : UInt64) : a ≤ uint64Max := by
  have := a.toNat_lt
  rw [UInt64.le_iff_toNat_le, uint64Max_toNat]
  omega

/-- Doubling is exact below half of the largest value. -/
theorem toNat_mul_two {a : UInt64} (h : ¬ a > uint64Max / 2) : (a * 2).toNat = 2 * a.toNat := by
  have htwo : (2 : UInt64).toNat = 2 := rfl
  rw [gt_iff_lt, UInt64.lt_iff_toNat_lt, UInt64.toNat_div, uint64Max_toNat, htwo] at h
  rw [UInt64.toNat_mul, htwo]
  omega

/-- The overflow check before an addition. -/
theorem not_gt_uint64Max_sub {a b : UInt64} :
    ¬ b > uint64Max - a ↔ a.toNat + b.toNat < 2 ^ 64 := by
  have := a.toNat_lt
  rw [gt_iff_lt, UInt64.lt_iff_toNat_lt, UInt64.toNat_sub_of_le _ _ (le_uint64Max a),
    uint64Max_toNat]
  omega

theorem toNat_add_of_lt {a b : UInt64} (h : a.toNat + b.toNat < 2 ^ 64) :
    (a + b).toNat = a.toNat + b.toNat := by
  rw [UInt64.toNat_add, Nat.mod_eq_of_lt h]

/-- Two checked additions are exact. -/
theorem checkedSum_iff {a b c : UInt64} {n : ℕ} :
    (¬ b > uint64Max - a ∧ ¬ c > uint64Max - (a + b) ∧ (a + b + c).toNat = n) ↔
      a.toNat + b.toNat + c.toNat = n ∧ n < 2 ^ 64 := by
  rw [not_gt_uint64Max_sub, not_gt_uint64Max_sub]
  constructor
  · rintro ⟨hab, habc, hn⟩
    rw [toNat_add_of_lt hab] at habc
    rw [toNat_add_of_lt (by rwa [toNat_add_of_lt hab]), toNat_add_of_lt hab] at hn
    exact ⟨hn, hn ▸ habc⟩
  · rintro ⟨hn, hlt⟩
    have hab : a.toNat + b.toNat < 2 ^ 64 := by omega
    have habc : (a + b).toNat + c.toNat < 2 ^ 64 := by
      rw [toNat_add_of_lt hab]
      omega
    exact ⟨hab, habc, by rw [toNat_add_of_lt habc, toNat_add_of_lt hab, hn]⟩

instance instLinearOrderUInt64 : LinearOrder UInt64 where
  le_refl := UInt64.le_refl
  le_trans _ _ _ := UInt64.le_trans
  le_antisymm _ _ := UInt64.le_antisymm
  le_total := UInt64.le_total
  lt_iff_le_not_ge a b := by
    simp only [UInt64.lt_iff_toNat_lt, UInt64.le_iff_toNat_le]
    omega
  toDecidableLE := inferInstance
  toDecidableLT := inferInstance
  toDecidableEq := inferInstance

instance instLinearOrderUInt32 : LinearOrder UInt32 where
  le_refl := UInt32.le_refl
  le_trans _ _ _ := UInt32.le_trans
  le_antisymm _ _ := UInt32.le_antisymm
  le_total := UInt32.le_total
  lt_iff_le_not_ge a b := by
    simp only [UInt32.lt_iff_toNat_lt, UInt32.le_iff_toNat_le]
    omega
  toDecidableLE := inferInstance
  toDecidableLT := inferInstance
  toDecidableEq := inferInstance

/-- A sum that stays at the largest word. -/
theorem toNat_saturatingAdd (total added : UInt64) :
    (if added > uint64Max - total then uint64Max else total + added).toNat =
      min (2 ^ 64 - 1) (total.toNat + added.toNat) := by
  split
  · next h =>
      have := not_gt_uint64Max_sub.not.mp (not_not.mpr h)
      rw [uint64Max_toNat]
      omega
  · next h =>
      have := not_gt_uint64Max_sub.mp h
      rw [toNat_add_of_lt this]
      omega

/-! ## Totals -/

section

variable {α β : Type*} {word : β → UInt64} {size : α → UInt64} {add : β → α → β}

/-- Words that are added up without a check wrap around. -/
theorem wraps_toNat (h : ∀ total a, word (add total a) = word total + size a) :
    Library.Wraps (2 ^ 64 - 1) (fun total => (word total).toNat) (fun a => (size a).toNat) add where
  value_le total := Nat.le_pred_of_lt (word total).toNat_lt
  value_add total a := (congrArg UInt64.toNat (h total a)).trans (UInt64.toNat_add ..)

/-- Words that are added up with the check stay at the largest one. -/
theorem saturates_toNat (h : ∀ total a, word (add total a) =
      if size a > uint64Max - word total then uint64Max else word total + size a) :
    Library.Saturates (2 ^ 64 - 1) (fun total => (word total).toNat) (fun a => (size a).toNat)
      add where
  value_le total := Nat.le_pred_of_lt (word total).toNat_lt
  value_add total a := by rw [h, toNat_saturatingAdd]

end

end GiveMePi

/-! ## Word arithmetic that must not overflow

The operations have no result where that of the words would differ from that of the integers. -/

namespace GiveMePi.Library.CheckedWord

def add (a b : UInt64) : Option UInt64 :=
  if a.toNat + b.toNat < 2 ^ 64 then some (a + b) else none

def sub (a b : UInt64) : Option UInt64 :=
  if b ≤ a then some (a - b) else none

def mul (a b : UInt64) : Option UInt64 :=
  if a.toNat * b.toNat < 2 ^ 64 then some (a * b) else none

variable {a b : UInt64}

theorem add_eq (h : a.toNat + b.toNat < 2 ^ 64) : add a b = some (a + b) := if_pos h

theorem sub_eq (h : b ≤ a) : sub a b = some (a - b) := if_pos h

theorem mul_eq (h : a.toNat * b.toNat < 2 ^ 64) : mul a b = some (a * b) := if_pos h

end GiveMePi.Library.CheckedWord
