import GiveMePi.Binary.SplitParallel
import Mathlib.Data.Nat.Log

/-! # The levels of the tree

The number of times that one term is doubled until it covers all terms. The splitter has a loop for
it, and so has either of the two validators; theirs shifts where that of the splitter multiplies. -/

namespace GiveMePi

theorem shiftLeft_one_eq (a : UInt64) : a <<< 1 = a * 2 := by
  apply UInt64.toNat_inj.mp
  simp [UInt64.toNat_shiftLeft, UInt64.toNat_mul, Nat.shiftLeft_eq]

namespace Checkpoint

/-- The loop of the validators. -/
def maximumTreeLevelFrom (termCount capacity : UInt64) (level : UInt32) (h : 0 < capacity) :
    UInt32 :=
  if hlt : capacity < termCount then
    if hbig : capacity > uint64Max / 2 then level + 1
    else maximumTreeLevelFrom termCount (capacity <<< 1) (level + 1) (by
      rw [shiftLeft_one_eq, UInt64.lt_iff_toNat_lt, toNat_mul_two hbig]
      exact Nat.mul_pos (by decide) (UInt64.lt_iff_toNat_lt.mp h))
  else level
termination_by termCount.toNat - capacity.toNat
decreasing_by
  have hcapacity : 0 < capacity.toNat := UInt64.lt_iff_toNat_lt.mp h
  have hcount := UInt64.lt_iff_toNat_lt.mp hlt
  rw [shiftLeft_one_eq, toNat_mul_two hbig]
  omega

theorem maximumTreeLevelFrom_eq (termCount capacity : UInt64) (level : UInt32)
    (h : 0 < capacity) : maximumTreeLevelFrom termCount capacity level h =
      Binary.maximumTreeLevelFrom termCount capacity level h := by
  fun_induction maximumTreeLevelFrom termCount capacity level h with
  | case1 capacity level h hlt hbig =>
      rw [Binary.maximumTreeLevelFrom, dif_pos hlt, dif_pos hbig]
  | case2 capacity level h hlt hbig ih =>
      rw [ih]
      conv_rhs => rw [Binary.maximumTreeLevelFrom, dif_pos hlt, dif_neg hbig]
      simp only [shiftLeft_one_eq]
  | case3 capacity level h hlt =>
      rw [Binary.maximumTreeLevelFrom, dif_neg hlt]

end Checkpoint

namespace Binary

/-- The loop with a capacity of `2 ^ level` that is needed. -/
theorem maximumTreeLevelFrom_toNat {termCount capacity : UInt64} {level : UInt32}
    {h : 0 < capacity} (hcapacity : capacity.toNat = 2 ^ level.toNat)
    (hlevel : level.toNat ≤ Nat.clog 2 termCount.toNat) :
    (maximumTreeLevelFrom termCount capacity level h).toNat = Nat.clog 2 termCount.toNat := by
  have hcount := termCount.toNat_lt
  have hmax : (uint64Max / 2).toNat = 2 ^ 63 - 1 := rfl
  fun_induction maximumTreeLevelFrom termCount capacity level h with
  | case1 capacity level h hlt hbig =>
      -- The capacity is 2 ^ 63, the largest that a word holds.
      rw [gt_iff_lt, UInt64.lt_iff_toNat_lt, hmax, hcapacity] at hbig
      rw [UInt64.lt_iff_toNat_lt, hcapacity] at hlt
      have hlow : 63 ≤ level.toNat := by
        by_contra hcontra
        have := Nat.pow_le_pow_right (n := 2) (by decide) (show level.toNat ≤ 62 by omega)
        omega
      have hle : Nat.clog 2 termCount.toNat ≤ 64 := Nat.clog_le_of_le_pow (by omega)
      have hgt : level.toNat < Nat.clog 2 termCount.toNat :=
        (Nat.lt_clog_iff_pow_lt (by decide)).mpr hlt
      rw [UInt32.toNat_add, UInt32.toNat_one]
      omega
  | case2 capacity level h hlt hbig ih =>
      rw [UInt64.lt_iff_toNat_lt, hcapacity] at hlt
      have hgt : level.toNat < Nat.clog 2 termCount.toNat :=
        (Nat.lt_clog_iff_pow_lt (by decide)).mpr hlt
      have hle : Nat.clog 2 termCount.toNat ≤ 64 := Nat.clog_le_of_le_pow (by omega)
      have hnext : (level + 1).toNat = level.toNat + 1 := by
        rw [UInt32.toNat_add, UInt32.toNat_one]
        omega
      refine ih ?_ ?_
      · rw [toNat_mul_two hbig, hcapacity, hnext, pow_succ, Nat.mul_comm]
      · rw [hnext]
        exact hgt
  | case3 capacity level h hlt =>
      rw [UInt64.lt_iff_toNat_lt, hcapacity, not_lt] at hlt
      exact le_antisymm hlevel (Nat.clog_le_of_le_pow hlt)

theorem maximumTreeLevel_toNat (termCount : UInt64) :
    (maximumTreeLevel termCount).toNat = Nat.clog 2 termCount.toNat :=
  maximumTreeLevelFrom_toNat rfl (Nat.zero_le _)

end Binary

end GiveMePi
