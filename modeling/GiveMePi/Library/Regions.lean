import Mathlib.Algebra.BigOperators.Group.List.Basic
import Mathlib.Algebra.Order.Group.Nat
import Mathlib.Data.Nat.Bitwise
import Mathlib.Order.Interval.Finset.Nat
import Mathlib.Tactic.Ring

/-! # Regions of an address space

Ranges of addresses that lie apart from each other, and addresses that are rounded up to a multiple
of a power of two. -/

namespace GiveMePi.Library

structure Region where
  start : ℕ
  size : ℕ
deriving DecidableEq, Repr

namespace Region

/-- The address behind the last one. -/
def stop (region : Region) : ℕ :=
  region.start + region.size

/-- No address is in both. -/
def Apart (left right : Region) : Prop :=
  left.stop ≤ right.start ∨ right.stop ≤ left.start

/-- Every address of the inner region is in the outer one. -/
def Within (inner outer : Region) : Prop :=
  outer.start ≤ inner.start ∧ inner.stop ≤ outer.stop

instance (left right : Region) : Decidable (Apart left right) :=
  inferInstanceAs (Decidable (_ ∨ _))

instance (inner outer : Region) : Decidable (Within inner outer) :=
  inferInstanceAs (Decidable (_ ∧ _))

variable {left right region outer : Region}

theorem Apart.symm (h : Apart left right) : Apart right left :=
  Or.symm h

theorem Within.trans {middle : Region} (h : Within region middle) (h' : Within middle outer) :
    Within region outer :=
  ⟨h'.1.trans h.1, h.2.trans h'.2⟩

theorem Apart.mono {left' right' : Region} (h : Apart left right) (hleft : Within left' left)
    (hright : Within right' right) : Apart left' right' :=
  Or.imp (fun hle => (hleft.2.trans hle).trans hright.1)
    (fun hle => (hright.2.trans hle).trans hleft.1) h

/-- A region that starts where those of the list have ended. -/
theorem pairwise_cons_of_le {regions : List Region} (h : regions.Pairwise Apart)
    (hstop : ∀ other ∈ regions, other.stop ≤ region.start) :
    (region :: regions).Pairwise Apart :=
  List.pairwise_cons.mpr ⟨fun other hmem => .inr (hstop other hmem), h⟩

/-- The addresses of a region. -/
def addresses (region : Region) : Finset ℕ :=
  Finset.Ico region.start region.stop

@[simp] theorem card_addresses (region : Region) : region.addresses.card = region.size := by
  simp [addresses, stop]

theorem Within.addresses_subset (h : Within region outer) : region.addresses ⊆ outer.addresses :=
  Finset.Ico_subset_Ico h.1 h.2

theorem Apart.disjoint_addresses (h : Apart left right) :
    Disjoint left.addresses right.addresses := by
  rcases h with h | h
  · exact Finset.Ico_disjoint_Ico_consecutive _ _ _ |>.mono_right
      (Finset.Ico_subset_Ico_left h)
  · exact (Finset.Ico_disjoint_Ico_consecutive _ _ _ |>.mono_right
      (Finset.Ico_subset_Ico_left h)).symm

/-- The addresses of some regions. -/
def covered (regions : List Region) : Finset ℕ :=
  regions.foldr (fun region rest => region.addresses ∪ rest) ∅

@[simp] theorem covered_nil : covered [] = ∅ := rfl

@[simp] theorem covered_cons (region : Region) (rest : List Region) :
    covered (region :: rest) = region.addresses ∪ covered rest := rfl

theorem covered_subset {regions : List Region}
    (hwithin : ∀ region ∈ regions, Within region outer) : covered regions ⊆ outer.addresses := by
  induction regions with
  | nil => simp
  | cons first rest ih =>
      rcases List.forall_mem_cons.mp hwithin with ⟨hfirst, hrest⟩
      exact Finset.union_subset hfirst.addresses_subset (ih hrest)

theorem disjoint_covered {regions : List Region}
    (happart : ∀ other ∈ regions, Apart region other) :
    Disjoint region.addresses (covered regions) := by
  induction regions with
  | nil => simp
  | cons first rest ih =>
      rcases List.forall_mem_cons.mp happart with ⟨hfirst, hrest⟩
      exact Finset.disjoint_union_right.mpr ⟨hfirst.disjoint_addresses, ih hrest⟩

theorem card_covered {regions : List Region} (happart : regions.Pairwise Apart) :
    (covered regions).card = (regions.map size).sum := by
  induction regions with
  | nil => simp
  | cons first rest ih =>
      rcases List.pairwise_cons.mp happart with ⟨hfirst, hrest⟩
      rw [covered_cons, Finset.card_union_of_disjoint (disjoint_covered hfirst), ih hrest]
      simp

/-- Regions that lie apart in another one are not larger than it together. -/
theorem sum_size_le {regions : List Region} (happart : regions.Pairwise Apart)
    (hwithin : ∀ region ∈ regions, Within region outer) :
    (regions.map size).sum ≤ outer.size := by
  rw [← card_covered happart, ← card_addresses outer]
  exact Finset.card_le_card (covered_subset hwithin)

end Region

/-! ## Multiples of a power of two -/

/-- The least multiple that is not below the address. -/
def alignUp (address alignment : ℕ) : ℕ :=
  (address + (alignment - 1)) / alignment * alignment

theorem dvd_alignUp (address alignment : ℕ) : alignment ∣ alignUp address alignment :=
  Nat.dvd_mul_left _ _

theorem le_alignUp (address : ℕ) {alignment : ℕ} (h : 0 < alignment) :
    address ≤ alignUp address alignment := by
  have hsplit := Nat.div_add_mod (address + (alignment - 1)) alignment
  have hmod := Nat.mod_lt (address + (alignment - 1)) h
  rw [alignUp, Nat.mul_comm]
  omega

/-- The mask clears the bits below the power. -/
theorem toNat_and_not_mask (word : UInt64) {mask : UInt64} {exponent : ℕ} (hexponent : exponent < 64)
    (hmask : mask.toNat = 2 ^ exponent - 1) :
    (word &&& ~~~mask).toNat = word.toNat / 2 ^ exponent * 2 ^ exponent := by
  have hpow : 2 ^ exponent < 2 ^ 64 := Nat.pow_lt_pow_right (by decide) hexponent
  have hnot : (~~~mask).toNat = 2 ^ 64 - (mask.toNat + 1) := by
    have hsize : UInt64.size = 2 ^ 64 := rfl
    rw [UInt64.toNat_not, hsize]
    omega
  apply Nat.eq_of_testBit_eq
  intro index
  rw [UInt64.toNat_and, Nat.testBit_and, hnot, Nat.testBit_two_pow_sub_succ (by omega), hmask,
    Nat.testBit_two_pow_sub_one, Nat.testBit_mul_two_pow, Nat.testBit_div_two_pow]
  by_cases hindex : index < 64
  · by_cases hlow : index < exponent
    · simp [hlow]
    · have hsum : index - exponent + exponent = index := by omega
      simp [hlow, hindex, hsum, Nat.not_lt.mp hlow]
  · have hzero : word.toNat.testBit index = false :=
      Nat.testBit_lt_two_pow (word.toNat_lt.trans_le (Nat.pow_le_pow_right (by decide) (by omega)))
    have hsum : index - exponent + exponent = index := by omega
    simp [hindex, hzero, hsum]

end GiveMePi.Library
