import GiveMePi.Error
import GiveMePi.Library.SeriesSplitting

/-! # Sequential binary splitting

Term indices are the 64-bit unsigned integers of the program; `P`, `Q` and `T` are arbitrary
precision integers. -/

namespace GiveMePi.Binary

/-- The `P`, `Q`, `T` values of the terms `start, …, stop - 1`. -/
structure BinaryNode where
  start : UInt64
  stop : UInt64
  p : ℤ
  q : ℤ
  t : ℤ
deriving DecidableEq, Repr

namespace BinaryNode

/-- Releases the values and keeps the range. -/
def clearValues (node : BinaryNode) : BinaryNode :=
  { node with p := 0, q := 0, t := 0 }

/-- Whether the values are resident in memory. -/
def hasValues (node : BinaryNode) : Bool :=
  node.p ≠ 0 || node.q ≠ 0 || node.t ≠ 0

end BinaryNode

def makeChudnovskyLeaf (term stop : UInt64) : BinaryNode :=
  if term = 0 then
    ⟨term, stop, 1, 1, 13591409⟩
  else
    let k : ℤ := term.toNat
    let firstFactor := k * 6 - 5
    let secondFactor := k * 2 - 1
    let thirdFactor := k * 6 - 1
    let p := firstFactor * secondFactor * thirdFactor
    let q := k * k * k * 10939058860032000
    let t := (k * 545140134 + 13591409) * p
    ⟨term, stop, p, q, if term % 2 ≠ 0 then -t else t⟩

def merge (left right : BinaryNode) : Except Error BinaryNode :=
  if left.stop ≠ right.start then
    throw (.invalidArgument "Binary Splitting merge requires adjacent nodes")
  else
    pure ⟨left.start, right.stop, left.p * right.p, left.q * right.q,
      left.t * right.q + left.p * right.t⟩

def validateRange (start stop : UInt64) : Except Error Unit :=
  if start ≥ stop then
    throw (.invalidArgument "Binary Splitting requires start < end")
  else
    pure ()

theorem midpoint_bounds {start stop : UInt64} (h : start < stop) (hone : stop - start ≠ 1) :
    start < start + (stop - start) / 2 ∧ start + (stop - start) / 2 < stop := by
  constructor <;> grind

/-- The recursion on a range that `validateRange` has accepted. -/
def splitSequentialValidated (start stop : UInt64) (h : start < stop) :
    Except Error BinaryNode :=
  if hone : stop - start = 1 then
    pure (makeChudnovskyLeaf start stop)
  else do
    let mid := start + (stop - start) / 2
    let left ← splitSequentialValidated start mid (midpoint_bounds h hone).1
    let right ← splitSequentialValidated mid stop (midpoint_bounds h hone).2
    merge left right
termination_by stop.toNat - start.toNat
decreasing_by
  all_goals
    have hmid := midpoint_bounds h hone
    simp only [UInt64.lt_iff_toNat_lt] at h hmid
    omega

def splitSequential (start stop : UInt64) : Except Error BinaryNode :=
  if h : start < stop then
    splitSequentialValidated start stop h
  else
    throw (.invalidArgument "Binary Splitting requires start < end")

def split (start stop : UInt64) : Except Error BinaryNode :=
  splitSequential start stop

/-! ## Nodes as blocks of the series -/

open Library (SeriesBlock)

/-- The values of the leaf of one term. -/
def leafBlock (k : ℕ) : SeriesBlock ℤ :=
  if k = 0 then
    ⟨1, 1, 13591409⟩
  else
    let p : ℤ := (6 * k - 5) * (2 * k - 1) * (6 * k - 1)
    ⟨p, k ^ 3 * 10939058860032000, (-1) ^ k * ((13591409 + 545140134 * k) * p)⟩

/-- The values of a range of terms. -/
abbrev rangeBlock (a b : ℕ) : SeriesBlock ℤ :=
  SeriesBlock.range leafBlock a b

namespace BinaryNode

def block (node : BinaryNode) : SeriesBlock ℤ :=
  ⟨node.p, node.q, node.t⟩

/-- The node of a range with the values of that range. -/
def ofRange (start stop : UInt64) : BinaryNode :=
  let values := rangeBlock start.toNat stop.toNat
  ⟨start, stop, values.p, values.q, values.t⟩

@[simp] theorem ofRange_start (start stop : UInt64) : (ofRange start stop).start = start := rfl

@[simp] theorem ofRange_stop (start stop : UInt64) : (ofRange start stop).stop = stop := rfl

@[simp] theorem ofRange_block (start stop : UInt64) :
    (ofRange start stop).block = rangeBlock start.toNat stop.toNat := rfl

end BinaryNode

theorem makeChudnovskyLeaf_eq (term stop : UInt64) (h : stop - term = 1) (hlt : term < stop) :
    makeChudnovskyLeaf term stop = BinaryNode.ofRange term stop := by
  have hstop : stop.toNat = term.toNat + 1 := by
    have hsub := UInt64.toNat_sub_of_le stop term (UInt64.le_of_lt hlt)
    rw [h] at hsub
    have := UInt64.lt_iff_toNat_lt.mp hlt
    simp at hsub
    omega
  rw [BinaryNode.ofRange, hstop, rangeBlock, SeriesBlock.range_succ_self, makeChudnovskyLeaf,
    leafBlock]
  by_cases hzero : term = 0
  · simp [hzero]
  · have hnat : term.toNat ≠ 0 := fun hterm => hzero (UInt64.toNat_inj.mp (by simpa using hterm))
    rw [if_neg hzero, if_neg hnat]
    have hparity : term % 2 ≠ 0 ↔ term.toNat % 2 = 1 := by
      rw [ne_eq, ← UInt64.toNat_inj]
      simp
    rcases Nat.mod_two_eq_zero_or_one term.toNat with heven | hodd
    · have hcond : ¬ term % 2 ≠ 0 := by rw [hparity, heven]; decide
      simp only [if_neg hcond, (Nat.even_iff.mpr heven).neg_one_pow, BinaryNode.mk.injEq, true_and]
      refine ⟨by ring, by ring, by ring⟩
    · have hcond : term % 2 ≠ 0 := hparity.mpr hodd
      simp only [if_pos hcond, (Nat.odd_iff.mpr hodd).neg_one_pow, BinaryNode.mk.injEq, true_and]
      refine ⟨by ring, by ring, by ring⟩

/-- Adjacent nodes with the values of their ranges merge to the node of the joint range. -/
theorem merge_ofRange {a b c : UInt64} (hab : a ≤ b) (hbc : b ≤ c) :
    merge (BinaryNode.ofRange a b) (BinaryNode.ofRange b c) = .ok (BinaryNode.ofRange a c) := by
  have hmul := SeriesBlock.range_mul_range leafBlock (UInt64.le_iff_toNat_le.mp hab)
    (UInt64.le_iff_toNat_le.mp hbc)
  simp [merge, BinaryNode.ofRange, ← hmul]

/-- The recursion returns the node of its range. -/
theorem splitSequentialValidated_eq (start stop : UInt64) (h : start < stop) :
    splitSequentialValidated start stop h = .ok (BinaryNode.ofRange start stop) := by
  induction start, stop, h using splitSequentialValidated.induct with
  | case1 start stop h hone =>
      rw [splitSequentialValidated, dif_pos hone, makeChudnovskyLeaf_eq start stop hone h]
      rfl
  | case2 start stop h hone mid ihleft ihright =>
      have hmid := midpoint_bounds h hone
      have hleft : splitSequentialValidated start (start + (stop - start) / 2) hmid.1 = _ := ihleft
      have hright : splitSequentialValidated (start + (stop - start) / 2) stop hmid.2 = _ := ihright
      rw [splitSequentialValidated, dif_neg hone]
      simp only [hleft, hright, ok_bind]
      exact merge_ofRange (UInt64.le_of_lt hmid.1) (UInt64.le_of_lt hmid.2)

theorem splitSequential_eq {start stop : UInt64} (h : start < stop) :
    splitSequential start stop = .ok (BinaryNode.ofRange start stop) := by
  rw [splitSequential, dif_pos h, splitSequentialValidated_eq]

end GiveMePi.Binary
