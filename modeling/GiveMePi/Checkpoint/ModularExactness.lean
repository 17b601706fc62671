import GiveMePi.Checkpoint.ModularPQTVerifier
import GiveMePi.Numeric

/-! # The modular recomputation is exact

The recomputation is repeated with operations that have no result when they overflow: it always has
one, and a block is accepted exactly when it agrees with the sequential computation. -/

namespace GiveMePi.Checkpoint.ModularPQTVerifier

open Binary (midpoint_bounds splitSequential splitSequential_eq)
open Library

/-! ## The computation with checked operations -/

def multiply? (left right prime : UInt64) : Option UInt64 := do
  let product ← CheckedWord.mul left right
  pure (product % prime)

def subtractSmall? (value amount prime : UInt64) : Option UInt64 := do
  let sum ← CheckedWord.add value prime
  let difference ← CheckedWord.sub sum amount
  pure (difference % prime)

def leaf? (term prime : UInt64) : Option Residues :=
  if term = 0 then some ⟨1, 1, tConstant % prime⟩
  else do
    let k := term % prime
    let sixfold ← multiply? 6 k prime
    let twofold ← multiply? 2 k prime
    let first ← subtractSmall? sixfold 5 prime
    let second ← subtractSmall? twofold 1 prime
    let third ← subtractSmall? sixfold 1 prime
    let firstSecond ← multiply? first second prime
    let p ← multiply? firstSecond third prime
    let kSquared ← multiply? k k prime
    let kCubed ← multiply? kSquared k prime
    let q ← multiply? kCubed (qConstant % prime) prime
    let scaled ← multiply? k (tMultiplier % prime) prime
    let linear ← CheckedWord.add scaled (tConstant % prime)
    let t ← multiply? (linear % prime) p prime
    if term &&& 1 ≠ 0 ∧ t ≠ 0 then do
      let negated ← CheckedWord.sub prime t
      pure ⟨p, q, negated⟩
    else pure ⟨p, q, t⟩

def merge? (left right : Residues) (prime : UInt64) : Option Residues := do
  let p ← multiply? left.p right.p prime
  let q ← multiply? left.q right.q prime
  let first ← multiply? left.t right.q prime
  let second ← multiply? left.p right.t prime
  let sum ← CheckedWord.add first second
  pure ⟨p, q, sum % prime⟩

def calculate? (start stop prime : UInt64) (h : start < stop) : Option Residues := do
  let width ← CheckedWord.sub stop start
  if hone : stop - start = 1 then leaf? start prime
  else do
    let _ ← CheckedWord.add start (width / 2)
    let middle := start + (stop - start) / 2
    let left ← calculate? start middle prime (midpoint_bounds h hone).1
    let right ← calculate? middle stop prime (midpoint_bounds h hone).2
    merge? left right prime
termination_by stop.toNat - start.toNat
decreasing_by
  all_goals
    have hmid := midpoint_bounds h hone
    simp only [UInt64.lt_iff_toNat_lt] at h hmid
    omega

/-! ## Nothing overflows -/

variable {prime : UInt64}

/-- A word below the modulus. -/
def IsReduced (prime word : UInt64) : Prop :=
  word.toNat < prime.toNat

namespace IsReduced

variable {left right value amount : UInt64}

theorem mod (hprime : IsSmall prime) (word : UInt64) : IsReduced prime (word % prime) := by
  have := hprime.gt
  rw [IsReduced, UInt64.toNat_mod]
  exact Nat.mod_lt _ (by omega)

theorem multiply?_eq (hprime : IsSmall prime) (hleft : IsReduced prime left)
    (hright : IsReduced prime right) :
    multiply? left right prime = some (multiply left right prime) := by
  have hproduct : left.toNat * right.toNat < 2 ^ 64 :=
    (Nat.mul_lt_mul'' (hleft.trans hprime.lt) (hright.trans hprime.lt)).trans_le (by norm_num)
  rw [multiply?, CheckedWord.mul_eq hproduct]
  rfl

theorem subtractSmall?_eq (hprime : IsSmall prime) (hvalue : IsReduced prime value)
    (hamount : IsReduced prime amount) :
    subtractSmall? value amount prime = some (subtractSmall value amount prime) := by
  have hlt := hprime.lt
  rw [IsReduced] at hvalue hamount
  have hsum : value.toNat + prime.toNat < 2 ^ 64 := by omega
  have hle : amount ≤ value + prime := by
    rw [UInt64.le_iff_toNat_le, toNat_add_of_lt hsum]
    omega
  rw [subtractSmall?, CheckedWord.add_eq hsum, Option.bind_eq_bind, Option.bind_some,
    CheckedWord.sub_eq hle]
  rfl

theorem add_eq (hprime : IsSmall prime) (hleft : IsReduced prime left)
    (hright : IsReduced prime right) : CheckedWord.add left right = some (left + right) := by
  have hlt := hprime.lt
  rw [IsReduced] at hleft hright
  exact CheckedWord.add_eq (by omega)

theorem of_le_six (hprime : IsSmall prime) (h : value.toNat ≤ 6) : IsReduced prime value :=
  h.trans_lt hprime.gt

end IsReduced

theorem multiply_isReduced (hprime : IsSmall prime) (left right : UInt64) :
    IsReduced prime (multiply left right prime) :=
  IsReduced.mod hprime _

theorem subtractSmall_isReduced (hprime : IsSmall prime) (value amount : UInt64) :
    IsReduced prime (subtractSmall value amount prime) :=
  IsReduced.mod hprime _

theorem leaf?_eq (hprime : IsSmall prime) (term : UInt64) :
    leaf? term prime = some (leaf term prime) := by
  rw [leaf?, leaf]
  split
  · rfl
  · have hterm := IsReduced.mod hprime term
    have hq := IsReduced.mod hprime qConstant
    have hmultiplier := IsReduced.mod hprime tMultiplier
    have hconstant := IsReduced.mod hprime tConstant
    have hsix : IsReduced prime 6 := IsReduced.of_le_six hprime (by decide)
    have htwo : IsReduced prime 2 := IsReduced.of_le_six hprime (by decide)
    have hfive : IsReduced prime 5 := IsReduced.of_le_six hprime (by decide)
    have hone : IsReduced prime 1 := IsReduced.of_le_six hprime (by decide)
    simp only [hsix.multiply?_eq hprime hterm, htwo.multiply?_eq hprime hterm,
      (multiply_isReduced hprime _ _).subtractSmall?_eq hprime hfive,
      (multiply_isReduced hprime _ _).subtractSmall?_eq hprime hone,
      (subtractSmall_isReduced hprime _ _).multiply?_eq hprime (subtractSmall_isReduced hprime _ _),
      (multiply_isReduced hprime _ _).multiply?_eq hprime (subtractSmall_isReduced hprime _ _),
      hterm.multiply?_eq hprime hterm, (multiply_isReduced hprime _ _).multiply?_eq hprime hterm,
      (multiply_isReduced hprime _ _).multiply?_eq hprime hq, hterm.multiply?_eq hprime hmultiplier,
      (multiply_isReduced hprime _ _).add_eq hprime hconstant,
      (IsReduced.mod hprime _).multiply?_eq hprime (multiply_isReduced hprime _ _),
      Option.bind_eq_bind, Option.bind_some]
    split
    · next hodd =>
        rw [CheckedWord.sub_eq (UInt64.le_iff_toNat_le.mpr (multiply_isReduced hprime _ _).le)]
        rfl
    · rfl

theorem merge?_eq (hprime : IsSmall prime) {left right : Residues}
    (hleft : IsReduced prime left.p ∧ IsReduced prime left.q ∧ IsReduced prime left.t)
    (hright : IsReduced prime right.p ∧ IsReduced prime right.q ∧ IsReduced prime right.t) :
    merge? left right prime = some (merge left right prime) := by
  obtain ⟨hleftP, hleftQ, hleftT⟩ := hleft
  obtain ⟨hrightP, hrightQ, hrightT⟩ := hright
  simp only [merge?, hleftP.multiply?_eq hprime hrightP, hleftQ.multiply?_eq hprime hrightQ,
    hleftT.multiply?_eq hprime hrightQ, hleftP.multiply?_eq hprime hrightT,
    (multiply_isReduced hprime _ _).add_eq hprime (multiply_isReduced hprime _ _),
    Option.bind_eq_bind, Option.bind_some]
  rfl

theorem Represents.isReduced (hprime : IsSmall prime) {residues : Residues}
    {block : SeriesBlock ℤ} (h : Represents prime residues block) :
    IsReduced prime residues.p ∧ IsReduced prime residues.q ∧ IsReduced prime residues.t :=
  ⟨h.p.lt hprime, h.q.lt hprime, h.t.lt hprime⟩

/-- The recursion on a range computes with words as with integers. -/
theorem calculate?_eq (hprime : IsSmall prime) (start stop : UInt64) (h : start < stop) :
    calculate? start stop prime h = some (calculate start stop prime h) := by
  induction start, stop, h using Binary.splitSequentialValidated.induct with
  | case1 start stop h hone =>
      rw [calculate?, calculate, CheckedWord.sub_eq (UInt64.le_of_lt h), Option.bind_eq_bind,
        Option.bind_some, dif_pos hone, dif_pos hone, leaf?_eq hprime]
  | case2 start stop h hone middle ihleft ihright =>
      have hmid := midpoint_bounds h hone
      have hfit : start.toNat + ((stop - start) / 2).toNat < 2 ^ 64 := by
        have hwidth := UInt64.toNat_sub_of_le stop start (UInt64.le_of_lt h)
        have hstop := stop.toNat_lt
        have hle := UInt64.lt_iff_toNat_lt.mp h
        rw [UInt64.toNat_div, hwidth]
        change start.toNat + (stop.toNat - start.toNat) / 2 < 2 ^ 64
        omega
      have hleft : calculate? start (start + (stop - start) / 2) prime hmid.1 = _ := ihleft
      have hright : calculate? (start + (stop - start) / 2) stop prime hmid.2 = _ := ihright
      rw [calculate?, calculate, CheckedWord.sub_eq (UInt64.le_of_lt h), Option.bind_eq_bind,
        Option.bind_some, dif_neg hone, dif_neg hone]
      simp only [CheckedWord.add_eq hfit, hleft, hright, Option.bind_eq_bind, Option.bind_some]
      exact merge?_eq hprime ((calculate_represents hprime _ _ hmid.1).isReduced hprime)
        ((calculate_represents hprime _ _ hmid.2).isReduced hprime)

/-! ## What is accepted -/

/-- A block of a valid identity and location is accepted exactly when its values are those of the
sequential computation modulo the three primes, and no operation of the recomputation overflows. -/
theorem validate_accepts_residues (block : CheckpointBlock) (hidentity : block.identity.IsValid)
    (hlocation : block.location.validate block.identity = .ok ()) :
    ∃ node, splitSequential block.location.start block.location.stop = .ok node ∧
      ((validate block).isAccepted = true ↔ ∀ prime ∈ verificationPrimes,
        block.p ≡ node.p [ZMOD prime.toNat] ∧ block.q ≡ node.q [ZMOD prime.toNat] ∧
          block.t ≡ node.t [ZMOD prime.toNat]) ∧
      (block.p = node.p → block.q = node.q → block.t = node.t →
        (validate block).isAccepted = true) ∧
      ∀ prime ∈ verificationPrimes,
        (∀ term, leaf? term prime.toUInt64 = some (leaf term prime.toUInt64)) ∧
        ∀ h, calculate? block.location.start block.location.stop prime.toUInt64 h =
          some (calculate block.location.start block.location.stop prime.toUInt64 h) := by
  obtain ⟨hstart, hstop⟩ := BlockLocation.validate_eq_ok.mp hlocation
  have haccepted : (validate block).isAccepted = true ↔
      ∀ prime ∈ verificationPrimes, IsCongruent block prime.toNat := by
    rw [validate_isAccepted_iff]
    exact ⟨fun h => h.2.2.2, fun h => ⟨hidentity, hstart, hstop, h⟩⟩
  refine ⟨_, splitSequential_eq hstart, haccepted, ?_, ?_⟩
  · intro hp hq ht
    rw [haccepted]
    intro prime _
    exact ⟨hp ▸ Int.ModEq.rfl, hq ▸ Int.ModEq.rfl, ht ▸ Int.ModEq.rfl⟩
  · intro prime hmem
    have hprime := isSmall_of_mem hmem
    exact ⟨leaf?_eq hprime, calculate?_eq hprime _ _⟩

/-- The block of the first term of a computation of ten digits. -/
def firstTermBlock : CheckpointBlock where
  identity :=
    { algorithm := AlgorithmId.chudnovskyBinarySplitting
      arithmeticVersion := arithmeticFormatVersion
      formulaVersion := binarySplittingFormulaVersion
      requestedDigits := 10
      guardDigits := 32
      workingDigits := 42
      termCount := 4 }
  location := ⟨0, 1, 0⟩
  p := 1
  q := 1
  t := 13591409

theorem validate_accepts_residues_first :
    ∃ node, splitSequential 0 1 = .ok node ∧
      ((validate firstTermBlock).isAccepted = true ↔ ∀ prime ∈ verificationPrimes,
        1 ≡ node.p [ZMOD prime.toNat] ∧ 1 ≡ node.q [ZMOD prime.toNat] ∧
          13591409 ≡ node.t [ZMOD prime.toNat]) ∧
      (1 = node.p → 1 = node.q → 13591409 = node.t →
        (validate firstTermBlock).isAccepted = true) ∧
      ∀ prime ∈ verificationPrimes,
        (∀ term, leaf? term prime.toUInt64 = some (leaf term prime.toUInt64)) ∧
        ∀ h, calculate? 0 1 prime.toUInt64 h = some (calculate 0 1 prime.toUInt64 h) :=
  validate_accepts_residues firstTermBlock (by decide) (by decide)

end GiveMePi.Checkpoint.ModularPQTVerifier
