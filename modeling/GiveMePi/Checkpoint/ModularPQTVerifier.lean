import GiveMePi.Binary.BinarySplitter
import GiveMePi.Checkpoint.CheckpointBlockCodec
import GiveMePi.Checkpoint.CheckpointValidation
import Mathlib.Data.Int.ModEq
import Mathlib.Tactic.Linarith
import Mathlib.Tactic.Ring

/-! # Recomputation of a block modulo three primes

The residues are 64-bit words; no product of two of them overflows, since the primes are below
`2 ^ 30`. -/

namespace GiveMePi.Checkpoint

namespace ModularPQTVerifier

open Binary (leafBlock rangeBlock midpoint_bounds)

def verificationPrimes : List UInt32 :=
  [998244353, 1000000007, 1000000009]

def qConstant : UInt64 := 10939058860032000

def tMultiplier : UInt64 := 545140134

def tConstant : UInt64 := 13591409

structure Residues where
  p : UInt64
  q : UInt64
  t : UInt64
deriving DecidableEq, Repr

def multiply (left right prime : UInt64) : UInt64 :=
  (left * right) % prime

def subtractSmall (value amount prime : UInt64) : UInt64 :=
  (value + prime - amount) % prime

def leaf (term prime : UInt64) : Residues :=
  if term = 0 then ⟨1, 1, tConstant % prime⟩
  else
    let k := term % prime
    let first := subtractSmall (multiply 6 k prime) 5 prime
    let second := subtractSmall (multiply 2 k prime) 1 prime
    let third := subtractSmall (multiply 6 k prime) 1 prime
    let p := multiply (multiply first second prime) third prime
    let kSquared := multiply k k prime
    let q := multiply (multiply kSquared k prime) (qConstant % prime) prime
    let linear := (multiply k (tMultiplier % prime) prime + tConstant % prime) % prime
    let t := multiply linear p prime
    ⟨p, q, if term &&& 1 ≠ 0 ∧ t ≠ 0 then prime - t else t⟩

def merge (left right : Residues) (prime : UInt64) : Residues where
  p := multiply left.p right.p prime
  q := multiply left.q right.q prime
  t := (multiply left.t right.q prime + multiply left.p right.t prime) % prime

/-- The recursion on a range that is not empty. -/
def calculate (start stop prime : UInt64) (h : start < stop) : Residues :=
  if hone : stop - start = 1 then leaf start prime
  else
    let middle := start + (stop - start) / 2
    merge (calculate start middle prime (midpoint_bounds h hone).1)
      (calculate middle stop prime (midpoint_bounds h hone).2) prime
termination_by stop.toNat - start.toNat
decreasing_by
  all_goals
    have hmid := midpoint_bounds h hone
    simp only [UInt64.lt_iff_toNat_lt] at h hmid
    omega

/-- `mpz_fdiv_ui`: the remainder of the floor division. -/
def residue (value : ℤ) (prime : UInt32) : UInt64 :=
  UInt64.ofNat (value % prime.toNat).toNat

/-- The components whose residues differ, by name. -/
def mismatches (block : CheckpointBlock) (expected : Residues) (prime : UInt32) : String :=
  (if residue block.p prime ≠ expected.p then "P" else "") ++
  (if residue block.q prime ≠ expected.q then "Q" else "") ++
  (if residue block.t prime ≠ expected.t then "T" else "")

def primeDiagnostics (block : CheckpointBlock) (h : block.location.start < block.location.stop)
    (prime : UInt32) : List ValidationDiagnostic :=
  let expected := calculate block.location.start block.location.stop prime.toUInt64 h
  if mismatches block expected prime ≠ "" then
    [⟨.mathematics, .modularMismatch, "P/Q/T component mismatch (" ++ mismatches block expected prime
      ++ ") modulo " ++ toString prime⟩]
  else []

def validate (block : CheckpointBlock) : ValidationResult :=
  match hvalid : (do block.identity.validate; block.location.validate block.identity :
      Except Error Unit) with
  | .error error => .rejectedFor .mathematics .invalidRange error.what
  | .ok _ =>
      .ofDiagnostics (verificationPrimes.flatMap (primeDiagnostics block (by
        obtain ⟨_, _, hlocation⟩ := bind_eq_ok.mp hvalid
        exact (BlockLocation.validate_eq_ok.mp hlocation).1)))

/-! ## The residues are exact -/

/-- A modulus for which nothing overflows. -/
structure IsSmall (prime : UInt64) : Prop where
  gt : 6 < prime.toNat
  lt : prime.toNat < 2 ^ 31

/-- The word is the residue of the integer. -/
def IsResidue (prime : UInt64) (word : UInt64) (value : ℤ) : Prop :=
  (word.toNat : ℤ) = value % prime.toNat

namespace IsResidue

variable {prime left right word : UInt64} {x y : ℤ}

theorem lt (hprime : IsSmall prime) (h : IsResidue prime word x) : word.toNat < prime.toNat := by
  have hpos : (0 : ℤ) < prime.toNat := by
    have := hprime.gt
    omega
  have := Int.emod_lt_of_pos x hpos
  rw [IsResidue] at h
  omega

theorem congr (h : IsResidue prime word x) (hxy : x % prime.toNat = y % prime.toNat) :
    IsResidue prime word y := by
  rw [IsResidue, h, hxy]

theorem multiply (hprime : IsSmall prime) (hleft : IsResidue prime left x)
    (hright : IsResidue prime right y) :
    IsResidue prime (multiply left right prime) (x * y) := by
  have hmul : left.toNat * right.toNat < 2 ^ 64 :=
    (Nat.mul_lt_mul'' ((hleft.lt hprime).trans hprime.lt)
      ((hright.lt hprime).trans hprime.lt)).trans_le (by norm_num)
  rw [IsResidue] at *
  rw [ModularPQTVerifier.multiply, UInt64.toNat_mod, UInt64.toNat_mul, Nat.mod_eq_of_lt hmul,
    Int.natCast_emod, Nat.cast_mul, hleft, hright, ← Int.mul_emod]

theorem mod (value : UInt64) : IsResidue prime (value % prime) value.toNat := by
  rw [IsResidue, UInt64.toNat_mod, Int.natCast_emod]

/-- A word below the modulus is its own residue. -/
theorem of_lt (h : word.toNat < prime.toNat) : IsResidue prime word word.toNat := by
  rw [IsResidue, Int.emod_eq_of_lt (by omega) (by omega)]

theorem add (hprime : IsSmall prime) (hleft : IsResidue prime left x)
    (hright : IsResidue prime right y) : IsResidue prime ((left + right) % prime) (x + y) := by
  have hl := hleft.lt hprime
  have hr := hright.lt hprime
  have hlt := hprime.lt
  rw [IsResidue] at *
  rw [UInt64.toNat_mod, UInt64.toNat_add, Nat.mod_eq_of_lt (by omega : left.toNat + right.toNat < _),
    Int.natCast_emod, Nat.cast_add, hleft, hright, ← Int.add_emod]

theorem subtractSmall (hprime : IsSmall prime) (hword : IsResidue prime word x) (amount : UInt64)
    (hamount : amount.toNat ≤ 6) :
    IsResidue prime (subtractSmall word amount prime) (x - amount.toNat) := by
  have hw := hword.lt hprime
  have hgt := hprime.gt
  have hlt := hprime.lt
  have hadd : (word + prime).toNat = word.toNat + prime.toNat := toNat_add_of_lt (by omega)
  have hle : amount ≤ word + prime := by
    rw [UInt64.le_iff_toNat_le, hadd]
    omega
  have hcast : ((word.toNat + prime.toNat - amount.toNat : ℕ) : ℤ) =
      word.toNat - amount.toNat + prime.toNat := by omega
  rw [IsResidue] at *
  rw [ModularPQTVerifier.subtractSmall, UInt64.toNat_mod, UInt64.toNat_sub_of_le _ _ hle, hadd,
    Int.natCast_emod, hcast, Int.add_emod_right, hword, Int.emod_sub_emod]

theorem neg (hprime : IsSmall prime) (h : IsResidue prime word x) :
    IsResidue prime (if word ≠ 0 then prime - word else word) (-x) := by
  have hw := h.lt hprime
  have hcongr : (-x) % (prime.toNat : ℤ) = (-(word.toNat : ℤ)) % prime.toNat := by
    have hself : x % (prime.toNat : ℤ) = (word.toNat : ℤ) % prime.toNat := by
      rw [h, Int.emod_emod]
    exact Int.ModEq.neg hself
  refine IsResidue.congr ?_ hcongr.symm
  rw [IsResidue]
  by_cases hzero : word = 0
  · subst hzero
    simp
  · have hpos : word.toNat ≠ 0 := fun hnat => hzero (UInt64.toNat_inj.mp (by simpa using hnat))
    have hle : word ≤ prime := UInt64.le_iff_toNat_le.mpr hw.le
    rw [if_pos hzero, UInt64.toNat_sub_of_le _ _ hle, ← Int.add_emod_right,
      Int.emod_eq_of_lt (by omega) (by omega)]
    omega

/-- The remainder of the floor division is the residue. -/
theorem residue_eq_iff (prime : UInt32) (hpos : 0 < prime.toNat) (value : ℤ) :
    residue value prime = word ↔ IsResidue prime.toUInt64 word value := by
  have hnonneg := Int.emod_nonneg value (b := (prime.toNat : ℤ)) (by omega)
  have hlt := Int.emod_lt_of_pos value (b := (prime.toNat : ℤ)) (by omega)
  have hprime := prime.toNat_lt
  have hfit : (value % (prime.toNat : ℤ)).toNat < 2 ^ 64 := by omega
  rw [residue, IsResidue, ← UInt64.toNat_inj, UInt64.toNat_ofNat_of_lt' hfit,
    UInt32.toNat_toUInt64]
  omega

end IsResidue

/-- The words are the residues of the values of a block. -/
structure Represents (prime : UInt64) (residues : Residues) (block : Library.SeriesBlock ℤ) :
    Prop where
  p : IsResidue prime residues.p block.p
  q : IsResidue prime residues.q block.q
  t : IsResidue prime residues.t block.t

variable {prime : UInt64}

theorem leaf_represents (hprime : IsSmall prime) (term : UInt64) :
    Represents prime (leaf term prime) (leafBlock term.toNat) := by
  have hone : IsResidue prime 1 (1 : UInt64).toNat := IsResidue.of_lt (by
    have := hprime.gt
    change 1 < _
    omega)
  rw [leaf, leafBlock]
  by_cases hzero : term = 0
  · subst hzero
    exact ⟨hone, hone, IsResidue.mod tConstant⟩
  · have hnat : term.toNat ≠ 0 := fun h => hzero (UInt64.toNat_inj.mp (by simpa using h))
    rw [if_neg hzero, if_neg hnat]
    have hk : IsResidue prime (term % prime) term.toNat := IsResidue.mod term
    have hsmall (word : UInt64) (hword : word.toNat ≤ 6) : IsResidue prime word word.toNat :=
      IsResidue.of_lt (hword.trans_lt hprime.gt)
    have hsix := (hsmall 6 le_rfl).multiply hprime hk
    have htwo := (hsmall 2 (by decide)).multiply hprime hk
    have hp := (((hsix.subtractSmall hprime 5 (by decide)).multiply hprime
      (htwo.subtractSmall hprime 1 (by decide))).multiply hprime
        (hsix.subtractSmall hprime 1 (by decide)))
    have hq := ((hk.multiply hprime hk).multiply hprime hk).multiply hprime
      (IsResidue.mod qConstant)
    have hlinear := (hk.multiply hprime (IsResidue.mod tMultiplier)).add hprime
      (IsResidue.mod tConstant)
    have ht := hlinear.multiply hprime hp
    have hodd : term &&& 1 ≠ 0 ↔ Odd term.toNat := by
      rw [Nat.odd_iff, ne_eq, ← UInt64.toNat_inj, UInt64.toNat_and]
      change ¬ term.toNat &&& 1 = 0 ↔ _
      rw [Nat.and_one_is_mod]
      omega
    refine ⟨hp.congr (congrArg (· % _) ?_), hq.congr (congrArg (· % _) ?_), ?_⟩
    · change (((6 : ℕ) : ℤ) * term.toNat - ((5 : ℕ) : ℤ)) * (((2 : ℕ) : ℤ) * term.toNat -
        ((1 : ℕ) : ℤ)) * (((6 : ℕ) : ℤ) * term.toNat - ((1 : ℕ) : ℤ)) = _
      push_cast
      ring
    · change (term.toNat : ℤ) * term.toNat * term.toNat * ((10939058860032000 : ℕ) : ℤ) = _
      push_cast
      ring
    · have hvalue : ((term.toNat : ℤ) * ((545140134 : ℕ) : ℤ) + ((13591409 : ℕ) : ℤ)) *
          ((((6 : ℕ) : ℤ) * term.toNat - ((5 : ℕ) : ℤ)) * (((2 : ℕ) : ℤ) * term.toNat -
            ((1 : ℕ) : ℤ)) * (((6 : ℕ) : ℤ) * term.toNat - ((1 : ℕ) : ℤ))) =
          (13591409 + 545140134 * (term.toNat : ℤ)) * ((6 * term.toNat - 5) *
            (2 * term.toNat - 1) * (6 * term.toNat - 1)) := by
        push_cast
        ring
      have ht' := ht.congr (congrArg (· % (prime.toNat : ℤ)) hvalue)
      by_cases hparity : term &&& 1 ≠ 0
      · have hneg := ht'.neg hprime
        simp only [hparity, ne_eq, not_false_eq_true, true_and, (hodd.mp hparity).neg_one_pow]
        simpa using hneg
      · have heven := Nat.not_odd_iff_even.mp (mt hodd.mpr hparity)
        simp only [hparity, false_and, if_false, heven.neg_one_pow, one_mul]
        exact ht'

theorem merge_represents (hprime : IsSmall prime) {left right : Residues}
    {x y : Library.SeriesBlock ℤ} (hleft : Represents prime left x)
    (hright : Represents prime right y) : Represents prime (merge left right prime) (x * y) :=
  ⟨hleft.p.multiply hprime hright.p, hleft.q.multiply hprime hright.q,
    (hleft.t.multiply hprime hright.q).add hprime (hleft.p.multiply hprime hright.t)⟩

/-- The residues of a range are those of its values. -/
theorem calculate_represents (hprime : IsSmall prime) (start stop : UInt64) (h : start < stop) :
    Represents prime (calculate start stop prime h) (rangeBlock start.toNat stop.toNat) := by
  induction start, stop, h using Binary.splitSequentialValidated.induct with
  | case1 start stop h hone =>
      have hstop : stop.toNat = start.toNat + 1 := by
        have hsub := UInt64.toNat_sub_of_le stop start (UInt64.le_of_lt h)
        have hlt := UInt64.lt_iff_toNat_lt.mp h
        rw [hone] at hsub
        change 1 = _ at hsub
        omega
      rw [calculate, dif_pos hone, hstop, rangeBlock, Library.SeriesBlock.range_succ_self]
      exact leaf_represents hprime start
  | case2 start stop h hone middle ihleft ihright =>
      have hmid := midpoint_bounds h hone
      rw [calculate, dif_neg hone, rangeBlock, ← Library.SeriesBlock.range_mul_range leafBlock
        (UInt64.le_iff_toNat_le.mp hmid.1.le) (UInt64.le_iff_toNat_le.mp hmid.2.le)]
      exact merge_represents hprime ihleft ihright

/-! ## What is accepted -/

/-- The values agree with those of the range of the block, modulo the number. -/
def IsCongruent (block : CheckpointBlock) (prime : ℕ) : Prop :=
  let values := rangeBlock block.location.start.toNat block.location.stop.toNat
  block.p ≡ values.p [ZMOD prime] ∧ block.q ≡ values.q [ZMOD prime] ∧
    block.t ≡ values.t [ZMOD prime]

theorem isSmall_of_mem {prime : UInt32} (h : prime ∈ verificationPrimes) :
    IsSmall prime.toUInt64 := by
  simp only [verificationPrimes, List.mem_cons, List.not_mem_nil, or_false] at h
  rcases h with rfl | rfl | rfl <;> exact ⟨by decide, by decide⟩

theorem mismatches_eq_empty {block : CheckpointBlock} {expected : Residues} {prime : UInt32} :
    mismatches block expected prime = "" ↔ residue block.p prime = expected.p ∧
      residue block.q prime = expected.q ∧ residue block.t prime = expected.t := by
  rw [mismatches]
  by_cases hp : residue block.p prime = expected.p <;>
    by_cases hq : residue block.q prime = expected.q <;>
      by_cases ht : residue block.t prime = expected.t <;> simp [hp, hq, ht]

theorem primeDiagnostics_eq_nil {block : CheckpointBlock}
    (h : block.location.start < block.location.stop) {prime : UInt32}
    (hprime : prime ∈ verificationPrimes) :
    primeDiagnostics block h prime = [] ↔ IsCongruent block prime.toNat := by
  have hsmall := isSmall_of_mem hprime
  have hpos : 0 < prime.toNat := by
    have := hsmall.gt
    rw [UInt32.toNat_toUInt64] at this
    omega
  have hblock := calculate_represents hsmall _ _ h
  have hiff {word : UInt64} {value expected : ℤ} (hword : IsResidue prime.toUInt64 word expected) :
      residue value prime = word ↔ value ≡ expected [ZMOD prime.toNat] := by
    rw [IsResidue.residue_eq_iff prime hpos, IsResidue, hword, UInt32.toNat_toUInt64, Int.ModEq,
      eq_comm]
  rw [primeDiagnostics]
  simp only [ne_eq, ite_not, ite_eq_left_iff, List.cons_ne_nil, imp_false, not_not]
  rw [mismatches_eq_empty, hiff hblock.p, hiff hblock.q, hiff hblock.t]
  rfl

/-- A block is accepted exactly when its values are right modulo the three primes. -/
theorem validate_isAccepted_iff {block : CheckpointBlock} :
    (validate block).isAccepted = true ↔ block.identity.IsValid ∧
      block.location.start < block.location.stop ∧
        block.location.stop ≤ block.identity.termCount ∧
          ∀ prime ∈ verificationPrimes, IsCongruent block prime.toNat := by
  rw [validate]
  split
  · next error herror =>
      simp only [ValidationResult.isAccepted_rejectedFor, Bool.false_eq_true, false_iff, not_and]
      intro hidentity hstart hstop
      have hok : (do block.identity.validate; block.location.validate block.identity :
          Except Error Unit) = .ok () :=
        bind_eq_ok.mpr ⟨(), hidentity, BlockLocation.validate_eq_ok.mpr ⟨hstart, hstop⟩⟩
      rw [hok] at herror
      cases herror
  · next hok =>
      obtain ⟨_, hidentity, hlocation⟩ := bind_eq_ok.mp hok
      have hbounds := BlockLocation.validate_eq_ok.mp hlocation
      rw [ValidationResult.isAccepted_ofDiagnostics, List.flatMap_eq_nil_iff]
      constructor
      · intro h
        exact ⟨hidentity, hbounds.1, hbounds.2, fun prime hprime =>
          (primeDiagnostics_eq_nil hbounds.1 hprime).mp (h prime hprime)⟩
      · intro h prime hprime
        exact (primeDiagnostics_eq_nil hbounds.1 hprime).mpr (h.2.2.2 prime hprime)

end ModularPQTVerifier

end GiveMePi.Checkpoint
