import GiveMePi.Numeric
import GiveMePi.Verification.BBPHexDigit
import GiveMePi.Verification.DecimalHexDigit
import GiveMePi.Verification.VerificationManifest

/-! # The sample of hexadecimal positions

Positions that the decimal digits of an output determine safely: which of them are selected for a
check against the series, and why the interval of a digit is narrow at each of them. -/

namespace GiveMePi.Verification

open Library

/-- A policy for at most so many samples. -/
structure BBPSamplePolicy where
  maximumSamples : ℕ
  pos : 0 < maximumSamples
  le : maximumSamples ≤ maximumBBPSampleCount

namespace BBPSamplePolicy

def create (maximumSamples : ℕ) : Except Error BBPSamplePolicy :=
  if h : maximumSamples = 0 ∨ maximumSamples > maximumBBPSampleCount then
    throw (.invalidArgument "BBP sample count must be between 1 and 32")
  else
    pure ⟨maximumSamples, Nat.pos_of_ne_zero (not_or.mp h).1, not_lt.mp (not_or.mp h).2⟩

/-! ## Pseudo-random words -/

def mix (value : UInt64) : UInt64 :=
  let value := value + 0x9e3779b97f4a7c15
  let value := (value ^^^ (value >>> 30)) * 0xbf58476d1ce4e5b9
  let value := (value ^^^ (value >>> 27)) * 0x94d049bb133111eb
  value ^^^ (value >>> 31)

def identitySeed (identity : VerificationIdentity) : UInt64 :=
  let seed := mix identity.requestedDigits
  let seed := seed ^^^ mix (identity.guardDigits.toUInt64 + 0x100000001)
  let seed := seed ^^^ mix (identity.workingDigits + 0x200000003)
  let seed := seed ^^^ mix (identity.termCount + 0x300000007)
  mix seed

/-! ## Positions -/

/-- The part of a value that a fraction stands for, rounded down. -/
def fractionOf (value numerator denominator : UInt64) : UInt64 :=
  value / denominator * numerator + value % denominator * numerator / denominator

/-- The number of positions that are safe: 83 of 100 is below the logarithm of 10 to the base of 16, and
two decimal digits are kept in reserve. -/
def safePositionCount (requestedDigits : UInt64) : UInt64 :=
  if requestedDigits ≤ 2 then 0
  else
    let usable := requestedDigits - 2
    let precisionBound := usable / 100 * 83 + usable % 100 * 83 / 100
    min precisionBound (BBPHexDigitCalculator.maximumPosition + 1)

def addUnique (safeCount : UInt64) (maximumSamples : ℕ) (positions : List UInt64)
    (position : UInt64) : List UInt64 :=
  if position ≥ safeCount ∨ positions.length ≥ maximumSamples then positions
  else if position ∈ positions then positions
  else positions ++ [position]

/-- The loop over the attempts that are left. -/
def addDerived (safeCount : UInt64) (maximumSamples : ℕ) :
    ℕ → UInt64 → UInt64 → List UInt64 → List UInt64
  | 0, _, _, positions => positions
  | remaining + 1, attempt, state, positions =>
      if positions.length < maximumSamples then
        let state := mix (state + attempt)
        addDerived safeCount maximumSamples remaining (attempt + 1) state
          (addUnique safeCount maximumSamples positions (state % safeCount))
      else positions

/-- The loop over the positions that are left. -/
def probe (safeCount : UInt64) (maximumSamples : ℕ) : ℕ → UInt64 → List UInt64 → List UInt64
  | 0, _, positions => positions
  | remaining + 1, position, positions =>
      if positions.length < maximumSamples then
        probe safeCount maximumSamples remaining (position + 1)
          (addUnique safeCount maximumSamples positions position)
      else positions

def select (policy : BBPSamplePolicy) (identity : VerificationIdentity) : List UInt64 :=
  let safeCount := safePositionCount identity.requestedDigits
  if safeCount = 0 then []
  else
    let last := safeCount - 1
    let positions := [0, 1, 2].foldl (addUnique safeCount policy.maximumSamples) []
    let positions := [fractionOf last 1 4, fractionOf last 1 2, fractionOf last 3 4].foldl
      (addUnique safeCount policy.maximumSamples) positions
    let positions := addDerived safeCount policy.maximumSamples (policy.maximumSamples * 4) 0
      (identitySeed identity) positions
    let positions := probe safeCount policy.maximumSamples safeCount.toNat 0 positions
    positions.mergeSort fun left right => left ≤ right

/-! ## Arithmetic without overflow -/

/-- `fractionOf` with operations that must not overflow. -/
def fractionOf? (value numerator denominator : UInt64) : Option UInt64 := do
  let whole ← CheckedWord.mul (value / denominator) numerator
  let part ← CheckedWord.mul (value % denominator) numerator
  CheckedWord.add whole (part / denominator)

/-- `safePositionCount` with operations that must not overflow. -/
def safePositionCount? (requestedDigits : UInt64) : Option UInt64 :=
  if requestedDigits ≤ 2 then some 0
  else do
    let usable ← CheckedWord.sub requestedDigits 2
    let whole ← CheckedWord.mul (usable / 100) 83
    let part ← CheckedWord.mul (usable % 100) 83
    let precisionBound ← CheckedWord.add whole (part / 100)
    let limit ← CheckedWord.add BBPHexDigitCalculator.maximumPosition 1
    pure (min precisionBound limit)

/-- A part of a product, split at the integer part of a quotient. -/
theorem mul_div_split (value numerator denominator : ℕ) (hd : 0 < denominator) :
    value * numerator / denominator =
      value / denominator * numerator + value % denominator * numerator / denominator := by
  have hvalue : value * numerator =
      value % denominator * numerator + denominator * (value / denominator * numerator) := by
    conv_lhs => rw [← Nat.mod_add_div value denominator]
    ring
  rw [hvalue, Nat.add_mul_div_left _ _ hd, Nat.add_comm]

/-- A proper fraction of a word is computed without overflow. -/
theorem fractionOf_exact {value numerator denominator : UInt64} (hle : numerator ≤ denominator)
    (hd : 0 < denominator.toNat) (hsmall : denominator.toNat < 2 ^ 32) :
    fractionOf? value numerator denominator = some (fractionOf value numerator denominator) ∧
      (fractionOf value numerator denominator).toNat =
        value.toNat * numerator.toNat / denominator.toNat := by
  rw [UInt64.le_iff_toNat_le] at hle
  have hvalue := value.toNat_lt
  have hsplit := mul_div_split value.toNat numerator.toNat denominator.toNat hd
  have hfraction : value.toNat * numerator.toNat / denominator.toNat ≤ value.toNat := by
    refine Nat.div_le_of_le_mul ?_
    rw [Nat.mul_comm]
    exact Nat.mul_le_mul_right _ hle
  have hwhole : (value / denominator).toNat * numerator.toNat < 2 ^ 64 := by
    rw [UInt64.toNat_div]
    exact (Nat.le_add_right _ _).trans_lt (hsplit ▸ hfraction.trans_lt hvalue)
  have hpart : (value % denominator).toNat * numerator.toNat < 2 ^ 64 := by
    rw [UInt64.toNat_mod]
    calc value.toNat % denominator.toNat * numerator.toNat
        ≤ denominator.toNat * denominator.toNat :=
          Nat.mul_le_mul (Nat.mod_lt _ hd).le hle
      _ < 2 ^ 32 * 2 ^ 32 := Nat.mul_lt_mul'' hsmall hsmall
      _ = 2 ^ 64 := by norm_num
  have hwholeNat : (value / denominator * numerator).toNat =
      value.toNat / denominator.toNat * numerator.toNat := by
    rw [UInt64.toNat_mul, Nat.mod_eq_of_lt hwhole, UInt64.toNat_div]
  have hpartNat : (value % denominator * numerator / denominator).toNat =
      value.toNat % denominator.toNat * numerator.toNat / denominator.toNat := by
    rw [UInt64.toNat_div, UInt64.toNat_mul, Nat.mod_eq_of_lt hpart, UInt64.toNat_mod]
  have hsum : (value / denominator * numerator).toNat +
      (value % denominator * numerator / denominator).toNat < 2 ^ 64 := by
    rw [hwholeNat, hpartNat, ← hsplit]
    exact hfraction.trans_lt hvalue
  constructor
  · simp only [fractionOf?, CheckedWord.mul_eq hwhole, CheckedWord.mul_eq hpart, Option.bind_eq_bind,
      Option.bind_some, CheckedWord.add_eq hsum, fractionOf]
  · rw [fractionOf, toNat_add_of_lt hsum, hwholeNat, hpartNat, hsplit]

theorem quartile_exact (value : UInt64) :
    ∀ fraction ∈ [((1, 4) : UInt64 × UInt64), (1, 2), (3, 4)],
      fractionOf? value fraction.1 fraction.2 = some (fractionOf value fraction.1 fraction.2) ∧
        (fractionOf value fraction.1 fraction.2).toNat =
          value.toNat * fraction.1.toNat / fraction.2.toNat := by
  intro fraction hmem
  simp only [List.mem_cons, List.not_mem_nil, or_false] at hmem
  rcases hmem with rfl | rfl | rfl
  · exact fractionOf_exact (by decide) (by decide) (by decide)
  · exact fractionOf_exact (by decide) (by decide) (by decide)
  · exact fractionOf_exact (by decide) (by decide) (by decide)

theorem toNat_min (a b : UInt64) : (min a b).toNat = min a.toNat b.toNat := by
  rw [min_def, min_def]
  simp only [UInt64.le_iff_toNat_le]
  split <;> rfl

theorem maximumPosition_toNat : BBPHexDigitCalculator.maximumPosition.toNat = 2 ^ 61 - 66 := rfl

/-- The number of safe positions, computed without overflow. -/
theorem safePositionCount_exact (requestedDigits : UInt64) :
    safePositionCount? requestedDigits = some (safePositionCount requestedDigits) ∧
      (safePositionCount requestedDigits).toNat =
        min (83 * (requestedDigits.toNat - 2) / 100)
          (BBPHexDigitCalculator.maximumPosition.toNat + 1) := by
  have htwo : (2 : UInt64).toNat = 2 := rfl
  rw [safePositionCount?, safePositionCount]
  split
  · next hsmall =>
      rw [UInt64.le_iff_toNat_le, htwo] at hsmall
      simp [Nat.sub_eq_zero_of_le hsmall]
  · next hlarge =>
      have hle : (2 : UInt64) ≤ requestedDigits := (not_le.mp hlarge).le
      rcases @fractionOf_exact (requestedDigits - 2) 83 100 (by decide) (by decide) (by decide)
        with ⟨hchecked, hexact⟩
      rw [fractionOf?] at hchecked
      rw [UInt64.toNat_sub_of_le _ _ hle, htwo, Nat.mul_comm] at hexact
      have hlimit : CheckedWord.add BBPHexDigitCalculator.maximumPosition 1 =
          some (BBPHexDigitCalculator.maximumPosition + 1) := by decide
      constructor
      · simp only [CheckedWord.sub_eq hle, Option.bind_eq_bind, Option.bind_some, hlimit]
        simp only [Option.bind_eq_bind, Option.bind_eq_some_iff] at hchecked
        rcases hchecked with ⟨whole, hwhole, part, hpart, hsum⟩
        simp only [hwhole, hpart, hsum, Option.bind_some]
        rfl
      · rw [toNat_min]
        exact congrArg₂ min hexact rfl

/-! ## What is selected -/

section Selection

variable {safeCount : UInt64} {maximumSamples : ℕ} {positions : List UInt64} {position : UInt64}

/-- Safe positions, none of them twice, and not too many. -/
structure IsSelection (safeCount : UInt64) (maximumSamples : ℕ) (positions : List UInt64) : Prop where
  nodup : positions.Nodup
  lt : ∀ position ∈ positions, position < safeCount
  length_le : positions.length ≤ maximumSamples

theorem isSelection_nil : IsSelection safeCount maximumSamples [] where
  nodup := List.nodup_nil
  lt := by simp
  length_le := Nat.zero_le _

theorem addUnique_isSelection (h : IsSelection safeCount maximumSamples positions)
    (position : UInt64) :
    IsSelection safeCount maximumSamples (addUnique safeCount maximumSamples positions position) := by
  rw [addUnique]
  split
  · exact h
  · next hroom =>
      rw [not_or, ge_iff_le, ge_iff_le, not_le, not_le] at hroom
      split
      · exact h
      · next hfresh =>
          constructor
          · rw [List.nodup_append]
            refine ⟨h.nodup, List.nodup_singleton _, fun other hother last hlast heq => ?_⟩
            rw [List.mem_singleton] at hlast
            exact hfresh (hlast ▸ heq ▸ hother)
          · rw [List.forall_mem_append, List.forall_mem_singleton]
            exact ⟨h.lt, hroom.1⟩
          · rw [List.length_append, List.length_singleton]
            exact hroom.2

theorem subset_addUnique (positions : List UInt64) (position : UInt64) :
    positions ⊆ addUnique safeCount maximumSamples positions position := by
  rw [addUnique]
  split
  · exact List.Subset.refl _
  · split
    · exact List.Subset.refl _
    · exact List.subset_append_left _ _

theorem mem_addUnique (hsafe : position < safeCount) (hroom : positions.length < maximumSamples) :
    position ∈ addUnique safeCount maximumSamples positions position := by
  rw [addUnique, if_neg (by simp [hsafe, hroom])]
  split
  · next hmem => exact hmem
  · simp

theorem length_addUnique_le (positions : List UInt64) (position : UInt64) :
    (addUnique safeCount maximumSamples positions position).length ≤ positions.length + 1 := by
  rw [addUnique]
  split
  · exact Nat.le_succ _
  · split
    · exact Nat.le_succ _
    · simp

/-- A list of positions one after the other. -/
theorem foldl_addUnique (h : IsSelection safeCount maximumSamples positions)
    (others : List UInt64) :
    IsSelection safeCount maximumSamples
        (others.foldl (addUnique safeCount maximumSamples) positions) ∧
      positions ⊆ others.foldl (addUnique safeCount maximumSamples) positions := by
  induction others generalizing positions with
  | nil => exact ⟨h, List.Subset.refl _⟩
  | cons other rest ih =>
      rcases ih (addUnique_isSelection h other) with ⟨hselection, hsubset⟩
      exact ⟨hselection, List.Subset.trans (subset_addUnique positions other) hsubset⟩

/-- A safe position is selected if there is room for it and those before it. -/
theorem mem_foldl_addUnique {others : List UInt64} {index : ℕ}
    (h : IsSelection safeCount maximumSamples positions) (hindex : others[index]? = some position)
    (hsafe : position < safeCount) (hroom : positions.length + index < maximumSamples) :
    position ∈ others.foldl (addUnique safeCount maximumSamples) positions := by
  induction others generalizing positions index with
  | nil => simp at hindex
  | cons other rest ih =>
      have hnext := addUnique_isSelection h other
      cases index with
      | zero =>
          rw [List.getElem?_cons_zero, Option.some.injEq] at hindex
          subst hindex
          exact (foldl_addUnique hnext rest).2 (mem_addUnique hsafe hroom)
      | succ index =>
          rw [List.getElem?_cons_succ] at hindex
          refine ih hnext hindex ?_
          have hlength := @length_addUnique_le safeCount maximumSamples positions other
          omega

theorem addDerived_isSelection (h : IsSelection safeCount maximumSamples positions)
    (remaining : ℕ) (attempt state : UInt64) :
    IsSelection safeCount maximumSamples
        (addDerived safeCount maximumSamples remaining attempt state positions) ∧
      positions ⊆ addDerived safeCount maximumSamples remaining attempt state positions := by
  induction remaining generalizing attempt state positions with
  | zero => exact ⟨h, List.Subset.refl _⟩
  | succ remaining ih =>
      rw [addDerived]
      split
      · rcases ih (addUnique_isSelection h (mix (state + attempt) % safeCount)) (attempt + 1)
          (mix (state + attempt)) with ⟨hselection, hsubset⟩
        exact ⟨hselection, List.Subset.trans (subset_addUnique positions _) hsubset⟩
      · exact ⟨h, List.Subset.refl _⟩

theorem probe_isSelection (h : IsSelection safeCount maximumSamples positions) (remaining : ℕ)
    (position : UInt64) :
    IsSelection safeCount maximumSamples
        (probe safeCount maximumSamples remaining position positions) ∧
      positions ⊆ probe safeCount maximumSamples remaining position positions := by
  induction remaining generalizing position positions with
  | zero => exact ⟨h, List.Subset.refl _⟩
  | succ remaining ih =>
      rw [probe]
      split
      · rcases ih (addUnique_isSelection h position) (position + 1) with ⟨hselection, hsubset⟩
        exact ⟨hselection, List.Subset.trans (subset_addUnique positions _) hsubset⟩
      · exact ⟨h, List.Subset.refl _⟩

/-- Probing ends with as many samples as are wanted, or with every safe position. -/
theorem probe_complete (h : IsSelection safeCount maximumSamples positions) {remaining : ℕ}
    (hremaining : position.toNat + remaining = safeCount.toNat)
    (hcovered : ∀ other < position, other ∈ positions) :
    (probe safeCount maximumSamples remaining position positions).length = maximumSamples ∨
      ∀ other < safeCount, other ∈ probe safeCount maximumSamples remaining position positions := by
  induction remaining generalizing position positions with
  | zero =>
      have heq : position = safeCount := UInt64.toNat_inj.mp hremaining
      exact .inr fun other hlt => hcovered other (heq ▸ hlt)
  | succ remaining ih =>
      rw [probe]
      split
      · next hroom =>
          have hone : (1 : UInt64).toNat = 1 := rfl
          have hsafeCount := safeCount.toNat_lt
          have hnext : (position + 1).toNat = position.toNat + 1 :=
            toNat_add_of_lt (by rw [hone]; omega)
          have hsafe : position < safeCount := by
            rw [UInt64.lt_iff_toNat_lt]
            omega
          refine ih (addUnique_isSelection h position) (by omega) fun other hlt => ?_
          rw [UInt64.lt_iff_toNat_lt, hnext] at hlt
          rcases Nat.lt_succ_iff_lt_or_eq.mp hlt with hbefore | heq
          · exact subset_addUnique _ _ (hcovered other (UInt64.lt_iff_toNat_lt.mpr hbefore))
          · rw [UInt64.toNat_inj.mp heq]
            exact mem_addUnique hsafe hroom
      · next hfull => exact .inl (le_antisymm h.length_le (not_lt.mp hfull))

theorem IsSelection.length_eq (h : IsSelection safeCount maximumSamples positions)
    (hcomplete : positions.length = maximumSamples ∨ ∀ other < safeCount, other ∈ positions) :
    positions.length = min maximumSamples safeCount.toNat := by
  have hsafe : positions.length ≤ safeCount.toNat := by
    have hnodup : (positions.map UInt64.toNat).Nodup :=
      h.nodup.map fun _ _ heq => UInt64.toNat_inj.mp heq
    have hsubset : positions.map UInt64.toNat ⊆ List.range safeCount.toNat := by
      intro n hn
      rcases List.mem_map.mp hn with ⟨other, hmem, rfl⟩
      exact List.mem_range.mpr (UInt64.lt_iff_toNat_lt.mp (h.lt other hmem))
    simpa using (hnodup.subperm hsubset).length_le
  rcases hcomplete with hfull | hall
  · omega
  · have hrange : List.range safeCount.toNat ⊆ positions.map UInt64.toNat := by
      intro n hn
      have hlt := List.mem_range.mp hn
      have hword : (UInt64.ofNat n).toNat = n :=
        UInt64.toNat_ofNat_of_lt (hlt.trans safeCount.toNat_lt)
      refine List.mem_map.mpr ⟨UInt64.ofNat n, hall _ ?_, hword⟩
      rw [UInt64.lt_iff_toNat_lt, hword]
      exact hlt
    have hcount := (List.nodup_range.subperm hrange).length_le
    rw [List.length_range, List.length_map] at hcount
    have hmaximum := h.length_le
    omega

end Selection

/-- Before they are sorted, the positions are as many as possible, the first ones among them. -/
theorem exists_selection (policy : BBPSamplePolicy) {identity : VerificationIdentity}
    (hsafe : safePositionCount identity.requestedDigits ≠ 0) :
    ∃ positions, policy.select identity = positions.mergeSort (fun left right => left ≤ right) ∧
      IsSelection (safePositionCount identity.requestedDigits) policy.maximumSamples positions ∧
      (positions.length = policy.maximumSamples ∨
        ∀ other < safePositionCount identity.requestedDigits, other ∈ positions) ∧
      ∀ position ∈ [0, 1, 2], position.toNat < min policy.maximumSamples
        (safePositionCount identity.requestedDigits).toNat → position ∈ positions := by
  rw [select]
  simp only [if_neg hsafe]
  generalize safePositionCount identity.requestedDigits = safeCount at hsafe ⊢
  obtain ⟨early, hearly⟩ : ∃ early, early =
      [0, 1, 2].foldl (addUnique safeCount policy.maximumSamples) [] := ⟨_, rfl⟩
  have hfirst : ∀ position ∈ [0, 1, 2], position.toNat <
      min policy.maximumSamples safeCount.toNat → position ∈ early := by
    intro position hmem hlt
    rw [lt_min_iff] at hlt
    have hindex : ([0, 1, 2] : List UInt64)[position.toNat]? = some position := by
      simp only [List.mem_cons, List.not_mem_nil, or_false] at hmem
      rcases hmem with rfl | rfl | rfl <;> rfl
    rw [hearly]
    exact mem_foldl_addUnique isSelection_nil hindex (UInt64.lt_iff_toNat_lt.mpr hlt.2)
      (by simpa using hlt.1)
  have hstart := (@foldl_addUnique safeCount policy.maximumSamples [] isSelection_nil [0, 1, 2]).1
  rw [← hearly] at hstart ⊢
  rcases foldl_addUnique hstart
    [fractionOf (safeCount - 1) 1 4, fractionOf (safeCount - 1) 1 2, fractionOf (safeCount - 1) 3 4]
    with ⟨hquartiles, hearlyIn⟩
  rcases addDerived_isSelection hquartiles (policy.maximumSamples * 4) 0 (identitySeed identity)
    with ⟨hderived, hquartilesIn⟩
  rcases probe_isSelection hderived safeCount.toNat 0 with ⟨hprobed, hderivedIn⟩
  refine ⟨_, rfl, hprobed, probe_complete hderived (by simp) (by simp), ?_⟩
  intro position hmem hlt
  exact hderivedIn (hquartilesIn (hearlyIn (hfirst position hmem hlt)))

/-- What is selected is sorted. -/
theorem select_isSelection (policy : BBPSamplePolicy) (identity : VerificationIdentity) :
    IsSelection (safePositionCount identity.requestedDigits) policy.maximumSamples
        (policy.select identity) ∧
      (policy.select identity).Pairwise (· < ·) := by
  by_cases hsafe : safePositionCount identity.requestedDigits = 0
  · have hnone : policy.select identity = [] := by
      rw [select]
      simp only [if_pos hsafe]
    rw [hnone]
    exact ⟨isSelection_nil, List.Pairwise.nil⟩
  · obtain ⟨positions, hselect, hselection, -, -⟩ := exists_selection policy hsafe
    have hperm : (policy.select identity).Perm positions := hselect ▸ List.mergeSort_perm _ _
    have hnodup := hperm.nodup_iff.mpr hselection.nodup
    refine ⟨⟨hnodup, fun position hmem => hselection.lt position (hperm.mem_iff.mp hmem), ?_⟩, ?_⟩
    · rw [hperm.length_eq]
      exact hselection.length_le
    · have hsorted : (policy.select identity).Pairwise (· ≤ ·) :=
        hselect ▸ List.pairwise_mergeSort' (· ≤ ·) positions
      exact hsorted.imp₂ (fun _ _ hle hne => lt_of_le_of_ne hle hne) hnodup

/-- The selection is sorted and without duplicates, every position of it is safe, none is missing, and
the first positions are among them. No fraction of a safe position overflows. -/
theorem select_exact (policy : BBPSamplePolicy) (identity : VerificationIdentity) :
    (policy.select identity).Pairwise (· < ·) ∧
      (∀ position ∈ policy.select identity,
        position < safePositionCount identity.requestedDigits) ∧
      (policy.select identity).length =
        min policy.maximumSamples (safePositionCount identity.requestedDigits).toNat ∧
      (∀ position ∈ [0, 1, 2], position.toNat <
          min policy.maximumSamples (safePositionCount identity.requestedDigits).toNat →
        position ∈ policy.select identity) ∧
      ∀ value < safePositionCount identity.requestedDigits,
        ∀ fraction ∈ [((1, 4) : UInt64 × UInt64), (1, 2), (3, 4)],
          fractionOf? value fraction.1 fraction.2 = some (fractionOf value fraction.1 fraction.2) ∧
            (fractionOf value fraction.1 fraction.2).toNat =
              value.toNat * fraction.1.toNat / fraction.2.toNat := by
  have hfractions : ∀ value < safePositionCount identity.requestedDigits, _ :=
    fun value _ => quartile_exact value
  by_cases hsafe : safePositionCount identity.requestedDigits = 0
  · have hnone : policy.select identity = [] := by
      rw [select]
      simp only [if_pos hsafe]
    rw [hnone, hsafe]
    exact ⟨List.Pairwise.nil, by simp, by simp, by simp, hsafe ▸ hfractions⟩
  · rcases exists_selection policy hsafe with ⟨positions, hselect, hselection, hcomplete, hearly⟩
    have hmem : ∀ position, position ∈ policy.select identity ↔ position ∈ positions := by
      intro position
      rw [hselect, (List.mergeSort_perm _ _).mem_iff]
    refine ⟨?_, ?_, ?_, ?_, hfractions⟩
    · have hsorted := @List.pairwise_mergeSort UInt64 (fun left right => decide (left ≤ right))
        (by
          intro a b c hab hbc
          simp only [decide_eq_true_eq] at hab hbc ⊢
          exact hab.trans hbc)
        (by
          intro a b
          simpa using le_total a b) positions
      have hnodup : (positions.mergeSort fun left right => decide (left ≤ right)).Nodup :=
        (List.mergeSort_perm _ _).nodup_iff.mpr hselection.nodup
      rw [hselect]
      refine (hsorted.and hnodup).imp fun {left right} h => ?_
      exact lt_of_le_of_ne (of_decide_eq_true h.1) h.2
    · intro position hposition
      exact hselection.lt position ((hmem position).mp hposition)
    · rw [hselect, List.length_mergeSort]
      exact hselection.length_eq hcomplete
    · intro position hposition hlt
      exact (hmem position).mpr (hearly position hposition hlt)

/-! ## What is safe -/

/-- A hundred decimal digits are more than 83 hexadecimal ones. -/
theorem pow_le_of_safe {digits hexDigits : ℕ} (h : hexDigits ≤ 83 * digits / 100) :
    16 ^ hexDigits ≤ 10 ^ digits := by
  have hscaled : 100 * hexDigits ≤ 83 * digits := by omega
  refine (Nat.pow_le_pow_iff_left (by decide : (100 : ℕ) ≠ 0)).mp ?_
  calc (16 ^ hexDigits) ^ 100 = 16 ^ (100 * hexDigits) := by rw [← pow_mul, Nat.mul_comm]
    _ ≤ 16 ^ (83 * digits) := Nat.pow_le_pow_right (by decide) hscaled
    _ = (16 ^ 83) ^ digits := pow_mul _ _ _
    _ ≤ (10 ^ 100) ^ digits := Nat.pow_le_pow_left (by norm_num) _
    _ = (10 ^ digits) ^ 100 := by rw [← pow_mul, ← pow_mul, Nat.mul_comm]

/-- A safe position has more decimal digits than it needs, and is one of the series. -/
theorem safe_of_lt {requestedDigits position : UInt64}
    (h : position < safePositionCount requestedDigits) :
    16 ^ (position.toNat + 1) ≤ 10 ^ (requestedDigits.toNat - 2) ∧
      position ≤ BBPHexDigitCalculator.maximumPosition ∧ 2 ≤ requestedDigits.toNat := by
  rw [UInt64.lt_iff_toNat_lt, (safePositionCount_exact requestedDigits).2, lt_min_iff] at h
  refine ⟨pow_le_of_safe h.1, ?_, by omega⟩
  rw [UInt64.le_iff_toNat_le]
  exact Nat.lt_succ_iff.mp h.2

/-- The positions counted are safe, and the interval of the digit at a selected position is narrow. -/
theorem safePositionCount_safe (requestedDigits : UInt64) :
    safePositionCount? requestedDigits = some (safePositionCount requestedDigits) ∧
      (safePositionCount requestedDigits).toNat =
        min (83 * (requestedDigits.toNat - 2) / 100)
          (BBPHexDigitCalculator.maximumPosition.toNat + 1) ∧
      (∀ position < safePositionCount requestedDigits,
        16 ^ (position.toNat + 1) ≤ 10 ^ (requestedDigits.toNat - 2) ∧
          position ≤ BBPHexDigitCalculator.maximumPosition) ∧
      ∀ (policy : BBPSamplePolicy) (identity : VerificationIdentity)
        (extractor : DecimalHexDigitExtractor), identity.requestedDigits = requestedDigits →
        extractor.requestedDigits = requestedDigits → ∀ position ∈ policy.select identity,
          (2 : ℝ) ^ (DecimalHexDigitExtractor.shift position).toNat /
              (extractor.denominator * 2 ^ 1) = 16 ^ (position.toNat + 1) * extractor.halfUnit ∧
            16 ^ (position.toNat + 1) * extractor.halfUnit ≤ 1 / 200 := by
  rcases safePositionCount_exact requestedDigits with ⟨hchecked, hexact⟩
  refine ⟨hchecked, hexact, fun position hlt => ?_, ?_⟩
  · exact ⟨(safe_of_lt hlt).1, (safe_of_lt hlt).2.1⟩
  · intro policy identity extractor hidentity hextractor position hmem
    have hlt := (select_exact policy identity).2.1 position hmem
    rw [hidentity] at hlt
    rcases safe_of_lt hlt with ⟨hpow, hmaximum, hdigits⟩
    have hshift : (DecimalHexDigitExtractor.shift position).toNat = 4 * (position.toNat + 1) := by
      rw [UInt64.le_iff_toNat_le, maximumPosition_toNat] at hmaximum
      have hone : (1 : UInt64).toNat = 1 := rfl
      have hfour : (4 : UInt64).toNat = 4 := rfl
      rw [DecimalHexDigitExtractor.shift, UInt64.toNat_mul,
        toNat_add_of_lt (by rw [hone]; omega), hone, hfour]
      omega
    have hscale : (2 : ℝ) ^ (4 * (position.toNat + 1)) = 16 ^ (position.toNat + 1) := by
      rw [pow_mul]
      norm_num
    have htotal : (10 : ℝ) ^ requestedDigits.toNat = 10 ^ (requestedDigits.toNat - 2) * 100 := by
      have hsplit : requestedDigits.toNat = requestedDigits.toNat - 2 + 2 := by omega
      conv_lhs => rw [hsplit, pow_add]
      norm_num
    have hreal : (16 : ℝ) ^ (position.toNat + 1) ≤ 10 ^ (requestedDigits.toNat - 2) := by
      exact_mod_cast hpow
    have hpos : (0 : ℝ) < 10 ^ (requestedDigits.toNat - 2) := by positivity
    constructor
    · rw [hshift, hscale, extractor.denominator_eq, DecimalHexDigitExtractor.halfUnit_eq]
      push_cast
      field_simp
    · rw [DecimalHexDigitExtractor.halfUnit_eq, hextractor, htotal]
      have hquotient := div_le_one_of_le₀ hreal hpos.le
      calc (16 : ℝ) ^ (position.toNat + 1) *
            (1 / 2 * (1 / (10 ^ (requestedDigits.toNat - 2) * 100)))
          = 16 ^ (position.toNat + 1) / 10 ^ (requestedDigits.toNat - 2) * (1 / 200) := by
            field_simp
            norm_num
        _ ≤ 1 * (1 / 200) := by gcongr
        _ = 1 / 200 := one_mul _

theorem safePositionCount_safe_ten :
    safePositionCount? 10 = some (safePositionCount 10) ∧
      (safePositionCount 10).toNat =
        min (83 * (10 - 2) / 100) (BBPHexDigitCalculator.maximumPosition.toNat + 1) ∧
      (∀ position < safePositionCount 10, 16 ^ (position.toNat + 1) ≤ 10 ^ (10 - 2) ∧
        position ≤ BBPHexDigitCalculator.maximumPosition) ∧
      ∀ (policy : BBPSamplePolicy) (identity : VerificationIdentity)
        (extractor : DecimalHexDigitExtractor), identity.requestedDigits = 10 →
        extractor.requestedDigits = 10 → ∀ position ∈ policy.select identity,
          (2 : ℝ) ^ (DecimalHexDigitExtractor.shift position).toNat /
              (extractor.denominator * 2 ^ 1) = 16 ^ (position.toNat + 1) * extractor.halfUnit ∧
            16 ^ (position.toNat + 1) * extractor.halfUnit ≤ 1 / 200 :=
  safePositionCount_safe 10

end BBPSamplePolicy

end GiveMePi.Verification
