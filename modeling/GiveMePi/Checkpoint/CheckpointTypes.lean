import GiveMePi.Chudnovsky.PrecisionPolicy
import Mathlib.Data.Prod.Lex

/-! # The identity of a computation and the place of a block in it -/

namespace GiveMePi.Checkpoint

open Chudnovsky (PrecisionPlan PrecisionPolicy.create)

/-- The code of an algorithm; a file may hold any 16-bit code. -/
structure AlgorithmId where
  code : UInt16
deriving DecidableEq, Repr

def AlgorithmId.chudnovskyBinarySplitting : AlgorithmId := ⟨1⟩

def arithmeticFormatVersion : UInt16 := 1

def binarySplittingFormulaVersion : UInt16 := 1

structure ComputationIdentity where
  algorithm : AlgorithmId
  arithmeticVersion : UInt16
  formulaVersion : UInt16
  requestedDigits : UInt64
  guardDigits : UInt32
  workingDigits : UInt64
  termCount : UInt64
deriving DecidableEq, Repr

namespace ComputationIdentity

def validate (identity : ComputationIdentity) : Except Error Unit := do
  throwIf (identity.algorithm ≠ AlgorithmId.chudnovskyBinarySplitting ∨
      identity.arithmeticVersion ≠ arithmeticFormatVersion ∨
      identity.formulaVersion ≠ binarySplittingFormulaVersion)
    (.invalidArgument "Unsupported checkpoint computation identity version")
  let expected ← PrecisionPolicy.create identity.requestedDigits identity.guardDigits
  throwIf (identity.workingDigits ≠ expected.workingDigits ∨
      identity.termCount ≠ expected.termCount)
    (.invalidArgument "Checkpoint identity does not match its precision policy")

def fromPrecisionPlan (plan : PrecisionPlan) : Except Error ComputationIdentity := do
  throwIf (plan.requestedDigits = 0 ∨ plan.guardDigits = 0)
    (.invalidArgument "Checkpoint precision digits must be non-zero")
  throwIf (plan.guardDigits.toUInt64 > uint64Max - plan.requestedDigits)
    (.overflowError "Checkpoint working digit calculation overflow")
  throwIf (plan.workingDigits ≠ plan.requestedDigits + plan.guardDigits.toUInt64)
    (.invalidArgument "Checkpoint working digits do not match the precision plan")
  throwIf (plan.termCount = 0)
    (.invalidArgument "Checkpoint term count must be non-zero")
  let identity : ComputationIdentity :=
    { algorithm := AlgorithmId.chudnovskyBinarySplitting
      arithmeticVersion := arithmeticFormatVersion
      formulaVersion := binarySplittingFormulaVersion
      requestedDigits := plan.requestedDigits
      guardDigits := plan.guardDigits
      workingDigits := plan.workingDigits
      termCount := plan.termCount }
  identity.validate
  pure identity

/-- An identity that `validate` accepts. -/
def IsValid (identity : ComputationIdentity) : Prop :=
  identity.validate = .ok ()

instance (identity : ComputationIdentity) : Decidable identity.IsValid :=
  inferInstanceAs (Decidable (_ = _))

/-- A valid identity has the term count of a plan of its digits. -/
theorem IsValid.create {identity : ComputationIdentity} (h : identity.IsValid) :
    ∃ plan, PrecisionPolicy.create identity.requestedDigits identity.guardDigits = .ok plan ∧
      identity.workingDigits = plan.workingDigits ∧ identity.termCount = plan.termCount := by
  simp only [IsValid, validate, bind_eq_ok, throwIf_eq_ok] at h
  obtain ⟨-, -, plan, hplan, hmatch⟩ := h
  rw [not_or, not_not, not_not] at hmatch
  exact ⟨plan, hplan, hmatch⟩

theorem IsValid.termCount_pos {identity : ComputationIdentity} (h : identity.IsValid) :
    0 < identity.termCount := by
  obtain ⟨plan, hplan, -, hcount⟩ := h.create
  have hterms := (Chudnovsky.PrecisionPolicy.create_eq_ok_iff.mp hplan).terms_eq
  rw [hcount, UInt64.lt_iff_toNat_lt, hterms]
  exact Nat.succ_pos _

/-- Identities are ordered by their fields, one after the other. -/
instance : LinearOrder ComputationIdentity :=
  LinearOrder.lift' (fun identity => toLex (identity.algorithm.code.toNat,
      toLex (identity.arithmeticVersion.toNat, toLex (identity.formulaVersion.toNat,
        toLex (identity.requestedDigits, toLex (identity.guardDigits,
          toLex (identity.workingDigits, identity.termCount)))))))
    (by
      rintro ⟨⟨code⟩, arithmetic, formula, requested, guard, working, terms⟩
        ⟨⟨code'⟩, arithmetic', formula', requested', guard', working', terms'⟩ h
      simp only [EmbeddingLike.apply_eq_iff_eq, Prod.mk.injEq, UInt16.toNat_inj] at h
      simpa using h)

/-- The identity of a plan is valid. -/
theorem fromPrecisionPlan_isValid {plan : PrecisionPlan} {identity : ComputationIdentity}
    (h : fromPrecisionPlan plan = .ok identity) :
    identity.IsValid ∧ identity.termCount = plan.termCount := by
  simp only [fromPrecisionPlan, bind_eq_ok, pure_eq_ok, Except.ok.injEq] at h
  obtain ⟨_, _, _, _, _, _, _, _, _, hvalid, hidentity⟩ := h
  exact ⟨hidentity ▸ hvalid, hidentity ▸ rfl⟩

end ComputationIdentity

structure BlockLocation where
  start : UInt64
  stop : UInt64
  treeLevel : UInt32
deriving DecidableEq, Repr

namespace BlockLocation

def validate (location : BlockLocation) (identity : ComputationIdentity) : Except Error Unit := do
  throwIf (location.start ≥ location.stop)
    (.invalidArgument "Checkpoint block range must be non-empty")
  throwIf (location.stop > identity.termCount)
    (.outOfRange "Checkpoint block range exceeds the computation term count")

def create (start stop : UInt64) (treeLevel : UInt32) (identity : ComputationIdentity) :
    Except Error BlockLocation := do
  let location : BlockLocation := ⟨start, stop, treeLevel⟩
  location.validate identity
  pure location

theorem validate_eq_ok {location : BlockLocation} {identity : ComputationIdentity} {u : Unit} :
    location.validate identity = .ok u ↔
      location.start < location.stop ∧ location.stop ≤ identity.termCount := by
  simp only [validate, bind_eq_ok, throwIf_eq_ok, ge_iff_le, gt_iff_lt, not_le, not_lt]
  constructor
  · rintro ⟨_, h⟩
    exact h
  · intro h
    exact ⟨(), h⟩

/-- Locations are ordered by start, then by end, then by tree level. -/
instance : LinearOrder BlockLocation :=
  LinearOrder.lift' (fun location => toLex (location.start, toLex (location.stop, location.treeLevel)))
    (by
      rintro ⟨start, stop, treeLevel⟩ ⟨start', stop', treeLevel'⟩ h
      simpa using h)

theorem lt_iff {left right : BlockLocation} :
    left < right ↔ left.start < right.start ∨ left.start = right.start ∧
      (left.stop < right.stop ∨ left.stop = right.stop ∧ left.treeLevel < right.treeLevel) := by
  change toLex (left.start, toLex (left.stop, left.treeLevel)) <
    toLex (right.start, toLex (right.stop, right.treeLevel)) ↔ _
  simp [Prod.Lex.toLex_lt_toLex]

end BlockLocation

end GiveMePi.Checkpoint
