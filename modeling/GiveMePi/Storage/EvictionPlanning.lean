import GiveMePi.Library.PrefixChoice
import GiveMePi.Storage.ReliableManager
import Mathlib.Order.Basic

/-! # The planning of evictions

Which resident chunks a store would evict, for distances from any linear order; the numbers of the
program that are not finite are left out. The size of a stored file is a parameter. -/

namespace GiveMePi.Storage.ChunkStore

open Library
open StorageManager (saturatingAdd)

variable {D : Type}

structure EvictionCandidate (D : Type) where
  chunkId : Bytes
  uncompressedSize : UInt64
  storedSize : UInt64
  evictionScore : D
  mergeDistance : D
  reason : Option String
deriving DecidableEq, Repr

structure EvictionPlan (D : Type) where
  candidates : List (EvictionCandidate D)
  evictedBytes : UInt64
  evictedStoredBytes : UInt64
  budgetSatisfied : Bool
  reason : Option String
deriving DecidableEq, Repr

def EvictionPlan.updateBudgetStatus (plan : EvictionPlan D) (current budget : UInt64) :
    EvictionPlan D :=
  if current ≥ budget then { plan with budgetSatisfied := true, reason := none }
  else
    { plan with
      budgetSatisfied := false
      reason := some "eviction plan did not free enough resident bytes" }

/-- The loop of `evictUntilBudgetSatisfied`, with what has been evicted before. -/
def evictLoop (neededBytes : UInt64) :
    UInt64 × UInt64 → List (EvictionCandidate D) → List (EvictionCandidate D) × UInt64 × UInt64
  | evicted, [] => ([], evicted)
  | evicted, candidate :: rest =>
      if evicted.1 ≥ neededBytes then ([], evicted)
      else
        let taken := evictLoop neededBytes
          (saturatingAdd evicted.1 candidate.uncompressedSize,
            saturatingAdd evicted.2 candidate.storedSize) rest
        (candidate :: taken.1, taken.2)

def EvictionPlan.evictUntilBudgetSatisfied (plan : EvictionPlan D) (neededBytes : UInt64) :
    EvictionPlan D :=
  let taken := evictLoop neededBytes (0, 0) plan.candidates
  { plan with
    candidates := taken.1
    evictedBytes := taken.2.1
    evictedStoredBytes := taken.2.2 }

/-- The plan for the candidates in the resident set. -/
def EvictionPlan.choose (resident : List (EvictionCandidate D)) (neededBytes : UInt64) :
    EvictionPlan D :=
  let plan := EvictionPlan.evictUntilBudgetSatisfied ⟨resident, 0, 0, false, none⟩ neededBytes
  let plan := plan.updateBudgetStatus plan.evictedBytes neededBytes
  if ¬ plan.budgetSatisfied ∧ plan.reason.isNone then
    { plan with reason := some "resident candidates cannot satisfy requested eviction bytes" }
  else plan

/-! ## The selection -/

/-- What is chosen, and whether it is enough; the last reason of a plan is never given. -/
theorem choose_eq (resident : List (EvictionCandidate D)) (neededBytes : UInt64) :
    (EvictionPlan.choose resident neededBytes).candidates =
        (evictLoop neededBytes (0, 0) resident).1 ∧
      (EvictionPlan.choose resident neededBytes).budgetSatisfied =
        decide ((evictLoop neededBytes (0, 0) resident).2.1 ≥ neededBytes) := by
  simp only [EvictionPlan.choose, EvictionPlan.evictUntilBudgetSatisfied,
    EvictionPlan.updateBudgetStatus]
  by_cases henough : (evictLoop neededBytes (0, 0) resident).2.1 ≥ neededBytes
  · simp [henough]
  · simp [henough]

variable [LinearOrder D]

/-- Whether one candidate may come before another in the sorted list. -/
def EvictionCandidate.before (left right : EvictionCandidate D) : Bool :=
  if left.mergeDistance ≠ right.mergeDistance then left.mergeDistance > right.mergeDistance
  else if left.uncompressedSize ≠ right.uncompressedSize then
    left.uncompressedSize > right.uncompressedSize
  else left.chunkId ≤ right.chunkId

/-- Farther first, then larger, then by name. -/
def EvictionCandidate.Precedes (left right : EvictionCandidate D) : Prop :=
  left.mergeDistance > right.mergeDistance ∨ left.mergeDistance = right.mergeDistance ∧
    (left.uncompressedSize > right.uncompressedSize ∨
      left.uncompressedSize = right.uncompressedSize ∧ left.chunkId < right.chunkId)

namespace EvictionCandidate

variable {left right : EvictionCandidate D}

theorem Precedes.asymm (h : left.Precedes right) : ¬ right.Precedes left := by
  intro h'
  rcases h with hdistance | ⟨hdistance, hsize | ⟨hsize, hname⟩⟩
  · rcases h' with hback | ⟨hback, -⟩
    · exact lt_asymm hdistance hback
    · exact absurd hback hdistance.ne
  · rcases h' with hback | ⟨-, hback | ⟨hback, -⟩⟩
    · exact absurd hdistance hback.ne
    · exact UInt64.lt_asymm hsize hback
    · exact UInt64.ne_of_lt hsize hback
  · rcases h' with hback | ⟨-, hback | ⟨-, hback⟩⟩
    · exact absurd hdistance hback.ne
    · exact UInt64.ne_of_lt hback hsize
    · exact List.lt_asymm hname hback

end EvictionCandidate

/-! ## Plans -/

variable [Zero D] (fileSize : Bytes → Option UInt64) (mergeDistanceMap : Bytes → Option D)

/-- The loop over the resident chunks, after those whose names are in `seen`. -/
def collectCandidates :
    List (Bytes × UInt64) → List Bytes → Except Error (List (EvictionCandidate D))
  | [], _ => pure []
  | (id, bytes) :: rest, seen => do
      throwIf (id ∈ seen) (.invalidArgument "duplicate resident chunk id")
      let distance := (mergeDistanceMap id).getD 0
      throwIf (distance < 0) (.invalidArgument "merge distance must be finite and non-negative")
      let candidates ← collectCandidates rest (id :: seen)
      if distance = 0 ∨ bytes = 0 then pure candidates
      else
        pure (⟨id, bytes, (fileSize id).getD bytes, distance, distance,
          some "not_immediately_needed"⟩ :: candidates)

def getEvictionCandidates (residentChunks : List (Bytes × UInt64)) (budget : UInt64) :
    Except Error (List (EvictionCandidate D)) := do
  throwIf (budget = 0) (.invalidArgument "eviction budget must be greater than zero")
  let result ← collectCandidates fileSize mergeDistanceMap residentChunks []
  pure (result.mergeSort EvictionCandidate.before)

def planEvictions (memoryBudgetBytes : UInt64) (residentChunks : List (Bytes × UInt64))
    (residentSet : Finset Bytes) (neededBytes : UInt64) : Except Error (EvictionPlan D) := do
  let candidates ← getEvictionCandidates fileSize mergeDistanceMap residentChunks memoryBudgetBytes
  let resident := candidates.filter fun candidate => candidate.chunkId ∈ residentSet
  pure (EvictionPlan.choose resident neededBytes)

/-! ## What a plan is for -/

/-- The candidate a resident chunk stands for. -/
def candidateOf (chunk : Bytes × UInt64) : EvictionCandidate D where
  chunkId := chunk.1
  uncompressedSize := chunk.2
  storedSize := (fileSize chunk.1).getD chunk.2
  evictionScore := (mergeDistanceMap chunk.1).getD 0
  mergeDistance := (mergeDistanceMap chunk.1).getD 0
  reason := some "not_immediately_needed"

/-- The candidates in their order: each resident chunk with a positive distance and size, once. -/
structure IsRanking (residentChunks : List (Bytes × UInt64)) (residentSet : Finset Bytes)
    (ranking : List (EvictionCandidate D)) : Prop where
  sorted : ranking.Pairwise EvictionCandidate.Precedes
  mem_iff : ∀ candidate, candidate ∈ ranking ↔ ∃ chunk ∈ residentChunks,
    chunk.1 ∈ residentSet ∧ 0 < (mergeDistanceMap chunk.1).getD 0 ∧ 0 < chunk.2 ∧
      candidateOf fileSize mergeDistanceMap chunk = candidate

/-! ## The candidates -/

variable {fileSize mergeDistanceMap}

variable {residentChunks : List (Bytes × UInt64)} {residentSet : Finset Bytes}
  {memoryBudgetBytes neededBytes : UInt64}

/-- Only one list ranks the candidates. -/
theorem IsRanking.unique {other : List (Bytes × UInt64)} {ranking ranking' : List (EvictionCandidate D)}
    (hperm : other.Perm residentChunks)
    (h : IsRanking fileSize mergeDistanceMap residentChunks residentSet ranking)
    (h' : IsRanking fileSize mergeDistanceMap other residentSet ranking') : ranking' = ranking := by
  have hnodup {ranking : List (EvictionCandidate D)}
      (hsorted : ranking.Pairwise EvictionCandidate.Precedes) : ranking.Nodup := by
    refine hsorted.imp ?_
    rintro candidate other hprecedes rfl
    exact hprecedes.asymm hprecedes
  refine List.Perm.eq_of_pairwise (fun _ _ _ _ hab hba => absurd hba hab.asymm) h'.sorted h.sorted
    ((List.perm_ext_iff_of_nodup (hnodup h'.sorted) (hnodup h.sorted)).mpr fun candidate => ?_)
  rw [h'.mem_iff, h.mem_iff]
  simp only [hperm.mem_iff]

/-! ## Plans of evictions -/

/-- What the model of the storage manager keeps of a candidate and of a plan. -/
def EvictionCandidate.forget (candidate : EvictionCandidate ℕ) : StorageManager.EvictionCandidate :=
  ⟨candidate.chunkId, candidate.uncompressedSize, candidate.mergeDistance⟩

def EvictionPlan.forget (plan : EvictionPlan ℕ) : StorageManager.EvictionPlan :=
  ⟨plan.candidates.map EvictionCandidate.forget, plan.budgetSatisfied⟩

section Forget

variable {distances : Bytes → Option ℕ}

theorem collectCandidates_forget (fileSize : Bytes → Option UInt64)
    (residentChunks : List (Bytes × UInt64)) (seen : List Bytes) :
    StorageManager.collectCandidates distances residentChunks seen =
      (collectCandidates fileSize distances residentChunks seen).map
        (List.map EvictionCandidate.forget) := by
  induction residentChunks generalizing seen with
  | nil => rfl
  | cons chunk rest ih =>
      rw [StorageManager.collectCandidates, collectCandidates]
      by_cases hseen : chunk.1 ∈ seen
      · rw [throwIf_pos hseen]
        rfl
      · rw [throwIf_neg hseen, ok_bind, ok_bind]
        dsimp only
        rw [throwIf_neg (Nat.not_lt_zero _), ok_bind, ih]
        cases collectCandidates fileSize distances rest (chunk.1 :: seen) with
        | error error => rfl
        | ok candidates =>
            by_cases hskip : (distances chunk.1).getD 0 = 0 ∨ chunk.2 = 0
            · simp [hskip, Except.map]
            · simp [hskip, Except.map, EvictionCandidate.forget]

theorem evictLoop_forget (neededBytes : UInt64) (evicted : UInt64 × UInt64)
    (candidates : List (EvictionCandidate ℕ)) :
    StorageManager.evictUntilBudgetSatisfied neededBytes
        (candidates.map EvictionCandidate.forget) evicted.1 =
      ((evictLoop neededBytes evicted candidates).1.map EvictionCandidate.forget,
        (evictLoop neededBytes evicted candidates).2.1) := by
  induction candidates generalizing evicted with
  | nil => rfl
  | cons candidate rest ih =>
      rw [List.map_cons, StorageManager.evictUntilBudgetSatisfied, evictLoop]
      by_cases henough : evicted.1 ≥ neededBytes
      · simp [henough]
      · have hrest := ih (saturatingAdd evicted.1 candidate.uncompressedSize,
          saturatingAdd evicted.2 candidate.storedSize)
        have hsize : candidate.forget.uncompressedSize = candidate.uncompressedSize := rfl
        simp [henough, hsize, hrest]

/-- The manager plans what its store plans. -/
theorem planEvictions_forget (memoryBudgetBytes : UInt64) (residentChunks : List (Bytes × UInt64))
    (residentSet : List Bytes) (neededBytes : UInt64) :
    StorageManager.planEvictions residentChunks residentSet distances memoryBudgetBytes neededBytes =
      (planEvictions fileSize distances memoryBudgetBytes residentChunks residentSet.toFinset
        neededBytes).map EvictionPlan.forget := by
  rw [StorageManager.planEvictions, StorageManager.getEvictionCandidates, planEvictions,
    getEvictionCandidates]
  by_cases hbudget : memoryBudgetBytes = 0
  · rw [throwIf_pos hbudget]
    rfl
  · rw [throwIf_neg hbudget, ok_bind, ok_bind, collectCandidates_forget fileSize]
    cases collectCandidates fileSize distances residentChunks [] with
    | error error => rfl
    | ok candidates =>
        have hsort : (candidates.map EvictionCandidate.forget).mergeSort
            StorageManager.EvictionCandidate.before =
              (candidates.mergeSort EvictionCandidate.before).map EvictionCandidate.forget :=
          (List.map_mergeSort (r := EvictionCandidate.before)
            (s := StorageManager.EvictionCandidate.before) fun _ _ _ _ => rfl).symm
        have hfilter : ((candidates.mergeSort EvictionCandidate.before).map
            EvictionCandidate.forget).filter (fun candidate => decide (candidate.chunkId ∈ residentSet)) =
              ((candidates.mergeSort EvictionCandidate.before).filter fun candidate =>
                decide (candidate.chunkId ∈ residentSet.toFinset)).map EvictionCandidate.forget := by
          rw [List.filter_map]
          exact congrArg _ (List.filter_congr fun candidate _ =>
            decide_eq_decide.mpr List.mem_toFinset.symm)
        have hchosen := choose_eq ((candidates.mergeSort EvictionCandidate.before).filter
          fun candidate => decide (candidate.chunkId ∈ residentSet.toFinset)) neededBytes
        simp only [Except.map, ok_bind, pure_eq_ok, hsort, hfilter, EvictionPlan.forget, hchosen,
          evictLoop_forget neededBytes (0, 0)]

end Forget

end GiveMePi.Storage.ChunkStore
