import GiveMePi.Storage.StorageSteps

/-! # The ledger of published changes

Every change of the index is made by one call, between its beginning and its return, and the index
is what the changes make of it, one after the other. -/

namespace GiveMePi.Storage

open StorageSystem
open Library (OrderedMap)

/-- Whether an identity is indexed after some changes. -/
def present (start : ChunkIndex) (commits : List Commit) (identity : ChunkIdentity) : Bool :=
  commits.foldl (fun before commit =>
    match commit with
    | .stored stored => before || decide (stored = identity)
    | .removed removed => before && !decide (removed = identity)) (start.contains identity)

theorem present_append (start : ChunkIndex) (commits : List Commit) (purpose : Purpose)
    (identity : ChunkIdentity) :
    present start (commits ++ [purpose.commit]) identity =
      if identity = purpose.identity then purpose.storing.isSome
      else present start commits identity := by
  rw [present, List.foldl_append, ← present]
  by_cases hidentity : identity = purpose.identity
  · subst hidentity
    cases purpose with
    | store chunk => simp [Purpose.commit, Purpose.identity, Purpose.storing]
    | remove removed => simp [Purpose.commit, Purpose.identity, Purpose.storing]
  · have hne : purpose.identity ≠ identity := fun h => hidentity h.symm
    cases purpose with
    | store chunk =>
        have hne : chunk.metadata.identity ≠ identity := hne
        simp [Purpose.commit, hidentity, hne]
    | remove removed =>
        have hne : removed ≠ identity := hne
        simp [Purpose.commit, hidentity, hne]

variable {ι : Type} [DecidableEq ι] {policy : StoragePolicy} {lz4 : Lz4}
  {system system' : StorageSystem ι} {client : ι}

/-- A call that has returned made its change between its beginning and its end. -/
structure IsRecorded (commits : List Commit) (call : CompletedCall) : Prop where
  commit : commits[call.position]? = some call.commit
  began_le : call.began ≤ call.position
  lt_ended : call.position < call.ended

/-- The index is made of the changes, and each change is the one of a call that has returned or is
about to return, and of no other. -/
structure IsLedger (start : ChunkIndex) (system : StorageSystem ι) : Prop where
  contained : ∀ identity, system.index.contains identity = present start system.commits identity
  recorded : ∀ call ∈ system.completed, IsRecorded system.commits call
  began_le : ∀ client, (system.began client).commits ≤ system.commits.length
  pending : ∀ client commit, (system.calls client).commit? = some commit →
    system.commits[system.position client]? = some commit ∧
      (system.began client).commits ≤ system.position client
  covered : ∀ n < system.commits.length, (∃ call ∈ system.completed, call.position = n) ∨
    ∃ client commit, (system.calls client).commit? = some commit ∧ system.position client = n
  nodup : (system.completed.map CompletedCall.position).Nodup
  fresh : ∀ client commit, (system.calls client).commit? = some commit →
    ∀ call ∈ system.completed, call.position ≠ system.position client
  apart : ∀ client client' commit commit', (system.calls client).commit? = some commit →
    (system.calls client').commit? = some commit' →
      system.position client = system.position client' → client = client'

omit [DecidableEq ι] in
theorem isLedger_opened (files : FileSystem) (processId : ℕ) (index : ChunkIndex) :
    IsLedger index (opened policy lz4 files processId index : StorageSystem ι) where
  contained _ := rfl
  recorded _ hmem := absurd hmem List.not_mem_nil
  began_le _ := Nat.le_refl 0
  pending _ _ hcommit := by cases hcommit
  covered _ hlt := absurd hlt (Nat.not_lt_zero _)
  nodup := List.nodup_nil
  fresh _ _ hcommit := by cases hcommit
  apart _ _ _ _ hcommit := by cases hcommit

namespace IsLedger

variable {start : ChunkIndex}

/-- Moves change nothing that is in the ledger. -/
theorem move (h : IsLedger start system) {call : StorageCall}
    (m : Move policy lz4 client call system system')
    (hcompleted : system'.completed = system.completed)
    (hbefore : (system.calls client).commit? = none) : IsLedger start system' := by
  have hcommit (other : ι) : (system'.calls other).commit? = (system.calls other).commit? := by
    by_cases hother : other = client
    · rw [hother, m.calls_self, m.commit?, hbefore]
    · rw [m.calls_of_ne hother]
  have hbegan {other : ι} (hother : other ≠ client) : system'.began other = system.began other := by
    rcases m.began with ⟨_, hsame⟩ | ⟨_, hbegin⟩
    · rw [hsame]
    · rw [hbegin, began_begin_of_ne system hother]
  have hpending {other : ι} {commit : Commit}
      (hother : (system.calls other).commit? = some commit) : other ≠ client := by
    intro heq
    rw [heq, hbefore] at hother
    cases hother
  refine ⟨?_, ?_, ?_, ?_, ?_, ?_, ?_, ?_⟩
  · rw [m.index, m.commits]
    exact h.contained
  · rw [hcompleted, m.commits]
    exact h.recorded
  · intro other
    rw [m.commits]
    by_cases hother : other = client
    · rcases m.began with ⟨_, hsame⟩ | ⟨_, hbegin⟩
      · rw [hsame]
        exact h.began_le other
      · rw [hbegin, hother, began_begin_]
    · rw [hbegan hother]
      exact h.began_le other
  · intro other commit hother
    rw [hcommit] at hother
    rw [m.commits, m.position, hbegan (hpending hother)]
    exact h.pending other commit hother
  · intro n hn
    rw [m.commits] at hn
    rw [hcompleted, m.position]
    simp only [hcommit]
    exact h.covered n hn
  · rw [hcompleted]
    exact h.nodup
  · intro other commit hother
    rw [hcommit] at hother
    rw [hcompleted, m.position]
    exact h.fresh other commit hother
  · intro left right commit commit' hleft hright
    rw [hcommit] at hleft hright
    rw [m.position]
    exact h.apart left right commit commit' hleft hright

/-- A publication that is complete adds its change. -/
theorem commit (h : IsLedger start system) (hconsistent : IsConsistent policy lz4 system)
    {purpose : Purpose} {next : ChunkIndex}
    (hcall : system.calls client = .publish purpose next .sync)
    (m : Commits client purpose next system system') : IsLedger start system' := by
  have hphase := hconsistent.phase client
  rw [hcall] at hphase
  obtain ⟨result, hcalls, hresult⟩ := m.calls
  have hself : (system'.calls client).commit? = some purpose.commit := by
    rw [hcalls, Function.update_self]
    exact hresult
  have hposition : system'.position client = system.commits.length := by
    rw [m.position, Function.update_self]
  have hposition' {other : ι} (hother : other ≠ client) :
      system'.position other = system.position other := by
    rw [m.position, Function.update_of_ne hother]
  have hlt {other : ι} {commit : Commit} (hother : (system.calls other).commit? = some commit) :
      system.position other < system.commits.length :=
    (List.getElem?_eq_some_iff.mp (h.pending other commit hother).1).1
  refine ⟨?_, ?_, ?_, ?_, ?_, ?_, ?_, ?_⟩
  · intro identity
    have hfind := hphase.1.find? identity
    rw [m.commits, m.index, present_append]
    by_cases hidentity : identity = purpose.identity
    · rw [if_pos hidentity] at hfind ⊢
      cases hstoring : purpose.storing with
      | none =>
          rw [hstoring] at hfind
          exact OrderedMap.find?_eq_none_iff.mp hfind
      | some chunk =>
          rw [hstoring] at hfind
          exact OrderedMap.contains_eq_true_iff.mpr ⟨_, OrderedMap.find?_eq_some_iff.mp hfind⟩
    · rw [if_neg hidentity] at hfind ⊢
      rw [← h.contained identity, Bool.eq_iff_iff, OrderedMap.contains_eq_true_iff,
        OrderedMap.contains_eq_true_iff]
      simp only [← OrderedMap.find?_eq_some_iff, hfind]
  · intro call hmem
    rw [m.completed] at hmem
    obtain ⟨hcommit, hbegan, hended⟩ := h.recorded call hmem
    refine ⟨?_, hbegan, hended⟩
    rw [m.commits, List.getElem?_append_left (List.getElem?_eq_some_iff.mp hcommit).1]
    exact hcommit
  · intro other
    have := h.began_le other
    rw [m.began, m.commits, List.length_append]
    omega
  · intro other commit hother
    rw [m.began, m.commits]
    by_cases heq : other = client
    · subst heq
      rw [hself] at hother
      cases hother
      rw [hposition, List.getElem?_concat_length]
      exact ⟨rfl, h.began_le other⟩
    · rw [m.calls_of_ne heq] at hother
      rw [hposition' heq, List.getElem?_append_left (hlt hother)]
      exact h.pending other commit hother
  · intro n hn
    rw [m.commits, List.length_append, List.length_singleton] at hn
    rw [m.completed]
    by_cases hlast : n = system.commits.length
    · exact Or.inr ⟨client, _, hself, hposition.trans hlast.symm⟩
    · rcases h.covered n (by omega) with hdone | ⟨other, commit, hother, hn⟩
      · exact Or.inl hdone
      · have hne : other ≠ client := by
          intro heq
          rw [heq, hcall] at hother
          cases hother
        exact Or.inr ⟨other, commit, by rw [m.calls_of_ne hne, hother], by rw [hposition' hne, hn]⟩
  · rw [m.completed]
    exact h.nodup
  · intro other commit hother call hmem
    rw [m.completed] at hmem
    have hdone := (List.getElem?_eq_some_iff.mp (h.recorded call hmem).commit).1
    by_cases heq : other = client
    · rw [heq, hposition]
      exact hdone.ne
    · rw [m.calls_of_ne heq] at hother
      rw [hposition' heq]
      exact h.fresh other commit hother call hmem
  · intro left right commit commit' hleft hright hsame
    by_cases hl : left = client
    · by_cases hr : right = client
      · rw [hl, hr]
      · rw [m.calls_of_ne hr] at hright
        rw [hl, hposition, hposition' hr] at hsame
        exact absurd hsame.symm (hlt hright).ne
    · rw [m.calls_of_ne hl] at hleft
      by_cases hr : right = client
      · rw [hr, hposition, hposition' hl] at hsame
        exact absurd hsame (hlt hleft).ne
      · rw [m.calls_of_ne hr] at hright
        rw [hposition' hl, hposition' hr] at hsame
        exact h.apart left right commit commit' hleft hright hsame

/-- A call that returns is recorded with its change. -/
theorem finish (h : IsLedger start system) {result : StorageResult}
    (hcall : system.calls client = .returned result) :
    IsLedger start (system.finish client result) := by
  have hcommit {other : ι} (hother : other ≠ client) :
      ((system.finish client result).calls other).commit? = (system.calls other).commit? := by
    rw [StorageSystem.finish, goto_calls_of_ne _ _ hother]
  have hself : ((system.finish client result).calls client).commit? = none := by
    rw [StorageSystem.finish, goto_calls]
    rfl
  have hbefore : (system.calls client).commit? = commitOf result := by
    rw [hcall]
    rfl
  have hmem (call : CompletedCall) : call ∈ (system.finish client result).completed ↔
      call ∈ system.completed ∨ ∃ commit, commitOf result = some commit ∧
        call = ⟨commit, (system.began client).commits, system.position client,
          system.commits.length⟩ := by
    simp only [StorageSystem.finish, goto, List.mem_append, List.mem_map, Option.mem_toList,
      eq_comm]
  refine ⟨h.contained, ?_, h.began_le, ?_, ?_, ?_, ?_, ?_⟩
  · intro call hcall'
    rcases (hmem call).mp hcall' with hold | ⟨commit, hresult, rfl⟩
    · exact h.recorded call hold
    · obtain ⟨hget, hle⟩ := h.pending client commit (hbefore.trans hresult)
      exact ⟨hget, hle, (List.getElem?_eq_some_iff.mp hget).1⟩
  · intro other commit hother
    by_cases heq : other = client
    · rw [heq, hself] at hother
      cases hother
    · rw [hcommit heq] at hother
      exact h.pending other commit hother
  · intro n hn
    rcases h.covered n hn with ⟨call, hdone, hposition⟩ | ⟨other, commit, hother, hposition⟩
    · exact Or.inl ⟨call, (hmem call).mpr (Or.inl hdone), hposition⟩
    · by_cases heq : other = client
      · rw [heq, hbefore] at hother
        exact Or.inl ⟨_, (hmem _).mpr (Or.inr ⟨commit, hother, rfl⟩), heq ▸ hposition⟩
      · exact Or.inr ⟨other, commit, by rw [hcommit heq, hother], hposition⟩
  · change ((system.completed ++ _).map CompletedCall.position).Nodup
    cases hresult : commitOf result with
    | none => simpa using h.nodup
    | some commit =>
        have hnot := h.fresh client commit (hbefore.trans hresult)
        simp only [Option.toList_some, List.map_cons, List.map_nil, List.map_append]
        refine List.nodup_append.mpr ⟨h.nodup, List.nodup_singleton _, ?_⟩
        intro position hposition other hother heq
        obtain ⟨call, hcall', rfl⟩ := List.mem_map.mp hposition
        exact hnot call hcall' (heq.trans (List.mem_singleton.mp hother))
  · intro other commit hother call hcall'
    have hne : other ≠ client := by
      intro heq
      rw [heq, hself] at hother
      cases hother
    rw [hcommit hne] at hother
    rcases (hmem call).mp hcall' with hold | ⟨commit', hresult, rfl⟩
    · exact h.fresh other commit hother call hold
    · exact fun hsame => hne
        (h.apart client other commit' commit (hbefore.trans hresult) hother hsame).symm
  · intro left right commit commit' hleft hright
    have hl : left ≠ client := by
      intro heq
      rw [heq, hself] at hleft
      cases hleft
    have hr : right ≠ client := by
      intro heq
      rw [heq, hself] at hright
      cases hright
    rw [hcommit hl] at hleft
    rw [hcommit hr] at hright
    exact h.apart left right commit commit' hleft hright

omit [DecidableEq ι] in
/-- Once every client is idle, each change is the one of exactly one call that has returned. -/
theorem positions_perm (h : IsLedger start system) (hidle : ∀ client, system.calls client = .idle) :
    (system.completed.map CompletedCall.position).Perm (List.range system.commits.length) := by
  refine (List.perm_ext_iff_of_nodup h.nodup List.nodup_range).mpr fun n => ?_
  rw [List.mem_range, List.mem_map]
  constructor
  · intro hmem
    obtain ⟨call, hcall, rfl⟩ := hmem
    exact (List.getElem?_eq_some_iff.mp (h.recorded call hcall).commit).1
  · intro hlt
    rcases h.covered n hlt with hdone | ⟨client, commit, hpending, _⟩
    · exact hdone
    · rw [hidle client] at hpending
      cases hpending

end IsLedger

end GiveMePi.Storage
