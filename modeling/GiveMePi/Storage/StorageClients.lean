import GiveMePi.Storage.CommitLedger
import GiveMePi.Storage.LoadedChunks
import GiveMePi.Storage.StorageRecovery

/-! # The storage manager under many clients

Any number of clients store, load, ask for and remove chunks at the same time, their sections under
the mutex and their file operations in any order. -/

namespace GiveMePi.Storage

open StorageSystem
open Library (OrderedMap)

variable {ι : Type} [DecidableEq ι] (policy : StoragePolicy) (lz4 : Lz4)

/-- Clients at the same time on a disk on which no operation fails. -/
def concurrent (files : FileSystem) (processId : ℕ) (index : ChunkIndex) :
    Library.TransitionSystem (StorageSystem ι) where
  initial system := system = opened policy lz4 files processId index
  step system system' := ∃ client, Step policy lz4 (.call client .done) system system'

/-! ## Invariants -/

/-- What holds at any time: the files and the index, the changes, and what loads have found. -/
structure IsCoherent (start : ChunkIndex) (system : StorageSystem ι) : Prop where
  consistent : IsConsistent policy lz4 system
  ledger : IsLedger start system
  removals_le : ∀ client, (system.began client).removals ≤ system.removals.length
  loads : ∀ client, Loads policy lz4 system client (system.calls client)

variable {policy lz4} {system system' : StorageSystem ι} {start : ChunkIndex}

/-- The step of a client itself leaves its load as it should be. -/
theorem loads_own (hconsistent : IsConsistent policy lz4 system) {client : ι}
    (h : Loads policy lz4 system client (system.calls client))
    (hs : Step policy lz4 (.call client .done) system system') :
    Loads policy lz4 system' client (system'.calls client) := by
  cases hs with
  | store hs => exact loads_storeStep hs
  | publish hs => exact loads_publishStep hs
  | remove hs => exact loads_removeStep hs
  | load hs => exact loads_loadStep hconsistent h hs
  | finish hcall =>
      rw [StorageSystem.finish, goto_calls]
      trivial

/-- The step of a client leaves the loads of the others as they were. -/
theorem loads_other (h : IsCoherent policy lz4 start system) {client other : ι}
    (hne : other ≠ client)
    (heffect : Effect policy lz4 system system' (.call client .done)) :
    Loads policy lz4 system' other (system'.calls other) := by
  cases heffect with
  | move call m _ _ =>
      have hbegan : system'.began other = system.began other := by
        rcases m.began with ⟨_, hsame⟩ | ⟨_, hbegin⟩
        · rw [hsame]
        · rw [hbegin, began_begin_of_ne system hne]
      rw [m.calls_of_ne hne]
      exact (h.loads other).congr hbegan m.removals fun identity entry chunk hundisturbed hfinds =>
        m.finds (h.removals_le other) hbegan hundisturbed hfinds
  | commit purpose next hcall m =>
      rw [m.calls_of_ne hne]
      exact (h.loads other).congr (by rw [m.began]) ⟨[], by rw [m.removals, List.append_nil]⟩
        fun identity entry chunk _ hfinds => m.finds h.consistent hcall hfinds
  | finish result hcall heq =>
      have m := h.consistent.finishStep hcall
      rw [heq, m.calls_of_ne hne]
      exact (h.loads other).congr rfl m.removals fun identity entry chunk hundisturbed hfinds =>
        m.finds (h.removals_le other) rfl hundisturbed hfinds

/-- The number of removals only grows. -/
theorem removals_le_step (h : IsCoherent policy lz4 start system) {client : ι}
    (heffect : Effect policy lz4 system system' (.call client .done)) (other : ι) :
    (system'.began other).removals ≤ system'.removals.length := by
  have hle := h.removals_le other
  cases heffect with
  | move call m _ _ =>
      obtain ⟨more, hremovals⟩ := m.removals
      rw [hremovals, List.length_append]
      rcases m.began with ⟨_, hsame⟩ | ⟨_, hbegin⟩
      · rw [hsame]
        omega
      · by_cases hother : other = client
        · rw [hbegin, hother, began_begin_]
          exact Nat.le_add_right _ _
        · rw [hbegin, began_begin_of_ne system hother]
          omega
  | commit purpose next hcall m =>
      rw [m.began, m.removals]
      exact hle
  | finish result hcall heq =>
      rw [heq]
      exact hle

theorem IsCoherent.step (hlz4 : lz4.IsLossless) (h : IsCoherent policy lz4 start system)
    {client : ι} (hs : Step policy lz4 (.call client .done) system system') :
    IsCoherent policy lz4 start system' := by
  have heffect := h.consistent.effect hlz4 hs (Or.inl rfl)
  refine ⟨h.consistent.step heffect, ?_, removals_le_step h heffect, fun other => ?_⟩
  · cases heffect with
    | move call m hcompleted hbefore => exact h.ledger.move m hcompleted hbefore
    | commit purpose next hcall m => exact h.ledger.commit h.consistent hcall m
    | finish result hcall heq =>
        rw [heq]
        exact h.ledger.finish hcall
  · by_cases hother : other = client
    · rw [hother]
      exact loads_own h.consistent (h.loads client) hs
    · exact loads_other h hother heffect

theorem isCoherent_of_reachable (hlz4 : lz4.IsLossless) {files : FileSystem} {processId : ℕ}
    {index : ChunkIndex} (hdisk : IsConsistentDisk policy lz4 files index)
    (h : (concurrent policy lz4 files processId index).Reachable system) :
    IsCoherent policy lz4 index system := by
  refine h.invariant (P := IsCoherent policy lz4 index) ?_ ?_
  · intro system hinitial
    rw [hinitial]
    exact ⟨hdisk.isConsistent processId, isLedger_opened files processId index,
      fun _ => Nat.le_refl 0, fun _ => trivial⟩
  · intro system system' _ hcoherent hstep
    obtain ⟨client, hs⟩ := hstep
    exact hcoherent.step hlz4 hs

/-! ## What clients see -/

variable (policy lz4)

/-- The state in which no client is in the course of a call: the index in memory and on disk is what
the changes of the calls that have returned make of it, each change standing for one call and lying
between its beginning and its end, and every indexed chunk has its file. -/
structure IsSettled (start : ChunkIndex) (system : StorageSystem ι) : Prop where
  onDisk : ChunkIndex.load policy system.files = .ok system.index
  contained : ∀ identity, system.index.contains identity = present start system.commits identity
  recorded : ∀ call ∈ system.completed, IsRecorded system.commits call
  once : (system.completed.map CompletedCall.position).Perm (List.range system.commits.length)
  stored : ∀ entry ∈ system.index.entries, HasRecorded policy lz4 system.files entry.2

/-- The client has called `store` with the chunk. -/
def IsStoring (chunk : Chunk) (call : StorageCall) : Prop :=
  call.roles.storing = some chunk ∨ ∃ result, call = .returned (.stored chunk result)

/-- The step of a client that stores an identity which is indexed or stored by another client throws,
and touches no file and no entry. -/
def RejectsDuplicates (system : StorageSystem ι) : Prop :=
  ∀ (client : ι) (chunk : Chunk) (system' : StorageSystem ι), system.calls client = .idle →
    (system.index.contains chunk.metadata.identity = true ∨
      ∃ other, (system.calls other).roles.Stores chunk.metadata.identity) →
        Step policy lz4 (.call client .done) system system' →
          IsStoring chunk (system'.calls client) →
            (∃ error, system'.calls client = .returned (.stored chunk (.error error))) ∧
              system'.files = system.files ∧ system'.index = system.index

/-- What the clients of a manager may rely on at any time. -/
structure ServesClients (start : ChunkIndex) (system : StorageSystem ι) : Prop where
  settled : (∀ client, system.calls client = .idle) → IsSettled policy lz4 start system
  indexed : ∀ entry ∈ system.index.entries,
    (∀ client, (system.calls client).roles.removing ≠ some entry.1) →
      HasRecorded policy lz4 system.files entry.2
  duplicates : RejectsDuplicates policy lz4 system
  loaded : ∀ client identity result,
    system.calls client = .returned (.loaded identity result) →
      IsLoaded policy lz4 system client identity result

variable {policy lz4}

theorem IsCoherent.rejectsDuplicates (h : IsCoherent policy lz4 start system) :
    RejectsDuplicates policy lz4 system := by
  intro client chunk system' hidle htaken hs hstoring
  cases hs with
  | store hs =>
      cases hs with
      | @invalid _ chunk' error _ _ =>
          rw [goto_calls] at hstoring ⊢
          rcases hstoring with hnone | ⟨result, hresult⟩
          · cases hnone
          · cases hresult
            exact ⟨⟨error, rfl⟩, rfl, rfl⟩
      | @duplicate _ chunk' chunkId _ _ _ _ =>
          rw [goto_calls] at hstoring ⊢
          rcases hstoring with hnone | ⟨result, hresult⟩
          · cases hnone
          · cases hresult
            exact ⟨⟨_, rfl⟩, rfl, rfl⟩
      | @enter _ chunk' chunkId _ hname _ hfresh hnot =>
          rw [goto_calls] at hstoring
          rcases hstoring with hsame | ⟨result, hresult⟩
          · cases hsame
            rcases htaken with hcontained | ⟨other, stored, hother, hidentity⟩
            · rw [hfresh] at hcontained
              cases hcontained
            · simp only [ChunkIdentity.deterministicFilename, bind_eq_ok, pure_eq_ok,
                Except.ok.injEq] at hname
              obtain ⟨_, _, rfl⟩ := hname
              rw [← hidentity] at hnot
              exact absurd (h.consistent.inFlight other stored hother).2.1 hnot
          · cases hresult
      | _ => simp_all
  | publish hs => cases hs <;> simp_all
  | remove hs =>
      cases hs with
      | absent _ _ _ | enter _ _ _ =>
          rw [goto_calls] at hstoring
          rcases hstoring with hnone | ⟨result, hresult⟩
          · cases hnone
          · cases hresult
      | _ => simp_all
  | load hs =>
      cases hs with
      | absent _ _ _ | enter _ _ _ | containsAbsent _ _ _ | containsEnter _ _ _ =>
          rw [goto_calls] at hstoring
          rcases hstoring with hnone | ⟨result, hresult⟩
          · cases hnone
          · cases hresult
      | _ => simp_all
  | finish hcall => simp_all

omit [DecidableEq ι] in
theorem IsCoherent.indexed (h : IsCoherent policy lz4 start system)
    {entry : ChunkIdentity × ChunkIndexEntry} (hentry : entry ∈ system.index.entries)
    (hremoving : ∀ client, (system.calls client).roles.removing ≠ some entry.1) :
    HasRecorded policy lz4 system.files entry.2 := by
  obtain ⟨chunk, hcontents, _, heq⟩ :=
    h.consistent.contents_of_find? (OrderedMap.find?_eq_some_iff.mpr hentry)
  rw [heq]
  exact (h.consistent.stored _ chunk hcontents hremoving).hasRecorded

/-- In every interleaving of the clients' steps no update of the index is lost, a duplicate store
throws, and a load returns what was stored. -/
theorem concurrent_servesClients (hlz4 : lz4.IsLossless) {files : FileSystem} {processId : ℕ}
    {index : ChunkIndex} (hdisk : IsConsistentDisk policy lz4 files index)
    (h : (concurrent policy lz4 files processId index).Reachable system) :
    ServesClients policy lz4 index system := by
  have hcoherent := isCoherent_of_reachable hlz4 hdisk h
  refine ⟨fun hidle => ?_, fun entry => hcoherent.indexed, hcoherent.rejectsDuplicates, ?_⟩
  · refine ⟨hcoherent.consistent.onDisk fun client => by rw [hidle]; rfl,
      hcoherent.ledger.contained, hcoherent.ledger.recorded,
      hcoherent.ledger.positions_perm hidle, fun entry hentry => hcoherent.indexed hentry ?_⟩
    intro client
    rw [hidle]
    simp [StorageCall.roles]
  · intro client identity result hcall
    have hloads := hcoherent.loads client
    rw [hcall] at hloads
    exact hloads

theorem Run.reachable_concurrent {files : FileSystem} {processId : ℕ} {index : ChunkIndex}
    {client : ι} (hrun : Run policy lz4 client system system')
    (h : (concurrent policy lz4 files processId index).Reachable system) :
    (concurrent policy lz4 files processId index).Reachable system' :=
  h.run (Relation.ReflTransGen.mono (fun _ _ hs => ⟨client, hs⟩) _ _ hrun)

/-- One of two clients has stored a chunk, and both are idle. -/
theorem concurrent_servesClients_first :
    ∃ system : StorageSystem Bool, (∀ client, system.calls client = .idle) ∧
      system.index.contains firstIdentity = true ∧
        ServesClients ⟨ascii "storage", .none⟩ BinaryNodeChunkAdapter.literals ChunkIndex.create
          system := by
  have hlz4 := BinaryNodeChunkAdapter.literals_isLossless
  have hdisk := isConsistentDisk_empty ⟨ascii "storage", .none⟩ BinaryNodeChunkAdapter.literals
  obtain ⟨next, hcontains, system, hrun, _, hcall, _, _, hothers⟩ :=
    leads_first true _ hlz4 (ascii "storage")
  have hreachable := hrun.reachable_concurrent (.initial rfl)
  have hstored := hreachable.step ⟨true, .publish (.sync hcall)⟩
  have hfinished := hstored.step ⟨true, .finish (goto_calls _ _ _)⟩
  refine ⟨_, fun client => ?_, hcontains, concurrent_servesClients hlz4 hdisk hfinished⟩
  cases client with
  | true => exact goto_calls _ _ _
  | false =>
      have hne : false ≠ true := by decide
      have hcommitted := (commits_commit system true (.store (chunkOf firstIdentity 1 1 1))
        next).calls_of_ne hne
      rw [StorageSystem.finish, goto_calls_of_ne _ _ hne]
      exact hcommitted.trans (hothers false hne)

end GiveMePi.Storage
