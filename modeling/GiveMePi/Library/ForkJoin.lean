import GiveMePi.Library.ProgramLogic
import Mathlib.Data.Finset.Insert
import Mathlib.Data.Finset.Range
import Mathlib.Data.Finset.Union

/-! # Fork and join

A caller hands numbered jobs out in order. A job is either accepted, to be run by some worker at any
later time, or rejected, and then the caller runs it at once. The caller joins when all jobs are
run. A schedule is one such course of events. -/

namespace GiveMePi.Library

/-- One event of a stage. -/
inductive StageEvent where
  /-- The next job is accepted. -/
  | accept
  /-- The next job is rejected and run by the caller. -/
  | reject
  /-- A worker runs an accepted job. -/
  | run (job : ℕ)
deriving DecidableEq, Repr

/-- How far a stage has come: the jobs handed out, and the accepted ones that have not run. -/
structure StageProgress where
  submitted : ℕ
  pending : List ℕ
deriving DecidableEq, Repr

namespace StageEvent

/-- The effect of an event that may happen in a stage of `n` jobs. -/
def step (n : ℕ) (progress : StageProgress) : StageEvent → Option StageProgress
  | accept =>
      if progress.submitted < n then
        some ⟨progress.submitted + 1, progress.submitted :: progress.pending⟩
      else none
  | reject =>
      if progress.submitted < n then some ⟨progress.submitted + 1, progress.pending⟩ else none
  | run job =>
      if job ∈ progress.pending then some ⟨progress.submitted, progress.pending.erase job⟩
      else none

end StageEvent

/-- A complete course of a stage of `n` jobs: all are handed out, and all accepted ones have run. -/
structure Schedule (n : ℕ) where
  events : List StageEvent
  complete : events.foldlM (StageEvent.step n) ⟨0, []⟩ = some ⟨n, []⟩

namespace Schedule

theorem foldlM_reject (n submitted rest : ℕ) (h : submitted + rest ≤ n) :
    (List.replicate rest StageEvent.reject).foldlM (StageEvent.step n) ⟨submitted, []⟩ =
      some ⟨submitted + rest, []⟩ := by
  induction rest generalizing submitted with
  | zero => rfl
  | succ rest ih =>
      rw [List.replicate_succ, List.foldlM_cons, StageEvent.step,
        if_pos (show submitted < n by omega)]
      simpa [Nat.add_right_comm, Nat.add_assoc] using ih (submitted + 1) (by omega)

/-- The caller runs every job itself. -/
def caller (n : ℕ) : Schedule n where
  events := List.replicate n .reject
  complete := by simpa using foldlM_reject n 0 n (by omega)

variable {ε σ : Type}

/-- Runs the events, with what the caller and what a worker does for a job. -/
def runEvents (caller worker : ℕ → EStateM ε σ Unit) :
    ℕ → List StageEvent → EStateM ε σ Unit
  | _, [] => pure ()
  | submitted, .accept :: events => runEvents caller worker (submitted + 1) events
  | submitted, .reject :: events => do
      caller submitted
      runEvents caller worker (submitted + 1) events
  | submitted, .run job :: events => do
      worker job
      runEvents caller worker submitted events

def run {n : ℕ} (schedule : Schedule n) (caller worker : ℕ → EStateM ε σ Unit) :
    EStateM ε σ Unit :=
  runEvents caller worker 0 schedule.events

variable {caller worker : ℕ → EStateM ε σ Unit} {invariant : Finset ℕ → σ → Prop}
  {fail : ε → σ → Prop}

/-- The rule of a stage, from any point of it: the invariant speaks of the set of jobs done, which
are those handed out and not pending. -/
theorem runEvents_meets {n : ℕ}
    (hcaller : ∀ job done, job < n → job ∉ done →
      Meets (invariant done) (caller job) (fun _ => invariant (insert job done)) fail)
    (hworker : ∀ job done, job < n → job ∉ done →
      Meets (invariant done) (worker job) (fun _ => invariant (insert job done)) fail)
    (events : List StageEvent) (progress : StageProgress) (hnodup : progress.pending.Nodup)
    (hpending : ∀ job ∈ progress.pending, job < progress.submitted)
    (hsubmitted : progress.submitted ≤ n)
    (hcomplete : events.foldlM (StageEvent.step n) progress = some ⟨n, []⟩) :
    Meets (invariant (Finset.range progress.submitted \ progress.pending.toFinset))
      (runEvents caller worker progress.submitted events) (fun _ => invariant (Finset.range n))
      fail := by
  induction events generalizing progress with
  | nil =>
      obtain rfl : progress = ⟨n, []⟩ := Option.some.inj hcomplete
      exact Meets.pure fun _ hs => by simpa using hs
  | cons event events ih =>
      obtain ⟨submitted, pending⟩ := progress
      simp only at hnodup hpending hsubmitted
      rw [List.foldlM_cons] at hcomplete
      obtain ⟨next, hstep, hrest⟩ := Option.bind_eq_some_iff.mp hcomplete
      cases event with
      | accept =>
          simp only [StageEvent.step, Option.ite_none_right_eq_some, Option.some.injEq] at hstep
          obtain ⟨hlt, rfl⟩ := hstep
          have hfresh : submitted ∉ pending := fun hmem => (hpending _ hmem).false
          have hdone : Finset.range (submitted + 1) \ (submitted :: pending).toFinset =
              Finset.range submitted \ pending.toFinset := by
            ext job
            have hlt : job < submitted + 1 ↔ job < submitted ∨ job = submitted := Nat.lt_succ_iff_lt_or_eq
            simp only [Finset.mem_sdiff, Finset.mem_range, List.mem_toFinset, List.mem_cons, hlt]
            by_cases hjob : job = submitted
            · simp [hjob]
            · simp [hjob]
          have := ih ⟨submitted + 1, submitted :: pending⟩ (List.nodup_cons.mpr ⟨hfresh, hnodup⟩)
            (by
              intro job hmem
              rcases List.mem_cons.mp hmem with rfl | hmem
              · exact Nat.lt_succ_self _
              · exact (hpending job hmem).trans (Nat.lt_succ_self _)) hlt hrest
          rw [hdone] at this
          exact this
      | reject =>
          simp only [StageEvent.step, Option.ite_none_right_eq_some, Option.some.injEq] at hstep
          obtain ⟨hlt, rfl⟩ := hstep
          have hfresh : submitted ∉ pending := fun hmem => (hpending _ hmem).false
          have hdone : Finset.range (submitted + 1) \ pending.toFinset =
              insert submitted (Finset.range submitted \ pending.toFinset) := by
            ext job
            have hlt : job < submitted + 1 ↔ job < submitted ∨ job = submitted := Nat.lt_succ_iff_lt_or_eq
            simp only [Finset.mem_sdiff, Finset.mem_range, List.mem_toFinset, Finset.mem_insert, hlt]
            by_cases hjob : job = submitted
            · simp [hjob, hfresh]
            · simp [hjob]
          have hnext := ih ⟨submitted + 1, pending⟩ hnodup
            (fun job hmem => (hpending job hmem).trans (Nat.lt_succ_self _)) hlt hrest
          rw [hdone] at hnext
          exact Meets.bind (hcaller submitted _ hlt (by simp)) fun _ => hnext
      | run job =>
          simp only [StageEvent.step, Option.ite_none_right_eq_some, Option.some.injEq] at hstep
          obtain ⟨hmem, rfl⟩ := hstep
          have hdone : Finset.range submitted \ (pending.erase job).toFinset =
              insert job (Finset.range submitted \ pending.toFinset) := by
            ext other
            simp only [Finset.mem_sdiff, Finset.mem_range, List.mem_toFinset, Finset.mem_insert,
              hnodup.mem_erase_iff]
            by_cases hother : other = job
            · simp [hother, hpending job hmem]
            · simp [hother]
          have hnext := ih ⟨submitted, pending.erase job⟩ (hnodup.erase job)
            (fun other hother => hpending other (List.mem_of_mem_erase hother)) hsubmitted hrest
          rw [hdone] at hnext
          exact Meets.bind
            (hworker job _ ((hpending job hmem).trans_le hsubmitted) (by simp [hmem]))
            fun _ => hnext

/-- The rule of a whole stage: what each job adds to an invariant of the jobs done holds of all of
them at the join, whatever the schedule. -/
theorem run_meets {n : ℕ} (schedule : Schedule n)
    (hcaller : ∀ job done, job < n → job ∉ done →
      Meets (invariant done) (caller job) (fun _ => invariant (insert job done)) fail)
    (hworker : ∀ job done, job < n → job ∉ done →
      Meets (invariant done) (worker job) (fun _ => invariant (insert job done)) fail) :
    Meets (invariant ∅) (schedule.run caller worker) (fun _ => invariant (Finset.range n)) fail := by
  have := runEvents_meets hcaller hworker schedule.events ⟨0, []⟩ List.nodup_nil (by simp)
    (Nat.zero_le n) schedule.complete
  simpa [run] using this

end Schedule

end GiveMePi.Library
