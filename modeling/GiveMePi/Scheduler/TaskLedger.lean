import GiveMePi.Scheduler.PoolControl

/-! # The counted tasks

Every accepted task is in one place from its push on: in the global queue, in a local queue, in the
hands of a worker, or counted off by `taskCompleted`. -/

namespace GiveMePi

/-- The weight of the task the worker has taken and not counted off. -/
def WorkerPhase.held (f : TaskId → ℕ) : WorkerPhase → ℕ
  | execute task | running task | taskCompleted task => f task
  | absent | popLocal | popGlobal | steal _ | checkStop | checkDrain | exited => 0

namespace WorkerPhase

variable (f : TaskId → ℕ)

@[simp] theorem held_execute (task : TaskId) : (execute task).held f = f task := rfl
@[simp] theorem held_running (task : TaskId) : (running task).held f = f task := rfl
@[simp] theorem held_taskCompleted (task : TaskId) : (taskCompleted task).held f = f task := rfl
@[simp] theorem held_absent : absent.held f = 0 := rfl
@[simp] theorem held_popLocal : popLocal.held f = 0 := rfl
@[simp] theorem held_popGlobal : popGlobal.held f = 0 := rfl
@[simp] theorem held_steal (victim : ℕ) : (steal victim).held f = 0 := rfl
@[simp] theorem held_checkStop : checkStop.held f = 0 := rfl
@[simp] theorem held_checkDrain : checkDrain.held f = 0 := rfl
@[simp] theorem held_exited : exited.held f = 0 := rfl

end WorkerPhase

/-- The tasks the section has counted in `outstandingTasks_` and not pushed. -/
def LifecycleSection.submitting : LifecycleSection → ℕ
  | submitPush _ | submitUndo _ => 1
  | submitCount _ | submitReturn _ _ | startWorker _ | unwindRequest _ | unwindJoin _ => 0

/-- The submissions that are counted and not accepted. -/
def ThreadPool.submitting {n : ℕ} (pool : ThreadPool n) : ℕ :=
  match pool.holder with
  | none => 0
  | some (_, part) => part.submitting

namespace ThreadPool

variable {n capacity : ℕ} {pool pool' : ThreadPool n}

/-! ## Places -/

/-- The weight of the tasks in a queue, in the hands of a worker, or counted off. -/
def places (pool : ThreadPool n) (f : TaskId → ℕ) : ℕ :=
  Library.weight f pool.queue + ∑ i, Library.weight f (pool.localQueue i) +
    ∑ i, (pool.workers i).phase.held f + Library.weight f pool.finished

theorem held_update (f : TaskId → ℕ) (workers : Fin n → Worker) (i : Fin n) (worker : Worker) :
    ∑ j, (Function.update workers i worker j).phase.held f + (workers i).phase.held f =
      ∑ j, (workers j).phase.held f + worker.phase.held f :=
  Library.sum_update_add (fun worker => worker.phase.held f) workers i worker

theorem localQueue_update (f : TaskId → ℕ) (queues : Fin n → List TaskId) (i : Fin n)
    (tasks : List TaskId) :
    ∑ j, Library.weight f (Function.update queues i tasks j) + Library.weight f (queues i) =
      ∑ j, Library.weight f (queues j) + Library.weight f tasks :=
  Library.sum_update_add (Library.weight f) queues i tasks

theorem places_setPhase (pool : ThreadPool n) (i : Fin n) (phase : WorkerPhase) (f : TaskId → ℕ) :
    (pool.setPhase i phase).places f + (pool.workers i).phase.held f =
      pool.places f + phase.held f := by
  have hheld := held_update f pool.workers i { pool.workers i with phase }
  dsimp only at hheld
  simp only [places, setPhase, setWorker]
  omega

theorem places_setPhase_eq {i : Fin n} {phase : WorkerPhase} {f : TaskId → ℕ}
    (h : phase.held f = (pool.workers i).phase.held f) :
    (pool.setPhase i phase).places f = pool.places f := by
  have hheld := pool.places_setPhase i phase f
  omega

theorem places_setLocalQueue (pool : ThreadPool n) (i : Fin n) (tasks : List TaskId)
    (f : TaskId → ℕ) :
    (pool.setLocalQueue i tasks).places f + Library.weight f (pool.localQueue i) =
      pool.places f + Library.weight f tasks := by
  have hlocal := localQueue_update f pool.localQueue i tasks
  simp only [places, setLocalQueue]
  omega

/-- A worker moves a task from a queue to its hands and from there to the finished ones. -/
theorem RunStep.places_eq {i : Fin n} (h : RunStep i pool pool') (f : TaskId → ℕ) :
    pool'.places f = pool.places f := by
  cases h with
  | @popLocal task rest hphase hqueue =>
      have hlocal := pool.places_setLocalQueue i rest f
      have hheld := (pool.setLocalQueue i rest).places_setPhase i (.execute task) f
      simp [setLocalQueue, hphase, hqueue] at hheld hlocal ⊢
      omega
  | @popGlobal task rest hphase hqueue =>
      have hheld := { pool with queue := rest }.places_setPhase i (.execute task) f
      have hqueue' : { pool with queue := rest }.places f + f task = pool.places f := by
        simp only [places, hqueue, Library.weight_cons]
        omega
      simp [hphase] at hheld
      omega
  | @steal task rest victim hphase hne hqueue =>
      have hlocal := pool.places_setLocalQueue victim rest f
      have hheld := (pool.setLocalQueue victim rest).places_setPhase i (.execute task) f
      simp [setLocalQueue, hphase, hqueue] at hheld hlocal ⊢
      omega
  | @taskCompleted task hphase =>
      have hheld := { pool with
        outstandingTasks := pool.outstandingTasks - 1
        finished := pool.finished ++ [task] }.places_setPhase i .popLocal f
      have hfinished : { pool with
          outstandingTasks := pool.outstandingTasks - 1
          finished := pool.finished ++ [task] }.places f = pool.places f + f task := by
        simp only [places, Library.weight_append, Library.weight_cons, Library.weight_nil]
        omega
      simp [hphase] at hheld
      omega
  | checkStop hphase => exact places_setPhase_eq (by split <;> simp [hphase])
  | checkDrain hphase => exact places_setPhase_eq (by split <;> simp [hphase])
  | execute hphase | finishTask hphase =>
      exact places_setPhase_eq (by simp [setTaskState, hphase])
  | _ hphase => exact places_setPhase_eq (by simp [hphase])

/-- Every accepted task is in one place. `outstandingTasks_` is what is not counted off, and the
task that is being submitted. -/
structure Ledger (pool : ThreadPool n) : Prop where
  conserved : ∀ f : TaskId → ℕ, Library.weight f pool.accepted = pool.places f
  counted : pool.outstandingTasks + pool.finished.length = pool.accepted.length + pool.submitting

theorem Ledger.create : (create n).Ledger where
  conserved f := by simp [ThreadPool.create, places, WorkerPhase.held]
  counted := by simp [ThreadPool.create, submitting]

theorem submitting_eq {thread : PoolThread n} {part : LifecycleSection}
    (h : pool.holder = some (thread, part)) : pool.submitting = part.submitting := by
  simp [submitting, h]

theorem submitting_eq_zero (h : pool.holder = none) : pool.submitting = 0 := by
  simp [submitting, h]

theorem RunStep.counted {i : Fin n} (h : RunStep i pool pool') :
    pool'.outstandingTasks + pool'.finished.length =
      pool.outstandingTasks + pool.finished.length := by
  cases h with
  | taskCompleted => simp [setPhase, setWorker]
  | _ => rfl

theorem RunStep.accepted_eq {i : Fin n} (h : RunStep i pool pool') :
    pool'.accepted = pool.accepted := by
  cases h <;> rfl

theorem Ledger.run (h : pool.Ledger) {i : Fin n} (hs : RunStep i pool pool') :
    pool'.Ledger where
  conserved f := by rw [hs.accepted_eq, hs.places_eq, h.conserved]
  counted := by
    obtain ⟨phase, heffect⟩ := hs.effect
    rw [hs.counted, hs.accepted_eq, h.counted, submitting, submitting, heffect.holder]

theorem Ledger.submit (h : pool.Ledger) (hs : SubmitStep capacity pool pool') :
    pool'.Ledger := by
  have hcounted := h.counted
  cases hs with
  | enter valid hcall =>
      refine ⟨h.conserved, ?_⟩
      rw [submitting_eq_zero hcall.1] at hcounted
      simp only [goto, submitting]
      split <;> simpa [LifecycleSection.submitting] using hcounted
  | count hholder =>
      refine ⟨h.conserved, ?_⟩
      rw [submitting_eq hholder] at hcounted
      simp [goto, submitting, LifecycleSection.submitting] at hcounted ⊢
      omega
  | @pushLocal i task hholder =>
      refine ⟨?_, ?_⟩
      · intro f
        have hlocal := localQueue_update f pool.localQueue i (pool.localQueue i ++ [task])
        have hconserved := h.conserved f
        simp [goto, setLocalQueue, places] at hlocal hconserved ⊢
        omega
      · rw [submitting_eq hholder] at hcounted
        simp [goto, setLocalQueue, submitting, LifecycleSection.submitting] at hcounted ⊢
        omega
  | @pushGlobal k task hholder =>
      refine ⟨?_, ?_⟩
      · intro f
        have hconserved := h.conserved f
        simp [goto, places] at hconserved ⊢
        omega
      · rw [submitting_eq hholder] at hcounted
        simp [goto, submitting, LifecycleSection.submitting] at hcounted ⊢
        omega
  | refuse hholder =>
      refine ⟨h.conserved, ?_⟩
      rw [submitting_eq hholder] at hcounted
      exact hcounted
  | undo hholder =>
      refine ⟨h.conserved, ?_⟩
      rw [submitting_eq hholder] at hcounted
      simp [goto, submitting, LifecycleSection.submitting] at hcounted ⊢
      omega
  | grant hholder | reject hholder =>
      refine ⟨h.conserved, ?_⟩
      rw [submitting_eq hholder] at hcounted
      simpa [submitting, LifecycleSection.submitting] using hcounted

/-- A step of `start` or `stop` moves no task. -/
structure Untouched (pool pool' : ThreadPool n) : Prop where
  queue : pool'.queue = pool.queue
  localQueue : pool'.localQueue = pool.localQueue
  accepted : pool'.accepted = pool.accepted
  finished : pool'.finished = pool.finished
  outstanding : pool'.outstandingTasks = pool.outstandingTasks
  submitting : pool'.submitting = pool.submitting

theorem Ledger.of_workers (h : pool.Ledger) (huntouched : Untouched pool pool')
    (hworkers : ∀ f, ∑ i, (pool'.workers i).phase.held f = ∑ i, (pool.workers i).phase.held f) :
    pool'.Ledger where
  conserved f := by
    rw [huntouched.accepted, h.conserved, places, places, huntouched.queue, huntouched.localQueue,
      huntouched.finished, hworkers]
  counted := by
    rw [huntouched.accepted, huntouched.finished, huntouched.outstanding, huntouched.submitting,
      h.counted]

theorem Ledger.of_worker (h : pool.Ledger) (huntouched : Untouched pool pool') {i : Fin n}
    {worker : Worker} (hworkers : pool'.workers = Function.update pool.workers i worker)
    (hheld : ∀ f, worker.phase.held f = (pool.workers i).phase.held f) : pool'.Ledger := by
  refine h.of_workers huntouched ?_
  intro f
  have hupdate := held_update f pool.workers i worker
  have := hheld f
  rw [hworkers]
  omega

theorem StartStep.untouched (hs : StartStep pool pool') : Untouched pool pool' := by
  cases hs with
  | alreadyRunning => exact ⟨rfl, rfl, rfl, rfl, rfl, rfl⟩
  | enter hcall => exact ⟨rfl, rfl, rfl, rfl, rfl, (submitting_eq_zero hcall.1).symm⟩
  | _ hholder => exact ⟨rfl, rfl, rfl, rfl, rfl, (submitting_eq hholder).symm⟩

theorem StopStep.untouched {k : ℕ} (hs : StopStep k pool pool') : Untouched pool pool' := by
  cases hs <;> exact ⟨rfl, rfl, rfl, rfl, rfl, rfl⟩

theorem Ledger.start (h : pool.Ledger) (hthreads : pool.HasThreads)
    (hs : StartStep pool pool') : pool'.Ledger := by
  have huntouched := hs.untouched
  cases hs with
  | @launch thread k hholder hrunning =>
      have habsent := hthreads.absent hrunning
      exact h.of_worker huntouched rfl (by simp [habsent])
  | unwindJoin hholder hrunning hexited =>
      exact h.of_worker huntouched rfl (by simp [hexited])
  | fail | unwindRequest => exact h.of_worker huntouched rfl (fun _ => rfl)
  | _ => exact h.of_workers huntouched (fun _ => rfl)

theorem Ledger.stop (h : pool.Ledger) {k : ℕ} (hs : StopStep k pool pool') : pool'.Ledger := by
  have huntouched := hs.untouched
  cases hs with
  | requestStop => exact h.of_worker huntouched rfl (fun _ => rfl)
  | join hjoin hrunning hexited => exact h.of_worker huntouched rfl (by simp [hexited])
  | _ => exact h.of_workers huntouched (fun _ => rfl)

theorem Ledger.step (h : pool.Ledger) (hthreads : pool.HasThreads)
    (hs : Step capacity pool pool') : pool'.Ledger := by
  cases hs with
  | run i hs => exact h.run hs
  | submit hs => exact h.submit hs
  | start hs => exact h.start hthreads hs
  | stop k hs => exact h.stop hs

theorem Ledger.counted_nonneg (h : pool.Ledger) : 0 ≤ pool.outstandingTasks := by
  have hconserved := h.conserved (fun _ => 1)
  have hcounted := h.counted
  simp only [places, Library.weight_one] at hconserved
  omega

theorem Ledger.outstanding_pos (h : pool.Ledger) {i : Fin n}
    (hheld : (pool.workers i).phase.held (fun _ => 1) = 1) : 1 ≤ pool.outstandingTasks := by
  have hconserved := h.conserved (fun _ => 1)
  have hcounted := h.counted
  have hle := Finset.single_le_sum (f := fun j => (pool.workers j).phase.held fun _ => 1)
    (fun _ _ => Nat.zero_le _) (Finset.mem_univ i)
  simp only [places, Library.weight_one] at hconserved hle
  omega

end ThreadPool

end GiveMePi
