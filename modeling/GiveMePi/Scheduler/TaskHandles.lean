import GiveMePi.Scheduler.TaskLedger
import Mathlib.Data.List.Nodup

/-! # Tasks and their handles

No two submissions share a task, and the state behind a handle follows the task from its queue into
a callable and out of it. -/

namespace GiveMePi

/-- The task of a submission that has not been accepted. -/
def LifecycleSection.offered : LifecycleSection → Option TaskId
  | submitCount task | submitPush task | submitUndo task | submitReturn task false => some task
  | submitReturn _ true | startWorker _ | unwindRequest _ | unwindJoin _ => none

namespace ThreadPool

variable {n capacity : ℕ} {pool pool' : ThreadPool n}

/-! ## Names -/

/-- Submissions bring tasks with new names, and a task is accepted or refused once. -/
structure Names (pool : ThreadPool n) : Prop where
  nodup : pool.accepted.Nodup
  acceptedCreated : ∀ task ∈ pool.accepted, task < pool.created
  refusedCreated : ∀ task ∈ pool.refused, task < pool.created
  refusedApart : ∀ task ∈ pool.refused, task ∉ pool.accepted
  granted : ∀ task ∈ pool.granted, task ∈ pool.accepted
  offered : ∀ thread part task, pool.holder = some (thread, part) → part.offered = some task →
    task < pool.created ∧ task ∉ pool.accepted ∧ task ∉ pool.refused
  returning : ∀ thread task, pool.holder = some (thread, .submitReturn task true) →
    task ∈ pool.accepted

theorem Names.create : (create n).Names where
  nodup := by simp [ThreadPool.create]
  acceptedCreated := by simp [ThreadPool.create]
  refusedCreated := by simp [ThreadPool.create]
  refusedApart := by simp [ThreadPool.create]
  granted := by simp [ThreadPool.create]
  offered := by simp [ThreadPool.create]
  returning := by simp [ThreadPool.create]

/-- A step that only moves the owner of the mutex to a part with the same submission, or none. -/
theorem Names.of_holder (h : pool.Names) (haccepted : pool'.accepted = pool.accepted)
    (hrefused : pool'.refused = pool.refused) (hgranted : pool'.granted = pool.granted)
    (hcreated : pool'.created = pool.created)
    (hoffered : ∀ thread part task, pool'.holder = some (thread, part) →
      part.offered = some task → ∃ part', pool.holder = some (thread, part') ∧
        part'.offered = some task)
    (hreturning : ∀ thread task, pool'.holder = some (thread, .submitReturn task true) →
      pool.holder = some (thread, .submitReturn task true)) : pool'.Names where
  nodup := by rw [haccepted]; exact h.nodup
  acceptedCreated := by rw [haccepted, hcreated]; exact h.acceptedCreated
  refusedCreated := by rw [hrefused, hcreated]; exact h.refusedCreated
  refusedApart := by rw [hrefused, haccepted]; exact h.refusedApart
  granted := by rw [hgranted, haccepted]; exact h.granted
  offered := by
    intro thread part task hpart htask
    obtain ⟨part', hpart', htask'⟩ := hoffered thread part task hpart htask
    rw [hcreated, haccepted, hrefused]
    exact h.offered thread part' task hpart' htask'
  returning := by
    intro thread task hpart
    rw [haccepted]
    exact h.returning thread task (hreturning thread task hpart)

theorem Names.same (h : pool.Names) (haccepted : pool'.accepted = pool.accepted)
    (hrefused : pool'.refused = pool.refused) (hgranted : pool'.granted = pool.granted)
    (hcreated : pool'.created = pool.created) (hholder : pool'.holder = pool.holder) :
    pool'.Names := by
  refine h.of_holder haccepted hrefused hgranted hcreated ?_ ?_
  · intro thread part task hpart htask
    rw [hholder] at hpart
    exact ⟨part, hpart, htask⟩
  · intro thread task hpart
    rwa [hholder] at hpart

theorem Names.run (h : pool.Names) {i : Fin n} (hs : RunStep i pool pool') : pool'.Names := by
  cases hs <;> exact h.same rfl rfl rfl rfl rfl

theorem Names.stop (h : pool.Names) {k : ℕ} (hs : StopStep k pool pool') : pool'.Names := by
  cases hs <;> exact h.same rfl rfl rfl rfl rfl

theorem Names.start (h : pool.Names) (hs : StartStep pool pool') : pool'.Names := by
  cases hs with
  | alreadyRunning => exact h
  | started | unwound => exact h.of_holder rfl rfl rfl rfl (by simp) (by simp)
  | _ =>
      refine h.of_holder rfl rfl rfl rfl ?_ ?_
      · intro thread part task hpart htask
        simp only [goto, Option.some.injEq, Prod.mk.injEq] at hpart
        rw [← hpart.2] at htask
        simp [LifecycleSection.offered] at htask
      · simp [goto]

/-- The submitted task goes into a queue. -/
theorem Names.accept (h : pool.Names) {thread : PoolThread n} {task : TaskId}
    (hholder : pool.holder = some (thread, .submitPush task))
    (haccepted : pool'.accepted = pool.accepted ++ [task])
    (hrefused : pool'.refused = pool.refused) (hgranted : pool'.granted = pool.granted)
    (hcreated : pool'.created = pool.created)
    (hholder' : pool'.holder = some (thread, .submitReturn task true)) : pool'.Names := by
  have hnew := h.offered thread _ task hholder rfl
  refine ⟨?_, ?_, ?_, ?_, ?_, ?_, ?_⟩
  · rw [haccepted]
    exact List.nodup_append.mpr ⟨h.nodup, by simp, by
      intro a ha b hb
      rw [List.mem_singleton.mp hb]
      exact fun heq => hnew.2.1 (heq ▸ ha)⟩
  · rw [haccepted, hcreated]
    intro other hother
    rcases List.mem_append.mp hother with hother | hother
    · exact h.acceptedCreated other hother
    · rw [List.mem_singleton.mp hother]
      exact hnew.1
  · rw [hrefused, hcreated]
    exact h.refusedCreated
  · rw [hrefused, haccepted]
    intro other hother hmem
    rcases List.mem_append.mp hmem with hmem | hmem
    · exact h.refusedApart other hother hmem
    · rw [List.mem_singleton.mp hmem] at hother
      exact hnew.2.2 hother
  · rw [hgranted, haccepted]
    intro other hother
    exact List.mem_append_left _ (h.granted other hother)
  · intro thread' part other hpart hother
    rw [hholder', Option.some.injEq, Prod.mk.injEq] at hpart
    rw [← hpart.2] at hother
    cases hother
  · intro thread' other hpart
    simp only [hholder', Option.some.injEq, Prod.mk.injEq, LifecycleSection.submitReturn.injEq,
      and_true] at hpart
    rw [haccepted, ← hpart.2]
    simp

theorem Names.submit (h : pool.Names) (hs : SubmitStep capacity pool pool') : pool'.Names := by
  cases hs with
  | enter valid hcall =>
      refine ⟨h.nodup, ?_, ?_, h.refusedApart, h.granted, ?_, ?_⟩
      · intro task htask
        exact Nat.lt_succ_of_lt (h.acceptedCreated task htask)
      · intro task htask
        exact Nat.lt_succ_of_lt (h.refusedCreated task htask)
      · intro thread part task hpart htask
        have hnew : task = pool.created := by
          simp only [goto, Option.some.injEq, Prod.mk.injEq] at hpart
          rw [← hpart.2] at htask
          split at htask
          · exact (Option.some.inj htask).symm
          · exact (Option.some.inj htask).symm
        rw [hnew]
        refine ⟨Nat.lt_succ_self _, ?_, ?_⟩
        · intro hmem
          exact absurd (h.acceptedCreated _ hmem) (lt_irrefl _)
        · intro hmem
          exact absurd (h.refusedCreated _ hmem) (lt_irrefl _)
      · intro thread task hpart
        simp only [goto, Option.some.injEq, Prod.mk.injEq] at hpart
        split at hpart <;> simp at hpart
  | pushLocal hholder => exact h.accept hholder rfl rfl rfl rfl rfl
  | pushGlobal hholder => exact h.accept hholder rfl rfl rfl rfl rfl
  | @grant thread task hholder =>
      have haccepted := h.returning thread task hholder
      refine ⟨h.nodup, h.acceptedCreated, h.refusedCreated, h.refusedApart, ?_, by simp, by simp⟩
      intro other hother
      rcases List.mem_append.mp hother with hother | hother
      · exact h.granted other hother
      · rw [List.mem_singleton.mp hother]
        exact haccepted
  | @reject thread task hholder =>
      have hnew := h.offered thread _ task hholder rfl
      refine ⟨h.nodup, h.acceptedCreated, ?_, ?_, h.granted, by simp, by simp⟩
      · intro other hother
        rcases List.mem_append.mp hother with hother | hother
        · exact h.refusedCreated other hother
        · rw [List.mem_singleton.mp hother]
          exact hnew.1
      · intro other hother
        rcases List.mem_append.mp hother with hother | hother
        · exact h.refusedApart other hother
        · rw [List.mem_singleton.mp hother]
          exact hnew.2.1
  | _ hholder =>
      refine h.of_holder rfl rfl rfl rfl ?_ (by simp [goto])
      intro thread part task hpart htask
      simp only [goto, Option.some.injEq, Prod.mk.injEq] at hpart
      rw [← hpart.1]
      rw [← hpart.2] at htask
      exact ⟨_, hholder, htask⟩

theorem Names.step (h : pool.Names) (hs : Step capacity pool pool') : pool'.Names := by
  cases hs with
  | run i hs => exact h.run hs
  | submit hs => exact h.submit hs
  | start hs => exact h.start hs
  | stop k hs => exact h.stop hs

/-! ## Handles -/

/-- The task is in a queue, or taken and not begun. -/
def IsWaiting (pool : ThreadPool n) (task : TaskId) : Prop :=
  task ∈ pool.queue ∨ (∃ i, task ∈ pool.localQueue i) ∨
    ∃ i, (pool.workers i).phase = .execute task

/-- A worker is in the callable of the task. -/
def IsRunning (pool : ThreadPool n) (task : TaskId) : Prop :=
  ∃ i, (pool.workers i).phase = .running task

/-- A worker has left the callable of the task. -/
def IsDone (pool : ThreadPool n) (task : TaskId) : Prop :=
  (∃ i, (pool.workers i).phase = .taskCompleted task) ∨ task ∈ pool.finished

/-- The state behind a handle says where the task is and whether it has been executed. -/
structure Handles (pool : ThreadPool n) : Prop where
  waiting : ∀ task, pool.IsWaiting task → pool.taskState task = .pending
  running : ∀ task, pool.IsRunning task → pool.taskState task = .running
  done : ∀ task, pool.IsDone task → (pool.taskState task).isReady = true
  executed : ∀ task, pool.executed.count task = if pool.taskState task = .pending then 0 else 1
  begun : ∀ task, pool.taskState task ≠ .pending → task ∈ pool.accepted

theorem Handles.create : (create n).Handles where
  waiting := by simp [ThreadPool.create]
  running := by simp [ThreadPool.create, IsRunning]
  done := by simp [ThreadPool.create, IsDone]
  executed := by simp [ThreadPool.create]
  begun := by simp [ThreadPool.create]

/-- Tasks move and no handle changes. -/
theorem Handles.of_moves (h : pool.Handles) (hstate : pool'.taskState = pool.taskState)
    (hexecuted : pool'.executed = pool.executed)
    (haccepted : ∀ task ∈ pool.accepted, task ∈ pool'.accepted)
    (hwaiting : ∀ task, pool'.IsWaiting task →
      pool.IsWaiting task ∨ pool.taskState task = .pending)
    (hrunning : ∀ task, pool'.IsRunning task → pool.IsRunning task)
    (hdone : ∀ task, pool'.IsDone task → pool.IsDone task) : pool'.Handles where
  waiting := by
    intro task htask
    rw [hstate]
    rcases hwaiting task htask with hbefore | hpending
    · exact h.waiting task hbefore
    · exact hpending
  running := by
    intro task htask
    rw [hstate]
    exact h.running task (hrunning task htask)
  done := by
    intro task htask
    rw [hstate]
    exact h.done task (hdone task htask)
  executed := by rw [hstate, hexecuted]; exact h.executed
  begun := by
    intro task htask
    rw [hstate] at htask
    exact haccepted task (h.begun task htask)

theorem phase_update {workers : Fin n → Worker} {i j : Fin n} {worker : Worker}
    {phase : WorkerPhase} (h : (Function.update workers i worker j).phase = phase) :
    worker.phase = phase ∨ (workers j).phase = phase := by
  by_cases hji : j = i
  · subst hji
    rw [Function.update_self] at h
    exact .inl h
  · rw [Function.update_of_ne hji] at h
    exact .inr h

/-- One worker changes its phase, some queues get shorter, and the task it takes was waiting. -/
theorem Handles.of_worker (h : pool.Handles) {i : Fin n} {worker : Worker}
    (hstate : pool'.taskState = pool.taskState) (hexecuted : pool'.executed = pool.executed)
    (haccepted : pool'.accepted = pool.accepted)
    (hworkers : pool'.workers = Function.update pool.workers i worker)
    (hqueue : ∀ task ∈ pool'.queue, task ∈ pool.queue)
    (hlocal : ∀ j, ∀ task ∈ pool'.localQueue j, task ∈ pool.localQueue j)
    (htakes : ∀ task, worker.phase = .execute task → pool.IsWaiting task)
    (hruns : ∀ task, worker.phase ≠ .running task)
    (hdone : ∀ task, worker.phase = .taskCompleted task → pool.IsDone task)
    (hfinished : ∀ task ∈ pool'.finished, pool.IsDone task) : pool'.Handles := by
  refine h.of_moves hstate hexecuted (by rw [haccepted]; exact fun _ hmem => hmem) ?_ ?_ ?_
  · intro task htask
    refine .inl ?_
    rcases htask with hglobal | hlocal' | hphase
    · exact .inl (hqueue task hglobal)
    · obtain ⟨j, hmem⟩ := hlocal'
      exact .inr (.inl ⟨j, hlocal j task hmem⟩)
    · obtain ⟨j, hphase⟩ := hphase
      rw [hworkers] at hphase
      rcases phase_update hphase with hnew | hold
      · exact htakes task hnew
      · exact .inr (.inr ⟨j, hold⟩)
  · intro task htask
    obtain ⟨j, hphase⟩ := htask
    rw [hworkers] at hphase
    rcases phase_update hphase with hnew | hold
    · exact absurd hnew (hruns task)
    · exact ⟨j, hold⟩
  · intro task htask
    rcases htask with hphase | hmem
    · obtain ⟨j, hphase⟩ := hphase
      rw [hworkers] at hphase
      rcases phase_update hphase with hnew | hold
      · exact hdone task hnew
      · exact .inl ⟨j, hold⟩
    · exact hfinished task hmem

/-! ## A task in the hands of a worker -/

/-- The indicator of one task, as a weight. -/
def only (task : TaskId) : TaskId → ℕ :=
  fun other => if other = task then 1 else 0

@[simp] theorem only_self (task : TaskId) : only task task = 1 := by
  simp [only]

/-- The task that worker `i` holds is accepted, and it is nowhere else. -/
structure InHands (pool : ThreadPool n) (i : Fin n) (task : TaskId) : Prop where
  accepted : task ∈ pool.accepted
  queue : task ∉ pool.queue
  localQueue : ∀ j, task ∉ pool.localQueue j
  workers : ∀ j, j ≠ i → (pool.workers j).phase.held (only task) = 0
  finished : task ∉ pool.finished

theorem Ledger.count_accepted (h : pool.Ledger) (task : TaskId) :
    pool.accepted.count task = pool.places (only task) := by
  rw [← h.conserved, ← Library.weight_indicator]
  rfl

theorem Ledger.inHands (h : pool.Ledger) (hnames : pool.Names) (i : Fin n) (task : TaskId)
    (hheld : (pool.workers i).phase.held (only task) = 1) : pool.InHands i task := by
  have hcount := h.count_accepted task
  have hle := List.nodup_iff_count_le_one.mp hnames.nodup task
  have hsplit := Finset.add_sum_erase Finset.univ
    (fun j => (pool.workers j).phase.held (only task)) (Finset.mem_univ i)
  simp only [hheld] at hsplit
  simp only [places] at hcount
  refine ⟨?_, ?_, ?_, ?_, ?_⟩
  · exact List.count_pos_iff.mp (by omega)
  · intro hmem
    have := Library.le_weight (only task) hmem
    rw [only_self] at this
    omega
  · intro j hmem
    have hj := Library.le_weight (only task) hmem
    have hsum := Finset.single_le_sum (f := fun j => Library.weight (only task) (pool.localQueue j))
      (fun _ _ => Nat.zero_le _) (Finset.mem_univ j)
    rw [only_self] at hj
    omega
  · intro j hji
    have hsum := Finset.single_le_sum (f := fun j => (pool.workers j).phase.held (only task))
      (fun _ _ => Nat.zero_le _) (Finset.mem_erase.mpr ⟨hji, Finset.mem_univ j⟩)
    omega
  · intro hmem
    have := Library.le_weight (only task) hmem
    rw [only_self] at this
    omega

theorem InHands.ne {i j : Fin n} {task other : TaskId} (h : pool.InHands i task) (hji : j ≠ i)
    (hheld : (pool.workers j).phase.held (only other) = 1) : other ≠ task := by
  intro heq
  rw [heq, h.workers j hji] at hheld
  cases hheld

/-- Worker `i` begins or ends the callable of the task it holds, and the handle says so. -/
theorem Handles.of_task (h : pool.Handles) {i : Fin n} {task : TaskId}
    (hhands : pool.InHands i task) {worker : Worker} {state : TaskState}
    (hstate : pool'.taskState = Function.update pool.taskState task state)
    (haccepted : pool'.accepted = pool.accepted) (hqueue : pool'.queue = pool.queue)
    (hlocal : pool'.localQueue = pool.localQueue) (hfinished : pool'.finished = pool.finished)
    (hworkers : pool'.workers = Function.update pool.workers i worker)
    (hphase : worker.phase = .running task ∧ state = .running ∨
      worker.phase = .taskCompleted task ∧ state.isReady = true)
    (hexecuted : ∀ other, pool'.executed.count other =
      if Function.update pool.taskState task state other = .pending then 0 else 1) :
    pool'.Handles := by
  -- another task keeps its handle, and this one is at worker `i` alone
  have hother : ∀ other, other ≠ task → pool'.taskState other = pool.taskState other := by
    intro other hne
    rw [hstate, Function.update_of_ne hne]
  have hself : pool'.taskState task = state := by rw [hstate, Function.update_self]
  refine ⟨?_, ?_, ?_, ?_, ?_⟩
  · intro other hwaiting
    have hbefore : other ≠ task ∧ pool.IsWaiting other := by
      rcases hwaiting with hmem | hmem | htaken
      · rw [hqueue] at hmem
        exact ⟨fun heq => hhands.queue (heq ▸ hmem), .inl hmem⟩
      · obtain ⟨j, hmem⟩ := hmem
        rw [hlocal] at hmem
        exact ⟨fun heq => hhands.localQueue j (heq ▸ hmem), .inr (.inl ⟨j, hmem⟩)⟩
      · obtain ⟨j, htaken⟩ := htaken
        rw [hworkers] at htaken
        by_cases hji : j = i
        · rw [hji, Function.update_self] at htaken
          rcases hphase with hphase | hphase
          · rw [hphase.1] at htaken
            cases htaken
          · rw [hphase.1] at htaken
            cases htaken
        · rw [Function.update_of_ne hji] at htaken
          exact ⟨hhands.ne hji (by simp [htaken]), .inr (.inr ⟨j, htaken⟩)⟩
    rw [hother other hbefore.1]
    exact h.waiting other hbefore.2
  · intro other hrunning
    obtain ⟨j, hrunning⟩ := hrunning
    rw [hworkers] at hrunning
    by_cases hji : j = i
    · rw [hji, Function.update_self] at hrunning
      rcases hphase with hphase | hphase
      · rw [hphase.1] at hrunning
        cases hrunning
        rw [hself, hphase.2]
      · rw [hphase.1] at hrunning
        cases hrunning
    · rw [Function.update_of_ne hji] at hrunning
      rw [hother other (hhands.ne hji (by simp [hrunning]))]
      exact h.running other ⟨j, hrunning⟩
  · intro other hdone
    rcases hdone with hdone | hmem
    · obtain ⟨j, hdone⟩ := hdone
      rw [hworkers] at hdone
      by_cases hji : j = i
      · rw [hji, Function.update_self] at hdone
        rcases hphase with hphase | hphase
        · rw [hphase.1] at hdone
          cases hdone
        · rw [hphase.1] at hdone
          cases hdone
          rw [hself, hphase.2]
      · rw [Function.update_of_ne hji] at hdone
        rw [hother other (hhands.ne hji (by simp [hdone]))]
        exact h.done other (.inl ⟨j, hdone⟩)
    · rw [hfinished] at hmem
      have hne : other ≠ task := fun heq => hhands.finished (heq ▸ hmem)
      rw [hother other hne]
      exact h.done other (.inr hmem)
  · rw [hstate]
    exact hexecuted
  · intro other hbegun
    rw [haccepted]
    by_cases heq : other = task
    · rw [heq]
      exact hhands.accepted
    · rw [hother other heq] at hbegun
      exact h.begun other hbegun

theorem Handles.run (h : pool.Handles) (hledger : pool.Ledger) (hnames : pool.Names) {i : Fin n}
    (hs : RunStep i pool pool') : pool'.Handles := by
  cases hs with
  | @popLocal task rest hphase hqueue =>
      have hmem : task ∈ pool.localQueue i := by simp [hqueue]
      refine h.of_worker rfl rfl rfl rfl (fun _ hmem => hmem) ?_ ?_ (by simp) (by simp)
        (fun _ hmem => .inr hmem)
      · intro j other hother
        by_cases hji : j = i
        · subst hji
          have : other ∈ rest := by simpa [setLocalQueue, setPhase, setWorker] using hother
          simp [hqueue, this]
        · simpa [setLocalQueue, setPhase, setWorker, hji] using hother
      · intro other hother
        cases hother
        exact .inr (.inl ⟨i, hmem⟩)
  | @popGlobal task rest hphase hqueue =>
      refine h.of_worker rfl rfl rfl rfl ?_ (fun _ _ hmem => hmem) ?_ (by simp) (by simp)
        (fun _ hmem => .inr hmem)
      · intro other hother
        rw [hqueue]
        exact List.mem_cons_of_mem _ hother
      · intro other hother
        cases hother
        exact .inl (by simp [hqueue])
  | @steal task rest victim hphase hne hqueue =>
      have hmem : task ∈ pool.localQueue victim := by simp [hqueue]
      refine h.of_worker rfl rfl rfl rfl (fun _ hmem => hmem) ?_ ?_ (by simp) (by simp)
        (fun _ hmem => .inr hmem)
      · intro j other hother
        by_cases hjv : j = victim
        · subst hjv
          have : other ∈ rest := by simpa [setLocalQueue, setPhase, setWorker] using hother
          simp [hqueue, this]
        · simpa [setLocalQueue, setPhase, setWorker, hjv] using hother
      · intro other hother
        cases hother
        exact .inr (.inl ⟨victim, hmem⟩)
  | @execute task hphase hpending =>
      have hhands := hledger.inHands hnames i task (by simp [hphase])
      refine h.of_task hhands rfl rfl rfl rfl rfl rfl (.inl ⟨rfl, rfl⟩) ?_
      intro other
      have hcount := h.executed other
      by_cases heq : other = task
      · rw [heq, if_pos hpending] at hcount
        simp [setPhase, setWorker, setTaskState, heq, hcount]
      · simpa [setPhase, setWorker, setTaskState, heq, Ne.symm heq] using hcount
  | @executeAgain task hphase hpending =>
      exact absurd (h.waiting task (.inr (.inr ⟨i, hphase⟩))) hpending
  | @finishTask task result hphase hfree hready =>
      have hhands := hledger.inHands hnames i task (by simp [hphase])
      refine h.of_task hhands rfl rfl rfl rfl rfl rfl (.inr ⟨rfl, hready⟩) ?_
      intro other
      have hcount := h.executed other
      by_cases heq : other = task
      · rw [heq, h.running task ⟨i, hphase⟩] at hcount
        have hne : result ≠ .pending := by
          intro hpending
          rw [hpending] at hready
          cases hready
        simp [setPhase, setWorker, setTaskState, heq, hcount, hne]
      · simpa [setPhase, setWorker, setTaskState, heq] using hcount
  | @taskCompleted task hphase =>
      refine h.of_worker rfl rfl rfl rfl (fun _ hmem => hmem) (fun _ _ hmem => hmem) (by simp)
        (by simp) (by simp) ?_
      intro other hother
      rcases List.mem_append.mp hother with hmem | hmem
      · exact .inr hmem
      · rw [List.mem_singleton.mp hmem]
        exact .inl ⟨i, hphase⟩
  | checkStop | checkDrain =>
      refine h.of_worker rfl rfl rfl rfl (fun _ hmem => hmem) (fun _ _ hmem => hmem) ?_ ?_ ?_
        (fun _ hmem => .inr hmem)
      all_goals
        intro other
        split <;> simp
  | _ =>
      exact h.of_worker rfl rfl rfl rfl (fun _ hmem => hmem) (fun _ _ hmem => hmem) (by simp)
        (by simp) (by simp) (fun _ hmem => .inr hmem)

/-- A submitted task has not been begun when it goes into a queue. -/
theorem Handles.pending_of_offered (h : pool.Handles) (hnames : pool.Names)
    {thread : PoolThread n} {part : LifecycleSection} {task : TaskId}
    (hholder : pool.holder = some (thread, part)) (hpart : part.offered = some task) :
    pool.taskState task = .pending := by
  by_contra hbegun
  exact (hnames.offered thread part task hholder hpart).2.1 (h.begun task hbegun)

theorem Handles.submit (h : pool.Handles) (hnames : pool.Names)
    (hs : SubmitStep capacity pool pool') : pool'.Handles := by
  cases hs with
  | @pushLocal i task hholder =>
      have hpending := h.pending_of_offered hnames hholder rfl
      refine h.of_moves rfl rfl (fun _ hmem => List.mem_append_left _ hmem) ?_
        (fun _ hrunning => hrunning) (fun _ hdone => hdone)
      intro other hother
      rcases hother with hglobal | hlocal | hphase
      · exact .inl (.inl hglobal)
      · obtain ⟨j, hmem⟩ := hlocal
        by_cases hji : j = i
        · subst hji
          have : other ∈ pool.localQueue j ∨ other = task := by
            simpa [goto, setLocalQueue] using hmem
          rcases this with hold | hnew
          · exact .inl (.inr (.inl ⟨j, hold⟩))
          · rw [hnew]
            exact .inr hpending
        · refine .inl (.inr (.inl ⟨j, ?_⟩))
          simpa [goto, setLocalQueue, hji] using hmem
      · exact .inl (.inr (.inr hphase))
  | @pushGlobal k task hholder =>
      have hpending := h.pending_of_offered hnames hholder rfl
      refine h.of_moves rfl rfl (fun _ hmem => List.mem_append_left _ hmem) ?_
        (fun _ hrunning => hrunning) (fun _ hdone => hdone)
      intro other hother
      rcases hother with hglobal | hlocal | hphase
      · rcases List.mem_append.mp hglobal with hold | hnew
        · exact .inl (.inl hold)
        · rw [List.mem_singleton.mp hnew]
          exact .inr hpending
      · exact .inl (.inr (.inl hlocal))
      · exact .inl (.inr (.inr hphase))
  | _ =>
      exact h.of_moves rfl rfl (fun _ hmem => hmem) (fun _ hwaiting => .inl hwaiting)
        (fun _ hrunning => hrunning) (fun _ hdone => hdone)

/-- `start` and `stop` create and join threads that have no task. -/
theorem Handles.of_thread (h : pool.Handles) {i : Fin n} {worker : Worker}
    (hstate : pool'.taskState = pool.taskState) (hexecuted : pool'.executed = pool.executed)
    (haccepted : pool'.accepted = pool.accepted) (hqueue : pool'.queue = pool.queue)
    (hlocal : pool'.localQueue = pool.localQueue) (hfinished : pool'.finished = pool.finished)
    (hworkers : pool'.workers = Function.update pool.workers i worker)
    (hphase : worker.phase = .absent ∨ worker.phase = .popLocal) : pool'.Handles := by
  refine h.of_worker hstate hexecuted haccepted hworkers ?_ ?_ ?_ ?_ ?_ ?_
  · rw [hqueue]
    exact fun _ hmem => hmem
  · rw [hlocal]
    exact fun _ _ hmem => hmem
  · rcases hphase with hphase | hphase <;> simp [hphase]
  · rcases hphase with hphase | hphase <;> simp [hphase]
  · rcases hphase with hphase | hphase <;> simp [hphase]
  · rw [hfinished]
    exact fun _ hmem => .inr hmem

/-- A request to stop changes no phase. -/
theorem Handles.of_request (h : pool.Handles) (hstate : pool'.taskState = pool.taskState)
    (hexecuted : pool'.executed = pool.executed) (haccepted : pool'.accepted = pool.accepted)
    (hqueue : pool'.queue = pool.queue) (hlocal : pool'.localQueue = pool.localQueue)
    (hfinished : pool'.finished = pool.finished)
    (hphase : ∀ j, (pool'.workers j).phase = (pool.workers j).phase) : pool'.Handles := by
  refine h.of_moves hstate hexecuted (by rw [haccepted]; exact fun _ hmem => hmem) ?_ ?_ ?_
  · intro task htask
    simp only [IsWaiting, hqueue, hlocal, hphase] at htask
    exact .inl htask
  · intro task htask
    simpa only [IsRunning, hphase] using htask
  · intro task htask
    simpa only [IsDone, hphase, hfinished] using htask

theorem phase_setWorker {i : Fin n} {worker : Worker}
    (h : worker.phase = (pool.workers i).phase) (j : Fin n) :
    (Function.update pool.workers i worker j).phase = (pool.workers j).phase := by
  by_cases hji : j = i
  · subst hji
    simpa using h
  · simp [hji]

theorem Handles.start (h : pool.Handles) (hs : StartStep pool pool') : pool'.Handles := by
  cases hs with
  | alreadyRunning => exact h
  | launch => exact h.of_thread rfl rfl rfl rfl rfl rfl rfl (.inr rfl)
  | unwindJoin => exact h.of_thread rfl rfl rfl rfl rfl rfl rfl (.inl rfl)
  | fail | unwindRequest =>
      exact h.of_request rfl rfl rfl rfl rfl rfl (phase_setWorker rfl)
  | _ => exact h.of_request rfl rfl rfl rfl rfl rfl (fun _ => rfl)

theorem Handles.stop (h : pool.Handles) {k : ℕ} (hs : StopStep k pool pool') :
    pool'.Handles := by
  cases hs with
  | join => exact h.of_thread rfl rfl rfl rfl rfl rfl rfl (.inl rfl)
  | requestStop => exact h.of_request rfl rfl rfl rfl rfl rfl (phase_setWorker rfl)
  | _ => exact h.of_request rfl rfl rfl rfl rfl rfl (fun _ => rfl)

theorem Handles.step (h : pool.Handles) (hledger : pool.Ledger) (hnames : pool.Names)
    (hs : Step capacity pool pool') : pool'.Handles := by
  cases hs with
  | run i hs => exact h.run hledger hnames hs
  | submit hs => exact h.submit hnames hs
  | start hs => exact h.start hs
  | stop k hs => exact h.stop hs

end ThreadPool

end GiveMePi
