import GiveMePi.Scheduler.ThreadPool

/-! # Sections, states and threads

Which sections of the mutex and which calls of `stop` are possible while the pool is stopped,
running or stopping, and what one step of each thread does to them. -/

namespace GiveMePi

/-- `submit` has found the pool running and may still count or push. -/
def LifecycleSection.isAdmitted : LifecycleSection → Bool
  | submitCount _ | submitPush _ | submitUndo _ => true
  | submitReturn _ _ | startWorker _ | unwindRequest _ | unwindJoin _ => false

/-- The section is one of `start`. -/
def LifecycleSection.isStart : LifecycleSection → Bool
  | startWorker _ | unwindRequest _ | unwindJoin _ => true
  | submitCount _ | submitPush _ | submitUndo _ | submitReturn _ _ => false

/-- The call has set the state to stopping and will set it to stopped. -/
def StopCall.isStopping : StopCall → Bool
  | requestStop _ | join _ => true
  | idle | awaitGeneration _ => false

namespace ThreadPool

variable {n capacity : ℕ} {pool pool' : ThreadPool n}

/-! ## Sections and states -/

/-- What the state of the pool says about the owner of the mutex and the callers of `stop`. -/
structure Control (pool : ThreadPool n) : Prop where
  admitted : ∀ thread part, pool.holder = some (thread, part) → part.isAdmitted = true →
    pool.state = .running ∧ 0 < n
  starting : ∀ thread part, pool.holder = some (thread, part) → part.isStart = true →
    pool.state = .stopped
  stopping : ∀ k, (pool.stopCall k).isStopping = true → pool.state = .stopping
  oneStopper : ∀ k l, (pool.stopCall k).isStopping = true →
    (pool.stopCall l).isStopping = true → k = l

theorem Control.create : (create n).Control where
  admitted := by simp [ThreadPool.create]
  starting := by simp [ThreadPool.create]
  stopping := by simp [ThreadPool.create, StopCall.isStopping]
  oneStopper := by simp [ThreadPool.create, StopCall.isStopping]

/-- A step that moves only the owner of the mutex. -/
theorem Control.of_holder (h : pool.Control) (hstate : pool'.state = pool.state)
    (hstop : pool'.stopCall = pool.stopCall)
    (hadmitted : ∀ thread part, pool'.holder = some (thread, part) → part.isAdmitted = true →
      pool.state = .running ∧ 0 < n)
    (hstarting : ∀ thread part, pool'.holder = some (thread, part) → part.isStart = true →
      pool.state = .stopped) : pool'.Control where
  admitted := by rw [hstate]; exact hadmitted
  starting := by rw [hstate]; exact hstarting
  stopping := by rw [hstate, hstop]; exact h.stopping
  oneStopper := by rw [hstop]; exact h.oneStopper

/-- What a step of a worker does to the state of the pool and to the worker. -/
structure RunEffect (i : Fin n) (pool pool' : ThreadPool n) (phase : WorkerPhase) : Prop where
  state : pool'.state = pool.state
  holder : pool'.holder = pool.holder
  stopCall : pool'.stopCall = pool.stopCall
  workers : pool'.workers = Function.update pool.workers i { pool.workers i with phase }
  present : (pool.workers i).phase ≠ .absent ∧ (pool.workers i).phase ≠ .exited
  stays : phase ≠ .absent
  asked : phase = .checkDrain → (pool.workers i).stopRequested = true
  leaves : phase = .exited →
    (pool.workers i).phase = .checkDrain ∧ pool.outstandingTasks = 0
  outstanding : pool'.outstandingTasks = pool.outstandingTasks ∨
    phase ≠ .exited ∧ ∃ task, (pool.workers i).phase = .taskCompleted task

theorem RunStep.effect {i : Fin n} (h : RunStep i pool pool') :
    ∃ phase, RunEffect i pool pool' phase := by
  cases h with
  | checkStop hphase =>
      refine ⟨_, rfl, rfl, rfl, rfl, ?_, ?_, ?_, ?_, .inl rfl⟩
      · simp [hphase]
      · split <;> simp
      · by_cases h : (pool.workers i).stopRequested = true
        · simp [h]
        · simp [h]
      · split <;> simp
  | checkDrain hphase =>
      refine ⟨_, rfl, rfl, rfl, rfl, ?_, ?_, ?_, ?_, .inl rfl⟩
      · simp [hphase]
      · split <;> simp
      · split <;> simp
      · by_cases h : pool.outstandingTasks = 0
        · simp [h, hphase]
        · simp [h]
  | taskCompleted hphase =>
      refine ⟨_, rfl, rfl, rfl, rfl, ?_, ?_, ?_, ?_, .inr ⟨?_, _, hphase⟩⟩
      · simp [hphase]
      all_goals simp
  | _ =>
      refine ⟨_, rfl, rfl, rfl, rfl, ?_, ?_, ?_, ?_, .inl rfl⟩
      · simp [*]
      all_goals simp

theorem Control.run (h : pool.Control) {i : Fin n} (hs : RunStep i pool pool') :
    pool'.Control := by
  obtain ⟨phase, heffect⟩ := hs.effect
  refine h.of_holder heffect.state heffect.stopCall ?_ ?_
  · rw [heffect.holder]
    exact h.admitted
  · rw [heffect.holder]
    exact h.starting

/-- What a step of `submit` does to the state of the pool and to the count. -/
structure SubmitEffect (pool pool' : ThreadPool n) : Prop where
  state : pool'.state = pool.state
  stopCall : pool'.stopCall = pool.stopCall
  workers : pool'.workers = pool.workers
  wasNotStart : ∀ thread part, pool.holder = some (thread, part) → part.isStart = false
  notStart : ∀ thread part, pool'.holder = some (thread, part) → part.isStart = false
  admitted : ∀ thread part, pool'.holder = some (thread, part) → part.isAdmitted = true →
    pool.state = .running ∧ 0 < n ∨
      ∃ part', pool.holder = some (thread, part') ∧ part'.isAdmitted = true
  outstanding : pool'.outstandingTasks = pool.outstandingTasks ∨
    ∃ thread part, pool.holder = some (thread, part) ∧ part.isAdmitted = true

theorem SubmitStep.effect (h : SubmitStep capacity pool pool') : SubmitEffect pool pool' := by
  cases h with
  | enter valid hcall =>
      refine ⟨rfl, rfl, rfl, by simp [hcall.1], ?_, ?_, .inl rfl⟩
      · intro thread part hpart
        simp only [goto, Option.some.injEq, Prod.mk.injEq] at hpart
        rw [← hpart.2]
        split <;> rfl
      · intro thread part hpart hadmitted
        simp only [goto, Option.some.injEq, Prod.mk.injEq] at hpart
        rw [← hpart.2] at hadmitted
        split at hadmitted
        · rename_i h
          exact .inl ⟨h.1, h.2.1⟩
        · simp [LifecycleSection.isAdmitted] at hadmitted
  | grant hholder | reject hholder =>
      refine ⟨rfl, rfl, rfl, ?_, by simp, by simp, .inl rfl⟩
      simp [hholder, LifecycleSection.isStart]
  | _ hholder =>
      refine ⟨rfl, rfl, rfl, ?_, ?_, ?_, ?_⟩
      · simp [hholder, LifecycleSection.isStart]
      · simp [goto, LifecycleSection.isStart]
      · intro thread part hpart hadmitted
        simp only [goto, Option.some.injEq, Prod.mk.injEq] at hpart
        rw [← hpart.1]
        exact .inr ⟨_, hholder, rfl⟩
      · exact .inr ⟨_, _, hholder, rfl⟩

theorem Control.submit (h : pool.Control) (hs : SubmitStep capacity pool pool') :
    pool'.Control := by
  have heffect := hs.effect
  refine h.of_holder heffect.state heffect.stopCall ?_ ?_
  · intro thread part hpart hadmitted
    rcases heffect.admitted thread part hpart hadmitted with hnow | hbefore
    · exact hnow
    · obtain ⟨part', hpart', hadmitted'⟩ := hbefore
      exact h.admitted thread part' hpart' hadmitted'
  · intro thread part hpart hstart
    rw [heffect.notStart thread part hpart] at hstart
    cases hstart

theorem Control.start (h : pool.Control) (hs : StartStep pool pool') : pool'.Control := by
  cases hs with
  | alreadyRunning => exact h
  | enter hcall hstate =>
      refine h.of_holder rfl rfl ?_ (fun _ _ _ _ => hstate)
      simp [goto, LifecycleSection.isAdmitted]
  | started hholder =>
      have hstate := h.starting _ _ hholder rfl
      refine ⟨by simp, by simp, ?_, h.oneStopper⟩
      intro k hk
      rw [h.stopping k hk] at hstate
      cases hstate
  | unwound hholder =>
      have hstate := h.starting _ _ hholder rfl
      refine ⟨by simp, by simp, ?_, h.oneStopper⟩
      intro k hk
      rw [h.stopping k hk] at hstate
      cases hstate
  | _ hholder =>
      have hstate := h.starting _ _ hholder rfl
      refine h.of_holder rfl rfl ?_ (fun _ _ _ _ => hstate)
      simp [goto, LifecycleSection.isAdmitted]

/-- A caller of `stop` goes on, and none begins to stop the pool. -/
theorem Control.of_stopCall (h : pool.Control) (hstate : pool'.state = pool.state)
    (hholder : pool'.holder = pool.holder)
    (hstop : ∀ l, (pool'.stopCall l).isStopping = true → (pool.stopCall l).isStopping = true) :
    pool'.Control where
  admitted := by rw [hstate, hholder]; exact h.admitted
  starting := by rw [hstate, hholder]; exact h.starting
  stopping := by
    intro k hk
    rw [hstate]
    exact h.stopping k (hstop k hk)
  oneStopper := by
    intro k l hk hl
    exact h.oneStopper k l (hstop k hk) (hstop l hl)

theorem isStopping_update {calls : ℕ → StopCall} {k : ℕ} {call : StopCall}
    (h : call.isStopping = true → (calls k).isStopping = true) :
    ∀ l, (Function.update calls k call l).isStopping = true → (calls l).isStopping = true := by
  intro l hl
  by_cases hlk : l = k
  · subst hlk
    rw [Function.update_self] at hl
    exact h hl
  · rwa [Function.update_of_ne hlk] at hl

theorem Control.stop (h : pool.Control) {k : ℕ} (hs : StopStep k pool pool') :
    pool'.Control := by
  cases hs with
  | alreadyStopped => exact h
  | enter hcall hstate =>
      have hnone := hcall.1
      have hidle : ∀ l, ¬ (pool.stopCall l).isStopping = true := by
        intro l hl
        rw [h.stopping l hl] at hstate
        cases hstate
      have honly : ∀ l, (Function.update pool.stopCall k (.requestStop 0) l).isStopping = true →
          l = k := by
        intro l hl
        by_contra hlk
        rw [Function.update_of_ne hlk] at hl
        exact hidle l hl
      refine ⟨by simp [setStopCall, hnone], by simp [setStopCall, hnone], fun _ _ => rfl, ?_⟩
      intro l m hl hm
      rw [honly l hl, honly m hm]
  | finish hjoin hnone =>
      have hk : (pool.stopCall k).isStopping = true := by simp [hjoin, StopCall.isStopping]
      have hidle : ∀ l, ¬ (Function.update pool.stopCall k .idle l).isStopping = true := by
        intro l hl
        by_cases hlk : l = k
        · simp [hlk, StopCall.isStopping] at hl
        · rw [Function.update_of_ne hlk] at hl
          exact hlk (h.oneStopper l k hl hk)
      exact ⟨by simp [setStopCall, hnone], by simp [setStopCall, hnone],
        fun l hl => absurd hl (hidle l), fun l _ hl => absurd hl (hidle l)⟩
  | await | resume =>
      refine h.of_stopCall rfl rfl (isStopping_update ?_)
      simp [StopCall.isStopping]
  | _ hcall =>
      refine h.of_stopCall rfl rfl (isStopping_update ?_)
      simp [hcall, setWorker, StopCall.isStopping]

theorem Control.step (h : pool.Control) (hs : Step capacity pool pool') : pool'.Control := by
  cases hs with
  | run i hs => exact h.run hs
  | submit hs => exact h.submit hs
  | start hs => exact h.start hs
  | stop k hs => exact h.stop hs

/-- While `start` holds the mutex, no one is stopping the pool. -/
theorem Control.not_join (h : pool.Control) {thread : PoolThread n} {part : LifecycleSection}
    (hholder : pool.holder = some (thread, part)) (hstart : part.isStart = true) (l k : ℕ) :
    pool.stopCall l ≠ .join k := by
  intro hjoin
  have hstopped := h.starting thread part hholder hstart
  rw [h.stopping l (by simp [hjoin, StopCall.isStopping])] at hstopped
  cases hstopped

/-! ## Threads -/

/-- `running_` says whether a worker has a thread. -/
def HasThreads (pool : ThreadPool n) : Prop :=
  ∀ i, (pool.workers i).running = true ↔ (pool.workers i).phase ≠ .absent

theorem HasThreads.create : (create n).HasThreads := by
  intro i
  simp [ThreadPool.create]

theorem HasThreads.absent (h : pool.HasThreads) {k : Fin n}
    (hrunning : (pool.workers k).running = false) : (pool.workers k).phase = .absent := by
  by_contra hne
  rw [(h k).mpr hne] at hrunning
  cases hrunning

theorem HasThreads.of_update (h : pool.HasThreads) {i : Fin n} {worker : Worker}
    (hworkers : pool'.workers = Function.update pool.workers i worker)
    (hworker : worker.running = true ↔ worker.phase ≠ .absent) : pool'.HasThreads := by
  intro j
  rw [hworkers]
  by_cases hji : j = i
  · subst hji
    simpa using hworker
  · simpa [hji] using h j

theorem HasThreads.step (h : pool.HasThreads) (hs : Step capacity pool pool') :
    pool'.HasThreads := by
  cases hs with
  | run i hs =>
      obtain ⟨phase, heffect⟩ := hs.effect
      refine h.of_update heffect.workers ?_
      simp [heffect.stays, (h i).mpr heffect.present.1]
  | submit hs =>
      intro i
      rw [hs.effect.workers]
      exact h i
  | start hs =>
      cases hs with
      | launch => exact h.of_update rfl (by simp)
      | unwindJoin => exact h.of_update rfl (by simp)
      | fail | unwindRequest => exact h.of_update rfl (h _)
      | _ => exact h
  | stop k hs =>
      cases hs with
      | join => exact h.of_update rfl (by simp)
      | requestStop => exact h.of_update rfl (h _)
      | _ => exact h

end ThreadPool

end GiveMePi
