import GiveMePi.Scheduler.TaskLedger

/-! # The crew

A worker leaves its loop only when no task is counted, and `submit` counts tasks only while every
worker is up, so no task is counted that nobody will take. -/

namespace GiveMePi

/-- The thread of the worker exists and has no request to stop. -/
def Worker.IsUp (worker : Worker) : Prop :=
  worker.phase ≠ .absent ∧ worker.phase ≠ .exited ∧ worker.stopRequested = false

/-- A worker that may leave has been asked to, and one that has left has seen no task counted. -/
structure Worker.IsSound (worker : Worker) (outstanding : ℤ) : Prop where
  asked : worker.phase = .checkDrain ∨ worker.phase = .exited → worker.stopRequested = true
  drained : worker.phase = .exited ∨ worker.phase = .absent → outstanding = 0

namespace ThreadPool

variable {n capacity : ℕ} {pool pool' : ThreadPool n}

/-- Worker `i` has to be up: the pool is running, or `start` has got past it. -/
def MustBeUp (pool : ThreadPool n) (i : Fin n) : Prop :=
  pool.state = .running ∨ ∃ thread k, pool.holder = some (thread, .startWorker k) ∧ i < k

/-- Worker `i` has no thread: `start` has not reached it, `start` or `stop` has joined it, or the
pool is stopped. -/
def MustBeAbsent (pool : ThreadPool n) (i : Fin n) : Prop :=
  (∃ thread k, pool.holder = some (thread, .startWorker k) ∧ k ≤ i) ∨
  (∃ thread k, (pool.holder = some (thread, .unwindRequest k) ∨
    pool.holder = some (thread, .unwindJoin k)) ∧ i < k) ∨
  (∃ l k, pool.stopCall l = .join k ∧ i < k) ∨
  (pool.state = .stopped ∧ ∀ thread part, pool.holder = some (thread, part) → part.isStart = false)

/-- No worker is without a thread, or on its way out, while a counted task is left. -/
structure Crew (pool : ThreadPool n) : Prop where
  sound : ∀ i, (pool.workers i).IsSound pool.outstandingTasks
  empty : n = 0 ∨ pool.state = .stopped → pool.outstandingTasks = 0
  up : ∀ i, pool.MustBeUp i → (pool.workers i).IsUp
  absent : ∀ i, pool.MustBeAbsent i → (pool.workers i).phase = .absent

theorem Crew.create : (create n).Crew where
  sound i := ⟨by simp [ThreadPool.create], by simp [ThreadPool.create]⟩
  empty := by simp [ThreadPool.create]
  up := by simp [ThreadPool.create, MustBeUp]
  absent := by simp [ThreadPool.create]

theorem Crew.run (h : pool.Crew) (hledger : pool.Ledger) {i : Fin n}
    (hs : RunStep i pool pool') : pool'.Crew := by
  obtain ⟨phase, heffect⟩ := hs.effect
  have hother : ∀ j, j ≠ i → pool'.workers j = pool.workers j := by
    intro j hji
    rw [heffect.workers, Function.update_of_ne hji]
  have hself : pool'.workers i = { pool.workers i with phase } := by
    rw [heffect.workers, Function.update_self]
  -- the count changes only when a task is finished, and then no worker has left
  have hcount : pool.outstandingTasks = 0 → pool'.outstandingTasks = 0 := by
    intro hzero
    rcases heffect.outstanding with hsame | hdone
    · rw [hsame, hzero]
    · obtain ⟨_, task, htask⟩ := hdone
      have := hledger.outstanding_pos (i := i) (by simp [htask])
      omega
  have hup : pool'.MustBeUp = pool.MustBeUp := by
    funext j
    simp only [MustBeUp, heffect.state, heffect.holder]
  have habsent : pool'.MustBeAbsent = pool.MustBeAbsent := by
    funext j
    simp only [MustBeAbsent, heffect.state, heffect.holder, heffect.stopCall]
  have hleaves : phase = .exited →
      (pool.workers i).stopRequested = true ∧ pool.outstandingTasks = 0 := by
    intro hexited
    have hleft := heffect.leaves hexited
    exact ⟨(h.sound i).asked (.inl hleft.1), hleft.2⟩
  refine ⟨?_, ?_, ?_, ?_⟩
  · intro j
    by_cases hji : j = i
    · subst hji
      rw [hself]
      refine ⟨?_, ?_⟩
      · intro hj
        rcases hj with hj | hj
        · exact heffect.asked hj
        · exact (hleaves hj).1
      · intro hj
        rcases hj with hj | hj
        · exact hcount (hleaves hj).2
        · exact absurd hj heffect.stays
    · rw [hother j hji]
      exact ⟨(h.sound j).asked, fun hj => hcount ((h.sound j).drained hj)⟩
  · rw [heffect.state]
    intro hempty
    exact hcount (h.empty hempty)
  · intro j hj
    rw [hup] at hj
    have hupj := h.up j hj
    by_cases hji : j = i
    · subst hji
      rw [hself]
      refine ⟨heffect.stays, ?_, hupj.2.2⟩
      intro hexited
      have := hupj.2.2
      rw [(hleaves hexited).1] at this
      cases this
    · rw [hother j hji]
      exact hupj
  · intro j hj
    rw [habsent] at hj
    have hgone := h.absent j hj
    by_cases hji : j = i
    · subst hji
      exact absurd hgone heffect.present.1
    · rw [hother j hji]
      exact hgone

theorem Crew.submit (h : pool.Crew) (hcontrol : pool.Control)
    (hs : SubmitStep capacity pool pool') : pool'.Crew := by
  have heffect := hs.effect
  have hcount : (n = 0 ∨ pool.state = .stopped) ∨
      (∃ i, (pool.workers i).phase = .exited ∨ (pool.workers i).phase = .absent) →
      pool'.outstandingTasks = 0 := by
    intro hquiet
    rcases heffect.outstanding with hsame | hadmitted
    · rw [hsame]
      rcases hquiet with hempty | hleft
      · exact h.empty hempty
      · obtain ⟨i, hi⟩ := hleft
        exact (h.sound i).drained hi
    · obtain ⟨thread, part, hpart, hadmitted⟩ := hadmitted
      have hrunning := hcontrol.admitted thread part hpart hadmitted
      rcases hquiet with hempty | hleft
      · rcases hempty with hzero | hstopped
        · omega
        · rw [hrunning.1] at hstopped
          cases hstopped
      · obtain ⟨i, hi⟩ := hleft
        have hup := h.up i (.inl hrunning.1)
        rcases hi with hi | hi
        · exact absurd hi hup.2.1
        · exact absurd hi hup.1
  refine ⟨?_, ?_, ?_, ?_⟩
  · rw [heffect.workers]
    intro i
    exact ⟨(h.sound i).asked, fun hi => hcount (.inr ⟨i, hi⟩)⟩
  · rw [heffect.state]
    intro hempty
    exact hcount (.inl hempty)
  · intro i hi
    rw [heffect.workers]
    rcases hi with hrunning | hstart
    · rw [heffect.state] at hrunning
      exact h.up i (.inl hrunning)
    · obtain ⟨thread, k, hholder, _⟩ := hstart
      have := heffect.notStart thread _ hholder
      cases this
  · intro i hi
    rw [heffect.workers]
    rcases hi with hstart | hunwind | hjoin | hstopped
    · obtain ⟨thread, k, hholder, _⟩ := hstart
      have := heffect.notStart thread _ hholder
      cases this
    · obtain ⟨thread, k, hholder, _⟩ := hunwind
      rcases hholder with hholder | hholder
      · have := heffect.notStart thread _ hholder
        cases this
      · have := heffect.notStart thread _ hholder
        cases this
    · rw [heffect.stopCall] at hjoin
      exact h.absent i (.inr (.inr (.inl hjoin)))
    · rw [heffect.state] at hstopped
      exact h.absent i (.inr (.inr (.inr ⟨hstopped.1, heffect.wasNotStart⟩)))

theorem isSound_update {workers : Fin n → Worker} {k : Fin n} {worker : Worker}
    {outstanding : ℤ} (h : ∀ i, (workers i).IsSound outstanding)
    (hk : worker.IsSound outstanding) :
    ∀ i, (Function.update workers k worker i).IsSound outstanding := by
  intro i
  by_cases hik : i = k
  · subst hik
    simpa using hk
  · simpa [hik] using h i

/-- `start` goes on: its own place in the section says who is up and who is absent. -/
theorem Crew.of_start (h : pool.Crew) (hcontrol : pool.Control) {thread : PoolThread n}
    {part part' : LifecycleSection} (hholder : pool.holder = some (thread, part))
    (hstart : part.isStart = true) (hstart' : part'.isStart = true)
    (hstate : pool'.state = pool.state) (hstop : pool'.stopCall = pool.stopCall)
    (hholder' : pool'.holder = some (thread, part'))
    (hcount : pool'.outstandingTasks = pool.outstandingTasks)
    (hsound : ∀ i, (pool'.workers i).IsSound pool.outstandingTasks)
    (hup : ∀ k, part' = .startWorker k → ∀ i : Fin n, i < k → (pool'.workers i).IsUp)
    (habsent : ∀ k, (part' = .startWorker k → ∀ i : Fin n, k ≤ i →
        (pool'.workers i).phase = .absent) ∧
      (part' = .unwindRequest k ∨ part' = .unwindJoin k → ∀ i : Fin n, i < k →
        (pool'.workers i).phase = .absent)) : pool'.Crew := by
  have hstopped := hcontrol.starting thread part hholder hstart
  refine ⟨?_, ?_, ?_, ?_⟩
  · rwa [hcount]
  · rw [hcount, hstate]
    exact h.empty
  · intro i hi
    rcases hi with hrunning | hlaunched
    · rw [hstate, hstopped] at hrunning
      cases hrunning
    · obtain ⟨thread', k, hpart, hik⟩ := hlaunched
      rw [hholder', Option.some.injEq, Prod.mk.injEq] at hpart
      exact hup k hpart.2 i hik
  · intro i hi
    rcases hi with hlaunched | hunwind | hjoin | hquiet
    · obtain ⟨thread', k, hpart, hki⟩ := hlaunched
      rw [hholder', Option.some.injEq, Prod.mk.injEq] at hpart
      exact (habsent k).1 hpart.2 i hki
    · obtain ⟨thread', k, hpart, hik⟩ := hunwind
      simp only [hholder', Option.some.injEq, Prod.mk.injEq] at hpart
      rcases hpart with hpart | hpart
      · exact (habsent k).2 (.inl hpart.2) i hik
      · exact (habsent k).2 (.inr hpart.2) i hik
    · obtain ⟨l, k, hjoin, _⟩ := hjoin
      rw [hstop] at hjoin
      exact absurd hjoin (hcontrol.not_join hholder hstart l k)
    · rw [hquiet.2 thread part' hholder'] at hstart'
      cases hstart'

theorem Crew.start (h : pool.Crew) (hcontrol : pool.Control) (hthreads : pool.HasThreads)
    (hs : StartStep pool pool') : pool'.Crew := by
  cases hs with
  | alreadyRunning => exact h
  | @enter thread hcall hstopped =>
      have hall : ∀ i, (pool.workers i).phase = .absent := by
        intro i
        exact h.absent i (.inr (.inr (.inr ⟨hstopped, by simp [hcall.1]⟩)))
      refine ⟨h.sound, h.empty, ?_, fun i _ => hall i⟩
      intro i hi
      simp [MustBeUp, goto, hstopped] at hi
  | @skip thread k hholder hrunning =>
      have habsent := h.absent k (.inl ⟨thread, k, hholder, le_rfl⟩)
      exact absurd habsent ((hthreads k).mp hrunning)
  | @launch thread k hholder hrunning =>
      refine h.of_start hcontrol hholder rfl rfl rfl rfl rfl rfl ?_ ?_ ?_
      · exact isSound_update h.sound ⟨by simp, by simp⟩
      · intro l hl i hi
        cases hl
        by_cases hik : i = k
        · subst hik
          simp [goto, setWorker, Worker.IsUp]
        · have hlt : (i : ℕ) < k := by omega
          simpa [goto, setWorker, hik] using h.up i (.inr ⟨thread, k, hholder, hlt⟩)
      · intro l
        refine ⟨?_, by simp⟩
        intro hl i hi
        cases hl
        have hik : i ≠ k := by omega
        have hle : (k : ℕ) ≤ i := by omega
        simpa [goto, setWorker, hik] using h.absent i (.inl ⟨thread, k, hholder, hle⟩)
  | @fail thread k hholder hrunning =>
      have habsent := hthreads.absent hrunning
      refine h.of_start hcontrol hholder rfl rfl rfl rfl rfl rfl ?_ (by simp) ?_
      · exact isSound_update h.sound ⟨by simp [habsent], (h.sound k).drained⟩
      · intro l
        refine ⟨by simp, ?_⟩
        intro hl i hi
        simp only [LifecycleSection.unwindRequest.injEq, reduceCtorEq, or_false] at hl
        omega
  | @started thread hholder =>
      have hall : ∀ i, (pool.workers i).IsUp := by
        intro i
        exact h.up i (.inr ⟨thread, n, hholder, i.isLt⟩)
      have hzero : pool.outstandingTasks = 0 :=
        h.empty (.inr (hcontrol.starting _ _ hholder rfl))
      refine ⟨h.sound, fun _ => hzero, fun i _ => hall i, ?_⟩
      intro i hi
      simp [MustBeAbsent, hcontrol.not_join hholder rfl] at hi
  | @unwindRequest thread k hholder =>
      refine h.of_start hcontrol hholder rfl rfl rfl rfl rfl rfl ?_ (by simp) ?_
      · exact isSound_update h.sound ⟨by simp, (h.sound k).drained⟩
      · intro l
        refine ⟨by simp, ?_⟩
        intro hl i hi
        simp only [reduceCtorEq, LifecycleSection.unwindJoin.injEq, false_or] at hl
        have hik : i ≠ k := by omega
        have hlt : (i : ℕ) < k := by omega
        simpa [goto, setWorker, hik] using
          h.absent i (.inr (.inl ⟨thread, k, .inl hholder, hlt⟩))
  | @unwindSkip thread k hholder hrunning =>
      have habsent := hthreads.absent hrunning
      refine h.of_start hcontrol hholder rfl rfl rfl rfl rfl rfl h.sound (by simp) ?_
      intro l
      refine ⟨by simp, ?_⟩
      intro hl i hi
      simp only [LifecycleSection.unwindRequest.injEq, reduceCtorEq, or_false] at hl
      by_cases hik : i = k
      · subst hik
        exact habsent
      · have hlt : (i : ℕ) < k := by omega
        exact h.absent i (.inr (.inl ⟨thread, k, .inr hholder, hlt⟩))
  | @unwindJoin thread k hholder hrunning hexited =>
      refine h.of_start hcontrol hholder rfl rfl rfl rfl rfl rfl ?_ (by simp) ?_
      · exact isSound_update h.sound ⟨by simp, fun _ => (h.sound k).drained (.inl hexited)⟩
      · intro l
        refine ⟨by simp, ?_⟩
        intro hl i hi
        simp only [LifecycleSection.unwindRequest.injEq, reduceCtorEq, or_false] at hl
        by_cases hik : i = k
        · subst hik
          simp [goto, setWorker]
        · have hlt : (i : ℕ) < k := by omega
          simpa [goto, setWorker, hik] using
            h.absent i (.inr (.inl ⟨thread, k, .inr hholder, hlt⟩))
  | @unwound thread hholder =>
      have hall : ∀ i, (pool.workers i).phase = .absent := by
        intro i
        exact h.absent i (.inr (.inl ⟨thread, n, .inl hholder, i.isLt⟩))
      have hzero : pool.outstandingTasks = 0 :=
        h.empty (.inr (hcontrol.starting _ _ hholder rfl))
      refine ⟨h.sound, fun _ => hzero, ?_, fun i _ => hall i⟩
      intro i hi
      simp [MustBeUp] at hi

/-- A caller of `stop` goes on: its own place says which workers it has joined. -/
theorem Crew.of_stop (h : pool.Crew) (hcontrol : pool.Control) {k : ℕ}
    (hstopping : (pool.stopCall k).isStopping = true) (hstate : pool'.state = pool.state)
    (hholder : pool'.holder = pool.holder)
    (hcount : pool'.outstandingTasks = pool.outstandingTasks)
    (hsound : ∀ i, (pool'.workers i).IsSound pool.outstandingTasks)
    (hjoined : ∀ l m, pool'.stopCall l = .join m → ∀ i : Fin n, i < m →
      (pool'.workers i).phase = .absent) : pool'.Crew := by
  have hnow := hcontrol.stopping k hstopping
  have hnotStart : ∀ thread part, pool.holder = some (thread, part) → ¬ part.isStart = true := by
    intro thread part hpart hstart
    rw [hcontrol.starting thread part hpart hstart] at hnow
    cases hnow
  refine ⟨?_, ?_, ?_, ?_⟩
  · rwa [hcount]
  · rw [hcount, hstate]
    exact h.empty
  · intro i hi
    rcases hi with hrunning | hlaunched
    · rw [hstate, hnow] at hrunning
      cases hrunning
    · obtain ⟨thread, m, hpart, _⟩ := hlaunched
      rw [hholder] at hpart
      exact absurd rfl (hnotStart thread _ hpart)
  · intro i hi
    rcases hi with hlaunched | hunwind | hjoin | hquiet
    · obtain ⟨thread, m, hpart, _⟩ := hlaunched
      rw [hholder] at hpart
      exact absurd rfl (hnotStart thread _ hpart)
    · obtain ⟨thread, m, hpart, _⟩ := hunwind
      rw [hholder] at hpart
      rcases hpart with hpart | hpart
      · exact absurd rfl (hnotStart thread _ hpart)
      · exact absurd rfl (hnotStart thread _ hpart)
    · obtain ⟨l, m, hjoin, him⟩ := hjoin
      exact hjoined l m hjoin i him
    · rw [hstate, hnow] at hquiet
      cases hquiet.1

/-- The workers that some call has joined, after one call has gone on to another place. -/
theorem Crew.joined_update (h : pool.Crew) (workers : Fin n → Worker) {k : ℕ} {call : StopCall}
    (hphase : ∀ i, (pool.workers i).phase = .absent → (workers i).phase = .absent)
    (hcall : ∀ m, call = .join m → ∀ i : Fin n, i < m → (workers i).phase = .absent) :
    ∀ l m, Function.update pool.stopCall k call l = .join m → ∀ i : Fin n, i < m →
      (workers i).phase = .absent := by
  intro l m hjoin i him
  by_cases hlk : l = k
  · rw [hlk, Function.update_self] at hjoin
    exact hcall m hjoin i him
  · rw [Function.update_of_ne hlk] at hjoin
    exact hphase i (h.absent i (.inr (.inr (.inl ⟨l, m, hjoin, him⟩))))

theorem Crew.stop (h : pool.Crew) (hcontrol : pool.Control) (hthreads : pool.HasThreads)
    {k : ℕ} (hs : StopStep k pool pool') : pool'.Crew := by
  cases hs with
  | alreadyStopped => exact h
  | await | resume =>
      refine ⟨h.sound, h.empty, fun i hi => h.up i hi, ?_⟩
      intro i hi
      rcases hi with hlaunched | hunwind | hjoin | hquiet
      · exact h.absent i (.inl hlaunched)
      · exact h.absent i (.inr (.inl hunwind))
      · obtain ⟨l, m, hjoin, him⟩ := hjoin
        exact h.joined_update pool.workers (fun _ hi => hi) (by simp) l m hjoin i him
      · exact h.absent i (.inr (.inr (.inr hquiet)))
  | enter hcall hrunning =>
      refine ⟨h.sound, ?_, ?_, ?_⟩
      · intro hempty
        simp only [setStopCall, reduceCtorEq, or_false] at hempty
        exact h.empty (.inl hempty)
      · intro i hi
        simp [MustBeUp, setStopCall, hcall.1] at hi
      · intro i hi
        simp only [MustBeAbsent, setStopCall, hcall.1] at hi
        simp at hi
        obtain ⟨l, m, hjoin, him⟩ := hi
        exact h.joined_update pool.workers (fun _ hi => hi) (by simp) l m hjoin i him
  | @requestStop i hcall =>
      refine h.of_stop hcontrol (k := k) (by simp [hcall, StopCall.isStopping]) rfl rfl rfl ?_ ?_
      · exact isSound_update h.sound ⟨by simp, (h.sound i).drained⟩
      · refine h.joined_update _ ?_ (by simp)
        intro j hj
        by_cases hji : j = i
        · subst hji
          simpa [setStopCall, setWorker] using hj
        · simpa [setStopCall, setWorker, hji] using hj
  | requested hcall =>
      refine h.of_stop hcontrol (k := k) (by simp [hcall, StopCall.isStopping]) rfl rfl rfl
        h.sound ?_
      refine h.joined_update _ (fun _ hi => hi) ?_
      intro m hm i him
      cases hm
      omega
  | @joinSkip i hcall hrunning =>
      have habsent := hthreads.absent hrunning
      refine h.of_stop hcontrol (k := k) (by simp [hcall, StopCall.isStopping]) rfl rfl rfl
        h.sound ?_
      refine h.joined_update _ (fun _ hi => hi) ?_
      intro m hm j hj
      cases hm
      by_cases hji : j = i
      · rw [hji]
        exact habsent
      · have hlt : (j : ℕ) < i := by omega
        exact h.absent j (.inr (.inr (.inl ⟨k, i, hcall, hlt⟩)))
  | @join i hcall hrunning hexited =>
      refine h.of_stop hcontrol (k := k) (by simp [hcall, StopCall.isStopping]) rfl rfl rfl ?_ ?_
      · exact isSound_update h.sound ⟨by simp, fun _ => (h.sound i).drained (.inl hexited)⟩
      · refine h.joined_update _ ?_ ?_
        · intro j hj
          by_cases hji : j = i
          · simp [setStopCall, setWorker, hji]
          · simpa [setStopCall, setWorker, hji] using hj
        · intro m hm j hj
          cases hm
          by_cases hji : j = i
          · simp [setStopCall, setWorker, hji]
          · have hlt : (j : ℕ) < i := by omega
            simpa [setStopCall, setWorker, hji] using
              h.absent j (.inr (.inr (.inl ⟨k, i, hcall, hlt⟩)))
  | finish hcall hnone =>
      have hall : ∀ i, (pool.workers i).phase = .absent := by
        intro i
        exact h.absent i (.inr (.inr (.inl ⟨k, n, hcall, i.isLt⟩)))
      have hzero : pool.outstandingTasks = 0 := by
        by_cases hn : n = 0
        · exact h.empty (.inl hn)
        · exact (h.sound ⟨0, by omega⟩).drained (.inr (hall _))
      refine ⟨h.sound, fun _ => hzero, ?_, fun i _ => hall i⟩
      intro i hi
      simp [MustBeUp, setStopCall, hnone] at hi

theorem Crew.step (h : pool.Crew) (hcontrol : pool.Control) (hthreads : pool.HasThreads)
    (hledger : pool.Ledger) (hs : Step capacity pool pool') : pool'.Crew := by
  cases hs with
  | run i hs => exact h.run hledger hs
  | submit hs => exact h.submit hcontrol hs
  | start hs => exact h.start hcontrol hthreads hs
  | stop k hs => exact h.stop hcontrol hthreads hs

end ThreadPool

end GiveMePi
