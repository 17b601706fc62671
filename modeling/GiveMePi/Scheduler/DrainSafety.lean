import GiveMePi.Scheduler.TaskHandles
import GiveMePi.Scheduler.WorkerCrew

/-! # Draining

In every state of every run accepted tasks are executed at most once, the count of outstanding tasks
is exact, and a pool that is stopped has executed all that it accepted. -/

namespace GiveMePi.ThreadPool

variable {n capacity : ℕ} {pool pool' : ThreadPool n}

/-! ## Every reachable pool -/

/-- What holds in every state of every run. -/
structure IsConsistent (pool : ThreadPool n) : Prop where
  control : pool.Control
  threads : pool.HasThreads
  ledger : pool.Ledger
  crew : pool.Crew
  names : pool.Names
  handles : pool.Handles

theorem IsConsistent.step (h : pool.IsConsistent) (hs : Step capacity pool pool') :
    pool'.IsConsistent where
  control := h.control.step hs
  threads := h.threads.step hs
  ledger := h.ledger.step h.threads hs
  crew := h.crew.step h.control h.threads h.ledger hs
  names := h.names.step hs
  handles := h.handles.step h.ledger h.names hs

theorem isConsistent_of_reachable (h : (system n capacity).Reachable pool) :
    pool.IsConsistent := by
  refine h.invariant ?_ (fun _ _ _ hpool hs => hpool.step hs)
  intro pool hpool
  rw [show pool = ThreadPool.create n from hpool]
  exact ⟨.create, .create, .create, .create, .create, .create⟩

/-! ## Counting the unfinished tasks -/

/-- The accepted tasks that `executeTask` has not counted off. -/
def unfinished (pool : ThreadPool n) : List TaskId :=
  pool.accepted.filter (· ∉ pool.finished)

theorem IsConsistent.count_finished_le (h : pool.IsConsistent) (task : TaskId) :
    pool.finished.count task ≤ pool.accepted.count task := by
  rw [h.ledger.count_accepted, ← Library.weight_indicator]
  exact Nat.le_add_left _ _

theorem IsConsistent.length_finished (h : pool.IsConsistent) :
    (pool.accepted.filter (· ∈ pool.finished)).length = pool.finished.length := by
  have hnodup : pool.finished.Nodup := by
    refine List.nodup_iff_count_le_one.mpr ?_
    intro task
    have := List.nodup_iff_count_le_one.mp h.names.nodup task
    have := h.count_finished_le task
    omega
  refine ((List.perm_ext_iff_of_nodup (h.names.nodup.filter _) hnodup).mpr ?_).length_eq
  intro task
  simp only [List.mem_filter, decide_eq_true_eq, and_iff_right_iff_imp]
  intro hmem
  have hpos := List.count_pos_iff.mpr hmem
  have := h.count_finished_le task
  exact List.count_pos_iff.mp (by omega)

theorem IsConsistent.outstanding_eq (h : pool.IsConsistent) :
    pool.outstandingTasks = pool.unfinished.length + pool.submitting := by
  have hsplit := List.length_eq_length_filter_add (l := pool.accepted)
    (fun task => decide (task ∈ pool.finished))
  have hcounted := h.ledger.counted
  have hnot : pool.accepted.filter (fun task => !decide (task ∈ pool.finished)) =
      pool.unfinished := by
    simp [unfinished]
  rw [h.length_finished, hnot] at hsplit
  omega

theorem IsConsistent.places_eq_one (h : pool.IsConsistent) {task : TaskId}
    (htask : task ∈ pool.accepted) : pool.places (only task) = 1 := by
  rw [← h.ledger.count_accepted]
  exact List.count_eq_one_of_mem h.names.nodup htask

theorem held_only_pos {task : TaskId} {phase : WorkerPhase}
    (h : 0 < phase.held (only task)) :
    phase = .execute task ∨ phase = .running task ∨ phase = .taskCompleted task := by
  cases phase with
  | execute other | running other | taskCompleted other =>
      by_cases heq : other = task
      · simp [heq]
      · simp [only, heq] at h
  | _ => simp at h

theorem mem_of_weight_pos {task : TaskId} {tasks : List TaskId}
    (h : 0 < Library.weight (only task) tasks) : task ∈ tasks := by
  rw [show only task = fun other => if other = task then 1 else 0 from rfl,
    Library.weight_indicator] at h
  exact List.count_pos_iff.mp h

theorem IsConsistent.where_unfinished (h : pool.IsConsistent) {task : TaskId}
    (htask : task ∈ pool.unfinished) : pool.IsWaiting task ∨ pool.IsRunning task ∨
      ∃ i, (pool.workers i).phase = .taskCompleted task := by
  have hplaces := h.places_eq_one (List.mem_of_mem_filter htask)
  have hnot : task ∉ pool.finished := by simpa using List.of_mem_filter htask
  have hfinished : Library.weight (only task) pool.finished = 0 := by
    by_contra hpos
    exact hnot (mem_of_weight_pos (Nat.pos_of_ne_zero hpos))
  rw [places, hfinished] at hplaces
  by_cases hqueue : 0 < Library.weight (only task) pool.queue
  · exact .inl (.inl (mem_of_weight_pos hqueue))
  · by_cases hlocal : ∃ i, 0 < Library.weight (only task) (pool.localQueue i)
    · obtain ⟨i, hi⟩ := hlocal
      exact .inl (.inr (.inl ⟨i, mem_of_weight_pos hi⟩))
    · have hzero : ∑ i, Library.weight (only task) (pool.localQueue i) = 0 := by
        refine Finset.sum_eq_zero ?_
        intro i _
        by_contra hpos
        exact hlocal ⟨i, Nat.pos_of_ne_zero hpos⟩
      obtain ⟨i, _, hi⟩ := Finset.exists_ne_zero_of_sum_ne_zero
        (s := Finset.univ) (f := fun i => (pool.workers i).phase.held (only task)) (by omega)
      rcases held_only_pos (Nat.pos_of_ne_zero hi) with hphase | hphase | hphase
      · exact .inl (.inr (.inr ⟨i, hphase⟩))
      · exact .inr (.inl ⟨i, hphase⟩)
      · exact .inr (.inr ⟨i, hphase⟩)

theorem IsConsistent.workers_stay (h : pool.IsConsistent) {task : TaskId}
    (htask : task ∈ pool.unfinished) (i : Fin n) :
    (pool.workers i).phase ≠ .exited ∧ (pool.workers i).phase ≠ .absent := by
  have hpos := List.length_pos_of_mem htask
  have hcount := h.outstanding_eq
  refine ⟨?_, ?_⟩
  · intro hexited
    have := (h.crew.sound i).drained (.inl hexited)
    omega
  · intro habsent
    have := (h.crew.sound i).drained (.inr habsent)
    omega

/-! ## Steps of the count -/

theorem Step.pos_of_lt (h : pool.IsConsistent) (hs : Step capacity pool pool')
    (hlt : pool'.outstandingTasks < pool.outstandingTasks) : 1 ≤ pool.outstandingTasks := by
  have := (h.step hs).ledger.counted_nonneg
  omega

/-- Only a pool that is running accepts a task. -/
theorem Step.accepted_eq (h : pool.IsConsistent) (hs : Step capacity pool pool')
    (hstate : pool.state ≠ .running) : pool'.accepted = pool.accepted := by
  cases hs with
  | run i hs => exact hs.accepted_eq
  | submit hs =>
      cases hs with
      | pushLocal hholder | pushGlobal hholder =>
          exact absurd (h.control.admitted _ _ hholder rfl).1 hstate
      | _ => rfl
  | start hs => exact hs.untouched.accepted
  | stop k hs => exact hs.untouched.accepted

/-! ## Exactly once -/

/-- What a client can rely on while the pool is started, stopped and started again. -/
structure DrainsExactlyOnce (capacity : ℕ) (pool : ThreadPool n) : Prop where
  /-- A valid handle is given for accepted tasks only, and these are executed at most once, and
  once when the handle is ready. -/
  once : ∀ task ∈ pool.granted, task ∈ pool.accepted ∧ pool.executed.count task ≤ 1 ∧
    ((pool.taskState task).isReady = true → pool.executed.count task = 1)
  /-- No accepted task is lost or doubled, and no worker leaves before it. -/
  kept : ∀ task ∈ pool.unfinished, pool.places (only task) = 1 ∧
    (pool.IsWaiting task ∨ pool.IsRunning task ∨
      ∃ i, (pool.workers i).phase = .taskCompleted task) ∧
    ∀ i, (pool.workers i).phase ≠ .exited ∧ (pool.workers i).phase ≠ .absent
  never : ∀ task ∈ pool.refused, task ∉ pool.executed
  count : pool.outstandingTasks = pool.unfinished.length + pool.submitting
  noUnderflow : ∀ pool', Step capacity pool pool' →
    pool'.outstandingTasks < pool.outstandingTasks → 1 ≤ pool.outstandingTasks
  /-- Nothing is accepted until a `start` sets the state to running again. -/
  closed : ∀ pool', Relation.ReflTransGen
    (fun before after => Step capacity before after ∧ before.state ≠ .running) pool pool' →
    pool'.accepted = pool.accepted
  drained : pool.state = .stopped → pool.queue = [] ∧ (∀ i, pool.localQueue i = []) ∧
    ∀ task ∈ pool.accepted, (pool.taskState task).isReady = true ∧ pool.executed.count task = 1

theorem IsConsistent.count_of_isReady (h : pool.IsConsistent) {task : TaskId}
    (hready : (pool.taskState task).isReady = true) : pool.executed.count task = 1 := by
  have hne : pool.taskState task ≠ .pending := by
    intro hpending
    rw [hpending] at hready
    cases hready
  rw [h.handles.executed, if_neg hne]

theorem IsConsistent.empty_of_stopped (h : pool.IsConsistent) (hstopped : pool.state = .stopped) :
    pool.queue = [] ∧ (∀ i, pool.localQueue i = []) ∧ pool.unfinished = [] := by
  have hzero := h.crew.empty (.inr hstopped)
  have hcount := h.outstanding_eq
  have hcounted := h.ledger.counted
  have hconserved := h.ledger.conserved (fun _ => 1)
  simp only [places, Library.weight_one] at hconserved
  refine ⟨List.length_eq_zero_iff.mp (by omega), ?_, List.length_eq_zero_iff.mp (by omega)⟩
  intro i
  have hle := Finset.single_le_sum (f := fun j => (pool.localQueue j).length)
    (fun _ _ => Nat.zero_le _) (Finset.mem_univ i)
  exact List.length_eq_zero_iff.mp (by omega)

/-- The closing of the pool, along a run. -/
theorem accepted_of_closed (h : (system n capacity).Reachable pool)
    (hrun : Relation.ReflTransGen
      (fun before after => Step capacity before after ∧ before.state ≠ .running) pool pool') :
    (system n capacity).Reachable pool' ∧ pool'.accepted = pool.accepted := by
  induction hrun with
  | refl => exact ⟨h, rfl⟩
  | tail _ hs ih =>
      have hconsistent := isConsistent_of_reachable ih.1
      exact ⟨ih.1.step hs.1, by rw [hs.1.accepted_eq hconsistent hs.2, ih.2]⟩

theorem drainsExactlyOnce (h : (system n capacity).Reachable pool) :
    pool.DrainsExactlyOnce capacity := by
  have hpool := isConsistent_of_reachable h
  refine ⟨?_, ?_, ?_, hpool.outstanding_eq, fun _ hs => hs.pos_of_lt hpool,
    fun _ hrun => (accepted_of_closed h hrun).2, ?_⟩
  · intro task htask
    refine ⟨hpool.names.granted task htask, ?_, hpool.count_of_isReady⟩
    rw [hpool.handles.executed]
    split <;> omega
  · intro task htask
    exact ⟨hpool.places_eq_one (List.mem_of_mem_filter htask), hpool.where_unfinished htask,
      hpool.workers_stay htask⟩
  · intro task htask hmem
    have hpos := List.count_pos_iff.mpr hmem
    rw [hpool.handles.executed] at hpos
    refine hpool.names.refusedApart task htask (hpool.handles.begun task ?_)
    intro hpending
    simp [hpending] at hpos
  · intro hstopped
    obtain ⟨hqueue, hlocal, hunfinished⟩ := hpool.empty_of_stopped hstopped
    refine ⟨hqueue, hlocal, ?_⟩
    intro task htask
    have hfinished : task ∈ pool.finished := by
      by_contra hnot
      have hmem : task ∈ pool.unfinished := List.mem_filter.mpr ⟨htask, by simpa using hnot⟩
      rw [hunfinished] at hmem
      cases hmem
    have hready := hpool.handles.done task (.inr hfinished)
    exact ⟨hready, hpool.count_of_isReady hready⟩

/-- One worker, one task from outside, and a stop. -/
theorem drainsExactlyOnce_one : ∃ pool : ThreadPool 1, pool.state = .stopped ∧
    pool.granted = [0] ∧ pool.executed = [0] ∧ pool.DrainsExactlyOnce 2 := by
  have hinitial : (system 1 2).Reachable (ThreadPool.create 1) := .initial rfl
  -- the pool starts its worker
  have hstart := hinitial.step (.start (@StartStep.enter 1 _ (.external 0) ⟨rfl, rfl⟩ rfl))
  have hlaunch := hstart.step (.start (@StartStep.launch 1 _ _ 0 rfl rfl))
  have hstarted := hlaunch.step (.start (.started rfl))
  -- a task is submitted
  have henter := hstarted.step (.submit (@SubmitStep.enter 1 2 _ (.external 0) true ⟨rfl, rfl⟩))
  have hcount := henter.step (.submit (.count rfl))
  have hpush := hcount.step (.submit (.pushGlobal rfl (by decide)))
  have hgrant := hpush.step (.submit (.grant rfl))
  -- the worker takes it and executes it
  have hlocal := hgrant.step (.run 0 (.popLocalEmpty rfl rfl))
  have hpop := hlocal.step (.run 0 (.popGlobal rfl rfl))
  have hexecute := hpop.step (.run 0 (.execute rfl rfl))
  have hfinish := hexecute.step
    (.run 0 (@RunStep.finishTask 1 0 _ _ .completed rfl (fun _ h => nomatch h) rfl))
  have hcompleted := hfinish.step (.run 0 (.taskCompleted rfl))
  -- the pool is stopped, and the worker finds nothing left
  have hstop := hcompleted.step (.stop 0 (.enter ⟨rfl, rfl⟩ rfl))
  have hrequest := hstop.step (.stop 0 (@StopStep.requestStop 1 0 _ 0 rfl))
  have hrequested := hrequest.step (.stop 0 (.requested rfl))
  have hidle := hrequested.step (.run 0 (.popLocalEmpty rfl rfl))
  have hempty := hidle.step (.run 0 (.popGlobalEmpty rfl))
  have hself := hempty.step (.run 0 (.stealSelf rfl))
  have hnothing := hself.step (.run 0 (.stealNothing rfl))
  have hcheck := hnothing.step (.run 0 (.checkStop rfl))
  have hdrain := hcheck.step (.run 0 (.checkDrain rfl))
  have hjoin := hdrain.step (.stop 0 (@StopStep.join 1 0 _ 0 rfl rfl rfl))
  have hstopped := hjoin.step (.stop 0 (.finish rfl rfl))
  exact ⟨_, rfl, rfl, rfl, drainsExactlyOnce hstopped⟩

end GiveMePi.ThreadPool
