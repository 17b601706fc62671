import GiveMePi.Scheduler.QueueDraining

/-! # The calls of the lock-free queue return

From every state an operation returns in a few steps of its thread, and a consumer can empty the
queue. -/

namespace GiveMePi

namespace QueueWorld

variable {ι α : Type} [DecidableEq ι] {capacity : QueueCapacity} {i : ι}
  {world world' : QueueWorld ι α capacity}

/-! ## Calls that return -/

/-- Thread `i`, taking all the steps, returns without another call; `events` are seen. -/
structure Returns (world : QueueWorld ι α capacity) (i : ι) (world' : QueueWorld ι α capacity)
    (events : List (QueueEvent ι α)) : Prop where
  run : Relation.ReflTransGen (ThreadStep i) world world'
  idle : world'.threads i = .idle
  history : world'.history = world.history ++ events
  silent : events.filterMap QueueEvent.call? = []

section Returns

variable {phase : QueuePhase α} {queue : LockFreeQueue α capacity}
  {events later : List (QueueEvent ι α)}

theorem returns_last (hstep : ThreadStep i world (world.advance i .idle queue events))
    (hcall : events.filterMap QueueEvent.call? = []) :
    world.Returns i (world.advance i .idle queue events) events :=
  ⟨.single hstep, (effect_advance ..).threads_self, rfl, hcall⟩

theorem Returns.advance (h : (world.advance i phase queue events).Returns i world' later)
    (hstep : ThreadStep i world (world.advance i phase queue events))
    (hcall : events.filterMap QueueEvent.call? = []) :
    world.Returns i world' (events ++ later) where
  run := .head hstep h.run
  idle := h.idle
  history := h.history.trans (List.append_assoc ..)
  silent := by rw [List.filterMap_append, hcall, h.silent, List.append_nil]

@[simp] theorem threads_advance_self :
    (world.advance i phase queue events).threads i = phase := (effect_advance ..).threads_self

/-- A producer that has claimed a position returns. -/
theorem returns_pushClaim {task : α} {position : UInt64}
    (hphase : world.threads i = .pushClaim task position)
    (heq : world.queue.enqueuePos = position) :
    ∃ world' events, world.Returns i world' events :=
  ⟨_, _, ((returns_last (.pushPublish threads_advance_self) rfl).advance
    (.pushMove threads_advance_self) rfl).advance (.pushClaim hphase heq) rfl⟩

/-- A consumer that has claimed a position returns. -/
theorem returns_popClaim {position : UInt64} (hphase : world.threads i = .popClaim position)
    (heq : world.queue.dequeuePos = position) :
    ∃ world' events, world.Returns i world' events ∧ .dequeued i position.toNat ∈ events :=
  ⟨_, _, ((returns_last (.popRelease threads_advance_self) rfl).advance
      (@ThreadStep.popMove _ _ _ _ _ _ _ (world.queue.dataAt position.toNat)
        threads_advance_self) rfl).advance (.popClaim hphase heq) rfl, by simp⟩

end Returns

/-- A producer returns when no other thread takes a step. -/
theorem returns_push (hslots : world.Slots) (hclaims : world.enqueued + world.dequeued < 2 ^ 63)
    {task : α} (hphase : world.threads i = .pushLoad task) :
    ∃ world' events, world.Returns i world' events := by
  have hsize := capacity.two_le_size
  have hposition := hslots.enqueuePos
  have hlt := hslots.sequenceAt_lt hclaims le_rfl
  have hcases := hslots.sequence_cases le_rfl (by omega)
  rw [← hposition, LockFreeQueue.sequenceAt] at hlt hcases
  rcases hcases with ⟨hfree, -⟩ | ⟨hround, -, hused⟩
  · have hequal := compareSequence_eq_equal.mpr hfree
    have hclaim : ((world.advance i (.pushCompare task world.queue.enqueuePos) world.queue
        []).advance i (.pushClaim task world.queue.enqueuePos) world.queue []).threads i =
        .pushClaim task world.queue.enqueuePos := threads_advance_self
    obtain ⟨world', events, h⟩ := returns_pushClaim hclaim rfl
    exact ⟨_, _, (h.advance (.pushEqual threads_advance_self hequal) rfl).advance
      (.pushLoad hphase) rfl⟩
  · have hbehind := (compareSequence_eq_behind hlt (by omega)).mpr (by omega)
    exact ⟨_, _, (returns_last (.pushBehind threads_advance_self hbehind) rfl).advance
      (.pushLoad hphase) rfl⟩

omit [DecidableEq ι] in
/-- The cell of the next position to take is published or behind. -/
theorem Slots.compare_dequeued (hslots : world.Slots)
    (hclaims : world.enqueued + world.dequeued < 2 ^ 63) :
    compareSequence (world.queue.cell world.queue.dequeuePos.toNat).sequence
        (world.queue.dequeuePos + 1) = .equal ∨
      compareSequence (world.queue.cell world.queue.dequeuePos.toNat).sequence
        (world.queue.dequeuePos + 1) = .behind := by
  have hsize := capacity.two_le_size
  have hposition := hslots.dequeuePos
  have hle := hslots.le
  have hnext : (world.queue.dequeuePos + 1).toNat = world.queue.dequeuePos.toNat + 1 :=
    toNat_next (by omega)
  have hlt := hslots.sequenceAt_lt hclaims hle
  have hcases : world.queue.sequenceAt world.dequeued ≤ world.dequeued + 1 := by
    rcases hle.lt_or_eq with hlt | heq
    · have hunreleased : ¬ world.Released world.dequeued := fun hreleased =>
        absurd (hslots.lt_of_released hreleased) (lt_irrefl _)
      rcases hslots.held_sequence hlt hunreleased with hsequence | hsequence <;> omega
    · rcases hslots.sequence_cases heq.ge (by omega) with ⟨hsequence, -⟩ | ⟨-, -, hsequence⟩ <;>
        omega
  rw [← hposition, LockFreeQueue.sequenceAt] at hlt hcases
  rcases hcases.lt_or_eq with hless | heq
  · exact .inr ((compareSequence_eq_behind (by omega) (by omega)).mpr (by omega))
  · exact .inl (compareSequence_eq_equal.mpr (heq.trans hnext.symm))

/-- A consumer returns when no other thread takes a step: it claims a position, or finds the queue
empty. -/
theorem returns_pop (hslots : world.Slots) (hclaims : world.enqueued + world.dequeued < 2 ^ 63)
    (hphase : world.threads i = .popLoad) :
    ∃ world' events, world.Returns i world' events ∧
      (.foundEmpty i ∈ events ∨ ∃ position, .dequeued i position ∈ events) := by
  rcases hslots.compare_dequeued hclaims with hequal | hbehind
  · have hclaim : ((world.advance i (.popCompare world.queue.dequeuePos) world.queue []).advance i
        (.popClaim world.queue.dequeuePos) world.queue []).threads i =
        .popClaim world.queue.dequeuePos := threads_advance_self
    obtain ⟨world', events, h, hmem⟩ := returns_popClaim hclaim rfl
    exact ⟨_, _, (h.advance (.popEqual threads_advance_self hequal) rfl).advance
      (.popLoad hphase) rfl, .inr ⟨_, hmem⟩⟩
  · exact ⟨_, _, (returns_last (.popBehind threads_advance_self hbehind) rfl).advance
      (.popLoad hphase) rfl, .inl (by simp)⟩

theorem returns_empty (hslots : world.Slots) (hclaims : world.enqueued + world.dequeued < 2 ^ 63)
    (hphase : world.threads i = .emptyLoad) : ∃ world' events, world.Returns i world' events := by
  rcases hslots.compare_dequeued hclaims with hequal | hbehind
  · exact ⟨_, _, (returns_last (.emptyEqual threads_advance_self hequal) rfl).advance
      (.emptyLoad hphase) rfl⟩
  · exact ⟨_, _, (returns_last (.emptyBehind threads_advance_self hbehind) rfl).advance
      (.emptyLoad hphase) rfl⟩

/-- The steps of one thread are steps of the system. -/
theorem run_of_thread [Inhabited α] (hrun : Relation.ReflTransGen (ThreadStep i) world world') :
    Relation.ReflTransGen (queueSystem ι α capacity).step world world' :=
  Relation.ReflTransGen.mono (fun _ _ hstep => ⟨i, hstep⟩) _ _ hrun

/-- Every operation can return, whatever the other threads have left. -/
theorem exists_return [Inhabited α] (h : (queueSystem ι α capacity).Reachable world)
    (hidle : world.threads i = .idle) (hlt : world.calls.length + 1 < 2 ^ 63)
    (operation : QueueOperation α) :
    ∃ world' events, Relation.ReflTransGen (ThreadStep i) world world' ∧
      world'.threads i = .idle ∧ world'.history = world.history ++ .called i operation :: events ∧
      events.filterMap QueueEvent.call? = [] ∧
      (operation = .pop → .foundEmpty i ∈ events ∨ ∃ position, .dequeued i position ∈ events) := by
  have hcall : ThreadStep i world
      (world.advance i operation.start world.queue [.called i operation]) := .call hidle
  have hbefore := slots_of_reachable (h.step ⟨i, hcall⟩)
  have hless : (world.advance i operation.start world.queue
      [.called i operation]).calls.length < 2 ^ 63 := by
    rw [calls_advance, List.length_append]
    exact hlt
  have hslots := hbefore.2 hless
  have hclaims := hbefore.1.claims_le.trans_lt hless
  have hphase : (world.advance i operation.start world.queue [.called i operation]).threads i =
      operation.start := threads_advance_self
  have hreturn : ∃ world' events,
      (world.advance i operation.start world.queue [.called i operation]).Returns i world' events ∧
        (operation = .pop →
          .foundEmpty i ∈ events ∨ ∃ position, .dequeued i position ∈ events) := by
    cases operation with
    | push task =>
        obtain ⟨world', events, hreturns⟩ := returns_push hslots hclaims hphase
        exact ⟨world', events, hreturns, by simp⟩
    | pop =>
        obtain ⟨world', events, hreturns, hfound⟩ := returns_pop hslots hclaims hphase
        exact ⟨world', events, hreturns, fun _ => hfound⟩
    | empty =>
        obtain ⟨world', events, hreturns⟩ := returns_empty hslots hclaims hphase
        exact ⟨world', events, hreturns, by simp⟩
    | capacity => exact ⟨_, _, returns_last (.capacity hphase) rfl, by simp⟩
  obtain ⟨world', events, hreturns, hfound⟩ := hreturn
  exact ⟨world', events, .head hcall hreturns.run, hreturns.idle,
    hreturns.history.trans (List.append_assoc ..), hreturns.silent, hfound⟩

/-- One thread can have any operations return. -/
theorem exists_run [Inhabited α] (i : ι) (operations : List (QueueOperation α))
    (hlt : operations.length < 2 ^ 63) :
    ∃ world, (queueSystem ι α capacity).Reachable world ∧ world.threads i = .idle ∧
      world.calls = operations.map fun operation => (i, operation) := by
  induction operations using List.reverseRecOn with
  | nil => exact ⟨started ι α capacity, .initial rfl, rfl, rfl⟩
  | append_singleton operations operation ih =>
      rw [List.length_append, List.length_singleton] at hlt
      obtain ⟨world, h, hidle, hcalls⟩ := ih (by omega)
      have hless : world.calls.length + 1 < 2 ^ 63 := by
        rw [hcalls, List.length_map]
        exact hlt
      obtain ⟨world', events, hrun, hidle', hhistory, hsilent, -⟩ :=
        exists_return h hidle hless operation
      refine ⟨world', h.run (run_of_thread hrun), hidle', ?_⟩
      rw [calls, hhistory, List.filterMap_append, ← calls, hcalls, List.map_append]
      simp [hsilent]

/-- Once the producers have stopped, a consumer can pop until the queue is empty. -/
theorem exists_drain [Inhabited α] {stopped : QueueWorld ι α capacity}
    (h : (queueSystem ι α capacity).Reachable stopped) (hstopped : stopped.IsStopped)
    (hidle : stopped.threads i = .idle)
    (hlt : stopped.calls.length + (stopped.enqueued - stopped.dequeued) + 1 < 2 ^ 63) :
    ∃ later seen, Relation.ReflTransGen (ThreadStep i) stopped later ∧
      later.threads i = .idle ∧ later.calls.length < 2 ^ 63 ∧
      later.history = stopped.history ++ seen ∧ (∀ j task, .called j (.push task) ∉ seen) ∧
      .foundEmpty i ∈ seen := by
  induction hn : stopped.enqueued - stopped.dequeued using Nat.strongRecOn generalizing stopped with
  | ind n ih =>
      obtain ⟨world, events, hrun, hidle', hhistory, hsilent, hfound⟩ :=
        exists_return h hidle (by omega) .pop
      have hreachable := h.run (run_of_thread hrun)
      have hcalls : world.calls.length = stopped.calls.length + 1 := by
        rw [calls, hhistory, List.filterMap_append, ← calls]
        simp [hsilent]
      have hquiet : ∀ j task, .called j (.push task) ∉ .called i .pop :: events := by
        intro j task hmem
        rcases List.mem_cons.mp hmem with heq | hmem
        · cases heq
        · have hcalled : (j, .push task) ∈ events.filterMap QueueEvent.call? :=
            List.mem_filterMap.mpr ⟨_, hmem, rfl⟩
          rw [hsilent] at hcalled
          cases hcalled
      rcases hfound rfl with hempty | ⟨position, htaken⟩
      · exact ⟨world, _, hrun, hidle', by omega, hhistory, hquiet,
          List.mem_cons_of_mem _ hempty⟩
      · -- a position has been taken, so there are fewer left
        obtain ⟨seen, hseen, hconsumed⟩ :=
          consumers_run h hstopped (run_of_thread hrun) (by omega)
        obtain rfl := List.append_cancel_left (hhistory.symm.trans hseen)
        obtain ⟨hlater, henqueues, -⟩ := hconsumed hquiet
        have hkept : world.enqueued = stopped.enqueued := congrArg List.length henqueues
        have hless : stopped.dequeued < world.dequeued := by
          have hpos := List.length_pos_of_mem
            (List.mem_filterMap.mpr ⟨_, htaken, rfl⟩ :
              (i, position) ∈ events.filterMap QueueEvent.dequeued?)
          rw [dequeued, dequeued, dequeues, dequeues, hhistory, List.filterMap_append,
            List.length_append]
          simpa using hpos
        have hle := ((slots_of_reachable hreachable).2 (by omega)).le
        obtain ⟨later, rest, hrun', hidle'', hcalls', hhistory', hquiet', hempty⟩ :=
          ih (world.enqueued - world.dequeued) (by omega) hreachable hlater hidle' (by omega) rfl
        refine ⟨later, .called i .pop :: events ++ rest, hrun.trans hrun', hidle'', hcalls',
          by rw [hhistory', hhistory, List.append_assoc], fun j task hmem => ?_,
          List.mem_append_right _ hempty⟩
        exact (List.mem_append.mp hmem).elim (hquiet j task) (hquiet' j task)

end QueueWorld

end GiveMePi
