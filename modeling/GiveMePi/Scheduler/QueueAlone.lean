import GiveMePi.Scheduler.QueueDraining

/-! # One thread and the reference queue

What a lock-free queue returns to the only thread that uses it is what `ReferenceQueue` returns. -/

namespace GiveMePi

namespace ReferenceQueue

variable {α : Type} (reference : ReferenceQueue α)

@[simp] theorem capacity_perform (operation : QueueOperation α) :
    (reference.perform operation).2.capacity = reference.capacity := by
  cases operation with
  | push task =>
      simp only [perform, push]
      split_ifs <;> rfl
  | pop =>
      simp only [perform, pop]
      cases reference.queue <;> rfl
  | empty | capacity => rfl

@[simp] theorem capacity_after (operations : List (QueueOperation α)) :
    (reference.after operations).capacity = reference.capacity := by
  induction operations generalizing reference with
  | nil => rfl
  | cons operation rest ih =>
      change ((reference.perform operation).2.after rest).capacity = _
      rw [ih, capacity_perform]

theorem perform_push_of_lt {task : α} (h : reference.queue.length < reference.capacity.toNat) :
    reference.perform (.push task) =
      (.push true, { reference with queue := reference.queue ++ [task] }) := by
  simp [perform, push, Nat.not_le.mpr h]

theorem perform_push_of_le {task : α} (h : reference.capacity.toNat ≤ reference.queue.length) :
    reference.perform (.push task) = (.push false, reference) := by
  simp [perform, push, h]

theorem perform_pop_nil (h : reference.queue = []) :
    reference.perform .pop = (.pop none, reference) := by
  simp [perform, pop, h]

theorem perform_pop_cons {task : α} {rest : List α} (h : reference.queue = task :: rest) :
    reference.perform .pop = (.pop (some task), { reference with queue := rest }) := by
  simp [perform, pop, h]

end ReferenceQueue

namespace QueueWorld

variable {ι α : Type} {capacity : QueueCapacity} {i : ι} {world world' : QueueWorld ι α capacity}

/-- The tasks that have been claimed and not taken, in the order of their positions. -/
def contents (world : QueueWorld ι α capacity) : List α :=
  (world.enqueues.map fun entry => entry.2.2).drop world.dequeued

@[simp] theorem length_contents : world.contents.length = world.enqueued - world.dequeued := by
  simp [contents, enqueued]

/-- The reference queue after the operations. -/
def reference (capacity : QueueCapacity) (operations : List (QueueOperation α)) :
    ReferenceQueue α :=
  (ReferenceQueue.create capacity.value).after operations

@[simp] theorem capacity_reference (operations : List (QueueOperation α)) :
    (reference capacity operations).capacity = capacity.value :=
  ReferenceQueue.capacity_after _ operations

theorem reference_append (operations : List (QueueOperation α)) (operation : QueueOperation α) :
    reference capacity (operations ++ [operation]) =
      ((reference capacity operations).perform operation).2 :=
  ReferenceQueue.after_append _ operations operation

/-- The next operation has not taken effect. -/
structure Pending (world : QueueWorld ι α capacity) (done : List (QueueOperation α))
    (operation : QueueOperation α) : Prop where
  calls : world.calls.map Prod.snd = done ++ [operation]
  contents : world.contents = (reference capacity done).queue

/-- The next operation has taken effect and is about to return its outcome. -/
structure Performed (world : QueueWorld ι α capacity) (done : List (QueueOperation α))
    (outcome : QueueOutcome α) : Prop where
  exists_operation : ∃ operation, world.calls.map Prod.snd = done ++ [operation] ∧
    ((reference capacity done).perform operation).1 = outcome ∧
    world.contents = ((reference capacity done).perform operation).2.queue

/-- The one thread that uses the queue follows the reference queue. -/
def Follows (world : QueueWorld ι α capacity) (done : List (QueueOperation α)) :
    QueuePhase α → Prop
  | .idle => world.calls.map Prod.snd = done ∧ world.contents = (reference capacity done).queue
  | .pushLoad task => world.Pending done (.push task)
  | .pushCompare task position | .pushClaim task position =>
      world.Pending done (.push task) ∧ position = world.queue.enqueuePos
  | .pushMove _ _ | .pushPublish _ => world.Performed done (.push true)
  | .popLoad => world.Pending done .pop
  | .popCompare position | .popClaim position =>
      world.Pending done .pop ∧ position = world.queue.dequeuePos
  | .popMove position => ∃ task, world.task? position.toNat = some task ∧
      world.Performed done (.pop (some task))
  | .popRelease _ task => world.Performed done (.pop (some task))
  | .emptyLoad => world.Pending done .empty
  | .emptyCompare position => world.Pending done .empty ∧ position = world.queue.dequeuePos
  | .capacity => world.Pending done .capacity

/-- The calls and the tasks are as they were. -/
structure SameTasks (world world' : QueueWorld ι α capacity) : Prop where
  calls : world'.calls = world.calls
  enqueues : world'.enqueues = world.enqueues
  dequeues : world'.dequeues = world.dequeues

namespace SameTasks

theorem contents (h : SameTasks world world') : world'.contents = world.contents := by
  rw [QueueWorld.contents, QueueWorld.contents, h.enqueues, dequeued, dequeued, h.dequeues]

theorem pending (h : SameTasks world world') {done : List (QueueOperation α)}
    {operation : QueueOperation α} (hpending : world.Pending done operation) :
    world'.Pending done operation :=
  ⟨by rw [h.calls, hpending.calls], by rw [h.contents, hpending.contents]⟩

theorem performed (h : SameTasks world world') {done : List (QueueOperation α)}
    {outcome : QueueOutcome α} (hperformed : world.Performed done outcome) :
    world'.Performed done outcome := by
  obtain ⟨operation, hcalls, houtcome, hcontents⟩ := hperformed
  exact ⟨operation, by rw [h.calls, hcalls], houtcome, by rw [h.contents, hcontents]⟩

end SameTasks

/-- What thread `i` has been returned, and what its present call will return. -/
structure Agrees (world : QueueWorld ι α capacity) (i : ι) : Prop where
  exists_done : ∃ done, world.outcomes = (ReferenceQueue.create capacity.value).outcomes done ∧
    world.Follows done (world.threads i)

theorem agrees_started [Inhabited α] (i : ι) : (started ι α capacity).Agrees i :=
  ⟨[], rfl, rfl, rfl⟩

/-- An operation that changes nothing takes effect. -/
theorem Pending.performed {done : List (QueueOperation α)} {operation : QueueOperation α}
    (h : world.Pending done operation) {outcome : QueueOutcome α}
    (hperform : (reference capacity done).perform operation =
      (outcome, reference capacity done)) : world.Performed done outcome :=
  ⟨operation, h.calls, by rw [hperform], by rw [hperform, h.contents]⟩

section Step

variable [DecidableEq ι] {done : List (QueueOperation α)} {phase : QueuePhase α}
  {queue : LockFreeQueue α capacity}

theorem sameTasks_advance {events : List (QueueEvent ι α)}
    (hcall : events.filterMap QueueEvent.call? = [])
    (henqueued : events.filterMap QueueEvent.enqueued? = [])
    (hdequeued : events.filterMap QueueEvent.dequeued? = []) :
    SameTasks world (world.advance i phase queue events) :=
  ⟨by rw [calls_advance, hcall, List.append_nil],
    by rw [enqueues_advance, henqueued, List.append_nil],
    by rw [dequeues_advance, hdequeued, List.append_nil]⟩

theorem contents_advance (events : List (QueueEvent ι α)) :
    (world.advance i phase queue events).contents =
      ((world.enqueues ++ events.filterMap QueueEvent.enqueued?).map fun entry => entry.2.2).drop
        (world.dequeued + (events.filterMap QueueEvent.dequeued?).length) := by
  rw [contents, enqueues_advance, (effect_advance world i phase queue events).dequeued]

/-- The thread goes on inside its call. -/
theorem agrees_advance {events : List (QueueEvent ι α)}
    (houtcomes : world.outcomes = (ReferenceQueue.create capacity.value).outcomes done)
    (hsilent : events.filterMap QueueEvent.outcome? = [])
    (hfollows : (world.advance i phase queue events).Follows done phase) :
    (world.advance i phase queue events).Agrees i :=
  ⟨done, by rw [outcomes_advance, hsilent, List.append_nil, houtcomes],
    by rwa [(effect_advance world i phase queue events).threads_self]⟩

/-- The call returns. -/
theorem Performed.agrees {outcome : QueueOutcome α} (h : world.Performed done outcome)
    {event : QueueEvent ι α} (hevent : event.outcome? = some outcome)
    (hsame : SameTasks world (world.advance i .idle queue [event]))
    (houtcomes : world.outcomes = (ReferenceQueue.create capacity.value).outcomes done) :
    (world.advance i .idle queue [event]).Agrees i := by
  obtain ⟨operation, hcalls, houtcome, hcontents⟩ := h
  refine ⟨done ++ [operation], ?_, ?_⟩
  · rw [outcomes_advance, ReferenceQueue.outcomes_append, houtcomes]
    change _ = _ ++ [((reference capacity done).perform operation).1]
    rw [houtcome]
    rw [List.filterMap_cons_some hevent]
    rfl
  · rw [(effect_advance world i .idle queue [event]).threads_self]
    refine ⟨by rw [hsame.calls, hcalls], ?_⟩
    rw [hsame.contents, hcontents, reference_append]

end Step

/-! ## The cells that the thread reads -/

/-- No other thread is in a call. -/
def IsAlone (world : QueueWorld ι α capacity) (i : ι) : Prop :=
  ∀ j ≠ i, world.threads j = .idle

/-- A position that no thread holds is published until it is taken. -/
theorem Slots.le_of_unreleased (h : world.Slots) (halone : world.IsAlone i)
    (hwrites : (world.threads i).writes? = none) (hreads : (world.threads i).reads? = none)
    {position : ℕ} (hlt : position < world.enqueued)
    (hunreleased : ¬ world.Released position) : world.dequeued ≤ position := by
  have hnone (j : ι) :
      (world.threads j).writes? = none ∧ (world.threads j).reads? = none := by
    by_cases hji : j = i
    · rw [hji]
      exact ⟨hwrites, hreads⟩
    · rw [halone j hji]
      exact ⟨rfl, rfl⟩
  rcases h.held position hlt hunreleased with ⟨j, hj⟩ | hpublished | ⟨j, hj⟩
  · rw [Writes, (hnone j).1] at hj
    cases hj
  · exact hpublished.le
  · rw [Reads, (hnone j).2] at hj
    cases hj

/-- A cell behind the next position to claim: as many tasks as the queue can hold. -/
theorem Slots.full_of_behind (h : world.Slots) (halone : world.IsAlone i)
    (hwrites : (world.threads i).writes? = none) (hreads : (world.threads i).reads? = none)
    (hbehind : world.queue.sequenceAt world.enqueued < world.enqueued) :
    capacity.size ≤ world.contents.length := by
  have hsize := capacity.two_le_size
  rcases h.sequence_cases le_rfl (by omega) with ⟨hsequence, -⟩ | ⟨hle, hunreleased, -⟩
  · omega
  · have := h.le_of_unreleased halone hwrites hreads (by omega) hunreleased
    rw [length_contents]
    omega

theorem Slots.lt_of_free (h : world.Slots)
    (hsequence : world.queue.sequenceAt world.enqueued = world.enqueued) :
    world.contents.length < capacity.size := by
  have hsize := capacity.two_le_size
  have hle := h.le
  rw [length_contents]
  by_cases hround : capacity.size ≤ world.enqueued
  · have := h.lt_of_released (h.free_of_sequence hsequence hround)
    omega
  · omega

/-- The next task to take. -/
theorem contents_cons (hlt : world.dequeued < world.enqueued) :
    ∃ task rest, world.task? world.dequeued = some task ∧ world.contents = task :: rest ∧
      rest = (world.enqueues.map fun entry => entry.2.2).drop (world.dequeued + 1) := by
  have hlength : world.dequeued < (world.enqueues.map fun entry => entry.2.2).length := by
    rwa [List.length_map]
  refine ⟨_, _, ?_, List.drop_eq_getElem_cons hlength, rfl⟩
  rw [task?, List.getElem_map, List.getElem?_eq_getElem hlt]
  rfl

theorem contents_nil (h : world.dequeued = world.enqueued) : world.contents = [] :=
  List.length_eq_zero_iff.mp (by rw [length_contents, h, Nat.sub_self])

/-- A consumer that is alone and finds a cell behind: there is no task. -/
theorem Slots.contents_of_popBehind (h : world.Slots)
    (hclaims : world.enqueued + world.dequeued < 2 ^ 63) (halone : world.IsAlone i)
    (hpush : (world.threads i).isPush = false) {position : UInt64}
    (hle : position.toNat ≤ world.dequeued)
    (hcompare : compareSequence (world.queue.cell position.toNat).sequence (position + 1) =
      .behind) : world.contents = [] := by
  have hstopped : world.IsStopped := fun j => by
    by_cases hji : j = i
    · rw [hji, hpush]
    · rw [halone j hji]
      rfl
  exact contents_nil (h.drained hstopped hle (h.lt_of_popBehind hclaims hle hcompare))

/-! ## Steps -/

variable [DecidableEq ι] {done : List (QueueOperation α)}

/-- The producer claims a position, and the reference queue holds its task. -/
theorem Pending.pushClaim {task : α} {position : UInt64} (h : world.Pending done (.push task))
    (hslots : world.Slots) (hsequence : world.queue.sequenceAt world.enqueued = world.enqueued)
    (queue : LockFreeQueue α capacity) :
    (world.advance i (.pushMove task position) queue
      [.enqueued i position.toNat task]).Performed done (.push true) := by
  have hlt : (reference capacity done).queue.length <
      (reference capacity done).capacity.toNat := by
    rw [capacity_reference, ← h.contents]
    exact hslots.lt_of_free hsequence
  refine ⟨.push task, ?_, ?_, ?_⟩
  · simpa [List.filterMap_cons] using h.calls
  · rw [ReferenceQueue.perform_push_of_lt _ hlt]
  · have hle : world.dequeued ≤ (world.enqueues.map fun entry => entry.2.2).length := by
      rw [List.length_map]
      exact hslots.le
    rw [ReferenceQueue.perform_push_of_lt _ hlt, ← h.contents, contents_advance, List.map_append]
    exact List.drop_append_of_le_length hle

/-- The consumer claims a position, and the reference queue gives its task. -/
theorem Pending.popClaim {position : UInt64} (h : world.Pending done .pop)
    (hlt : world.dequeued < world.enqueued) (hposition : position.toNat = world.dequeued)
    (queue : LockFreeQueue α capacity) :
    ∃ task, (world.advance i (.popMove position) queue
        [.dequeued i position.toNat]).task? position.toNat = some task ∧
      (world.advance i (.popMove position) queue
        [.dequeued i position.toNat]).Performed done (.pop (some task)) := by
  obtain ⟨task, rest, htask, hcontents, hrest⟩ := contents_cons hlt
  have hperform := ReferenceQueue.perform_pop_cons _ (h.contents.symm.trans hcontents)
  refine ⟨task, ?_, .pop, ?_, by rw [hperform], ?_⟩
  · rw [hposition]
    exact (effect_advance world i (.popMove position) queue _).task? htask
  · simpa [List.filterMap_cons] using h.calls
  · rw [hperform, hrest, contents_advance]
    simp [List.filterMap_cons]

theorem Agrees.step (h : world.Agrees i) (hslots : world.Slots)
    (hclaims : world.enqueued + world.dequeued < 2 ^ 63) (halone : world.IsAlone i)
    (hstep : ThreadStep i world world') : world'.Agrees i := by
  obtain ⟨done, houtcomes, hfollows⟩ := h
  have hfits := hslots.fits i
  have hle := hslots.le
  cases hstep with
  | @call operation hphase =>
      rw [hphase] at hfollows
      refine agrees_advance houtcomes (by simp [List.filterMap_cons]) ?_
      have hpending : (world.advance i operation.start world.queue
          [.called i operation]).Pending done operation := by
        refine ⟨?_, ?_⟩
        · rw [calls_advance, List.map_append, hfollows.1]
          rfl
        · rw [← hfollows.2, contents_advance, contents]
          simp [List.filterMap_cons]
      cases operation <;> exact hpending
  | pushLoad hphase =>
      rw [hphase] at hfollows
      exact agrees_advance houtcomes rfl ⟨(sameTasks_advance rfl rfl rfl).pending hfollows, rfl⟩
  | pushEqual hphase hcompare =>
      rw [hphase] at hfollows
      exact agrees_advance houtcomes rfl
        ⟨(sameTasks_advance rfl rfl rfl).pending hfollows.1, hfollows.2⟩
  | pushBehind hphase hcompare =>
      have hbehind := hslots.lt_of_pushBehind hclaims hphase hcompare
      rw [hphase] at hfollows
      obtain ⟨hpending, rfl⟩ := hfollows
      rw [hslots.enqueuePos] at hbehind
      have hfull := hslots.full_of_behind halone (by rw [hphase]; rfl) (by rw [hphase]; rfl) hbehind
      refine (hpending.performed (ReferenceQueue.perform_push_of_le _ ?_)).agrees rfl
        (sameTasks_advance rfl rfl rfl) houtcomes
      rw [capacity_reference, ← hpending.contents]
      exact hfull
  | pushAhead hphase hcompare =>
      rw [hphase] at hfollows
      exact agrees_advance houtcomes rfl ((sameTasks_advance rfl rfl rfl).pending hfollows.1)
  | @pushClaim task position hphase heq =>
      rw [hphase] at hfits hfollows
      have hposition : position.toNat = world.enqueued := heq ▸ hslots.enqueuePos
      have hsequence := hfits.2 hposition
      rw [hposition] at hsequence
      exact agrees_advance houtcomes rfl (hfollows.1.pushClaim hslots hsequence _)
  | pushFail hphase =>
      rw [hphase] at hfollows
      exact agrees_advance houtcomes rfl
        ⟨(sameTasks_advance rfl rfl rfl).pending hfollows.1, rfl⟩
  | pushMove hphase =>
      rw [hphase] at hfollows
      exact agrees_advance houtcomes rfl ((sameTasks_advance rfl rfl rfl).performed hfollows)
  | pushPublish hphase =>
      rw [hphase] at hfollows
      exact Performed.agrees hfollows rfl (sameTasks_advance rfl rfl rfl) houtcomes
  | popLoad hphase =>
      rw [hphase] at hfollows
      exact agrees_advance houtcomes rfl ⟨(sameTasks_advance rfl rfl rfl).pending hfollows, rfl⟩
  | popEqual hphase hcompare =>
      rw [hphase] at hfollows
      exact agrees_advance houtcomes rfl
        ⟨(sameTasks_advance rfl rfl rfl).pending hfollows.1, hfollows.2⟩
  | popBehind hphase hcompare =>
      rw [hphase] at hfits hfollows
      have hempty := hslots.contents_of_popBehind hclaims halone (by rw [hphase]; rfl) hfits hcompare
      refine (hfollows.1.performed (ReferenceQueue.perform_pop_nil _ ?_)).agrees rfl
        (sameTasks_advance rfl rfl rfl) houtcomes
      rw [← hfollows.1.contents, hempty]
  | popAhead hphase hcompare =>
      rw [hphase] at hfollows
      exact agrees_advance houtcomes rfl ((sameTasks_advance rfl rfl rfl).pending hfollows.1)
  | @popClaim position hphase heq =>
      rw [hphase] at hfits hfollows
      have hposition : position.toNat = world.dequeued := heq ▸ hslots.dequeuePos
      have hsequence := hfits.2 hposition
      rw [hposition] at hsequence
      have hlt := (hslots.published_of_sequence hsequence).lt
      exact agrees_advance houtcomes rfl (hfollows.1.popClaim hlt hposition _)
  | popFail hphase =>
      rw [hphase] at hfollows
      exact agrees_advance houtcomes rfl
        ⟨(sameTasks_advance rfl rfl rfl).pending hfollows.1, rfl⟩
  | popMove hphase =>
      rw [hphase] at hfits hfollows
      obtain ⟨task, htask, hperformed⟩ := hfollows
      obtain rfl := Option.some.inj (htask.symm.trans hfits.2)
      exact agrees_advance houtcomes rfl ((sameTasks_advance rfl rfl rfl).performed hperformed)
  | popRelease hphase =>
      rw [hphase] at hfollows
      exact Performed.agrees hfollows rfl (sameTasks_advance rfl rfl rfl) houtcomes
  | emptyLoad hphase =>
      rw [hphase] at hfollows
      exact agrees_advance houtcomes rfl ⟨(sameTasks_advance rfl rfl rfl).pending hfollows, rfl⟩
  | emptyEqual hphase hcompare =>
      rw [hphase] at hfollows
      obtain ⟨hpending, rfl⟩ := hfollows
      have hsequence := compareSequence_eq_equal.mp hcompare
      rw [toNat_next (by rw [hslots.dequeuePos]; omega), hslots.dequeuePos] at hsequence
      obtain ⟨task, rest, -, hcontents, -⟩ :=
        contents_cons (hslots.published_of_sequence hsequence).lt
      refine (hpending.performed ?_).agrees rfl (sameTasks_advance rfl rfl rfl) houtcomes
      rw [ReferenceQueue.perform, ReferenceQueue.empty, ← hpending.contents, hcontents]
      rfl
  | emptyBehind hphase hcompare =>
      rw [hphase] at hfits hfollows
      have hempty := hslots.contents_of_popBehind hclaims halone (by rw [hphase]; rfl) hfits hcompare
      refine (hfollows.1.performed ?_).agrees rfl (sameTasks_advance rfl rfl rfl) houtcomes
      rw [ReferenceQueue.perform, ReferenceQueue.empty, ← hfollows.1.contents, hempty]
      rfl
  | emptyAhead hphase hcompare =>
      rw [hphase] at hfollows
      exact agrees_advance houtcomes rfl ((sameTasks_advance rfl rfl rfl).pending hfollows.1)
  | capacity hphase =>
      rw [hphase] at hfollows
      refine (Pending.performed hfollows ?_).agrees rfl (sameTasks_advance rfl rfl rfl) houtcomes
      rw [ReferenceQueue.perform, capacity_reference]

/-! ## Runs -/

theorem calls_prefix_step (hstep : ThreadStep i world world') : world.calls <+: world'.calls := by
  cases hstep <;> simp

theorem threads_of_ne (hstep : ThreadStep i world world') {j : ι} (hji : j ≠ i) :
    world'.threads j = world.threads j := by
  cases hstep <;> exact Function.update_of_ne hji ..

/-- All an idle thread can do is to call. -/
theorem exists_call (hstep : ThreadStep i world world') (hidle : world.threads i = .idle) :
    ∃ operation, (i, operation) ∈ world'.calls := by
  cases hstep with
  | @call operation hphase => exact ⟨operation, by simp⟩
  | pushLoad hphase | pushEqual hphase hcompare | pushBehind hphase hcompare
  | pushAhead hphase hcompare | pushClaim hphase heq | pushFail hphase | pushMove hphase
  | pushPublish hphase | popLoad hphase | popEqual hphase hcompare | popBehind hphase hcompare
  | popAhead hphase hcompare | popClaim hphase heq | popFail hphase | popMove hphase
  | popRelease hphase | emptyLoad hphase | emptyEqual hphase hcompare | emptyBehind hphase hcompare
  | emptyAhead hphase hcompare | capacity hphase =>
      rw [hidle] at hphase
      cases hphase

/-- A thread that has made no call is idle. -/
theorem idle_of_uncalled [Inhabited α] (h : (queueSystem ι α capacity).Reachable world) :
    ∀ j, (∀ call ∈ world.calls, call.1 ≠ j) → world.threads j = .idle := by
  induction h with
  | initial h =>
      obtain rfl := h
      exact fun _ _ => rfl
  | step _ hstep ih =>
      obtain ⟨i, hstep⟩ := hstep
      intro j hnone
      have hidle := ih j fun call hcall => hnone call ((calls_prefix_step hstep).subset hcall)
      by_cases hji : j = i
      · subst hji
        obtain ⟨operation, hcalled⟩ := exists_call hstep hidle
        exact absurd rfl (hnone _ hcalled)
      · rw [threads_of_ne hstep hji, hidle]

/-- The only thread that uses a queue follows the reference queue all along. -/
theorem agrees_of_reachable [Inhabited α] (h : (queueSystem ι α capacity).Reachable world)
    (hcalls : ∀ call ∈ world.calls, call.1 = i) (hlt : world.calls.length < 2 ^ 63) :
    world.Agrees i := by
  induction h with
  | initial h =>
      obtain rfl := h
      exact agrees_started i
  | @step before after hreachable hstep ih =>
      obtain ⟨k, hstep⟩ := hstep
      have hbefore (call : ι × QueueOperation α) (hcall : call ∈ before.calls) : call.1 = i :=
        hcalls call ((calls_prefix_step hstep).subset hcall)
      have hless := (calls_length_le hstep).trans_lt hlt
      have halone : before.IsAlone i := fun j hji =>
        idle_of_uncalled hreachable j fun call hcall heq => hji (heq ▸ hbefore call hcall)
      have hki : k = i := by
        by_contra hne
        obtain ⟨operation, hcalled⟩ := exists_call hstep (halone k hne)
        exact hne (hcalls _ hcalled)
      subst hki
      have hslots := slots_of_reachable hreachable
      exact (ih hbefore hless).step (hslots.2 hless) (hslots.1.claims_le.trans_lt hless) halone hstep

/-- One thread is returned what the reference queue returns. -/
theorem outcomes_eq_reference [Inhabited α] (h : (queueSystem ι α capacity).Reachable world)
    (hcalls : ∀ call ∈ world.calls, call.1 = i) (hlt : world.calls.length < 2 ^ 63)
    (hidle : world.threads i = .idle) :
    world.outcomes =
      (ReferenceQueue.create capacity.value).outcomes (world.calls.map Prod.snd) := by
  obtain ⟨done, houtcomes, hfollows⟩ := agrees_of_reachable h hcalls hlt
  rw [hidle] at hfollows
  rw [houtcomes, hfollows.1]

end QueueWorld

end GiveMePi
