import GiveMePi.Scheduler.QueueAlone
import GiveMePi.Scheduler.QueueReturns

/-! # The lock-free queue is a bounded FIFO -/

namespace GiveMePi

namespace QueueWorld

variable {ι α : Type} {capacity : QueueCapacity} {world : QueueWorld ι α capacity}

/-- The positions that producers have claimed and consumers have not released. -/
def unreleased (world : QueueWorld ι α capacity) : List ℕ :=
  (List.range world.enqueued).filter fun position => position ∉ world.pops.map Prod.fst

theorem mem_unreleased {position : ℕ} :
    position ∈ world.unreleased ↔ position < world.enqueued ∧ ¬ world.Released position := by
  simp [unreleased, Released]

theorem Slots.length_unreleased (h : world.Slots) : world.unreleased.length ≤ capacity.size := by
  have hsub : world.unreleased ⊆
      List.range' (world.enqueued - capacity.size) capacity.size := by
    intro position hmem
    obtain ⟨hlt, hunreleased⟩ := mem_unreleased.mp hmem
    have hwindow := h.window position hlt hunreleased
    rw [List.mem_range'_1]
    omega
  have hnodup : world.unreleased.Nodup := List.nodup_range.filter _
  simpa using (List.subperm_of_subset hnodup hsub).length_le

/-- What holds of the tasks at an instant of a run. -/
structure IsFifo (world : QueueWorld ι α capacity) : Prop where
  next : world.queue.enqueuePos.toNat = claimedIn world.history
  /-- Positions are claimed one after the other, for the tasks of calls of `push`. -/
  claimed : world.enqueues.map (fun entry => entry.2.1) = List.range world.enqueued
  called : ∀ entry ∈ world.enqueues, (entry.1, .push entry.2.2) ∈ world.calls
  /-- An accepted push has a position of its own. -/
  accepted : ∀ entry ∈ world.pushes, ∃ task, (entry.1, entry.2, task) ∈ world.enqueues
  accepted_nodup : (world.pushes.map Prod.snd).Nodup
  /-- No position is popped twice, and what is popped is the task that was pushed there. -/
  popped_nodup : (world.pops.map Prod.fst).Nodup
  popped : ∀ entry ∈ world.pops, ∃ i, (i, entry.1) ∈ world.pushes ∧
    (i, entry.1, entry.2) ∈ world.enqueues
  /-- The consumers take the positions in the order of the claims. -/
  taken : world.dequeues.map Prod.snd = List.range world.dequeued
  popped_taken : ∀ entry ∈ world.pops, entry.1 ∈ world.dequeues.map Prod.snd
  bounded : world.unreleased.length ≤ capacity.size
  /-- A refusal has its reason in the call that it ends. -/
  refused : ∀ before i, before ++ [.refused i] <+: world.history →
    IsRefusable capacity before i

theorem Books.isFifo (hbooks : world.Books) (hslots : world.Slots) (hrefusals : world.Refusals) :
    world.IsFifo where
  next := hslots.enqueuePos
  claimed := hslots.enqueues
  called := hbooks.called
  accepted := hbooks.pushed
  accepted_nodup := hbooks.nodup
  popped_nodup := hslots.nodup
  popped entry hentry := by
    obtain ⟨hlt, htask⟩ := hslots.pops entry hentry
    obtain ⟨i, hclaim⟩ := hslots.exists_of_task? htask
    refine ⟨i, (hbooks.settled _ hclaim).resolve_left fun hwrites => ?_, hclaim⟩
    exact absurd hlt (Nat.not_lt.mpr (hslots.claimed_of_writes hwrites).le)
  taken := hslots.dequeues
  popped_taken entry hentry := by
    rw [hslots.dequeues, List.mem_range]
    exact (hslots.pops entry hentry).1
  bounded := hslots.length_unreleased
  refused := hrefusals.refused

variable [DecidableEq ι] [Inhabited α]

theorem isFifo_of_reachable (h : (queueSystem ι α capacity).Reachable world)
    (hlt : world.calls.length < 2 ^ 63) : world.IsFifo := by
  suffices hkept : world.Books ∧ world.Refusals from
    hkept.1.isFifo ((slots_of_reachable h).2 hlt) hkept.2
  induction h with
  | initial h =>
      obtain rfl := h
      exact ⟨books_started, refusals_started⟩
  | step h hstep ih =>
      obtain ⟨i, hstep⟩ := hstep
      have hless := (calls_length_le hstep).trans_lt hlt
      obtain ⟨hbooks, hrefusals⟩ := ih hless
      obtain ⟨hcounted, hslots⟩ := slots_of_reachable h
      exact ⟨hbooks.step (hslots hless) hstep,
        hrefusals.step (hslots hless) (hcounted.claims_le.trans_lt hless) hstep⟩

end QueueWorld

open QueueWorld

/-- A queue of tasks that any number of threads use, in fewer than `2 ^ 63` operations. -/
structure IsBoundedFifo (ι α : Type) [DecidableEq ι] [Inhabited α] (capacity : QueueCapacity) :
    Prop where
  fifo : ∀ world, (queueSystem ι α capacity).Reachable world → world.calls.length < 2 ^ 63 →
    world.IsFifo
  /-- Without producers, consumers that pop until the queue is empty obtain every task. -/
  drained : ∀ (stopped later : QueueWorld ι α capacity) seen i,
    (queueSystem ι α capacity).Reachable stopped → stopped.IsStopped →
    Relation.ReflTransGen (queueSystem ι α capacity).step stopped later →
    later.calls.length < 2 ^ 63 → later.history = stopped.history ++ seen →
    (∀ j task, .called j (.push task) ∉ seen) → .foundEmpty i ∈ seen →
    (∀ j, (later.threads j).isPop = false) →
    later.pops.Perm (later.enqueues.map Prod.snd)
  /-- They can do so. -/
  drainable : ∀ (stopped : QueueWorld ι α capacity) i,
    (queueSystem ι α capacity).Reachable stopped → stopped.IsStopped →
    stopped.threads i = .idle →
    stopped.calls.length + (stopped.enqueued - stopped.dequeued) + 1 < 2 ^ 63 →
    ∃ later seen, Relation.ReflTransGen (ThreadStep i) stopped later ∧ later.threads i = .idle ∧
      later.calls.length < 2 ^ 63 ∧ later.history = stopped.history ++ seen ∧
      (∀ j task, .called j (.push task) ∉ seen) ∧ .foundEmpty i ∈ seen
  /-- The only thread that uses a queue is returned what the reference queue returns. -/
  alone : ∀ (world : QueueWorld ι α capacity) i, (queueSystem ι α capacity).Reachable world →
    (∀ call ∈ world.calls, call.1 = i) → world.calls.length < 2 ^ 63 → world.threads i = .idle →
    world.outcomes = (ReferenceQueue.create capacity.value).outcomes (world.calls.map Prod.snd)
  /-- It can have any sequence of operations return. -/
  returns : ∀ i (operations : List (QueueOperation α)), operations.length < 2 ^ 63 →
    ∃ world : QueueWorld ι α capacity, (queueSystem ι α capacity).Reachable world ∧
      world.threads i = .idle ∧ world.calls = operations.map fun operation => (i, operation)

theorem lockFreeQueue_isBoundedFifo (ι α : Type) [DecidableEq ι] [Inhabited α]
    (capacity : QueueCapacity) : IsBoundedFifo ι α capacity where
  fifo _ := isFifo_of_reachable
  drained _ _ _ _ h hstopped hrun hcalls hseen hquiet hempty hleft :=
    consumers_drain h hstopped hrun hcalls hseen hquiet hempty hleft
  drainable _ _ h hstopped hidle hlt := exists_drain h hstopped hidle hlt
  alone _ _ h hcalls hlt hidle := outcomes_eq_reference h hcalls hlt hidle
  returns i operations hlt := exists_run i operations hlt

end GiveMePi
