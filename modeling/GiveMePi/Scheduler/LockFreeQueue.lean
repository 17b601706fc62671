import GiveMePi.Error
import GiveMePi.Numeric
import GiveMePi.Library.TransitionSystem
import Mathlib.Data.List.Basic

/-! # The queues of tasks

`LockFreeQueue`, and `ReferenceQueue`, which it is compared with. A step of the lock-free queue is
one atomic access of one thread, or one move of a task into or out of a cell, with what the thread
computes from it; the accesses are sequentially consistent, and the threads take their steps in any
order. -/

namespace GiveMePi

/-- What a thread asks of a queue. -/
inductive QueueOperation (α : Type) where
  | push (task : α)
  | pop
  | empty
  | capacity
deriving DecidableEq, Repr

/-- What the operations return. -/
inductive QueueOutcome (α : Type) where
  | push (accepted : Bool)
  | pop (task : Option α)
  | empty (result : Bool)
  | capacity (result : UInt64)
deriving DecidableEq, Repr

/-! ## The reference queue -/

/-- `ReferenceQueue`; its mutex is held for the whole of an operation. -/
structure ReferenceQueue (α : Type) where
  queue : List α
  capacity : UInt64
deriving DecidableEq, Repr

namespace ReferenceQueue

variable {α : Type}

def create (capacity : UInt64) : ReferenceQueue α :=
  ⟨[], capacity⟩

def push (reference : ReferenceQueue α) (task : α) : Bool × ReferenceQueue α :=
  if reference.queue.length ≥ reference.capacity.toNat then (false, reference)
  else (true, { reference with queue := reference.queue ++ [task] })

def pop (reference : ReferenceQueue α) : Option α × ReferenceQueue α :=
  match reference.queue with
  | [] => (none, reference)
  | task :: rest => (some task, { reference with queue := rest })

def empty (reference : ReferenceQueue α) : Bool :=
  reference.queue.isEmpty

def perform (reference : ReferenceQueue α) :
    QueueOperation α → QueueOutcome α × ReferenceQueue α
  | .push task => (.push (reference.push task).1, (reference.push task).2)
  | .pop => (.pop reference.pop.1, reference.pop.2)
  | .empty => (.empty reference.empty, reference)
  | .capacity => (.capacity reference.capacity, reference)

/-- The state after a sequence of operations. -/
def after (reference : ReferenceQueue α) (operations : List (QueueOperation α)) :
    ReferenceQueue α :=
  operations.foldl (fun state operation => (state.perform operation).2) reference

/-- What a sequence of operations returns. -/
def outcomes (reference : ReferenceQueue α) : List (QueueOperation α) → List (QueueOutcome α)
  | [] => []
  | operation :: rest =>
      (reference.perform operation).1 :: outcomes (reference.perform operation).2 rest

@[simp] theorem after_nil (reference : ReferenceQueue α) : reference.after [] = reference := rfl

theorem after_append (reference : ReferenceQueue α) (operations : List (QueueOperation α))
    (operation : QueueOperation α) :
    reference.after (operations ++ [operation]) =
      ((reference.after operations).perform operation).2 := by
  simp [after]

theorem outcomes_append (reference : ReferenceQueue α) (operations : List (QueueOperation α))
    (operation : QueueOperation α) :
    reference.outcomes (operations ++ [operation]) =
      reference.outcomes operations ++ [((reference.after operations).perform operation).1] := by
  induction operations generalizing reference with
  | nil => rfl
  | cons first rest ih => simp [outcomes, after, ih]

end ReferenceQueue

/-! ## The lock-free queue -/

inductive SequenceOrder where
  | behind
  | equal
  | ahead
deriving DecidableEq, Repr

/-- The largest value of `ptrdiff_t`. -/
def ptrdiffMax : UInt64 := 0x7FFFFFFFFFFFFFFF

def compareSequence (sequence expected : UInt64) : SequenceOrder :=
  if sequence = expected then .equal
  else if sequence - expected ≤ ptrdiffMax then .ahead
  else .behind

/-- A capacity the constructor accepts. -/
structure QueueCapacity where
  value : UInt64
  two_le : 2 ≤ value
  le_max : value ≤ ptrdiffMax
deriving DecidableEq, Repr

namespace QueueCapacity

/-- The number of cells. -/
def size (capacity : QueueCapacity) : ℕ := capacity.value.toNat

theorem two_le_size (capacity : QueueCapacity) : 2 ≤ capacity.size :=
  UInt64.le_iff_toNat_le.mp capacity.two_le

theorem size_lt (capacity : QueueCapacity) : capacity.size < 2 ^ 63 :=
  Nat.lt_succ_of_le (UInt64.le_iff_toNat_le.mp capacity.le_max)

/-- `position % capacity_` -/
def index (capacity : QueueCapacity) (position : ℕ) : Fin capacity.size :=
  ⟨position % capacity.size, Nat.mod_lt _ (by have := capacity.two_le_size; omega)⟩

end QueueCapacity

structure QueueCell (α : Type) where
  sequence : UInt64
  data : α
deriving DecidableEq, Repr

structure LockFreeQueue (α : Type) (capacity : QueueCapacity) where
  buffer : Fin capacity.size → QueueCell α
  enqueuePos : UInt64
  dequeuePos : UInt64

namespace LockFreeQueue

variable {α : Type} {capacity : QueueCapacity}

/-- The queue the constructor leaves; the default value of `α` is `Task{}`. -/
def fresh (α : Type) [Inhabited α] (capacity : QueueCapacity) : LockFreeQueue α capacity where
  buffer i := ⟨UInt64.ofNat i, default⟩
  enqueuePos := 0
  dequeuePos := 0

/-- The constructor. -/
def create (α : Type) [Inhabited α] (capacity : UInt64) :
    Except Error ((capacity : QueueCapacity) × LockFreeQueue α capacity) :=
  if h : 2 ≤ capacity ∧ capacity ≤ ptrdiffMax then
    .ok ⟨⟨capacity, h.1, h.2⟩, fresh α ⟨capacity, h.1, h.2⟩⟩
  else .error (.invalidArgument "LockFreeQueue capacity must be between 2 and PTRDIFF_MAX.")

/-- The constructor accepts the capacities. -/
theorem create_value (α : Type) [Inhabited α] (capacity : QueueCapacity) :
    create α capacity.value = .ok ⟨capacity, fresh α capacity⟩ :=
  dif_pos ⟨capacity.two_le, capacity.le_max⟩

/-- `buffer_[position % capacity_]` -/
def cell (queue : LockFreeQueue α capacity) (position : ℕ) : QueueCell α :=
  queue.buffer (capacity.index position)

def setCell (queue : LockFreeQueue α capacity) (position : ℕ) (cell : QueueCell α) :
    LockFreeQueue α capacity :=
  { queue with buffer := Function.update queue.buffer (capacity.index position) cell }

def setData (queue : LockFreeQueue α capacity) (position : ℕ) (data : α) :
    LockFreeQueue α capacity :=
  queue.setCell position { queue.cell position with data }

def setSequence (queue : LockFreeQueue α capacity) (position : ℕ) (sequence : UInt64) :
    LockFreeQueue α capacity :=
  queue.setCell position { queue.cell position with sequence }

end LockFreeQueue

/-- The next access of a thread, with its local variables. -/
inductive QueuePhase (α : Type) where
  | idle
  /-- `position = enqueuePos_.load()` -/
  | pushLoad (task : α)
  /-- `sequence = cell.sequence.load()` -/
  | pushCompare (task : α) (position : UInt64)
  /-- `enqueuePos_.compare_exchange_weak` -/
  | pushClaim (task : α) (position : UInt64)
  /-- `target->data = std::move(task)` -/
  | pushMove (task : α) (position : UInt64)
  /-- `target->sequence.store(position + 1)` -/
  | pushPublish (position : UInt64)
  /-- `position = dequeuePos_.load()` -/
  | popLoad
  | popCompare (position : UInt64)
  /-- `dequeuePos_.compare_exchange_weak` -/
  | popClaim (position : UInt64)
  /-- `Task task = std::move(target->data)` -/
  | popMove (position : UInt64)
  /-- `target->sequence.store(position + capacity_)` -/
  | popRelease (position : UInt64) (task : α)
  | emptyLoad
  | emptyCompare (position : UInt64)
  | capacity
deriving DecidableEq, Repr

def QueueOperation.start {α : Type} : QueueOperation α → QueuePhase α
  | push task => .pushLoad task
  | pop => .popLoad
  | empty => .emptyLoad
  | capacity => .capacity

/-- What is seen of a run: the calls, the claims of positions and the returns. -/
inductive QueueEvent (ι α : Type) where
  | called (i : ι) (operation : QueueOperation α)
  /-- A producer claims a position for its task. -/
  | enqueued (i : ι) (position : ℕ) (task : α)
  /-- A consumer claims a position. -/
  | dequeued (i : ι) (position : ℕ)
  /-- `push` returns true. -/
  | pushed (i : ι) (position : ℕ)
  /-- `push` returns false. -/
  | refused (i : ι)
  /-- `pop` releases the position and returns the task. -/
  | popped (i : ι) (position : ℕ) (task : α)
  /-- `pop` returns no task. -/
  | foundEmpty (i : ι)
  | sawEmpty (i : ι) (result : Bool)
  | sawCapacity (i : ι) (result : UInt64)
deriving DecidableEq, Repr

namespace QueueEvent

variable {ι α : Type}

@[simp] def call? : QueueEvent ι α → Option (ι × QueueOperation α)
  | called i operation => some (i, operation)
  | enqueued .. | dequeued .. | pushed .. | refused _ | popped .. | foundEmpty _ | sawEmpty ..
  | sawCapacity .. => none

@[simp] def enqueued? : QueueEvent ι α → Option (ι × ℕ × α)
  | enqueued i position task => some (i, position, task)
  | called .. | dequeued .. | pushed .. | refused _ | popped .. | foundEmpty _ | sawEmpty ..
  | sawCapacity .. => none

@[simp] def dequeued? : QueueEvent ι α → Option (ι × ℕ)
  | dequeued i position => some (i, position)
  | called .. | enqueued .. | pushed .. | refused _ | popped .. | foundEmpty _ | sawEmpty ..
  | sawCapacity .. => none

@[simp] def popped? : QueueEvent ι α → Option (ℕ × α)
  | popped _ position task => some (position, task)
  | called .. | enqueued .. | dequeued .. | pushed .. | refused _ | foundEmpty _ | sawEmpty ..
  | sawCapacity .. => none

@[simp] def outcome? : QueueEvent ι α → Option (QueueOutcome α)
  | pushed _ _ => some (.push true)
  | refused _ => some (.push false)
  | popped _ _ task => some (.pop (some task))
  | foundEmpty _ => some (.pop none)
  | sawEmpty _ result => some (.empty result)
  | sawCapacity _ result => some (.capacity result)
  | called .. | enqueued .. | dequeued .. => none

end QueueEvent

/-- A queue, the threads that use it, and what has been seen so far. -/
structure QueueWorld (ι α : Type) (capacity : QueueCapacity) where
  queue : LockFreeQueue α capacity
  threads : ι → QueuePhase α
  history : List (QueueEvent ι α)

namespace QueueWorld

variable {ι α : Type} {capacity : QueueCapacity}

/-- The calls so far, with their threads. -/
def calls (world : QueueWorld ι α capacity) : List (ι × QueueOperation α) :=
  world.history.filterMap QueueEvent.call?

/-- The claims of the producers so far. -/
def enqueues (world : QueueWorld ι α capacity) : List (ι × ℕ × α) :=
  world.history.filterMap QueueEvent.enqueued?

/-- The claims of the consumers so far. -/
def dequeues (world : QueueWorld ι α capacity) : List (ι × ℕ) :=
  world.history.filterMap QueueEvent.dequeued?

/-- The tasks that have been popped so far, with the positions they were released from. -/
def pops (world : QueueWorld ι α capacity) : List (ℕ × α) :=
  world.history.filterMap QueueEvent.popped?

/-- What the calls have returned so far. -/
def outcomes (world : QueueWorld ι α capacity) : List (QueueOutcome α) :=
  world.history.filterMap QueueEvent.outcome?

variable [DecidableEq ι]

def started (ι α : Type) [Inhabited α] (capacity : QueueCapacity) : QueueWorld ι α capacity where
  queue := .fresh α capacity
  threads _ := .idle
  history := []

/-- Thread `i` leaves the queue as it is given and goes on; `events` are seen. -/
def advance (world : QueueWorld ι α capacity) (i : ι) (phase : QueuePhase α)
    (queue : LockFreeQueue α capacity) (events : List (QueueEvent ι α)) :
    QueueWorld ι α capacity where
  queue := queue
  threads := Function.update world.threads i phase
  history := world.history ++ events

/-- `push`, `pop`, `empty` and `capacity` of thread `i`. -/
inductive ThreadStep (i : ι) : QueueWorld ι α capacity → QueueWorld ι α capacity → Prop where
  | call {world} {operation : QueueOperation α} : world.threads i = .idle →
      ThreadStep i world
        (world.advance i operation.start world.queue [.called i operation])
  | pushLoad {world task} : world.threads i = .pushLoad task →
      ThreadStep i world
        (world.advance i (.pushCompare task world.queue.enqueuePos) world.queue [])
  | pushEqual {world task position} : world.threads i = .pushCompare task position →
      compareSequence (world.queue.cell position.toNat).sequence position = .equal →
      ThreadStep i world (world.advance i (.pushClaim task position) world.queue [])
  | pushBehind {world task position} : world.threads i = .pushCompare task position →
      compareSequence (world.queue.cell position.toNat).sequence position = .behind →
      ThreadStep i world (world.advance i .idle world.queue [.refused i])
  | pushAhead {world task position} : world.threads i = .pushCompare task position →
      compareSequence (world.queue.cell position.toNat).sequence position = .ahead →
      ThreadStep i world (world.advance i (.pushLoad task) world.queue [])
  | pushClaim {world task position} : world.threads i = .pushClaim task position →
      world.queue.enqueuePos = position →
      ThreadStep i world
        (world.advance i (.pushMove task position)
          { world.queue with enqueuePos := position + 1 } [.enqueued i position.toNat task])
  -- a weak exchange may fail although the values agree
  | pushFail {world task position} : world.threads i = .pushClaim task position →
      ThreadStep i world
        (world.advance i (.pushCompare task world.queue.enqueuePos) world.queue [])
  | pushMove {world task position} : world.threads i = .pushMove task position →
      ThreadStep i world
        (world.advance i (.pushPublish position) (world.queue.setData position.toNat task) [])
  | pushPublish {world position} : world.threads i = .pushPublish position →
      ThreadStep i world
        (world.advance i .idle (world.queue.setSequence position.toNat (position + 1))
          [.pushed i position.toNat])
  | popLoad {world} : world.threads i = .popLoad →
      ThreadStep i world (world.advance i (.popCompare world.queue.dequeuePos) world.queue [])
  | popEqual {world position} : world.threads i = .popCompare position →
      compareSequence (world.queue.cell position.toNat).sequence (position + 1) = .equal →
      ThreadStep i world (world.advance i (.popClaim position) world.queue [])
  | popBehind {world position} : world.threads i = .popCompare position →
      compareSequence (world.queue.cell position.toNat).sequence (position + 1) = .behind →
      ThreadStep i world (world.advance i .idle world.queue [.foundEmpty i])
  | popAhead {world position} : world.threads i = .popCompare position →
      compareSequence (world.queue.cell position.toNat).sequence (position + 1) = .ahead →
      ThreadStep i world (world.advance i .popLoad world.queue [])
  | popClaim {world position} : world.threads i = .popClaim position →
      world.queue.dequeuePos = position →
      ThreadStep i world
        (world.advance i (.popMove position) { world.queue with dequeuePos := position + 1 }
          [.dequeued i position.toNat])
  | popFail {world position} : world.threads i = .popClaim position →
      ThreadStep i world (world.advance i (.popCompare world.queue.dequeuePos) world.queue [])
  -- the value a task is left with after a move is not specified
  | popMove {world position} {moved : α} : world.threads i = .popMove position →
      ThreadStep i world
        (world.advance i (.popRelease position (world.queue.cell position.toNat).data)
          (world.queue.setData position.toNat moved) [])
  | popRelease {world position task} : world.threads i = .popRelease position task →
      ThreadStep i world
        (world.advance i .idle
          (world.queue.setSequence position.toNat (position + capacity.value))
          [.popped i position.toNat task])
  | emptyLoad {world} : world.threads i = .emptyLoad →
      ThreadStep i world (world.advance i (.emptyCompare world.queue.dequeuePos) world.queue [])
  | emptyEqual {world position} : world.threads i = .emptyCompare position →
      compareSequence (world.queue.cell position.toNat).sequence (position + 1) = .equal →
      ThreadStep i world (world.advance i .idle world.queue [.sawEmpty i false])
  | emptyBehind {world position} : world.threads i = .emptyCompare position →
      compareSequence (world.queue.cell position.toNat).sequence (position + 1) = .behind →
      ThreadStep i world (world.advance i .idle world.queue [.sawEmpty i true])
  | emptyAhead {world position} : world.threads i = .emptyCompare position →
      compareSequence (world.queue.cell position.toNat).sequence (position + 1) = .ahead →
      ThreadStep i world (world.advance i .emptyLoad world.queue [])
  | capacity {world} : world.threads i = .capacity →
      ThreadStep i world (world.advance i .idle world.queue [.sawCapacity i capacity.value])

end QueueWorld

open QueueWorld

/-- The runs of a new queue that any of the threads may use. -/
def queueSystem (ι α : Type) [DecidableEq ι] [Inhabited α] (capacity : QueueCapacity) :
    Library.TransitionSystem (QueueWorld ι α capacity) where
  initial world := world = started ι α capacity
  step world world' := ∃ i, ThreadStep i world world'

end GiveMePi
