import GiveMePi.Scheduler.LockFreeQueue
import Mathlib.Data.Multiset.Count
import Mathlib.Data.Nat.ModEq

/-! # The cells of the lock-free queue

Positions count up and the cells are used again and again: the position after the last one a cell
was used for is free, claimed by one producer, published, or taken by one consumer. -/

namespace GiveMePi

/-! ## Cells of positions -/

namespace QueueCapacity

variable {capacity : QueueCapacity}

/-- Positions with one cell are whole rounds apart. -/
theorem index_cases {p q : ℕ} (h : capacity.index p = capacity.index q) :
    p = q ∨ p + capacity.size ≤ q ∨ q + capacity.size ≤ p := by
  have hmod : p ≡ q [MOD capacity.size] := congrArg Fin.val h
  rcases Nat.lt_trichotomy p q with hlt | heq | hlt
  · exact .inr (.inl (hmod.add_le_of_lt hlt))
  · exact .inl heq
  · exact .inr (.inr (hmod.symm.add_le_of_lt hlt))

theorem index_sub {q : ℕ} (h : capacity.size ≤ q) :
    capacity.index (q - capacity.size) = capacity.index q :=
  Fin.ext (Nat.mod_eq_sub_mod h).symm

theorem index_add (p : ℕ) : capacity.index (p + capacity.size) = capacity.index p :=
  Fin.ext (Nat.add_mod_right ..)

/-- A later position with the same cell, less than two rounds away, is the one a round away. -/
theorem eq_add_size {p q : ℕ} (h : capacity.index p = capacity.index q) (hlt : q < p)
    (hnear : p < q + 2 * capacity.size) : p = q + capacity.size := by
  have hnext : capacity.index p = capacity.index (q + capacity.size) :=
    h.trans (index_add q).symm
  rcases index_cases h with heq | hround | hround
  · omega
  · omega
  · rcases index_cases hnext with heq | hsecond | hsecond
    · exact heq
    · omega
    · omega

/-- The position of the next round that has the cell of an earlier one. -/
theorem exists_index {p e : ℕ} (h : p < e) :
    ∃ q, e ≤ q ∧ q < e + capacity.size ∧ capacity.index q = capacity.index p ∧
      p + capacity.size ≤ q := by
  have hsize := capacity.two_le_size
  refine ⟨p + ((e - p - 1) / capacity.size + 1) * capacity.size, ?_, ?_, ?_, ?_⟩
  · have := Nat.lt_div_mul_add (a := e - p - 1) (b := capacity.size) (by omega)
    rw [Nat.add_mul]
    omega
  · have := Nat.div_mul_le_self (e - p - 1) capacity.size
    rw [Nat.add_mul]
    omega
  · exact Fin.ext (by simp [index])
  · rw [Nat.add_mul]
    omega

end QueueCapacity

/-- Sequences of less than half the range apart are compared as numbers. -/
theorem compareSequence_eq_equal {sequence expected : UInt64} :
    compareSequence sequence expected = .equal ↔ sequence.toNat = expected.toNat := by
  unfold compareSequence
  split_ifs with heq hle
  · simp [heq]
  · simpa [← UInt64.toNat_inj] using heq
  · simpa [← UInt64.toNat_inj] using heq

theorem compareSequence_eq_behind {sequence expected : UInt64}
    (h : sequence.toNat < expected.toNat + 2 ^ 63) (h' : expected.toNat < sequence.toNat + 2 ^ 63) :
    compareSequence sequence expected = .behind ↔ sequence.toNat < expected.toNat := by
  have hmax : ptrdiffMax.toNat = 2 ^ 63 - 1 := rfl
  have := sequence.toNat_lt
  have := expected.toNat_lt
  unfold compareSequence
  split_ifs with heq hle
  · simp [heq]
  · rw [UInt64.le_iff_toNat_le, UInt64.toNat_sub, hmax] at hle
    simp only [false_iff]
    omega
  · rw [UInt64.le_iff_toNat_le, UInt64.toNat_sub, hmax] at hle
    simp only [true_iff]
    omega

/-- The position after one that is not the last. -/
theorem toNat_next {position : UInt64} (h : position.toNat + 1 < 2 ^ 64) :
    (position + 1).toNat = position.toNat + 1 :=
  toNat_add_of_lt h

namespace LockFreeQueue

variable {α : Type} {capacity : QueueCapacity} (queue : LockFreeQueue α capacity)

/-- The sequence of the cell of a position. -/
def sequenceAt (position : ℕ) : ℕ := (queue.cell position).sequence.toNat

/-- The data of the cell of a position. -/
def dataAt (position : ℕ) : α := (queue.cell position).data

theorem cell_congr {p q : ℕ} (h : capacity.index p = capacity.index q) :
    queue.cell p = queue.cell q := by
  rw [cell, cell, h]

theorem cell_setCell (p q : ℕ) (content : QueueCell α) :
    (queue.setCell p content).cell q =
      if capacity.index q = capacity.index p then content else queue.cell q := by
  simp [cell, setCell, Function.update_apply]

theorem cell_setCell_of_ne {p q : ℕ} (h : capacity.index q ≠ capacity.index p)
    (content : QueueCell α) : (queue.setCell p content).cell q = queue.cell q := by
  rw [cell_setCell, if_neg h]

theorem sequenceAt_setSequence (p q : ℕ) (sequence : UInt64) :
    (queue.setSequence p sequence).sequenceAt q =
      if capacity.index q = capacity.index p then sequence.toNat else queue.sequenceAt q := by
  rw [sequenceAt, setSequence, cell_setCell, apply_ite QueueCell.sequence, apply_ite UInt64.toNat,
    sequenceAt]

@[simp] theorem dataAt_setSequence (p q : ℕ) (sequence : UInt64) :
    (queue.setSequence p sequence).dataAt q = queue.dataAt q := by
  rw [dataAt, setSequence, cell_setCell]
  split_ifs with h
  · rw [dataAt, queue.cell_congr h]
  · rfl

theorem dataAt_setData (p q : ℕ) (data : α) :
    (queue.setData p data).dataAt q =
      if capacity.index q = capacity.index p then data else queue.dataAt q := by
  rw [dataAt, setData, cell_setCell, apply_ite QueueCell.data, dataAt]

@[simp] theorem sequenceAt_setData (p q : ℕ) (data : α) :
    (queue.setData p data).sequenceAt q = queue.sequenceAt q := by
  rw [sequenceAt, setData, cell_setCell]
  split_ifs with h
  · rw [sequenceAt, queue.cell_congr h]
  · rfl

end LockFreeQueue

/-! ## The threads that hold a position -/

namespace QueuePhase

variable {α : Type}

/-- The position a producer has claimed and not yet published. -/
def writes? : QueuePhase α → Option ℕ
  | pushMove _ position | pushPublish position => some position.toNat
  | _ => none

/-- The position a consumer has claimed and not yet released. -/
def reads? : QueuePhase α → Option ℕ
  | popMove position | popRelease position _ => some position.toNat
  | _ => none

/-- The thread is inside `push`. -/
def isPush : QueuePhase α → Bool
  | pushLoad _ | pushCompare .. | pushClaim .. | pushMove .. | pushPublish _ => true
  | _ => false

/-- The thread is inside `pop`. -/
def isPop : QueuePhase α → Bool
  | popLoad | popCompare _ | popClaim _ | popMove _ | popRelease .. => true
  | _ => false

/-- The thread is inside `push` or `pop` and has not claimed a position. -/
def awaits : QueuePhase α → ℕ
  | pushLoad _ | pushCompare .. | pushClaim .. | popLoad | popCompare _ | popClaim _ => 1
  | _ => 0

theorem awaits_le_one (phase : QueuePhase α) : phase.awaits ≤ 1 := by
  cases phase <;> simp [awaits]

theorem writes?_of_isPush {phase : QueuePhase α} (h : phase.isPush = false) :
    phase.writes? = none := by
  cases phase <;> first | rfl | simp [isPush] at h

theorem reads?_of_isPop {phase : QueuePhase α} (h : phase.isPop = false) :
    phase.reads? = none := by
  cases phase <;> first | rfl | simp [isPop] at h

end QueuePhase

namespace QueueWorld

variable {ι α : Type} {capacity : QueueCapacity} {world world' : QueueWorld ι α capacity}

/-- How many positions the producers have claimed. -/
def enqueued (world : QueueWorld ι α capacity) : ℕ := world.enqueues.length

/-- How many positions the consumers have claimed. -/
def dequeued (world : QueueWorld ι α capacity) : ℕ := world.dequeues.length

/-- The task of a claimed position. -/
def task? (world : QueueWorld ι α capacity) (position : ℕ) : Option α :=
  world.enqueues[position]?.map fun entry => entry.2.2

/-- The consumer of the position has released it. -/
def Released (world : QueueWorld ι α capacity) (position : ℕ) : Prop :=
  position ∈ world.pops.map Prod.fst

def Writes (world : QueueWorld ι α capacity) (i : ι) (position : ℕ) : Prop :=
  (world.threads i).writes? = some position

def Reads (world : QueueWorld ι α capacity) (i : ι) (position : ℕ) : Prop :=
  (world.threads i).reads? = some position

/-- The thread has claimed the position and not yet published or released it. -/
def Holds (world : QueueWorld ι α capacity) (i : ι) (position : ℕ) : Prop :=
  world.Writes i position ∨ world.Reads i position

/-- A thread holds one position at a time. -/
theorem Holds.position_eq {i : ι} {p q : ℕ} (hp : world.Holds i p) (hq : world.Holds i q) :
    p = q := by
  unfold Holds Writes Reads at hp hq
  cases hphase : world.threads i <;>
    simp [hphase, QueuePhase.writes?, QueuePhase.reads?] at hp hq <;> omega

/-- The position belongs to its producer. -/
structure IsClaimed (world : QueueWorld ι α capacity) (position : ℕ) : Prop where
  lt : position < world.enqueued
  le : world.dequeued ≤ position
  sequence : world.queue.sequenceAt position = position

/-- The position holds its task and no consumer has claimed it. -/
structure IsPublished (world : QueueWorld ι α capacity) (position : ℕ) : Prop where
  lt : position < world.enqueued
  le : world.dequeued ≤ position
  sequence : world.queue.sequenceAt position = position + 1
  task : world.task? position = some (world.queue.dataAt position)

/-- The position belongs to its consumer. -/
structure IsTaken (world : QueueWorld ι α capacity) (position : ℕ) : Prop where
  lt : position < world.dequeued
  unreleased : ¬ world.Released position
  sequence : world.queue.sequenceAt position = position + 1

/-- What is known of the local variables of a thread. -/
def Fits (world : QueueWorld ι α capacity) : QueuePhase α → Prop
  | .pushCompare _ position => position.toNat ≤ world.enqueued
  | .pushClaim _ position => position.toNat ≤ world.enqueued ∧
      (position.toNat = world.enqueued →
        world.queue.sequenceAt position.toNat = position.toNat)
  | .pushMove task position => world.IsClaimed position.toNat ∧
      world.task? position.toNat = some task
  | .pushPublish position => world.IsClaimed position.toNat ∧
      world.task? position.toNat = some (world.queue.dataAt position.toNat)
  | .popCompare position | .emptyCompare position => position.toNat ≤ world.dequeued
  | .popClaim position => position.toNat ≤ world.dequeued ∧
      (position.toNat = world.dequeued →
        world.queue.sequenceAt position.toNat = position.toNat + 1)
  | .popMove position => world.IsTaken position.toNat ∧
      world.task? position.toNat = some (world.queue.dataAt position.toNat)
  | .popRelease position task => world.IsTaken position.toNat ∧
      world.task? position.toNat = some task
  | .idle | .pushLoad _ | .popLoad | .emptyLoad | .capacity => True

/-- The state of the cells. -/
structure Slots (world : QueueWorld ι α capacity) : Prop where
  enqueuePos : world.queue.enqueuePos.toNat = world.enqueued
  dequeuePos : world.queue.dequeuePos.toNat = world.dequeued
  enqueues : world.enqueues.map (fun entry => entry.2.1) = List.range world.enqueued
  dequeues : world.dequeues.map Prod.snd = List.range world.dequeued
  le : world.dequeued ≤ world.enqueued
  nodup : (world.pops.map Prod.fst).Nodup
  pops : ∀ entry ∈ world.pops, entry.1 < world.dequeued ∧ world.task? entry.1 = some entry.2
  free : ∀ position, world.enqueued ≤ position → position < world.enqueued + capacity.size →
    (capacity.size ≤ position → world.Released (position - capacity.size)) →
    world.queue.sequenceAt position = position
  window : ∀ position < world.enqueued, ¬ world.Released position →
    world.enqueued ≤ position + capacity.size
  held : ∀ position < world.enqueued, ¬ world.Released position →
    (∃ i, world.Writes i position) ∨ world.IsPublished position ∨ ∃ i, world.Reads i position
  fits : ∀ i, world.Fits (world.threads i)
  writes_unique : ∀ i j position, world.Writes i position → world.Writes j position → i = j
  reads_unique : ∀ i j position, world.Reads i position → world.Reads j position → i = j

/-! ## What is seen of a step -/

section Advance

variable [DecidableEq ι] (world) (i : ι) (phase : QueuePhase α) (queue : LockFreeQueue α capacity)
  (events : List (QueueEvent ι α))

@[simp] theorem queue_advance : (world.advance i phase queue events).queue = queue := rfl

@[simp] theorem calls_advance : (world.advance i phase queue events).calls =
    world.calls ++ events.filterMap QueueEvent.call? := by
  simp [calls, advance]

@[simp] theorem enqueues_advance : (world.advance i phase queue events).enqueues =
    world.enqueues ++ events.filterMap QueueEvent.enqueued? := by
  simp [enqueues, advance]

@[simp] theorem dequeues_advance : (world.advance i phase queue events).dequeues =
    world.dequeues ++ events.filterMap QueueEvent.dequeued? := by
  simp [dequeues, advance]

@[simp] theorem pops_advance : (world.advance i phase queue events).pops =
    world.pops ++ events.filterMap QueueEvent.popped? := by
  simp [pops, advance]

@[simp] theorem outcomes_advance : (world.advance i phase queue events).outcomes =
    world.outcomes ++ events.filterMap QueueEvent.outcome? := by
  simp [outcomes, advance]

end Advance

/-- What a step of thread `i` does, with its claims and releases. -/
structure Effect [DecidableEq ι] (world world' : QueueWorld ι α capacity) (i : ι)
    (phase : QueuePhase α) (queue : LockFreeQueue α capacity) (claims : List (ι × ℕ × α))
    (takes : List (ι × ℕ)) (releases : List (ℕ × α)) : Prop where
  queue : world'.queue = queue
  threads : world'.threads = Function.update world.threads i phase
  enqueues : world'.enqueues = world.enqueues ++ claims
  dequeues : world'.dequeues = world.dequeues ++ takes
  pops : world'.pops = world.pops ++ releases

theorem effect_advance [DecidableEq ι] (world : QueueWorld ι α capacity) (i : ι)
    (phase : QueuePhase α) (queue : LockFreeQueue α capacity) (events : List (QueueEvent ι α)) :
    Effect world (world.advance i phase queue events) i phase queue
      (events.filterMap QueueEvent.enqueued?) (events.filterMap QueueEvent.dequeued?)
      (events.filterMap QueueEvent.popped?) :=
  ⟨rfl, rfl, enqueues_advance .., dequeues_advance .., pops_advance ..⟩

namespace Effect

variable [DecidableEq ι] {i : ι} {phase : QueuePhase α} {queue : LockFreeQueue α capacity}
  {claims : List (ι × ℕ × α)} {takes : List (ι × ℕ)} {releases : List (ℕ × α)}

theorem enqueued (h : Effect world world' i phase queue claims takes releases) :
    world'.enqueued = world.enqueued + claims.length := by
  rw [QueueWorld.enqueued, h.enqueues, List.length_append, QueueWorld.enqueued]

theorem dequeued (h : Effect world world' i phase queue claims takes releases) :
    world'.dequeued = world.dequeued + takes.length := by
  rw [QueueWorld.dequeued, h.dequeues, List.length_append, QueueWorld.dequeued]

theorem released_iff (h : Effect world world' i phase queue claims takes releases) (position : ℕ) :
    world'.Released position ↔ world.Released position ∨ position ∈ releases.map Prod.fst := by
  rw [Released, h.pops, List.map_append, List.mem_append, Released]

theorem released_iff_of_nil (h : Effect world world' i phase queue claims takes [])
    (position : ℕ) : world'.Released position ↔ world.Released position := by
  simpa using h.released_iff position

/-- The claimed positions keep their tasks. -/
theorem task? (h : Effect world world' i phase queue claims takes releases) {position : ℕ}
    {task : α} (htask : world.task? position = some task) :
    world'.task? position = some task := by
  obtain ⟨entry, hentry, -⟩ := Option.map_eq_some_iff.mp htask
  obtain ⟨hlt, -⟩ := List.getElem?_eq_some_iff.mp hentry
  rw [QueueWorld.task?, h.enqueues, List.getElem?_append_left hlt]
  exact htask

theorem threads_self (h : Effect world world' i phase queue claims takes releases) :
    world'.threads i = phase := by
  rw [h.threads, Function.update_self]

theorem threads_of_ne (h : Effect world world' i phase queue claims takes releases) {j : ι}
    (hne : j ≠ i) : world'.threads j = world.threads j := by
  rw [h.threads, Function.update_of_ne hne]

/-- A step that leaves the producers' positions where they are. -/
theorem writes_iff (h : Effect world world' i phase queue claims takes releases)
    (hphase : phase.writes? = (world.threads i).writes?) (j : ι) (position : ℕ) :
    world'.Writes j position ↔ world.Writes j position := by
  by_cases hji : j = i
  · rw [hji, Writes, h.threads_self, hphase, Writes]
  · rw [Writes, h.threads_of_ne hji, Writes]

/-- A step that leaves the consumers' positions where they are. -/
theorem reads_iff (h : Effect world world' i phase queue claims takes releases)
    (hphase : phase.reads? = (world.threads i).reads?) (j : ι) (position : ℕ) :
    world'.Reads j position ↔ world.Reads j position := by
  by_cases hji : j = i
  · rw [hji, Reads, h.threads_self, hphase, Reads]
  · rw [Reads, h.threads_of_ne hji, Reads]

/-- A position that is written to is the thread's own, or was written to by another before. -/
theorem writes_cases (h : Effect world world' i phase queue claims takes releases) {j : ι}
    {position : ℕ} (hj : world'.Writes j position) :
    j = i ∧ phase.writes? = some position ∨ j ≠ i ∧ world.Writes j position := by
  by_cases hji : j = i
  · rw [hji, Writes, h.threads_self] at hj
    exact .inl ⟨hji, hj⟩
  · rw [Writes, h.threads_of_ne hji] at hj
    exact .inr ⟨hji, hj⟩

/-- A position that is read from is the thread's own, or was read from by another before. -/
theorem reads_cases (h : Effect world world' i phase queue claims takes releases) {j : ι}
    {position : ℕ} (hj : world'.Reads j position) :
    j = i ∧ phase.reads? = some position ∨ j ≠ i ∧ world.Reads j position := by
  by_cases hji : j = i
  · rw [hji, Reads, h.threads_self] at hj
    exact .inl ⟨hji, hj⟩
  · rw [Reads, h.threads_of_ne hji] at hj
    exact .inr ⟨hji, hj⟩

/-- What the threads know, where the others know it still. -/
theorem fits (h : Effect world world' i phase queue claims takes releases)
    (hself : world'.Fits phase) (hothers : ∀ j ≠ i, world'.Fits (world.threads j)) (j : ι) :
    world'.Fits (world'.threads j) := by
  by_cases hji : j = i
  · rw [hji, h.threads_self]
    exact hself
  · rw [h.threads_of_ne hji]
    exact hothers j hji

end Effect

/-! ## Positions and their cells -/

/-- What a thread knows stays true when its own position is left alone. -/
theorem Fits.mono {phase : QueuePhase α} (h : world.Fits phase)
    (henqueued : world.enqueued ≤ world'.enqueued) (hdequeued : world.dequeued ≤ world'.dequeued)
    (hpush : world.queue.sequenceAt world.enqueued = world.enqueued →
      world'.enqueued = world.enqueued →
      world'.queue.sequenceAt world.enqueued = world.enqueued)
    (hpop : world.queue.sequenceAt world.dequeued = world.dequeued + 1 →
      world'.dequeued = world.dequeued →
      world'.queue.sequenceAt world.dequeued = world.dequeued + 1)
    (htask : ∀ position task, world.task? position = some task →
      world'.task? position = some task)
    (hwrites : ∀ position, phase.writes? = some position → world.IsClaimed position →
      world'.IsClaimed position ∧
        world'.queue.dataAt position = world.queue.dataAt position)
    (hreads : ∀ position, phase.reads? = some position → world.IsTaken position →
      world'.IsTaken position ∧
        world'.queue.dataAt position = world.queue.dataAt position) :
    world'.Fits phase := by
  cases phase with
  | pushCompare task position => exact h.trans henqueued
  | pushClaim task position =>
      obtain ⟨hle, hsequence⟩ := h
      refine ⟨hle.trans henqueued, fun heq => ?_⟩
      have hnow : position.toNat = world.enqueued := by omega
      rw [hnow] at hsequence ⊢
      exact hpush (hsequence rfl) (by omega)
  | pushMove task position =>
      exact ⟨(hwrites _ rfl h.1).1, htask _ _ h.2⟩
  | pushPublish position =>
      obtain ⟨hclaimed, hdata⟩ := hwrites _ rfl h.1
      refine ⟨hclaimed, ?_⟩
      rw [hdata]
      exact htask _ _ h.2
  | popCompare position => exact h.trans hdequeued
  | popClaim position =>
      obtain ⟨hle, hsequence⟩ := h
      refine ⟨hle.trans hdequeued, fun heq => ?_⟩
      have hnow : position.toNat = world.dequeued := by omega
      rw [hnow] at hsequence ⊢
      exact hpop (hsequence rfl) (by omega)
  | popMove position =>
      obtain ⟨htaken, hdata⟩ := hreads _ rfl h.1
      refine ⟨htaken, ?_⟩
      rw [hdata]
      exact htask _ _ h.2
  | popRelease position task =>
      exact ⟨(hreads _ rfl h.1).1, htask _ _ h.2⟩
  | emptyCompare position => exact h.trans hdequeued
  | idle | pushLoad task | popLoad | emptyLoad | capacity => trivial

namespace Slots

theorem lt_of_released (h : world.Slots) {position : ℕ} (hreleased : world.Released position) :
    position < world.dequeued := by
  obtain ⟨entry, hmem, rfl⟩ := List.mem_map.mp hreleased
  exact (h.pops entry hmem).1

theorem claimed_of_writes (h : world.Slots) {i : ι} {position : ℕ}
    (hwrites : world.Writes i position) : world.IsClaimed position := by
  have hfits := h.fits i
  unfold Writes at hwrites
  cases hphase : world.threads i <;> rw [hphase] at hfits hwrites <;>
    simp only [QueuePhase.writes?, Option.some.injEq, reduceCtorEq] at hwrites
  all_goals
    subst hwrites
    exact hfits.1

theorem taken_of_reads (h : world.Slots) {i : ι} {position : ℕ}
    (hreads : world.Reads i position) : world.IsTaken position := by
  have hfits := h.fits i
  unfold Reads at hreads
  cases hphase : world.threads i <;> rw [hphase] at hfits hreads <;>
    simp only [QueuePhase.reads?, Option.some.injEq, reduceCtorEq] at hreads
  all_goals
    subst hreads
    exact hfits.1

theorem unreleased_of_claimed (h : world.Slots) {position : ℕ}
    (hclaimed : world.IsClaimed position) : ¬ world.Released position := fun hreleased => by
  have := h.lt_of_released hreleased
  have := hclaimed.le
  omega

/-- No two threads hold one position. -/
theorem holds_unique (h : world.Slots) {i j : ι} {position : ℕ} (hi : world.Holds i position)
    (hj : world.Holds j position) : i = j := by
  have hexclusive {i j : ι} (hi : world.Writes i position) (hj : world.Reads j position) :
      False := by
    have := (h.claimed_of_writes hi).le
    have := (h.taken_of_reads hj).lt
    omega
  rcases hi with hi | hi <;> rcases hj with hj | hj
  · exact h.writes_unique i j position hi hj
  · exact (hexclusive hi hj).elim
  · exact (hexclusive hj hi).elim
  · exact h.reads_unique i j position hi hj

/-- A claimed position that is not released is in one of three states. -/
theorem held_cases (h : world.Slots) {position : ℕ} (hlt : position < world.enqueued)
    (hunreleased : ¬ world.Released position) :
    world.IsClaimed position ∨ world.IsPublished position ∨ world.IsTaken position := by
  rcases h.held position hlt hunreleased with ⟨i, hi⟩ | hpublished | ⟨i, hi⟩
  · exact .inl (h.claimed_of_writes hi)
  · exact .inr (.inl hpublished)
  · exact .inr (.inr (h.taken_of_reads hi))

theorem held_sequence (h : world.Slots) {position : ℕ} (hlt : position < world.enqueued)
    (hunreleased : ¬ world.Released position) :
    world.queue.sequenceAt position = position ∨
      world.queue.sequenceAt position = position + 1 := by
  rcases h.held_cases hlt hunreleased with hclaimed | hpublished | htaken
  · exact .inl hclaimed.sequence
  · exact .inr hpublished.sequence
  · exact .inr htaken.sequence

/-- Positions in use have cells of their own. -/
theorem index_ne (h : world.Slots) {p q : ℕ} (hp : p < world.enqueued) (hq : q < world.enqueued)
    (hp' : ¬ world.Released p) (hq' : ¬ world.Released q) (hne : p ≠ q) :
    capacity.index p ≠ capacity.index q := fun heq => by
  have := h.window p hp hp'
  have := h.window q hq hq'
  rcases QueueCapacity.index_cases heq with heq | hle | hle <;> omega

/-- The sequence of the cell that a coming position will use. -/
theorem sequence_cases (h : world.Slots) {position : ℕ} (hle : world.enqueued ≤ position)
    (hlt : position < world.enqueued + capacity.size) :
    world.queue.sequenceAt position = position ∧
        (capacity.size ≤ position → world.Released (position - capacity.size)) ∨
      capacity.size ≤ position ∧ ¬ world.Released (position - capacity.size) ∧
        (world.queue.sequenceAt position = position - capacity.size ∨
          world.queue.sequenceAt position = position - capacity.size + 1) := by
  by_cases hfree : capacity.size ≤ position → world.Released (position - capacity.size)
  · exact .inl ⟨h.free position hle hlt hfree, hfree⟩
  · obtain ⟨hsize, hunreleased⟩ := Classical.not_imp.mp hfree
    have hsequence := h.held_sequence (by omega) hunreleased
    have hcell : world.queue.sequenceAt (position - capacity.size) =
        world.queue.sequenceAt position := by
      rw [LockFreeQueue.sequenceAt, world.queue.cell_congr (QueueCapacity.index_sub hsize),
        LockFreeQueue.sequenceAt]
    rw [hcell] at hsequence
    exact .inr ⟨hsize, hunreleased, hsequence⟩

/-- The next position to claim is free when its cell says so. -/
theorem free_of_sequence (h : world.Slots)
    (hsequence : world.queue.sequenceAt world.enqueued = world.enqueued) :
    capacity.size ≤ world.enqueued → world.Released (world.enqueued - capacity.size) := by
  have hsize := capacity.two_le_size
  rcases h.sequence_cases le_rfl (by omega) with ⟨-, hfree⟩ | ⟨hle, -, hcell⟩
  · exact hfree
  · omega

/-- The next position to take is published when its cell says so. -/
theorem published_of_sequence (h : world.Slots)
    (hsequence : world.queue.sequenceAt world.dequeued = world.dequeued + 1) :
    world.IsPublished world.dequeued := by
  have hsize := capacity.two_le_size
  have hlt : world.dequeued < world.enqueued := by
    refine lt_of_le_of_ne h.le fun heq => ?_
    rcases h.sequence_cases le_rfl (by omega) with ⟨hcell, -⟩ | ⟨hle, -, hcell⟩ <;>
      rw [← heq] at hcell <;> omega
  have hunreleased : ¬ world.Released world.dequeued := fun hreleased =>
    absurd (h.lt_of_released hreleased) (lt_irrefl _)
  rcases h.held_cases hlt hunreleased with hclaimed | hpublished | htaken
  · have := hclaimed.sequence
    omega
  · exact hpublished
  · exact absurd htaken.lt (lt_irrefl _)

end Slots

end QueueWorld

end GiveMePi
