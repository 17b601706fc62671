import GiveMePi.Scheduler.QueueRefusals
import Mathlib.Data.List.Perm.Subperm

/-! # The tasks of the lock-free queue

Which tasks have been accepted, and what the consumers obtain once the producers have stopped. -/

namespace GiveMePi

/-- The position of a push that has been accepted. -/
@[simp] def QueueEvent.pushed? {ι α : Type} : QueueEvent ι α → Option (ι × ℕ)
  | pushed i position => some (i, position)
  | called .. | enqueued .. | dequeued .. | refused _ | popped .. | foundEmpty _ | sawEmpty ..
  | sawCapacity .. => none

/-- The task of a producer that has not moved it yet. -/
def QueuePhase.task? {α : Type} : QueuePhase α → Option α
  | pushLoad task | pushCompare task _ | pushClaim task _ | pushMove task _ => some task
  | _ => none

namespace QueueWorld

variable {ι α : Type} {capacity : QueueCapacity} {i : ι} {world world' : QueueWorld ι α capacity}

/-- The pushes that have been accepted so far. -/
def pushes (world : QueueWorld ι α capacity) : List (ι × ℕ) :=
  world.history.filterMap QueueEvent.pushed?

@[simp] theorem pushes_advance [DecidableEq ι] (phase : QueuePhase α)
    (queue : LockFreeQueue α capacity) (events : List (QueueEvent ι α)) :
    (world.advance i phase queue events).pushes =
      world.pushes ++ events.filterMap QueueEvent.pushed? := by
  simp [pushes, advance]

/-! ## Accepted tasks -/

/-- What the calls, the claims and the accepted pushes have to do with each other. -/
structure Books (world : QueueWorld ι α capacity) : Prop where
  called : ∀ entry ∈ world.enqueues, (entry.1, .push entry.2.2) ∈ world.calls
  carried : ∀ i task, (world.threads i).task? = some task → (i, .push task) ∈ world.calls
  pushed : ∀ entry ∈ world.pushes, ∃ task, (entry.1, entry.2, task) ∈ world.enqueues
  nodup : (world.pushes.map Prod.snd).Nodup
  settled : ∀ entry ∈ world.enqueues,
    world.Writes entry.1 entry.2.1 ∨ (entry.1, entry.2.1) ∈ world.pushes
  pending : ∀ i position, world.Writes i position →
    (∃ task, (i, position, task) ∈ world.enqueues) ∧ position ∉ world.pushes.map Prod.snd

theorem books_started [Inhabited α] : (started ι α capacity).Books where
  called := by simp [started, enqueues]
  carried := by simp [started, QueuePhase.task?]
  pushed := by simp [started, pushes]
  nodup := List.nodup_nil
  settled := by simp [started, enqueues]
  pending := by simp [started, Writes, QueuePhase.writes?]

namespace Books

theorem position_lt (h : world.Books) (hslots : world.Slots) {position : ℕ}
    (hmem : position ∈ world.pushes.map Prod.snd) : position < world.enqueued := by
  obtain ⟨entry, hentry, rfl⟩ := List.mem_map.mp hmem
  obtain ⟨task, htask⟩ := h.pushed entry hentry
  rw [← List.mem_range, ← hslots.enqueues]
  exact List.mem_map_of_mem (f := fun entry => entry.2.1) htask

variable [DecidableEq ι]

/-- A step that leaves the producers' positions where they are. -/
theorem quiet (h : world.Books) {phase : QueuePhase α} {queue : LockFreeQueue α capacity}
    {events : List (QueueEvent ι α)} (hwrites : phase.writes? = (world.threads i).writes?)
    (henqueued : events.filterMap QueueEvent.enqueued? = [])
    (hpushed : events.filterMap QueueEvent.pushed? = [])
    (htask : ∀ task, phase.task? = some task →
      (i, .push task) ∈ world.calls ++ events.filterMap QueueEvent.call?) :
    (world.advance i phase queue events).Books := by
  have heffect := effect_advance world i phase queue events
  have hiff := heffect.writes_iff hwrites
  constructor
  · intro entry hentry
    rw [enqueues_advance, henqueued, List.append_nil] at hentry
    rw [calls_advance]
    exact List.mem_append_left _ (h.called entry hentry)
  · intro j task hj
    rw [calls_advance]
    by_cases hji : j = i
    · rw [hji, heffect.threads_self] at hj
      exact hji ▸ htask task hj
    · rw [heffect.threads_of_ne hji] at hj
      exact List.mem_append_left _ (h.carried j task hj)
  · rw [pushes_advance, enqueues_advance, henqueued, hpushed, List.append_nil, List.append_nil]
    exact h.pushed
  · rw [pushes_advance, hpushed, List.append_nil]
    exact h.nodup
  · intro entry hentry
    rw [enqueues_advance, henqueued, List.append_nil] at hentry
    rw [pushes_advance, hpushed, List.append_nil, hiff]
    exact h.settled entry hentry
  · intro j position hj
    rw [pushes_advance, enqueues_advance, henqueued, hpushed, List.append_nil, List.append_nil]
    exact h.pending j position ((hiff j position).mp hj)

theorem pushClaim (h : world.Books) (hslots : world.Slots) {task : α} {position : UInt64}
    (hphase : world.threads i = .pushClaim task position)
    (heq : world.queue.enqueuePos = position) (queue : LockFreeQueue α capacity) :
    (world.advance i (.pushMove task position) queue
      [.enqueued i position.toNat task]).Books := by
  have heffect := effect_advance world i (.pushMove task position) queue
    [.enqueued i position.toNat task]
  have hposition : position.toNat = world.enqueued := heq ▸ hslots.enqueuePos
  have hcalled : (i, .push task) ∈ world.calls := h.carried i task (by rw [hphase]; rfl)
  constructor
  · intro entry hentry
    rw [enqueues_advance] at hentry
    simp only [calls_advance]
    rcases List.mem_append.mp hentry with hentry | hentry
    · exact List.mem_append_left _ (h.called entry hentry)
    · obtain rfl : entry = (i, position.toNat, task) := by simpa using hentry
      exact List.mem_append_left _ hcalled
  · intro j task' hj
    rw [calls_advance]
    refine List.mem_append_left _ ?_
    by_cases hji : j = i
    · rw [hji, heffect.threads_self] at hj
      obtain rfl : task = task' := Option.some.inj hj
      exact hji ▸ hcalled
    · rw [heffect.threads_of_ne hji] at hj
      exact h.carried j task' hj
  · intro entry hentry
    obtain ⟨task', htask⟩ := h.pushed entry (by simpa using hentry)
    exact ⟨task', by rw [enqueues_advance]; exact List.mem_append_left _ htask⟩
  · simpa [List.filterMap_cons] using h.nodup
  · intro entry hentry
    rw [enqueues_advance] at hentry
    rcases List.mem_append.mp hentry with hentry | hentry
    · rcases h.settled entry hentry with hwrites | hpushed
      · have hne : entry.1 ≠ i := fun hentry => by
          rw [hentry, Writes, hphase] at hwrites
          exact absurd hwrites (by simp [QueuePhase.writes?])
        exact .inl (by rwa [Writes, heffect.threads_of_ne hne])
      · exact .inr (by simpa using hpushed)
    · obtain rfl : entry = (i, position.toNat, task) := by simpa using hentry
      exact .inl (by rw [Writes, heffect.threads_self]; rfl)
  · intro j p hj
    rw [pushes_advance, enqueues_advance]
    rcases heffect.writes_cases hj with ⟨hji, hp⟩ | ⟨hji, hj⟩
    · obtain rfl : position.toNat = p := Option.some.inj hp
      refine ⟨⟨task, by simp [hji]⟩, fun hmem => ?_⟩
      have := h.position_lt hslots (by simpa using hmem)
      omega
    · obtain ⟨⟨task', htask⟩, hnot⟩ := h.pending j p hj
      exact ⟨⟨task', List.mem_append_left _ htask⟩, by simpa using hnot⟩

theorem pushPublish (h : world.Books) (hslots : world.Slots) {position : UInt64}
    (hphase : world.threads i = .pushPublish position) (queue : LockFreeQueue α capacity) :
    (world.advance i .idle queue [.pushed i position.toNat]).Books := by
  have heffect := effect_advance world i .idle queue [.pushed i position.toNat]
  have hwrites : world.Writes i position.toNat := by rw [Writes, hphase]; rfl
  obtain ⟨⟨task, htask⟩, hnot⟩ := h.pending i _ hwrites
  constructor
  · simpa using h.called
  · intro j task' hj
    rw [calls_advance]
    by_cases hji : j = i
    · rw [hji, heffect.threads_self] at hj
      exact absurd hj (by simp [QueuePhase.task?])
    · rw [heffect.threads_of_ne hji] at hj
      exact List.mem_append_left _ (h.carried j task' hj)
  · intro entry hentry
    simp only [pushes_advance, enqueues_advance] at hentry ⊢
    rcases List.mem_append.mp hentry with hentry | hentry
    · simpa using h.pushed entry hentry
    · obtain rfl : entry = (i, position.toNat) := by simpa using hentry
      exact ⟨task, List.mem_append_left _ htask⟩
  · rw [pushes_advance, List.map_append]
    exact h.nodup.append (List.nodup_singleton _) (List.disjoint_singleton.mpr hnot)
  · intro entry hentry
    rw [pushes_advance]
    rcases h.settled entry (by simpa using hentry) with hentry | hpushed
    · by_cases hji : entry.1 = i
      · rw [hji] at hentry ⊢
        have hsame : position.toNat = entry.2.1 :=
          Option.some.inj (hwrites.symm.trans hentry)
        exact .inr (List.mem_append_right _ (by simp [hsame]))
      · exact .inl (by rwa [Writes, heffect.threads_of_ne hji])
    · exact .inr (List.mem_append_left _ hpushed)
  · intro j p hj
    obtain ⟨hji, hj⟩ := (heffect.writes_cases hj).resolve_left (by simp [QueuePhase.writes?])
    obtain ⟨⟨task', htask'⟩, hnot'⟩ := h.pending j p hj
    rw [pushes_advance, enqueues_advance, List.map_append]
    refine ⟨⟨task', List.mem_append_left _ htask'⟩, fun hmem => ?_⟩
    rcases List.mem_append.mp hmem with hmem | hmem
    · exact hnot' hmem
    · -- the other producers hold other positions
      obtain rfl : p = position.toNat := by simpa using hmem
      exact hji (hslots.writes_unique j i _ hj hwrites)

theorem step (h : world.Books) (hslots : world.Slots) (hstep : ThreadStep i world world') :
    world'.Books := by
  cases hstep with
  | @call operation hphase =>
      refine h.quiet (by rw [hphase]; cases operation <;> rfl) rfl rfl fun task htask => ?_
      cases operation with
      | push task' =>
          obtain rfl : task' = task := Option.some.inj htask
          exact List.mem_append_right _ (by simp)
      | pop | empty | capacity =>
          exact absurd htask (by simp [QueueOperation.start, QueuePhase.task?])
  | pushLoad hphase | pushEqual hphase hcompare | pushAhead hphase hcompare | pushFail hphase =>
      refine h.quiet (by rw [hphase]; rfl) rfl rfl fun task htask => ?_
      refine List.mem_append_left _ (h.carried i task ?_)
      rw [hphase]
      exact htask
  | pushClaim hphase heq => exact h.pushClaim hslots hphase heq _
  | pushPublish hphase => exact h.pushPublish hslots hphase _
  | pushBehind hphase hcompare | pushMove hphase | popLoad hphase | popEqual hphase hcompare
  | popBehind hphase hcompare | popAhead hphase hcompare | popClaim hphase heq | popFail hphase
  | popMove hphase | popRelease hphase | emptyLoad hphase | emptyEqual hphase hcompare
  | emptyBehind hphase hcompare | emptyAhead hphase hcompare | capacity hphase =>
      exact h.quiet (by rw [hphase]; rfl) rfl rfl (by simp [QueuePhase.task?])

end Books


/-! ## Draining -/

/-- No thread is in `push`. -/
def IsStopped (world : QueueWorld ι α capacity) : Prop := ∀ i, (world.threads i).isPush = false

theorem IsStopped.not_writes (h : world.IsStopped) (i : ι) (position : ℕ) :
    ¬ world.Writes i position := fun hwrites => by
  rw [Writes, QueuePhase.writes?_of_isPush (h i)] at hwrites
  cases hwrites

/-- A consumer that finds a cell behind has taken all that was claimed. -/
theorem Slots.drained (h : world.Slots) (hstopped : world.IsStopped) {position : ℕ}
    (hle : position ≤ world.dequeued)
    (hbehind : world.queue.sequenceAt position < position + 1) :
    world.dequeued = world.enqueued := by
  have hnow : position = world.dequeued := by
    by_contra hne
    have := h.lt_sequenceAt (lt_of_le_of_ne hle hne)
    omega
  subst hnow
  refine h.le.antisymm ?_
  by_contra hlt
  have hunreleased : ¬ world.Released world.dequeued := fun hreleased =>
    absurd (h.lt_of_released hreleased) (lt_irrefl _)
  rcases h.held _ (by omega) hunreleased with ⟨i, hwrites⟩ | hpublished | ⟨i, hreads⟩
  · exact hstopped.not_writes i _ hwrites
  · have := hpublished.sequence
    omega
  · exact absurd (h.taken_of_reads hreads).lt (lt_irrefl _)

/-- When every thread has left, what was claimed and taken has been released. -/
theorem Slots.released (h : world.Slots) (hstopped : world.IsStopped)
    (hleft : ∀ i, (world.threads i).isPop = false) (hdrained : world.dequeued = world.enqueued)
    {position : ℕ} (hlt : position < world.enqueued) : world.Released position := by
  by_contra hunreleased
  rcases h.held position hlt hunreleased with ⟨i, hwrites⟩ | hpublished | ⟨i, hreads⟩
  · exact hstopped.not_writes i _ hwrites
  · have := hpublished.le
    omega
  · rw [Reads, QueuePhase.reads?_of_isPop (hleft i)] at hreads
    cases hreads

/-- The claims are in the order of their positions. -/
theorem Slots.position_eq (h : world.Slots) {index : ℕ} {entry : ι × ℕ × α}
    (hentry : world.enqueues[index]? = some entry) : entry.2.1 = index := by
  obtain ⟨hlt, -⟩ := List.getElem?_eq_some_iff.mp hentry
  have hmap : (world.enqueues.map fun entry => entry.2.1)[index]? = some entry.2.1 := by
    rw [List.getElem?_map, hentry]
    rfl
  rw [h.enqueues, enqueued, List.getElem?_range hlt] at hmap
  exact (Option.some.inj hmap).symm

theorem Slots.task?_eq (h : world.Slots) {entry : ι × ℕ × α} (hentry : entry ∈ world.enqueues) :
    world.task? entry.2.1 = some entry.2.2 := by
  obtain ⟨index, hindex⟩ := List.getElem?_of_mem hentry
  rw [task?, h.position_eq hindex, hindex]
  rfl

theorem Slots.exists_of_task? {position : ℕ} {task : α} (h : world.Slots)
    (htask : world.task? position = some task) : ∃ i, (i, position, task) ∈ world.enqueues := by
  obtain ⟨entry, hentry, rfl⟩ := Option.map_eq_some_iff.mp htask
  exact ⟨entry.1, h.position_eq hentry ▸ List.mem_of_getElem? hentry⟩

theorem Slots.pops_perm (h : world.Slots)
    (hreleased : ∀ position < world.enqueued, world.Released position) :
    world.pops.Perm (world.enqueues.map Prod.snd) := by
  have hclaims : ((world.enqueues.map Prod.snd).map Prod.fst).Nodup := by
    rw [List.map_map]
    change (world.enqueues.map fun entry => entry.2.1).Nodup
    rw [h.enqueues]
    exact List.nodup_range
  refine (List.perm_ext_iff_of_nodup h.nodup.of_map hclaims.of_map).mpr fun entry => ⟨?_, ?_⟩
  · intro hentry
    obtain ⟨i, hi⟩ := h.exists_of_task? (h.pops entry hentry).2
    exact List.mem_map_of_mem (f := Prod.snd) hi
  · intro hentry
    obtain ⟨claim, hclaim, rfl⟩ := List.mem_map.mp hentry
    have htask := h.task?_eq hclaim
    have hlt : claim.2.1 < world.enqueued := by
      rw [← List.mem_range, ← h.enqueues]
      exact List.mem_map_of_mem (f := fun entry => entry.2.1) hclaim
    obtain ⟨entry, hentry, hposition⟩ := List.mem_map.mp (hreleased _ hlt)
    have hsame := (h.pops entry hentry).2
    rw [hposition, htask] at hsame
    rw [show claim.2 = entry from Prod.ext hposition.symm (Option.some.inj hsame)]
    exact hentry


variable [DecidableEq ι]

/-- What is seen is never forgotten. -/
theorem history_append (hstep : ThreadStep i world world') :
    ∃ events, world'.history = world.history ++ events := by
  cases hstep <;> exact ⟨_, rfl⟩

theorem IsStopped.advance (h : world.IsStopped) {phase : QueuePhase α}
    (hphase : phase.isPush = false) {queue : LockFreeQueue α capacity}
    {events : List (QueueEvent ι α)} : (world.advance i phase queue events).IsStopped := fun j => by
  by_cases hji : j = i
  · rw [hji, (effect_advance world i phase queue events).threads_self, hphase]
  · rw [(effect_advance world i phase queue events).threads_of_ne hji, h j]

/-- Once the producers have stopped, a step claims nothing, and finds the queue empty only when it
is. -/
theorem IsStopped.step (h : world.IsStopped) (hslots : world.Slots)
    (hclaims : world.enqueued + world.dequeued < 2 ^ 63) (hstep : ThreadStep i world world') :
    ∃ events, world'.history = world.history ++ events ∧
      ((∀ j task, .called j (.push task) ∉ events) →
        world'.IsStopped ∧ world'.enqueues = world.enqueues ∧
          ∀ j, .foundEmpty j ∈ events → world.dequeued = world.enqueued) := by
  have hfits := hslots.fits i
  have hpush := h i
  cases hstep with
  | @call operation hphase =>
      refine ⟨_, rfl, fun hquiet => ⟨h.advance ?_, by simp [List.filterMap_cons], by simp⟩⟩
      cases operation with
      | push task => exact absurd (List.mem_singleton_self _) (hquiet i task)
      | pop | empty | capacity => rfl
  | popBehind hphase hcompare =>
      rw [hphase] at hfits
      refine ⟨_, rfl, fun _ => ⟨h.advance rfl, by simp [List.filterMap_cons], fun j _ => ?_⟩⟩
      exact hslots.drained h hfits (hslots.lt_of_popBehind hclaims hfits hcompare)
  | pushLoad hphase | pushEqual hphase hcompare | pushBehind hphase hcompare
  | pushAhead hphase hcompare | pushClaim hphase heq | pushFail hphase | pushMove hphase
  | pushPublish hphase =>
      rw [hphase] at hpush
      cases hpush
  | popLoad hphase | popEqual hphase hcompare | popAhead hphase hcompare | popClaim hphase heq
  | popFail hphase | popMove hphase | popRelease hphase | emptyLoad hphase
  | emptyEqual hphase hcompare | emptyBehind hphase hcompare | emptyAhead hphase hcompare
  | capacity hphase =>
      exact ⟨_, rfl, fun _ => ⟨h.advance rfl, by simp [List.filterMap_cons], by simp⟩⟩

omit [DecidableEq ι] in
theorem dequeued_mono {events : List (QueueEvent ι α)}
    (hhistory : world'.history = world.history ++ events) : world.dequeued ≤ world'.dequeued := by
  simp [dequeued, dequeues, hhistory]

/-- A run without a call of `push`, and what its consumers have found. -/
theorem consumers_run [Inhabited α] {stopped later : QueueWorld ι α capacity}
    (h : (queueSystem ι α capacity).Reachable stopped) (hstopped : stopped.IsStopped)
    (hrun : Relation.ReflTransGen (queueSystem ι α capacity).step stopped later)
    (hcalls : later.calls.length < 2 ^ 63) :
    ∃ seen, later.history = stopped.history ++ seen ∧
      ((∀ j task, .called j (.push task) ∉ seen) →
        later.IsStopped ∧ later.enqueues = stopped.enqueues ∧
          ∀ j, .foundEmpty j ∈ seen → later.dequeued = later.enqueued) := by
  induction hrun with
  | refl => exact ⟨[], by simp, fun _ => ⟨hstopped, rfl, by simp⟩⟩
  | @tail before after hrun hstep ih =>
      have hreachable := h.run hrun
      have hafter := hreachable.step hstep
      obtain ⟨i, hstep⟩ := hstep
      have hless := (calls_length_le hstep).trans_lt hcalls
      obtain ⟨seen, hseen, hfound⟩ := ih hless
      have hbefore := slots_of_reachable hreachable
      have hslots := hbefore.2 hless
      have hclaims := hbefore.1.claims_le.trans_lt hless
      by_cases hquiet : ∀ j task, .called j (.push task) ∉ seen
      · obtain ⟨hnow, hclaimed, hempty⟩ := hfound hquiet
        obtain ⟨events, hhistory, hevents⟩ := hnow.step hslots hclaims hstep
        refine ⟨seen ++ events, by rw [hhistory, hseen, List.append_assoc], fun hnone => ?_⟩
        obtain ⟨hlater, henqueues, hdrained⟩ :=
          hevents fun j task hmem => hnone j task (List.mem_append_right _ hmem)
        refine ⟨hlater, henqueues.trans hclaimed, fun j hj => ?_⟩
        -- what is empty stays empty without a producer
        have hsame : before.dequeued = before.enqueued :=
          (List.mem_append.mp hj).elim (hempty j) (hdrained j)
        have hmono := dequeued_mono hhistory
        have hle := ((slots_of_reachable hafter).2 hcalls).le
        have hkept : after.enqueued = before.enqueued := congrArg List.length henqueues
        omega
      · obtain ⟨events, hhistory⟩ := history_append hstep
        refine ⟨seen ++ events, by rw [hhistory, hseen, List.append_assoc], fun hnone => ?_⟩
        exact absurd (fun j task hmem => hnone j task (List.mem_append_left _ hmem)) hquiet

/-- Once the producers have stopped, the consumers that pop until the queue is empty obtain what was
pushed. -/
theorem consumers_drain [Inhabited α] {stopped later : QueueWorld ι α capacity}
    {seen : List (QueueEvent ι α)} (h : (queueSystem ι α capacity).Reachable stopped)
    (hstopped : stopped.IsStopped)
    (hrun : Relation.ReflTransGen (queueSystem ι α capacity).step stopped later)
    (hcalls : later.calls.length < 2 ^ 63) (hseen : later.history = stopped.history ++ seen)
    (hquiet : ∀ j task, .called j (.push task) ∉ seen) (hempty : .foundEmpty i ∈ seen)
    (hleft : ∀ j, (later.threads j).isPop = false) :
    later.pops.Perm (later.enqueues.map Prod.snd) := by
  obtain ⟨seen', hseen', hfound⟩ := consumers_run h hstopped hrun hcalls
  obtain rfl := List.append_cancel_left (hseen.symm.trans hseen')
  obtain ⟨hlater, -, hdrained⟩ := hfound hquiet
  have hslots := (slots_of_reachable (h.run hrun)).2 hcalls
  exact hslots.pops_perm fun _ hlt => hslots.released hlater hleft (hdrained i hempty) hlt

end QueueWorld

end GiveMePi
