import GiveMePi.Scheduler.QueueSlots

/-! # The steps of the lock-free queue

Every step keeps the state of the cells, as long as there are fewer than `2 ^ 63` operations. -/

namespace GiveMePi

namespace QueueWorld

variable {ι α : Type} {capacity : QueueCapacity} {i : ι}
  {world world' : QueueWorld ι α capacity}

/-! ## Steps that leave the queue as it is -/

theorem slots_started [Inhabited α] : (started ι α capacity).Slots where
  enqueuePos := rfl
  dequeuePos := rfl
  enqueues := rfl
  dequeues := rfl
  le := le_rfl
  nodup := List.nodup_nil
  pops := by simp [started, pops]
  free position hle hlt hfree := by
    have hsize := capacity.size_lt
    have hposition : position < capacity.size := by
      by_contra hge
      have := hfree (by omega)
      simp [started, Released, pops] at this
    have : position % capacity.size = position := Nat.mod_eq_of_lt hposition
    simp [LockFreeQueue.sequenceAt, LockFreeQueue.cell, started, LockFreeQueue.fresh,
      QueueCapacity.index, this, UInt64.toNat_ofNat']
    omega
  window position hlt := by simp [started, enqueued, enqueues] at hlt
  held position hlt := by simp [started, enqueued, enqueues] at hlt
  fits i := trivial
  writes_unique i j position hi := by simp [started, Writes, QueuePhase.writes?] at hi
  reads_unique i j position hi := by simp [started, Reads, QueuePhase.reads?] at hi

namespace Slots

variable [DecidableEq ι]

/-- What is known of the positions that have been released. -/
theorem pops_of_effect (h : world.Slots) {phase : QueuePhase α} {queue : LockFreeQueue α capacity}
    {claims : List (ι × ℕ × α)} {takes : List (ι × ℕ)} {releases : List (ℕ × α)}
    (heffect : Effect world world' i phase queue claims takes releases)
    (hreleases : ∀ entry ∈ releases, entry.1 < world.dequeued ∧
      world.task? entry.1 = some entry.2) :
    ∀ entry ∈ world'.pops, entry.1 < world'.dequeued ∧ world'.task? entry.1 = some entry.2 := by
  have hdequeued := heffect.dequeued
  intro entry hentry
  rw [heffect.pops] at hentry
  have hknown : entry.1 < world.dequeued ∧ world.task? entry.1 = some entry.2 :=
    (List.mem_append.mp hentry).elim (h.pops entry) (hreleases entry)
  exact ⟨by omega, heffect.task? hknown.2⟩

/-- A thread goes on and the queue stays as it is. -/
theorem stay (h : world.Slots) {phase : QueuePhase α}
    (heffect : Effect world world' i phase world.queue [] [] [])
    (hwrites : phase.writes? = (world.threads i).writes?)
    (hreads : phase.reads? = (world.threads i).reads?) (hfits : world.Fits phase) :
    world'.Slots := by
  have hqueue := heffect.queue
  have henqueued : world'.enqueued = world.enqueued := heffect.enqueued
  have hdequeued : world'.dequeued = world.dequeued := heffect.dequeued
  have hreleased := heffect.released_iff_of_nil
  have hkept {phase' : QueuePhase α} (hfits : world.Fits phase') : world'.Fits phase' := by
    refine hfits.mono henqueued.ge hdequeued.ge ?_ ?_ (fun _ _ => heffect.task?) ?_ ?_
    · exact fun hsequence _ => hqueue ▸ hsequence
    · exact fun hsequence _ => hqueue ▸ hsequence
    · exact fun p _ hclaimed => ⟨⟨henqueued ▸ hclaimed.lt, hdequeued ▸ hclaimed.le,
        hqueue ▸ hclaimed.sequence⟩, by rw [hqueue]⟩
    · exact fun p _ htaken => ⟨⟨hdequeued ▸ htaken.lt, mt (hreleased p).mp htaken.unreleased,
        hqueue ▸ htaken.sequence⟩, by rw [hqueue]⟩
  constructor
  · rw [hqueue, henqueued, h.enqueuePos]
  · rw [hqueue, hdequeued, h.dequeuePos]
  · rw [heffect.enqueues, henqueued, List.append_nil, h.enqueues]
  · rw [heffect.dequeues, hdequeued, List.append_nil, h.dequeues]
  · rw [henqueued, hdequeued]
    exact h.le
  · rw [heffect.pops, List.append_nil]
    exact h.nodup
  · exact h.pops_of_effect heffect (by simp)
  · intro p hle hlt hfree
    rw [henqueued] at hle hlt
    rw [hqueue]
    exact h.free p hle hlt fun hsize => (hreleased _).mp (hfree hsize)
  · intro p hlt hunreleased
    rw [henqueued] at hlt ⊢
    exact h.window p hlt (mt (hreleased p).mpr hunreleased)
  · intro p hlt hunreleased
    rw [henqueued] at hlt
    rcases h.held p hlt (mt (hreleased p).mpr hunreleased) with ⟨j, hj⟩ | hpublished | ⟨j, hj⟩
    · exact .inl ⟨j, (heffect.writes_iff hwrites j p).mpr hj⟩
    · exact .inr (.inl ⟨henqueued ▸ hpublished.lt, hdequeued ▸ hpublished.le,
        hqueue ▸ hpublished.sequence, hqueue ▸ heffect.task? hpublished.task⟩)
    · exact .inr (.inr ⟨j, (heffect.reads_iff hreads j p).mpr hj⟩)
  · exact heffect.fits (hkept hfits) fun j _ => hkept (h.fits j)
  · intro j k p hj hk
    exact h.writes_unique j k p ((heffect.writes_iff hwrites j p).mp hj)
      ((heffect.writes_iff hwrites k p).mp hk)
  · intro j k p hj hk
    exact h.reads_unique j k p ((heffect.reads_iff hreads j p).mp hj)
      ((heffect.reads_iff hreads k p).mp hk)

/-! ## Claims -/

/-- A producer claims the next position. -/
theorem pushClaim (h : world.Slots) {task : α} {position : UInt64}
    (hphase : world.threads i = .pushClaim task position)
    (heq : world.queue.enqueuePos = position) (hbound : world.enqueued + 1 < 2 ^ 64)
    (heffect : Effect world world' i (.pushMove task position)
      { world.queue with enqueuePos := position + 1 } [(i, position.toNat, task)] [] []) :
    world'.Slots := by
  have hsize := capacity.two_le_size
  have hposition : position.toNat = world.enqueued := heq ▸ h.enqueuePos
  have hnext : (position + 1).toNat = world.enqueued + 1 := by
    rw [toNat_next (by omega), hposition]
  have hsequence : world.queue.sequenceAt world.enqueued = world.enqueued := by
    have hfits := h.fits i
    rw [hphase] at hfits
    rw [← hposition]
    exact hfits.2 hposition
  have hfree := h.free_of_sequence hsequence
  have hle := h.le
  have henqueued : world'.enqueued = world.enqueued + 1 := heffect.enqueued
  have hdequeued : world'.dequeued = world.dequeued := heffect.dequeued
  have hreleased := heffect.released_iff_of_nil
  have hcell (p : ℕ) : world'.queue.sequenceAt p = world.queue.sequenceAt p := by
    rw [heffect.queue]
    rfl
  have hdata (p : ℕ) : world'.queue.dataAt p = world.queue.dataAt p := by
    rw [heffect.queue]
    rfl
  have htask : world'.task? world.enqueued = some task := by
    rw [task?, heffect.enqueues, enqueued, List.getElem?_append_right le_rfl]
    simp
  have hclaimed : world'.IsClaimed world.enqueued :=
    ⟨by omega, by omega, by rw [hcell, hsequence]⟩
  have hwrites (j : ι) (p : ℕ) (hj : world'.Writes j p) :
      j = i ∧ p = world.enqueued ∨ j ≠ i ∧ world.Writes j p := by
    refine (heffect.writes_cases hj).imp_left fun hwritten => ⟨hwritten.1, ?_⟩
    rw [← Option.some.inj hwritten.2, hposition]
  constructor
  · rw [heffect.queue, henqueued, hnext]
  · rw [heffect.queue, hdequeued, h.dequeuePos]
  · rw [heffect.enqueues, henqueued, List.map_append, h.enqueues, List.range_succ, hposition]
    rfl
  · rw [heffect.dequeues, hdequeued, List.append_nil, h.dequeues]
  · omega
  · rw [heffect.pops, List.append_nil]
    exact h.nodup
  · exact h.pops_of_effect heffect (by simp)
  · intro p hle' hlt hfree'
    rw [hcell]
    refine h.free p (by omega) ?_ fun hsize => (hreleased _).mp (hfree' hsize)
    -- the cell of the claimed position is not free before that position is released
    by_contra hge
    have := h.lt_of_released ((hreleased _).mp (hfree' (by omega)))
    omega
  · intro p hlt hunreleased
    rw [hreleased] at hunreleased
    by_contra hlast
    by_cases hold : p < world.enqueued
    · have hp := h.window p hold hunreleased
      have hreleased' := hfree (by omega)
      rw [show world.enqueued - capacity.size = p by omega] at hreleased'
      exact hunreleased hreleased'
    · omega
  · intro p hlt hunreleased
    rw [hreleased] at hunreleased
    by_cases hold : p < world.enqueued
    · rcases h.held p hold hunreleased with ⟨j, hj⟩ | hpublished | ⟨j, hj⟩
      · have hji : j ≠ i := fun hji => by
          rw [hji, Writes, hphase] at hj
          exact absurd hj (by simp [QueuePhase.writes?])
        exact .inl ⟨j, by rwa [Writes, heffect.threads_of_ne hji]⟩
      · exact .inr (.inl ⟨by omega, hdequeued ▸ hpublished.le, by rw [hcell, hpublished.sequence],
          by rw [hdata]; exact heffect.task? hpublished.task⟩)
      · exact .inr (.inr ⟨j, (heffect.reads_iff (by rw [hphase]; rfl) j p).mpr hj⟩)
    · refine .inl ⟨i, ?_⟩
      rw [Writes, heffect.threads_self, QueuePhase.writes?, hposition]
      congr 1
      omega
  · refine heffect.fits ⟨by rw [hposition]; exact hclaimed, by rw [hposition]; exact htask⟩ ?_
    intro j _
    refine (h.fits j).mono (by omega) hdequeued.ge ?_ ?_ (fun _ _ => heffect.task?) ?_ ?_
    · intro _ hsame
      omega
    · exact fun hsequence _ => by rw [hcell, hsequence]
    · exact fun p _ hclaimed => ⟨⟨by have := hclaimed.lt; omega, hdequeued ▸ hclaimed.le,
        by rw [hcell, hclaimed.sequence]⟩, hdata p⟩
    · exact fun p _ htaken => ⟨⟨hdequeued ▸ htaken.lt, mt (hreleased p).mp htaken.unreleased,
        by rw [hcell, htaken.sequence]⟩, hdata p⟩
  · intro j k p hj hk
    rcases hwrites j p hj with ⟨hji, hp⟩ | ⟨hji, hj⟩ <;>
      rcases hwrites k p hk with ⟨hki, hp'⟩ | ⟨hki, hk⟩
    · rw [hji, hki]
    · have := (h.claimed_of_writes hk).lt
      omega
    · have := (h.claimed_of_writes hj).lt
      omega
    · exact h.writes_unique j k p hj hk
  · intro j k p hj hk
    exact h.reads_unique j k p ((heffect.reads_iff (by rw [hphase]; rfl) j p).mp hj)
      ((heffect.reads_iff (by rw [hphase]; rfl) k p).mp hk)

/-- A consumer claims the next position. -/
theorem popClaim (h : world.Slots) {position : UInt64}
    (hphase : world.threads i = .popClaim position)
    (heq : world.queue.dequeuePos = position) (hbound : world.dequeued + 1 < 2 ^ 64)
    (heffect : Effect world world' i (.popMove position)
      { world.queue with dequeuePos := position + 1 } [] [(i, position.toNat)] []) :
    world'.Slots := by
  have hposition : position.toNat = world.dequeued := heq ▸ h.dequeuePos
  have hnext : (position + 1).toNat = world.dequeued + 1 := by
    rw [toNat_next (by omega), hposition]
  have hsequence : world.queue.sequenceAt world.dequeued = world.dequeued + 1 := by
    have hfits := h.fits i
    rw [hphase] at hfits
    rw [← hposition]
    exact hfits.2 hposition
  have hpublished := h.published_of_sequence hsequence
  have hlt := hpublished.lt
  have henqueued : world'.enqueued = world.enqueued := heffect.enqueued
  have hdequeued : world'.dequeued = world.dequeued + 1 := heffect.dequeued
  have hreleased := heffect.released_iff_of_nil
  have hcell (p : ℕ) : world'.queue.sequenceAt p = world.queue.sequenceAt p := by
    rw [heffect.queue]
    rfl
  have hdata (p : ℕ) : world'.queue.dataAt p = world.queue.dataAt p := by
    rw [heffect.queue]
    rfl
  have hunreleased : ¬ world.Released world.dequeued := fun hreleased =>
    absurd (h.lt_of_released hreleased) (lt_irrefl _)
  have htaken : world'.IsTaken world.dequeued :=
    ⟨by omega, mt (hreleased _).mp hunreleased, by rw [hcell, hsequence]⟩
  have hreads (j : ι) (p : ℕ) (hj : world'.Reads j p) :
      j = i ∧ p = world.dequeued ∨ j ≠ i ∧ world.Reads j p := by
    refine (heffect.reads_cases hj).imp_left fun hread => ⟨hread.1, ?_⟩
    rw [← Option.some.inj hread.2, hposition]
  -- the next position to take is published, so no producer holds it
  have hclaimed {p : ℕ} (hclaimed : world.IsClaimed p) : world'.IsClaimed p := by
    refine ⟨henqueued ▸ hclaimed.lt, ?_, by rw [hcell, hclaimed.sequence]⟩
    have hle := hclaimed.le
    have hne : p ≠ world.dequeued := fun heq => by
      have := hclaimed.sequence
      rw [heq, hsequence] at this
      omega
    omega
  constructor
  · rw [heffect.queue, henqueued, h.enqueuePos]
  · rw [heffect.queue, hdequeued, hnext]
  · rw [heffect.enqueues, henqueued, List.append_nil, h.enqueues]
  · rw [heffect.dequeues, hdequeued, List.map_append, h.dequeues, List.range_succ, hposition]
    rfl
  · omega
  · rw [heffect.pops, List.append_nil]
    exact h.nodup
  · exact h.pops_of_effect heffect (by simp)
  · intro p hle hlt hfree
    rw [henqueued] at hle hlt
    rw [hcell]
    exact h.free p hle hlt fun hsize => (hreleased _).mp (hfree hsize)
  · intro p hlt hunreleased
    rw [henqueued] at hlt ⊢
    exact h.window p hlt (mt (hreleased p).mpr hunreleased)
  · intro p hlt hunreleased
    rw [henqueued] at hlt
    rw [hreleased] at hunreleased
    rcases h.held p hlt hunreleased with ⟨j, hj⟩ | hp | ⟨j, hj⟩
    · exact .inl ⟨j, (heffect.writes_iff (by rw [hphase]; rfl) j p).mpr hj⟩
    · by_cases hnow : p = world.dequeued
      · refine .inr (.inr ⟨i, ?_⟩)
        rw [Reads, heffect.threads_self, QueuePhase.reads?, hposition, hnow]
      · have hle := hp.le
        exact .inr (.inl ⟨henqueued ▸ hlt, by omega, by rw [hcell, hp.sequence],
          by rw [hdata]; exact heffect.task? hp.task⟩)
    · have hji : j ≠ i := fun hji => by
        rw [hji, Reads, hphase] at hj
        exact absurd hj (by simp [QueuePhase.reads?])
      exact .inr (.inr ⟨j, by rwa [Reads, heffect.threads_of_ne hji]⟩)
  · refine heffect.fits ⟨by rw [hposition]; exact htaken, ?_⟩ ?_
    · rw [hposition, hdata]
      exact heffect.task? hpublished.task
    · intro j _
      refine (h.fits j).mono henqueued.ge (by omega) ?_ ?_ (fun _ _ => heffect.task?) ?_ ?_
      · exact fun hsequence _ => by rw [hcell, hsequence]
      · intro _ hsame
        omega
      · exact fun p _ hp => ⟨hclaimed hp, hdata p⟩
      · exact fun p _ hp => ⟨⟨by have := hp.lt; omega, mt (hreleased p).mp hp.unreleased,
          by rw [hcell, hp.sequence]⟩, hdata p⟩
  · intro j k p hj hk
    exact h.writes_unique j k p ((heffect.writes_iff (by rw [hphase]; rfl) j p).mp hj)
      ((heffect.writes_iff (by rw [hphase]; rfl) k p).mp hk)
  · intro j k p hj hk
    rcases hreads j p hj with ⟨hji, hp⟩ | ⟨hji, hj⟩ <;>
      rcases hreads k p hk with ⟨hki, hp'⟩ | ⟨hki, hk⟩
    · rw [hji, hki]
    · have := (h.taken_of_reads hk).lt
      omega
    · have := (h.taken_of_reads hj).lt
      omega
    · exact h.reads_unique j k p hj hk

/-! ## Steps of a thread that holds a position -/

section Hold

variable {phase : QueuePhase α} {queue : LockFreeQueue α capacity} {releases : List (ℕ × α)}
  {position : ℕ}

/-- A thread that holds a position changes nothing but its cell. -/
theorem hold (h : world.Slots)
    (heffect : Effect world world' i phase queue [] [] releases)
    (hholds : world.Holds i position)
    (hwrites : ∀ p, phase.writes? = some p → world.Writes i p)
    (hreads : ∀ p, phase.reads? = some p → world.Reads i p)
    (henqueuePos : queue.enqueuePos = world.queue.enqueuePos)
    (hdequeuePos : queue.dequeuePos = world.queue.dequeuePos)
    (hcells : ∀ p, capacity.index p ≠ capacity.index position →
      queue.cell p = world.queue.cell p)
    (hreleases : ∀ entry ∈ releases, entry.1 < world.dequeued ∧
      world.task? entry.1 = some entry.2)
    (hnodup : (world.pops.map Prod.fst ++ releases.map Prod.fst).Nodup)
    (hfree : world'.Released position →
      queue.sequenceAt position = position + capacity.size)
    (hheld : ¬ world'.Released position → (∃ i, world'.Writes i position) ∨
      world'.IsPublished position ∨ ∃ i, world'.Reads i position)
    (hother : ∀ p, p ≠ position → (world'.Released p ↔ world.Released p))
    (hfits : world'.Fits phase) : world'.Slots := by
  have hsize := capacity.two_le_size
  have hstate : world.IsClaimed position ∨ world.IsTaken position :=
    hholds.imp h.claimed_of_writes h.taken_of_reads
  have hlt : position < world.enqueued :=
    hstate.elim IsClaimed.lt fun htaken => htaken.lt.trans_le h.le
  have hunreleased : ¬ world.Released position :=
    hstate.elim h.unreleased_of_claimed IsTaken.unreleased
  have hwindow := h.window position hlt hunreleased
  have hsequence := h.held_sequence hlt hunreleased
  have hle := h.le
  have henqueued : world'.enqueued = world.enqueued := heffect.enqueued
  have hdequeued : world'.dequeued = world.dequeued := heffect.dequeued
  have hcell {p : ℕ} (hp : capacity.index p ≠ capacity.index position) :
      world'.queue.sequenceAt p = world.queue.sequenceAt p ∧
        world'.queue.dataAt p = world.queue.dataAt p := by
    rw [heffect.queue]
    constructor
    · rw [LockFreeQueue.sequenceAt, hcells p hp, LockFreeQueue.sequenceAt]
    · rw [LockFreeQueue.dataAt, hcells p hp, LockFreeQueue.dataAt]
  have hmono {p : ℕ} (hp : ¬ world'.Released p) : ¬ world.Released p := fun hreleased =>
    hp ((heffect.released_iff p).mpr (.inl hreleased))
  -- the other positions in use have other cells
  have hindex {p : ℕ} (hp : p < world.enqueued) (hp' : ¬ world.Released p) (hne : p ≠ position) :
      capacity.index p ≠ capacity.index position :=
    h.index_ne hp hlt hp' hunreleased hne
  have hclaimed {p : ℕ} (hp : world.IsClaimed p) (hne : p ≠ position) :
      world'.IsClaimed p ∧ world'.queue.dataAt p = world.queue.dataAt p := by
    obtain ⟨hkept, hdata⟩ := hcell (hindex hp.lt (h.unreleased_of_claimed hp) hne)
    exact ⟨⟨henqueued ▸ hp.lt, hdequeued ▸ hp.le, by rw [hkept, hp.sequence]⟩, hdata⟩
  have htaken {p : ℕ} (hp : world.IsTaken p) (hne : p ≠ position) :
      world'.IsTaken p ∧ world'.queue.dataAt p = world.queue.dataAt p := by
    obtain ⟨hkept, hdata⟩ := hcell (hindex (hp.lt.trans_le hle) hp.unreleased hne)
    exact ⟨⟨hdequeued ▸ hp.lt, mt (hother p hne).mp hp.unreleased, by rw [hkept, hp.sequence]⟩,
      hdata⟩
  have hwritten {j : ι} {p : ℕ} (hj : world'.Writes j p) : world.Writes j p := by
    rcases heffect.writes_cases hj with ⟨hji, hp⟩ | ⟨_, hj⟩
    · exact hji ▸ hwrites p hp
    · exact hj
  have hread {j : ι} {p : ℕ} (hj : world'.Reads j p) : world.Reads j p := by
    rcases heffect.reads_cases hj with ⟨hji, hp⟩ | ⟨_, hj⟩
    · exact hji ▸ hreads p hp
    · exact hj
  constructor
  · rw [heffect.queue, henqueuePos, henqueued, h.enqueuePos]
  · rw [heffect.queue, hdequeuePos, hdequeued, h.dequeuePos]
  · rw [heffect.enqueues, henqueued, List.append_nil, h.enqueues]
  · rw [heffect.dequeues, hdequeued, List.append_nil, h.dequeues]
  · omega
  · rw [heffect.pops, List.map_append]
    exact hnodup
  · exact h.pops_of_effect heffect hreleases
  · intro p hp hp' hreleased
    rw [henqueued] at hp hp'
    by_cases hsame : capacity.index p = capacity.index position
    · -- the position is the last one its cell was used for
      have hnext : p = position + capacity.size :=
        QueueCapacity.eq_add_size hsame (by omega) (by omega)
      have hdone := hreleased (by omega)
      rw [show p - capacity.size = position by omega] at hdone
      rw [heffect.queue, LockFreeQueue.sequenceAt, queue.cell_congr hsame]
      exact (hfree hdone).trans hnext.symm
    · rw [(hcell hsame).1]
      refine h.free p hp hp' fun hsize => (hother _ fun heq => hsame ?_).mp (hreleased hsize)
      rw [← heq, QueueCapacity.index_sub hsize]
  · intro p hp hp'
    rw [henqueued] at hp ⊢
    exact h.window p hp (hmono hp')
  · intro p hp hp'
    by_cases heq : p = position
    · rw [heq] at hp' ⊢
      exact hheld hp'
    rw [henqueued] at hp
    have hne {j : ι} (hj : world.Holds j p) : j ≠ i := fun hji =>
      heq ((hji ▸ hj).position_eq hholds)
    rcases h.held p hp (hmono hp') with ⟨j, hj⟩ | hpublished | ⟨j, hj⟩
    · exact .inl ⟨j, by rwa [Writes, heffect.threads_of_ne (hne (.inl hj))]⟩
    · obtain ⟨hkept, hdata⟩ := hcell (hindex hp (hmono hp') heq)
      exact .inr (.inl ⟨henqueued ▸ hp, hdequeued ▸ hpublished.le,
        by rw [hkept, hpublished.sequence], by rw [hdata]; exact heffect.task? hpublished.task⟩)
    · exact .inr (.inr ⟨j, by rwa [Reads, heffect.threads_of_ne (hne (.inr hj))]⟩)
  · refine heffect.fits hfits fun j hji => ?_
    have hne {p : ℕ} (hj : world.Holds j p) : p ≠ position := fun heq =>
      hji (h.holds_unique (heq ▸ hj) hholds)
    refine (h.fits j).mono henqueued.ge hdequeued.ge ?_ ?_ (fun _ _ => heffect.task?) ?_ ?_
    · intro hnow _
      rw [(hcell fun hsame => ?_).1, hnow]
      rcases QueueCapacity.index_cases hsame with hcase | hcase | hcase
      · omega
      · omega
      · rw [LockFreeQueue.sequenceAt, world.queue.cell_congr hsame] at hnow
        change world.queue.sequenceAt position = _ at hnow
        omega
    · intro hnow _
      have hpublished := h.published_of_sequence hnow
      have hunreleased' : ¬ world.Released world.dequeued := fun hreleased =>
        absurd (h.lt_of_released hreleased) (lt_irrefl _)
      rw [(hcell (hindex hpublished.lt hunreleased' fun heq => ?_)).1, hnow]
      rcases hstate with hstate | hstate
      · have := hstate.sequence
        rw [← heq] at this
        omega
      · have := hstate.lt
        omega
    · exact fun p hp hp' => hclaimed hp' (hne (.inl hp))
    · exact fun p hp hp' => htaken hp' (hne (.inr hp))
  · exact fun j k p hj hk => h.writes_unique j k p (hwritten hj) (hwritten hk)
  · exact fun j k p hj hk => h.reads_unique j k p (hread hj) (hread hk)

end Hold

/-- A producer moves its task into the cell. -/
theorem pushMove (h : world.Slots) {task : α} {position : UInt64}
    (hphase : world.threads i = .pushMove task position)
    (heffect : Effect world world' i (.pushPublish position)
      (world.queue.setData position.toNat task) [] [] []) : world'.Slots := by
  have hfits := h.fits i
  rw [hphase] at hfits
  obtain ⟨hclaimed, htask⟩ := hfits
  have hwrites : world.Writes i position.toNat := by rw [Writes, hphase]; rfl
  have hreleased := heffect.released_iff_of_nil
  refine h.hold heffect (.inl hwrites) ?_ (by simp [QueuePhase.reads?]) rfl rfl
    (fun p hp => LockFreeQueue.cell_setCell_of_ne _ hp _) (by simp) (by simpa using h.nodup) ?_ ?_
    (fun p _ => hreleased p) ?_
  · exact fun p hp => Option.some.inj hp ▸ hwrites
  · intro hdone
    exact absurd ((hreleased _).mp hdone) (h.unreleased_of_claimed hclaimed)
  · exact fun _ => .inl ⟨i, by rw [Writes, heffect.threads_self]; rfl⟩
  · refine ⟨⟨?_, ?_, ?_⟩, ?_⟩
    · exact (heffect.enqueued : world'.enqueued = world.enqueued) ▸ hclaimed.lt
    · exact (heffect.dequeued : world'.dequeued = world.dequeued) ▸ hclaimed.le
    · rw [heffect.queue, LockFreeQueue.sequenceAt_setData, hclaimed.sequence]
    · rw [heffect.queue, LockFreeQueue.dataAt_setData, if_pos rfl]
      exact heffect.task? htask

/-- A producer publishes its position. -/
theorem pushPublish (h : world.Slots) {position : UInt64}
    (hphase : world.threads i = .pushPublish position) (hbound : world.enqueued < 2 ^ 64)
    (heffect : Effect world world' i .idle
      (world.queue.setSequence position.toNat (position + 1)) [] [] []) : world'.Slots := by
  have hfits := h.fits i
  rw [hphase] at hfits
  obtain ⟨hclaimed, htask⟩ := hfits
  have hlt := hclaimed.lt
  have hwrites : world.Writes i position.toNat := by rw [Writes, hphase]; rfl
  have hreleased := heffect.released_iff_of_nil
  have hnext : (position + 1).toNat = position.toNat + 1 := toNat_next (by omega)
  refine h.hold heffect (.inl hwrites) (by simp [QueuePhase.writes?])
    (by simp [QueuePhase.reads?]) rfl rfl
    (fun p hp => LockFreeQueue.cell_setCell_of_ne _ hp _) (by simp) (by simpa using h.nodup) ?_ ?_
    (fun p _ => hreleased p) trivial
  · intro hdone
    exact absurd ((hreleased _).mp hdone) (h.unreleased_of_claimed hclaimed)
  · refine fun _ => .inr (.inl ⟨?_, ?_, ?_, ?_⟩)
    · exact (heffect.enqueued : world'.enqueued = world.enqueued) ▸ hclaimed.lt
    · exact (heffect.dequeued : world'.dequeued = world.dequeued) ▸ hclaimed.le
    · rw [heffect.queue, LockFreeQueue.sequenceAt_setSequence, if_pos rfl, hnext]
    · rw [heffect.queue, LockFreeQueue.dataAt_setSequence]
      exact heffect.task? htask

/-- A consumer moves the task out of the cell, whatever is left there. -/
theorem popMove (h : world.Slots) {position : UInt64} {moved : α}
    (hphase : world.threads i = .popMove position)
    (heffect : Effect world world' i
      (.popRelease position (world.queue.cell position.toNat).data)
      (world.queue.setData position.toNat moved) [] [] []) : world'.Slots := by
  have hfits := h.fits i
  rw [hphase] at hfits
  obtain ⟨htaken, htask⟩ := hfits
  have hreads : world.Reads i position.toNat := by rw [Reads, hphase]; rfl
  have hreleased := heffect.released_iff_of_nil
  refine h.hold heffect (.inr hreads) (by simp [QueuePhase.writes?]) ?_ rfl rfl
    (fun p hp => LockFreeQueue.cell_setCell_of_ne _ hp _) (by simp) (by simpa using h.nodup) ?_ ?_
    (fun p _ => hreleased p) ?_
  · exact fun p hp => Option.some.inj hp ▸ hreads
  · intro hdone
    exact absurd ((hreleased _).mp hdone) htaken.unreleased
  · exact fun _ => .inr (.inr ⟨i, by rw [Reads, heffect.threads_self]; rfl⟩)
  · refine ⟨⟨?_, ?_, ?_⟩, ?_⟩
    · exact (heffect.dequeued : world'.dequeued = world.dequeued) ▸ htaken.lt
    · exact mt (hreleased _).mp htaken.unreleased
    · rw [heffect.queue, LockFreeQueue.sequenceAt_setData, htaken.sequence]
    · exact heffect.task? htask

/-- A consumer releases its position. -/
theorem popRelease (h : world.Slots) {position : UInt64} {task : α}
    (hphase : world.threads i = .popRelease position task)
    (hbound : world.dequeued + capacity.size < 2 ^ 64)
    (heffect : Effect world world' i .idle
      (world.queue.setSequence position.toNat (position + capacity.value)) [] []
      [(position.toNat, task)]) : world'.Slots := by
  have hfits := h.fits i
  rw [hphase] at hfits
  obtain ⟨htaken, htask⟩ := hfits
  have hlt := htaken.lt
  have hreads : world.Reads i position.toNat := by rw [Reads, hphase]; rfl
  have hnext : (position + capacity.value).toNat = position.toNat + capacity.size :=
    toNat_add_of_lt (by change _ + capacity.size < _; omega)
  refine h.hold heffect (.inr hreads) (by simp [QueuePhase.writes?])
    (by simp [QueuePhase.reads?]) rfl rfl
    (fun p hp => LockFreeQueue.cell_setCell_of_ne _ hp _) ?_ ?_ ?_ ?_ ?_ trivial
  · intro entry hentry
    rw [List.mem_singleton.mp hentry]
    exact ⟨hlt, htask⟩
  · exact h.nodup.append (List.nodup_singleton _)
      (List.disjoint_singleton.mpr htaken.unreleased)
  · intro _
    rw [LockFreeQueue.sequenceAt_setSequence, if_pos rfl, hnext]
  · intro hdone
    exact absurd ((heffect.released_iff _).mpr (.inr (by simp))) hdone
  · intro p hne
    rw [heffect.released_iff]
    simp [hne]

end Slots

/-! ## The number of operations -/

variable [DecidableEq ι]

/-- Every claim belongs to a call. -/
def Counted (world : QueueWorld ι α capacity) : Prop :=
  ∀ i, (world.enqueues.map Prod.fst).count i + (world.dequeues.map Prod.fst).count i +
    (world.threads i).awaits ≤ (world.calls.map Prod.fst).count i

theorem counted_started [Inhabited α] : (started ι α capacity).Counted := fun i => by
  simp [started, enqueues, dequeues, QueuePhase.awaits]

namespace Counted

theorem claims_le (h : world.Counted) : world.enqueued + world.dequeued ≤ world.calls.length := by
  have hsub : ((world.enqueues.map Prod.fst ++ world.dequeues.map Prod.fst : List ι) :
      Multiset ι) ≤ (world.calls.map Prod.fst : List ι) := by
    refine Multiset.le_iff_count.mpr fun i => ?_
    have := h i
    simp only [Multiset.coe_count, List.count_append]
    omega
  simpa [enqueued, dequeued] using Multiset.card_le_card hsub

theorem advance (h : world.Counted) {phase : QueuePhase α} {queue : LockFreeQueue α capacity}
    {events : List (QueueEvent ι α)}
    (hself : ((events.filterMap QueueEvent.enqueued?).map Prod.fst).count i +
        ((events.filterMap QueueEvent.dequeued?).map Prod.fst).count i + phase.awaits ≤
      (world.threads i).awaits + ((events.filterMap QueueEvent.call?).map Prod.fst).count i)
    (hother : ∀ j ≠ i, ((events.filterMap QueueEvent.enqueued?).map Prod.fst).count j +
      ((events.filterMap QueueEvent.dequeued?).map Prod.fst).count j = 0) :
    (world.advance i phase queue events).Counted := by
  intro j
  have hj := h j
  rw [enqueues_advance, dequeues_advance, calls_advance, List.map_append, List.map_append,
    List.map_append, List.count_append, List.count_append, List.count_append]
  by_cases hji : j = i
  · subst hji
    rw [(effect_advance world j phase queue events).threads_self]
    omega
  · rw [(effect_advance world i phase queue events).threads_of_ne hji]
    have := hother j hji
    omega

theorem step (h : world.Counted) (hstep : ThreadStep i world world') : world'.Counted := by
  cases hstep with
  | call hphase =>
      refine h.advance ?_ fun j _ => by simp [List.filterMap_cons]
      simpa [hphase, List.filterMap_cons, QueuePhase.awaits] using QueuePhase.awaits_le_one _
  | pushClaim hphase heq | popClaim hphase heq =>
      refine h.advance ?_ fun j hji => ?_
      · simp [hphase, List.filterMap_cons, QueuePhase.awaits]
      · simp [List.filterMap_cons, Ne.symm hji]
  | pushLoad hphase | pushEqual hphase hcompare | pushBehind hphase hcompare
  | pushAhead hphase hcompare | pushFail hphase | pushMove hphase | pushPublish hphase
  | popLoad hphase | popEqual hphase hcompare | popBehind hphase hcompare
  | popAhead hphase hcompare | popFail hphase | popMove hphase | popRelease hphase
  | emptyLoad hphase | emptyEqual hphase hcompare | emptyBehind hphase hcompare
  | emptyAhead hphase hcompare | capacity hphase =>
      refine h.advance ?_ fun j _ => by simp [List.filterMap_cons]
      simp [hphase, List.filterMap_cons, QueuePhase.awaits]

end Counted

/-! ## Runs -/

/-- A step keeps the state of the cells. -/
theorem Slots.step (h : world.Slots) (hcounted : world.Counted)
    (hcalls : world.calls.length < 2 ^ 63) (hstep : ThreadStep i world world') :
    world'.Slots := by
  have hclaims := hcounted.claims_le
  have hsize := capacity.size_lt
  have hfits := h.fits i
  cases hstep with
  | @call operation hphase =>
      exact h.stay (effect_advance ..) (by rw [hphase]; cases operation <;> rfl)
        (by rw [hphase]; cases operation <;> rfl) (by cases operation <;> trivial)
  | pushLoad hphase =>
      exact h.stay (effect_advance ..) (by rw [hphase]; rfl) (by rw [hphase]; rfl) h.enqueuePos.le
  | pushEqual hphase hcompare =>
      rw [hphase] at hfits
      exact h.stay (effect_advance ..) (by rw [hphase]; rfl) (by rw [hphase]; rfl)
        ⟨hfits, fun _ => compareSequence_eq_equal.mp hcompare⟩
  | pushClaim hphase heq => exact h.pushClaim hphase heq (by omega) (effect_advance ..)
  | pushFail hphase =>
      exact h.stay (effect_advance ..) (by rw [hphase]; rfl) (by rw [hphase]; rfl) h.enqueuePos.le
  | pushMove hphase => exact h.pushMove hphase (effect_advance ..)
  | pushPublish hphase => exact h.pushPublish hphase (by omega) (effect_advance ..)
  | popLoad hphase | popFail hphase | emptyLoad hphase =>
      exact h.stay (effect_advance ..) (by rw [hphase]; rfl) (by rw [hphase]; rfl) h.dequeuePos.le
  | popEqual hphase hcompare =>
      rw [hphase] at hfits
      have hsequence := compareSequence_eq_equal.mp hcompare
      rw [toNat_next (by have := hfits; change _ ≤ world.dequeued at this; omega)] at hsequence
      exact h.stay (effect_advance ..) (by rw [hphase]; rfl) (by rw [hphase]; rfl)
        ⟨hfits, fun _ => hsequence⟩
  | popClaim hphase heq => exact h.popClaim hphase heq (by omega) (effect_advance ..)
  | popMove hphase => exact h.popMove hphase (effect_advance ..)
  | popRelease hphase =>
      exact h.popRelease hphase (by omega) (effect_advance ..)
  | pushBehind hphase hcompare | pushAhead hphase hcompare | popBehind hphase hcompare
  | popAhead hphase hcompare | emptyEqual hphase hcompare | emptyBehind hphase hcompare
  | emptyAhead hphase hcompare | capacity hphase =>
      exact h.stay (effect_advance ..) (by rw [hphase]; rfl) (by rw [hphase]; rfl) trivial

/-- The calls are never forgotten. -/
theorem calls_length_le (hstep : ThreadStep i world world') :
    world.calls.length ≤ world'.calls.length := by
  cases hstep <;> simp

/-- The cells after any run of fewer than `2 ^ 63` operations. -/
theorem slots_of_reachable [Inhabited α] (h : (queueSystem ι α capacity).Reachable world) :
    world.Counted ∧ (world.calls.length < 2 ^ 63 → world.Slots) := by
  induction h with
  | initial h =>
      obtain rfl := h
      exact ⟨counted_started, fun _ => slots_started⟩
  | step _ hstep ih =>
      obtain ⟨i, hstep⟩ := hstep
      refine ⟨ih.1.step hstep, fun hcalls => ?_⟩
      have hbefore := (calls_length_le hstep).trans_lt hcalls
      exact (ih.2 hbefore).step ih.1 hbefore hstep

end QueueWorld

end GiveMePi
