import GiveMePi.Scheduler.QueueSteps

/-! # The refusals of the lock-free queue

A push is refused only if the queue was full at an instant during it. An instant of a run is given
by what had been seen up to it. -/

namespace GiveMePi

/-- The thread that is seen. -/
def QueueEvent.thread {ι α : Type} : QueueEvent ι α → ι
  | called i _ | enqueued i _ _ | dequeued i _ | pushed i _ | refused i | popped i _ _
  | foundEmpty i | sawEmpty i _ | sawCapacity i _ => i

/-! ## Instants -/

section Instants

variable {ι α : Type}

/-- The next position to claim. -/
def claimedIn (instant : List (QueueEvent ι α)) : ℕ :=
  (instant.filterMap QueueEvent.enqueued?).length

/-- The consumer of the position has released it. -/
def ReleasedIn (instant : List (QueueEvent ι α)) (position : ℕ) : Prop :=
  position ∈ (instant.filterMap QueueEvent.popped?).map Prod.fst

/-- The next position to claim has a cell that is still in use for the round before. -/
structure IsFullAt (capacity : QueueCapacity) (instant : List (QueueEvent ι α)) : Prop where
  le : capacity.size ≤ claimedIn instant
  unreleased : ¬ ReleasedIn instant (claimedIn instant - capacity.size)

/-- Thread `i` has called the operation after `before`, and nothing else has been seen of it. -/
structure IsCalling (history : List (QueueEvent ι α)) (i : ι) (operation : QueueOperation α)
    (before : List (QueueEvent ι α)) : Prop where
  suffix : ∃ during, history = before ++ [.called i operation] ++ during ∧
    ∀ event ∈ during, event.thread ≠ i

/-- The instant lies in a call that began after `before`. -/
structure IsWithin (history before instant : List (QueueEvent ι α)) (i : ι)
    (operation : QueueOperation α) : Prop where
  calling : IsCalling history i operation before
  began : before ++ [.called i operation] <+: instant
  seen : instant <+: history

/-- At an instant during the push that thread `i` is in, the queue was full. -/
def IsRefusable (capacity : QueueCapacity) (history : List (QueueEvent ι α)) (i : ι) : Prop :=
  ∃ task before instant, IsWithin history before instant i (.push task) ∧
    IsFullAt capacity instant

variable {history before instant events : List (QueueEvent ι α)} {i : ι}
  {operation : QueueOperation α}

theorem IsCalling.began (h : IsCalling history i operation before) :
    before ++ [.called i operation] <+: history := by
  obtain ⟨during, rfl, -⟩ := h.suffix
  exact List.prefix_append _ _

theorem isCalling_called : IsCalling (history ++ [.called i operation]) i operation history :=
  ⟨[], by simp, by simp⟩

theorem IsCalling.append (h : IsCalling history i operation before)
    (hevents : ∀ event ∈ events, event.thread ≠ i) :
    IsCalling (history ++ events) i operation before := by
  obtain ⟨during, rfl, hduring⟩ := h.suffix
  refine ⟨during ++ events, List.append_assoc .., fun event hevent => ?_⟩
  exact (List.mem_append.mp hevent).elim (hduring event) (hevents event)

/-- The present is an instant of a call. -/
theorem IsCalling.isWithin (h : IsCalling history i operation before) :
    IsWithin history before history i operation :=
  ⟨h, h.began, List.prefix_rfl⟩

theorem IsWithin.append (h : IsWithin history before instant i operation)
    (hevents : ∀ event ∈ events, event.thread ≠ i) :
    IsWithin (history ++ events) before instant i operation :=
  ⟨h.calling.append hevents, h.began, h.seen.trans (List.prefix_append _ _)⟩

end Instants

namespace QueueWorld

variable {ι α : Type} {capacity : QueueCapacity} {i : ι} {world world' : QueueWorld ι α capacity}

/-! ## Sequences -/

namespace Slots

/-- The sequence of a cell whose position has been taken. -/
theorem lt_sequenceAt (h : world.Slots) {position : ℕ} (hlt : position < world.dequeued) :
    position < world.queue.sequenceAt position := by
  have hclaimed := hlt.trans_le h.le
  by_cases hreleased : world.Released position
  · obtain ⟨next, hle, hnext, hindex, hround⟩ := capacity.exists_index hclaimed
    have hcell : world.queue.sequenceAt next = world.queue.sequenceAt position := by
      rw [LockFreeQueue.sequenceAt, world.queue.cell_congr hindex, LockFreeQueue.sequenceAt]
    have hsize := capacity.two_le_size
    rcases h.sequence_cases hle hnext with ⟨hsequence, -⟩ | ⟨-, hunreleased, hsequence⟩
    · omega
    · -- the cell is used for a later position, which is not released yet
      have hlater : position ≠ next - capacity.size := fun heq => hunreleased (heq ▸ hreleased)
      omega
  · rcases h.held_cases hclaimed hreleased with hp | hp | hp
    · have := hp.le
      omega
    · have := hp.sequence
      omega
    · have := hp.sequence
      omega

/-- The sequences of fewer than `2 ^ 63` operations are compared as numbers. -/
theorem sequenceAt_lt (h : world.Slots) (hclaims : world.enqueued + world.dequeued < 2 ^ 63)
    {position : ℕ} (hle : position ≤ world.enqueued) :
    world.queue.sequenceAt position < position + 2 ^ 63 := by
  have hsize := capacity.two_le_size
  have hmax := capacity.size_lt
  rcases hle.lt_or_eq with hlt | heq
  · obtain ⟨next, hle', hnext, hindex, hround⟩ := capacity.exists_index hlt
    have hcell : world.queue.sequenceAt next = world.queue.sequenceAt position := by
      rw [LockFreeQueue.sequenceAt, world.queue.cell_congr hindex, LockFreeQueue.sequenceAt]
    rcases h.sequence_cases hle' hnext with ⟨hsequence, hreleased⟩ | ⟨-, -, hsequence⟩
    · -- the round before has been released, so its positions have been claimed twice
      have hbefore := h.lt_of_released (hreleased (by omega))
      have hindex' : capacity.index position = capacity.index (next - capacity.size) := by
        rw [QueueCapacity.index_sub (by omega), hindex]
      have hle := h.le
      rcases QueueCapacity.index_cases hindex' with heq | hround' | hround' <;> omega
    · omega
  · have hwindow := h.sequence_cases heq.ge (by omega)
    omega

theorem lt_of_pushBehind (h : world.Slots) (hclaims : world.enqueued + world.dequeued < 2 ^ 63)
    {task : α} {position : UInt64} (hphase : world.threads i = .pushCompare task position)
    (hcompare : compareSequence (world.queue.cell position.toNat).sequence position = .behind) :
    world.queue.sequenceAt position.toNat < position.toNat := by
  have hfits := h.fits i
  rw [hphase] at hfits
  change position.toNat ≤ world.enqueued at hfits
  have hlt := h.sequenceAt_lt hclaims hfits
  exact (compareSequence_eq_behind hlt (by omega)).mp hcompare

theorem lt_of_popBehind (h : world.Slots) (hclaims : world.enqueued + world.dequeued < 2 ^ 63)
    {position : UInt64} (hle : position.toNat ≤ world.dequeued)
    (hcompare : compareSequence (world.queue.cell position.toNat).sequence (position + 1) =
      .behind) :
    world.queue.sequenceAt position.toNat < position.toNat + 1 := by
  have hle' := h.le
  have hnext : (position + 1).toNat = position.toNat + 1 := toNat_next (by omega)
  have hlt := h.sequenceAt_lt hclaims (hle.trans hle')
  rw [LockFreeQueue.sequenceAt] at hlt
  have hbehind := (compareSequence_eq_behind (by omega) (by omega)).mp hcompare
  rwa [hnext] at hbehind

/-- The sequences of the cells never go back. -/
theorem sequenceAt_le [DecidableEq ι] (h : world.Slots)
    (hclaims : world.enqueued + world.dequeued < 2 ^ 63) (hstep : ThreadStep i world world')
    (position : ℕ) : world.queue.sequenceAt position ≤ world'.queue.sequenceAt position := by
  have hsize := capacity.size_lt
  have hle := h.le
  have hfits := h.fits i
  cases hstep with
  | @pushPublish own hphase =>
      rw [hphase] at hfits
      have hsequence := hfits.1.sequence
      have hlt := hfits.1.lt
      rw [queue_advance, LockFreeQueue.sequenceAt_setSequence]
      split_ifs with hindex
      · rw [LockFreeQueue.sequenceAt, world.queue.cell_congr hindex, ← LockFreeQueue.sequenceAt,
          hsequence, toNat_next (by omega)]
        omega
      · rfl
  | @popRelease own task hphase =>
      rw [hphase] at hfits
      have hsequence := hfits.1.sequence
      have hlt := hfits.1.lt
      have hround : (own + capacity.value).toNat = own.toNat + capacity.size :=
        toNat_add_of_lt (by change _ + capacity.size < _; omega)
      have htwo := capacity.two_le_size
      rw [queue_advance, LockFreeQueue.sequenceAt_setSequence]
      split_ifs with hindex
      · rw [LockFreeQueue.sequenceAt, world.queue.cell_congr hindex, ← LockFreeQueue.sequenceAt,
          hsequence, hround]
        omega
      · rfl
  | pushMove hphase | popMove hphase =>
      rw [queue_advance, LockFreeQueue.sequenceAt_setData]
  | call hphase | pushLoad hphase | pushEqual hphase hcompare | pushBehind hphase hcompare
  | pushAhead hphase hcompare | pushClaim hphase heq | pushFail hphase | popLoad hphase
  | popEqual hphase hcompare | popBehind hphase hcompare | popAhead hphase hcompare
  | popClaim hphase heq | popFail hphase | emptyLoad hphase | emptyEqual hphase hcompare
  | emptyBehind hphase hcompare | emptyAhead hphase hcompare | capacity hphase =>
      exact le_rfl

end Slots

/-! ## Refusals -/

/-- What is known of the push that a thread is in. -/
def Justifies (world : QueueWorld ι α capacity) (i : ι) : QueuePhase α → Prop
  | .pushLoad task => ∃ before, IsCalling world.history i (.push task) before
  | .pushCompare task position | .pushClaim task position =>
      ∃ before instant, IsWithin world.history before instant i (.push task) ∧
        claimedIn instant = position.toNat ∧
        (¬ IsFullAt capacity instant → position.toNat ≤ world.queue.sequenceAt position.toNat)
  | _ => True

/-- Every refusal so far has its reason, and so will those of the pushes under way. -/
structure Refusals (world : QueueWorld ι α capacity) : Prop where
  refused : ∀ before i, before ++ [.refused i] <+: world.history →
    IsRefusable capacity before i
  justified : ∀ i, world.Justifies i (world.threads i)

theorem Justifies.mono {phase : QueuePhase α} {events : List (QueueEvent ι α)}
    (h : world.Justifies i phase) (hhistory : world'.history = world.history ++ events)
    (hevents : ∀ event ∈ events, event.thread ≠ i)
    (hsequence : ∀ position,
      world.queue.sequenceAt position ≤ world'.queue.sequenceAt position) :
    world'.Justifies i phase := by
  cases phase with
  | pushLoad task =>
      obtain ⟨before, hcalling⟩ := h
      exact ⟨before, hhistory ▸ hcalling.append hevents⟩
  | pushCompare task position | pushClaim task position =>
      obtain ⟨before, instant, hwithin, hclaimed, hreached⟩ := h
      exact ⟨before, instant, hhistory ▸ hwithin.append hevents, hclaimed,
        fun hfull => (hreached hfull).trans (hsequence _)⟩
  | idle | pushMove task position | pushPublish position | popLoad | popCompare position
  | popClaim position | popMove position | popRelease position task | emptyLoad
  | emptyCompare position | capacity => trivial

/-- The cell of the next position to claim is free, unless the queue is full. -/
theorem Slots.reached (h : world.Slots) (hfull : ¬ IsFullAt capacity world.history) :
    world.enqueued ≤ world.queue.sequenceAt world.enqueued := by
  have hsize := capacity.two_le_size
  refine (h.free _ le_rfl (by omega) fun hle => ?_).ge
  by_contra hunreleased
  exact hfull ⟨hle, hunreleased⟩

/-- What a producer knows when it has read the next position. -/
theorem Slots.justifies (h : world.Slots) {task : α} {before : List (QueueEvent ι α)}
    (hcalling : IsCalling world.history i (.push task) before) :
    world.Justifies i (.pushCompare task world.queue.enqueuePos) := by
  refine ⟨before, world.history, hcalling.isWithin, h.enqueuePos.symm, fun hfull => ?_⟩
  rw [h.enqueuePos]
  exact h.reached hfull

theorem refusals_started [Inhabited α] : (started ι α capacity).Refusals where
  refused before i h := by simp [started] at h
  justified i := trivial

namespace Refusals

variable [DecidableEq ι]

theorem advance (h : world.Refusals) {phase : QueuePhase α} {queue : LockFreeQueue α capacity}
    {events : List (QueueEvent ι α)} (hevents : ∀ event ∈ events, event.thread = i)
    (hsequence : ∀ position, world.queue.sequenceAt position ≤ queue.sequenceAt position)
    (hrefused : ∀ before j, before ++ [.refused j] <+: world.history ++ events →
      before ++ [.refused j] <+: world.history ∨ IsRefusable capacity before j)
    (hself : (world.advance i phase queue events).Justifies i phase) :
    (world.advance i phase queue events).Refusals where
  refused before j hprefix := (hrefused before j hprefix).elim (h.refused before j) id
  justified j := by
    by_cases hji : j = i
    · rw [hji, (effect_advance world i phase queue events).threads_self]
      exact hself
    · rw [(effect_advance world i phase queue events).threads_of_ne hji]
      refine (h.justified j).mono rfl (fun event hevent heq => hji ?_) hsequence
      exact heq.symm.trans (hevents event hevent)

/-- A step that is no refusal. -/
theorem step_silent (h : world.Refusals) {phase : QueuePhase α}
    {queue : LockFreeQueue α capacity} {events : List (QueueEvent ι α)}
    (hevents : ∀ event ∈ events, event.thread = i ∧ ∀ j, event ≠ .refused j)
    (hlength : events.length ≤ 1)
    (hsequence : ∀ position, world.queue.sequenceAt position ≤ queue.sequenceAt position)
    (hself : (world.advance i phase queue events).Justifies i phase) :
    (world.advance i phase queue events).Refusals := by
  refine h.advance (fun event hevent => (hevents event hevent).1) hsequence ?_ hself
  intro before j hprefix
  match events, hlength with
  | [], _ => exact .inl (by simpa using hprefix)
  | [event], _ =>
      rcases List.prefix_concat_iff.mp hprefix with heq | hprefix
      · have hlast := (List.append_inj' heq rfl).2
        exact absurd (List.singleton_inj.mp hlast).symm ((hevents event (by simp)).2 j)
      · exact .inl hprefix

/-- A step of which nothing is seen. -/
theorem stay (h : world.Refusals) {phase : QueuePhase α} {queue : LockFreeQueue α capacity}
    (hsequence : ∀ position, world.queue.sequenceAt position ≤ queue.sequenceAt position)
    (hself : world.Justifies i phase) : (world.advance i phase queue []).Refusals :=
  h.step_silent (by simp) (by simp) hsequence (hself.mono rfl (by simp) hsequence)

theorem step (h : world.Refusals) (hslots : world.Slots)
    (hclaims : world.enqueued + world.dequeued < 2 ^ 63) (hstep : ThreadStep i world world') :
    world'.Refusals := by
  have hsequence := hslots.sequenceAt_le hclaims hstep
  have hjustified := h.justified i
  cases hstep with
  | @call operation hphase =>
      refine h.step_silent (by simp [QueueEvent.thread]) (by simp) hsequence ?_
      cases operation with
      | push task => exact ⟨world.history, isCalling_called⟩
      | pop | empty | capacity => trivial
  | pushLoad hphase =>
      rw [hphase] at hjustified
      obtain ⟨before, hcalling⟩ := hjustified
      exact h.stay hsequence (hslots.justifies hcalling)
  | pushEqual hphase hcompare =>
      rw [hphase] at hjustified
      exact h.stay hsequence hjustified
  | pushBehind hphase hcompare =>
      have hbehind := hslots.lt_of_pushBehind hclaims hphase hcompare
      rw [hphase] at hjustified
      obtain ⟨before, instant, hwithin, -, hreached⟩ := hjustified
      refine h.advance (by simp [QueueEvent.thread]) hsequence ?_ trivial
      intro earlier j hprefix
      rcases List.prefix_concat_iff.mp hprefix with heq | hprefix
      · obtain ⟨rfl, hlast⟩ := List.append_inj' heq rfl
        obtain rfl : j = i := by simpa using hlast
        refine .inr ⟨_, before, instant, hwithin, ?_⟩
        by_contra hfull
        have := hreached hfull
        omega
      · exact .inl hprefix
  | pushAhead hphase hcompare =>
      rw [hphase] at hjustified
      obtain ⟨before, instant, hwithin, -⟩ := hjustified
      exact h.stay hsequence ⟨before, hwithin.calling⟩
  | pushFail hphase =>
      rw [hphase] at hjustified
      obtain ⟨before, instant, hwithin, -⟩ := hjustified
      exact h.stay hsequence (hslots.justifies hwithin.calling)
  | pushClaim hphase heq | pushPublish hphase | popBehind hphase hcompare | popClaim hphase heq
  | popRelease hphase | emptyEqual hphase hcompare | emptyBehind hphase hcompare
  | capacity hphase =>
      exact h.step_silent (by simp [QueueEvent.thread]) (by simp) hsequence trivial
  | pushMove hphase | popLoad hphase | popEqual hphase hcompare | popAhead hphase hcompare
  | popFail hphase | popMove hphase | emptyLoad hphase | emptyAhead hphase hcompare =>
      exact h.stay hsequence trivial

end Refusals

end QueueWorld

end GiveMePi
