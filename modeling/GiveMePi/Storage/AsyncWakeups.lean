import GiveMePi.Storage.AsyncProtocol

/-! # Wake-ups of the writer

`queueChanged_` serves the workers and the clients that wait for room. A `cancel` makes room and
notifies no one, and the `notify_one` of a `submit` may wake a client instead of a worker. In runs
without such steps no wake-up is lost. -/

namespace GiveMePi.Storage

namespace AsyncChunkIO

variable {n capacity : ℕ} {io io' : AsyncChunkIO n}

/-! ## Lost wake-ups -/

/-- A client is between two calls, or it waits. -/
def isWaiting : AsyncClientPhase → Bool
  | .idle | .capacityBlocked | .wait _ => true
  | _ => false

/-- No thread is in the middle of an operation. -/
structure IsQuiet (io : AsyncChunkIO n) : Prop where
  workers : ∀ i, isResting (io.workers i) = true
  clients : ∀ k, isWaiting (io.clients k) = true

/-- A thread is about to notify all. -/
def NotifiesAll (io : AsyncChunkIO n) : Prop :=
  (∃ i request, io.workers i = .notify request) ∨ ∃ k, io.clients k = .shutdownNotify

/-- A step that loses no wake-up: no `cancel` takes effect while a client waits for room, unless all
are about to be notified, and no `notify_one` wakes such a client while all workers are blocked. -/
def LosesNone (io : AsyncChunkIO n) : AsyncEvent n → Prop
  | .cancel _ _ => (∀ k, io.clients k ≠ .capacityBlocked) ∨ io.NotifiesAll
  | .notifyOne _ (some (.client _)) => ∃ i, io.workers i ≠ .blocked
  | _ => True

/-- The runs of a writer that lose no wake-up. -/
def carefulSystem (capacity n : ℕ) : Library.TransitionSystem ( AsyncChunkIO n) where
  initial io := create .writer capacity n = .ok io
  step io io' := ∃ event, Step .writer capacity event io io' ∧ io.LosesNone event

/-- What such runs keep: a notification is under way where it is needed. -/
structure IsAwake (capacity : ℕ) (io : AsyncChunkIO n) : Prop where
  room : ∀ k, io.clients k = .capacityBlocked → capacity ≤ io.queue.length ∨ io.NotifiesAll
  work : io.queue ≠ [] →
    (∃ i, io.workers i ≠ .blocked) ∨ ∃ k, io.clients k = .notifyOne

theorem NotifiesAll.setPhase (h : io.NotifiesAll) {i : Fin n} (phase : AsyncWorkerPhase)
    (hbefore : ∀ request, io.workers i ≠ .notify request) : (io.setPhase i phase).NotifiesAll := by
  rcases h with ⟨j, request, hphase⟩ | hclient
  · have hji : j ≠ i := fun heq => hbefore request (heq ▸ hphase)
    exact .inl ⟨j, request, by rw [workers_setPhase, Function.update_of_ne hji, hphase]⟩
  · exact .inr hclient

theorem NotifiesAll.setClient (h : io.NotifiesAll) {k : ℕ} (phase : AsyncClientPhase)
    (hbefore : io.clients k ≠ .shutdownNotify) : (io.setClient k phase).NotifiesAll := by
  rcases h with hworker | ⟨j, hphase⟩
  · exact .inl hworker
  · have hjk : j ≠ k := fun heq => hbefore (heq ▸ hphase)
    exact .inr ⟨j, by rw [clients_setClient, Function.update_of_ne hjk, hphase]⟩

namespace IsAwake

/-- A worker that is not about to notify goes on. -/
theorem setPhase (h : io.IsAwake capacity) {i : Fin n} {phase : AsyncWorkerPhase}
    (hbefore : ∀ request, io.workers i ≠ .notify request)
    (hafter : phase = .blocked → io.queue = []) : (io.setPhase i phase).IsAwake capacity where
  room k hblocked := (h.room k hblocked).imp_right fun hall => hall.setPhase phase hbefore
  work hqueue := by
    refine .inl ⟨i, ?_⟩
    rw [workers_setPhase, Function.update_self]
    exact fun hblocked => hqueue (hafter hblocked)

/-- A client that is not about to notify goes on; it waits only when there is no room. -/
theorem setClient (h : io.IsAwake capacity) {k : ℕ} {phase : AsyncClientPhase}
    (hone : io.clients k ≠ .notifyOne) (hall : io.clients k ≠ .shutdownNotify)
    (hafter : phase = .capacityBlocked → capacity ≤ io.queue.length) :
    (io.setClient k phase).IsAwake capacity where
  room j hblocked := by
    by_cases hjk : j = k
    · subst hjk
      rw [clients_setClient, Function.update_self] at hblocked
      exact .inl (hafter hblocked)
    · rw [clients_setClient, Function.update_of_ne hjk] at hblocked
      exact (h.room j hblocked).imp_right fun hnotifies => hnotifies.setClient phase hall
  work hqueue := by
    refine (h.work hqueue).imp_right ?_
    rintro ⟨j, hphase⟩
    have hjk : j ≠ k := fun heq => hone (heq ▸ hphase)
    exact ⟨j, by rw [clients_setClient, Function.update_of_ne hjk, hphase]⟩

/-- What being awake depends on. -/
theorem same (h : io.IsAwake capacity) (hqueue : io'.queue = io.queue)
    (hworkers : io'.workers = io.workers) (hclients : io'.clients = io.clients) :
    io'.IsAwake capacity := by
  constructor
  · rw [hclients, hqueue, NotifiesAll, hworkers, hclients]
    exact h.room
  · rw [hclients, hqueue, hworkers]
    exact h.work

end IsAwake

/-- A submission leaves a notification under way. -/
theorem IsAwake.submit (h : io.IsAwake capacity) {k : ℕ} (hidle : io.clients k = .idle) :
    (io.push.setClient k .notifyOne).IsAwake capacity where
  room j hblocked := by
    have hjk : j ≠ k := by
      rintro rfl
      rw [clients_setClient, Function.update_self] at hblocked
      cases hblocked
    rw [clients_setClient, Function.update_of_ne hjk] at hblocked
    refine (h.room j hblocked).imp (fun hle => ?_) fun hall => ?_
    · exact hle.trans (by simp [ AsyncChunkIO.setClient, push])
    · exact hall.setClient (k := k) .notifyOne (by rw [hidle]; decide)
  work _ := .inr ⟨k, by rw [clients_setClient, Function.update_self]⟩

/-- The notification of a submission wakes a thread, if any is blocked. -/
theorem IsAwake.notifyOne (hn : n ≠ 0) (h : io.IsAwake capacity) {k : ℕ}
    {thread : Option (AsyncThread n)} (hphase : io.clients k = .notifyOne)
    (hnotify : NotifyOne thread (io.setClient k .idle) io')
    (hloses : io.LosesNone (.notifyOne k thread)) : io'.IsAwake capacity := by
  have hroom (j : ℕ) (hblocked : (io.setClient k .idle).clients j = .capacityBlocked) :
      capacity ≤ io.queue.length ∨ (io.setClient k .idle).NotifiesAll := by
    have hjk : j ≠ k := by
      rintro rfl
      rw [clients_setClient, Function.update_self] at hblocked
      cases hblocked
    rw [clients_setClient, Function.update_of_ne hjk] at hblocked
    exact (h.room j hblocked).imp_right fun hall => hall.setClient _ (by rw [hphase]; decide)
  cases hnotify with
  | none hnone =>
      refine ⟨fun j hblocked => absurd hblocked (hnone (.client j)), fun _ => ?_⟩
      exact .inl ⟨⟨0, Nat.pos_of_ne_zero hn⟩, hnone (.worker _)⟩
  | @wake _ thread hblocked =>
      cases thread with
      | worker i =>
          have hworker : io.workers i = .blocked := hblocked
          refine ⟨fun j hclient => ?_, fun _ => .inl ⟨i, ?_⟩⟩
          · refine (hroom j hclient).imp_right fun hall => hall.setPhase _ fun request => ?_
            exact fun hnotify => by cases hworker.symm.trans hnotify
          · rw [wake, workers_setPhase, Function.update_self]
            decide
      | client j =>
          have hwaits : (io.setClient k .idle).clients j = .capacityBlocked := hblocked
          refine ⟨fun l hclient => ?_, fun _ => .inl hloses⟩
          have hlj : l ≠ j := by
            rintro rfl
            rw [wake, clients_setClient, Function.update_self] at hclient
            cases hclient
          rw [wake, clients_setClient, Function.update_of_ne hlj] at hclient
          exact (hroom l hclient).imp_right fun hall => hall.setClient _ (by rw [hwaits]; decide)

/-- A shutdown is about to notify all. -/
theorem IsAwake.shutdown (h : io.IsAwake capacity) {k : ℕ} (hidle : io.clients k = .idle)
    (hqueue : io'.queue ≠ [] → io.queue ≠ []) (hworkers : io'.workers = io.workers)
    (hclients : io'.clients = io.clients) : (io'.setClient k .shutdownNotify).IsAwake capacity where
  room _ _ := .inr (.inr ⟨k, by rw [clients_setClient, Function.update_self]⟩)
  work hnonempty := by
    refine (h.work (hqueue hnonempty)).imp ?_ ?_
    · rintro ⟨i, hphase⟩
      refine ⟨i, ?_⟩
      change io'.workers i ≠ .blocked
      rwa [hworkers]
    · rintro ⟨j, hphase⟩
      have hjk : j ≠ k := by
        rintro rfl
        rw [hidle] at hphase
        cases hphase
      exact ⟨j, by rw [clients_setClient, Function.update_of_ne hjk, hclients, hphase]⟩

end AsyncChunkIO

end GiveMePi.Storage
