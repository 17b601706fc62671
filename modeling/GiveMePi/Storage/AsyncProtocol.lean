import GiveMePi.Storage.AsyncLedger

/-! # The protocol of asynchronous input and output

What every run of the writer and of the reader keeps, whatever the order of the steps. -/

namespace GiveMePi.Storage

/-- The moves of an accepted request. -/
inductive AsyncState.Move : AsyncState → AsyncState → Prop where
  | beginActive : Move queued active
  | complete : Move active done
  | fail : Move active failed
  | cancel : Move queued cancelled

/-- Nothing moves from a terminal state. -/
theorem AsyncState.Move.isTerminal_eq {state state' : AsyncState} (h : state.Move state') :
    state.isTerminal = false := by
  cases h <;> rfl

namespace AsyncChunkIO

variable {n capacity : ℕ} {kind : AsyncKind} {io io' : AsyncChunkIO n}

/-! ## Moves -/

/-- A request keeps its state, or it moves. -/
def Stays (io io' : AsyncChunkIO n) (request : RequestId) : Prop :=
  (io'.requests request).state = (io.requests request).state ∨
    ((io.requests request).state).Move (io'.requests request).state

/-- An update of one request. -/
theorem stays_update {request : RequestId} {operation : AsyncRequest}
    (hrequests : io'.requests = Function.update io.requests request operation)
    (hmove : operation.state = (io.requests request).state ∨
      ((io.requests request).state).Move operation.state) (other : RequestId) :
    io.Stays io' other := by
  rw [Stays, hrequests]
  by_cases heq : other = request
  · subst heq
    rwa [Function.update_self]
  · rw [Function.update_of_ne heq]
    exact .inl rfl

theorem stays_same (hrequests : io'.requests = io.requests) (request : RequestId) :
    io.Stays io' request :=
  .inl (by rw [hrequests])

theorem WorkerStep.stays {i : Fin n} (h : io.Ledger) (hstep : WorkerStep kind i io io')
    (request : RequestId) : io.Stays io' request := by
  have hfits {phase : AsyncWorkerPhase} {request : RequestId} (hphase : io.workers i = phase)
      (hrequest : phase.request? = some request) : phase.Fits (io.requests request) :=
    hphase ▸ (h.owned i request (by rw [Owns, hphase, hrequest])).2.2.2
  cases hstep with
  | @beginActive other state hphase hbegin =>
      have hfresh : io.requests other = .fresh := hfits hphase rfl
      refine stays_update rfl (.inr ?_) request
      rw [hfresh] at hbegin ⊢
      obtain rfl : .active = state := by
        cases kind <;> exact Option.some.inj hbegin
      exact .beginActive
  | @complete other hphase =>
      have hreturned : io.requests other = .returned := hfits hphase rfl
      refine stays_update rfl (.inr ?_) request
      rw [hreturned]
      cases kind <;> exact .complete
  | @fail other hphase =>
      have hcalled : io.requests other = .called := hfits hphase rfl
      refine stays_update rfl (.inr ?_) request
      rw [hcalled]
      cases kind <;> exact .fail
  | call _ =>
      refine stays_update rfl (.inl ?_) request
      rfl
  | returned _ =>
      refine stays_update rfl (.inl ?_) request
      rfl
  | _ => exact stays_same rfl request

theorem dropQueue_stays (h : io.Ledger) (request : RequestId) :
    io.Stays (io.dropQueue kind) request := by
  by_cases hmem : request ∈ io.queue
  · have hdrop : (io.dropQueue kind).requests request = { io.requests request with
        state := (io.requests request).state.drop kind
        hasPayload := false } := if_pos hmem
    rw [Stays, hdrop, (h.queued request hmem).2.1]
    exact .inr (by cases kind <;> exact .cancel)
  · have hdrop : (io.dropQueue kind).requests request = io.requests request := if_neg hmem
    exact .inl (by rw [hdrop])

theorem NotifyOne.requests_eq {thread : Option (AsyncThread n)}
    (hnotify : NotifyOne thread io io') : io'.requests = io.requests := by
  cases hnotify with
  | none => rfl
  | @wake _ thread _ => cases thread <;> rfl

theorem push_stays (h : io.Ledger) (request : RequestId) : io.Stays io.push request := by
  have hrequests : io.push.requests = Function.update io.requests io.submitted .fresh := rfl
  refine stays_update hrequests (.inl ?_) request
  rw [h.fresh _ le_rfl]

/-- In every step a request keeps its state, or it moves. -/
theorem Step.stays {event : AsyncEvent n} (h : io.Ledger)
    (hstep : Step kind capacity event io io') (request : RequestId) : io.Stays io' request := by
  cases hstep with
  | worker hworker => exact hworker.stays h request
  | client hclient => cases hclient <;> exact stays_same rfl request
  | submit _ _ _ => exact push_stays h request
  | notifyOne _ _ hnotify => exact stays_same hnotify.requests_eq request
  | loadAsync _ _ _ hnotify =>
      rw [Stays, hnotify.requests_eq]
      exact push_stays h request
  | cancel _ _ _ hqueued => exact stays_update rfl (.inr (hqueued ▸ .cancel)) request
  | @shutdown _ k drain _ _ _ =>
      cases drain with
      | true => exact stays_same rfl request
      | false => exact dropQueue_stays h request

/-! ## Cancellations -/

/-- A request that is cancelled afterwards was cancelled before. -/
def CancelsNone (io io' : AsyncChunkIO n) : Prop :=
  ∀ request, (io'.requests request).state = .cancelled → (io.requests request).state = .cancelled

theorem cancelsNone_same (hrequests : io'.requests = io.requests) : io.CancelsNone io' :=
  fun request hcancelled => by rwa [hrequests] at hcancelled

theorem cancelsNone_update {request : RequestId} {operation : AsyncRequest}
    (hrequests : io'.requests = Function.update io.requests request operation)
    (hoperation : operation.state = .cancelled → (io.requests request).state = .cancelled) :
    io.CancelsNone io' := by
  intro other hcancelled
  rw [hrequests] at hcancelled
  by_cases heq : other = request
  · subst heq
    rw [Function.update_self] at hcancelled
    exact hoperation hcancelled
  · rwa [Function.update_of_ne heq] at hcancelled

theorem WorkerStep.cancelsNone {i : Fin n} (hstep : WorkerStep kind i io io') :
    io.CancelsNone io' := by
  cases hstep with
  | @beginActive request state _ hbegin =>
      refine cancelsNone_update rfl fun hcancelled => ?_
      cases kind with
      | writer =>
          rw [AsyncState.beginActive] at hbegin
          split at hbegin
          · obtain rfl := Option.some.inj hbegin
            cases hcancelled
          · cases hbegin
      | reader =>
          obtain rfl := Option.some.inj hbegin
          cases hcancelled
  | complete _ =>
      refine cancelsNone_update rfl fun hcancelled => ?_
      cases kind with
      | writer =>
          simp only [AsyncState.complete] at hcancelled
          split at hcancelled
          · cases hcancelled
          · exact hcancelled
      | reader => cases hcancelled
  | fail _ =>
      refine cancelsNone_update rfl fun hcancelled => ?_
      cases kind with
      | writer =>
          simp only [AsyncState.fail] at hcancelled
          split at hcancelled
          · cases hcancelled
          · exact hcancelled
      | reader => cases hcancelled
  | call _ =>
      refine cancelsNone_update rfl fun hcancelled => ?_
      exact hcancelled
  | returned _ =>
      refine cancelsNone_update rfl fun hcancelled => ?_
      exact hcancelled
  | _ => exact cancelsNone_same rfl

theorem push_cancelsNone : io.CancelsNone io.push := by
  have hrequests : io.push.requests = Function.update io.requests io.submitted .fresh := rfl
  exact cancelsNone_update hrequests fun hcancelled => by cases hcancelled

/-- Only its `cancel`, or a shutdown that does not drain, cancels a request. -/
theorem Step.cancels {event : AsyncEvent n} (hstep : Step kind capacity event io io')
    {request : RequestId} (hbefore : (io.requests request).state ≠ .cancelled)
    (hafter : (io'.requests request).state = .cancelled) :
    (∃ k, event = .cancel k request) ∨ ∃ k, event = .shutdown k false := by
  have hnone (hcancels : io.CancelsNone io') : False := hbefore (hcancels request hafter)
  cases hstep with
  | worker hworker => exact (hnone hworker.cancelsNone).elim
  | client hclient => cases hclient <;> exact (hnone (cancelsNone_same rfl)).elim
  | submit _ _ _ => exact (hnone push_cancelsNone).elim
  | notifyOne _ _ hnotify => exact (hnone (cancelsNone_same hnotify.requests_eq)).elim
  | loadAsync _ _ _ hnotify =>
      refine (hnone fun other hcancelled => push_cancelsNone other ?_).elim
      rwa [hnotify.requests_eq] at hcancelled
  | @cancel _ other k _ _ _ _ =>
      by_cases heq : request = other
      · exact .inl ⟨k, heq ▸ rfl⟩
      · refine (hbefore ?_).elim
        have hsame : Function.update io.requests other { io.requests other with
            state := .cancelled, hasPayload := false } request = io.requests request :=
          Function.update_of_ne heq ..
        exact (congrArg AsyncRequest.state hsame).symm.trans hafter
  | @shutdown _ k drain _ _ _ =>
      cases drain with
      | true => exact (hnone (cancelsNone_same rfl)).elim
      | false => exact .inr ⟨k, rfl⟩

/-! ## Shutdown -/

/-- How far a shutdown has come. -/
structure ShutdownOrder (capacity : ℕ) (io : AsyncChunkIO n) : Prop where
  bounded : io.queue.length ≤ capacity
  exited : ∀ i, io.workers i = .exited → io.stopping = true ∧ io.queue = []
  stopping : ∀ k, (io.clients k).isShutdown = true → io.stopping = true
  joins : ∀ k j, io.clients k = .join j → ∀ i : Fin n, i.val < j → io.workers i = .exited
  joined : io.joined = true → io.stopping = true ∧ ∀ i, io.workers i = .exited
  returned : io.shutdownReturned = true → io.joined = true

theorem shutdownOrder_started : ShutdownOrder capacity (started n) where
  bounded := Nat.zero_le _
  exited := by simp [started]
  stopping := by simp [started, AsyncClientPhase.isShutdown]
  joins := by simp [started]
  joined := by simp [started]
  returned := by simp [started]

namespace ShutdownOrder

/-- What a shutdown depends on. -/
theorem congr (h : io.ShutdownOrder capacity) (hqueue : io'.queue = io.queue)
    (hstopping : io'.stopping = io.stopping)
    (hworkers : ∀ i, io'.workers i = .exited ↔ io.workers i = .exited)
    (hclients : ∀ k, (io'.clients k).isShutdown = (io.clients k).isShutdown ∧
      ∀ j, io'.clients k = .join j ↔ io.clients k = .join j)
    (hjoined : io'.joined = io.joined) (hreturned : io'.shutdownReturned = io.shutdownReturned) :
    io'.ShutdownOrder capacity where
  bounded := hqueue ▸ h.bounded
  exited i hexited := by
    rw [hstopping, hqueue]
    exact h.exited i ((hworkers i).mp hexited)
  stopping k hshutdown := by
    rw [hstopping]
    exact h.stopping k ((hclients k).1 ▸ hshutdown)
  joins k j hjoin i hlt :=
    (hworkers i).mpr (h.joins k j (((hclients k).2 j).mp hjoin) i hlt)
  joined hnow := by
    obtain ⟨hstop, hall⟩ := h.joined (hjoined ▸ hnow)
    exact ⟨hstopping ▸ hstop, fun i => (hworkers i).mpr (hall i)⟩
  returned hnow := hjoined ▸ h.returned (hreturned ▸ hnow)

/-- The fields that a shutdown depends on are the same. -/
theorem same (h : io.ShutdownOrder capacity) (hqueue : io'.queue = io.queue)
    (hstopping : io'.stopping = io.stopping) (hworkers : io'.workers = io.workers)
    (hclients : io'.clients = io.clients) (hjoined : io'.joined = io.joined)
    (hreturned : io'.shutdownReturned = io.shutdownReturned) : io'.ShutdownOrder capacity :=
  h.congr hqueue hstopping (fun i => by rw [hworkers])
    (fun k => by rw [hclients]; exact ⟨rfl, fun _ => Iff.rfl⟩) hjoined hreturned

/-- A worker that has not exited goes on; it exits only when nothing is left. -/
theorem setPhase (h : io.ShutdownOrder capacity) {i : Fin n} {phase : AsyncWorkerPhase}
    (hbefore : io.workers i ≠ .exited)
    (hexits : phase = .exited → io.stopping = true ∧ io.queue = []) :
    (io.setPhase i phase).ShutdownOrder capacity := by
  have hkept (j : Fin n) (hexited : io.workers j = .exited) :
      (io.setPhase i phase).workers j = .exited := by
    have hji : j ≠ i := fun heq => hbefore (heq ▸ hexited)
    rw [workers_setPhase, Function.update_of_ne hji]
    exact hexited
  refine ⟨h.bounded, fun j hexited => ?_, h.stopping, fun k j hjoin l hlt => ?_, fun hnow => ?_,
    h.returned⟩
  · by_cases hji : j = i
    · subst hji
      rw [workers_setPhase, Function.update_self] at hexited
      exact hexits hexited
    · rw [workers_setPhase, Function.update_of_ne hji] at hexited
      exact h.exited j hexited
  · exact hkept l (h.joins k j hjoin l hlt)
  · exact ⟨(h.joined hnow).1, fun j => hkept j ((h.joined hnow).2 j)⟩

/-- A client goes on with its call. -/
theorem setClient (h : io.ShutdownOrder capacity) {k : ℕ} {phase : AsyncClientPhase}
    (hstopping : phase.isShutdown = true → io.stopping = true)
    (hjoins : ∀ j, phase = .join j → ∀ i : Fin n, i.val < j → io.workers i = .exited) :
    (io.setClient k phase).ShutdownOrder capacity := by
  refine ⟨h.bounded, h.exited, fun l hshutdown => ?_, fun l j hjoin => ?_, h.joined, h.returned⟩
  · by_cases hlk : l = k
    · subst hlk
      rw [clients_setClient, Function.update_self] at hshutdown
      exact hstopping hshutdown
    · rw [clients_setClient, Function.update_of_ne hlk] at hshutdown
      exact h.stopping l hshutdown
  · by_cases hlk : l = k
    · subst hlk
      rw [clients_setClient, Function.update_self] at hjoin
      exact hjoins j hjoin
    · rw [clients_setClient, Function.update_of_ne hlk] at hjoin
      exact h.joins l j hjoin

theorem setClient_other (h : io.ShutdownOrder capacity) (k : ℕ) {phase : AsyncClientPhase}
    (hphase : phase.isShutdown = false) : (io.setClient k phase).ShutdownOrder capacity := by
  refine h.setClient (fun hshutdown => ?_) fun j hjoin => ?_
  · rw [hphase] at hshutdown
    cases hshutdown
  · rw [hjoin] at hphase
    cases hphase

/-- The queue gets shorter. -/
theorem setQueue (h : io.ShutdownOrder capacity) {queue : List RequestId}
    (hle : queue.length ≤ io.queue.length) :
    ({ io with queue } : AsyncChunkIO n).ShutdownOrder capacity := by
  refine ⟨hle.trans h.bounded, fun i hexited => ?_, h.stopping, h.joins, h.joined, h.returned⟩
  obtain ⟨hstop, hempty⟩ := h.exited i hexited
  rw [hempty] at hle
  exact ⟨hstop, List.length_eq_zero_iff.mp (Nat.le_zero.mp hle)⟩

/-- A request is accepted. -/
theorem push (h : io.ShutdownOrder capacity) (hcan : io.CanSubmit capacity) :
    io.push.ShutdownOrder capacity := by
  refine ⟨?_, fun i hexited => ?_, h.stopping, h.joins, h.joined, h.returned⟩
  · rw [ AsyncChunkIO.push, List.length_append]
    exact hcan.2
  · have hstop := (h.exited i hexited).1
    rw [hcan.1] at hstop
    cases hstop

theorem stop (h : io.ShutdownOrder capacity) :
    ({ io with stopping := true } : AsyncChunkIO n).ShutdownOrder capacity where
  bounded := h.bounded
  exited i hexited := ⟨rfl, (h.exited i hexited).2⟩
  stopping _ _ := rfl
  joins := h.joins
  joined hnow := ⟨rfl, (h.joined hnow).2⟩
  returned := h.returned

theorem notifyAll (h : io.ShutdownOrder capacity) : io.notifyAll.ShutdownOrder capacity := by
  refine h.congr rfl rfl (fun i => ?_) (fun k => ⟨?_, fun j => ?_⟩) rfl rfl
  · change wakeWorker (io.workers i) = .exited ↔ _
    cases io.workers i <;> simp [wakeWorker]
  · change (wakeClient (io.clients k)).isShutdown = _
    cases io.clients k <;> rfl
  · change wakeClient (io.clients k) = .join j ↔ _
    cases io.clients k <;> simp [wakeClient]

theorem notifyOne (h : io.ShutdownOrder capacity) {thread : Option (AsyncThread n)}
    (hnotify : NotifyOne thread io io') : io'.ShutdownOrder capacity := by
  cases hnotify with
  | none => exact h
  | @wake _ thread hblocked =>
      cases thread with
      | worker i =>
          have hphase : io.workers i = .blocked := hblocked
          exact h.setPhase (by rw [hphase]; decide) fun hexit => by cases hexit
      | client k => exact h.setClient_other k rfl

end ShutdownOrder

theorem WorkerStep.shutdownOrder {i : Fin n} (h : io.ShutdownOrder capacity)
    (hstep : WorkerStep kind i io io') : io'.ShutdownOrder capacity := by
  -- Only the worker that finds the queue empty exits.
  have hgoes {before after : AsyncWorkerPhase} {middle : AsyncChunkIO n}
      (hphase : io.workers i = before) (hmiddle : middle.ShutdownOrder capacity)
      (hworkers : middle.workers = io.workers) (hbefore : before ≠ .exited)
      (hafter : after ≠ .exited) : (middle.setPhase i after).ShutdownOrder capacity :=
    hmiddle.setPhase (by rw [hworkers, hphase]; exact hbefore) fun heq => absurd heq hafter
  have hsame {middle : AsyncChunkIO n} (hqueue : middle.queue = io.queue)
      (hstopping : middle.stopping = io.stopping) (hworkers : middle.workers = io.workers)
      (hclients : middle.clients = io.clients) (hjoined : middle.joined = io.joined)
      (hreturned : middle.shutdownReturned = io.shutdownReturned) :
      middle.ShutdownOrder capacity :=
    h.same hqueue hstopping hworkers hclients hjoined hreturned
  cases hstep with
  | exit hphase hqueue hstopping =>
      exact h.setPhase (by rw [hphase]; decide) fun _ => ⟨hstopping, hqueue⟩
  | @claim request rest hphase hqueue =>
      refine hgoes hphase (h.setQueue ?_) rfl (by decide) (by simp)
      rw [hqueue]
      exact Nat.le_succ _
  | notify hphase =>
      refine h.notifyAll.setPhase ?_ (by simp)
      change wakeWorker (io.workers i) ≠ .exited
      rw [hphase]
      simp [wakeWorker]
  | block hphase _ _ => exact hgoes hphase h rfl (by decide) (by decide)
  | refused hphase _ => exact hgoes hphase h rfl (by simp) (by decide)
  | leave hphase => exact hgoes hphase (hsame rfl rfl rfl rfl rfl rfl) rfl (by decide) (by decide)
  | count hphase => exact hgoes hphase (hsame rfl rfl rfl rfl rfl rfl) rfl (by simp) (by decide)
  | activate hphase | beginActive hphase _ | payload hphase _ | noPayload hphase _ _ | call hphase
  | returned hphase | thrown hphase | complete hphase | fail hphase =>
      exact hgoes hphase (hsame rfl rfl rfl rfl rfl rfl) rfl (by simp) (by simp)

theorem ClientStep.shutdownOrder {k : ℕ} (h : io.ShutdownOrder capacity)
    (hstep : ClientStep capacity k io io') : io'.ShutdownOrder capacity := by
  cases hstep with
  | shutdownAgain _ _ _ hjoined => exact { h with returned := fun _ => hjoined }
  | shutdownNotify hphase =>
      refine h.notifyAll.setClient (fun _ => h.stopping k (by rw [hphase]; rfl)) fun j hjoin i hlt => ?_
      cases hjoin
      exact absurd hlt (Nat.not_lt_zero _)
  | @join i hphase hexited =>
      refine h.setClient (fun _ => h.stopping k (by rw [hphase]; rfl)) fun j hjoin l hlt => ?_
      cases hjoin
      rcases Nat.lt_succ_iff_lt_or_eq.mp hlt with hbefore | heq
      · exact h.joins k i hphase l hbefore
      · rwa [Fin.ext heq]
  | joined hphase =>
      have hall : ∀ i, io.workers i = .exited := fun i => h.joins k n hphase i i.isLt
      have hjoined : ({ io with joined := true, shutdownReturned := true } :
          AsyncChunkIO n).ShutdownOrder capacity :=
        { h with
          joined := fun _ => ⟨h.stopping k (by rw [hphase]; rfl), hall⟩
          returned := fun _ => rfl }
      exact hjoined.setClient_other k rfl
  | waitForCapacity _ | capacityReturn _ _ | capacityBlock _ _ | wait _ _ | waitReturn _ _ =>
      exact h.setClient_other k rfl

/-- Every step keeps the order of a shutdown. -/
theorem Step.shutdownOrder {event : AsyncEvent n} (h : io.ShutdownOrder capacity)
    (hstep : Step kind capacity event io io') : io'.ShutdownOrder capacity := by
  cases hstep with
  | worker hworker => exact hworker.shutdownOrder h
  | client hclient => exact hclient.shutdownOrder h
  | submit _ _ hcan => exact (h.push hcan).setClient_other _ rfl
  | notifyOne _ _ hnotify => exact (h.setClient_other _ rfl).notifyOne hnotify
  | loadAsync _ _ hcan hnotify => exact (h.push hcan).notifyOne hnotify
  | cancel _ _ _ _ =>
      exact (h.setQueue (List.length_erase_le)).same rfl rfl rfl rfl rfl rfl
  | @shutdown _ k drain _ _ _ =>
      have hdropped : ({ (if drain then io else io.dropQueue kind) with stopping := true } :
          AsyncChunkIO n).ShutdownOrder capacity := by
        cases drain with
        | true => exact h.stop
        | false =>
            exact ((h.setQueue (Nat.zero_le _)).same rfl rfl rfl rfl rfl rfl :
              (io.dropQueue kind).ShutdownOrder capacity).stop
      exact hdropped.setClient (fun _ => rfl) fun _ hjoin => by cases hjoin

theorem NotifyOne.stopping_eq {thread : Option (AsyncThread n)}
    (hnotify : NotifyOne thread io io') :
    io'.stopping = io.stopping ∧ io'.submitted = io.submitted := by
  cases hnotify with
  | none => exact ⟨rfl, rfl⟩
  | @wake _ thread _ => cases thread <;> exact ⟨rfl, rfl⟩

/-- What is stopped accepts nothing any more. -/
theorem Step.stopped {event : AsyncEvent n} (h : io.stopping = true)
    (hstep : Step kind capacity event io io') :
    io'.stopping = true ∧ io'.submitted = io.submitted := by
  cases hstep with
  | worker hworker => cases hworker <;> exact ⟨h, rfl⟩
  | client hclient => cases hclient <;> exact ⟨h, rfl⟩
  | submit _ _ hcan => exact absurd (hcan.1.symm.trans h) (by decide)
  | notifyOne _ _ hnotify =>
      obtain ⟨hstopping, hsubmitted⟩ := hnotify.stopping_eq
      exact ⟨hstopping.trans h, hsubmitted⟩
  | loadAsync _ _ hcan _ => exact absurd (hcan.1.symm.trans h) (by decide)
  | cancel _ _ _ _ => exact ⟨h, rfl⟩
  | @shutdown _ k drain _ _ _ => cases drain <;> exact ⟨rfl, rfl⟩

/-! ## Counters -/

/-- The number of workers that are counted as active. -/
def activeWorkers (io : AsyncChunkIO n) : ℕ :=
  ∑ i, if (io.workers i).isActive then 1 else 0

/-- The counted requests in a state. -/
def countedIn (io : AsyncChunkIO n) (state : AsyncState) : Finset RequestId :=
  io.counted.filter fun request => (io.requests request).state = state

/-- The counters count what they stand for. -/
structure Totals (io : AsyncChunkIO n) : Prop where
  active : io.activeCount = UInt64.ofNat io.activeWorkers
  completed : io.completedCount = UInt64.ofNat (io.countedIn .done).card
  failed : io.failedCount = UInt64.ofNat (io.countedIn .failed).card

theorem totals_started : Totals (started n) where
  active := by simp [activeWorkers, started, AsyncWorkerPhase.isActive]
  completed := rfl
  failed := rfl

theorem activeWorkers_setPhase (io : AsyncChunkIO n) (i : Fin n) (phase : AsyncWorkerPhase) :
    (io.setPhase i phase).activeWorkers + (if (io.workers i).isActive then 1 else 0) =
      io.activeWorkers + (if phase.isActive then 1 else 0) :=
  Library.sum_update_add (fun phase : AsyncWorkerPhase => if phase.isActive then 1 else 0) io.workers
    i phase

theorem activeWorkers_notifyAll (io : AsyncChunkIO n) :
    io.notifyAll.activeWorkers = io.activeWorkers :=
  Finset.sum_congr rfl fun i _ => by
    rw [ AsyncChunkIO.notifyAll, AsyncWorkerPhase.isActive_wakeWorker]

namespace Totals

/-- What the totals depend on. -/
theorem congr (h : io.Totals) (hactive : io'.activeCount = io.activeCount)
    (hworkers : io'.activeWorkers = io.activeWorkers)
    (hcompleted : io'.completedCount = io.completedCount)
    (hfailed : io'.failedCount = io.failedCount) (hcounted : io'.counted = io.counted)
    (hrequests : ∀ request ∈ io.counted,
      (io'.requests request).state = (io.requests request).state) : io'.Totals := by
  have hsame (state : AsyncState) : io'.countedIn state = io.countedIn state := by
    rw [countedIn, hcounted]
    exact Finset.filter_congr fun request hmem => by rw [hrequests request hmem]
  constructor
  · rw [hactive, hworkers]
    exact h.active
  · rw [hcompleted, hsame]
    exact h.completed
  · rw [hfailed, hsame]
    exact h.failed

end Totals

/-- A counted request stays as it is. -/
theorem Ledger.counted_state (h : io.Ledger) {request : RequestId} (hcounted : request ∈ io.counted)
    (hstays : io.Stays io' request) :
    (io'.requests request).state = (io.requests request).state := by
  refine hstays.resolve_right fun hmove => ?_
  rcases (h.counted request hcounted).2 with hdone | hfailed
  · rw [hdone] at hmove
    cases hmove
  · rw [hfailed] at hmove
    cases hmove

/-- A worker goes on without being counted on or off. -/
theorem activeWorkers_eq {i : Fin n} {phase : AsyncWorkerPhase}
    (hphase : phase.isActive = (io.workers i).isActive) :
    (io.setPhase i phase).activeWorkers = io.activeWorkers := by
  have hsum := activeWorkers_setPhase io i phase
  rw [hphase] at hsum
  omega

/-- A request that is counted is counted in its state. -/
theorem card_countedIn_insert {request : RequestId} (hnew : request ∉ io.counted)
    (hcounted : io'.counted = insert request io.counted) (hrequests : io'.requests = io.requests)
    (state : AsyncState) (count : UInt64)
    (hcount : count = UInt64.ofNat (io.countedIn state).card) :
    (if (io.requests request).state = state then count + 1 else count) =
      UInt64.ofNat (io'.countedIn state).card := by
  have hnot : request ∉ io.countedIn state := fun hmem => hnew (Finset.mem_of_mem_filter _ hmem)
  rw [countedIn, hcounted, hrequests, Finset.filter_insert, hcount]
  split
  · change UInt64.ofNat (io.countedIn state).card + 1 =
      UInt64.ofNat (insert request (io.countedIn state)).card
    rw [Finset.card_insert_of_notMem hnot, UInt64.ofNat_add]
    rfl
  · rfl

theorem WorkerStep.totals {i : Fin n} (h : io.Totals) (hledger : io.Ledger)
    (hstep : WorkerStep kind i io io') : io'.Totals := by
  have hstays (request : RequestId) (hmem : request ∈ io.counted) :=
    hledger.counted_state hmem (hstep.stays hledger request)
  cases hstep with
  | @activate request hphase =>
      have hsum := activeWorkers_setPhase io i (.beginActive request)
      rw [hphase] at hsum
      refine ⟨?_, h.completed, h.failed⟩
      change io.activeCount + 1 = UInt64.ofNat (io.setPhase i (.beginActive request)).activeWorkers
      have hsucc : (io.setPhase i (.beginActive request)).activeWorkers = io.activeWorkers + 1 := hsum
      rw [hsucc, h.active, UInt64.ofNat_add]
      rfl
  | leave hphase =>
      have hsum := activeWorkers_setPhase io i .idle
      rw [hphase] at hsum
      refine ⟨?_, h.completed, h.failed⟩
      change io.activeCount - 1 = UInt64.ofNat (io.setPhase i .idle).activeWorkers
      have hpred : (io.setPhase i .idle).activeWorkers + 1 = io.activeWorkers := hsum
      rw [h.active, ← hpred, UInt64.ofNat_add]
      exact UInt64.add_sub_cancel ..
  | @count request hphase =>
      have hown : io.Owns i request := by rw [Owns, hphase]; rfl
      have hnew := (hledger.owned i request hown).2.2.1
      refine ⟨?_, ?_, ?_⟩
      · have hsame : (io.setPhase i .leave).activeWorkers = io.activeWorkers :=
          activeWorkers_eq (congrArg AsyncWorkerPhase.isActive hphase).symm
        exact h.active.trans (congrArg UInt64.ofNat hsame.symm)
      · refine card_countedIn_insert hnew ?_ ?_ .done _ h.completed
        · rfl
        · rfl
      · refine card_countedIn_insert hnew ?_ ?_ .failed _ h.failed
        · rfl
        · rfl
  | @notify request hphase =>
      have hwoken : wakeWorker (io.workers i) = .notify request := by rw [hphase]; rfl
      have hactive : (io.notifyAll.setPhase i (.activate request)).activeWorkers =
          io.activeWorkers := by
        refine (activeWorkers_eq ?_).trans io.activeWorkers_notifyAll
        exact (congrArg AsyncWorkerPhase.isActive hwoken).symm
      exact h.congr rfl hactive rfl rfl rfl hstays
  | block hphase _ _ | exit hphase _ _ | claim hphase _ | beginActive hphase _ | refused hphase _
  | payload hphase _ | noPayload hphase _ _ | call hphase | returned hphase | thrown hphase
  | complete hphase | fail hphase =>
      exact h.congr rfl (activeWorkers_eq (congrArg AsyncWorkerPhase.isActive hphase).symm) rfl rfl
        rfl hstays

theorem NotifyOne.totals {thread : Option (AsyncThread n)} (h : io.Totals)
    (hnotify : NotifyOne thread io io') : io'.Totals := by
  cases hnotify with
  | none => exact h
  | @wake _ thread hblocked =>
      cases thread with
      | worker i =>
          have hphase : io.workers i = .blocked := hblocked
          exact h.congr rfl (activeWorkers_eq (congrArg AsyncWorkerPhase.isActive hphase).symm) rfl
            rfl rfl fun _ _ => rfl
      | client k => exact h.congr rfl rfl rfl rfl rfl fun _ _ => rfl

/-- Every step keeps the totals. -/
theorem Step.totals {event : AsyncEvent n} (h : io.Totals) (hledger : io.Ledger)
    (hstep : Step kind capacity event io io') : io'.Totals := by
  have hstays (request : RequestId) (hmem : request ∈ io.counted) :=
    hledger.counted_state hmem (hstep.stays hledger request)
  have hpush : io.push.Totals := by
    refine h.congr rfl rfl rfl rfl rfl fun request hmem => ?_
    exact hledger.counted_state hmem (push_stays hledger request)
  cases hstep with
  | worker hworker => exact hworker.totals h hledger
  | client hclient =>
      cases hclient with
      | shutdownNotify _ => exact h.congr rfl io.activeWorkers_notifyAll rfl rfl rfl hstays
      | _ => exact h.congr rfl rfl rfl rfl rfl hstays
  | submit _ _ _ => exact hpush.congr rfl rfl rfl rfl rfl fun _ _ => rfl
  | notifyOne _ _ hnotify =>
      refine NotifyOne.totals ?_ hnotify
      exact h.congr rfl rfl rfl rfl rfl fun _ _ => rfl
  | loadAsync _ _ _ hnotify => exact hnotify.totals hpush
  | cancel _ _ _ _ => exact h.congr rfl rfl rfl rfl rfl hstays
  | @shutdown _ k drain _ _ _ => cases drain <;> exact h.congr rfl rfl rfl rfl rfl hstays

/-! ## Runs -/

/-- What the protocol is proved from. -/
structure IsConsistent (capacity : ℕ) (io : AsyncChunkIO n) : Prop where
  ledger : io.Ledger
  order : io.ShutdownOrder capacity
  totals : io.Totals

theorem Step.isConsistent {event : AsyncEvent n} (h : io.IsConsistent capacity)
    (hstep : Step kind capacity event io io') : io'.IsConsistent capacity :=
  ⟨hstep.ledger h.ledger, hstep.shutdownOrder h.order, hstep.totals h.totals h.ledger⟩

theorem started_isConsistent : IsConsistent capacity (started n) :=
  ⟨ledger_started, shutdownOrder_started, totals_started⟩

/-- The constructors accept capacities and crews that are not empty. -/
theorem create_eq_ok_iff : create kind capacity n = .ok io ↔
    capacity ≠ 0 ∧ n ≠ 0 ∧ io = started n := by
  simp only [create, bind_eq_ok, throwIf_eq_ok, pure_eq_ok, Except.ok.injEq, not_or]
  constructor
  · rintro ⟨_, ⟨hcapacity, hn⟩, rfl⟩
    exact ⟨hcapacity, hn, rfl⟩
  · rintro ⟨hcapacity, hn, rfl⟩
    exact ⟨(), ⟨hcapacity, hn⟩, rfl⟩

/-- Every state of a run is consistent. -/
theorem isConsistent_of_reachable (h : (asyncSystem kind capacity n).Reachable io) :
    io.IsConsistent capacity := by
  refine h.invariant (fun io hcreate => ?_) fun io io' _ hio ⟨event, hstep⟩ =>
    hstep.isConsistent hio
  obtain ⟨-, -, rfl⟩ := create_eq_ok_iff.mp hcreate
  exact started_isConsistent

/-- What a request may be; the manager has returned for it only when a worker is about to report
that, or has reported it. -/
inductive IsKnown (io : AsyncChunkIO n) (request : RequestId) : AsyncRequest → Prop where
  | fresh : IsKnown io request .fresh
  | active : IsKnown io request .active
  | called : IsKnown io request .called
  | returned {i} : io.workers i = .complete request → IsKnown io request .returned
  | done : IsKnown io request .done
  | failed : IsKnown io request .failed
  | cancelled : IsKnown io request .cancelled

theorem isKnown_of_fits {i : Fin n} {request : RequestId} (hown : io.Owns i request)
    (hfits : (io.workers i).Fits (io.requests request)) :
    io.IsKnown request (io.requests request) := by
  rw [Owns] at hown
  cases hphase : io.workers i with
  | complete other =>
      rw [hphase] at hown hfits
      obtain rfl := Option.some.inj hown
      rw [show io.requests other = .returned from hfits]
      exact .returned hphase
  | count other =>
      rw [hphase] at hfits
      rcases hfits with hdone | hfailed
      · exact hdone ▸ .done
      · exact hfailed ▸ .failed
  | idle | blocked | leave | exited =>
      rw [hphase] at hown
      cases hown
  | notify other | activate other | beginActive other =>
      rw [hphase] at hfits
      rw [show io.requests request = .fresh from hfits]
      exact .fresh
  | checkPayload other | call other =>
      rw [hphase] at hfits
      rw [show io.requests request = .active from hfits]
      exact .active
  | calling other | fail other =>
      rw [hphase] at hfits
      rw [show io.requests request = .called from hfits]
      exact .called

/-- Every request is known. -/
theorem Ledger.isKnown (h : io.Ledger) (request : RequestId) :
    io.IsKnown request (io.requests request) := by
  by_cases hlt : request < io.submitted
  · by_cases hqueue : request ∈ io.queue
    · rw [(h.queued request hqueue).2.1]
      exact .fresh
    · by_cases howned : ∃ i, io.Owns i request
      · obtain ⟨i, hown⟩ := howned
        exact isKnown_of_fits hown (h.owned i request hown).2.2.2
      · rcases h.settled request hlt hqueue fun i hown => howned ⟨i, hown⟩ with hcancelled | hcounted
        · exact hcancelled ▸ .cancelled
        · rcases (h.counted request hcounted).2 with hdone | hfailed
          · exact hdone ▸ .done
          · exact hfailed ▸ .failed
  · rw [h.fresh request (not_lt.mp hlt)]
    exact .fresh

/-- A worker is between two requests. -/
def isResting : AsyncWorkerPhase → Bool
  | .idle | .blocked | .exited => true
  | _ => false

/-- What is promised of a state of a run. -/
structure KeepsProtocol (kind : AsyncKind) (capacity : ℕ) (io : AsyncChunkIO n) : Prop where
  /-- A request keeps its state or moves, and nothing moves from a terminal state. -/
  moves : ∀ event io' request, Step kind capacity event io io' → io.Stays io' request
  /-- Only its `cancel`, or a shutdown that does not drain, cancels a request. -/
  cancels : ∀ event io' request, Step kind capacity event io io' →
    (io.requests request).state ≠ .cancelled → (io'.requests request).state = .cancelled →
      (∃ k, event = .cancel k request) ∨ ∃ k, event = .shutdown k false
  /-- Between the return of the manager and the report, which the writer makes under the mutex of
  the request, nothing is reported. -/
  stored : ∀ request, (∀ i, io.workers i ≠ .complete request) →
    ((io.requests request).state = .done ↔
      (io.requests request).calls = 1 ∧ (io.requests request).returns = 1)
  cancelled : ∀ request, (io.requests request).state = .cancelled →
    (io.requests request).calls = 0
  bounded : io.queue.length ≤ capacity
  /-- After a shutdown all that was accepted is terminal, and nothing is accepted. -/
  stopped : io.shutdownReturned = true → ∀ io',
    Relation.ReflTransGen (asyncSystem kind capacity n).step io io' →
      io'.submitted = io.submitted ∧
        ∀ request < io'.submitted, (io'.requests request).state.isTerminal = true
  counters : (∀ i, isResting (io.workers i) = true) →
    io.activeCount = 0 ∧
      io.completedCount = UInt64.ofNat ((Finset.range io.submitted).filter fun request =>
        (io.requests request).state = .done).card ∧
      io.failedCount = UInt64.ofNat ((Finset.range io.submitted).filter fun request =>
        (io.requests request).state = .failed).card

namespace IsConsistent

variable (h : io.IsConsistent capacity)

include h

/-- The manager has returned once for the requests that are done, and only for them. -/
theorem stored {request : RequestId} (hreported : ∀ i, io.workers i ≠ .complete request) :
    (io.requests request).state = .done ↔
      (io.requests request).calls = 1 ∧ (io.requests request).returns = 1 := by
  have hknown := h.ledger.isKnown request
  generalize io.requests request = operation at hknown ⊢
  cases hknown with
  | returned hphase => exact absurd hphase (hreported _)
  | fresh | active | called | done | failed | cancelled => decide

/-- No cancelled request is handed to the manager. -/
theorem cancelled {request : RequestId} (hcancelled : (io.requests request).state = .cancelled) :
    (io.requests request).calls = 0 := by
  have hknown := h.ledger.isKnown request
  generalize io.requests request = operation at hknown hcancelled ⊢
  cases hknown with
  | cancelled => rfl
  | fresh | active | called | returned _ | done | failed => cases hcancelled

/-- When the shutdown has returned, all that was accepted is terminal. -/
theorem terminal (hn : n ≠ 0) (hreturned : io.shutdownReturned = true) :
    io.stopping = true ∧
      ∀ request < io.submitted, (io.requests request).state.isTerminal = true := by
  obtain ⟨hstopping, hexited⟩ := h.order.joined (h.order.returned hreturned)
  have hqueue : io.queue = [] := (h.order.exited ⟨0, Nat.pos_of_ne_zero hn⟩ (hexited _)).2
  refine ⟨hstopping, fun request hlt => ?_⟩
  have hnone (i : Fin n) : ¬ io.Owns i request := by
    rw [Owns, hexited i]
    exact Option.some_ne_none request ∘ Eq.symm
  rcases h.ledger.settled request hlt (by rw [hqueue]; exact List.not_mem_nil) hnone with
    hcancelled | hcounted
  · rw [hcancelled]
    rfl
  · rcases (h.ledger.counted request hcounted).2 with hdone | hfailed
    · rw [hdone]
      rfl
    · rw [hfailed]
      rfl

/-- After that nothing changes for the requests. -/
theorem stopped (hn : n ≠ 0) (hreturned : io.shutdownReturned = true)
    (hrun : Relation.ReflTransGen (asyncSystem kind capacity n).step io io') :
    io'.submitted = io.submitted ∧
      ∀ request < io'.submitted, (io'.requests request).state.isTerminal = true := by
  suffices hall : io'.IsConsistent capacity ∧ io'.stopping = true ∧ io'.submitted = io.submitted ∧
      ∀ request < io'.submitted, (io'.requests request).state.isTerminal = true from hall.2.2
  induction hrun with
  | refl => exact ⟨h, (h.terminal hn hreturned).1, rfl, (h.terminal hn hreturned).2⟩
  | tail _ hstep ih =>
      obtain ⟨hconsistent, hstopping, hsubmitted, hterminal⟩ := ih
      obtain ⟨event, hstep⟩ := hstep
      obtain ⟨hstopping', hsubmitted'⟩ := hstep.stopped hstopping
      refine ⟨hstep.isConsistent hconsistent, hstopping', hsubmitted'.trans hsubmitted, ?_⟩
      intro request hlt
      have hbefore := hterminal request (hsubmitted' ▸ hlt)
      rcases hstep.stays hconsistent.ledger request with hsame | hmove
      · rwa [hsame]
      · exact absurd (hbefore.symm.trans hmove.isTerminal_eq) (by decide)

/-- At rest the counters are exact. -/
theorem counters (hresting : ∀ i, isResting (io.workers i) = true) :
    io.activeCount = 0 ∧
      io.completedCount = UInt64.ofNat ((Finset.range io.submitted).filter fun request =>
        (io.requests request).state = .done).card ∧
      io.failedCount = UInt64.ofNat ((Finset.range io.submitted).filter fun request =>
        (io.requests request).state = .failed).card := by
  have hidle (i : Fin n) : (io.workers i).request? = none ∧ (io.workers i).isActive = false := by
    have hphase := hresting i
    cases hworker : io.workers i with
    | idle | blocked | exited => exact ⟨rfl, rfl⟩
    | _ =>
        rw [hworker] at hphase
        cases hphase
  have hnone (i : Fin n) (request : RequestId) : ¬ io.Owns i request := by
    rw [Owns, (hidle i).1]
    exact Option.some_ne_none request ∘ Eq.symm
  have hcounted {state : AsyncState} (hqueued : state ≠ .queued) (hcancelled : state ≠ .cancelled) :
      io.countedIn state = (Finset.range io.submitted).filter fun request =>
        (io.requests request).state = state := by
    ext request
    simp only [countedIn, Finset.mem_filter, Finset.mem_range]
    refine and_congr_left fun hstate => ⟨fun hmem => (h.ledger.counted request hmem).1, fun hlt => ?_⟩
    refine (h.ledger.settled request hlt (fun hmem => ?_) fun i => hnone i request).resolve_left
      fun hnow => ?_
    · rw [(h.ledger.queued request hmem).2.1] at hstate
      exact hqueued hstate.symm
    · rw [hnow] at hstate
      exact hcancelled hstate.symm
  have hactive : io.activeWorkers = 0 := by
    refine Finset.sum_eq_zero fun i _ => ?_
    rw [(hidle i).2]
    rfl
  refine ⟨?_, ?_, ?_⟩
  · rw [h.totals.active, hactive]
    rfl
  · rw [h.totals.completed, hcounted (by decide) (by decide)]
  · rw [h.totals.failed, hcounted (by decide) (by decide)]

end IsConsistent

/-- Every state of every run keeps the protocol. -/
theorem keepsProtocol_of_reachable (h : (asyncSystem kind capacity n).Reachable io) :
    io.KeepsProtocol kind capacity := by
  have hconsistent := isConsistent_of_reachable h
  have hn : n ≠ 0 := by
    clear hconsistent
    induction h with
    | initial hcreate => exact (create_eq_ok_iff.mp hcreate).2.1
    | step _ _ ih => exact ih
  exact
    { moves := fun _ _ request hstep => hstep.stays hconsistent.ledger request
      cancels := fun _ _ _ hstep => hstep.cancels
      stored := fun _ => hconsistent.stored
      cancelled := fun _ => hconsistent.cancelled
      bounded := hconsistent.order.bounded
      stopped := fun hreturned _ hrun => hconsistent.stopped hn hreturned hrun
      counters := hconsistent.counters }

theorem keepsProtocol_of_reachable_one :
    ((started 1).push.setClient 0 .notifyOne).KeepsProtocol .writer 1 :=
  keepsProtocol_of_reachable
    (.step (.initial rfl) ⟨.submit 0, .submit rfl rfl ⟨rfl, Nat.zero_lt_one⟩⟩)

end AsyncChunkIO

end GiveMePi.Storage
