import GiveMePi.Storage.AsyncChunkIO

/-! # The requests of asynchronous input and output

Every accepted request is in one place: in the queue, in the hands of one worker, cancelled, or
counted with its outcome. -/

namespace GiveMePi.Storage

/-! ## Requests -/

namespace AsyncRequest

def active : AsyncRequest := ⟨.active, true, 0, 0⟩
def called : AsyncRequest := ⟨.active, true, 1, 0⟩
def returned : AsyncRequest := ⟨.active, true, 1, 1⟩
def done : AsyncRequest := ⟨.done, false, 1, 1⟩
def failed : AsyncRequest := ⟨.failed, false, 1, 0⟩
def cancelled : AsyncRequest := ⟨.cancelled, false, 0, 0⟩

end AsyncRequest

namespace AsyncWorkerPhase

/-- The request in the hands of the worker. -/
def request? : AsyncWorkerPhase → Option RequestId
  | notify request | activate request | beginActive request | checkPayload request | call request
  | calling request | complete request | fail request | count request => some request
  | idle | blocked | leave | exited => none

/-- The worker is counted in `activeCount_`. -/
def isActive : AsyncWorkerPhase → Bool
  | beginActive _ | checkPayload _ | call _ | calling _ | complete _ | fail _ | count _
  | leave => true
  | idle | blocked | notify _ | activate _ | exited => false

/-- What is known of the request in the hands of a worker. -/
def Fits (operation : AsyncRequest) : AsyncWorkerPhase → Prop
  | notify _ | activate _ | beginActive _ => operation = .fresh
  | checkPayload _ | call _ => operation = .active
  | calling _ | fail _ => operation = .called
  | complete _ => operation = .returned
  | count _ => operation = .done ∨ operation = .failed
  | idle | blocked | leave | exited => True

@[simp] theorem request?_wakeWorker (phase : AsyncWorkerPhase) :
    ( AsyncChunkIO.wakeWorker phase).request? = phase.request? := by
  cases phase <;> rfl

@[simp] theorem isActive_wakeWorker (phase : AsyncWorkerPhase) :
    ( AsyncChunkIO.wakeWorker phase).isActive = phase.isActive := by
  cases phase <;> rfl

@[simp] theorem fits_wakeWorker (operation : AsyncRequest) (phase : AsyncWorkerPhase) :
    ( AsyncChunkIO.wakeWorker phase).Fits operation ↔ phase.Fits operation := by
  cases phase <;> rfl

end AsyncWorkerPhase

namespace AsyncChunkIO

variable {n capacity : ℕ} {kind : AsyncKind} {io io' : AsyncChunkIO n}

/-- The request is in the hands of worker `i`. -/
def Owns (io : AsyncChunkIO n) (i : Fin n) (request : RequestId) : Prop :=
  (io.workers i).request? = some request

/-- Where the requests are. -/
structure Ledger (io : AsyncChunkIO n) : Prop where
  nodup : io.queue.Nodup
  queued : ∀ request ∈ io.queue, request < io.submitted ∧ io.requests request = .fresh ∧
    request ∉ io.counted
  owned : ∀ i request, io.Owns i request → request < io.submitted ∧ request ∉ io.queue ∧
    request ∉ io.counted ∧ (io.workers i).Fits (io.requests request)
  unique : ∀ i j request, io.Owns i request → io.Owns j request → i = j
  settled : ∀ request < io.submitted, request ∉ io.queue → (∀ i, ¬ io.Owns i request) →
    io.requests request = .cancelled ∨ request ∈ io.counted
  counted : ∀ request ∈ io.counted, request < io.submitted ∧
    (io.requests request = .done ∨ io.requests request = .failed)
  fresh : ∀ request, io.submitted ≤ request → io.requests request = .fresh

theorem ledger_started : Ledger (started n) where
  nodup := List.nodup_nil
  queued := by simp [started]
  owned := by simp [started, Owns, AsyncWorkerPhase.request?]
  unique := by simp [started, Owns, AsyncWorkerPhase.request?]
  settled := by simp [started]
  counted := by simp [started]
  fresh := by simp [started]

namespace Ledger

/-- What the ledger speaks of. -/
theorem congr (h : io.Ledger) (hqueue : io'.queue = io.queue)
    (hworkers : ∀ i, (io'.workers i).request? = (io.workers i).request? ∧
      ∀ operation, (io'.workers i).Fits operation ↔ (io.workers i).Fits operation)
    (hrequests : io'.requests = io.requests) (hsubmitted : io'.submitted = io.submitted)
    (hcounted : io'.counted = io.counted) : io'.Ledger := by
  have howns (i : Fin n) (request : RequestId) : io'.Owns i request ↔ io.Owns i request := by
    rw [Owns, Owns, (hworkers i).1]
  constructor
  · rw [hqueue]
    exact h.nodup
  · rw [hqueue, hsubmitted, hrequests, hcounted]
    exact h.queued
  · intro i request hown
    rw [hqueue, hsubmitted, hrequests, hcounted, (hworkers i).2]
    exact h.owned i request ((howns i request).mp hown)
  · exact fun i j request hi hj => h.unique i j request ((howns i request).mp hi)
      ((howns j request).mp hj)
  · rw [hqueue, hsubmitted, hrequests, hcounted]
    exact fun request hlt hqueue hnone => h.settled request hlt hqueue fun i hown =>
      hnone i ((howns i request).mpr hown)
  · rw [hsubmitted, hrequests, hcounted]
    exact h.counted
  · rw [hsubmitted, hrequests]
    exact h.fresh

/-- A worker goes on with the request in its hands. -/
theorem serve (h : io.Ledger) {i : Fin n} {request : RequestId} (hown : io.Owns i request)
    {phase : AsyncWorkerPhase} (hphase : phase.request? = some request)
    {operation : AsyncRequest} (hfits : phase.Fits operation) :
    ((io.setRequest request operation).setPhase i phase).Ledger := by
  obtain ⟨hlt, hqueue, hcounted, -⟩ := h.owned i request hown
  have howns (j : Fin n) (other : RequestId) :
      ((io.setRequest request operation).setPhase i phase).Owns j other ↔ io.Owns j other := by
    by_cases hji : j = i
    · subst hji
      have hafter : ((io.setRequest request operation).setPhase j phase).workers j = phase :=
        Function.update_self ..
      rw [Owns, hafter, hphase, Owns, hown]
    · simp [Owns, setPhase, setRequest, hji]
  have hother {other : RequestId} (hne : other ≠ request) :
      ((io.setRequest request operation).setPhase i phase).requests other = io.requests other := by
    simp [setPhase, setRequest, hne]
  constructor
  · exact h.nodup
  · intro other hmem
    have hne : other ≠ request := fun heq => hqueue (heq ▸ hmem)
    rw [hother hne]
    exact h.queued other hmem
  · intro j other hj
    have hbefore := (howns j other).mp hj
    obtain ⟨hlt', hqueue', hcounted', hfits'⟩ := h.owned j other hbefore
    refine ⟨hlt', hqueue', hcounted', ?_⟩
    by_cases hji : j = i
    · subst hji
      obtain rfl : request = other := Option.some.inj (hown.symm.trans hbefore)
      simpa [setPhase, setRequest] using hfits
    · have hne : other ≠ request := fun heq => hji (h.unique j i request (heq ▸ hbefore) hown)
      rw [hother hne]
      simpa [setPhase, setRequest, hji] using hfits'
  · exact fun j k other hj hk => h.unique j k other ((howns j other).mp hj) ((howns k other).mp hk)
  · intro other hlt' hqueue' hnone
    have hne : other ≠ request := fun heq => hnone i ((howns i other).mpr (heq ▸ hown))
    rw [hother hne]
    exact h.settled other hlt' hqueue' fun j hj => hnone j ((howns j other).mpr hj)
  · intro other hmem
    have hne : other ≠ request := fun heq => hcounted (heq ▸ hmem)
    rw [hother hne]
    exact h.counted other hmem
  · intro other hle
    have hne : other ≠ request := fun heq => absurd (heq ▸ hle) (not_le.mpr hlt)
    rw [hother hne]
    exact h.fresh other hle

/-- A worker goes on, and the request stays as it is. -/
theorem serve_same (h : io.Ledger) {i : Fin n} {request : RequestId} (hown : io.Owns i request)
    {phase : AsyncWorkerPhase} (hphase : phase.request? = some request)
    (hfits : phase.Fits (io.requests request)) : (io.setPhase i phase).Ledger := by
  have hserve := h.serve hown hphase hfits
  rwa [setRequest, Function.update_eq_self] at hserve

/-- A worker takes the first request of the queue. -/
theorem claim (h : io.Ledger) {i : Fin n} {request : RequestId} {rest : List RequestId}
    (hidle : io.workers i = .idle) (hqueue : io.queue = request :: rest) :
    ({ io with queue := rest }.setPhase i (.notify request)).Ledger := by
  obtain ⟨hnew, hnodup⟩ := List.nodup_cons.mp (hqueue ▸ h.nodup)
  have hmem {other : RequestId} (hrest : other ∈ rest) : other ∈ io.queue := by
    rw [hqueue]
    exact List.mem_cons_of_mem _ hrest
  have hfirst : request ∈ io.queue := by
    rw [hqueue]
    exact List.mem_cons_self
  obtain ⟨hlt, hfresh, hcounted⟩ := h.queued request hfirst
  have hself : ({ io with queue := rest }.setPhase i (.notify request)).workers i =
      .notify request := Function.update_self ..
  have hother {j : Fin n} (hne : j ≠ i) :
      ({ io with queue := rest }.setPhase i (.notify request)).workers j = io.workers j :=
    Function.update_of_ne hne ..
  have howns (j : Fin n) (other : RequestId)
      (hown : ({ io with queue := rest }.setPhase i (.notify request)).Owns j other) :
      j = i ∧ other = request ∨ j ≠ i ∧ io.Owns j other := by
    by_cases hji : j = i
    · subst hji
      rw [Owns, hself] at hown
      exact .inl ⟨rfl, (Option.some.inj hown).symm⟩
    · rw [Owns, hother hji] at hown
      exact .inr ⟨hji, hown⟩
  constructor
  · exact hnodup
  · exact fun other hrest => h.queued other (hmem hrest)
  · intro j other hown
    obtain ⟨rfl, rfl⟩ | ⟨hne, hbefore⟩ := howns j other hown
    · rw [hself]
      exact ⟨hlt, hnew, hcounted, hfresh⟩
    · obtain ⟨hlt', hqueue', hcounted', hfits⟩ := h.owned j other hbefore
      rw [hother hne]
      exact ⟨hlt', fun hrest => hqueue' (hmem hrest), hcounted', hfits⟩
  · intro j k other hj hk
    obtain ⟨rfl, rfl⟩ | ⟨hnej, hbeforej⟩ := howns j other hj
    · obtain ⟨rfl, -⟩ | ⟨-, hbeforek⟩ := howns k other hk
      · rfl
      · exact absurd hfirst (h.owned k other hbeforek).2.1
    · obtain ⟨rfl, rfl⟩ | ⟨-, hbeforek⟩ := howns k other hk
      · exact absurd hfirst (h.owned j other hbeforej).2.1
      · exact h.unique j k other hbeforej hbeforek
  · intro other hlt' hrest hnone
    refine h.settled other hlt' ?_ fun j hown => ?_
    · rw [hqueue, List.mem_cons, not_or]
      exact ⟨fun heq => hnone i (by rw [Owns, hself, heq]; rfl), hrest⟩
    · have hne : j ≠ i := by
        rintro rfl
        rw [Owns, hidle] at hown
        cases hown
      exact hnone j (by rw [Owns, hother hne]; exact hown)
  · exact h.counted
  · exact h.fresh

/-- A worker counts its request and lets it go. -/
theorem count (h : io.Ledger) {i : Fin n} {request : RequestId}
    (hphase : io.workers i = .count request) :
    ({ io with counted := insert request io.counted }.setPhase i .leave).Ledger := by
  have hown : io.Owns i request := by rw [Owns, hphase]; rfl
  obtain ⟨hlt, hqueue, hcounted, hfits⟩ := h.owned i request hown
  rw [hphase] at hfits
  have hself : ({ io with counted := insert request io.counted }.setPhase i .leave).workers i =
      .leave := Function.update_self ..
  have hother {j : Fin n} (hne : j ≠ i) :
      ({ io with counted := insert request io.counted }.setPhase i .leave).workers j =
        io.workers j := Function.update_of_ne hne ..
  have howns (j : Fin n) (other : RequestId)
      (hj : ({ io with counted := insert request io.counted }.setPhase i .leave).Owns j other) :
      j ≠ i ∧ io.Owns j other := by
    by_cases hji : j = i
    · subst hji
      rw [Owns, hself] at hj
      cases hj
    · rw [Owns, hother hji] at hj
      exact ⟨hji, hj⟩
  have hne {j : Fin n} {other : RequestId} (hji : j ≠ i) (hj : io.Owns j other) :
      other ≠ request := fun heq => hji (h.unique j i request (heq ▸ hj) hown)
  constructor
  · exact h.nodup
  · intro other hmem
    obtain ⟨hlt', hfresh, hcounted'⟩ := h.queued other hmem
    refine ⟨hlt', hfresh, ?_⟩
    rw [setPhase, Finset.mem_insert, not_or]
    exact ⟨fun heq => hqueue (heq ▸ hmem), hcounted'⟩
  · intro j other hj
    obtain ⟨hji, hbefore⟩ := howns j other hj
    obtain ⟨hlt', hqueue', hcounted', hfits'⟩ := h.owned j other hbefore
    rw [hother hji]
    refine ⟨hlt', hqueue', ?_, hfits'⟩
    rw [setPhase, Finset.mem_insert, not_or]
    exact ⟨hne hji hbefore, hcounted'⟩
  · exact fun j k other hj hk => h.unique j k other (howns j other hj).2 (howns k other hk).2
  · intro other hlt' hqueue' hnone
    by_cases heq : other = request
    · exact .inr (heq ▸ Finset.mem_insert_self ..)
    · refine (h.settled other hlt' hqueue' fun j hj => ?_).imp_right Finset.mem_insert_of_mem
      have hji : j ≠ i := by
        rintro rfl
        exact heq (Option.some.inj (hj.symm.trans hown))
      exact hnone j (by rw [Owns, hother hji]; exact hj)
  · intro other hmem
    rcases Finset.mem_insert.mp hmem with rfl | hmem
    · exact ⟨hlt, hfits⟩
    · exact h.counted other hmem
  · exact h.fresh

/-- A request is accepted. -/
theorem push (h : io.Ledger) : io.push.Ledger := by
  have hrequests : io.push.requests = io.requests := by
    refine Function.update_eq_self_iff.mpr ?_
    exact (h.fresh _ le_rfl).symm
  have hmem {request : RequestId} (hlt : request < io.push.submitted)
      (hne : request ≠ io.submitted) : request < io.submitted :=
    lt_of_le_of_ne (Nat.le_of_lt_succ hlt) hne
  have hqueue {request : RequestId} : request ∈ io.push.queue ↔
      request ∈ io.queue ∨ request = io.submitted := by
    rw [ AsyncChunkIO.push, List.mem_append, List.mem_singleton]
  constructor
  · refine h.nodup.append (List.nodup_singleton _) ?_
    intro request hold hnew
    rw [List.mem_singleton] at hnew
    exact absurd (hnew ▸ (h.queued request hold).1) (lt_irrefl _)
  · intro request hrequest
    rw [hrequests]
    rcases hqueue.mp hrequest with hold | rfl
    · obtain ⟨hlt, hfresh, hcounted⟩ := h.queued request hold
      exact ⟨Nat.lt_succ_of_lt hlt, hfresh, hcounted⟩
    · refine ⟨Nat.lt_succ_self _, h.fresh _ le_rfl, fun hcounted => ?_⟩
      exact absurd (h.counted _ hcounted).1 (lt_irrefl _)
  · intro i request hown
    obtain ⟨hlt, hout, hcounted, hfits⟩ := h.owned i request hown
    rw [hrequests]
    refine ⟨Nat.lt_succ_of_lt hlt, fun hin => ?_, hcounted, hfits⟩
    exact (hqueue.mp hin).elim hout hlt.ne
  · exact h.unique
  · intro request hlt hout hnone
    rw [hqueue, not_or] at hout
    rw [hrequests]
    exact h.settled request (hmem hlt hout.2) hout.1 hnone
  · intro request hcounted
    rw [hrequests]
    exact ⟨Nat.lt_succ_of_lt (h.counted request hcounted).1, (h.counted request hcounted).2⟩
  · intro request hle
    rw [hrequests]
    exact h.fresh request (Nat.le_of_succ_le hle)

/-- Some requests of the queue are cancelled and leave it. -/
theorem drop (h : io.Ledger) (hnodup : io'.queue.Nodup)
    (hqueue : ∀ request ∈ io'.queue, request ∈ io.queue)
    (hkept : ∀ request, request ∈ io'.queue ∨ request ∉ io.queue →
      io'.requests request = io.requests request)
    (hdropped : ∀ request ∈ io.queue, request ∉ io'.queue →
      io'.requests request = .cancelled)
    (hworkers : io'.workers = io.workers) (hsubmitted : io'.submitted = io.submitted)
    (hcounted : io'.counted = io.counted) : io'.Ledger := by
  have howns (i : Fin n) (request : RequestId) : io'.Owns i request ↔ io.Owns i request := by
    rw [Owns, Owns, hworkers]
  constructor
  · exact hnodup
  · intro request hmem
    rw [hsubmitted, hcounted, hkept request (.inl hmem)]
    exact h.queued request (hqueue request hmem)
  · intro i request hown
    obtain ⟨hlt, hout, hnot, hfits⟩ := h.owned i request ((howns i request).mp hown)
    rw [hsubmitted, hcounted, hworkers, hkept request (.inr hout)]
    exact ⟨hlt, fun hin => hout (hqueue request hin), hnot, hfits⟩
  · exact fun i j request hi hj => h.unique i j request ((howns i request).mp hi)
      ((howns j request).mp hj)
  · intro request hlt hout hnone
    rw [hcounted]
    by_cases hin : request ∈ io.queue
    · exact .inl (hdropped request hin hout)
    · rw [hkept request (.inr hin)]
      exact h.settled request (hsubmitted ▸ hlt) hin fun i hown =>
        hnone i ((howns i request).mpr hown)
  · intro request hmem
    rw [hcounted] at hmem
    obtain ⟨hlt, houtcome⟩ := h.counted request hmem
    rw [hsubmitted, hkept request (.inr fun hin => (h.queued request hin).2.2 hmem)]
    exact ⟨hlt, houtcome⟩
  · intro request hle
    rw [hsubmitted] at hle
    rw [hkept request (.inr fun hin => absurd (h.queued request hin).1 (not_lt.mpr hle))]
    exact h.fresh request hle

theorem cancel (h : io.Ledger) {request : RequestId} (hmem : request ∈ io.queue) :
    ({ io.setRequest request
        { io.requests request with state := .cancelled, hasPayload := false } with
      queue := io.queue.erase request } : AsyncChunkIO n).Ledger := by
  refine h.drop (h.nodup.erase request) (fun _ => List.mem_of_mem_erase) ?_ ?_ rfl rfl rfl
  · intro other hother
    refine Function.update_of_ne ?_ ..
    rintro rfl
    exact hother.elim (fun hin => h.nodup.not_mem_erase hin) fun hout => hout hmem
  · intro other hin hout
    obtain rfl : other = request := by
      by_contra hne
      exact hout ((List.mem_erase_of_ne hne).mpr hin)
    refine (Function.update_self ..).trans ?_
    rw [(h.queued other hmem).2.1]
    rfl

theorem dropQueue (h : io.Ledger) : (io.dropQueue kind).Ledger := by
  refine h.drop List.nodup_nil (fun _ hin => absurd hin List.not_mem_nil) ?_ ?_ rfl rfl rfl
  · intro other hother
    exact if_neg (hother.elim (fun hin => absurd hin List.not_mem_nil) id)
  · intro other hin _
    refine (if_pos hin).trans ?_
    rw [(h.queued other hin).2.1]
    cases kind <;> rfl

end Ledger

/-! ## Steps -/

/-- What a step does to a worker of which nothing is owned. -/
theorem Ledger.setPhase_none (h : io.Ledger) {i : Fin n} {phase : AsyncWorkerPhase}
    (hbefore : (io.workers i).request? = none) (hafter : phase.request? = none) :
    (io.setPhase i phase).Ledger := by
  have hfits {phase : AsyncWorkerPhase} (hnone : phase.request? = none) (operation : AsyncRequest) :
      phase.Fits operation := by
    cases phase <;> trivial
  refine h.congr rfl (fun j => ?_) rfl rfl rfl
  by_cases hji : j = i
  · subst hji
    have hself : (io.setPhase j phase).workers j = phase := Function.update_self ..
    rw [hself]
    exact ⟨hafter.trans hbefore.symm, fun operation =>
      iff_of_true (hfits hafter operation) (hfits hbefore operation)⟩
  · have hother : (io.setPhase i phase).workers j = io.workers j := Function.update_of_ne hji ..
    rw [hother]
    exact ⟨rfl, fun _ => Iff.rfl⟩

theorem Ledger.notifyAll (h : io.Ledger) : io.notifyAll.Ledger :=
  h.congr rfl (fun i => ⟨(io.workers i).request?_wakeWorker, fun operation =>
    AsyncWorkerPhase.fits_wakeWorker operation (io.workers i)⟩) rfl rfl rfl

theorem Ledger.notifyOne (h : io.Ledger) {thread : Option (AsyncThread n)}
    (hnotify : NotifyOne thread io io') : io'.Ledger := by
  cases hnotify with
  | none => exact h
  | @wake _ thread hblocked =>
      cases thread with
      | worker i =>
          have hphase : io.workers i = .blocked := hblocked
          exact h.setPhase_none (by rw [hphase]; rfl) rfl
      | client k => exact h.congr rfl (fun _ => ⟨rfl, fun _ => Iff.rfl⟩) rfl rfl rfl

/-- The ledger does not speak of the counters and of the clients. -/
theorem Ledger.same (h : io.Ledger) (hqueue : io'.queue = io.queue)
    (hworkers : io'.workers = io.workers) (hrequests : io'.requests = io.requests)
    (hsubmitted : io'.submitted = io.submitted) (hcounted : io'.counted = io.counted) :
    io'.Ledger :=
  h.congr hqueue (fun i => by rw [hworkers]; exact ⟨rfl, fun _ => Iff.rfl⟩) hrequests hsubmitted
    hcounted

theorem WorkerStep.ledger {i : Fin n} (h : io.Ledger) (hstep : WorkerStep kind i io io') :
    io'.Ledger := by
  have howns {phase : AsyncWorkerPhase} {request : RequestId} (hphase : io.workers i = phase)
      (hrequest : phase.request? = some request) :
      io.Owns i request ∧ phase.Fits (io.requests request) := by
    have hown : io.Owns i request := by rw [Owns, hphase, hrequest]
    exact ⟨hown, hphase ▸ (h.owned i request hown).2.2.2⟩
  cases hstep with
  | block hphase _ _ => exact h.setPhase_none (by rw [hphase]; rfl) rfl
  | exit hphase _ _ => exact h.setPhase_none (by rw [hphase]; rfl) rfl
  | claim hphase hqueue => exact h.claim hphase hqueue
  | @notify request hphase =>
      obtain ⟨hown, hfits⟩ := howns hphase rfl
      have hafter : io.notifyAll.Owns i request := by
        rw [Owns, AsyncChunkIO.notifyAll, AsyncWorkerPhase.request?_wakeWorker]
        exact hown
      exact h.notifyAll.serve_same hafter rfl hfits
  | activate hphase =>
      obtain ⟨hown, hfits⟩ := howns hphase rfl
      have hledger : { io with activeCount := io.activeCount + 1 }.Ledger :=
        h.same rfl rfl rfl rfl rfl
      exact hledger.serve_same hown rfl hfits
  | @beginActive request state hphase hbegin =>
      obtain ⟨hown, hfits⟩ := howns hphase rfl
      have hfresh : io.requests request = .fresh := hfits
      refine h.serve hown rfl ?_
      rw [hfresh] at hbegin ⊢
      obtain rfl : .active = state := by
        cases kind <;> exact Option.some.inj hbegin
      rfl
  | @refused request hphase hbegin =>
      have hfresh : io.requests request = .fresh := (howns hphase rfl).2
      rw [hfresh] at hbegin
      cases kind <;> cases hbegin
  | payload hphase _ =>
      obtain ⟨hown, hfits⟩ := howns hphase rfl
      exact h.serve_same hown rfl hfits
  | @noPayload request hphase _ hmissing =>
      have hactive : io.requests request = .active := (howns hphase rfl).2
      rw [hactive] at hmissing
      cases hmissing
  | @call request hphase =>
      obtain ⟨hown, hfits⟩ := howns hphase rfl
      have hactive : io.requests request = .active := hfits
      refine h.serve hown rfl ?_
      rw [hactive]
      rfl
  | @returned request hphase =>
      obtain ⟨hown, hfits⟩ := howns hphase rfl
      have hcalled : io.requests request = .called := hfits
      refine h.serve hown rfl ?_
      rw [hcalled]
      rfl
  | thrown hphase =>
      obtain ⟨hown, hfits⟩ := howns hphase rfl
      exact h.serve_same hown rfl hfits
  | @complete request hphase =>
      obtain ⟨hown, hfits⟩ := howns hphase rfl
      have hreturned : io.requests request = .returned := hfits
      refine h.serve hown rfl (.inl ?_)
      rw [hreturned]
      cases kind <;> rfl
  | @fail request hphase =>
      obtain ⟨hown, hfits⟩ := howns hphase rfl
      have hcalled : io.requests request = .called := hfits
      refine h.serve hown rfl (.inr ?_)
      rw [hcalled]
      cases kind <;> rfl
  | count hphase => exact (h.count hphase).same rfl rfl rfl rfl rfl
  | leave hphase =>
      have hledger : { io with activeCount := io.activeCount - 1 }.Ledger :=
        h.same rfl rfl rfl rfl rfl
      exact hledger.setPhase_none (by rw [hphase]; rfl) rfl

theorem ClientStep.ledger {k : ℕ} (h : io.Ledger) (hstep : ClientStep capacity k io io') :
    io'.Ledger := by
  cases hstep with
  | shutdownNotify _ => exact h.notifyAll.same rfl rfl rfl rfl rfl
  | _ => exact h.same rfl rfl rfl rfl rfl

/-- Every step keeps the ledger. -/
theorem Step.ledger {event : AsyncEvent n} (h : io.Ledger)
    (hstep : Step kind capacity event io io') : io'.Ledger := by
  cases hstep with
  | worker hworker => exact hworker.ledger h
  | client hclient => exact hclient.ledger h
  | submit _ _ _ => exact h.push.same rfl rfl rfl rfl rfl
  | notifyOne _ _ hnotify =>
      refine Ledger.notifyOne ?_ hnotify
      exact h.same rfl rfl rfl rfl rfl
  | loadAsync _ _ _ hnotify => exact h.push.notifyOne hnotify
  | cancel _ _ hmem _ => exact h.cancel hmem
  | @shutdown _ k drain _ _ _ =>
      cases drain with
      | true => exact h.same rfl rfl rfl rfl rfl
      | false => exact h.dropQueue.same rfl rfl rfl rfl rfl

end AsyncChunkIO

end GiveMePi.Storage
