import GiveMePi.Error
import GiveMePi.Library.TransitionSystem
import GiveMePi.Numeric

/-! # Asynchronous chunk input and output

`AsyncChunkWriter` and `AsyncChunkReader` as one transition system. A step is a section under
`queueMutex_` or under the mutex of a request, an atomic operation, a notification, or the begin or
the end of a call of the manager, taken by any thread. The chunks, the texts of the failures and the
times, which no step reads, are left out. -/

namespace GiveMePi.Storage

/-- A request with its handle, numbered from zero. -/
abbrev RequestId := ℕ

/-- What the functions of the writer and those of the reader do differently. -/
inductive AsyncKind where
  | writer
  | reader
deriving DecidableEq, Repr

/-- `AsyncWriteState` and `AsyncReadState`: `active` is `writing` or `loading`, and `done` is
`stored` or `loaded`. -/
inductive AsyncState where
  | queued
  | active
  | done
  | failed
  | cancelled
deriving DecidableEq, Repr

namespace AsyncState

/-- The states for which `wait` returns. -/
def isTerminal : AsyncState → Bool
  | queued | active => false
  | done | failed | cancelled => true

/-- `beginWriting`, which may refuse; the reader sets the state. -/
def beginActive : AsyncKind → AsyncState → Option AsyncState
  | .writer, state => if state = queued then some active else none
  | .reader, _ => some active

/-- `completeStored`; the reader sets the state. -/
def complete : AsyncKind → AsyncState → AsyncState
  | .writer, state => if state = active then done else state
  | .reader, _ => done

/-- `AsyncWriteLifecycle::fail`; the reader sets the state. -/
def fail : AsyncKind → AsyncState → AsyncState
  | .writer, state => if state = queued ∨ state = active then failed else state
  | .reader, _ => failed

/-- `AsyncWriteLifecycle::cancel` for a request that a shutdown drops; the reader sets the state. -/
def drop : AsyncKind → AsyncState → AsyncState
  | .writer, state => if state = queued then cancelled else state
  | .reader, _ => cancelled

end AsyncState

/-- An operation. The last two fields are histories that no step reads: how often the manager was
called for it, and how often it returned normally. A load that finds no chunk ends like one that
throws. -/
structure AsyncRequest where
  state : AsyncState
  /-- The writer still holds the chunk. -/
  hasPayload : Bool
  calls : ℕ
  returns : ℕ
deriving DecidableEq, Repr

/-- A request that has been accepted, and before that. -/
def AsyncRequest.fresh : AsyncRequest where
  state := .queued
  hasPayload := true
  calls := 0
  returns := 0

/-- Where a worker is in `workerLoop`. -/
inductive AsyncWorkerPhase where
  /-- About to look at the queue. -/
  | idle
  /-- In `queueChanged_`, not notified. -/
  | blocked
  /-- It has taken a request and is about to notify all. -/
  | notify (request : RequestId)
  | activate (request : RequestId)
  | beginActive (request : RequestId)
  | checkPayload (request : RequestId)
  | call (request : RequestId)
  /-- In the manager. -/
  | calling (request : RequestId)
  /-- The manager has returned. -/
  | complete (request : RequestId)
  /-- An exception has been caught. -/
  | fail (request : RequestId)
  | count (request : RequestId)
  /-- About to decrease the active count. -/
  | leave
  /-- The thread can be joined. -/
  | exited
deriving DecidableEq, Repr

/-- Where a client is in a call. -/
inductive AsyncClientPhase where
  | idle
  /-- `submit` has left its section and is about to notify one. -/
  | notifyOne
  /-- `waitForCapacity`, about to look at the queue. -/
  | capacity
  /-- `waitForCapacity` in `queueChanged_`, not notified. -/
  | capacityBlocked
  /-- `wait` of a handle. -/
  | wait (request : RequestId)
  /-- `shutdown` has left its section and is about to notify all. -/
  | shutdownNotify
  /-- `shutdown`, about to join the worker `k`. -/
  | join (k : ℕ)
deriving DecidableEq, Repr

def AsyncClientPhase.isShutdown : AsyncClientPhase → Bool
  | shutdownNotify | join _ => true
  | _ => false

/-- A thread that may be in `queueChanged_`. -/
inductive AsyncThread (n : ℕ) where
  | worker (i : Fin n)
  | client (k : ℕ)
deriving DecidableEq, Repr

/-- The writer or the reader with `n` workers. The last two fields are histories that no step reads:
the requests that the counters have counted, and whether a shutdown has returned. -/
structure AsyncChunkIO (n : ℕ) where
  queue : List RequestId
  stopping : Bool
  workers : Fin n → AsyncWorkerPhase
  /-- `workers_` is empty. -/
  joined : Bool
  clients : ℕ → AsyncClientPhase
  requests : RequestId → AsyncRequest
  /-- The number of requests accepted so far. -/
  submitted : ℕ
  activeCount : UInt64
  completedCount : UInt64
  failedCount : UInt64
  counted : Finset RequestId
  shutdownReturned : Bool

namespace AsyncChunkIO

variable {n : ℕ}

/-- The state when all threads have been started. -/
def started (n : ℕ) : AsyncChunkIO n where
  queue := []
  stopping := false
  workers _ := .idle
  joined := false
  clients _ := .idle
  requests _ := .fresh
  submitted := 0
  activeCount := 0
  completedCount := 0
  failedCount := 0
  counted := ∅
  shutdownReturned := false

/-- The constructors. -/
def create (kind : AsyncKind) (queueCapacity n : ℕ) : Except Error ( AsyncChunkIO n) := do
  throwIf (queueCapacity = 0 ∨ n = 0)
    (.invalidArgument (match kind with
      | .writer => "Async writer capacity and worker count must be positive"
      | .reader => "Async reader capacity and worker count must be positive"))
  pure (started n)

def setPhase (io : AsyncChunkIO n) (i : Fin n) (phase : AsyncWorkerPhase) : AsyncChunkIO n :=
  { io with workers := Function.update io.workers i phase }

def setClient (io : AsyncChunkIO n) (k : ℕ) (phase : AsyncClientPhase) : AsyncChunkIO n :=
  { io with clients := Function.update io.clients k phase }

@[simp] theorem workers_setPhase (io : AsyncChunkIO n) (i : Fin n) (phase : AsyncWorkerPhase) :
    (io.setPhase i phase).workers = Function.update io.workers i phase := rfl

@[simp] theorem clients_setClient (io : AsyncChunkIO n) (k : ℕ) (phase : AsyncClientPhase) :
    (io.setClient k phase).clients = Function.update io.clients k phase := rfl

def setRequest (io : AsyncChunkIO n) (request : RequestId) (operation : AsyncRequest) :
    AsyncChunkIO n :=
  { io with requests := Function.update io.requests request operation }

/-! ## The condition variable -/

def wakeWorker : AsyncWorkerPhase → AsyncWorkerPhase
  | .blocked => .idle
  | phase => phase

def wakeClient : AsyncClientPhase → AsyncClientPhase
  | .capacityBlocked => .capacity
  | phase => phase

/-- `queueChanged_.notify_all()` -/
def notifyAll (io : AsyncChunkIO n) : AsyncChunkIO n :=
  { io with
    workers := fun i => wakeWorker (io.workers i)
    clients := fun k => wakeClient (io.clients k) }

/-- The thread is in the condition variable, not notified. -/
def IsBlocked (io : AsyncChunkIO n) : AsyncThread n → Prop
  | .worker i => io.workers i = .blocked
  | .client k => io.clients k = .capacityBlocked

def wake (io : AsyncChunkIO n) : AsyncThread n → AsyncChunkIO n
  | .worker i => io.setPhase i .idle
  | .client k => io.setClient k .capacity

/-- `queueChanged_.notify_one()` wakes one of the blocked threads, if there is one. -/
inductive NotifyOne : Option (AsyncThread n) → AsyncChunkIO n → AsyncChunkIO n → Prop where
  | wake {io thread} : io.IsBlocked thread → NotifyOne (some thread) io (io.wake thread)
  | none {io} : (∀ thread, ¬ io.IsBlocked thread) → NotifyOne none io io

/-! ## The loop of a worker -/

/-- `workerLoop` of worker `i`. -/
inductive WorkerStep (kind : AsyncKind) (i : Fin n) : AsyncChunkIO n → AsyncChunkIO n → Prop where
  | block {io} : io.workers i = .idle → io.queue = [] → io.stopping = false →
      WorkerStep kind i io (io.setPhase i .blocked)
  | exit {io} : io.workers i = .idle → io.queue = [] → io.stopping = true →
      WorkerStep kind i io (io.setPhase i .exited)
  | claim {io request rest} : io.workers i = .idle → io.queue = request :: rest →
      WorkerStep kind i io ({ io with queue := rest }.setPhase i (.notify request))
  | notify {io request} : io.workers i = .notify request →
      WorkerStep kind i io (io.notifyAll.setPhase i (.activate request))
  | activate {io request} : io.workers i = .activate request →
      WorkerStep kind i io
        ({ io with activeCount := io.activeCount + 1 }.setPhase i (.beginActive request))
  | beginActive {io request state} : io.workers i = .beginActive request →
      (io.requests request).state.beginActive kind = some state →
      WorkerStep kind i io
        ((io.setRequest request { io.requests request with state }).setPhase i
          (.checkPayload request))
  | refused {io request} : io.workers i = .beginActive request →
      (io.requests request).state.beginActive kind = none →
      WorkerStep kind i io (io.setPhase i .leave)
  | payload {io request} : io.workers i = .checkPayload request →
      (kind = .writer → (io.requests request).hasPayload = true) →
      WorkerStep kind i io (io.setPhase i (.call request))
  | noPayload {io request} : io.workers i = .checkPayload request → kind = .writer →
      (io.requests request).hasPayload = false →
      WorkerStep kind i io (io.setPhase i (.fail request))
  | call {io request} : io.workers i = .call request →
      WorkerStep kind i io
        ((io.setRequest request
          { io.requests request with calls := (io.requests request).calls + 1 }).setPhase i
            (.calling request))
  -- what the manager does is up to it
  | returned {io request} : io.workers i = .calling request →
      WorkerStep kind i io
        ((io.setRequest request
          { io.requests request with returns := (io.requests request).returns + 1 }).setPhase i
            (.complete request))
  | thrown {io request} : io.workers i = .calling request →
      WorkerStep kind i io (io.setPhase i (.fail request))
  | complete {io request} : io.workers i = .complete request →
      WorkerStep kind i io
        ((io.setRequest request
          { io.requests request with
            state := (io.requests request).state.complete kind
            hasPayload := false }).setPhase i (.count request))
  | fail {io request} : io.workers i = .fail request →
      WorkerStep kind i io
        ((io.setRequest request
          { io.requests request with
            state := (io.requests request).state.fail kind
            hasPayload := false }).setPhase i (.count request))
  | count {io request} : io.workers i = .count request →
      WorkerStep kind i io ({ io with
        completedCount :=
          if (io.requests request).state = AsyncState.done then io.completedCount + 1 else io.completedCount
        failedCount :=
          if (io.requests request).state = AsyncState.failed then io.failedCount + 1 else io.failedCount
        counted := insert request io.counted }.setPhase i .leave)
  | leave {io} : io.workers i = .leave →
      WorkerStep kind i io ({ io with activeCount := io.activeCount - 1 }.setPhase i .idle)

/-! ## Submissions -/

/-- The section of `submit` and of `loadAsync`. -/
def push (io : AsyncChunkIO n) : AsyncChunkIO n :=
  { io.setRequest io.submitted .fresh with
    queue := io.queue ++ [io.submitted]
    submitted := io.submitted + 1 }

/-- `submit` or `loadAsync` is accepted. -/
def CanSubmit (capacity : ℕ) (io : AsyncChunkIO n) : Prop :=
  io.stopping = false ∧ io.queue.length < capacity

/-! ## Calls of clients -/

/-- The loop of `shutdown` that drops the queue. -/
def dropQueue (kind : AsyncKind) (io : AsyncChunkIO n) : AsyncChunkIO n :=
  { io with
    queue := []
    requests := fun request =>
      if request ∈ io.queue then
        { io.requests request with
          state := (io.requests request).state.drop kind
          hasPayload := false }
      else io.requests request }

/-- No shutdown is under way, so that another one may begin. -/
def CanShutdown (io : AsyncChunkIO n) : Prop :=
  ∀ k, (io.clients k).isShutdown = false

/-- `waitForCapacity`, `wait` and, but for its first section, `shutdown` of client `k`. -/
inductive ClientStep (capacity : ℕ) (k : ℕ) :
    AsyncChunkIO n → AsyncChunkIO n → Prop where
  | waitForCapacity {io} : io.clients k = .idle →
      ClientStep capacity k io (io.setClient k .capacity)
  -- it throws when the queue is stopped
  | capacityReturn {io} : io.clients k = .capacity →
      io.stopping = true ∨ io.queue.length < capacity →
      ClientStep capacity k io (io.setClient k .idle)
  | capacityBlock {io} : io.clients k = .capacity →
      ¬ (io.stopping = true ∨ io.queue.length < capacity) →
      ClientStep capacity k io (io.setClient k .capacityBlocked)
  | wait {io request} : io.clients k = .idle → request < io.submitted →
      ClientStep capacity k io (io.setClient k (.wait request))
  | waitReturn {io request} : io.clients k = .wait request →
      (io.requests request).state.isTerminal = true →
      ClientStep capacity k io (io.setClient k .idle)
  | shutdownAgain {io} : io.clients k = .idle → io.CanShutdown → io.stopping = true →
      io.joined = true →
      ClientStep capacity k io { io with shutdownReturned := true }
  | shutdownNotify {io} : io.clients k = .shutdownNotify →
      ClientStep capacity k io (io.notifyAll.setClient k (.join 0))
  | join {io} {i : Fin n} : io.clients k = .join i → io.workers i = .exited →
      ClientStep capacity k io (io.setClient k (.join (i + 1)))
  | joined {io} : io.clients k = .join n →
      ClientStep capacity k io
        ({ io with joined := true, shutdownReturned := true }.setClient k .idle)

/-- Which thread takes a step, and for some steps what it does. -/
inductive AsyncEvent (n : ℕ) where
  | worker (i : Fin n)
  | client (k : ℕ)
  /-- The section of `submit`. -/
  | submit (k : ℕ)
  /-- A `notify_one` of a submission, which wakes a thread. -/
  | notifyOne (k : ℕ) (thread : Option (AsyncThread n))
  /-- A `cancel` that takes effect. -/
  | cancel (k : ℕ) (request : RequestId)
  /-- The section of a `shutdown` that does not return at once. -/
  | shutdown (k : ℕ) (drain : Bool)
deriving DecidableEq, Repr

/-- The steps of all threads. Submissions and cancellations that are refused change nothing. -/
inductive Step (kind : AsyncKind) (capacity : ℕ) :
    AsyncEvent n → AsyncChunkIO n → AsyncChunkIO n → Prop where
  | worker {io io'} {i : Fin n} : WorkerStep kind i io io' → Step kind capacity (.worker i) io io'
  | client {io io'} {k : ℕ} : ClientStep capacity k io io' →
      Step kind capacity (.client k) io io'
  | submit {io} {k : ℕ} : kind = .writer → io.clients k = .idle → io.CanSubmit capacity →
      Step kind capacity (.submit k) io (io.push.setClient k .notifyOne)
  -- the writer notifies outside its section
  | notifyOne {io io' thread} {k : ℕ} : kind = .writer → io.clients k = .notifyOne →
      NotifyOne thread (io.setClient k .idle) io' →
      Step kind capacity (.notifyOne k thread) io io'
  -- the reader notifies inside its section
  | loadAsync {io io' thread} {k : ℕ} : kind = .reader → io.clients k = .idle →
      io.CanSubmit capacity → NotifyOne thread io.push io' →
      Step kind capacity (.notifyOne k thread) io io'
  | cancel {io request} {k : ℕ} : kind = .writer → io.clients k = .idle → request ∈ io.queue →
      (io.requests request).state = .queued →
      Step kind capacity (.cancel k request) io
        { io.setRequest request
            { io.requests request with state := .cancelled, hasPayload := false } with
          queue := io.queue.erase request }
  | shutdown {io} {k : ℕ} {drain : Bool} : io.clients k = .idle → io.CanShutdown →
      ¬ (io.stopping = true ∧ io.joined = true) →
      Step kind capacity (.shutdown k drain) io
        ({ (if drain then io else io.dropQueue kind) with stopping := true }.setClient k
          .shutdownNotify)

end AsyncChunkIO

open AsyncChunkIO

/-- The runs of a writer or a reader. -/
def asyncSystem (kind : AsyncKind) (capacity n : ℕ) : Library.TransitionSystem ( AsyncChunkIO n) where
  initial io := create kind capacity n = .ok io
  step io io' := ∃ event, Step kind capacity event io io'

end GiveMePi.Storage
