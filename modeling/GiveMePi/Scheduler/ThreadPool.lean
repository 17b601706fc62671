import GiveMePi.Library.TransitionSystem

/-! # The thread pool

`ThreadPool`, `Worker`, `Task` and `WorkStealingQueue` as one transition system. A step is a part of
a section under `lifecycleMutex_`, an atomic operation, or an operation of one queue, taken by any
thread; threads that only wait for the mutex take no step. Tasks are move-only, so a submission
always brings a task that no one has submitted or executed before. -/

namespace GiveMePi

/-- A task with its callable and shared state. -/
abbrev TaskId := ℕ

inductive TaskState where
  | pending
  | running
  | completed
  | failed
deriving DecidableEq, Repr

/-- `TaskHandle::isReady`. -/
def TaskState.isReady : TaskState → Bool
  | completed | failed => true
  | pending | running => false

inductive SchedulerState where
  | stopped
  | running
  | stopping
deriving DecidableEq, Repr

/-- Where the thread of a worker is in `Worker::run`. -/
inductive WorkerPhase where
  /-- There is no thread. -/
  | absent
  | popLocal
  | popGlobal
  /-- `Worker::steal`, about to look at the queue of `victim`. -/
  | steal (victim : ℕ)
  | checkStop
  | checkDrain
  /-- In `Task::execute`, before the exchange. -/
  | execute (task : TaskId)
  /-- In the callable. -/
  | running (task : TaskId)
  | taskCompleted (task : TaskId)
  /-- The thread has left the loop and can be joined. -/
  | exited
deriving DecidableEq, Repr

structure Worker where
  phase : WorkerPhase
  stopRequested : Bool
  running : Bool
deriving DecidableEq, Repr

/-- A thread that calls the pool. -/
inductive PoolThread (n : ℕ) where
  | worker (i : Fin n)
  | external (k : ℕ)
deriving DecidableEq, Repr

/-- Where the owner of `lifecycleMutex_` is in its section. -/
inductive LifecycleSection where
  /-- `submit` has passed its checks and is about to count the task. -/
  | submitCount (task : TaskId)
  /-- The task is counted and is about to be pushed. -/
  | submitPush (task : TaskId)
  /-- The queue has refused the task, or has thrown. -/
  | submitUndo (task : TaskId)
  | submitReturn (task : TaskId) (accepted : Bool)
  | startWorker (k : ℕ)
  | unwindRequest (k : ℕ)
  | unwindJoin (k : ℕ)
deriving DecidableEq, Repr

/-- Where an external thread is in `stop`, outside the mutex. -/
inductive StopCall where
  | idle
  | awaitGeneration (stopGeneration : ℕ)
  | requestStop (k : ℕ)
  | join (k : ℕ)
deriving DecidableEq, Repr

/-- The pool with `n` workers. The last five fields are histories that no step reads: the tasks that
went into a queue, that entered their callable and that `executeTask` has counted off, and the tasks
whose `submit` gave a valid handle or none. -/
structure ThreadPool (n : ℕ) where
  state : SchedulerState
  stopGeneration : ℕ
  outstandingTasks : ℤ
  queue : List TaskId
  localQueue : Fin n → List TaskId
  workers : Fin n → Worker
  holder : Option (PoolThread n × LifecycleSection)
  stopCall : ℕ → StopCall
  taskState : TaskId → TaskState
  created : ℕ
  accepted : List TaskId
  executed : List TaskId
  finished : List TaskId
  granted : List TaskId
  refused : List TaskId

namespace ThreadPool

variable {n : ℕ}

/-- A pool that has been constructed and not started. -/
def create (n : ℕ) : ThreadPool n where
  state := .stopped
  stopGeneration := 0
  outstandingTasks := 0
  queue := []
  localQueue _ := []
  workers _ := { phase := .absent, stopRequested := false, running := false }
  holder := none
  stopCall _ := .idle
  taskState _ := .pending
  created := 0
  accepted := []
  executed := []
  finished := []
  granted := []
  refused := []

def setWorker (pool : ThreadPool n) (i : Fin n) (worker : Worker) : ThreadPool n :=
  { pool with workers := Function.update pool.workers i worker }

def setPhase (pool : ThreadPool n) (i : Fin n) (phase : WorkerPhase) : ThreadPool n :=
  pool.setWorker i { pool.workers i with phase }

def setLocalQueue (pool : ThreadPool n) (i : Fin n) (tasks : List TaskId) : ThreadPool n :=
  { pool with localQueue := Function.update pool.localQueue i tasks }

def setStopCall (pool : ThreadPool n) (k : ℕ) (call : StopCall) : ThreadPool n :=
  { pool with stopCall := Function.update pool.stopCall k call }

def setTaskState (pool : ThreadPool n) (task : TaskId) (state : TaskState) : ThreadPool n :=
  { pool with taskState := Function.update pool.taskState task state }

/-- The owner of the mutex goes on to another part of its section. -/
def goto (pool : ThreadPool n) (thread : PoolThread n) (part : LifecycleSection) : ThreadPool n :=
  { pool with holder := some (thread, part) }

/-- The mutex is free, and the thread is in no other call: a worker calls from its callable. -/
def CanCall (pool : ThreadPool n) (thread : PoolThread n) : Prop :=
  pool.holder = none ∧
    match thread with
    | .worker i => ∃ task, (pool.workers i).phase = .running task
    | .external k => pool.stopCall k = .idle

/-! ## The loop of a worker -/

/-- `Worker::run`, `steal`, `executeTask` and `Task::execute` of worker `i`. -/
inductive RunStep (i : Fin n) : ThreadPool n → ThreadPool n → Prop where
  | popLocal {pool task rest} : (pool.workers i).phase = .popLocal →
      pool.localQueue i = rest ++ [task] →
      RunStep i pool ((pool.setLocalQueue i rest).setPhase i (.execute task))
  | popLocalEmpty {pool} : (pool.workers i).phase = .popLocal → pool.localQueue i = [] →
      RunStep i pool (pool.setPhase i .popGlobal)
  | popGlobal {pool task rest} : (pool.workers i).phase = .popGlobal →
      pool.queue = task :: rest →
      RunStep i pool ({ pool with queue := rest }.setPhase i (.execute task))
  -- the lock-free queue may report that it is empty while another operation on it is under way
  | popGlobalEmpty {pool} : (pool.workers i).phase = .popGlobal →
      RunStep i pool (pool.setPhase i (.steal 0))
  | stealSelf {pool} : (pool.workers i).phase = .steal i →
      RunStep i pool (pool.setPhase i (.steal (i + 1)))
  | steal {pool task rest} {victim : Fin n} : (pool.workers i).phase = .steal victim →
      victim ≠ i → pool.localQueue victim = task :: rest →
      RunStep i pool ((pool.setLocalQueue victim rest).setPhase i (.execute task))
  | stealEmpty {pool} {victim : Fin n} : (pool.workers i).phase = .steal victim → victim ≠ i →
      pool.localQueue victim = [] → RunStep i pool (pool.setPhase i (.steal (victim + 1)))
  | stealNothing {pool} : (pool.workers i).phase = .steal n →
      RunStep i pool (pool.setPhase i .checkStop)
  | checkStop {pool} : (pool.workers i).phase = .checkStop →
      RunStep i pool
        (pool.setPhase i (if (pool.workers i).stopRequested then .checkDrain else .popLocal))
  | checkDrain {pool} : (pool.workers i).phase = .checkDrain →
      RunStep i pool (pool.setPhase i (if pool.outstandingTasks = 0 then .exited else .popLocal))
  | execute {pool task} : (pool.workers i).phase = .execute task →
      pool.taskState task = .pending →
      RunStep i pool ({ pool.setTaskState task .running with
        executed := pool.executed ++ [task] }.setPhase i (.running task))
  | executeAgain {pool task} : (pool.workers i).phase = .execute task →
      pool.taskState task ≠ .pending → RunStep i pool (pool.setPhase i (.taskCompleted task))
  | finishTask {pool task} {result : TaskState} : (pool.workers i).phase = .running task →
      (∀ part, pool.holder ≠ some (.worker i, part)) → result.isReady = true →
      RunStep i pool ((pool.setTaskState task result).setPhase i (.taskCompleted task))
  | taskCompleted {pool task} : (pool.workers i).phase = .taskCompleted task →
      RunStep i pool ({ pool with
        outstandingTasks := pool.outstandingTasks - 1
        finished := pool.finished ++ [task] }.setPhase i .popLocal)

/-! ## Submission -/

/-- `ThreadPool::submit` with a global queue of the given capacity. -/
inductive SubmitStep (capacity : ℕ) : ThreadPool n → ThreadPool n → Prop where
  | enter {pool : ThreadPool n} {thread} (valid : Bool) : pool.CanCall thread →
      SubmitStep capacity pool ({ pool with created := pool.created + 1 }.goto thread
        (if pool.state = SchedulerState.running ∧ 0 < n ∧ valid then .submitCount pool.created
        else .submitReturn pool.created false))
  | count {pool thread task} : pool.holder = some (thread, .submitCount task) →
      SubmitStep capacity pool
        ({ pool with outstandingTasks := pool.outstandingTasks + 1 }.goto thread (.submitPush task))
  | pushLocal {pool i task} : pool.holder = some (.worker i, .submitPush task) →
      SubmitStep capacity pool ({ pool.setLocalQueue i (pool.localQueue i ++ [task]) with
        accepted := pool.accepted ++ [task] }.goto (.worker i) (.submitReturn task true))
  | pushGlobal {pool k task} : pool.holder = some (.external k, .submitPush task) →
      pool.queue.length < capacity →
      SubmitStep capacity pool ({ pool with
        queue := pool.queue ++ [task]
        accepted := pool.accepted ++ [task] }.goto (.external k) (.submitReturn task true))
  -- the queue is full, looks full while a pop is under way, or a push runs out of memory
  | refuse {pool thread task} : pool.holder = some (thread, .submitPush task) →
      SubmitStep capacity pool (pool.goto thread (.submitUndo task))
  | undo {pool thread task} : pool.holder = some (thread, .submitUndo task) →
      SubmitStep capacity pool ({ pool with
        outstandingTasks := pool.outstandingTasks - 1 }.goto thread (.submitReturn task false))
  | grant {pool thread task} : pool.holder = some (thread, .submitReturn task true) →
      SubmitStep capacity pool
        { pool with holder := none, granted := pool.granted ++ [task] }
  | reject {pool thread task} : pool.holder = some (thread, .submitReturn task false) →
      SubmitStep capacity pool
        { pool with holder := none, refused := pool.refused ++ [task] }

/-! ## Start and stop -/

/-- `ThreadPool::start`, which stops and joins the workers again when a thread cannot be created. -/
inductive StartStep : ThreadPool n → ThreadPool n → Prop where
  | alreadyRunning {pool thread} : pool.CanCall thread → pool.state = .running →
      StartStep pool pool
  | enter {pool thread} : pool.CanCall thread → pool.state = .stopped →
      StartStep pool (pool.goto thread (.startWorker 0))
  | skip {pool thread} {k : Fin n} : pool.holder = some (thread, .startWorker k) →
      (pool.workers k).running = true → StartStep pool (pool.goto thread (.startWorker (k + 1)))
  | launch {pool thread} {k : Fin n} : pool.holder = some (thread, .startWorker k) →
      (pool.workers k).running = false →
      StartStep pool ((pool.setWorker k
        { phase := .popLocal, stopRequested := false, running := true }).goto thread
        (.startWorker (k + 1)))
  | fail {pool thread} {k : Fin n} : pool.holder = some (thread, .startWorker k) →
      (pool.workers k).running = false →
      StartStep pool ((pool.setWorker k { pool.workers k with stopRequested := false }).goto thread
        (.unwindRequest 0))
  | started {pool thread} : pool.holder = some (thread, .startWorker n) →
      StartStep pool { pool with state := .running, holder := none }
  | unwindRequest {pool thread} {k : Fin n} : pool.holder = some (thread, .unwindRequest k) →
      StartStep pool ((pool.setWorker k { pool.workers k with stopRequested := true }).goto thread
        (.unwindJoin k))
  | unwindSkip {pool thread} {k : Fin n} : pool.holder = some (thread, .unwindJoin k) →
      (pool.workers k).running = false →
      StartStep pool (pool.goto thread (.unwindRequest (k + 1)))
  | unwindJoin {pool thread} {k : Fin n} : pool.holder = some (thread, .unwindJoin k) →
      (pool.workers k).running = true → (pool.workers k).phase = .exited →
      StartStep pool ((pool.setWorker k { pool.workers k with
        phase := .absent, running := false }).goto thread (.unwindRequest (k + 1)))
  | unwound {pool thread} : pool.holder = some (thread, .unwindRequest n) →
      StartStep pool { pool with state := .stopped, holder := none }

/-- `ThreadPool::stop` called by external thread `k`. -/
inductive StopStep (k : ℕ) : ThreadPool n → ThreadPool n → Prop where
  | alreadyStopped {pool} : pool.CanCall (.external k) → pool.state = .stopped →
      StopStep k pool pool
  | await {pool} : pool.CanCall (.external k) → pool.state = .stopping →
      StopStep k pool (pool.setStopCall k (.awaitGeneration pool.stopGeneration))
  | resume {pool generation} : pool.holder = none →
      pool.stopCall k = .awaitGeneration generation → pool.stopGeneration ≠ generation →
      StopStep k pool (pool.setStopCall k .idle)
  | enter {pool} : pool.CanCall (.external k) → pool.state = .running →
      StopStep k pool ({ pool with state := .stopping }.setStopCall k (.requestStop 0))
  | requestStop {pool} {i : Fin n} : pool.stopCall k = .requestStop i →
      StopStep k pool ((pool.setWorker i { pool.workers i with stopRequested := true }).setStopCall k
        (.requestStop (i + 1)))
  | requested {pool} : pool.stopCall k = .requestStop n →
      StopStep k pool (pool.setStopCall k (.join 0))
  | joinSkip {pool} {i : Fin n} : pool.stopCall k = .join i → (pool.workers i).running = false →
      StopStep k pool (pool.setStopCall k (.join (i + 1)))
  | join {pool} {i : Fin n} : pool.stopCall k = .join i → (pool.workers i).running = true →
      (pool.workers i).phase = .exited →
      StopStep k pool ((pool.setWorker i { pool.workers i with
        phase := .absent, running := false }).setStopCall k (.join (i + 1)))
  | finish {pool} : pool.stopCall k = .join n → pool.holder = none →
      StopStep k pool ({ pool with
        state := .stopped
        stopGeneration := pool.stopGeneration + 1 }.setStopCall k .idle)

/-! ## The system -/

/-- One step of the pool, by any of its threads. -/
inductive Step (capacity : ℕ) : ThreadPool n → ThreadPool n → Prop where
  | run {pool pool'} (i : Fin n) : RunStep i pool pool' → Step capacity pool pool'
  | submit {pool pool'} : SubmitStep capacity pool pool' → Step capacity pool pool'
  | start {pool pool'} : StartStep pool pool' → Step capacity pool pool'
  | stop {pool pool'} (k : ℕ) : StopStep k pool pool' → Step capacity pool pool'

/-- A pool of `n` workers with a global queue of the given capacity. -/
def system (n capacity : ℕ) : Library.TransitionSystem (ThreadPool n) where
  initial pool := pool = create n
  step := Step capacity

end ThreadPool

end GiveMePi
