import GiveMePi.Binary.SplitParallel
import GiveMePi.Library.TransitionSystem
import GiveMePi.Scheduler.ThreadPool

/-! # A call of `splitParallel`, step by step

The caller hands out the jobs of a stage in a loop, waits for the accepted ones and goes on to the
next stage. Workers run accepted tasks at any time, also when the caller has left the call. What a
task refers to belongs to the call. -/

namespace GiveMePi.Binary

variable {σ : Type}

/-- A task the executor accepted in the call: its job, its state and the exception it holds. -/
structure SplitTask (σ : Type) where
  job : StageJob σ
  state : TaskState
  exception : Option Error

/-- Where the caller is. -/
inductive SplitControl where
  /-- Before the range is computed on the caller alone. -/
  | sequential
  /-- In the loop over the jobs of a stage, with the next job and the handles so far. -/
  | looping (next : ℕ) (handles : List TaskId)
  /-- Computing a job itself. -/
  | computing (next : ℕ) (handles : List TaskId)
  /-- In the first loop of `waitForStage`, with the handles it has not waited for. -/
  | waiting (handles rest : List TaskId)
  /-- In the second loop of `waitForStage`. -/
  | rethrowing (rest : List TaskId)
  /-- Before `completeStage`, with the nodes of the stage. -/
  | staged (nodes : List BinaryNode)
  /-- At the head of the loop over the merge levels. -/
  | merging (nodes : List BinaryNode)
  | left (outcome : Except Error BinaryNode)

/-- A call: where the caller is, the stage it is in and the tasks accepted so far. A stage has its
jobs, the slots they fill, the node that goes on without a partner, the levels of its results and
whether it computes any. -/
structure SplitCall (σ : Type) where
  control : SplitControl
  jobs : List (StageJob σ)
  stageParallel : Bool
  slots : List (Option BinaryNode)
  remainder : List BinaryNode
  treeLevels : List UInt32
  mergeLevel : UInt32
  computedNodes : Bool
  tasks : List (SplitTask σ)
  world : σ

/-- What happens next, where there is a choice: how the executor answers, whether a computation is
cut short by an exception, and what the workers do. -/
inductive SplitEvent where
  | accept
  | reject
  | submitThrows (exception : Error)
  | callerRuns (raised : Option Error)
  | workerStarts (task : TaskId)
  | workerRuns (task : TaskId) (raised : Option Error)
  | callerGoesOn

/-- What a computation comes to that an exception may cut short. -/
def StageJob.outcome (job : StageJob σ) : Option Error → Except Error BinaryNode
  | none => job.compute
  | some raised => .error raised

section Split

variable (executor : Executor) (observer : BinarySplitObserver σ)
  (mergeCoordinator : BinaryMergeCoordinator σ)
  (checkpointCoordinator : BinaryCheckpointCoordinator σ)

/-- The checks at the head of `splitParallel`. -/
def checkSplit (start stop : UInt64) (options : ParallelSplitOptions)
    (initialFrontier : List BinaryFrontierNode) : Except Error (List BinaryFrontierNode) := do
  validateRange start stop
  throwIf (options.sequentialCutoff = 0)
    (.invalidArgument "Binary Splitting sequential cutoff must be greater than zero")
  throwIf (options.tasksPerWorker = 0)
    (.invalidArgument "Binary Splitting tasks per worker must be greater than zero")
  sortAndValidateFrontier initialFrontier start stop

/-- A call on its way into a stage. -/
def SplitCall.idle (control : SplitControl) (world : σ) : SplitCall σ where
  control := control
  jobs := []
  stageParallel := false
  slots := []
  remainder := []
  treeLevels := []
  mergeLevel := 0
  computedNodes := false
  tasks := []
  world := world

/-- The call in front of its first loop, or of the computation on the caller. -/
def enterSplit (start stop : UInt64) (options : ParallelSplitOptions)
    (initialFrontier : List BinaryFrontierNode) (world : σ) : SplitCall σ :=
  match checkSplit start stop options initialFrontier with
  | .error e => .idle (.left (.error e)) world
  | .ok frontier =>
      let termCount := stop - start
      let parallelExecution := acceptsStagedWork executor
      if frontier.isEmpty ∧ (termCount ≤ options.sequentialCutoff ∨ parallelExecution = false ∨
          boundedBlockCount termCount options.sequentialCutoff executor.workerCount
            options.tasksPerWorker < 2) then
        .idle .sequential world
      else
        let layout := Layout.appendFrontier executor options parallelExecution stop frontier start
          Layout.empty
        { control := .looping 0 []
          jobs := layout.pendingBlocks.map (blockJob observer)
          stageParallel := parallelExecution
          slots := layout.slots
          remainder := []
          treeLevels := layout.treeLevels
          mergeLevel := 0
          computedNodes := !layout.pendingBlocks.isEmpty
          tasks := []
          world := world }

/-- The computation on the caller alone. -/
def splitOnCaller (start stop : UInt64) : Action σ BinaryNode := do
  let result ← splitSequential start stop
  modify (observer.termsCompleted (stop - start))
  checkpointCoordinator.commitFrontier [result] [0]
  pure result

namespace SplitCall

def leave (call : SplitCall σ) (outcome : Except Error BinaryNode) : SplitCall σ :=
  { call with control := .left outcome }

/-- A computation of the caller or a worker fills its slot. -/
def fill (call : SplitCall σ) (job : StageJob σ) (node : BinaryNode) : SplitCall σ :=
  { call with
    slots := call.slots.set job.slot (some node)
    world := job.completed call.world }

def setTask (call : SplitCall σ) (task : TaskId) (state : SplitTask σ) : SplitCall σ :=
  { call with tasks := call.tasks.set task state }

/-- Whether every task the executor accepted is terminal. -/
def AllTerminal (call : SplitCall σ) : Prop :=
  ∀ task ∈ call.tasks, task.state.isReady

/-- `executor.submit` accepts the next job. -/
def accept (call : SplitCall σ) : Option (SplitCall σ) :=
  match call.control with
  | .looping next handles =>
      if call.stageParallel then
        call.jobs[next]?.map fun job =>
          { call with
            control := .looping (next + 1) (handles ++ [call.tasks.length])
            tasks := call.tasks ++ [⟨job, .pending, none⟩] }
      else none
  | _ => none

/-- The next job is not accepted, or not submitted. -/
def reject (call : SplitCall σ) : Option (SplitCall σ) :=
  match call.control with
  | .looping next handles =>
      if next < call.jobs.length then some { call with control := .computing next handles }
      else none
  | _ => none

def submitThrows (call : SplitCall σ) (exception : Error) : Option (SplitCall σ) :=
  match call.control with
  | .looping next _ =>
      if call.stageParallel ∧ next < call.jobs.length then some (call.leave (.error exception))
      else none
  | _ => none

/-- The caller computes the job itself; what that throws leaves the call. -/
def callerRuns (call : SplitCall σ) (raised : Option Error) : Option (SplitCall σ) :=
  match call.control with
  | .computing next handles =>
      call.jobs[next]?.map fun job =>
        match job.outcome raised with
        | .ok node => { call.fill job node with control := .looping (next + 1) handles }
        | .error e => call.leave (.error e)
  | _ => none

def workerStarts (call : SplitCall σ) (task : TaskId) : Option (SplitCall σ) :=
  match call.tasks[task]? with
  | some state =>
      if state.state = .pending then some (call.setTask task { state with state := .running })
      else none
  | none => none

/-- What a task throws is kept for its handle. -/
def workerRuns (call : SplitCall σ) (task : TaskId) (raised : Option Error) :
    Option (SplitCall σ) :=
  match call.tasks[task]? with
  | some state =>
      if state.state = .running then
        match state.job.outcome raised with
        | .ok node =>
            some ((call.fill state.job node).setTask task { state with state := .completed })
        | .error e =>
            some (call.setTask task { state with state := .failed, exception := some e })
      else none
  | none => none

/-- The state of a task, terminal where there is none. -/
def isReady (call : SplitCall σ) (task : TaskId) : Bool :=
  call.tasks[task]?.all fun state => state.state.isReady

/-- The first merge of a level: the nodes are made resident and paired. -/
def beginMerge (call : SplitCall σ) (termCount : UInt64) (parallelExecution : Bool)
    (nodes : List BinaryNode) : SplitCall σ :=
  match mergeCoordinator.prepareMergeNodes nodes call.mergeLevel call.world with
  | .error e world => { call with control := .left (.error e), world := world }
  | .ok nodes world =>
      let jobs := mergeJobs nodes
      { call with
        control := .looping 0 []
        jobs := jobs
        stageParallel := parallelExecution && decide (jobs.length > 1)
        slots := List.replicate jobs.length none
        remainder := nodes.drop (2 * (nodes.length / 2))
        treeLevels := nextTreeLevels termCount call.treeLevels
        mergeLevel := call.mergeLevel + 1
        computedNodes := true
        world := observer.mergeLevelStarted call.mergeLevel world }

/-- The steps of the caller without a choice. -/
def callerGoesOn (start stop : UInt64) (call : SplitCall σ) : Option (SplitCall σ) :=
  match call.control with
  | .sequential =>
      match splitOnCaller observer checkpointCoordinator start stop call.world with
      | .ok node world => some { call with control := .left (.ok node), world := world }
      | .error e world => some { call with control := .left (.error e), world := world }
  | .looping next handles =>
      if next = call.jobs.length then some { call with control := .waiting handles handles }
      else none
  | .computing _ _ => none
  | .waiting handles (task :: rest) =>
      if call.isReady task then some { call with control := .waiting handles rest } else none
  | .waiting handles [] => some { call with control := .rethrowing handles }
  | .rethrowing (task :: rest) =>
      match call.tasks[task]?.bind SplitTask.exception with
      | some e => some (call.leave (.error e))
      | none => some { call with control := .rethrowing rest }
  | .rethrowing [] =>
      match slotValues call.slots with
      | .error e => some (call.leave (.error e))
      | .ok nodes => some { call with control := .staged (nodes ++ call.remainder) }
  | .staged nodes =>
      match completeStage mergeCoordinator checkpointCoordinator nodes call.treeLevels
          call.mergeLevel call.computedNodes call.world with
      | .error e world => some { call with control := .left (.error e), world := world }
      | .ok nodes world => some { call with control := .merging nodes, world := world }
  | .merging [] => some (call.leave (.error (.logicError "no node to merge")))
  | .merging [node] => some (call.leave (.ok node))
  | .merging nodes =>
      some (call.beginMerge observer mergeCoordinator (stop - start) (acceptsStagedWork executor)
        nodes)
  | .left _ => none

def step (start stop : UInt64) (call : SplitCall σ) : SplitEvent → Option (SplitCall σ)
  | .accept => call.accept
  | .reject => call.reject
  | .submitThrows exception => call.submitThrows exception
  | .callerRuns raised => call.callerRuns raised
  | .workerStarts task => call.workerStarts task
  | .workerRuns task raised => call.workerRuns task raised
  | .callerGoesOn =>
      call.callerGoesOn executor observer mergeCoordinator checkpointCoordinator start stop

/-- Control has left the call only when every accepted task is terminal. -/
def LeavesSafely (call : SplitCall σ) : Prop :=
  ∀ outcome, call.control = .left outcome → call.AllTerminal

/-- An exception leaves the loop over the jobs of a stage. -/
def LeavesLoop (call : SplitCall σ) : SplitEvent → Prop
  | .submitThrows _ => True
  | .callerRuns raised =>
      ∃ next handles job e, call.control = .computing next handles ∧
        call.jobs[next]? = some job ∧ job.outcome raised = .error e
  | _ => False

end SplitCall

end Split

end GiveMePi.Binary
