import GiveMePi.Library.TransitionSystem
import GiveMePi.Progress.JsonProgressReporter

/-! # The progress tracker between threads

A step is one atomic access of one thread, or one section under the mutex of the metadata, with what
the thread computes from it. The threads take their steps in any order, and a monotone clock goes on
between them. -/

namespace GiveMePi.Progress

/-- The atomic counters that are only stored and loaded. -/
inductive Gauge where
  | activeTasks
  | queuedTasks
  | memoryBytes
  | storageResidentBytes
  | storageStoredBytes
  | storageChunkCount
  | storageQueuedWrites
  | storageActiveWrites
  | storageCompletedWrites
  | storageFailedWrites
  | storageQueuedReads
  | storageActiveReads
  | storageCompletedReads
  | storageFailedReads
deriving DecidableEq, Repr

/-- The order in which a snapshot loads them. -/
def Gauge.all : List Gauge :=
  [.activeTasks, .queuedTasks, .memoryBytes, .storageResidentBytes, .storageStoredBytes,
    .storageChunkCount, .storageQueuedWrites, .storageActiveWrites, .storageCompletedWrites,
    .storageFailedWrites, .storageQueuedReads, .storageActiveReads, .storageCompletedReads,
    .storageFailedReads]

namespace ProgressSnapshotData

def setGauge (data : ProgressSnapshotData) (value : UInt64) : Gauge → ProgressSnapshotData
  | .activeTasks => { data with activeTasks := value }
  | .queuedTasks => { data with queuedTasks := value }
  | .memoryBytes => { data with memoryBytes := value }
  | .storageResidentBytes => { data with storageResidentBytes := value }
  | .storageStoredBytes => { data with storageStoredBytes := value }
  | .storageChunkCount => { data with storageChunkCount := value }
  | .storageQueuedWrites => { data with storageQueuedWrites := value }
  | .storageActiveWrites => { data with storageActiveWrites := value }
  | .storageCompletedWrites => { data with storageCompletedWrites := value }
  | .storageFailedWrites => { data with storageFailedWrites := value }
  | .storageQueuedReads => { data with storageQueuedReads := value }
  | .storageActiveReads => { data with storageActiveReads := value }
  | .storageCompletedReads => { data with storageCompletedReads := value }
  | .storageFailedReads => { data with storageFailedReads := value }

end ProgressSnapshotData

/-- The constructor of a snapshot. -/
def ProgressSnapshot.create (data : ProgressSnapshotData) : Except Error ProgressSnapshot :=
  match h : data.check with
  | .ok () => .ok ⟨data, h⟩
  | .error error => .error error

/-! ## The shared state -/

/-- All members of a tracker; a time is in nanoseconds of the steady clock. -/
structure SharedTracker extends ProgressTracker where
  startedAt : ℤ
  gauges : Gauge → UInt64
  currentMergeLevel : Option UInt32
  failureDetail : Option Bytes
  finishedAt : Option ℤ

namespace SharedTracker

/-- The constructor, at a time of the clock. -/
def create (plan : ProgressWorkPlan) (now : ℤ) : Except Error SharedTracker := do
  let tracker ← ProgressTracker.create plan
  pure { tracker with
    startedAt := now
    gauges := fun _ => 0
    currentMergeLevel := none
    failureDetail := none
    finishedAt := none }

/-! The sections under the mutex. A range is checked before the mutex is taken, against the plan,
which nothing changes. -/

def transitionTo (next : ProgressPhase) (now : ℤ) (tracker : SharedTracker) : Bool × SharedTracker :=
  if isValidTransition tracker.phase next then
    (true,
      { tracker with
        phase := next
        finishedAt :=
          if isTerminal next ∧ tracker.finishedAt.isNone then some now else tracker.finishedAt })
  else (false, tracker)

/-- A section that changes no other member than the coordinating thread's model has. -/
def lift (body : ProgressTracker → Bool × ProgressTracker) (tracker : SharedTracker) :
    Bool × SharedTracker :=
  ((body tracker.toProgressTracker).1,
    { tracker with toProgressTracker := (body tracker.toProgressTracker).2 })

def publishCheckpointProgress (update : CheckpointProgressUpdate) :
    SharedTracker → Bool × SharedTracker :=
  lift (ProgressTracker.publishCheckpointProgress update)

def recordValidatedCheckpoint (checkpoint : CheckpointRangeProgress) :
    SharedTracker → Bool × SharedTracker :=
  lift (ProgressTracker.recordValidatedCheckpoint checkpoint)

def setCurrentMergeLevel (level : UInt32) (tracker : SharedTracker) : Bool × SharedTracker :=
  if isTerminal tracker.phase then (false, tracker)
  else (true, { tracker with currentMergeLevel := some level })

def clearCurrentMergeLevel (tracker : SharedTracker) : Bool × SharedTracker :=
  if isTerminal tracker.phase then (false, tracker)
  else (true, { tracker with currentMergeLevel := none })

def markFailed (detail : Bytes) (now : ℤ) (tracker : SharedTracker) : Bool × SharedTracker :=
  if isTerminal tracker.phase then (false, tracker)
  else
    (true, { tracker with failureDetail := some detail, phase := .failed, finishedAt := some now })

/-- What a snapshot copies under the mutex; the atomic counters are loaded after it. -/
def collect (now : ℤ) (tracker : SharedTracker) : ProgressSnapshotData where
  phase := tracker.phase
  targetDigits := tracker.plan.targetDigits
  totalTerms := tracker.plan.totalTerms
  completedTerms := 0
  totalCheckpointBlocks := tracker.plan.totalCheckpointBlocks
  completedCheckpointBlocks := tracker.completedCheckpointBlocks
  durableCheckpointBlocks := tracker.durableCheckpointBlocks
  currentMergeLevel := tracker.currentMergeLevel
  activeTasks := 0
  queuedTasks := 0
  elapsed := tracker.finishedAt.getD now - tracker.startedAt
  memoryBytes := 0
  checkpointBytes := tracker.checkpointBytes
  storageResidentBytes := 0
  storageStoredBytes := 0
  storageChunkCount := 0
  storageQueuedWrites := 0
  storageActiveWrites := 0
  storageCompletedWrites := 0
  storageFailedWrites := 0
  storageQueuedReads := 0
  storageActiveReads := 0
  storageCompletedReads := 0
  storageFailedReads := 0
  lastValidatedCheckpoint := tracker.lastValidatedCheckpoint
  lastCommittedCheckpoint := tracker.lastCommittedCheckpoint
  failureDetail := tracker.failureDetail

end SharedTracker

/-! ## Threads -/

/-- The operations that are one section under the mutex. -/
inductive TrackerSection where
  | transitionTo (next : ProgressPhase)
  | publishCheckpointProgress (update : CheckpointProgressUpdate)
  | setCurrentMergeLevel (level : UInt32)
  | clearCurrentMergeLevel
  | recordValidatedCheckpoint (checkpoint : CheckpointRangeProgress)
  | markFailed (detail : Bytes)

def TrackerSection.perform (now : ℤ) : TrackerSection → SharedTracker → Bool × SharedTracker
  | transitionTo next => SharedTracker.transitionTo next now
  | publishCheckpointProgress update => SharedTracker.publishCheckpointProgress update
  | setCurrentMergeLevel level => SharedTracker.setCurrentMergeLevel level
  | clearCurrentMergeLevel => SharedTracker.clearCurrentMergeLevel
  | recordValidatedCheckpoint checkpoint => SharedTracker.recordValidatedCheckpoint checkpoint
  | markFailed detail => SharedTracker.markFailed detail now

/-- What a thread asks of the tracker. -/
inductive TrackerOperation where
  | locked (body : TrackerSection)
  | addCompletedTerms (count : UInt64)
  | setTaskCounts (activeTasks queuedTasks : UInt64)
  | setMemoryBytes (bytes : UInt64)
  | setStorageProgress (residentBytes storedBytes chunkCount : UInt64)
  | setStorageIoProgress (queuedWrites activeWrites completedWrites failedWrites queuedReads
      activeReads completedReads failedReads : UInt64)
  | snapshot

/-- The next access of a thread, with its local variables. -/
inductive TrackerPhase where
  | idle
  | locked (body : TrackerSection)
  /-- `isRunning()` of `addCompletedTerms` -/
  | addCheck (count : UInt64)
  /-- `value.load()` -/
  | addLoad (count : UInt64)
  /-- The condition of the loop and `value.compare_exchange_weak` -/
  | addExchange (count current : UInt64)
  /-- `isRunning()` before the stores -/
  | storeCheck (stores : List (Gauge × UInt64))
  | store (stores : List (Gauge × UInt64))
  /-- The section under the mutex of `snapshot` -/
  | snapshotLock
  /-- `completedTerms_.load()` -/
  | snapshotTerms (data : ProgressSnapshotData)
  /-- The loads that are left, and the construction after them. -/
  | snapshotGauges (data : ProgressSnapshotData) (gauges : List Gauge)

def TrackerOperation.start : TrackerOperation → TrackerPhase
  | locked body => .locked body
  | addCompletedTerms count => .addCheck count
  | setTaskCounts activeTasks queuedTasks =>
      .storeCheck [(.activeTasks, activeTasks), (.queuedTasks, queuedTasks)]
  | setMemoryBytes bytes => .storeCheck [(.memoryBytes, bytes)]
  | setStorageProgress residentBytes storedBytes chunkCount =>
      .storeCheck [(.storageResidentBytes, residentBytes), (.storageStoredBytes, storedBytes),
        (.storageChunkCount, chunkCount)]
  | setStorageIoProgress queuedWrites activeWrites completedWrites failedWrites queuedReads
      activeReads completedReads failedReads =>
      .storeCheck [(.storageQueuedWrites, queuedWrites), (.storageActiveWrites, activeWrites),
        (.storageCompletedWrites, completedWrites), (.storageFailedWrites, failedWrites),
        (.storageQueuedReads, queuedReads), (.storageActiveReads, activeReads),
        (.storageCompletedReads, completedReads), (.storageFailedReads, failedReads)]
  | snapshot => .snapshotLock

/-- What the calls return. -/
inductive TrackerEvent (ι : Type) where
  | returned (i : ι) (result : Bool)
  /-- A setter returns. -/
  | stored (i : ι)
  | snapshotted (i : ι) (result : Except Error ProgressSnapshot)

/-- A tracker, the threads that use it, the clock, and what has been returned so far. -/
structure TrackerWorld (ι : Type) where
  tracker : SharedTracker
  threads : ι → TrackerPhase
  now : ℤ
  history : List (TrackerEvent ι)

namespace TrackerWorld

variable {ι : Type} [DecidableEq ι]

/-- Thread `i` leaves the tracker as it is given and goes on; `events` are seen. -/
def advance (world : TrackerWorld ι) (i : ι) (phase : TrackerPhase) (tracker : SharedTracker)
    (events : List (TrackerEvent ι)) : TrackerWorld ι where
  tracker := tracker
  threads := Function.update world.threads i phase
  now := world.now
  history := world.history ++ events

/-- The operations of thread `i`, access by access. -/
inductive ThreadStep (i : ι) : TrackerWorld ι → TrackerWorld ι → Prop where
  | call {world} (operation : TrackerOperation) : world.threads i = .idle →
      ThreadStep i world (world.advance i operation.start world.tracker [])
  | locked {world body} : world.threads i = .locked body →
      ThreadStep i world (world.advance i .idle (body.perform world.now world.tracker).2
        [.returned i (body.perform world.now world.tracker).1])
  | addStopped {world count} : world.threads i = .addCheck count → ¬ world.tracker.isRunning →
      ThreadStep i world (world.advance i .idle world.tracker [.returned i false])
  | addRunning {world count} : world.threads i = .addCheck count → world.tracker.isRunning →
      ThreadStep i world (world.advance i (.addLoad count) world.tracker [])
  | addLoad {world count} : world.threads i = .addLoad count →
      ThreadStep i world
        (world.advance i (.addExchange count world.tracker.completedTerms) world.tracker [])
  | addRefused {world count current} : world.threads i = .addExchange count current →
      ¬ count ≤ world.tracker.plan.totalTerms - current →
      ThreadStep i world (world.advance i .idle world.tracker [.returned i false])
  | addExchanged {world count current} : world.threads i = .addExchange count current →
      count ≤ world.tracker.plan.totalTerms - current → world.tracker.completedTerms = current →
      ThreadStep i world
        (world.advance i .idle { world.tracker with completedTerms := current + count }
          [.returned i true])
  -- The weak exchange may also fail on the expected value; it loads the value in either case.
  | addRetry {world count current} : world.threads i = .addExchange count current →
      count ≤ world.tracker.plan.totalTerms - current →
      ThreadStep i world
        (world.advance i (.addExchange count world.tracker.completedTerms) world.tracker [])
  | storeStopped {world stores} : world.threads i = .storeCheck stores →
      ¬ world.tracker.isRunning →
      ThreadStep i world (world.advance i .idle world.tracker [.stored i])
  | storeRunning {world stores} : world.threads i = .storeCheck stores → world.tracker.isRunning →
      ThreadStep i world (world.advance i (.store stores) world.tracker [])
  | store {world gauge value stores} : world.threads i = .store ((gauge, value) :: stores) →
      ThreadStep i world
        (world.advance i (.store stores)
          { world.tracker with gauges := Function.update world.tracker.gauges gauge value } [])
  | storeDone {world} : world.threads i = .store [] →
      ThreadStep i world (world.advance i .idle world.tracker [.stored i])
  | snapshotLock {world} : world.threads i = .snapshotLock →
      ThreadStep i world
        (world.advance i (.snapshotTerms (world.tracker.collect world.now)) world.tracker [])
  | snapshotTerms {world data} : world.threads i = .snapshotTerms data →
      ThreadStep i world
        (world.advance i
          (.snapshotGauges { data with completedTerms := world.tracker.completedTerms } Gauge.all)
          world.tracker [])
  | snapshotGauge {world data gauge gauges} :
      world.threads i = .snapshotGauges data (gauge :: gauges) →
      ThreadStep i world
        (world.advance i
          (.snapshotGauges (data.setGauge (world.tracker.gauges gauge) gauge) gauges)
          world.tracker [])
  | snapshotBuild {world data} : world.threads i = .snapshotGauges data [] →
      ThreadStep i world
        (world.advance i .idle world.tracker [.snapshotted i (ProgressSnapshot.create data)])

/-- An access of a thread, or the clock goes on. -/
inductive Step : TrackerWorld ι → TrackerWorld ι → Prop where
  | thread {world next} (i : ι) : ThreadStep i world next → Step world next
  | tick {world : TrackerWorld ι} (now : ℤ) : world.now ≤ now → Step world { world with now }

/-- A tracker has just been constructed, and no thread uses it. -/
structure IsInitial (world : TrackerWorld ι) : Prop where
  created : ∃ plan, SharedTracker.create plan world.now = .ok world.tracker
  idle : ∀ i, world.threads i = .idle
  history : world.history = []

def system (ι : Type) [DecidableEq ι] : Library.TransitionSystem (TrackerWorld ι) where
  initial := IsInitial
  step := Step

end TrackerWorld

end GiveMePi.Progress
