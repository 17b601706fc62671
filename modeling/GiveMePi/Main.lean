import GiveMePi.Checkpoint.PlanAdmissibility
import GiveMePi.Chudnovsky.CalculateParallel
import GiveMePi.Config.Config

/-! # The program

What `main` makes of a configuration: it resumes what is on disk, follows the progress, and
calculates the digits while the writer keeps the frontiers. The reports of the progress are left
out. -/

namespace GiveMePi.Main

open Binary (BinaryMergeCoordinator Executor ParallelSplitOptions)
open Checkpoint (CheckpointFrontierWriter CheckpointResumePlan CheckpointResumePlanner.create
  ComputationIdentity)
open Chudnovsky (Calculation PiCalculationResult PrecisionPlan calculateParallel frontierOf)
open Chudnovsky.PrecisionPolicy (defaultGuardDigits)
open Library (Schedule)
open Progress (ProgressTracker ResumeProgressRestorer.restore planCheckpointBlocks)

variable {τ : Type}

def splitOptions : ParallelSplitOptions := ⟨32, 4⟩

def workerCount (config : Config) (hardwareConcurrency : UInt64) : UInt64 :=
  if config.threads = 0 then max 1 hardwareConcurrency else config.threads.toUInt64

/-- The plan of what is on disk, or the one that calculates everything. -/
def resumePlan (config : Config) (identity : ComputationIdentity) :
    Action World CheckpointResumePlan :=
  if config.resumeEnabled = true then
    CheckpointResumePlanner.create config.checkpointDirectory config.checkpointQuarantineDirectory
      identity
  else pure ⟨[], [⟨0, identity.termCount⟩], [], [], []⟩

/-- The tracker, with the progress of the accepted blocks. -/
def makeTracker (config : Config) (precision : PrecisionPlan) (plan : CheckpointResumePlan)
    (workers : UInt64) : Except Error ProgressTracker := do
  let totalCheckpointBlocks ← planCheckpointBlocks plan splitOptions workers
    config.checkpointEnabled
  let tracker ← ProgressTracker.create
    ⟨precision.requestedDigits, precision.termCount, totalCheckpointBlocks⟩
  if config.resumeEnabled = true then do
    let (entered, tracker) := tracker.transitionTo .validatingCheckpoints
    let (restored, tracker) := ResumeProgressRestorer.restore plan tracker
    throwIf (entered = false ∨ restored = false)
      (.runtimeError "Validated checkpoint progress could not be restored")
    pure tracker
  else pure tracker

/-- The writer of checkpoints. Where they are disabled, one stands here that nothing calls. -/
def makeWriter (config : Config) (identity : ComputationIdentity) (plan : CheckpointResumePlan) :
    Except Error CheckpointFrontierWriter :=
  if config.checkpointEnabled = true then
    CheckpointFrontierWriter.create config.checkpointDirectory identity
      config.checkpointIntervalSeconds.toNat
      (plan.acceptedBlocks.map fun checkpoint => checkpoint.manifestEntry)
  else pure (.fresh config.checkpointDirectory identity 0 [])

/-- The scheduler, started on the thread that is none of its workers. -/
def scheduler (workers : UInt64) (schedule : ℕ → (jobs : ℕ) → Schedule jobs) : Executor where
  running := true
  workerCount := workers
  ownsCurrentWorker := false
  schedule := schedule

/-- A calculation on the world, with a writer and the storage. -/
def onCalculation {α : Type} (writer : CheckpointFrontierWriter) (storage : τ)
    (action : Action (Calculation τ) α) : Action World α := fun world =>
  match action ⟨⟨world, writer⟩, storage, false, []⟩ with
  | .ok a calculation => .ok a calculation.session.world
  | .error e calculation => .error e calculation.session.world

/-- What `main` does from the precision to the result of the calculation. -/
def calculate (config : Config) (hardwareConcurrency : UInt64)
    (schedule : ℕ → (jobs : ℕ) → Schedule jobs) (mergeCoordinator : BinaryMergeCoordinator τ)
    (storage : τ) : Action World PiCalculationResult := do
  let precision ← Chudnovsky.PrecisionPolicy.create config.digits defaultGuardDigits
  let identity ← ComputationIdentity.fromPrecisionPlan precision
  let workers := workerCount config hardwareConcurrency
  let plan ← resumePlan config identity
  let tracker ← makeTracker config precision plan workers
  modify fun world => { world with tracker := some tracker }
  let writer ← makeWriter config identity plan
  onCalculation writer storage
    (calculateParallel ⟨config.digits, defaultGuardDigits⟩ true (scheduler workers schedule)
      splitOptions (if config.outOfCoreEnabled = true then mergeCoordinator else .absent)
      (frontierOf plan.acceptedBlocks) config.checkpointEnabled)

end GiveMePi.Main
