import GiveMePi.Bigint.GMPInteger
import GiveMePi.Binary.BinarySplitter
import GiveMePi.Binary.ClosedForm
import GiveMePi.Binary.LayoutPieces
import GiveMePi.Binary.ParallelCorrectness
import GiveMePi.Binary.SplitParallel
import GiveMePi.Binary.SplitRuns
import GiveMePi.ByteCodec
import GiveMePi.ByteCursor
import GiveMePi.Checkpoint.AtomicFileCommit
import GiveMePi.Checkpoint.BlockAcceptance
import GiveMePi.Checkpoint.BlockFormat
import GiveMePi.Checkpoint.CRC32C
import GiveMePi.Checkpoint.CheckpointBlockCodec
import GiveMePi.Checkpoint.CheckpointBlockValidator
import GiveMePi.Checkpoint.CheckpointFileInspector
import GiveMePi.Checkpoint.CheckpointFilenames
import GiveMePi.Checkpoint.CheckpointFrontierWriter
import GiveMePi.Checkpoint.CheckpointManifest
import GiveMePi.Checkpoint.CheckpointManifestValidator
import GiveMePi.Checkpoint.CheckpointQuarantine
import GiveMePi.Checkpoint.CheckpointResumePlanner
import GiveMePi.Checkpoint.CheckpointStore
import GiveMePi.Checkpoint.CheckpointTypes
import GiveMePi.Checkpoint.CheckpointValidation
import GiveMePi.Checkpoint.ChecksumBursts
import GiveMePi.Checkpoint.CommitSafety
import GiveMePi.Checkpoint.EntryAcceptance
import GiveMePi.Checkpoint.ForeignBlocks
import GiveMePi.Checkpoint.GMPSerialization
import GiveMePi.Checkpoint.ManifestAcceptance
import GiveMePi.Checkpoint.ManifestFormat
import GiveMePi.Checkpoint.ModularPQTVerifier
import GiveMePi.Checkpoint.PlanAdmissibility
import GiveMePi.Checkpoint.PlannerAccounting
import GiveMePi.Checkpoint.PlannerSoundness
import GiveMePi.Checkpoint.QuarantineMoves
import GiveMePi.Checkpoint.QuarantineSafety
import GiveMePi.Checkpoint.ResumePlan
import GiveMePi.Checkpoint.SmoothMoves
import GiveMePi.Checkpoint.VanishingResidues
import GiveMePi.Checkpoint.WriterProgress
import GiveMePi.Chudnovsky.CalculateParallel
import GiveMePi.Chudnovsky.CheckpointBlocks
import GiveMePi.Chudnovsky.CheckpointProgress
import GiveMePi.Chudnovsky.ChudnovskyCalculator
import GiveMePi.Chudnovsky.FixedPoint
import GiveMePi.Chudnovsky.PrecisionPolicy
import GiveMePi.Chudnovsky.ProgressLifecycle
import GiveMePi.Chudnovsky.TermCount
import GiveMePi.Error
import GiveMePi.FileSystem
import GiveMePi.Library.CrashSafety
import GiveMePi.Library.CyclicRedundancy
import GiveMePi.Library.ForkJoin
import GiveMePi.Library.OrderedMap
import GiveMePi.Library.ProgramLogic
import GiveMePi.Library.SeriesSplitting
import GiveMePi.Library.Tiling
import GiveMePi.Library.TransitionSystem
import GiveMePi.Library.WordCodec
import GiveMePi.Numeric
import GiveMePi.Progress.PlannedBlocks
import GiveMePi.Progress.ProgressTracker
import GiveMePi.Progress.RestoredProgress
import GiveMePi.Progress.ResumeProgress
import GiveMePi.Scheduler.BoundedFifo
import GiveMePi.Scheduler.DrainSafety
import GiveMePi.Scheduler.LockFreeQueue
import GiveMePi.Scheduler.PoolControl
import GiveMePi.Scheduler.QueueAlone
import GiveMePi.Scheduler.QueueDraining
import GiveMePi.Scheduler.QueueRefusals
import GiveMePi.Scheduler.QueueReturns
import GiveMePi.Scheduler.QueueSlots
import GiveMePi.Scheduler.QueueSteps
import GiveMePi.Scheduler.TaskHandles
import GiveMePi.Scheduler.TaskLedger
import GiveMePi.Scheduler.ThreadPool
import GiveMePi.Scheduler.WorkerCrew
import GiveMePi.Storage.AsyncChunkIO
import GiveMePi.Storage.AsyncLedger
import GiveMePi.Storage.AsyncProtocol
import GiveMePi.Storage.AsyncWakeups
import GiveMePi.Storage.BinaryNodeChunkAdapter
import GiveMePi.Storage.ChunkCodec
import GiveMePi.Storage.ChunkFormat
import GiveMePi.Storage.ChunkIndex
import GiveMePi.Storage.ChunkStore
import GiveMePi.Storage.ChunkTypes
import GiveMePi.Storage.CommitLedger
import GiveMePi.Storage.CompressionCodec
import GiveMePi.Storage.CorruptionDetection
import GiveMePi.Storage.IndexFormat
import GiveMePi.Storage.LoadedChunks
import GiveMePi.Storage.StorageClients
import GiveMePi.Storage.StorageInvariant
import GiveMePi.Storage.StorageManager
import GiveMePi.Storage.StorageMoves
import GiveMePi.Storage.StoragePlaces
import GiveMePi.Storage.StorageRecovery
import GiveMePi.Storage.StorageSteps
import GiveMePi.Storage.StoredFiles
import GiveMePi.Verification.VerificationFormat
import GiveMePi.Verification.VerificationManifest
import GiveMePi.Checkpoint.ModularExactness
import GiveMePi.Verification.DecimalHexDigit
import GiveMePi.Checkpoint.BlockBounds
import GiveMePi.Checkpoint.ManifestExactness
import GiveMePi.Binary.FrontierCommits
import GiveMePi.Checkpoint.WriterStructure
import GiveMePi.Chudnovsky.PublishableFrontiers
import GiveMePi.Checkpoint.SystemCalls
import GiveMePi.Checkpoint.AllOrNothing
import GiveMePi.Checkpoint.CommitTermination
import GiveMePi.Binary.SplitCall
import GiveMePi.Binary.StageExits
import GiveMePi.Library.Json
import GiveMePi.Progress.JsonProgressReporter
import GiveMePi.Progress.JsonRecords
import GiveMePi.Storage.ReliableManager
import GiveMePi.Storage.StorageMergeCoordinator
import GiveMePi.Storage.ResidentAccounting
import GiveMePi.Storage.UnspilledSplits
import GiveMePi.Library.WorkerPool
import GiveMePi.Storage.AsyncMerges
import GiveMePi.Storage.StoreOrders
import GiveMePi.Storage.SpillLoops
import GiveMePi.Storage.WritePools
import GiveMePi.Storage.LoadLoops
import GiveMePi.Storage.MergeAgreement
import GiveMePi.Library.BinaryMethod
import GiveMePi.Verification.BBPHexDigit
import GiveMePi.Verification.BBPSamplePolicy
import GiveMePi.Checkpoint.ChecksumPaths
import GiveMePi.Library.SecureHash
import GiveMePi.Verification.SHA256
import GiveMePi.Verification.SHA256Blocks
import GiveMePi.Verification.SHA256Streams
import GiveMePi.Progress.SharedTracker
import GiveMePi.Progress.TrackerRuns
import GiveMePi.Library.PrefixChoice
import GiveMePi.Storage.EvictionPlanning
import GiveMePi.CursorSpans
import GiveMePi.Storage.IndexParsing
import GiveMePi.Storage.NameOverruns
import GiveMePi.Storage.IndexHistories
import GiveMePi.Storage.IndexFilenames
import GiveMePi.Verification.CanonicalDecimal
import GiveMePi.Verification.FinalOutputInspector
import GiveMePi.Verification.KnownDigitsVerifier
import GiveMePi.Verification.SHA256Files
import GiveMePi.Verification.FinalVerification
import GiveMePi.Chudnovsky.PlanExactness
import GiveMePi.Checkpoint.TreeLevel
import GiveMePi.Storage.BlockFilenames
import GiveMePi.Library.Regions
import GiveMePi.Memory.Arena
import GiveMePi.Library.LinkedMemory
import GiveMePi.Memory.MemoryPool
import GiveMePi.Config.Config
import GiveMePi.Config.CommandLine
import GiveMePi.Config.OptionOverrides
import GiveMePi.Memory.Buffer
import GiveMePi.Library.SortedMultimap
import GiveMePi.LittleEndian
import GiveMePi.Storage.VersionedChunkIndex
import GiveMePi.Storage.VersionedIndexFormat
import GiveMePi.Storage.VersionedIndexRoundTrip
import GiveMePi.Storage.VersionedIndexFiles
import GiveMePi.Library.TextSearch
import GiveMePi.StringConversion
import GiveMePi.Storage.StoragePolicy
import GiveMePi.Storage.StoragePolicyJson
import GiveMePi.Storage.StoragePolicyYaml
import GiveMePi.Library.BoundedTotals
import GiveMePi.Storage.MemoryBudget
import GiveMePi.Checkpoint.PublishedFrontiers
import GiveMePi.Checkpoint.WriterCrashes
import GiveMePi.Checkpoint.PlanTiling
import GiveMePi.Checkpoint.PublishedPlans
import GiveMePi.Main
import GiveMePi.ResumablePlans
import GiveMePi.Chudnovsky.HeldCalculations
import GiveMePi.InterruptedRuns
import GiveMePi.Checkpoint.ReliableCommits
import GiveMePi.Checkpoint.ReturningCommits
import GiveMePi.Chudnovsky.ReturningCalculations
import GiveMePi.CompletedRuns
import GiveMePi.Verification.DecimalFractions
import GiveMePi.Verification.FinalVerifier
import GiveMePi.Verification.VerificationAgreement
import GiveMePi.Verification.PublishableRuns
import GiveMePi.Chudnovsky.KnownDigits
import GiveMePi.Verification.VerificationManifestStore
import GiveMePi.Publication
import GiveMePi.PublishedRuns
