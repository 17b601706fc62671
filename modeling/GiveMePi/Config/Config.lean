import GiveMePi.ByteCodec
import GiveMePi.Library.ProgramLogic

/-! # Configurations

What a run is configured with, its defaults, and the checks that every configuration passes. -/

namespace GiveMePi

open Library

inductive ProgressFormat where
  | text
  | json
deriving DecidableEq, Repr

def ProgressFormat.toText : ProgressFormat → Bytes
  | text => ascii "text"
  | json => ascii "json"

structure Config where
  digits : UInt64 := 1000000
  /-- Zero stands for all hardware threads. -/
  threads : UInt32 := 0
  checkpointEnabled : Bool := true
  checkpointIntervalSeconds : UInt32 := 300
  checkpointDirectory : Bytes := ascii "checkpoints"
  checkpointQuarantineDirectory : Bytes := ascii "checkpoint-quarantine"
  hugePagesEnabled : Bool := true
  outOfCoreEnabled : Bool := true
  compression : Bytes := ascii "lz4"
  storageDirectory : Bytes := ascii "storage"
  storageMemoryBudgetBytes : UInt64 := 512 * 1024 * 1024
  storageTargetChunkSizeBytes : UInt64 := 64 * 1024 * 1024
  storageMaxConcurrentIo : UInt32 := 1
  progressEnabled : Bool := true
  progressIntervalMs : UInt32 := 500
  progressFormat : ProgressFormat := .text
  outputFile : Bytes := ascii "pi.txt"
  verificationEnabled : Bool := true
  bbpSampleCount : UInt32 := 8
  verificationManifestFile : Bytes := []
  resumeEnabled : Bool := true
deriving DecidableEq, Repr

namespace Config

def validationFailed (what : String) : Error :=
  .runtimeError ("Config validation failed: " ++ what)

/-- The checks in front of the compression's. -/
def checkRun (config : Config) : Except Error Unit := do
  throwIf (config.digits = 0) (validationFailed "digits must be greater than 0.")
  throwIf (config.threads > 1024) (validationFailed "threads value is too large.")
  throwIf (config.checkpointEnabled = true ∧ config.checkpointIntervalSeconds = 0)
    (validationFailed "checkpoint interval must be greater than 0.")
  throwIf ((config.checkpointEnabled = true ∨ config.resumeEnabled = true) ∧
      (config.checkpointDirectory = [] ∨ config.checkpointQuarantineDirectory = []))
    (validationFailed "checkpoint directories must not be empty.")
  throwIf (config.progressIntervalMs = 0)
    (validationFailed "progress interval must be greater than 0.")
  throwIf (config.outputFile = []) (validationFailed "output file is empty.")
  throwIf (config.bbpSampleCount = 0 ∨ config.bbpSampleCount > 32)
    (validationFailed "BBP samples must be between 1 and 32.")

/-- `if (config.compression.empty()) config.compression = "none";` -/
def nameCompression (config : Config) : Config :=
  { config with
    compression := if config.compression = [] then ascii "none" else config.compression }

def checkCompression (config : Config) : Except Error Unit :=
  throwIf (config.compression ≠ ascii "none" ∧ config.compression ≠ ascii "lz4")
    (.invalidArgument ("Config validation failed: unsupported storage compression: " ++
      String.ofList (config.compression.map fun byte => Char.ofNat byte.toNat)))

def checkStorage (config : Config) : Except Error Unit :=
  if config.outOfCoreEnabled = true then do
    throwIf (config.storageDirectory = []) (validationFailed "storage directory is empty.")
    throwIf (config.storageMemoryBudgetBytes = 0)
      (validationFailed "storage memory budget must be greater than 0.")
    throwIf (config.storageTargetChunkSizeBytes = 0 ∨
        config.storageTargetChunkSizeBytes > config.storageMemoryBudgetBytes)
      (validationFailed "storage chunk size must be between 1 and the memory budget.")
    throwIf (config.storageMaxConcurrentIo = 0)
      (validationFailed "storage max concurrent I/O must be greater than 0.")
  else pure ()

/-- The configuration is checked, and its compression named if it has no name. -/
def validateConfig : Action Config Unit := do
  checkRun (← get)
  modify nameCompression
  checkCompression (← get)
  checkStorage (← get)

/-- All checks pass. -/
structure IsAccepted (config : Config) : Prop where
  run : checkRun config = .ok ()
  compression : checkCompression config = .ok ()
  storage : checkStorage config = .ok ()

@[simp] theorem checkRun_nameCompression (config : Config) :
    checkRun config.nameCompression = checkRun config := rfl

@[simp] theorem checkStorage_nameCompression (config : Config) :
    checkStorage config.nameCompression = checkStorage config := rfl

@[simp] theorem nameCompression_nameCompression (config : Config) :
    config.nameCompression.nameCompression = config.nameCompression := by
  have hnone : ascii "none" ≠ [] := by decide
  by_cases h : config.compression = []
  · simp [nameCompression, h, hnone]
  · simp [nameCompression, h]

theorem validateConfig_eq_ok {config config' : Config} {u : Unit} :
    validateConfig config = .ok u config' ↔
      config' = config.nameCompression ∧ config'.IsAccepted := by
  simp only [validateConfig, Program.get_bind, Program.modify_bind, Program.bind_eq_ok,
    Action.liftM_eq, Action.ofExcept_eq_ok]
  constructor
  · rintro ⟨_, _, ⟨hrun, rfl⟩, _, _, ⟨hcompression, rfl⟩, hstorage, rfl⟩
    exact ⟨rfl, hrun, hcompression, hstorage⟩
  · rintro ⟨rfl, haccepted⟩
    exact ⟨(), config, ⟨haccepted.run, rfl⟩, (), config.nameCompression,
      ⟨haccepted.compression, rfl⟩, haccepted.storage, rfl⟩

/-- The defaults pass their checks. -/
theorem isAccepted_default : IsAccepted {} :=
  ⟨by decide, by decide, by decide⟩

end Config

end GiveMePi
