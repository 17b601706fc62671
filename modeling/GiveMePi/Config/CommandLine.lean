import GiveMePi.Config.Config

/-! # Command lines

Arguments are read from left to right, and each of them overrides what stands in front of it. -/

namespace GiveMePi

open Library

/-- A malformed command line, with the text of the exception. -/
structure CommandLineUsageError where
  what : Bytes
deriving DecidableEq, Repr

/-- What the command line overrides. -/
structure CommandLineOptions where
  helpRequested : Bool := false
  digits : Option UInt64 := none
  threads : Option UInt32 := none
  outputFile : Option Bytes := none
  checkpointEnabled : Option Bool := none
  checkpointIntervalSeconds : Option UInt32 := none
  checkpointDirectory : Option Bytes := none
  checkpointQuarantineDirectory : Option Bytes := none
  resumeEnabled : Option Bool := none
  progressEnabled : Option Bool := none
  progressIntervalMs : Option UInt32 := none
  progressFormat : Option ProgressFormat := none
  storageDirectory : Option Bytes := none
  storageMemoryBudgetBytes : Option UInt64 := none
  storageTargetChunkSizeBytes : Option UInt64 := none
  storageMaxConcurrentIo : Option UInt32 := none
  verificationEnabled : Option Bool := none
  bbpSampleCount : Option UInt32 := none
  verificationManifestFile : Option Bytes := none
deriving DecidableEq, Repr

namespace CommandLine

/-! ## Values -/

/-- `std::from_chars` in base ten: the number of the leading digits and the text behind them, or an
error if there are none or the number exceeds the limit. -/
def fromChars (limit : ℕ) (text : Bytes) : Option (ℕ × Bytes) :=
  let digits := text.takeWhile fun byte => 48 ≤ byte && byte ≤ 57
  let number := digits.foldl (fun number digit => 10 * number + (digit.toNat - 48)) 0
  if digits = [] ∨ limit < number then none else some (number, text.drop digits.length)

def throwInvalidValue {α : Type} (option value expected : Bytes) :
    Except CommandLineUsageError α :=
  throw ⟨ascii "invalid value for " ++ option ++ ascii ": '" ++ value ++ ascii "' (expected " ++
    expected ++ ascii ")"⟩

/-- `parseUnsigned` for the type with the given maximum. -/
def parseUnsigned (maximum : ℕ) (option value : Bytes) : Except CommandLineUsageError ℕ :=
  match fromChars maximum value with
  | some (parsed, []) => pure parsed
  | _ => throwInvalidValue option value
      (ascii "a non-negative integer up to " ++ decimal maximum)

def parseFormat (option value : Bytes) : Except CommandLineUsageError ProgressFormat :=
  if value = ProgressFormat.text.toText then pure .text
  else if value = ProgressFormat.json.toText then pure .json
  else throwInvalidValue option value (ascii "text or json")

/-! ## Arguments -/

/-- What the loop does at an argument: it stops, changes the options, or changes them as the next
argument says. -/
inductive Argument where
  | help
  | flag (update : CommandLineOptions → CommandLineOptions)
  | value (update : Bytes → Except CommandLineUsageError (CommandLineOptions → CommandLineOptions))
  | unknown

namespace Argument

def uint64 (option : Bytes) (update : UInt64 → CommandLineOptions → CommandLineOptions) :
    Argument :=
  .value fun value => do
    let parsed ← parseUnsigned (2 ^ 64 - 1) option value
    pure (update (.ofNat parsed))

def uint32 (option : Bytes) (update : UInt32 → CommandLineOptions → CommandLineOptions) :
    Argument :=
  .value fun value => do
    let parsed ← parseUnsigned (2 ^ 32 - 1) option value
    pure (update (.ofNat parsed))

def text (update : Bytes → CommandLineOptions → CommandLineOptions) : Argument :=
  .value fun value => pure (update value)

def format (option : Bytes)
    (update : ProgressFormat → CommandLineOptions → CommandLineOptions) : Argument :=
  .value fun value => do
    let parsed ← parseFormat option value
    pure (update parsed)

/-- The branches of `CommandLine::parse`. -/
def ofText (arg : Bytes) : Argument :=
  if arg = ascii "-h" ∨ arg = ascii "--help" then .help
  else if arg = ascii "--digits" then
    uint64 arg fun value options => { options with digits := some value }
  else if arg = ascii "--threads" then
    uint32 arg fun value options => { options with threads := some value }
  else if arg = ascii "--output" then
    text fun value options => { options with outputFile := some value }
  else if arg = ascii "--checkpoint" then
    .flag fun options => { options with checkpointEnabled := some true }
  else if arg = ascii "--no-checkpoint" then
    .flag fun options => { options with checkpointEnabled := some false }
  else if arg = ascii "--checkpoint-interval" then
    uint32 arg fun value options => { options with checkpointIntervalSeconds := some value }
  else if arg = ascii "--checkpoint-directory" then
    text fun value options => { options with checkpointDirectory := some value }
  else if arg = ascii "--checkpoint-quarantine-directory" then
    text fun value options => { options with checkpointQuarantineDirectory := some value }
  else if arg = ascii "--resume" then
    .flag fun options => { options with resumeEnabled := some true }
  else if arg = ascii "--no-resume" then
    .flag fun options => { options with resumeEnabled := some false }
  else if arg = ascii "--progress" then
    .flag fun options => { options with progressEnabled := some true }
  else if arg = ascii "--no-progress" then
    .flag fun options => { options with progressEnabled := some false }
  else if arg = ascii "--progress-interval" then
    uint32 arg fun value options => { options with progressIntervalMs := some value }
  else if arg = ascii "--progress-format" then
    format arg fun value options => { options with progressFormat := some value }
  else if arg = ascii "--storage-directory" then
    text fun value options => { options with storageDirectory := some value }
  else if arg = ascii "--storage-memory-budget-bytes" then
    uint64 arg fun value options => { options with storageMemoryBudgetBytes := some value }
  else if arg = ascii "--storage-chunk-size-bytes" then
    uint64 arg fun value options => { options with storageTargetChunkSizeBytes := some value }
  else if arg = ascii "--storage-max-concurrent-io" then
    uint32 arg fun value options => { options with storageMaxConcurrentIo := some value }
  else if arg = ascii "--verify" then
    .flag fun options => { options with verificationEnabled := some true }
  else if arg = ascii "--no-verify" then
    .flag fun options => { options with verificationEnabled := some false }
  else if arg = ascii "--bbp-samples" then
    uint32 arg fun value options => { options with bbpSampleCount := some value }
  else if arg = ascii "--verification-manifest" then
    text fun value options => { options with verificationManifestFile := some value }
  else .unknown

end Argument

/-- The loop over the arguments behind the program's name, on the options so far. -/
def parseFrom (options : CommandLineOptions) :
    List Bytes → Except CommandLineUsageError CommandLineOptions
  | [] => pure options
  | arg :: rest =>
      match Argument.ofText arg with
      | .help => pure { options with helpRequested := true }
      | .flag update => parseFrom (update options) rest
      | .value update =>
          match rest with
          | [] => throw ⟨ascii "missing value for " ++ arg⟩
          | value :: rest => do
              let update ← update value
              parseFrom (update options) rest
      | .unknown => throw ⟨ascii "unknown option: " ++ arg⟩

def parse (args : List Bytes) : Except CommandLineUsageError CommandLineOptions :=
  parseFrom {} args

/-! ## Overrides -/

/-- `applyIfSet` for every option. -/
def assign (options : CommandLineOptions) (config : Config) : Config :=
  { config with
    digits := options.digits.getD config.digits
    threads := options.threads.getD config.threads
    outputFile := options.outputFile.getD config.outputFile
    checkpointEnabled := options.checkpointEnabled.getD config.checkpointEnabled
    checkpointIntervalSeconds :=
      options.checkpointIntervalSeconds.getD config.checkpointIntervalSeconds
    checkpointDirectory := options.checkpointDirectory.getD config.checkpointDirectory
    checkpointQuarantineDirectory :=
      options.checkpointQuarantineDirectory.getD config.checkpointQuarantineDirectory
    resumeEnabled := options.resumeEnabled.getD config.resumeEnabled
    progressEnabled := options.progressEnabled.getD config.progressEnabled
    progressIntervalMs := options.progressIntervalMs.getD config.progressIntervalMs
    progressFormat := options.progressFormat.getD config.progressFormat
    storageDirectory := options.storageDirectory.getD config.storageDirectory
    storageMemoryBudgetBytes :=
      options.storageMemoryBudgetBytes.getD config.storageMemoryBudgetBytes
    storageTargetChunkSizeBytes :=
      options.storageTargetChunkSizeBytes.getD config.storageTargetChunkSizeBytes
    storageMaxConcurrentIo := options.storageMaxConcurrentIo.getD config.storageMaxConcurrentIo
    verificationEnabled := options.verificationEnabled.getD config.verificationEnabled
    bbpSampleCount := options.bbpSampleCount.getD config.bbpSampleCount
    verificationManifestFile :=
      options.verificationManifestFile.getD config.verificationManifestFile }

def applyOverrides (options : CommandLineOptions) : Action Config Unit := do
  modify (assign options)
  Config.validateConfig

end CommandLine

end GiveMePi
