import GiveMePi.Checkpoint.CheckpointFilenames
import GiveMePi.Library.Json
import Mathlib.Data.Nat.Log

/-! # Progress as lines of JSON

One record a report, put together piece by piece. -/

namespace GiveMePi.Progress

def PROGRESS_SCHEMA_VERSION : UInt32 := 4

/-! ## Snapshots -/

/-- Raw values of one snapshot; the elapsed time is in nanoseconds. -/
structure ProgressSnapshotData where
  phase : ProgressPhase
  targetDigits : UInt64
  totalTerms : UInt64
  completedTerms : UInt64
  totalCheckpointBlocks : UInt64
  completedCheckpointBlocks : UInt64
  durableCheckpointBlocks : UInt64
  currentMergeLevel : Option UInt32
  activeTasks : UInt64
  queuedTasks : UInt64
  elapsed : ℤ
  memoryBytes : UInt64
  checkpointBytes : UInt64
  storageResidentBytes : UInt64
  storageStoredBytes : UInt64
  storageChunkCount : UInt64
  storageQueuedWrites : UInt64
  storageActiveWrites : UInt64
  storageCompletedWrites : UInt64
  storageFailedWrites : UInt64
  storageQueuedReads : UInt64
  storageActiveReads : UInt64
  storageCompletedReads : UInt64
  storageFailedReads : UInt64
  lastValidatedCheckpoint : Option CheckpointRangeProgress
  lastCommittedCheckpoint : Option CheckpointRangeProgress
  failureDetail : Option Bytes

namespace ProgressSnapshotData

def hasEmptyRange (checkpoint : Option CheckpointRangeProgress) : Bool :=
  checkpoint.any fun range => range.startTerm ≥ range.endTerm

/-- The checks of the constructor of a snapshot. -/
def check (data : ProgressSnapshotData) : Except Error Unit := do
  throwIf (data.completedTerms > data.totalTerms)
    (.invalidArgument "Completed terms cannot exceed total terms")
  throwIf (data.completedCheckpointBlocks > data.totalCheckpointBlocks)
    (.invalidArgument "Completed checkpoint blocks cannot exceed total blocks")
  throwIf (data.elapsed < 0) (.invalidArgument "Elapsed time cannot be negative")
  throwIf (hasEmptyRange data.lastValidatedCheckpoint ∨ hasEmptyRange data.lastCommittedCheckpoint)
    (.invalidArgument "Checkpoint range must be non-empty")
  throwIf (data.phase ≠ .failed ∧ data.failureDetail.isSome)
    (.invalidArgument "Failure detail is valid only in the failed phase")

end ProgressSnapshotData

structure ProgressSnapshot where
  data : ProgressSnapshotData
  valid : data.check = .ok ()

namespace ProgressSnapshot

def schemaVersion (_ : ProgressSnapshot) : UInt32 :=
  PROGRESS_SCHEMA_VERSION

def terminalState (snapshot : ProgressSnapshot) : ProgressTerminalState :=
  Progress.terminalState snapshot.data.phase

end ProgressSnapshot

def ProgressPhase.toText : ProgressPhase → Bytes
  | .initializing => ascii "initializing"
  | .validatingCheckpoints => ascii "validating_checkpoints"
  | .splitting => ascii "splitting"
  | .merging => ascii "merging"
  | .finalizing => ascii "finalizing"
  | .writingOutput => ascii "writing_output"
  | .verifyingOutput => ascii "verifying_output"
  | .completed => ascii "completed"
  | .failed => ascii "failed"

def ProgressTerminalState.toText : ProgressTerminalState → Bytes
  | .running => ascii "running"
  | .completed => ascii "completed"
  | .failed => ascii "failed"

/-- A floating-point number: a finite one is a mantissa times a power of two. -/
inductive Double where
  | nan
  | infinity (negative : Bool)
  | finite (negative : Bool) (mantissa : ℕ) (exponent : ℤ)
deriving DecidableEq, Repr

/-- The duration is in nanoseconds. -/
structure ProgressMetrics where
  completionRatio : Option Double
  termsPerSecond : Option Double
  checkpointBlocksPerSecond : Option Double
  estimatedTimeRemaining : Option ℤ

/-! ## Numbers and times -/

/-- An integer in decimal. -/
def signedDecimal (n : ℤ) : Bytes :=
  if n < 0 then 45 :: decimal n.natAbs else decimal n.natAbs

namespace Double

/-- `std::numeric_limits<double>::max_digits10` -/
def maxDigits10 : ℕ := 17

/-- The exponent of the leading decimal digit of a positive fraction. -/
def leadingExponent (numerator denominator : ℕ) : ℤ :=
  if denominator ≤ numerator then Nat.log 10 (numerator / denominator)
  else -(Nat.clog 10 ((denominator + numerator - 1) / numerator) : ℕ)

/-- A fraction rounded to an integer, halves to the even one. -/
def roundHalfEven (numerator denominator : ℕ) : ℕ :=
  let quotient := numerator / denominator
  let remainder := numerator % denominator
  if 2 * remainder > denominator ∨ (2 * remainder = denominator ∧ quotient % 2 = 1) then
    quotient + 1
  else quotient

/-- The significant digits of a positive fraction and the exponent of the first of them. -/
def significant (numerator denominator : ℕ) : ℕ × ℤ :=
  let exponent := leadingExponent numerator denominator
  let shift := (maxDigits10 : ℤ) - 1 - exponent
  let digits := roundHalfEven (numerator * 10 ^ shift.toNat) (denominator * 10 ^ (-shift).toNat)
  if digits = 10 ^ maxDigits10 then (10 ^ (maxDigits10 - 1), exponent + 1) else (digits, exponent)

/-- Digits behind the point, without the zeros at their end, and without the point when none is
left. -/
def fraction (digits : Bytes) : Bytes :=
  match (digits.reverse.dropWhile fun byte => byte = 48).reverse with
  | [] => []
  | digits => 46 :: digits

/-- The exponent with its sign and two digits at least. -/
def exponentText (exponent : ℤ) : Bytes :=
  101 :: (if exponent < 0 then 45 else 43) ::
    ((if exponent.natAbs < 10 then [48] else []) ++ decimal exponent.natAbs)

/-- The general format: a fixed point unless the exponent is below -4 or not below the number of
digits. -/
def general (digits : ℕ) (exponent : ℤ) : Bytes :=
  let text := decimal digits
  if exponent < -4 ∨ exponent ≥ maxDigits10 then
    text.take 1 ++ fraction (text.drop 1) ++ exponentText exponent
  else if exponent < 0 then
    48 :: fraction (List.replicate ((-exponent).toNat - 1) 48 ++ text)
  else text.take (exponent.toNat + 1) ++ fraction (text.drop (exponent.toNat + 1))

/-- What a stream with the largest useful precision prints for a finite number. -/
def print (negative : Bool) (mantissa : ℕ) (exponent : ℤ) : Bytes :=
  let sign : Bytes := if negative then [45] else []
  if mantissa = 0 then sign ++ [48]
  else
    let result := significant (mantissa * 2 ^ exponent.toNat) (2 ^ (-exponent).toNat)
    sign ++ general result.1 result.2

example : print false 1 (-2) = ascii "0.25" := by decide
example : print false 7205759403792794 (-56) = ascii "0.10000000000000001" := by decide
example : print true 5 70 = ascii "-5.9029581035870565e+21" := by decide

end Double

/-- The date of a number of days since 1970-01-01: year, month and day. -/
def civilDate (days : ℤ) : ℤ × ℕ × ℕ :=
  -- eras of 400 years that begin on the first of March
  let shifted := days + 719468
  let era := shifted.fdiv 146097
  let dayOfEra := (shifted.fmod 146097).toNat
  let yearOfEra := (dayOfEra - dayOfEra / 1460 + dayOfEra / 36524 - dayOfEra / 146096) / 365
  let dayOfYear := dayOfEra - (365 * yearOfEra + yearOfEra / 4 - yearOfEra / 100)
  let shiftedMonth := (5 * dayOfYear + 2) / 153
  let month := if shiftedMonth < 10 then shiftedMonth + 3 else shiftedMonth - 9
  let year := era * 400 + yearOfEra + if month ≤ 2 then 1 else 0
  (year, month, dayOfYear - (153 * shiftedMonth + 2) / 5 + 1)

def twoDigits (n : ℕ) : Bytes :=
  decimal (n / 10) ++ decimal (n % 10)

/-- A time of the clock, in nanoseconds since 1970. The times of a 64-bit clock lie between the years
1677 and 2262, so that the conversion to a date does not fail. -/
def utcTimestamp (time : ℤ) : Bytes :=
  let raw := time.tdiv 1000000000
  let date := civilDate (raw.fdiv 86400)
  let second := (raw.fmod 86400).toNat
  signedDecimal date.1 ++ [45] ++ twoDigits date.2.1 ++ [45] ++ twoDigits date.2.2 ++ [84] ++
    twoDigits (second / 3600) ++ [58] ++ twoDigits (second / 60 % 60) ++ [58] ++
    twoDigits (second % 60) ++ [90]

example : utcTimestamp 0 = ascii "1970-01-01T00:00:00Z" := by decide
example : utcTimestamp 951782399999999999 = ascii "2000-02-28T23:59:59Z" := by decide

/-! ## Pieces of a record -/

/-- A hexadecimal digit. -/
def hexDigit (n : UInt8) : UInt8 :=
  if n < 10 then 48 + n else 87 + n

def escape (character : UInt8) : Bytes :=
  if character = 34 then [92, 34]
  else if character = 92 then [92, 92]
  else if character = 8 then ascii "\\b"
  else if character = 12 then ascii "\\f"
  else if character = 10 then ascii "\\n"
  else if character = 13 then ascii "\\r"
  else if character = 9 then ascii "\\t"
  else if character < 32 then
    ascii "\\u00" ++ [hexDigit (character >>> 4 &&& 15), hexDigit (character &&& 15)]
  else [character]

def writeString (value : Bytes) : Bytes :=
  [34] ++ value.flatMap escape ++ [34]

def writeOptionalDouble : Option Double → Bytes
  | none => ascii "null"
  | some .nan => ascii "null"
  | some (.infinity _) => ascii "null"
  | some (.finite negative mantissa exponent) => Double.print negative mantissa exponent

def writeOptionalDuration : Option ℤ → Bytes
  | none => ascii "null"
  | some value => signedDecimal value

def writeU64 (value : UInt64) : Bytes :=
  decimal value.toNat

def writeU32 (value : UInt32) : Bytes :=
  decimal value.toNat

/-- `"name":` -/
def name (text : String) : Bytes :=
  [34] ++ ascii text ++ [34, 58]

/-- `,"name":` -/
def next (text : String) : Bytes :=
  44 :: name text

/-- The braces of an object. -/
def opening : Bytes := [123]
def closing : Bytes := [125]

def writeOptionalRange : Option CheckpointRangeProgress → Bytes
  | none => ascii "null"
  | some range =>
      opening ++ name "start_term" ++ writeU64 range.startTerm ++
        next "end_term" ++ writeU64 range.endTerm ++
        next "tree_level" ++ writeU32 range.treeLevel ++ closing

/-- The branches of a record on its optional values. -/
def writeMergeLevel : Option UInt32 → Bytes
  | some level => writeU32 level
  | none => ascii "null"

def writeFailureDetail : Option Bytes → Bytes
  | some detail => writeString detail
  | none => ascii "null"

namespace JsonProgressReporter

/-- The storage counters in front of a record, with what stands behind the counters of the reads. -/
def storageCounters (data : ProgressSnapshotData) (behind : Bytes) : Bytes :=
  name "storage_io" ++ opening ++ name "writes" ++ opening ++
    name "queued" ++ writeU64 data.storageQueuedWrites ++
    next "active" ++ writeU64 data.storageActiveWrites ++
    next "completed" ++ writeU64 data.storageCompletedWrites ++
    next "failed" ++ writeU64 data.storageFailedWrites ++ closing ++
  next "reads" ++ opening ++
    name "queued" ++ writeU64 data.storageQueuedReads ++
    next "active" ++ writeU64 data.storageActiveReads ++
    next "completed" ++ writeU64 data.storageCompletedReads ++
    next "failed" ++ writeU64 data.storageFailedReads ++ behind

/-- The record from the schema version on, up to the metrics. -/
def progressMembers (snapshot : ProgressSnapshot) (now : ℤ) : Bytes :=
  let data := snapshot.data
  name "schema_version" ++ writeU32 snapshot.schemaVersion ++
  next "sampled_at" ++ writeString (utcTimestamp now) ++
  next "phase" ++ writeString data.phase.toText ++
  next "terminal_state" ++ writeString snapshot.terminalState.toText ++
  next "target_digits" ++ writeU64 data.targetDigits ++
  next "terms" ++ opening ++ name "completed" ++ writeU64 data.completedTerms ++
    next "total" ++ writeU64 data.totalTerms ++ closing ++
  next "checkpoint_blocks" ++ opening ++
    name "completed" ++ writeU64 data.completedCheckpointBlocks ++
    next "total" ++ writeU64 data.totalCheckpointBlocks ++
    next "durable" ++ writeU64 data.durableCheckpointBlocks ++ closing ++
  next "current_merge_level" ++ writeMergeLevel data.currentMergeLevel ++
  next "tasks" ++ opening ++ name "active" ++ writeU64 data.activeTasks ++
    next "queued" ++ writeU64 data.queuedTasks ++ closing ++
  next "elapsed_ns" ++ signedDecimal data.elapsed ++
  next "memory_bytes" ++ writeU64 data.memoryBytes ++
  next "checkpoint_bytes" ++ writeU64 data.checkpointBytes ++
  next "storage" ++ opening ++ name "resident_bytes" ++ writeU64 data.storageResidentBytes ++
    next "stored_bytes" ++ writeU64 data.storageStoredBytes ++
    next "chunk_count" ++ writeU64 data.storageChunkCount ++ closing ++
  next "last_validated_checkpoint" ++ writeOptionalRange data.lastValidatedCheckpoint ++
  next "last_committed_checkpoint" ++ writeOptionalRange data.lastCommittedCheckpoint ++
  next "failure_detail" ++ writeFailureDetail data.failureDetail

def metricMembers (metrics : ProgressMetrics) : Bytes :=
  next "metrics" ++ opening ++
    name "completion_ratio" ++ writeOptionalDouble metrics.completionRatio ++
    next "terms_per_second" ++ writeOptionalDouble metrics.termsPerSecond ++
    next "checkpoint_blocks_per_second" ++ writeOptionalDouble metrics.checkpointBlocksPerSecond ++
    next "estimated_time_remaining_ns" ++ writeOptionalDuration metrics.estimatedTimeRemaining ++
    closing

/-- A record, with what stands behind the counters of the reads. -/
def recordWith (behind : Bytes) (snapshot : ProgressSnapshot) (metrics : ProgressMetrics)
    (now : ℤ) : Bytes :=
  opening ++ storageCounters snapshot.data behind ++ progressMembers snapshot now ++
    metricMembers metrics ++ closing ++ [10]

/-- The record the reporter puts together: one brace and a comma stand behind the counters. -/
def record (snapshot : ProgressSnapshot) (metrics : ProgressMetrics) (now : ℤ) : Bytes :=
  recordWith (closing ++ [44]) snapshot metrics now

/-- The stream a reporter writes to. -/
structure Output where
  content : Bytes
  writable : Bool

def report (snapshot : ProgressSnapshot) (metrics : ProgressMetrics) (now : ℤ) :
    Action Output Unit := fun output =>
  if output.writable then
    .ok () { output with content := output.content ++ record snapshot metrics now }
  else .error (.runtimeError "Failed to write JSON progress output") output

end JsonProgressReporter

end GiveMePi.Progress
