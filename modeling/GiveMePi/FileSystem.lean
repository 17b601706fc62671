import GiveMePi.ByteCodec
import GiveMePi.Progress.ProgressTracker
import Mathlib.Data.List.AList

/-! # Files

The part of the world the program acts on: regular files in directories, with what the operating
system answers to each change of them. Every change is recorded with the files it leaves, so that a
run may be cut behind any of them. -/

namespace GiveMePi

/-- A file name in a directory. -/
structure Path where
  directory : Bytes
  filename : Bytes
deriving DecidableEq, Repr

namespace Path

/-- The position of the last dot of a name. -/
def lastDot (filename : Bytes) : Option ℕ :=
  (filename.zipIdx.filter fun byte => byte.1 = 46).getLast?.map Prod.snd

/-- `path::extension`: from the last dot on, unless that is the first byte; the names `.` and `..`
have none. -/
def extension (path : Path) : Bytes :=
  if path.filename = ascii "." ∨ path.filename = ascii ".." then []
  else match lastDot path.filename with
    | none => []
    | some 0 => []
    | some position => path.filename.drop position

/-- Whether a name contains a text. -/
def contains (filename text : Bytes) : Bool :=
  filename.tails.any fun suffix => text.isPrefixOf suffix

end Path

/-- The regular files with their content. -/
abbrev FileSystem := AList fun _ : Path => Bytes

namespace FileSystem

/-- `std::filesystem::exists`: every directory has the entries `.` and `..`. -/
def exists_ (files : FileSystem) (path : Path) : Bool :=
  path.filename = ascii "." || path.filename = ascii ".." || (files.lookup path).isSome

/-- The names a directory iterator yields, in the order it happens to yield them. -/
def directoryEntries (files : FileSystem) (directory : Bytes) : List Path :=
  files.keys.filter fun path => path.directory = directory

end FileSystem

/-- The changes a program asks for. -/
inductive FileOperation where
  | makeDirectories (directory : Bytes)
  | create (path : Path)
  | write (path : Path)
  | sync (path : Path)
  | close (path : Path)
  | rename (source destination : Path)
  | syncDirectory (directory : Bytes)
  | remove (path : Path)
deriving DecidableEq, Repr

/-- A change that took place and the files it left. -/
structure FileStep where
  operation : FileOperation
  files : FileSystem

/-- How a change ends: it takes place, it fails before or it fails after it took place. -/
inductive Outcome where
  | done
  | failedBefore
  | failedAfter
deriving DecidableEq, Repr

/-- What the operating system decides: the end of each change, the number of bytes each `write`
takes, the time of each reading of the clock, the process id, and the longest file name. -/
structure Environment where
  outcome : ℕ → Outcome
  writeSize : ℕ → ℕ
  clock : ℕ → ℤ
  processId : ℕ
  nameMax : ℕ

/-- An environment in which no change fails. -/
def Environment.IsReliable (environment : Environment) : Prop :=
  ∀ n, environment.outcome n = .done

structure World where
  environment : Environment
  files : FileSystem
  trace : List FileStep
  operations : ℕ
  writes : ℕ
  clockReads : ℕ
  tempSequence : ℕ
  quarantineSequence : ℕ
  tracker : Option Progress.ProgressTracker

namespace World

/-- The world of a process that starts. -/
def start (environment : Environment) (files : FileSystem)
    (tracker : Option Progress.ProgressTracker) : World where
  environment := environment
  files := files
  trace := []
  operations := 0
  writes := 0
  clockReads := 0
  tempSequence := 0
  quarantineSequence := 0
  tracker := tracker

def record (world : World) (operation : FileOperation) (files : FileSystem) : World :=
  { world with files := files, trace := ⟨operation, files⟩ :: world.trace }

/-- One change of the files, with the text of the exception for its failure. -/
def perform (operation : FileOperation) (effect : FileSystem → FileSystem) (what : String) :
    Action World Unit := fun world =>
  let next := { world with operations := world.operations + 1 }
  match world.environment.outcome world.operations with
  | .done => .ok () (next.record operation (effect world.files))
  | .failedBefore => .error (.systemError what) next
  | .failedAfter => .error (.systemError what) (next.record operation (effect world.files))

/-- The number of bytes the next `write` takes: at least one, at most the request. -/
def takeWriteSize (request : ℕ) : Action World ℕ := fun world =>
  .ok (max 1 (min request (world.environment.writeSize world.writes)))
    { world with writes := world.writes + 1 }

/-- `Clock::now()` -/
def now : Action World ℤ := fun world =>
  .ok (world.environment.clock world.clockReads) { world with clockReads := world.clockReads + 1 }

/-- `tempSequence.fetch_add(1)` -/
def nextTempSequence : Action World ℕ := fun world =>
  .ok world.tempSequence { world with tempSequence := world.tempSequence + 1 }

/-- `quarantineSequence.fetch_add(1)` -/
def nextQuarantineSequence : Action World ℕ := fun world =>
  .ok world.quarantineSequence { world with quarantineSequence := world.quarantineSequence + 1 }

def createDirectories (directory : Bytes) : Action World Unit :=
  perform (.makeDirectories directory) id "cannot create directories"

/-- `std::filesystem::exists`, which throws unless the name is found or reported missing: one that
is too long is an error. -/
def exists_ (path : Path) : Action World Bool := fun world =>
  if path.filename.length > world.environment.nameMax then .error (.systemError "status") world
  else .ok (world.files.exists_ path) world

end World

end GiveMePi
