import GiveMePi.Checkpoint.AtomicFileCommit
import GiveMePi.Library.DurableFiles
import GiveMePi.Library.ProgramLogic

/-! # Atomic commits, call by call

`AtomicFileCommit::write` over the single system calls, on files behind a cache. The operating
system answers one call after the other; where its answers end, the process is gone. -/

namespace GiveMePi.Posix

/-- Regular files behind the cache of the operating system. -/
abbrev Files := Library.CachedFiles Path UInt8

/-- The error numbers the program tells apart. -/
inductive Errno where
  | eintr
  | eexist
  | other
deriving DecidableEq, Repr

inductive SystemCall where
  | openExclusive (path : Path)
  | write (file : ℕ) (bytes : Bytes)
  | fsync (file : ℕ)
  | close (file : ℕ)
  | rename (source destination : Path)
  | openDirectory (directory : Bytes)
  | fsyncDirectory (directory : Bytes)
  | unlink (path : Path)
deriving DecidableEq, Repr

/-- The result of a call: a descriptor, a number of bytes or nothing of interest, or its failure. -/
abbrev CallResult := Except Errno ℕ

/-- What a call does that the system is ready to carry out; for `write` the system says how many
bytes it takes. -/
def SystemCall.perform (files : Files) (count : ℕ) : SystemCall → Except Errno (ℕ × Files)
  | .openExclusive path =>
      if (files.names path).isSome then .error .eexist else .ok (files.next, files.create path)
  | .write file bytes =>
      .ok (min count bytes.length, files.append file (bytes.take (min count bytes.length)))
  | .fsync file => .ok (0, files.sync file)
  | .close _ => .ok (0, files)
  | .rename source destination =>
      if (files.names source).isSome then .ok (0, files.rename source destination)
      else .error .other
  | .openDirectory _ => .ok (0, files)
  | .fsyncDirectory directory => .ok (0, files.syncNames fun path => path.directory = directory)
  | .unlink path => .ok (0, files.unlink path)

/-- The files with the process on them: the answers it is going to get, the calls it made with their
results, and what the names of its temporary files are made of. -/
structure System where
  files : Files
  answers : List CallResult
  calls : List (SystemCall × CallResult)
  processId : ℕ
  tempSequence : ℕ

def System.start (files : Files) (answers : List CallResult) (processId tempSequence : ℕ) :
    System where
  files := files
  answers := answers
  calls := []
  processId := processId
  tempSequence := tempSequence

/-- What ends a program early: an exception, or the end of its process. -/
inductive Stop where
  | thrown (error : Error)
  | killed
deriving DecidableEq, Repr

abbrev Run := EStateM Stop System

namespace Run

variable {α : Type}

def raise (error : Error) : Run α :=
  throw (.thrown error)

/-- `try { … } catch (...) { …; throw; }` -/
def onException (body : Run α) (cleanup : Run Unit) : Run α := fun system =>
  match body system with
  | .error (.thrown error) system' => (cleanup >>= fun _ => raise error : Run α) system'
  | result => result

/-- A call that fails has no effect. -/
def call (request : SystemCall) : Run CallResult := fun system =>
  match system.answers with
  | [] => .error .killed system
  | answer :: answers =>
      match answer >>= fun count => request.perform system.files count with
      | .error errno =>
          .ok (.error errno)
            { system with answers := answers, calls := system.calls ++ [(request, .error errno)] }
      | .ok (result, files) =>
          .ok (.ok result)
            { system with
              files := files
              answers := answers
              calls := system.calls ++ [(request, .ok result)] }

/-- `if (… != 0) throwSystemError(…);` -/
def check (request : SystemCall) (what : String) : Run Unit := do
  match ← call request with
  | .ok _ => pure ()
  | .error _ => raise (.systemError what)

/-- `tempSequence.fetch_add(1)` -/
def nextTempSequence : Run ℕ := fun system =>
  .ok system.tempSequence { system with tempSequence := system.tempSequence + 1 }

end Run

namespace AtomicFileCommit

open Checkpoint.AtomicFileCommit (tempPath maximumAttempts)

inductive AtomicCommitStage where
  | tempCreated
  | contentWritten
  | fileSynced
  | fileClosed
  | beforeRename
  | renamed
  | directorySynced
deriving DecidableEq, Repr

/-- An observer is called once at most at each stage; it returns or throws. -/
abbrev AtomicCommitObserver := AtomicCommitStage → Except Error Unit

def observe (observer : Option AtomicCommitObserver) (stage : AtomicCommitStage) : Run Unit :=
  match observer with
  | none => pure ()
  | some observer =>
      match observer stage with
      | .ok _ => pure ()
      | .error error => Run.raise error

/-- `std::numeric_limits<ssize_t>::max()` -/
def ssizeMax : ℕ := 2 ^ 63 - 1

def createTempPath (destination : Path) : ℕ → Run (Path × ℕ)
  | 0 => Run.raise (.runtimeError "Unable to allocate a unique checkpoint temp file")
  | attempts + 1 => do
      let sequence ← Run.nextTempSequence
      let candidate := tempPath destination (← get).processId sequence
      match ← Run.call (.openExclusive candidate) with
      | .ok file => pure (candidate, file)
      | .error .eexist => createTempPath destination attempts
      | .error _ => Run.raise (.systemError "create checkpoint temp file")

/-- The loop of `writeAll` from an offset on. Every round makes a call, so that as many rounds as
there are answers, and one more, are enough. -/
def writeLoop (file : ℕ) (bytes : Bytes) : ℕ → ℕ → Run Unit
  | 0, _ => throw .killed
  | rounds + 1, offset =>
      if offset < bytes.length then do
        let requestSize := min (bytes.length - offset) ssizeMax
        match ← Run.call (.write file ((bytes.drop offset).take requestSize)) with
        | .error .eintr => writeLoop file bytes rounds offset
        | .error _ => Run.raise (.systemError "write checkpoint temp file")
        | .ok 0 => Run.raise (.runtimeError "Checkpoint write made no progress")
        | .ok (written + 1) => writeLoop file bytes rounds (offset + (written + 1))
      else pure ()

def writeAll (file : ℕ) (bytes : Bytes) : Run Unit := fun system =>
  writeLoop file bytes (system.answers.length + 1) 0 system

/-- The body of the `try` block up to the rename. -/
def writeAndRename (temp destination : Path) (file : ℕ) (bytes : Bytes)
    (observer : Option AtomicCommitObserver) : Run Unit := do
  observe observer .tempCreated
  writeAll file bytes
  observe observer .contentWritten
  Run.check (.fsync file) "sync checkpoint temp file"
  observe observer .fileSynced
  Run.check (.close file) "close checkpoint temp file"
  observe observer .fileClosed
  observe observer .beforeRename
  Run.check (.rename temp destination) "rename checkpoint temp file"

/-- The body of the `try` block behind the rename. -/
def syncDirectory (destination : Path) (observer : Option AtomicCommitObserver) : Run Unit := do
  observe observer .renamed
  Run.check (.openDirectory destination.directory) "open checkpoint directory"
  Run.check (.fsyncDirectory destination.directory) "sync checkpoint directory"
  observe observer .directorySynced

/-- The `catch` block removes the temporary file unless it was renamed; whether that succeeds is not
looked at. -/
def write (destination : Path) (bytes : Bytes) (observer : Option AtomicCommitObserver) :
    Run Unit :=
  if destination.filename = [] then
    Run.raise (.invalidArgument "Checkpoint destination is not a file path")
  else do
    let (temp, file) ← createTempPath destination maximumAttempts
    Run.onException (writeAndRename temp destination file bytes observer)
      (do let _ ← Run.call (.unlink temp))
    syncDirectory destination observer

end AtomicFileCommit

end GiveMePi.Posix
