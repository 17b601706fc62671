import GiveMePi.FileSystem

/-! # Atomic commits of files

New content goes to a temporary file in the directory of its destination, which is renamed to the
destination when it is complete. -/

namespace GiveMePi

namespace World

/-- `rename`: the source replaces the destination. -/
def rename (source destination : Path) (what : String) : Action World Unit := fun world =>
  match world.files.lookup source with
  | none => .error (.systemError what) world
  | some content =>
      perform (.rename source destination)
        (fun files => (files.erase source).insert destination content) what world

/-- `remove` with an ignored error code; a file that does not exist is no error. -/
def removeQuietly (path : Path) : Action World Unit :=
  Action.attempt (perform (.remove path) (fun files => files.erase path) "remove")
    fun _ => pure ()

end World

namespace Checkpoint

namespace AtomicFileCommit

/-- The largest offset of a file. -/
def fileSizeMax : ℕ := 2 ^ 63 - 1

def maximumAttempts : ℕ := 128

def tempPath (destination : Path) (processId sequence : ℕ) : Path where
  directory := destination.directory
  filename := destination.filename ++ ascii ".tmp." ++ decimal processId ++ ascii "." ++
    decimal sequence

/-- The loop over the attempts that are left: a name that exists is skipped. -/
def createTempPath (destination : Path) : ℕ → Action World Path
  | 0 => throw (.runtimeError "Unable to allocate a unique checkpoint temp file")
  | attempts + 1 => do
      let sequence ← World.nextTempSequence
      let world ← get
      let candidate := tempPath destination world.environment.processId sequence
      if (world.files.lookup candidate).isSome then createTempPath destination attempts
      else do
        World.perform (.create candidate) (fun files => files.insert candidate [])
          "create checkpoint temp file"
        pure candidate

/-- The loop over the bytes that are left, after those already written. Interrupted calls, which
are repeated, are left out. -/
def writeAll (file : Path) (written remaining : Bytes) : Action World Unit :=
  match remaining with
  | [] => pure ()
  | byte :: rest => do
      throwIf (written.length ≥ fileSizeMax) (.systemError "write checkpoint temp file")
      let size ← World.takeWriteSize (min (rest.length + 1) (fileSizeMax - written.length))
      let written := written ++ byte :: rest.take (size - 1)
      World.perform (.write file) (fun files => files.insert file written)
        "write checkpoint temp file"
      writeAll file written (rest.drop (size - 1))
termination_by remaining.length
decreasing_by
  rw [List.length_drop, List.length_cons]
  omega

/-- The steps up to the rename. -/
def writeAndRename (temp destination : Path) (bytes : Bytes) : Action World Unit := do
  writeAll temp [] bytes
  World.perform (.sync temp) id "sync checkpoint temp file"
  World.perform (.close temp) id "close checkpoint temp file"
  World.rename temp destination "rename checkpoint temp file"

/-- What is thrown before the rename removes the temporary file. -/
def write (destination : Path) (bytes : Bytes) : Action World Unit := do
  throwIf (destination.filename = [])
    (.invalidArgument "Checkpoint destination is not a file path")
  let temp ← createTempPath destination maximumAttempts
  Action.attempt (writeAndRename temp destination bytes) fun error => do
    World.removeQuietly temp
    throw error
  World.perform (.syncDirectory destination.directory) id "sync checkpoint directory"

end AtomicFileCommit

end Checkpoint

end GiveMePi
