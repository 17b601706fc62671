import GiveMePi.Checkpoint.AtomicFileCommit
import GiveMePi.Storage.ChunkCodec
import GiveMePi.Storage.ChunkIndex

/-! # The files of the chunk store

Where the chunks, the index and their temporary files stand, the commands that storing a chunk and
saving the index consist of, and what loading makes of the bytes of a file. -/

namespace GiveMePi

/-- One change that a program asks the file system for. -/
inductive FileCommand where
  | makeDirectories (directory : Bytes)
  | create (path : Path)
  | append (path : Path) (bytes : Bytes)
  | sync (path : Path)
  | close (path : Path)
  | rename (source destination : Path)
  | syncDirectory (directory : Bytes)
  | remove (path : Path)
deriving DecidableEq, Repr

namespace FileCommand

/-- The files after a command that took place. -/
def apply : FileCommand → FileSystem → FileSystem
  | create path, files => files.insert path []
  | append path bytes, files => files.insert path ((files.lookup path).getD [] ++ bytes)
  | rename source destination, files =>
      match files.lookup source with
      | none => files
      | some content => (files.erase source).insert destination content
  | remove path, files => files.erase path
  | makeDirectories _, files | sync _, files | close _, files | syncDirectory _, files => files

/-- The files after a command with the given end. -/
def perform (command : FileCommand) (outcome : Outcome) (files : FileSystem) : FileSystem :=
  match outcome with
  | .done | .failedAfter => command.apply files
  | .failedBefore => files

/-- The files after all commands of a script. -/
def applyAll (script : List FileCommand) (files : FileSystem) : FileSystem :=
  script.foldl (fun files command => command.apply files) files

/-- A file written anew, its bytes in any pieces, and what is done to it before the rename. -/
def writeScript (directory : Bytes) (temp : Path) (pieces : List Bytes)
    (last : List FileCommand) : List FileCommand :=
  [makeDirectories directory, create temp] ++ pieces.map (append temp) ++ last

end FileCommand

namespace Storage

structure StoragePolicy where
  directory : Bytes
  compression : CompressionAlgorithm
deriving DecidableEq, Repr

namespace ChunkStore

variable (policy : StoragePolicy) (lz4 : Lz4)

def chunkPath (chunkId : Bytes) : Path where
  directory := policy.directory
  filename := chunkId

def temporaryDirectory : Bytes :=
  policy.directory ++ ascii "/.tmp"

/-- `ChunkStore::createTemporaryFile` -/
def temporaryFile (processId : ℕ) (chunkId : Bytes) : Path where
  directory := temporaryDirectory policy
  filename := chunkId ++ ascii ".tmp." ++ decimal processId

/-- `ChunkStore::store` up to its first file operation. -/
def prepare (chunk : Chunk) : Except Fault Bytes := do
  ChunkCodec.thrown chunk.metadata.validate
  ChunkCodec.thrown (throwIf (chunk.metadata.compression ≠ policy.compression)
    (.invalidArgument "chunk compression does not match storage policy"))
  ChunkCodec.encode lz4 chunk

/-- The commands of `ChunkStore::store` before the rename. -/
def storeScript (temp : Path) (pieces : List Bytes) : List FileCommand :=
  FileCommand.writeScript (temporaryDirectory policy) temp pieces [.close temp, .sync temp]

/-- What `ChunkStore::store` throws when a command fails. -/
def failure : FileCommand → Error
  | .makeDirectories _ => .systemError "cannot create directories"
  | .create _ => .runtimeError "cannot create temporary chunk"
  | .append _ _ | .close _ => .runtimeError "cannot write temporary chunk"
  | .sync _ => .systemError "sync chunk file"
  | .rename _ _ => .runtimeError "cannot publish chunk atomically"
  | .syncDirectory _ => .systemError "sync storage directory"
  | .remove _ => .systemError "remove"

/-- Whether `ChunkStore::store` removes its temporary file when a command fails. -/
def discards : FileCommand → Bool
  | .makeDirectories _ => false
  | _ => true

/-- The checks of `ChunkStore::reloadAndVerify` on the content of a chunk file. -/
def verify (expectedId : Bytes) (content : Bytes) : Except Error Chunk := do
  let decoded ← ChunkCodec.decode lz4 content
  let chunkId ← decoded.metadata.identity.deterministicFilename
  throwIf (chunkId ≠ expectedId) (.runtimeError "chunk identity does not match filename")
  throwIf (decoded.metadata.compression ≠ policy.compression)
    (.runtimeError "chunk compression does not match storage policy")
  pure decoded

/-- `ChunkStore::reloadAndVerify` behind the reading of the file. -/
def reload (expectedId : Bytes) (content : Bytes) : Except Error Chunk :=
  match verify policy lz4 expectedId content with
  | .ok chunk => .ok chunk
  | .error e => .error (.runtimeError ("chunk integrity check failed: " ++ e.what))

end ChunkStore

namespace ChunkIndex

variable (policy : StoragePolicy)

/-- `StorageManager::makeIndexPath` -/
def indexPath : Path where
  directory := policy.directory
  filename := ascii "chunk-index-v1.bin"

def indexTemp (processId sequence : ℕ) : Path :=
  Checkpoint.AtomicFileCommit.tempPath (indexPath policy) processId sequence

/-- The commands of `ChunkIndex::save` before the rename. -/
def saveScript (temp : Path) (pieces : List Bytes) : List FileCommand :=
  FileCommand.writeScript policy.directory temp pieces [.sync temp, .close temp]

/-- What `ChunkIndex::save` throws when a command fails. -/
def failure : FileCommand → Error
  | .makeDirectories _ => .systemError "cannot create directories"
  | .create _ => .systemError "create checkpoint temp file"
  | .append _ _ => .systemError "write checkpoint temp file"
  | .sync _ => .systemError "sync checkpoint temp file"
  | .close _ => .systemError "close checkpoint temp file"
  | .rename _ _ => .systemError "rename checkpoint temp file"
  | .syncDirectory _ => .systemError "sync checkpoint directory"
  | .remove _ => .systemError "remove"

/-- Whether `AtomicFileCommit::write` removes its temporary file when a command fails. -/
def discards : FileCommand → Bool
  | .makeDirectories _ | .create _ | .syncDirectory _ => false
  | _ => true

/-- `ChunkIndex::load` where the file exists, and an empty index elsewhere. -/
def load (files : FileSystem) : Except Fault ChunkIndex :=
  match files.lookup (indexPath policy) with
  | none => pure create
  | some bytes => deserialize bytes

end ChunkIndex

end Storage

end GiveMePi
