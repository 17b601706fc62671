import GiveMePi.Library.TransitionSystem
import GiveMePi.Storage.ChunkStore
import Mathlib.Data.Finset.Insert

/-! # The storage manager

`StorageManager` over `ChunkStore` and `ChunkIndex`, with any number of clients, as a transition
system. A step is a section under `indexMutex_` without file operations, one command on the files, or
one look at them. Every command has an outcome, and a process may end at any step and be started
again on the files it left. -/

namespace GiveMePi.Storage

/-- What a publication of the index is for. -/
inductive Purpose where
  | store (chunk : Chunk)
  | remove (identity : ChunkIdentity)
deriving DecidableEq, Repr

/-- Where `AtomicFileCommit::write` is in a publication of the index. -/
inductive PublishStage where
  | write (temp : Path) (script : List FileCommand)
  | rename (temp : Path)
  | sync
  /-- The temporary file is removed after a failure. -/
  | discard (temp : Path) (error : Error)
deriving DecidableEq, Repr

/-- What a call returns or throws. -/
inductive StorageResult where
  | stored (chunk : Chunk) (result : Except Error Bytes)
  | loaded (identity : ChunkIdentity) (result : Except Error (Option Chunk))
  | contained (identity : ChunkIdentity) (result : Bool)
  | removed (identity : ChunkIdentity) (result : Except Error Bool)

/-- Where a client is in its call. -/
inductive StorageCall where
  | idle
  /-- In `store`, before any file is touched. -/
  | storePrepare (chunk : Chunk)
  | storeWrite (chunk : Chunk) (script : List FileCommand)
  | storeRename (chunk : Chunk)
  | storeSync (chunk : Chunk)
  /-- The temporary file is removed after a failure. -/
  | storeDiscard (chunk : Chunk) (error : Error)
  /-- The chunk is written and the mutex is to be taken. -/
  | storeLock (chunk : Chunk)
  /-- In `publishIndex`, under the mutex. -/
  | publish (purpose : Purpose) (next : ChunkIndex) (stage : PublishStage)
  /-- In the handler of `store`, before the mutex is taken. -/
  | storeFailed (chunk : Chunk) (error : Error)
  | storeUndo (chunk : Chunk) (error : Error)
  | storeUndoSync (chunk : Chunk) (error : Error)
  | removeFile (identity : ChunkIdentity) (storageFile : Bytes)
  | removeSync (identity : ChunkIdentity)
  | loadCheck (identity : ChunkIdentity) (entry : ChunkIndexEntry)
  | loadOpen (identity : ChunkIdentity) (entry : ChunkIndexEntry)
  /-- The open file goes on holding its content, whatever happens to its name. -/
  | loadSize (identity : ChunkIdentity) (entry : ChunkIndexEntry) (content : Bytes)
  | loadRead (identity : ChunkIdentity) (entry : ChunkIndexEntry) (content : Bytes) (fileSize : ℕ)
  | containsCheck (identity : ChunkIdentity) (storageFile : Bytes)
  | returned (result : StorageResult)

/-- A change of the index that has been published. -/
inductive Commit where
  | stored (identity : ChunkIdentity)
  | removed (identity : ChunkIdentity)
deriving DecidableEq, Repr

/-- A call that changed the index and has returned, with the numbers of commits when it began, when
it committed and when it returned. -/
structure CompletedCall where
  commit : Commit
  began : ℕ
  position : ℕ
  ended : ℕ
deriving DecidableEq, Repr

/-- What a call finds when it begins. -/
structure Moment where
  index : ChunkIndex
  files : FileSystem
  commits : ℕ
  removals : ℕ

/-- The files, a manager on them, and its clients. The last six fields are histories that no step
reads: the chunks by identity, the published changes, the calls that made them, the identities whose
files `remove` has taken away, and for each client the beginning and the commit of its call. -/
structure StorageSystem (ι : Type) where
  files : FileSystem
  processId : ℕ
  index : ChunkIndex
  inFlightStores : Finset Bytes
  locked : Bool
  calls : ι → StorageCall
  contents : ChunkIdentity → Option Chunk
  commits : List Commit
  completed : List CompletedCall
  removals : List ChunkIdentity
  began : ι → Moment
  position : ι → ℕ

namespace StorageSystem

variable {ι : Type} [DecidableEq ι] (policy : StoragePolicy) (lz4 : Lz4)

/-- The chunks of an index, as their files have them. -/
def contentsOf (files : FileSystem) (index : ChunkIndex) (identity : ChunkIdentity) :
    Option Chunk := do
  let entry ← index.find? identity
  let bytes ← files.lookup (ChunkStore.chunkPath policy entry.storageFile)
  (ChunkCodec.decode lz4 bytes).toOption

/-- The constructor of `StorageManager`, with an index that has been loaded. -/
def opened (files : FileSystem) (processId : ℕ) (index : ChunkIndex) : StorageSystem ι where
  files := files
  processId := processId
  index := index
  inFlightStores := ∅
  locked := false
  calls _ := .idle
  contents := contentsOf policy lz4 files index
  commits := []
  completed := []
  removals := []
  began _ := { index := index, files := files, commits := 0, removals := 0 }
  position _ := 0

def goto (system : StorageSystem ι) (client : ι) (call : StorageCall) : StorageSystem ι :=
  { system with calls := Function.update system.calls client call }

/-- The client begins a call. -/
def begin_ (system : StorageSystem ι) (client : ι) : StorageSystem ι :=
  { system with
    began := Function.update system.began client
      { index := system.index
        files := system.files
        commits := system.commits.length
        removals := system.removals.length } }

def perform (system : StorageSystem ι) (command : FileCommand) (outcome : Outcome) :
    StorageSystem ι :=
  { system with files := command.perform outcome system.files }

def lock (system : StorageSystem ι) : StorageSystem ι :=
  { system with locked := true }

def unlock (system : StorageSystem ι) : StorageSystem ι :=
  { system with locked := false }

/-- The end of the handler of `store`, which throws again. -/
def rethrow (system : StorageSystem ι) (client : ι) (chunk : Chunk) (error : Error) :
    StorageSystem ι :=
  { system with
    inFlightStores :=
      system.inFlightStores.erase chunk.metadata.identity.chunkFilename }.unlock.goto client
        (.returned (.stored chunk (.error error)))

/-- An exception leaves `publishIndex`. -/
def publishFailed (system : StorageSystem ι) (client : ι) (purpose : Purpose) (error : Error) :
    StorageSystem ι :=
  match purpose with
  | .store chunk => system.unlock.goto client (.storeFailed chunk error)
  | .remove identity => system.unlock.goto client (.returned (.removed identity (.error error)))

/-- `index_ = next`, and the end of the call. -/
def commit (system : StorageSystem ι) (client : ι) (purpose : Purpose) (next : ChunkIndex) :
    StorageSystem ι :=
  match purpose with
  | .store chunk =>
      { system with
        index := next
        inFlightStores := system.inFlightStores.erase chunk.metadata.identity.chunkFilename
        contents := Function.update system.contents chunk.metadata.identity (some chunk)
        commits := system.commits ++ [Commit.stored chunk.metadata.identity]
        position := Function.update system.position client system.commits.length }.unlock.goto
          client (.returned (.stored chunk (.ok chunk.metadata.identity.chunkFilename)))
  | .remove identity =>
      { system with
        index := next
        contents := Function.update system.contents identity none
        commits := system.commits ++ [Commit.removed identity]
        position := Function.update system.position client system.commits.length }.unlock.goto
          client (.returned (.removed identity (.ok true)))

/-- The change of the index that a call has made, if it has made one. -/
def commitOf : StorageResult → Option Commit
  | .stored chunk (.ok _) => some (.stored chunk.metadata.identity)
  | .removed identity (.ok true) => some (.removed identity)
  | _ => none

/-- The client takes what its call has returned. -/
def finish (system : StorageSystem ι) (client : ι) (result : StorageResult) : StorageSystem ι :=
  { system with
    completed := system.completed ++ (commitOf result).toList.map fun commit : Commit =>
      CompletedCall.mk commit (system.began client).commits (system.position client)
        system.commits.length }.goto client .idle

/-! ## Publication of the index -/

def noTemp : Error := .runtimeError "Unable to allocate a unique checkpoint temp file"

/-- `publishIndex`, once the bytes of the next index and the name of a new temporary file are there. -/
inductive PublishStep (client : ι) : Outcome → StorageSystem ι → StorageSystem ι → Prop where
  | write {system purpose next temp command rest} :
      system.calls client = .publish purpose next (.write temp (command :: rest)) →
      PublishStep client .done system
        ((system.perform command .done).goto client (.publish purpose next (.write temp rest)))
  | writeFails {system purpose next temp command rest outcome} :
      system.calls client = .publish purpose next (.write temp (command :: rest)) →
      outcome ≠ .done → ChunkIndex.discards command = true →
      PublishStep client outcome system ((system.perform command outcome).goto client
        (.publish purpose next (.discard temp (ChunkIndex.failure command))))
  | createFails {system purpose next temp command rest outcome} :
      system.calls client = .publish purpose next (.write temp (command :: rest)) →
      outcome ≠ .done → ChunkIndex.discards command = false →
      PublishStep client outcome system ((system.perform command outcome).publishFailed client
        purpose (ChunkIndex.failure command))
  | written {system purpose next temp} :
      system.calls client = .publish purpose next (.write temp []) →
      PublishStep client .done system (system.goto client (.publish purpose next (.rename temp)))
  | rename {system purpose next temp} :
      system.calls client = .publish purpose next (.rename temp) →
      (system.files.lookup temp).isSome = true →
      PublishStep client .done system
        ((system.perform (.rename temp (ChunkIndex.indexPath policy)) .done).goto client
          (.publish purpose next .sync))
  | renameFails {system purpose next temp outcome} :
      system.calls client = .publish purpose next (.rename temp) → outcome ≠ .done →
      PublishStep client outcome system
        ((system.perform (.rename temp (ChunkIndex.indexPath policy)) outcome).goto client
          (.publish purpose next (.discard temp (.systemError "rename checkpoint temp file"))))
  | sync {system purpose next} : system.calls client = .publish purpose next .sync →
      PublishStep client .done system (system.commit client purpose next)
  | syncFails {system purpose next outcome} :
      system.calls client = .publish purpose next .sync → outcome ≠ .done →
      PublishStep client outcome system (system.publishFailed client purpose
        (.systemError "sync checkpoint directory"))
  | discard {system purpose next temp error outcome} :
      system.calls client = .publish purpose next (.discard temp error) →
      PublishStep client outcome system
        ((system.perform (.remove temp) outcome).publishFailed client purpose error)

/-! ## Storing -/

def duplicate : Error := .invalidArgument "duplicate chunk identity in storage manager"

/-- `StorageManager::store` up to the publication, and its handler. -/
inductive StoreStep (client : ι) : Outcome → StorageSystem ι → StorageSystem ι → Prop where
  | invalid {system chunk error} : system.calls client = .idle →
      chunk.metadata.identity.deterministicFilename = .error error →
      StoreStep client .done system
        ((system.begin_ client).goto client (.returned (.stored chunk (.error error))))
  | duplicate {system chunk chunkId} : system.calls client = .idle →
      chunk.metadata.identity.deterministicFilename = .ok chunkId → system.locked = false →
      (system.index.contains chunk.metadata.identity = true ∨
        chunkId ∈ system.inFlightStores) →
      StoreStep client .done system
        ((system.begin_ client).goto client (.returned (.stored chunk (.error duplicate))))
  | enter {system chunk chunkId} : system.calls client = .idle →
      chunk.metadata.identity.deterministicFilename = .ok chunkId → system.locked = false →
      system.index.contains chunk.metadata.identity = false →
      chunkId ∉ system.inFlightStores →
      StoreStep client .done system ({ system.begin_ client with
        inFlightStores := insert chunkId system.inFlightStores }.goto client (.storePrepare chunk))
  | prepareFails {system chunk error} : system.calls client = .storePrepare chunk →
      ChunkStore.prepare policy lz4 chunk = .error (.thrown error) →
      StoreStep client .done system (system.goto client (.storeFailed chunk error))
  | prepare {system chunk bytes pieces} : system.calls client = .storePrepare chunk →
      ChunkStore.prepare policy lz4 chunk = .ok bytes → pieces.flatten = bytes →
      StoreStep client .done system (system.goto client (.storeWrite chunk
        (ChunkStore.storeScript policy (ChunkStore.temporaryFile policy system.processId
          chunk.metadata.identity.chunkFilename) pieces)))
  | write {system chunk command rest} :
      system.calls client = .storeWrite chunk (command :: rest) →
      StoreStep client .done system
        ((system.perform command .done).goto client (.storeWrite chunk rest))
  | writeFails {system chunk command rest outcome} :
      system.calls client = .storeWrite chunk (command :: rest) → outcome ≠ .done →
      StoreStep client outcome system ((system.perform command outcome).goto client
        (if ChunkStore.discards command then .storeDiscard chunk (ChunkStore.failure command)
        else .storeFailed chunk (ChunkStore.failure command)))
  | written {system chunk} : system.calls client = .storeWrite chunk [] →
      StoreStep client .done system (system.goto client (.storeRename chunk))
  | rename {system chunk} : system.calls client = .storeRename chunk →
      (system.files.lookup (ChunkStore.temporaryFile policy system.processId
        chunk.metadata.identity.chunkFilename)).isSome = true →
      StoreStep client .done system ((system.perform (.rename
        (ChunkStore.temporaryFile policy system.processId chunk.metadata.identity.chunkFilename)
        (ChunkStore.chunkPath policy chunk.metadata.identity.chunkFilename)) .done).goto client
          (.storeSync chunk))
  | renameFails {system chunk outcome} : system.calls client = .storeRename chunk →
      outcome ≠ .done →
      StoreStep client outcome system ((system.perform (.rename
        (ChunkStore.temporaryFile policy system.processId chunk.metadata.identity.chunkFilename)
        (ChunkStore.chunkPath policy chunk.metadata.identity.chunkFilename)) outcome).goto client
          (.storeDiscard chunk (.runtimeError "cannot publish chunk atomically")))
  | sync {system chunk} : system.calls client = .storeSync chunk →
      StoreStep client .done system (system.goto client (.storeLock chunk))
  | syncFails {system chunk outcome} : system.calls client = .storeSync chunk →
      outcome ≠ .done →
      StoreStep client outcome system
        (system.goto client (.storeDiscard chunk (.systemError "sync storage directory")))
  | discard {system chunk error outcome} : system.calls client = .storeDiscard chunk error →
      StoreStep client outcome system ((system.perform (.remove (ChunkStore.temporaryFile policy
        system.processId chunk.metadata.identity.chunkFilename)) outcome).goto client
          (.storeFailed chunk error))
  | reject {system chunk error} : system.calls client = .storeLock chunk →
      system.locked = false →
      ChunkIndex.addMetadata system.index chunk.metadata = .error error →
      StoreStep client .done system (system.goto client (.storeFailed chunk error))
  | serializeFails {system chunk next error} : system.calls client = .storeLock chunk →
      system.locked = false →
      ChunkIndex.addMetadata system.index chunk.metadata = .ok next →
      ChunkIndex.serialize next = .error error →
      StoreStep client .done system (system.goto client (.storeFailed chunk error))
  | tempFails {system chunk outcome} : system.calls client = .storeLock chunk →
      system.locked = false → outcome ≠ .done →
      StoreStep client outcome system (system.goto client (.storeFailed chunk noTemp))
  | publish {system chunk next bytes pieces sequence} :
      system.calls client = .storeLock chunk → system.locked = false →
      ChunkIndex.addMetadata system.index chunk.metadata = .ok next →
      ChunkIndex.serialize next = .ok bytes → pieces.flatten = bytes →
      system.files.lookup (ChunkIndex.indexTemp policy system.processId sequence) = none →
      StoreStep client .done system (system.lock.goto client (.publish (.store chunk) next
        (.write (ChunkIndex.indexTemp policy system.processId sequence)
          (ChunkIndex.saveScript policy
            (ChunkIndex.indexTemp policy system.processId sequence) pieces))))
  | handle {system chunk error} : system.calls client = .storeFailed chunk error →
      system.locked = false →
      StoreStep client .done system (system.lock.goto client (.storeUndo chunk error))
  | undo {system chunk error} : system.calls client = .storeUndo chunk error →
      (system.files.lookup (ChunkStore.chunkPath policy
        chunk.metadata.identity.chunkFilename)).isSome = true →
      StoreStep client .done system ((system.perform (.remove (ChunkStore.chunkPath policy
        chunk.metadata.identity.chunkFilename)) .done).goto client (.storeUndoSync chunk error))
  | undoNothing {system chunk error} : system.calls client = .storeUndo chunk error →
      system.files.lookup (ChunkStore.chunkPath policy
        chunk.metadata.identity.chunkFilename) = none →
      StoreStep client .done system (system.rethrow client chunk error)
  | undoFails {system chunk error outcome} : system.calls client = .storeUndo chunk error →
      outcome ≠ .done →
      StoreStep client outcome system ((system.perform (.remove (ChunkStore.chunkPath policy
        chunk.metadata.identity.chunkFilename)) outcome).rethrow client chunk error)
  | undoSync {system chunk error outcome} : system.calls client = .storeUndoSync chunk error →
      StoreStep client outcome system (system.rethrow client chunk error)

/-! ## Removing -/

/-- `StorageManager::remove` up to the publication, all of it under the mutex. -/
inductive RemoveStep (client : ι) : Outcome → StorageSystem ι → StorageSystem ι → Prop where
  | absent {system identity} : system.calls client = .idle → system.locked = false →
      system.index.contains identity = false →
      RemoveStep client .done system
        ((system.begin_ client).goto client (.returned (.removed identity (.ok false))))
  | enter {system identity entry} : system.calls client = .idle → system.locked = false →
      system.index.find? identity = some entry →
      RemoveStep client .done system
        ((system.begin_ client).lock.goto client (.removeFile identity entry.storageFile))
  | unlink {system identity storageFile} :
      system.calls client = .removeFile identity storageFile →
      (system.files.lookup (ChunkStore.chunkPath policy storageFile)).isSome = true →
      RemoveStep client .done system
        ({ system.perform (.remove (ChunkStore.chunkPath policy storageFile)) .done with
          removals := system.removals ++ [identity] }.goto client (.removeSync identity))
  | unlinkNothing {system identity storageFile} :
      system.calls client = .removeFile identity storageFile →
      system.files.lookup (ChunkStore.chunkPath policy storageFile) = none →
      RemoveStep client .done system
        (system.unlock.goto client (.returned (.removed identity (.ok false))))
  | unlinkFails {system identity storageFile outcome} :
      system.calls client = .removeFile identity storageFile → outcome ≠ .done →
      RemoveStep client outcome system
        ({ system.perform (.remove (ChunkStore.chunkPath policy storageFile)) outcome with
          removals := system.removals ++ [identity] }.unlock.goto client
            (.returned (.removed identity (.ok false))))
  | syncFails {system identity outcome} : system.calls client = .removeSync identity →
      outcome ≠ .done →
      RemoveStep client outcome system (system.unlock.goto client
        (.returned (.removed identity (.error (.systemError "sync storage directory")))))
  | serializeFails {system identity error} : system.calls client = .removeSync identity →
      ChunkIndex.serialize (ChunkIndex.remove system.index identity) = .error error →
      RemoveStep client .done system
        (system.unlock.goto client (.returned (.removed identity (.error error))))
  | tempFails {system identity outcome} : system.calls client = .removeSync identity →
      outcome ≠ .done →
      RemoveStep client outcome system
        (system.unlock.goto client (.returned (.removed identity (.error noTemp))))
  | publish {system identity bytes pieces sequence} :
      system.calls client = .removeSync identity →
      ChunkIndex.serialize (ChunkIndex.remove system.index identity) = .ok bytes →
      pieces.flatten = bytes →
      system.files.lookup (ChunkIndex.indexTemp policy system.processId sequence) = none →
      RemoveStep client .done system (system.goto client (.publish (.remove identity)
        (ChunkIndex.remove system.index identity)
        (.write (ChunkIndex.indexTemp policy system.processId sequence)
          (ChunkIndex.saveScript policy
            (ChunkIndex.indexTemp policy system.processId sequence) pieces))))

/-! ## Loading -/

/-- What `std::ifstream` reads of a file of which `file_size` has said the size. -/
def readContent (content : Bytes) (fileSize : ℕ) : Except Error Bytes := do
  throwIf (content.length < fileSize) (.runtimeError "cannot read complete chunk file")
  pure (content.take fileSize)

/-- The end of `StorageManager::load`. -/
def checkLoaded (identity : ChunkIdentity) (entry : ChunkIndexEntry) (content : Bytes)
    (fileSize : ℕ) : Except Error (Option Chunk) := do
  let bytes ← readContent content fileSize
  let loaded ← ChunkStore.reload policy lz4 entry.storageFile bytes
  throwIf (loaded.metadata.identity ≠ identity)
    (.runtimeError "chunk index identity does not match stored chunk")
  throwIf (loaded.metadata.storedSize ≠ entry.storedSize ∨
      loaded.metadata.checksumValue ≠ entry.checksumValue)
    (.runtimeError "chunk index metadata does not match stored chunk")
  pure (some loaded)

/-- `StorageManager::load` and `StorageManager::contains`: the index under the mutex, the file
without it. -/
inductive LoadStep (client : ι) : StorageSystem ι → StorageSystem ι → Prop where
  | absent {system identity} : system.calls client = .idle → system.locked = false →
      system.index.contains identity = false →
      LoadStep client system
        ((system.begin_ client).goto client (.returned (.loaded identity (.ok none))))
  | enter {system identity entry} : system.calls client = .idle → system.locked = false →
      system.index.find? identity = some entry →
      LoadStep client system ((system.begin_ client).goto client (.loadCheck identity entry))
  | noFile {system identity entry} : system.calls client = .loadCheck identity entry →
      system.files.lookup (ChunkStore.chunkPath policy entry.storageFile) = none →
      LoadStep client system (system.goto client (.returned (.loaded identity (.ok none))))
  | check {system identity entry} : system.calls client = .loadCheck identity entry →
      (system.files.lookup (ChunkStore.chunkPath policy entry.storageFile)).isSome = true →
      LoadStep client system (system.goto client (.loadOpen identity entry))
  | openFails {system identity entry} : system.calls client = .loadOpen identity entry →
      system.files.lookup (ChunkStore.chunkPath policy entry.storageFile) = none →
      LoadStep client system (system.goto client
        (.returned (.loaded identity (.error (.runtimeError "cannot open chunk file")))))
  | open {system identity entry content} : system.calls client = .loadOpen identity entry →
      system.files.lookup (ChunkStore.chunkPath policy entry.storageFile) = some content →
      LoadStep client system (system.goto client (.loadSize identity entry content))
  | sizeFails {system identity entry content} :
      system.calls client = .loadSize identity entry content →
      system.files.lookup (ChunkStore.chunkPath policy entry.storageFile) = none →
      LoadStep client system (system.goto client
        (.returned (.loaded identity (.error (.systemError "cannot stat chunk file")))))
  | size {system identity entry content current} :
      system.calls client = .loadSize identity entry content →
      system.files.lookup (ChunkStore.chunkPath policy entry.storageFile) = some current →
      LoadStep client system
        (system.goto client (.loadRead identity entry content current.length))
  | read {system identity entry content fileSize} :
      system.calls client = .loadRead identity entry content fileSize →
      LoadStep client system (system.goto client
        (.returned (.loaded identity (checkLoaded policy lz4 identity entry content fileSize))))
  | containsAbsent {system identity} : system.calls client = .idle → system.locked = false →
      system.index.contains identity = false →
      LoadStep client system
        ((system.begin_ client).goto client (.returned (.contained identity false)))
  | containsEnter {system identity entry} : system.calls client = .idle →
      system.locked = false → system.index.find? identity = some entry →
      LoadStep client system
        ((system.begin_ client).goto client (.containsCheck identity entry.storageFile))
  | containsCheck {system identity storageFile} :
      system.calls client = .containsCheck identity storageFile →
      LoadStep client system (system.goto client (.returned (.contained identity
        (system.files.lookup (ChunkStore.chunkPath policy storageFile)).isSome)))

/-! ## The system -/

/-- Who takes a step, and how its command ends. -/
inductive Label (ι : Type) where
  | call (client : ι) (outcome : Outcome)
  /-- The process ends, whatever its clients are doing, and another one is started. -/
  | reopen
  /-- Encoding writes outside of its buffer, and anything may happen. -/
  | undefined (client : ι)

inductive Step : Label ι → StorageSystem ι → StorageSystem ι → Prop where
  | store {system system' client outcome} :
      StoreStep policy lz4 client outcome system system' →
      Step (.call client outcome) system system'
  | publish {system system' client outcome} :
      PublishStep policy client outcome system system' →
      Step (.call client outcome) system system'
  | remove {system system' client outcome} :
      RemoveStep policy client outcome system system' →
      Step (.call client outcome) system system'
  | load {system system' client} : LoadStep policy lz4 client system system' →
      Step (.call client .done) system system'
  | finish {system client result} : system.calls client = .returned result →
      Step (.call client .done) system (system.finish client result)
  | reopen {system processId index} : ChunkIndex.load policy system.files = .ok index →
      Step .reopen system (opened policy lz4 system.files processId index)
  | undefined {system system' client chunk} : system.calls client = .storePrepare chunk →
      ChunkStore.prepare policy lz4 chunk = .error .outOfBounds →
      Step (.undefined client) system system'

end StorageSystem

end GiveMePi.Storage
