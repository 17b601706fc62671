import GiveMePi.Storage.BinaryNodeChunkAdapter
import GiveMePi.Storage.StorageManager
import GiveMePi.Storage.StoredFiles

/-! # The storage manager on files that do not fail

The calls of one `StorageManager` where every file operation succeeds. `store` is cut where other
threads may come in between: its two sections under the mutex, and the writing of the file. -/

namespace GiveMePi.Storage

/-- The index of a manager can always be saved. -/
structure StorageManager where
  index : ChunkIndex
  limits : index.IsWithinLimits
  inFlightStores : Finset Bytes
  files : Path → Option Bytes

namespace StorageManager

/-- The manager of an empty directory. -/
def create : StorageManager where
  index := ChunkIndex.create
  limits := ⟨Nat.zero_le _, fun _ hmem => absurd hmem List.not_mem_nil⟩
  inFlightStores := ∅
  files _ := none

variable (policy : StoragePolicy) (lz4 : Lz4)

/-- The file is written beside its place and renamed. -/
def replaceFile (manager : StorageManager) (path : Path) (content : Bytes) : StorageManager :=
  { manager with files := Function.update manager.files path (some content) }

@[simp] theorem files_replaceFile (manager : StorageManager) (path : Path) (content : Bytes) :
    (manager.replaceFile path content).files = Function.update manager.files path (some content) :=
  rfl

def eraseFile (manager : StorageManager) (path : Path) : StorageManager :=
  { manager with files := Function.update manager.files path none }

def publishIndex (next : ChunkIndex) : Action StorageManager Unit := fun manager =>
  match hbytes : next.serialize with
  | .error e => .error e manager
  | .ok bytes =>
      .ok () { manager.replaceFile (ChunkIndex.indexPath policy) bytes with
        index := next
        limits := (ChunkIndex.serialize_eq_ok.mp hbytes).2 }

theorem publishIndex_returns (policy : StoragePolicy) {next : ChunkIndex}
    (h : next.IsWithinLimits) (manager : StorageManager) :
    ∃ manager', publishIndex policy next manager = .ok () manager' ∧
      manager'.index = next ∧ manager'.inFlightStores = manager.inFlightStores ∧
        manager'.files = Function.update manager.files (ChunkIndex.indexPath policy)
          (some (ChunkIndex.indexBytes next)) := by
  have hbytes := ChunkIndex.serialize_eq_ok.mpr ⟨rfl, h⟩
  rw [publishIndex]
  split
  · next e herror => exact nomatch hbytes.symm.trans herror
  · next bytes hok =>
      obtain rfl := Except.ok.inj (hok.symm.trans hbytes)
      exact ⟨_, rfl, rfl, rfl, rfl⟩

/-! ## Storing -/

/-- The first section of `store`. -/
def reserve (chunk : Chunk) : Action StorageManager Bytes := do
  let identity := chunk.metadata.identity
  let id ← identity.deterministicFilename
  let manager ← get
  throwIf (manager.index.contains identity = true ∨ id ∈ manager.inFlightStores)
    (.invalidArgument "duplicate chunk identity in storage manager")
  set { manager with inFlightStores := insert id manager.inFlightStores }
  pure id

/-- `ChunkStore::store` -/
def writeChunk (chunk : Chunk) : Action StorageManager Unit := fun manager =>
  match ChunkStore.prepare policy lz4 chunk with
  | .ok bytes =>
      .ok () (manager.replaceFile
        (ChunkStore.chunkPath policy chunk.metadata.identity.chunkFilename) bytes)
  | .error (.thrown e) => .error e manager
  -- not reached: a chunk of the adapter fits into its buffer
  | .error .outOfBounds => .error (.logicError "chunk written outside of its buffer") manager

/-- The second section of `store`. -/
def publishChunk (chunk : Chunk) : Action StorageManager Unit := do
  let manager ← get
  let next ← manager.index.addMetadata chunk.metadata
  publishIndex policy next
  modify fun manager => { manager with
    inFlightStores := manager.inFlightStores.erase chunk.metadata.identity.chunkFilename }

/-- The handler of `store`. -/
def undoStore (chunk : Chunk) (manager : StorageManager) : StorageManager :=
  { manager.eraseFile (ChunkStore.chunkPath policy chunk.metadata.identity.chunkFilename) with
    inFlightStores := manager.inFlightStores.erase chunk.metadata.identity.chunkFilename }

def store (chunk : Chunk) : Action StorageManager Bytes := do
  let id ← reserve chunk
  Action.attempt
    (do
      writeChunk policy lz4 chunk
      publishChunk policy chunk
      pure id)
    (fun e => do
      modify (undoStore policy chunk)
      throw e)

/-! ## Looking at chunks, loading and removing them -/

def chunkFile? (manager : StorageManager) (entry : ChunkIndexEntry) : Option Bytes :=
  manager.files (ChunkStore.chunkPath policy entry.storageFile)

def contains (manager : StorageManager) (identity : ChunkIdentity) : Bool :=
  match manager.index.find? identity with
  | none => false
  | some entry => (manager.chunkFile? policy entry).isSome

def load (identity : ChunkIdentity) : Action StorageManager (Option Chunk) := do
  let manager ← get
  match manager.index.find? identity with
  | none => pure none
  | some entry =>
      match manager.chunkFile? policy entry with
      | none => pure none
      | some content =>
          StorageSystem.checkLoaded policy lz4 identity entry content content.length

def remove (identity : ChunkIdentity) : Action StorageManager Bool := do
  let manager ← get
  match manager.index.find? identity with
  | none => pure false
  | some entry =>
      match manager.chunkFile? policy entry with
      | none => pure false
      | some _ => do
          set (manager.eraseFile (ChunkStore.chunkPath policy entry.storageFile))
          publishIndex policy (manager.index.remove identity)
          pure true

/-! ## Evictions -/

structure EvictionCandidate where
  chunkId : Bytes
  uncompressedSize : UInt64
  mergeDistance : ℕ
deriving DecidableEq, Repr

/-- The order of the candidates: the farthest first, then the largest, then by name. -/
def EvictionCandidate.before (left right : EvictionCandidate) : Bool :=
  if left.mergeDistance ≠ right.mergeDistance then left.mergeDistance > right.mergeDistance
  else if left.uncompressedSize ≠ right.uncompressedSize then
    left.uncompressedSize > right.uncompressedSize
  else left.chunkId ≤ right.chunkId

/-- The loop over the resident chunks. The distances of the program are 0 and 1, so that they are
finite and not negative. -/
def collectCandidates (mergeDistance : Bytes → Option ℕ) :
    List (Bytes × UInt64) → List Bytes → Except Error (List EvictionCandidate)
  | [], _ => pure []
  | (id, bytes) :: rest, seen => do
      throwIf (id ∈ seen) (.invalidArgument "duplicate resident chunk id")
      let distance := (mergeDistance id).getD 0
      let candidates ← collectCandidates mergeDistance rest (id :: seen)
      if distance = 0 ∨ bytes = 0 then pure candidates
      else pure (⟨id, bytes, distance⟩ :: candidates)

def getEvictionCandidates (residentChunks : List (Bytes × UInt64))
    (mergeDistance : Bytes → Option ℕ) (budget : UInt64) :
    Except Error (List EvictionCandidate) := do
  throwIf (budget = 0) (.invalidArgument "eviction budget must be greater than zero")
  let candidates ← collectCandidates mergeDistance residentChunks []
  pure (candidates.mergeSort EvictionCandidate.before)

/-- A sum that stays at the largest value. -/
def saturatingAdd (total bytes : UInt64) : UInt64 :=
  if uint64Max - total < bytes then uint64Max else total + bytes

/-- The candidates taken until enough bytes are evicted, and the bytes they have. -/
def evictUntilBudgetSatisfied (neededBytes : UInt64) :
    List EvictionCandidate → UInt64 → List EvictionCandidate × UInt64
  | [], evictedBytes => ([], evictedBytes)
  | candidate :: rest, evictedBytes =>
      if evictedBytes ≥ neededBytes then ([], evictedBytes)
      else
        let (selected, total) := evictUntilBudgetSatisfied neededBytes rest
          (saturatingAdd evictedBytes candidate.uncompressedSize)
        (candidate :: selected, total)

structure EvictionPlan where
  candidates : List EvictionCandidate
  budgetSatisfied : Bool
deriving DecidableEq, Repr

def planEvictions (residentChunks : List (Bytes × UInt64)) (residentSet : List Bytes)
    (mergeDistance : Bytes → Option ℕ) (memoryBudgetBytes neededBytes : UInt64) :
    Except Error EvictionPlan := do
  let candidates ← getEvictionCandidates residentChunks mergeDistance memoryBudgetBytes
  let (selected, evictedBytes) := evictUntilBudgetSatisfied neededBytes
    (candidates.filter fun candidate => candidate.chunkId ∈ residentSet) 0
  pure ⟨selected, evictedBytes ≥ neededBytes⟩

end StorageManager

end GiveMePi.Storage
