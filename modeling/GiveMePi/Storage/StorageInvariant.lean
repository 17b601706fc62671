import GiveMePi.Storage.StoredFiles

/-! # What clients own

Every client has the places of the chunk it stores for itself, and those of the index as long as it
has the mutex. What a client knows of its places, no other client changes. -/

namespace GiveMePi.Storage

open StorageSystem

/-! ## Roles -/

/-- What a call has to do with the index and the chunks. -/
structure Roles where
  /-- The client has the mutex. -/
  holds : Bool := false
  /-- The chunk that it stores. -/
  storing : Option Chunk := none
  /-- The identity whose file it is about to take away. -/
  unlinking : Option ChunkIdentity := none
  /-- The identity whose file it has taken away, and that the index still has. -/
  removing : Option ChunkIdentity := none
  /-- The index that it has put on disk. -/
  published : Option ChunkIndex := none

def Purpose.storing : Purpose → Option Chunk
  | store chunk => some chunk
  | remove _ => none

def Purpose.removing : Purpose → Option ChunkIdentity
  | store _ => none
  | remove identity => some identity

/-- The identity that a publication is about, and its chunk afterwards. -/
def Purpose.identity : Purpose → ChunkIdentity
  | store chunk => chunk.metadata.identity
  | remove identity => identity

def Purpose.commit : Purpose → Commit
  | store chunk => .stored chunk.metadata.identity
  | remove identity => .removed identity

def PublishStage.published (next : ChunkIndex) : PublishStage → Option ChunkIndex
  | sync => some next
  | _ => none

def StorageCall.roles : StorageCall → Roles
  | storePrepare chunk | storeWrite chunk _ | storeRename chunk | storeSync chunk
  | storeDiscard chunk _ | storeLock chunk | storeFailed chunk _ => { storing := some chunk }
  | storeUndo chunk _ | storeUndoSync chunk _ => { holds := true, storing := some chunk }
  | publish purpose next stage =>
      { holds := true, storing := purpose.storing, removing := purpose.removing
        published := stage.published next }
  | removeFile identity _ => { holds := true, unlinking := some identity }
  | removeSync identity => { holds := true, removing := some identity }
  | _ => {}

/-- The change of the index that a call has made and is about to return from. -/
def StorageCall.commit? : StorageCall → Option Commit
  | returned result => commitOf result
  | _ => none

/-- The identity is the one of the chunk that is stored. -/
def Roles.Stores (roles : Roles) (identity : ChunkIdentity) : Prop :=
  ∃ chunk, roles.storing = some chunk ∧ chunk.metadata.identity = identity

/-- The places that a call may change. -/
def Roles.Owns (roles : Roles) : Place → Prop
  | .chunk identity => roles.Stores identity ∨ roles.unlinking = some identity
  | .temporary identity => roles.Stores identity
  | .index | .indexTemp _ => roles.holds = true

/-! ## What a client knows -/

section Phase

variable {ι : Type} (policy : StoragePolicy) (lz4 : Lz4) (system : StorageSystem ι)

/-- The temporary file of a chunk will hold the chunk behind the rest of its script. -/
def Staged (chunk : Chunk) (script : List FileCommand) : Prop :=
  (∀ command ∈ script,
    command.IsOn ((Place.temporary chunk.metadata.identity).path policy system.processId)) ∧
    ∃ bytes, (FileCommand.applyAll script system.files).lookup
      ((Place.temporary chunk.metadata.identity).path policy system.processId) = some bytes ∧
        IsStoredAs policy lz4 chunk bytes

/-- What the next index is made of. -/
def IsNext (next : ChunkIndex) : Purpose → Prop
  | .store chunk => system.index.add (ChunkIndex.entryOf chunk.metadata) = .ok next ∧
      HasChunk policy lz4 system.files chunk
  | .remove identity => next = system.index.remove identity ∧
      ∃ chunk, system.contents identity = some chunk

/-- The temporary file of the index will hold the next index. -/
def IsPublished (purpose : Purpose) (next : ChunkIndex) : PublishStage → Prop
  | .write temp script => ∃ sequence,
      temp = (Place.indexTemp sequence).path policy system.processId ∧
        (∀ command ∈ script, command.IsOn temp) ∧
          (FileCommand.applyAll script system.files).lookup temp =
            some (ChunkIndex.indexBytes next)
  | .rename temp => ∃ sequence, temp = (Place.indexTemp sequence).path policy system.processId ∧
      system.files.lookup temp = some (ChunkIndex.indexBytes next)
  | .sync => True
  | .discard temp _ => (∃ sequence, temp = (Place.indexTemp sequence).path policy system.processId) ∧
      ∃ chunk, purpose = .store chunk

def Phase : StorageCall → Prop
  | .storeWrite chunk script => Staged policy lz4 system chunk script
  | .storeRename chunk => Staged policy lz4 system chunk []
  | .storeSync chunk | .storeLock chunk => HasChunk policy lz4 system.files chunk
  | .publish purpose next stage => IsNext policy lz4 system next purpose ∧
      ChunkIndex.IsWithinLimits next ∧ IsPublished policy system purpose next stage
  | .removeFile identity storageFile => storageFile = identity.chunkFilename ∧
      ∃ chunk, system.contents identity = some chunk
  | .removeSync identity => ∃ chunk, system.contents identity = some chunk
  | _ => True

variable {policy lz4 system} {system' : StorageSystem ι}

theorem Staged.congr {chunk : Chunk} {script : List FileCommand}
    (h : Staged policy lz4 system chunk script) (hprocess : system'.processId = system.processId)
    (hsame : system'.files.lookup
        ((Place.temporary chunk.metadata.identity).path policy system.processId) =
      system.files.lookup
        ((Place.temporary chunk.metadata.identity).path policy system.processId)) :
    Staged policy lz4 system' chunk script := by
  obtain ⟨hon, bytes, hlookup, hbytes⟩ := h
  rw [Staged, hprocess]
  exact ⟨hon, bytes, (FileCommand.lookup_applyAll_congr hon hsame).trans hlookup, hbytes⟩

theorem IsPublished.congr {purpose : Purpose} {next : ChunkIndex} {stage : PublishStage}
    (h : IsPublished policy system purpose next stage)
    (hprocess : system'.processId = system.processId)
    (hsame : ∀ sequence, system'.files.lookup
        ((Place.indexTemp sequence).path policy system.processId) =
      system.files.lookup ((Place.indexTemp sequence).path policy system.processId)) :
    IsPublished policy system' purpose next stage := by
  cases stage with
  | write temp script =>
      obtain ⟨sequence, rfl, hon, hlookup⟩ := h
      exact ⟨sequence, by rw [hprocess], hon,
        (FileCommand.lookup_applyAll_congr hon (hsame sequence)).trans hlookup⟩
  | rename temp =>
      obtain ⟨sequence, rfl, hlookup⟩ := h
      exact ⟨sequence, by rw [hprocess], (hsame sequence).trans hlookup⟩
  | sync => trivial
  | discard temp error =>
      obtain ⟨⟨sequence, rfl⟩, hpurpose⟩ := h
      exact ⟨⟨sequence, by rw [hprocess]⟩, hpurpose⟩

theorem IsNext.congr {next : ChunkIndex} {purpose : Purpose}
    (h : IsNext policy lz4 system next purpose) (hindex : system'.index = system.index)
    (hcontents : system'.contents = system.contents)
    (hsame : ∀ chunk, purpose.storing = some chunk → system'.files.lookup
        ((Place.chunk chunk.metadata.identity).path policy system.processId) =
      system.files.lookup ((Place.chunk chunk.metadata.identity).path policy system.processId)) :
    IsNext policy lz4 system' next purpose := by
  cases purpose with
  | store chunk =>
      refine ⟨?_, h.2.congr (hsame chunk rfl)⟩
      rw [hindex]
      exact h.1
  | remove identity =>
      rw [IsNext, hindex, hcontents]
      exact h

/-- What a client knows depends on its own places, and on the index as long as it has the mutex. -/
theorem Phase.congr {call : StorageCall} (h : Phase policy lz4 system call)
    (hprocess : system'.processId = system.processId)
    (hfiles : ∀ place, call.roles.Owns place → system'.files.lookup
      (place.path policy system.processId) = system.files.lookup (place.path policy system.processId))
    (hindex : call.roles.holds = true →
      system'.index = system.index ∧ system'.contents = system.contents) :
    Phase policy lz4 system' call := by
  cases call with
  | storeWrite chunk script =>
      exact Staged.congr h hprocess (hfiles (.temporary _) ⟨chunk, rfl, rfl⟩)
  | storeRename chunk => exact Staged.congr h hprocess (hfiles (.temporary _) ⟨chunk, rfl, rfl⟩)
  | storeSync chunk | storeLock chunk =>
      exact HasChunk.congr h (hfiles (.chunk _) (Or.inl ⟨chunk, rfl, rfl⟩))
  | publish purpose next stage =>
      obtain ⟨hnext, hlimits, hpublished⟩ := h
      obtain ⟨hsame, hcontents⟩ := hindex rfl
      exact ⟨hnext.congr hsame hcontents fun chunk hchunk =>
        hfiles (.chunk _) (Or.inl ⟨chunk, hchunk, rfl⟩), hlimits,
        hpublished.congr hprocess fun sequence => hfiles (.indexTemp _) rfl⟩
  | removeFile identity storageFile =>
      simpa only [Phase, (hindex rfl).2] using h
  | removeSync identity => simpa only [Phase, (hindex rfl).2] using h
  | _ => trivial

theorem IsNext.isWellFormed {purpose : Purpose} {next : ChunkIndex}
    (h : IsNext policy lz4 system next purpose) (hindex : ChunkIndex.IsWellFormed system.index) :
    ChunkIndex.IsWellFormed next := by
  cases purpose with
  | store chunk => exact hindex.add h.1
  | remove identity =>
      rw [h.1]
      exact hindex.remove identity

theorem IsNext.find? {purpose : Purpose} {next : ChunkIndex}
    (h : IsNext policy lz4 system next purpose) (identity : ChunkIdentity) :
    next.find? identity = if identity = purpose.identity then
      purpose.storing.map fun chunk => ChunkIndex.entryOf chunk.metadata
    else system.index.find? identity := by
  cases purpose with
  | store chunk => exact ChunkIndex.find?_add h.1 identity
  | remove removed =>
      rw [h.1]
      exact ChunkIndex.find?_remove system.index removed identity

end Phase

/-! ## Consistency -/

section Consistent

variable {ι : Type} (policy : StoragePolicy) (lz4 : Lz4)

/-- The index in memory is the one of the chunks, one client at a time has the mutex, every chunk is
stored by one client and not indexed meanwhile, every indexed chunk has its file, and the index on
disk is the one in memory or the one that is being published. -/
structure IsConsistent (system : StorageSystem ι) : Prop where
  wellFormed : ChunkIndex.IsWellFormed system.index
  limits : ChunkIndex.IsWithinLimits system.index
  refines : ∀ identity, system.index.find? identity =
    (system.contents identity).map fun chunk => ChunkIndex.entryOf chunk.metadata
  named : ∀ identity chunk, system.contents identity = some chunk →
    chunk.metadata.identity = identity
  locked : ∀ client, (system.calls client).roles.holds = true → system.locked = true
  exclusive : ∀ client client', (system.calls client).roles.holds = true →
    (system.calls client').roles.holds = true → client = client'
  inFlight : ∀ client chunk, (system.calls client).roles.storing = some chunk →
    chunk.metadata.identity.IsValid ∧
      chunk.metadata.identity.chunkFilename ∈ system.inFlightStores ∧
        system.contents chunk.metadata.identity = none
  apart : ∀ client client' identity, (system.calls client).roles.Stores identity →
    (system.calls client').roles.Stores identity → client = client'
  stored : ∀ identity chunk, system.contents identity = some chunk →
    (∀ client, (system.calls client).roles.removing ≠ some identity) →
      HasChunk policy lz4 system.files chunk
  onDisk : (∀ client, (system.calls client).roles.published = none) →
    ChunkIndex.load policy system.files = .ok system.index
  published : ∀ client next, (system.calls client).roles.published = some next →
    ChunkIndex.load policy system.files = .ok next
  phase : ∀ client, Phase policy lz4 system (system.calls client)

variable {policy lz4} {system system' : StorageSystem ι}

/-- Only the client with the mutex publishes. -/
theorem StorageCall.holds_of_published {call : StorageCall} {next : ChunkIndex}
    (h : call.roles.published = some next) : call.roles.holds = true := by
  cases call with
  | publish purpose next' stage => rfl
  | _ => cases h

theorem StorageCall.holds_of_removing {call : StorageCall} {identity : ChunkIdentity}
    (h : call.roles.removing = some identity) : call.roles.holds = true := by
  cases call with
  | publish purpose next stage => rfl
  | removeSync identity' => rfl
  | _ => cases h

theorem StorageCall.eq_of_unlinking {call : StorageCall} {identity : ChunkIdentity}
    (h : call.roles.unlinking = some identity) :
    ∃ storageFile, call = .removeFile identity storageFile := by
  cases call with
  | removeFile identity' storageFile =>
      cases h
      exact ⟨storageFile, rfl⟩
  | _ => cases h

namespace IsConsistent

theorem contents_of_unlinking (h : IsConsistent policy lz4 system) {client : ι}
    {identity : ChunkIdentity} (hclient : (system.calls client).roles.unlinking = some identity) :
    ∃ chunk, system.contents identity = some chunk := by
  obtain ⟨storageFile, hcall⟩ := StorageCall.eq_of_unlinking hclient
  have hphase := h.phase client
  rw [hcall] at hphase
  exact hphase.2

/-- No place has two owners. -/
theorem owner_unique (h : IsConsistent policy lz4 system) {client client' : ι} {place : Place}
    (howns : (system.calls client).roles.Owns place)
    (howns' : (system.calls client').roles.Owns place) : client = client' := by
  have hmixed {client client' : ι} {identity : ChunkIdentity}
      (hstores : (system.calls client).roles.Stores identity)
      (hunlinks : (system.calls client').roles.unlinking = some identity) : False := by
    obtain ⟨chunk, hstoring, rfl⟩ := hstores
    obtain ⟨chunk', hcontents⟩ := h.contents_of_unlinking hunlinks
    rw [(h.inFlight client chunk hstoring).2.2] at hcontents
    cases hcontents
  cases place with
  | temporary identity => exact h.apart client client' identity howns howns'
  | index | indexTemp sequence => exact h.exclusive client client' howns howns'
  | chunk identity =>
      rcases howns with hstores | hunlinks
      · rcases howns' with hstores' | hunlinks'
        · exact h.apart client client' identity hstores hstores'
        · exact (hmixed hstores hunlinks').elim
      · rcases howns' with hstores' | hunlinks'
        · exact (hmixed hstores' hunlinks).elim
        · obtain ⟨_, hcall⟩ := StorageCall.eq_of_unlinking hunlinks
          obtain ⟨_, hcall'⟩ := StorageCall.eq_of_unlinking hunlinks'
          exact h.exclusive client client' (by rw [hcall]; rfl) (by rw [hcall']; rfl)

/-- An entry of the index is the one of an indexed chunk. -/
theorem contents_of_find? (h : IsConsistent policy lz4 system) {identity : ChunkIdentity} {entry : ChunkIndexEntry}
    (hentry : system.index.find? identity = some entry) :
    ∃ chunk, system.contents identity = some chunk ∧ chunk.metadata.identity = identity ∧
      entry = ChunkIndex.entryOf chunk.metadata := by
  rw [h.refines identity, Option.map_eq_some_iff] at hentry
  obtain ⟨chunk, hcontents, rfl⟩ := hentry
  exact ⟨chunk, hcontents, h.named identity chunk hcontents, rfl⟩

/-- An indexed chunk is not among those that are stored. -/
theorem not_stores (h : IsConsistent policy lz4 system) {client : ι} {identity : ChunkIdentity}
    {chunk : Chunk} (hcontents : system.contents identity = some chunk) :
    ¬ (system.calls client).roles.Stores identity := by
  intro hstores
  obtain ⟨chunk', hstoring, rfl⟩ := hstores
  rw [(h.inFlight client chunk' hstoring).2.2] at hcontents
  cases hcontents

end IsConsistent

/-! ## A disk to begin with -/

variable (policy lz4) in
/-- The index of the disk loads, and every chunk that it names has its file. -/
structure IsConsistentDisk (files : FileSystem) (index : ChunkIndex) : Prop where
  load : ChunkIndex.load policy files = .ok index
  stored : ∀ identity entry, index.find? identity = some entry →
    ∃ chunk, HasChunk policy lz4 files chunk ∧ chunk.metadata.identity = identity ∧
      entry = ChunkIndex.entryOf chunk.metadata

variable {files : FileSystem} {index : ChunkIndex}

theorem IsConsistentDisk.contentsOf_eq (h : IsConsistentDisk policy lz4 files index)
    {identity : ChunkIdentity} {entry : ChunkIndexEntry} (hentry : index.find? identity = some entry) :
    ∃ chunk, contentsOf policy lz4 files index identity = some chunk ∧
      HasChunk policy lz4 files chunk ∧ chunk.metadata.identity = identity ∧
        entry = ChunkIndex.entryOf chunk.metadata := by
  obtain ⟨chunk, hchunk, hidentity, rfl⟩ := h.stored identity entry hentry
  obtain ⟨bytes, hlookup, hdecode, hcompression⟩ := hchunk
  refine ⟨chunk, ?_, ⟨bytes, hlookup, hdecode, hcompression⟩, hidentity, rfl⟩
  simp only [contentsOf, hentry, ChunkIndex.entryOf, hlookup, hdecode, bind, Option.bind,
    Except.toOption]

theorem contentsOf_eq_none {identity : ChunkIdentity} (hnone : index.find? identity = none) :
    contentsOf policy lz4 files index identity = none := by
  simp only [contentsOf, hnone, bind, Option.bind]

theorem IsConsistentDisk.of_contentsOf (h : IsConsistentDisk policy lz4 files index)
    {identity : ChunkIdentity} {chunk : Chunk}
    (hcontents : contentsOf policy lz4 files index identity = some chunk) :
    HasChunk policy lz4 files chunk ∧ chunk.metadata.identity = identity := by
  cases hentry : index.find? identity with
  | none =>
      rw [contentsOf_eq_none hentry] at hcontents
      cases hcontents
  | some entry =>
      obtain ⟨chunk', hcontents', hchunk, hidentity, _⟩ := h.contentsOf_eq hentry
      rw [hcontents'] at hcontents
      cases hcontents
      exact ⟨hchunk, hidentity⟩

/-- A manager that is constructed on a consistent disk is consistent. -/
theorem IsConsistentDisk.isConsistent (h : IsConsistentDisk policy lz4 files index)
    (processId : ℕ) :
    IsConsistent policy lz4 (opened policy lz4 files processId index : StorageSystem ι) where
  wellFormed := (ChunkIndex.of_load h.load).1
  limits := (ChunkIndex.of_load h.load).2
  refines identity := by
    change index.find? identity = (contentsOf policy lz4 files index identity).map _
    cases hentry : index.find? identity with
    | none => rw [contentsOf_eq_none hentry, Option.map_none]
    | some entry =>
        obtain ⟨chunk, hcontents, _, _, rfl⟩ := h.contentsOf_eq hentry
        rw [hcontents, Option.map_some]
  named _ _ hcontents := (h.of_contentsOf hcontents).2
  locked _ hholds := by cases hholds
  exclusive _ _ hholds := by cases hholds
  inFlight _ _ hstoring := by cases hstoring
  apart _ _ _ hstores := by
    obtain ⟨_, hstoring, _⟩ := hstores
    cases hstoring
  stored _ _ hcontents _ := (h.of_contentsOf hcontents).1
  onDisk _ := h.load
  published _ _ hpublished := by cases hpublished
  phase _ := trivial

end Consistent

end GiveMePi.Storage
