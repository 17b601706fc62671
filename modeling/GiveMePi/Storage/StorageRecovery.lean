import GiveMePi.Storage.StorageSteps
import Mathlib.Logic.Relation

/-! # Failures and crashes of the storage manager

The operations of a manager one after the other, any of whose commands may fail and which may end at
any step. -/

/-! ## Runs of one client

Where a call leads whose steps are not mixed with those of others: a store whose files can be written
publishes its chunk. -/

namespace GiveMePi.Storage

open StorageSystem

variable {ι : Type} [DecidableEq ι] (policy : StoragePolicy) (lz4 : Lz4)

/-- Steps of one client in a row, none of which fails. -/
def Run (client : ι) : StorageSystem ι → StorageSystem ι → Prop :=
  Relation.ReflTransGen (Step policy lz4 (.call client .done))

/-- The client's own steps lead from the system to the call; the index and the other clients stay the
same. -/
def Leads (client : ι) (system : StorageSystem ι) (call : StorageCall) (locked : Bool) : Prop :=
  ∃ system', Run policy lz4 client system system' ∧ IsConsistent policy lz4 system' ∧
    system'.calls client = call ∧ system'.index = system.index ∧ system'.locked = locked ∧
      ∀ other ≠ client, system'.calls other = system.calls other

variable {policy lz4} {client : ι} {system : StorageSystem ι} {call call' : StorageCall}
  {locked locked' : Bool}

/-- One more step. -/
theorem Leads.tail (hlz4 : lz4.IsLossless) {before after : StorageSystem ι}
    (hrun : Run policy lz4 client system before) (hconsistent : IsConsistent policy lz4 before)
    (hindex : before.index = system.index)
    (hothers : ∀ other ≠ client, before.calls other = system.calls other)
    (hs : Step policy lz4 (.call client .done) before after) (hcall : after.calls client = call')
    (hindex' : after.index = before.index) (hlocked' : after.locked = locked') :
    Leads policy lz4 client system call' locked' := by
  have heffect := hconsistent.effect hlz4 hs (Or.inl rfl)
  exact ⟨after, hrun.tail hs, hconsistent.step heffect, hcall, hindex'.trans hindex, hlocked',
    fun other hne => (heffect.calls_of_ne hne).trans (hothers other hne)⟩

/-- One more step, from wherever the steps so far have led. -/
theorem Leads.step (hlz4 : lz4.IsLossless) (h : Leads policy lz4 client system call locked)
    (hstep : ∀ before, IsConsistent policy lz4 before → before.calls client = call →
      before.index = system.index → before.locked = locked →
        ∃ after, Step policy lz4 (.call client .done) before after ∧ after.calls client = call' ∧
          after.index = before.index ∧ after.locked = locked') :
    Leads policy lz4 client system call' locked' := by
  obtain ⟨before, hrun, hconsistent, hcall, hindex, hlocked, hothers⟩ := h
  obtain ⟨after, hs, hcall', hindex', hlocked'⟩ := hstep before hconsistent hcall hindex hlocked
  exact Leads.tail hlz4 hrun hconsistent hindex hothers hs hcall' hindex' hlocked'

/-- The commands of a script are performed one by one. -/
theorem Leads.storeWrite (hlz4 : lz4.IsLossless) {chunk : Chunk} {script : List FileCommand}
    (h : Leads policy lz4 client system (.storeWrite chunk script) false) :
    Leads policy lz4 client system (.storeRename chunk) false := by
  induction script with
  | nil =>
      refine h.step hlz4 fun before _ hcall _ hlocked => ?_
      exact ⟨_, .store (.written hcall), goto_calls _ _ _, rfl, hlocked⟩
  | cons command script ih =>
      refine ih (h.step hlz4 fun before _ hcall _ hlocked => ?_)
      exact ⟨_, .store (.write hcall), goto_calls _ _ _, rfl, hlocked⟩

theorem Leads.publishWrite (hlz4 : lz4.IsLossless) {purpose : Purpose} {next : ChunkIndex}
    {temp : Path} {script : List FileCommand}
    (h : Leads policy lz4 client system (.publish purpose next (.write temp script)) true) :
    Leads policy lz4 client system (.publish purpose next (.rename temp)) true := by
  induction script with
  | nil =>
      refine h.step hlz4 fun before _ hcall _ hlocked => ?_
      exact ⟨_, .publish (.written hcall), goto_calls _ _ _, rfl, hlocked⟩
  | cons command script ih =>
      refine ih (h.step hlz4 fun before _ hcall _ hlocked => ?_)
      exact ⟨_, .publish (.write hcall), goto_calls _ _ _, rfl, hlocked⟩

/-- The next index is put in the place of the one on disk. -/
theorem Leads.publishRename (hlz4 : lz4.IsLossless) {purpose : Purpose} {next : ChunkIndex}
    {temp : Path}
    (h : Leads policy lz4 client system (.publish purpose next (.rename temp)) true) :
    Leads policy lz4 client system (.publish purpose next .sync) true := by
  refine h.step hlz4 fun before hconsistent hcall _ hlocked => ?_
  have hphase := hconsistent.phase client
  rw [hcall] at hphase
  obtain ⟨_, _, sequence, _, hlookup⟩ := hphase
  exact ⟨_, .publish (.rename hcall (by rw [hlookup]; rfl)), goto_calls _ _ _, rfl, hlocked⟩

/-- There is a name that no file has. -/
theorem exists_fresh (policy : StoragePolicy) (files : FileSystem) (processId : ℕ) :
    ∃ sequence, files.lookup (ChunkIndex.indexTemp policy processId sequence) = none := by
  have hinjective : Function.Injective (ChunkIndex.indexTemp policy processId) :=
    fun _ _ h => indexTemp_injective policy processId h
  obtain ⟨sequence, hfresh⟩ := Infinite.exists_notMem_finset
    (files.keys.toFinset.preimage _ hinjective.injOn)
  refine ⟨sequence, AList.lookup_eq_none.mpr fun hmem => hfresh ?_⟩
  simpa [← AList.mem_keys] using hmem

/-- A store without failures comes to the last step of its publication. -/
theorem leads_store (hlz4 : lz4.IsLossless) (h : IsConsistent policy lz4 system) {chunk : Chunk}
    {next : ChunkIndex} {bytes : Bytes} (hidle : system.calls client = .idle)
    (hfree : system.locked = false)
    (hnot : chunk.metadata.identity.chunkFilename ∉ system.inFlightStores)
    (hprepare : ChunkStore.prepare policy lz4 chunk = .ok bytes)
    (hadd : system.index.add (ChunkIndex.entryOf chunk.metadata) = .ok next)
    (hlimits : ChunkIndex.IsWithinLimits next) :
    Leads policy lz4 client system (.publish (.store chunk) next .sync) true := by
  obtain ⟨hvalid, hfresh, _, _⟩ := ChunkIndex.add_eq_ok.mp hadd
  have hname : chunk.metadata.identity.deterministicFilename =
      .ok chunk.metadata.identity.chunkFilename := by
    simp only [ChunkIdentity.deterministicFilename, bind_eq_ok, ChunkIdentity.validate_eq_ok,
      pure_eq_ok, and_true]
    exact ⟨(), hvalid.identity⟩
  have hentered : Leads policy lz4 client system (.storePrepare chunk) false :=
    Leads.tail hlz4 .refl h rfl (fun _ _ => rfl) (.store (.enter hidle hname hfree hfresh hnot))
      (goto_calls _ _ _) rfl hfree
  have hprepared : ∃ script, Leads policy lz4 client system (.storeWrite chunk script) false := by
    obtain ⟨before, hrun, hconsistent, hcall, hindex, hlocked, hothers⟩ := hentered
    have hpieces : [bytes].flatten = bytes := by simp
    exact ⟨_, Leads.tail hlz4 hrun hconsistent hindex hothers
      (.store (.prepare hcall hprepare hpieces)) (goto_calls _ _ _) rfl hlocked⟩
  obtain ⟨script, hprepared⟩ := hprepared
  have hrenamed : Leads policy lz4 client system (.storeSync chunk) false := by
    refine (hprepared.storeWrite hlz4).step hlz4 fun before hconsistent hcall _ hlocked => ?_
    have hphase := hconsistent.phase client
    rw [hcall] at hphase
    obtain ⟨_, _, hlookup, _⟩ := hphase
    exact ⟨_, .store (.rename hcall (Option.isSome_iff_exists.mpr ⟨_, hlookup⟩)), goto_calls _ _ _,
      rfl, hlocked⟩
  have hsynced : Leads policy lz4 client system (.storeLock chunk) false :=
    hrenamed.step hlz4 fun before _ hcall _ hlocked =>
      ⟨_, .store (.sync hcall), goto_calls _ _ _, rfl, hlocked⟩
  obtain ⟨before, hrun, hconsistent, hcall, hindex, hlocked, hothers⟩ := hsynced
  obtain ⟨sequence, htemp⟩ := exists_fresh policy before.files before.processId
  have hpieces : [ChunkIndex.indexBytes next].flatten = ChunkIndex.indexBytes next := by simp
  have hpublish : Leads policy lz4 client system _ true :=
    Leads.tail hlz4 hrun hconsistent hindex hothers
      (.store (.publish hcall hlocked (ChunkIndex.addMetadata_eq_ok.mpr (hindex ▸ hadd))
        (ChunkIndex.serialize_eq_ok.mpr ⟨rfl, hlimits⟩) hpieces htemp)) (goto_calls _ _ _) rfl rfl
  exact (hpublish.publishWrite hlz4).publishRename hlz4

end GiveMePi.Storage

namespace GiveMePi.Storage

open StorageSystem ChunkCodec
open Library (OrderedMap)

variable (policy : StoragePolicy) (lz4 : Lz4)

/-! ## What failures leave -/

/-- The file of an entry is there and holds a chunk of the recorded size and checksum. -/
def HasRecorded (files : FileSystem) (entry : ChunkIndexEntry) : Prop :=
  ∃ bytes chunk, files.lookup (ChunkStore.chunkPath policy entry.storageFile) = some bytes ∧
    ChunkCodec.decode lz4 bytes = .ok chunk ∧ chunk.metadata.identity = entry.identity ∧
      chunk.metadata.storedSize = entry.storedSize ∧
        chunk.metadata.checksumValue = entry.checksumValue

/-- A call that ends with an exception. -/
def StorageResult.IsFailure : StorageResult → Prop
  | stored _ (.error _) | loaded _ (.error _) | removed _ (.error _) => True
  | _ => False

/-- Nothing is in the course of a call. -/
def IsBetweenCalls (call : StorageCall) : Prop :=
  call = .idle ∨ ∃ result, call = .returned result

/-- The index, its file and the files of the indexed chunks are as the call found them. -/
structure IsUntouched {ι : Type} (system : StorageSystem ι) (client : ι) : Prop where
  index : system.index = (system.began client).index
  indexFile : system.files.lookup (ChunkIndex.indexPath policy) =
    (system.began client).files.lookup (ChunkIndex.indexPath policy)
  chunkFiles : ∀ entry ∈ system.index.entries,
    system.files.lookup (ChunkStore.chunkPath policy entry.2.storageFile) =
      (system.began client).files.lookup (ChunkStore.chunkPath policy entry.2.storageFile)

/-- The index can be loaded; between calls every entry in memory and on disk has its file; a call that
has thrown has changed none of them. -/
structure IsRecovered (system : StorageSystem Unit) : Prop where
  opens : ∃ onDisk, ChunkIndex.load policy system.files = .ok onDisk
  inMemory : IsBetweenCalls (system.calls ()) →
    ∀ entry ∈ system.index.entries, HasRecorded policy lz4 system.files entry.2
  onDisk : IsBetweenCalls (system.calls ()) → ∀ onDisk,
    ChunkIndex.load policy system.files = .ok onDisk →
      ∀ entry ∈ onDisk.entries, HasRecorded policy lz4 system.files entry.2
  failed : ∀ result, system.calls () = .returned result → result.IsFailure →
    IsUntouched policy system ()

/-- One call after the other on a disk, with any failures and crashes. -/
def sequential (files : FileSystem) (processId : ℕ) (index : ChunkIndex) :
    Library.TransitionSystem (StorageSystem Unit) where
  initial system := system = opened policy lz4 files processId index
  step system system' := ∃ label, Step policy lz4 label system system'

/-- One call after the other, with failures and crashes that leave every entry its file. -/
def enduring (files : FileSystem) (processId : ℕ) (index : ChunkIndex) :
    Library.TransitionSystem (StorageSystem Unit) where
  initial system := system = opened policy lz4 files processId index
  step system system' := ∃ label, Step policy lz4 label system system' ∧ IsEndured system label

variable {policy lz4}

/-! ## Calls that change nothing -/

section Untouched

variable {ι : Type} [DecidableEq ι] {system system' : StorageSystem ι} {client : ι}
  {call : StorageCall}

omit [DecidableEq ι] in
theorem storageFile_eq (h : IsConsistent policy lz4 system)
    {entry : ChunkIdentity × ChunkIndexEntry} (hentry : entry ∈ system.index.entries) :
    entry.2.storageFile = entry.1.chunkFilename ∧
      ∃ chunk, system.contents entry.1 = some chunk := by
  obtain ⟨chunk, hcontents, hidentity, heq⟩ :=
    h.contents_of_find? (OrderedMap.find?_eq_some_iff.mpr hentry)
  rw [heq, ← hidentity]
  exact ⟨rfl, chunk, hidentity.symm ▸ hcontents⟩

/-- A move that takes no file away and publishes nothing leaves the index and the indexed files. -/
theorem Move.lookup_eq (m : Move policy lz4 client call system system')
    (h : IsConsistent policy lz4 system) (hremoving : call.roles.removing = none)
    {identity : ChunkIdentity} {chunk : Chunk} (hcontents : system.contents identity = some chunk) :
    system'.files.lookup (ChunkStore.chunkPath policy identity.chunkFilename) =
      system.files.lookup (ChunkStore.chunkPath policy identity.chunkFilename) := by
  by_cases hunlinking : (system.calls client).roles.unlinking = some identity
  · refine (m.unlinking identity hunlinking).resolve_left ?_
    rw [hremoving]
    simp
  · exact m.files (.chunk identity) fun howns => howns.elim (h.not_stores hcontents) hunlinking

/-- The call has not changed anything yet. -/
def IsUntouchedSoFar (policy : StoragePolicy) (system : StorageSystem ι) (client : ι) : Prop :=
  system.calls client ≠ .idle → (system.calls client).roles.removing = none →
    (system.calls client).roles.published = none → (system.calls client).commit? = none →
      IsUntouched policy system client

theorem Move.isUntouched (m : Move policy lz4 client call system system')
    (h : IsConsistent policy lz4 system) (hcommit : (system.calls client).commit? = none)
    (huntouched : IsUntouchedSoFar policy system client) :
    IsUntouchedSoFar policy system' client := by
  intro _ hremoving hpublished _
  rw [m.calls_self] at hremoving hpublished
  have hindex := m.onDisk hpublished
  have hchunks : ∀ entry ∈ system.index.entries,
      system'.files.lookup (ChunkStore.chunkPath policy entry.2.storageFile) =
        system.files.lookup (ChunkStore.chunkPath policy entry.2.storageFile) := by
    intro entry hentry
    obtain ⟨hname, chunk, hcontents⟩ := storageFile_eq h hentry
    rw [hname]
    exact m.lookup_eq h hremoving hcontents
  rcases m.began with ⟨hidle, hbegan⟩ | ⟨hidle, hbegan⟩
  · have hbefore : (system.calls client).roles.removing = none := by
      cases hclient : (system.calls client).roles.removing with
      | none => rfl
      | some identity =>
          rw [m.removing identity hclient] at hremoving
          cases hremoving
    have hold := huntouched hidle hbefore m.unpublished hcommit
    refine ⟨?_, ?_, ?_⟩
    · rw [m.index, hbegan, hold.index]
    · rw [hbegan]
      exact hindex.trans hold.indexFile
    · intro entry hentry
      rw [m.index] at hentry
      rw [hbegan, hchunks entry hentry, hold.chunkFiles entry hentry]
  · have hself : system'.began client = ⟨system.index, system.files, system.commits.length,
        system.removals.length⟩ := by
      rw [hbegan, began_begin_]
    refine ⟨?_, ?_, ?_⟩
    · rw [m.index, hself]
    · rw [hself]
      exact hindex
    · intro entry hentry
      rw [m.index] at hentry
      rw [hself]
      exact hchunks entry hentry

end Untouched

/-! ## Runs -/

section Enduring

variable {files : FileSystem} {processId : ℕ} {index : ChunkIndex} {system : StorageSystem Unit}

theorem enduring_invariant (hlz4 : lz4.IsLossless) (hdisk : IsConsistentDisk policy lz4 files index)
    (h : (enduring policy lz4 files processId index).Reachable system) :
    IsConsistent policy lz4 system ∧ IsUntouchedSoFar policy system () := by
  refine h.invariant (P := fun system => IsConsistent policy lz4 system ∧
    IsUntouchedSoFar policy system ()) ?_ ?_
  · rintro _ rfl
    exact ⟨hdisk.isConsistent processId, fun hidle => absurd rfl hidle⟩
  · intro system system' _ hinvariant hstep
    obtain ⟨hconsistent, huntouched⟩ := hinvariant
    obtain ⟨label, hs, hendured⟩ := hstep
    have heffect := hconsistent.effect hlz4 hs hendured
    refine ⟨hconsistent.step heffect, ?_⟩
    cases heffect with
    | move call hmove _ hcommit => exact hmove.isUntouched hconsistent hcommit huntouched
    | commit purpose next hcall hcommits =>
        intro _ _ _ hcommit
        obtain ⟨result, hcalls, hresult⟩ := hcommits.calls
        rw [hcalls, Function.update_self, StorageCall.commit?, hresult] at hcommit
        cases hcommit
    | finish result hcall heq =>
        intro hidle
        rw [heq] at hidle
        exact absurd (goto_calls _ _ _) hidle
    | reopen processId index hdisk heq =>
        intro hidle
        rw [heq] at hidle
        exact absurd rfl hidle

/-- A call that is over has no role. -/
theorem IsBetweenCalls.roles_eq {call : StorageCall} (h : IsBetweenCalls call) :
    call.roles = {} := by
  rcases h with rfl | ⟨result, rfl⟩
  · rfl
  · rfl

theorem HasChunk.hasRecorded {chunk : Chunk} (h : HasChunk policy lz4 files chunk) :
    HasRecorded policy lz4 files (ChunkIndex.entryOf chunk.metadata) := by
  obtain ⟨bytes, hlookup, hdecode, _⟩ := h
  exact ⟨bytes, chunk, hlookup, hdecode, rfl, rfl, rfl⟩

end Enduring

/-! ## Entries keep their files -/

/-- In every run whose failures and crashes are endured, the entries of both indices have their files,
and a call that throws leaves them as they were. -/
theorem enduring_isRecovered {files : FileSystem} {processId : ℕ} {index : ChunkIndex}
    {system : StorageSystem Unit} (hlz4 : lz4.IsLossless)
    (hdisk : IsConsistentDisk policy lz4 files index)
    (h : (enduring policy lz4 files processId index).Reachable system) :
    IsRecovered policy lz4 system := by
  obtain ⟨hconsistent, huntouched⟩ := enduring_invariant hlz4 hdisk h
  have hload (hpublished : (system.calls ()).roles.published = none) :
      ChunkIndex.load policy system.files = .ok system.index :=
    hconsistent.onDisk fun _ => hpublished
  have hmemory (hbetween : IsBetweenCalls (system.calls ())) :
      ∀ entry ∈ system.index.entries, HasRecorded policy lz4 system.files entry.2 := by
    intro entry hentry
    obtain ⟨chunk, hcontents, _, heq⟩ :=
      hconsistent.contents_of_find? (OrderedMap.find?_eq_some_iff.mpr hentry)
    rw [heq]
    refine (hconsistent.stored _ chunk hcontents fun _ => ?_).hasRecorded
    rw [hbetween.roles_eq]
    simp
  refine ⟨?_, hmemory, ?_, ?_⟩
  · cases hpublished : (system.calls ()).roles.published with
    | none => exact ⟨_, hload hpublished⟩
    | some next => exact ⟨next, hconsistent.published () next hpublished⟩
  · intro hbetween onDisk honDisk
    rw [hload (by rw [hbetween.roles_eq])] at honDisk
    cases honDisk
    exact hmemory hbetween
  · intro result hcall hfailure
    refine huntouched (by rw [hcall]; simp) (by rw [hcall]; rfl) (by rw [hcall]; rfl) ?_
    rw [hcall, StorageCall.commit?]
    cases result with
    | stored chunk result =>
        cases result with
        | ok chunkId => exact hfailure.elim
        | error error => rfl
    | loaded identity result => rfl
    | contained identity result => rfl
    | removed identity result =>
        cases result with
        | ok removed => exact hfailure.elim
        | error error => rfl

/-! ## An index that outlives its chunk -/

/-- The directory before anything is stored. -/
theorem isConsistentDisk_empty (policy : StoragePolicy) (lz4 : Lz4) :
    IsConsistentDisk policy lz4 ∅ ChunkIndex.create where
  load := rfl
  stored _ _ hentry := by cases hentry

/-- The handler of a store removes the chunk of an index that is on disk already, once the directory
of the index cannot be synchronized. -/
theorem syncFails_dangles {policy : StoragePolicy} {lz4 : Lz4} {system : StorageSystem Unit}
    (h : IsConsistent policy lz4 system) {chunk : Chunk} {next : ChunkIndex}
    (hcall : system.calls () = .publish (.store chunk) next .sync) :
    ∃ system', Relation.ReflTransGen (fun a b => ∃ label, Step policy lz4 label a b) system system' ∧
      system'.calls () = .returned (.stored chunk
        (.error (.systemError "sync checkpoint directory"))) ∧
      ChunkIndex.load policy system'.files = .ok next ∧
      next.find? chunk.metadata.identity = some (ChunkIndex.entryOf chunk.metadata) ∧
      system'.files.lookup (ChunkStore.chunkPath policy
        chunk.metadata.identity.chunkFilename) = none := by
  have hphase := h.phase ()
  rw [hcall] at hphase
  obtain ⟨hnext, _, _⟩ := hphase
  have hload := h.published () next (by rw [hcall]; rfl)
  obtain ⟨bytes, hlookup, _⟩ := hnext.2
  let error : Error := .systemError "sync checkpoint directory"
  let failed := system.unlock.goto () (.storeFailed chunk error)
  let undoing := failed.lock.goto () (.storeUndo chunk error)
  let undone := (undoing.perform (.remove (ChunkStore.chunkPath policy
    chunk.metadata.identity.chunkFilename)) .done).goto () (.storeUndoSync chunk error)
  have hfailed : Step policy lz4 (.call () .failedBefore) system failed :=
    .publish (.syncFails hcall (by decide))
  have hundoing : Step policy lz4 (.call () .done) failed undoing :=
    .store (.handle (goto_calls _ _ _) rfl)
  have hundone : Step policy lz4 (.call () .done) undoing undone :=
    .store (.undo (goto_calls _ _ _) (Option.isSome_iff_exists.mpr ⟨bytes, hlookup⟩))
  have hrethrown : Step policy lz4 (.call () .done) undone (undone.rethrow () chunk error) :=
    .store (.undoSync (goto_calls _ _ _))
  refine ⟨undone.rethrow () chunk error, ?_, goto_calls _ _ _, ?_, ?_, ?_⟩
  · exact (((Relation.ReflTransGen.single ⟨_, hfailed⟩).tail ⟨_, hundoing⟩).tail
      ⟨_, hundone⟩).tail ⟨_, hrethrown⟩
  · rw [← hload]
    refine ChunkIndex.load_congr ?_
    have hne : Place.index ≠ .chunk chunk.metadata.identity := by simp
    exact FileCommand.lookup_perform_remove_ne ((Place.path_injective policy 0).ne hne) .done
      system.files
  · rw [hnext.find?]
    exact if_pos rfl
  · exact AList.lookup_erase _ _

/-- The identity of a first chunk. -/
def firstIdentity : ChunkIdentity :=
  ⟨⟨⟨1⟩, 1, 1, 1, 16, 17, 3⟩, ⟨0, 1, 0⟩⟩

/-- A first store comes to the last step of its publication. -/
theorem leads_first {ι : Type} [DecidableEq ι] (client : ι) (lz4 : Lz4) (hlz4 : lz4.IsLossless)
    (directory : Bytes) :
    ∃ next : ChunkIndex, next.contains firstIdentity = true ∧ Leads ⟨directory, .none⟩ lz4 client
      (opened ⟨directory, .none⟩ lz4 ∅ 1 ChunkIndex.create)
      (.publish (.store (chunkOf firstIdentity 1 1 1)) next .sync) true := by
  have hpayload : (Checkpoint.CheckpointBlockCodec.payloadBytes 1 1 1).length ≤ 2 ^ 30 := by decide
  have hidentity : firstIdentity.IsValid := by decide
  obtain ⟨bytes, hprepare⟩ := ChunkStore.prepare_chunkOf directory lz4 hidentity hpayload
  have hadd : ChunkIndex.create.add
      (ChunkIndex.entryOf (chunkOf firstIdentity 1 1 1).metadata) = .ok (ChunkIndex.create.emplace
        firstIdentity (ChunkIndex.entryOf (chunkOf firstIdentity 1 1 1).metadata)) := by
    refine ChunkIndex.add_eq_ok.mpr ⟨⟨hidentity, by decide, rfl, rfl, by decide, by decide⟩, rfl,
      fun _ hmem => absurd hmem List.not_mem_nil, rfl⟩
  exact ⟨_, rfl, leads_store hlz4 ((isConsistentDisk_empty _ lz4).isConsistent 1) rfl rfl
    (Finset.notMem_empty _) hprepare hadd ⟨by decide, by decide⟩⟩

theorem Run.reachable {files : FileSystem} {processId : ℕ} {index : ChunkIndex}
    {system system' : StorageSystem Unit} (hrun : Run policy lz4 () system system')
    (h : (enduring policy lz4 files processId index).Reachable system) :
    (enduring policy lz4 files processId index).Reachable system' :=
  h.run (Relation.ReflTransGen.mono (fun _ _ hs => ⟨_, hs, Or.inl rfl⟩) _ _ hrun)

/-- A run that is endured: a first store that returns. -/
theorem enduring_isRecovered_first :
    ∃ system : StorageSystem Unit, (∃ chunkId, system.calls () =
      .returned (.stored (chunkOf firstIdentity 1 1 1) (.ok chunkId))) ∧
        IsRecovered ⟨ascii "storage", .none⟩ BinaryNodeChunkAdapter.literals system := by
  have hlz4 := BinaryNodeChunkAdapter.literals_isLossless
  have hdisk := isConsistentDisk_empty ⟨ascii "storage", .none⟩ BinaryNodeChunkAdapter.literals
  obtain ⟨next, _, system, hrun, _, hcall, _⟩ := leads_first () _ hlz4 (ascii "storage")
  have hreachable := hrun.reachable (.initial rfl)
  have hstored := hreachable.step ⟨_, .publish (.sync hcall), Or.inl rfl⟩
  exact ⟨_, ⟨_, goto_calls _ _ _⟩, enduring_isRecovered hlz4 hdisk hstored⟩

/-- A first store whose index cannot be synchronized leaves an index on disk without its chunk. -/
theorem sequential_not_isRecovered :
    ¬ ∀ (policy : StoragePolicy) (lz4 : Lz4) (files : FileSystem) (processId : ℕ)
      (index : ChunkIndex) (system : StorageSystem Unit), lz4.IsLossless →
        IsConsistentDisk policy lz4 files index →
          (sequential policy lz4 files processId index).Reachable system →
            IsRecovered policy lz4 system := by
  intro hclaim
  have hlz4 := BinaryNodeChunkAdapter.literals_isLossless
  have hdisk := isConsistentDisk_empty ⟨ascii "storage", .none⟩ BinaryNodeChunkAdapter.literals
  obtain ⟨next, _, system, hrun, hconsistent, hcall, _⟩ := leads_first () _ hlz4 (ascii "storage")
  obtain ⟨system', hfails, hreturned, hload, hentry, hlookup⟩ := syncFails_dangles hconsistent hcall
  have hreachable : (sequential ⟨ascii "storage", .none⟩ BinaryNodeChunkAdapter.literals ∅ 1
      ChunkIndex.create).Reachable system := by
    have hinitial : (sequential ⟨ascii "storage", .none⟩ BinaryNodeChunkAdapter.literals ∅ 1
        ChunkIndex.create).Reachable (opened ⟨ascii "storage", .none⟩
          BinaryNodeChunkAdapter.literals ∅ 1 ChunkIndex.create) := .initial rfl
    exact hinitial.run (Relation.ReflTransGen.mono (fun _ _ hs => ⟨_, hs⟩) _ _ hrun)
  have hrecovered := hclaim _ _ _ _ _ system' hlz4 hdisk (hreachable.run hfails)
  obtain ⟨bytes, chunk, hfile, _⟩ := hrecovered.onDisk (Or.inr ⟨_, hreturned⟩) next hload _
    (OrderedMap.find?_eq_some_iff.mp hentry)
  rw [show (ChunkIndex.entryOf (chunkOf firstIdentity 1 1 1).metadata).storageFile =
    (chunkOf firstIdentity 1 1 1).metadata.identity.chunkFilename from rfl, hlookup] at hfile
  cases hfile

end GiveMePi.Storage
