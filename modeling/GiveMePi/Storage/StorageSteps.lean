import GiveMePi.Storage.StorageMoves

/-! # Steps keep the system consistent

Each step of a client is a move, unless it completes a publication. The failures that are left out
are those behind which an entry of an index has lost its file. -/

namespace GiveMePi.Storage

open StorageSystem
open Library (OrderedMap)

/-- A failure of the command that a client is at leaves every entry of the indices its file: `remove`
has not unlinked the file yet, and `store` has not put its index on disk yet. -/
def StorageCall.Endures : StorageCall → Outcome → Prop
  | removeFile _ _, outcome => outcome = .failedBefore
  | removeSync _, _ | publish (.remove _) _ _, _ | publish (.store _) _ .sync, _ => False
  | publish (.store _) _ (.rename _), outcome => outcome = .failedBefore
  | _, _ => True

variable {ι : Type} [DecidableEq ι] {policy : StoragePolicy} {lz4 : Lz4}
  {system system' : StorageSystem ι}

namespace IsConsistent

variable (h : IsConsistent policy lz4 system) {client : ι} {outcome : Outcome}
include h

/-! ## Publication of the index -/

section Publish

variable {purpose : Purpose} {next : ChunkIndex} {stage stage' : PublishStage} {chunk : Chunk}
  {error : Error} (hcall : system.calls client = .publish purpose next stage) (hkeeps : Keeps system system')
  (hstage : stage.published next = none) {sequence : ℕ}
  (hfiles : ChangesOnly policy [.indexTemp sequence] system system')
include hcall hkeeps hstage hfiles

/-- A publication goes on with its temporary file. -/
theorem publish_stay
    (hcalls : system'.calls = Function.update system.calls client (.publish purpose next stage'))
    (hbegan : system'.began = system.began) (hlocked : system'.locked = system.locked)
    (hinFlight : system'.inFlightStores = system.inFlightStores)
    (hremovals : system'.removals = system.removals) (hstage' : stage'.published next = none)
    (hpublished : IsPublished policy system' purpose next stage') :
    Move policy lz4 client (.publish purpose next stage') system system' := by
  have hphase := h.phase client
  rw [hcall] at hphase
  obtain ⟨hnext, hlimits, -⟩ := hphase
  refine h.stay hcall hcalls hkeeps (Or.inl ⟨by simp, hbegan⟩) hlocked hinFlight hremovals ?_ rfl hstage
    rfl [.indexTemp sequence] (fun place hplace => ?_) (by simp) hfiles
    ⟨hnext.congr hkeeps.index hkeeps.contents fun chunk _ => hfiles (.chunk _) (by simp), hlimits,
      hpublished⟩
  · simp only [StorageCall.roles, hstage, hstage']
  · rw [List.mem_singleton.mp hplace]
    rfl

/-- A publication for a store ends with an exception. -/
theorem publish_fails (hpurpose : purpose = .store chunk)
    (hcalls : system'.calls = Function.update system.calls client (.storeFailed chunk error))
    (hbegan : system'.began = system.began)
    (hinFlight : system'.inFlightStores = system.inFlightStores)
    (hremovals : system'.removals = system.removals) :
    Move policy lz4 client (.storeFailed chunk error) system system' := by
  subst hpurpose
  refine h.release hcall hcalls hkeeps ⟨by simp, hbegan⟩ rfl
    (fun filename hmem => Or.inl (hinFlight ▸ hmem)) ⟨[], by rw [hremovals, List.append_nil]⟩ rfl
    (Or.inr rfl) rfl hstage rfl [.indexTemp sequence] (fun place hplace => ?_) (by simp)
    (fun identity hunlinking => by cases hunlinking) hfiles trivial
  rw [List.mem_singleton.mp hplace]
  rfl

end Publish

/-- The next index takes its place on disk. -/
theorem publish_rename {purpose : Purpose} {next : ChunkIndex} {sequence : ℕ}
    (hcall : system.calls client = .publish purpose next
      (.rename ((Place.indexTemp sequence).path policy system.processId)))
    (hkeeps : Keeps system system') (hbegan : system'.began = system.began)
    (hlocked : system'.locked = system.locked)
    (hinFlight : system'.inFlightStores = system.inFlightStores)
    (hremovals : system'.removals = system.removals)
    (hcalls : system'.calls = Function.update system.calls client (.publish purpose next .sync))
    (hfiles : system'.files = (FileCommand.rename
      ((Place.indexTemp sequence).path policy system.processId)
        (Place.index.path policy system.processId)).apply system.files) :
    Move policy lz4 client (.publish purpose next .sync) system system' := by
  have hphase := h.phase client
  rw [hcall] at hphase
  obtain ⟨hnext, hlimits, _, _, hlookup⟩ := hphase
  have hchanges : ChangesOnly policy [.indexTemp sequence, .index] system system' :=
    changesOnly_rename .done hfiles
  have hload : ChunkIndex.load policy system'.files = .ok next := by
    refine ChunkIndex.load_of_lookup (hnext.isWellFormed h.wellFormed) hlimits ?_
    rw [hfiles]
    exact FileCommand.lookup_rename hlookup
  exact
    { calls := hcalls
      index := hkeeps.index
      contents := hkeeps.contents
      processId := hkeeps.processId
      files := fun place hplace => hchanges place fun hmem => hplace (by
        rw [hcall]
        rcases List.mem_pair.mp hmem with rfl | rfl
        · rfl
        · rfl)
      locks := fun _ => by
        have hholds : (system.calls client).roles.holds = true := by rw [hcall]; rfl
        exact ⟨hlocked ▸ h.locked client hholds, Or.inl hholds⟩
      unlocks := Or.inl (by rw [hcall]; rfl)
      inFlight := fun filename hmem => Or.inl (hinFlight ▸ hmem)
      storing := fun chunk hstoring => by
        have hbefore : (system.calls client).roles.storing = some chunk := by
          rw [hcall]
          exact hstoring
        exact ⟨hinFlight ▸ (h.inFlight client chunk hbefore).2.1, Or.inl hbefore⟩
      removing := fun identity hremoving => by
        rw [hcall] at hremoving
        exact hremoving
      unlinking := fun identity hunlinking => by rw [hcall] at hunlinking; cases hunlinking
      unpublished := by rw [hcall]; rfl
      onDisk := fun hpublished => by cases hpublished
      published := fun next' hpublished => by
        cases hpublished
        exact hload
      phase := ⟨hnext.congr hkeeps.index hkeeps.contents fun chunk _ =>
        hchanges (.chunk _) (by simp), hlimits, trivial⟩
      commits := hkeeps.commits
      position := hkeeps.position
      commit? := rfl
      began := Or.inl ⟨by rw [hcall]; simp, hbegan⟩
      removals := ⟨[], by rw [hremovals, List.append_nil]⟩
      logs := fun identity hremoving => Or.inl (by rw [hcall]; exact hremoving) }

/-- A step of a publication is a move or completes it. -/
theorem publishStep (hs : PublishStep policy client outcome system system')
    (hendures : outcome = .done ∨ (system.calls client).Endures outcome) :
    (∃ call, Move policy lz4 client call system system' ∧ system'.completed = system.completed) ∨
      ∃ purpose next, system.calls client = .publish purpose next .sync ∧
        Commits client purpose next system system' := by
  have hphase := h.phase client
  cases hs with
  | @write _ purpose next temp command rest hcall =>
      rw [hcall] at hphase
      obtain ⟨_, _, sequence, rfl, hon, hlookup⟩ := hphase
      refine Or.inl ⟨.publish purpose next (.write
        ((Place.indexTemp sequence).path policy system.processId) rest), ?_, rfl⟩
      exact h.publish_stay hcall ⟨rfl, rfl, rfl, rfl, rfl⟩ rfl
        (changesOnly_perform .done (hon command List.mem_cons_self) rfl) rfl rfl rfl rfl rfl rfl
        ⟨sequence, rfl, fun other hmem => hon other (List.mem_cons_of_mem _ hmem), hlookup⟩
  | @writeFails _ purpose next temp command rest _ hcall hfails hdiscards =>
      rw [hcall] at hphase hendures
      obtain ⟨_, _, sequence, rfl, hon, _⟩ := hphase
      cases purpose with
      | remove identity => exact (hendures.elim hfails id).elim
      | store chunk =>
          refine Or.inl ⟨.publish (.store chunk) next (.discard
            ((Place.indexTemp sequence).path policy system.processId)
            (ChunkIndex.failure command)), ?_, rfl⟩
          exact h.publish_stay hcall ⟨rfl, rfl, rfl, rfl, rfl⟩ rfl
            (changesOnly_perform _ (hon command List.mem_cons_self) rfl) rfl rfl rfl rfl rfl rfl
            ⟨⟨sequence, rfl⟩, chunk, rfl⟩
  | @createFails _ purpose next temp command rest _ hcall hfails hdiscards =>
      rw [hcall] at hphase hendures
      obtain ⟨_, _, sequence, rfl, hon, _⟩ := hphase
      cases purpose with
      | remove identity => exact (hendures.elim hfails id).elim
      | store chunk =>
          refine Or.inl ⟨.storeFailed chunk (ChunkIndex.failure command), ?_, rfl⟩
          exact h.publish_fails hcall ⟨rfl, rfl, rfl, rfl, rfl⟩ rfl
            (changesOnly_perform _ (hon command List.mem_cons_self) rfl) rfl rfl rfl rfl rfl
  | @written _ purpose next temp hcall =>
      rw [hcall] at hphase
      obtain ⟨_, _, sequence, rfl, _, hlookup⟩ := hphase
      refine Or.inl ⟨.publish purpose next (.rename
        ((Place.indexTemp sequence).path policy system.processId)), ?_, rfl⟩
      exact h.publish_stay hcall ⟨rfl, rfl, rfl, rfl, rfl⟩ rfl
        (changesOnly_of_eq [.indexTemp sequence] rfl) rfl rfl rfl rfl rfl rfl
        ⟨sequence, rfl, hlookup⟩
  | @rename _ purpose next temp hcall hexists =>
      rw [hcall] at hphase
      obtain ⟨_, _, sequence, rfl, _⟩ := hphase
      refine Or.inl ⟨.publish purpose next .sync, ?_, rfl⟩
      exact h.publish_rename hcall ⟨rfl, rfl, rfl, rfl, rfl⟩ rfl rfl rfl rfl rfl rfl
  | @renameFails _ purpose next temp _ hcall hfails =>
      rw [hcall] at hphase hendures
      obtain ⟨_, _, sequence, rfl, hlookup⟩ := hphase
      cases purpose with
      | remove identity => exact (hendures.elim hfails id).elim
      | store chunk =>
          cases hendures.resolve_left hfails
          refine Or.inl ⟨.publish (.store chunk) next (.discard
            ((Place.indexTemp sequence).path policy system.processId)
            (.systemError "rename checkpoint temp file")), ?_, rfl⟩
          exact h.publish_stay hcall ⟨rfl, rfl, rfl, rfl, rfl⟩ rfl
            (changesOnly_of_eq [.indexTemp sequence] rfl) rfl rfl rfl rfl rfl rfl
            ⟨⟨sequence, rfl⟩, chunk, rfl⟩
  | @sync _ purpose next hcall =>
      exact Or.inr ⟨purpose, next, hcall, commits_commit system client purpose next⟩
  | @syncFails _ purpose next _ hcall hfails =>
      rw [hcall] at hendures
      cases purpose with
      | remove identity => exact (hendures.elim hfails id).elim
      | store chunk => exact (hendures.elim hfails id).elim
  | @discard _ purpose next temp error _ hcall =>
      rw [hcall] at hphase
      obtain ⟨_, _, ⟨sequence, rfl⟩, chunk, rfl⟩ := hphase
      refine Or.inl ⟨.storeFailed chunk error, ?_, rfl⟩
      exact h.publish_fails hcall ⟨rfl, rfl, rfl, rfl, rfl⟩ rfl
        (changesOnly_remove _ rfl) rfl rfl rfl rfl rfl

/-! ## Storing -/

section Store

variable {chunk : Chunk} {before call : StorageCall}
  (hcall : system.calls client = before)
  (hcalls : system'.calls = Function.update system.calls client call)
  (hkeeps : Keeps system system') (hbegan : system'.began = system.began)
  (hremovals : system'.removals = system.removals) (hcommit : call.commit? = none)
include h hcall hcalls hkeeps hbegan hremovals hcommit

/-- A store goes on outside of the mutex, with its temporary file or its chunk file. -/
theorem store_stay (hbefore : before.roles = { storing := some chunk })
    (hroles : call.roles = { storing := some chunk })
    (hlocked : system'.locked = system.locked)
    (hinFlight : system'.inFlightStores = system.inFlightStores) (places : List Place)
    (howned : ∀ place ∈ places, place = .temporary chunk.metadata.identity ∨
      place = .chunk chunk.metadata.identity)
    (hfiles : ChangesOnly policy places system system') (hphase : Phase policy lz4 system' call) :
    Move policy lz4 client call system system' := by
  have hidle : before ≠ .idle := by
    intro hidle
    rw [hidle] at hbefore
    cases hbefore
  refine h.stay hcall hcalls hkeeps (Or.inl ⟨hidle, hbegan⟩) hlocked hinFlight hremovals
    (hroles.trans hbefore.symm) (by rw [hbefore]) (by rw [hbefore]) hcommit places
    (fun place hplace => ?_) (fun hplace => ?_) hfiles hphase
  · rw [hbefore]
    rcases howned place hplace with rfl | rfl
    · exact ⟨chunk, rfl, rfl⟩
    · exact Or.inl ⟨chunk, rfl, rfl⟩
  · exact (howned _ hplace).elim (fun h => by cases h) (fun h => by cases h)

/-- The handler of a store is done. -/
theorem store_rethrow (hbefore : before.roles = { holds := true, storing := some chunk })
    (hroles : call.roles = {})
    (hinFlight : system'.inFlightStores =
      system.inFlightStores.erase chunk.metadata.identity.chunkFilename) (places : List Place)
    (howned : ∀ place ∈ places, place = .chunk chunk.metadata.identity)
    (hfiles : ChangesOnly policy places system system') (hphase : Phase policy lz4 system' call) :
    Move policy lz4 client call system system' := by
  have hidle : before ≠ .idle := by
    intro hidle
    rw [hidle] at hbefore
    cases hbefore
  refine h.release hcall hcalls hkeeps ⟨hidle, hbegan⟩ (by rw [hbefore]) (fun filename hmem => ?_)
    ⟨[], by rw [hremovals, List.append_nil]⟩ (by rw [hroles]) (Or.inl (by rw [hroles]))
    (by rw [hbefore]) (by rw [hbefore]) hcommit places (fun place hplace => ?_)
    (fun hplace => ?_) (fun identity hunlinking => ?_) hfiles hphase
  · by_cases hfilename : filename = chunk.metadata.identity.chunkFilename
    · exact Or.inr ⟨by rw [hroles], chunk.metadata.identity, by rw [hbefore]; exact ⟨chunk, rfl, rfl⟩,
        hfilename.symm⟩
    · exact Or.inl (hinFlight ▸ Finset.mem_erase.mpr ⟨hfilename, hmem⟩)
  · rw [howned place hplace, hbefore]
    exact Or.inl ⟨chunk, rfl, rfl⟩
  · cases howned _ hplace
  · rw [hbefore] at hunlinking
    cases hunlinking

end Store

/-- A new store begins. -/
theorem store_enter {chunk : Chunk} (hidle : system.calls client = .idle)
    (hvalid : chunk.metadata.identity.IsValid)
    (hfresh : system.index.contains chunk.metadata.identity = false)
    (hnot : chunk.metadata.identity.chunkFilename ∉ system.inFlightStores) :
    Move policy lz4 client (.storePrepare chunk) system ({ system.begin_ client with
      inFlightStores := insert chunk.metadata.identity.chunkFilename system.inFlightStores }.goto
        client (.storePrepare chunk)) := by
  have hcontents : system.contents chunk.metadata.identity = none := by
    have := h.refines chunk.metadata.identity
    rw [OrderedMap.find?_eq_none_iff.mpr hfresh] at this
    exact Option.map_eq_none_iff.mp this.symm
  exact
    { calls := rfl
      index := rfl
      contents := rfl
      processId := rfl
      files := fun _ _ => rfl
      locks := fun hholds => by cases hholds
      unlocks := Or.inr fun hlocked => hlocked
      inFlight := fun filename hmem => Or.inl (Finset.mem_insert_of_mem hmem)
      storing := fun chunk' hstoring => by
        cases hstoring
        exact ⟨Finset.mem_insert_self _ _, Or.inr ⟨hvalid, hnot, hcontents⟩⟩
      removing := fun identity hremoving => by rw [hidle] at hremoving; cases hremoving
      unlinking := fun identity hunlinking => Or.inr rfl
      unpublished := by rw [hidle]; rfl
      onDisk := fun _ => rfl
      published := fun next hpublished => by cases hpublished
      phase := trivial
      commits := rfl
      position := rfl
      commit? := rfl
      began := Or.inr ⟨hidle, rfl⟩
      removals := ⟨[], (List.append_nil _).symm⟩
      logs := fun identity hremoving => by cases hremoving }

theorem storeStep (hlz4 : lz4.IsLossless)
    (hs : StoreStep policy lz4 client outcome system system') :
    ∃ call, Move policy lz4 client call system system' ∧
      system'.completed = system.completed := by
  have hphase := h.phase client
  cases hs with
  | invalid hidle _ | duplicate hidle _ _ _ =>
      exact ⟨_, h.pass hidle rfl ⟨rfl, rfl, rfl, rfl, rfl⟩ (Or.inr ⟨rfl, rfl⟩) rfl rfl rfl rfl rfl rfl
        rfl rfl trivial, rfl⟩
  | enter hidle hname _ hfresh hnot =>
      simp only [ChunkIdentity.deterministicFilename, bind_eq_ok, ChunkIdentity.validate_eq_ok,
        pure_eq_ok, Except.ok.injEq] at hname
      obtain ⟨_, hvalid, rfl⟩ := hname
      exact ⟨_, h.store_enter hidle hvalid hfresh hnot, rfl⟩
  | prepareFails hcall _ | syncFails hcall _ | reject hcall _ _ | serializeFails hcall _ _ _
  | tempFails hcall _ _ =>
      exact ⟨_, h.store_stay hcall rfl ⟨rfl, rfl, rfl, rfl, rfl⟩ rfl rfl rfl rfl rfl rfl rfl []
        (by simp) (changesOnly_of_eq [] rfl) trivial, rfl⟩
  | @prepare _ chunk bytes pieces hcall hprepare hpieces =>
      refine ⟨_, h.store_stay hcall rfl ⟨rfl, rfl, rfl, rfl, rfl⟩ rfl rfl rfl rfl rfl rfl rfl []
        (by simp) (changesOnly_of_eq [] rfl)
        ⟨FileCommand.isOn_writeScript (by simp [FileCommand.IsOn]), bytes, ?_,
          ChunkStore.decode_of_prepare hlz4 hprepare⟩, rfl⟩
      rw [← hpieces]
      exact FileCommand.lookup_applyAll_writeScript (by simp [FileCommand.apply]) _
  | @write _ chunk command rest hcall =>
      rw [hcall] at hphase
      obtain ⟨hon, hbytes⟩ := hphase
      exact ⟨_, h.store_stay hcall rfl ⟨rfl, rfl, rfl, rfl, rfl⟩ rfl rfl rfl rfl rfl rfl rfl
        [.temporary chunk.metadata.identity] (by simp)
        (changesOnly_perform .done (hon command List.mem_cons_self) rfl)
        ⟨fun other hmem => hon other (List.mem_cons_of_mem _ hmem), hbytes⟩, rfl⟩
  | @writeFails _ chunk command rest _ hcall _ =>
      rw [hcall] at hphase
      have hfiles := hphase.1 command List.mem_cons_self
      by_cases hdiscards : ChunkStore.discards command = true
      · rw [if_pos hdiscards]
        exact ⟨_, h.store_stay hcall rfl ⟨rfl, rfl, rfl, rfl, rfl⟩ rfl rfl rfl rfl rfl rfl rfl
          [.temporary chunk.metadata.identity] (by simp) (changesOnly_perform _ hfiles rfl) trivial,
          rfl⟩
      · rw [if_neg hdiscards]
        exact ⟨_, h.store_stay hcall rfl ⟨rfl, rfl, rfl, rfl, rfl⟩ rfl rfl rfl rfl rfl rfl rfl
          [.temporary chunk.metadata.identity] (by simp) (changesOnly_perform _ hfiles rfl) trivial,
          rfl⟩
  | written hcall | sync hcall =>
      rw [hcall] at hphase
      exact ⟨_, h.store_stay hcall rfl ⟨rfl, rfl, rfl, rfl, rfl⟩ rfl rfl rfl rfl rfl rfl rfl []
        (by simp) (changesOnly_of_eq [] rfl) hphase, rfl⟩
  | @rename _ chunk hcall _ =>
      rw [hcall] at hphase
      obtain ⟨_, bytes, hlookup, hbytes⟩ := hphase
      exact ⟨_, h.store_stay hcall rfl ⟨rfl, rfl, rfl, rfl, rfl⟩ rfl rfl rfl rfl rfl rfl rfl
        [.temporary chunk.metadata.identity, .chunk chunk.metadata.identity] (by simp)
        (changesOnly_rename .done rfl) ⟨bytes, FileCommand.lookup_rename hlookup, hbytes⟩, rfl⟩
  | @renameFails _ chunk _ hcall _ =>
      exact ⟨_, h.store_stay hcall rfl ⟨rfl, rfl, rfl, rfl, rfl⟩ rfl rfl rfl rfl rfl rfl rfl
        [.temporary chunk.metadata.identity, .chunk chunk.metadata.identity] (by simp)
        (changesOnly_rename _ rfl) trivial, rfl⟩
  | @discard _ chunk error _ hcall =>
      exact ⟨_, h.store_stay hcall rfl ⟨rfl, rfl, rfl, rfl, rfl⟩ rfl rfl rfl rfl rfl rfl rfl
        [.temporary chunk.metadata.identity] (by simp) (changesOnly_remove _ rfl) trivial, rfl⟩
  | @publish _ chunk next bytes pieces sequence hcall hfree hadd hserialize hpieces _ =>
      rw [hcall] at hphase
      obtain ⟨rfl, hlimits⟩ := ChunkIndex.serialize_eq_ok.mp hserialize
      refine ⟨_, h.acquire hcall rfl ⟨rfl, rfl, rfl, rfl, rfl⟩ (Or.inl ⟨by simp, rfl⟩) hfree rfl rfl rfl
        rfl rfl rfl rfl rfl ⟨⟨ChunkIndex.addMetadata_eq_ok.mp hadd, hphase⟩, hlimits, sequence, rfl,
          FileCommand.isOn_writeScript (by simp [FileCommand.IsOn]), ?_⟩, rfl⟩
      rw [← hpieces]
      exact FileCommand.lookup_applyAll_writeScript (by simp [FileCommand.apply]) _
  | handle hcall hfree =>
      exact ⟨_, h.acquire hcall rfl ⟨rfl, rfl, rfl, rfl, rfl⟩ (Or.inl ⟨by simp, rfl⟩) hfree rfl rfl rfl
        rfl rfl rfl rfl rfl trivial, rfl⟩
  | @undo _ chunk error hcall _ =>
      refine ⟨_, h.stay hcall rfl ⟨rfl, rfl, rfl, rfl, rfl⟩ (Or.inl ⟨by simp, rfl⟩) rfl rfl rfl rfl rfl
        rfl rfl [.chunk chunk.metadata.identity] (fun place hplace => ?_) (by simp)
        (changesOnly_remove .done rfl) trivial, rfl⟩
      rw [List.mem_singleton.mp hplace]
      exact Or.inl ⟨chunk, rfl, rfl⟩
  | undoNothing hcall _ | undoSync hcall =>
      exact ⟨_, h.store_rethrow hcall rfl ⟨rfl, rfl, rfl, rfl, rfl⟩ rfl rfl rfl rfl rfl rfl []
        (by simp) (changesOnly_of_eq [] rfl) trivial, rfl⟩
  | @undoFails _ chunk error _ hcall _ =>
      exact ⟨_, h.store_rethrow hcall rfl ⟨rfl, rfl, rfl, rfl, rfl⟩ rfl rfl rfl rfl rfl rfl
        [.chunk chunk.metadata.identity] (by simp) (changesOnly_remove _ rfl) trivial, rfl⟩

/-! ## Removing -/

/-- The file of an identity is taken away. -/
theorem remove_unlink {identity : ChunkIdentity} {storageFile : Bytes}
    (hcall : system.calls client = .removeFile identity storageFile) (hkeeps : Keeps system system')
    (hbegan : system'.began = system.began) (hlocked : system'.locked = system.locked)
    (hinFlight : system'.inFlightStores = system.inFlightStores)
    (hremovals : system'.removals = system.removals ++ [identity])
    (hcalls : system'.calls = Function.update system.calls client (.removeSync identity))
    (hfiles : system'.files = (FileCommand.remove (ChunkStore.chunkPath policy storageFile)).perform
      .done system.files) : Move policy lz4 client (.removeSync identity) system system' := by
  have hphase := h.phase client
  rw [hcall] at hphase
  obtain ⟨hname, hcontained⟩ := hphase
  rw [hname] at hfiles
  have hchanges : ChangesOnly policy [.chunk identity] system system' :=
    changesOnly_remove .done hfiles
  exact
    { calls := hcalls
      index := hkeeps.index
      contents := hkeeps.contents
      processId := hkeeps.processId
      files := fun place hplace => hchanges place fun hmem => hplace (by
        rw [hcall, List.mem_singleton.mp hmem]
        exact Or.inr rfl)
      locks := fun _ => by
        have hholds : (system.calls client).roles.holds = true := by rw [hcall]; rfl
        exact ⟨hlocked ▸ h.locked client hholds, Or.inl hholds⟩
      unlocks := Or.inl (by rw [hcall]; rfl)
      inFlight := fun filename hmem => Or.inl (hinFlight ▸ hmem)
      storing := fun chunk hstoring => by cases hstoring
      removing := fun identity' hremoving => by rw [hcall] at hremoving; cases hremoving
      unlinking := fun identity' hunlinking => by
        rw [hcall] at hunlinking
        exact Or.inl hunlinking
      unpublished := by rw [hcall]; rfl
      onDisk := fun _ => hchanges .index (by simp)
      published := fun next hpublished => by cases hpublished
      phase := by
        rw [Phase, hkeeps.contents]
        exact hcontained
      commits := hkeeps.commits
      position := hkeeps.position
      commit? := rfl
      began := Or.inl ⟨by rw [hcall]; simp, hbegan⟩
      removals := ⟨[identity], hremovals⟩
      logs := fun identity' hremoving => by
        cases hremoving
        exact Or.inr hremovals }

theorem removeStep (hs : RemoveStep policy client outcome system system')
    (hendures : outcome = .done ∨ (system.calls client).Endures outcome) :
    ∃ call, Move policy lz4 client call system system' ∧
      system'.completed = system.completed := by
  have hphase := h.phase client
  cases hs with
  | absent hidle _ _ =>
      exact ⟨_, h.pass hidle rfl ⟨rfl, rfl, rfl, rfl, rfl⟩ (Or.inr ⟨rfl, rfl⟩) rfl rfl rfl rfl rfl rfl
        rfl rfl trivial, rfl⟩
  | enter hidle hfree hentry =>
      obtain ⟨chunk, hcontents, hidentity, rfl⟩ := h.contents_of_find? hentry
      refine ⟨_, h.acquire hidle rfl ⟨rfl, rfl, rfl, rfl, rfl⟩ (Or.inr ⟨rfl, rfl⟩) hfree rfl rfl rfl
        rfl rfl rfl rfl rfl ⟨?_, chunk, hcontents⟩, rfl⟩
      rw [← hidentity]
      rfl
  | unlink hcall _ =>
      exact ⟨_, h.remove_unlink hcall ⟨rfl, rfl, rfl, rfl, rfl⟩ rfl rfl rfl rfl rfl rfl, rfl⟩
  | unlinkNothing hcall _ =>
      exact ⟨_, h.release hcall rfl ⟨rfl, rfl, rfl, rfl, rfl⟩ ⟨by simp, rfl⟩ rfl
        (fun _ hmem => Or.inl hmem) ⟨[], (List.append_nil _).symm⟩ rfl (Or.inl rfl) rfl rfl rfl []
        (by simp) (by simp) (fun _ _ => rfl) (changesOnly_of_eq [] rfl) trivial, rfl⟩
  | unlinkFails hcall hfails =>
      rw [hcall] at hendures
      cases hendures.resolve_left hfails
      exact ⟨_, h.release hcall rfl ⟨rfl, rfl, rfl, rfl, rfl⟩ ⟨by simp, rfl⟩ rfl
        (fun _ hmem => Or.inl hmem) ⟨_, rfl⟩ rfl (Or.inl rfl) rfl rfl rfl [] (by simp) (by simp)
        (fun _ _ => rfl) (changesOnly_of_eq [] rfl) trivial, rfl⟩
  | syncFails hcall hfails | tempFails hcall hfails =>
      rw [hcall] at hendures
      exact (hendures.elim hfails id).elim
  | @serializeFails _ identity error hcall hserialize =>
      rw [ChunkIndex.serialize_eq_ok.mpr ⟨rfl, h.limits.remove identity⟩] at hserialize
      cases hserialize
  | @publish _ identity bytes pieces sequence hcall hserialize hpieces _ =>
      rw [hcall] at hphase
      obtain ⟨rfl, hlimits⟩ := ChunkIndex.serialize_eq_ok.mp hserialize
      refine ⟨_, h.pass hcall rfl ⟨rfl, rfl, rfl, rfl, rfl⟩ (Or.inl ⟨by simp, rfl⟩) rfl rfl rfl rfl rfl
        rfl rfl rfl ⟨⟨rfl, hphase⟩, hlimits, sequence, rfl,
          FileCommand.isOn_writeScript (by simp [FileCommand.IsOn]), ?_⟩, rfl⟩
      rw [← hpieces]
      exact FileCommand.lookup_applyAll_writeScript (by simp [FileCommand.apply]) _

/-! ## Loading -/

theorem loadStep (hs : LoadStep policy lz4 client system system') :
    ∃ call, Move policy lz4 client call system system' ∧
      system'.completed = system.completed := by
  cases hs with
  | absent hcall _ _ | enter hcall _ _ | containsAbsent hcall _ _ | containsEnter hcall _ _ =>
      exact ⟨_, h.pass hcall rfl ⟨rfl, rfl, rfl, rfl, rfl⟩ (Or.inr ⟨rfl, rfl⟩) rfl rfl rfl rfl rfl rfl
        rfl rfl trivial, rfl⟩
  | noFile hcall _ | check hcall _ | openFails hcall _ | «open» hcall _ | sizeFails hcall _
  | size hcall _ | read hcall | containsCheck hcall =>
      exact ⟨_, h.pass hcall rfl ⟨rfl, rfl, rfl, rfl, rfl⟩ (Or.inl ⟨by simp, rfl⟩) rfl rfl rfl rfl rfl
        rfl rfl rfl trivial, rfl⟩

theorem finishStep {result : StorageResult} (hcall : system.calls client = .returned result) :
    Move policy lz4 client .idle system (system.finish client result) :=
  h.pass hcall rfl ⟨rfl, rfl, rfl, rfl, rfl⟩ (Or.inl ⟨by simp, rfl⟩) rfl rfl rfl rfl rfl rfl rfl rfl
    trivial

/-! ## Processes that end -/

omit [DecidableEq ι] in
/-- What a process leaves is consistent, unless it ends between the unlinking of a file and the
publication of the index without it. -/
theorem isConsistentDisk {index : ChunkIndex}
    (hload : ChunkIndex.load policy system.files = .ok index)
    (hremoving : ∀ client identity, (system.calls client).roles.removing = some identity →
      ∃ next, (system.calls client).roles.published = some next) :
    IsConsistentDisk policy lz4 system.files index := by
  refine ⟨hload, fun identity entry hentry => ?_⟩
  by_cases hpublished : ∃ client next, (system.calls client).roles.published = some next
  · obtain ⟨client, next, hnext⟩ := hpublished
    have hholds := StorageCall.holds_of_published hnext
    rw [h.published client next hnext] at hload
    cases hload
    have hphase := h.phase client
    generalize hcall : system.calls client = call at hphase hnext
    cases call with
    | publish purpose next' stage =>
        cases stage with
        | sync =>
            cases hnext
            rw [hphase.1.find?] at hentry
            by_cases hidentity : identity = purpose.identity
            · rw [if_pos hidentity] at hentry
              cases purpose with
              | store chunk =>
                  cases hentry
                  exact ⟨chunk, hphase.1.2, hidentity.symm, rfl⟩
              | remove identity' => cases hentry
            · rw [if_neg hidentity] at hentry
              obtain ⟨chunk, hcontents, hchunk, hentry⟩ := h.contents_of_find? hentry
              refine ⟨chunk, h.stored identity chunk hcontents fun other hother => ?_, hchunk, hentry⟩
              rw [h.exclusive other client (StorageCall.holds_of_removing hother) hholds,
                hcall] at hother
              cases purpose with
              | store chunk' => cases hother
              | remove identity' =>
                  cases hother
                  exact hidentity rfl
        | _ => cases hnext
    | _ => cases hnext
  · have hnone : ∀ client, (system.calls client).roles.published = none := fun client =>
      Option.eq_none_iff_forall_ne_some.mpr fun next hnext => hpublished ⟨client, next, hnext⟩
    rw [h.onDisk hnone] at hload
    cases hload
    obtain ⟨chunk, hcontents, hchunk, hentry⟩ := h.contents_of_find? hentry
    refine ⟨chunk, h.stored identity chunk hcontents fun client hclient => ?_, hchunk, hentry⟩
    exact hpublished ⟨client, hremoving client identity hclient⟩

end IsConsistent

/-! ## All steps -/

/-- A step after which every entry of the indices still has its file. -/
def IsEndured (system : StorageSystem ι) : Label ι → Prop
  | .call client outcome => outcome = .done ∨ (system.calls client).Endures outcome
  | .reopen => ∀ client identity, (system.calls client).roles.removing = some identity →
      ∃ next, (system.calls client).roles.published = some next
  | .undefined _ => False

/-! A call that has changed the index makes no step but its return. -/

theorem StorageSystem.StoreStep.commit?_eq_none {client : ι} {outcome : Outcome}
    (hs : StoreStep policy lz4 client outcome system system') :
    (system.calls client).commit? = none := by
  cases hs <;> simp only [*, StorageCall.commit?]

theorem StorageSystem.PublishStep.commit?_eq_none {client : ι} {outcome : Outcome}
    (hs : PublishStep policy client outcome system system') :
    (system.calls client).commit? = none := by
  cases hs <;> simp only [*, StorageCall.commit?]

theorem StorageSystem.RemoveStep.commit?_eq_none {client : ι} {outcome : Outcome}
    (hs : RemoveStep policy client outcome system system') :
    (system.calls client).commit? = none := by
  cases hs <;> simp only [*, StorageCall.commit?]

theorem StorageSystem.LoadStep.commit?_eq_none {client : ι}
    (hs : LoadStep policy lz4 client system system') :
    (system.calls client).commit? = none := by
  cases hs <;> simp only [*, StorageCall.commit?]

/-- What a step does: a move, the end of a publication, the end of a call, or a new process. -/
inductive Effect (policy : StoragePolicy) (lz4 : Lz4) (system system' : StorageSystem ι) :
    Label ι → Prop where
  | move {client : ι} {outcome : Outcome} (call : StorageCall) :
      Move policy lz4 client call system system' → system'.completed = system.completed →
        (system.calls client).commit? = none →
          Effect policy lz4 system system' (.call client outcome)
  | commit {client : ι} {outcome : Outcome} (purpose : Purpose) (next : ChunkIndex) :
      system.calls client = .publish purpose next .sync →
        Commits client purpose next system system' →
          Effect policy lz4 system system' (.call client outcome)
  | finish {client : ι} (result : StorageResult) : system.calls client = .returned result →
      system' = system.finish client result → Effect policy lz4 system system' (.call client .done)
  | reopen (processId : ℕ) (index : ChunkIndex) :
      IsConsistentDisk policy lz4 system.files index →
        system' = opened policy lz4 system.files processId index →
          Effect policy lz4 system system' .reopen

theorem Effect.calls_of_ne {client other : ι} {outcome : Outcome}
    (h : Effect policy lz4 system system' (.call client outcome)) (hne : other ≠ client) :
    system'.calls other = system.calls other := by
  cases h with
  | move call m _ _ => exact m.calls_of_ne hne
  | commit purpose next _ m => exact m.calls_of_ne hne
  | finish result _ heq =>
      rw [heq, StorageSystem.finish, goto_calls_of_ne _ _ hne]

theorem IsConsistent.effect (h : IsConsistent policy lz4 system) (hlz4 : lz4.IsLossless)
    {label : Label ι} (hs : Step policy lz4 label system system')
    (hendured : IsEndured system label) : Effect policy lz4 system system' label := by
  cases hs with
  | store hs =>
      obtain ⟨call, hmove, hcompleted⟩ := h.storeStep hlz4 hs
      exact .move call hmove hcompleted hs.commit?_eq_none
  | publish hs =>
      rcases h.publishStep hs hendured with hmoves | hcommits
      · obtain ⟨call, hmove, hcompleted⟩ := hmoves
        exact .move call hmove hcompleted hs.commit?_eq_none
      · obtain ⟨purpose, next, hcall, hcommit⟩ := hcommits
        exact .commit purpose next hcall hcommit
  | remove hs =>
      obtain ⟨call, hmove, hcompleted⟩ := h.removeStep hs hendured
      exact .move call hmove hcompleted hs.commit?_eq_none
  | load hs =>
      obtain ⟨call, hmove, hcompleted⟩ := h.loadStep hs
      exact .move call hmove hcompleted hs.commit?_eq_none
  | @finish _ client result hcall => exact .finish result hcall rfl
  | @reopen _ processId index hload =>
      exact .reopen processId index (h.isConsistentDisk hload hendured) rfl
  | undefined => exact hendured.elim

theorem IsConsistent.step (h : IsConsistent policy lz4 system) {label : Label ι}
    (heffect : Effect policy lz4 system system' label) : IsConsistent policy lz4 system' := by
  cases heffect with
  | move call hmove _ _ => exact hmove.isConsistent h
  | commit purpose next hcall hcommit => exact hcommit.isConsistent hcall h
  | finish result hcall heq =>
      rw [heq]
      exact (h.finishStep hcall).isConsistent h
  | reopen processId index hdisk heq =>
      rw [heq]
      exact hdisk.isConsistent processId

end GiveMePi.Storage
