import GiveMePi.Storage.StorageInvariant

/-! # Moves of a client

What a step that publishes nothing may change, and that it keeps the system consistent. -/

namespace GiveMePi.Storage

open StorageSystem

section Changes

variable {ι : Type} {policy : StoragePolicy} {system system' : StorageSystem ι}

variable (policy) in
/-- Nothing but the given places changes. -/
def ChangesOnly (places : List Place) (system system' : StorageSystem ι) : Prop :=
  ∀ place, place ∉ places → system'.files.lookup (place.path policy system.processId) =
    system.files.lookup (place.path policy system.processId)

theorem changesOnly_of_eq (places : List Place) (hfiles : system'.files = system.files) :
    ChangesOnly policy places system system' := by
  intro place _
  rw [hfiles]

theorem changesOnly_perform {place : Place} {command : FileCommand} (outcome : Outcome)
    (hon : command.IsOn (place.path policy system.processId))
    (hfiles : system'.files = command.perform outcome system.files) :
    ChangesOnly policy [place] system system' := by
  intro other hother
  have hne : other ≠ place := fun heq => hother (List.mem_singleton.mpr heq)
  rw [hfiles]
  exact hon.lookup_perform ((Place.path_injective policy _).ne hne) outcome system.files

theorem changesOnly_remove {place : Place} (outcome : Outcome)
    (hfiles : system'.files =
      (FileCommand.remove (place.path policy system.processId)).perform outcome system.files) :
    ChangesOnly policy [place] system system' := by
  intro other hother
  have hne : other ≠ place := fun heq => hother (List.mem_singleton.mpr heq)
  rw [hfiles]
  exact FileCommand.lookup_perform_remove_ne ((Place.path_injective policy _).ne hne) outcome
    system.files

theorem changesOnly_rename {source destination : Place} (outcome : Outcome)
    (hfiles : system'.files = (FileCommand.rename (source.path policy system.processId)
      (destination.path policy system.processId)).perform outcome system.files) :
    ChangesOnly policy [source, destination] system system' := by
  intro other hother
  have hsource : other ≠ source := fun heq => hother (heq ▸ List.mem_cons_self)
  have hdestination : other ≠ destination := fun heq => hother (heq ▸ by simp)
  rw [hfiles]
  exact FileCommand.lookup_perform_rename_ne ((Place.path_injective policy _).ne hsource)
    ((Place.path_injective policy _).ne hdestination) outcome system.files

end Changes

variable {ι : Type} [DecidableEq ι] (policy : StoragePolicy) (lz4 : Lz4)

theorem goto_calls (system : StorageSystem ι) (client : ι) (call : StorageCall) :
    (system.goto client call).calls client = call := by
  simp [goto]

theorem goto_calls_of_ne (system : StorageSystem ι) {client other : ι} (call : StorageCall)
    (h : other ≠ client) : (system.goto client call).calls other = system.calls other := by
  simp [goto, h]

theorem began_begin_ (system : StorageSystem ι) (client : ι) :
    (system.begin_ client).began client = ⟨system.index, system.files, system.commits.length,
      system.removals.length⟩ := Function.update_self _ _ _

theorem began_begin_of_ne (system : StorageSystem ι) {client other : ι} (h : other ≠ client) :
    (system.begin_ client).began other = system.began other := Function.update_of_ne h _ _

/-- A step of a client to a call that changes places of the client's own only, takes the mutex only
if it is free, and gives up no chunk that it has taken away. -/
structure Move (client : ι) (call : StorageCall) (system system' : StorageSystem ι) : Prop where
  calls : system'.calls = Function.update system.calls client call
  index : system'.index = system.index
  contents : system'.contents = system.contents
  processId : system'.processId = system.processId
  files : ∀ place, ¬ (system.calls client).roles.Owns place →
    system'.files.lookup (place.path policy system.processId) =
      system.files.lookup (place.path policy system.processId)
  locks : call.roles.holds = true → system'.locked = true ∧
    ((system.calls client).roles.holds = true ∨ system.locked = false)
  unlocks : (system.calls client).roles.holds = true ∨
    (system.locked = true → system'.locked = true)
  inFlight : ∀ filename ∈ system.inFlightStores, filename ∈ system'.inFlightStores ∨
    ∃ identity, (system.calls client).roles.Stores identity ∧ identity.chunkFilename = filename
  storing : ∀ chunk, call.roles.storing = some chunk →
    chunk.metadata.identity.chunkFilename ∈ system'.inFlightStores ∧
      ((system.calls client).roles.storing = some chunk ∨ chunk.metadata.identity.IsValid ∧
        chunk.metadata.identity.chunkFilename ∉ system.inFlightStores ∧
          system.contents chunk.metadata.identity = none)
  removing : ∀ identity, (system.calls client).roles.removing = some identity →
    call.roles.removing = some identity
  unlinking : ∀ identity, (system.calls client).roles.unlinking = some identity →
    call.roles.removing = some identity ∨
      system'.files.lookup ((Place.chunk identity).path policy system.processId) =
        system.files.lookup ((Place.chunk identity).path policy system.processId)
  unpublished : (system.calls client).roles.published = none
  onDisk : call.roles.published = none →
    system'.files.lookup (Place.index.path policy system.processId) =
      system.files.lookup (Place.index.path policy system.processId)
  published : ∀ next, call.roles.published = some next →
    ChunkIndex.load policy system'.files = .ok next
  phase : Phase policy lz4 system' call
  commits : system'.commits = system.commits
  position : system'.position = system.position
  commit? : call.commit? = none
  began : (system.calls client ≠ .idle ∧ system'.began = system.began) ∨
    (system.calls client = .idle ∧ system'.began = (system.begin_ client).began)
  removals : ∃ more, system'.removals = system.removals ++ more
  logs : ∀ identity, call.roles.removing = some identity →
    (system.calls client).roles.removing = some identity ∨
      system'.removals = system.removals ++ [identity]

variable {policy lz4} {system system' : StorageSystem ι}

namespace Move

variable {client : ι} {call : StorageCall} (m : Move policy lz4 client call system system')
include m

theorem calls_self : system'.calls client = call := by
  rw [m.calls, Function.update_self]

theorem calls_of_ne {other : ι} (h : other ≠ client) : system'.calls other = system.calls other := by
  rw [m.calls, Function.update_of_ne h]

/-- Another client keeps what it knows. -/
theorem phase_of_ne (h : IsConsistent policy lz4 system) {other : ι} (hne : other ≠ client) :
    Phase policy lz4 system' (system'.calls other) := by
  rw [m.calls_of_ne hne]
  refine (h.phase other).congr m.processId (fun place howns => m.files place ?_)
    (fun _ => ⟨m.index, m.contents⟩)
  intro hclient
  exact hne (h.owner_unique howns hclient)

theorem locked (h : IsConsistent policy lz4 system) (other : ι)
    (hholds : (system'.calls other).roles.holds = true) : system'.locked = true := by
  by_cases hother : other = client
  · rw [hother, m.calls_self] at hholds
    exact (m.locks hholds).1
  · rw [m.calls_of_ne hother] at hholds
    rcases m.unlocks with hclient | hkeep
    · exact absurd (h.exclusive other client hholds hclient) hother
    · exact hkeep (h.locked other hholds)

/-- The client takes the mutex from nobody. -/
theorem not_holds (h : IsConsistent policy lz4 system) (hcall : call.roles.holds = true) {other : ι}
    (hne : other ≠ client) : (system.calls other).roles.holds ≠ true := by
  intro hother
  rcases (m.locks hcall).2 with hclient | hfree
  · exact hne (h.exclusive other client hother hclient)
  · rw [h.locked other hother] at hfree
    cases hfree

theorem exclusive (h : IsConsistent policy lz4 system) (left right : ι)
    (hleft : (system'.calls left).roles.holds = true)
    (hright : (system'.calls right).roles.holds = true) : left = right := by
  by_cases hl : left = client
  · by_cases hr : right = client
    · rw [hl, hr]
    · rw [hl, m.calls_self] at hleft
      rw [m.calls_of_ne hr] at hright
      exact absurd hright (m.not_holds h hleft hr)
  · rw [m.calls_of_ne hl] at hleft
    by_cases hr : right = client
    · rw [hr, m.calls_self] at hright
      exact absurd hleft (m.not_holds h hright hl)
    · rw [m.calls_of_ne hr] at hright
      exact h.exclusive left right hleft hright

/-- The client stores a chunk that no other client stores. -/
theorem not_stores (h : IsConsistent policy lz4 system) {other : ι} (hne : other ≠ client)
    {identity : ChunkIdentity} (hcall : call.roles.Stores identity) :
    ¬ (system.calls other).roles.Stores identity := by
  intro hother
  obtain ⟨chunk, hstoring, rfl⟩ := hcall
  rcases (m.storing chunk hstoring).2 with hclient | ⟨_, hfresh, _⟩
  · exact hne (h.apart other client _ hother ⟨chunk, hclient, rfl⟩)
  · obtain ⟨chunk', hstoring', hidentity⟩ := hother
    exact hfresh (hidentity ▸ (h.inFlight other chunk' hstoring').2.1)

theorem apart (h : IsConsistent policy lz4 system) (left right : ι) (identity : ChunkIdentity)
    (hleft : (system'.calls left).roles.Stores identity)
    (hright : (system'.calls right).roles.Stores identity) : left = right := by
  by_cases hl : left = client
  · by_cases hr : right = client
    · rw [hl, hr]
    · rw [hl, m.calls_self] at hleft
      rw [m.calls_of_ne hr] at hright
      exact absurd hright (m.not_stores h hr hleft)
  · rw [m.calls_of_ne hl] at hleft
    by_cases hr : right = client
    · rw [hr, m.calls_self] at hright
      exact absurd hleft (m.not_stores h hl hright)
    · rw [m.calls_of_ne hr] at hright
      exact h.apart left right identity hleft hright

theorem keeps_inFlight (h : IsConsistent policy lz4 system) (other : ι) (chunk : Chunk)
    (hstoring : (system'.calls other).roles.storing = some chunk) :
    chunk.metadata.identity.IsValid ∧
      chunk.metadata.identity.chunkFilename ∈ system'.inFlightStores ∧
        system'.contents chunk.metadata.identity = none := by
  rw [m.contents]
  by_cases hother : other = client
  · rw [hother, m.calls_self] at hstoring
    obtain ⟨hmem, hclient | ⟨hvalid, _, hcontents⟩⟩ := m.storing chunk hstoring
    · obtain ⟨hvalid, _, hcontents⟩ := h.inFlight client chunk hclient
      exact ⟨hvalid, hmem, hcontents⟩
    · exact ⟨hvalid, hmem, hcontents⟩
  · rw [m.calls_of_ne hother] at hstoring
    obtain ⟨hvalid, hmem, hcontents⟩ := h.inFlight other chunk hstoring
    refine ⟨hvalid, (m.inFlight _ hmem).resolve_right ?_, hcontents⟩
    intro hclient
    obtain ⟨identity, hstores, hfilename⟩ := hclient
    have hidentity := ChunkIdentity.chunkFilename_injective hfilename
    exact hother (h.apart other client _ ⟨chunk, hstoring, hidentity.symm⟩ hstores)

theorem stored (h : IsConsistent policy lz4 system) (identity : ChunkIdentity) (chunk : Chunk)
    (hcontents : system'.contents identity = some chunk)
    (hremoving : ∀ other, (system'.calls other).roles.removing ≠ some identity) :
    HasChunk policy lz4 system'.files chunk := by
  rw [m.contents] at hcontents
  have hcall := hremoving client
  rw [m.calls_self] at hcall
  have hbefore : HasChunk policy lz4 system.files chunk := by
    refine h.stored identity chunk hcontents fun other => ?_
    by_cases hother : other = client
    · rw [hother]
      exact fun hclient => hcall (m.removing identity hclient)
    · rw [← m.calls_of_ne hother]
      exact hremoving other
  refine hbefore.congr ?_
  rw [h.named identity chunk hcontents]
  by_cases hunlinking : (system.calls client).roles.unlinking = some identity
  · exact (m.unlinking identity hunlinking).resolve_left hcall
  · refine m.files (.chunk identity) fun howns => ?_
    exact howns.elim (h.not_stores hcontents) hunlinking

theorem keeps_published (h : IsConsistent policy lz4 system) (other : ι) (next : ChunkIndex)
    (hpublished : (system'.calls other).roles.published = some next) :
    ChunkIndex.load policy system'.files = .ok next := by
  by_cases hother : other = client
  · rw [hother, m.calls_self] at hpublished
    exact m.published next hpublished
  · rw [m.calls_of_ne hother] at hpublished
    have hholds := StorageCall.holds_of_published hpublished
    have hindex := m.files .index fun hclient =>
      hother (h.owner_unique (show (system.calls other).roles.Owns .index from hholds) hclient)
    rw [ChunkIndex.load_congr hindex]
    exact h.published other next hpublished

theorem keeps_onDisk (h : IsConsistent policy lz4 system)
    (hpublished : ∀ other, (system'.calls other).roles.published = none) :
    ChunkIndex.load policy system'.files = .ok system'.index := by
  have hcall := hpublished client
  rw [m.calls_self] at hcall
  rw [m.index, ChunkIndex.load_congr (m.onDisk hcall)]
  refine h.onDisk fun other => ?_
  by_cases hother : other = client
  · rw [hother]
    exact m.unpublished
  · rw [← m.calls_of_ne hother]
    exact hpublished other

/-- A move keeps the system consistent. -/
theorem isConsistent (h : IsConsistent policy lz4 system) : IsConsistent policy lz4 system' where
  wellFormed := m.index ▸ h.wellFormed
  limits := m.index ▸ h.limits
  refines := by
    rw [m.index, m.contents]
    exact h.refines
  named := by
    rw [m.contents]
    exact h.named
  locked := m.locked h
  exclusive := m.exclusive h
  inFlight := m.keeps_inFlight h
  apart := m.apart h
  stored := m.stored h
  onDisk := m.keeps_onDisk h
  published := m.keeps_published h
  phase other := by
    by_cases hother : other = client
    · rw [hother, m.calls_self]
      exact m.phase
    · exact m.phase_of_ne h hother

end Move

/-! ## Kinds of moves -/

/-- The fields that no step but a publication and a construction changes. -/
structure Keeps (system system' : StorageSystem ι) : Prop where
  index : system'.index = system.index
  contents : system'.contents = system.contents
  processId : system'.processId = system.processId
  commits : system'.commits = system.commits
  position : system'.position = system.position

namespace IsConsistent

variable (h : IsConsistent policy lz4 system) {client : ι} {before call : StorageCall}
  (hcall : system.calls client = before)
  (hcalls : system'.calls = Function.update system.calls client call)
  (hkeeps : Keeps system system')
include h hcall hcalls hkeeps

/-- A client goes on in its role and may change places of its own. -/
theorem stay (hbegan : (before ≠ .idle ∧ system'.began = system.began) ∨
      (before = .idle ∧ system'.began = (system.begin_ client).began))
    (hlocked : system'.locked = system.locked)
    (hinFlight : system'.inFlightStores = system.inFlightStores)
    (hremovals : system'.removals = system.removals) (hroles : call.roles = before.roles)
    (hunlinking : before.roles.unlinking = none) (hpublished : before.roles.published = none)
    (hcommit : call.commit? = none) (places : List Place)
    (howned : ∀ place ∈ places, before.roles.Owns place) (hindex : Place.index ∉ places)
    (hfiles : ChangesOnly policy places system system') (hphase : Phase policy lz4 system' call) :
    Move policy lz4 client call system system' := by
  subst hcall
  exact
    { calls := hcalls
      index := hkeeps.index
      contents := hkeeps.contents
      processId := hkeeps.processId
      files := fun place hplace => hfiles place fun hmem => hplace (howned place hmem)
      locks := fun hholds => by
        rw [hroles] at hholds
        exact ⟨hlocked ▸ h.locked client hholds, Or.inl hholds⟩
      unlocks := Or.inr fun hbefore => hlocked ▸ hbefore
      inFlight := fun filename hmem => Or.inl (hinFlight ▸ hmem)
      storing := fun chunk hstoring => by
        rw [hroles] at hstoring
        exact ⟨hinFlight ▸ (h.inFlight client chunk hstoring).2.1, Or.inl hstoring⟩
      removing := fun identity hremoving => hroles ▸ hremoving
      unlinking := fun identity hclient => by rw [hunlinking] at hclient; cases hclient
      unpublished := hpublished
      onDisk := fun _ => hfiles .index hindex
      published := fun next hnext => by rw [hroles, hpublished] at hnext; cases hnext
      phase := hphase
      commits := hkeeps.commits
      position := hkeeps.position
      commit? := hcommit
      began := hbegan
      removals := ⟨[], by rw [hremovals, List.append_nil]⟩
      logs := fun identity hremoving => Or.inl (hroles ▸ hremoving) }

/-- A client goes on in its role and changes no file. -/
theorem pass (hbegan : (before ≠ .idle ∧ system'.began = system.began) ∨
      (before = .idle ∧ system'.began = (system.begin_ client).began))
    (hlocked : system'.locked = system.locked)
    (hinFlight : system'.inFlightStores = system.inFlightStores)
    (hremovals : system'.removals = system.removals) (hfiles : system'.files = system.files)
    (hroles : call.roles = before.roles) (hunlinking : before.roles.unlinking = none)
    (hpublished : before.roles.published = none) (hcommit : call.commit? = none)
    (hphase : Phase policy lz4 system' call) : Move policy lz4 client call system system' :=
  h.stay hcall hcalls hkeeps hbegan hlocked hinFlight hremovals hroles hunlinking hpublished hcommit []
    (fun _ hmem => absurd hmem List.not_mem_nil) List.not_mem_nil (changesOnly_of_eq [] hfiles)
    hphase

/-- A client takes the mutex. -/
theorem acquire (hbegan : (before ≠ .idle ∧ system'.began = system.began) ∨
      (before = .idle ∧ system'.began = (system.begin_ client).began))
    (hfree : system.locked = false) (hlocked : system'.locked = true)
    (hinFlight : system'.inFlightStores = system.inFlightStores)
    (hremovals : system'.removals = system.removals) (hfiles : system'.files = system.files)
    (hstoring : call.roles.storing = before.roles.storing)
    (hremoving : call.roles.removing = none) (hpublished : call.roles.published = none)
    (hcommit : call.commit? = none) (hphase : Phase policy lz4 system' call) :
    Move policy lz4 client call system system' := by
  subst hcall
  have hholds : (system.calls client).roles.holds ≠ true := by
    intro hholds
    rw [h.locked client hholds] at hfree
    cases hfree
  exact
    { calls := hcalls
      index := hkeeps.index
      contents := hkeeps.contents
      processId := hkeeps.processId
      files := fun place _ => by rw [hfiles]
      locks := fun _ => ⟨hlocked, Or.inr hfree⟩
      unlocks := Or.inr fun _ => hlocked
      inFlight := fun filename hmem => Or.inl (hinFlight ▸ hmem)
      storing := fun chunk hchunk => by
        rw [hstoring] at hchunk
        exact ⟨hinFlight ▸ (h.inFlight client chunk hchunk).2.1, Or.inl hchunk⟩
      removing := fun identity hclient => absurd (StorageCall.holds_of_removing hclient) hholds
      unlinking := fun identity hunlinking => Or.inr (by rw [hfiles])
      unpublished := by
        cases hnext : (system.calls client).roles.published with
        | none => rfl
        | some next => exact absurd (StorageCall.holds_of_published hnext) hholds
      onDisk := fun _ => by rw [hfiles]
      published := fun next hnext => by rw [hpublished] at hnext; cases hnext
      phase := hphase
      commits := hkeeps.commits
      position := hkeeps.position
      commit? := hcommit
      began := hbegan
      removals := ⟨[], by rw [hremovals, List.append_nil]⟩
      logs := fun identity hclient => by rw [hremoving] at hclient; cases hclient }

/-- A client gives the mutex back without a publication, and may change places of its own. -/
theorem release (hbegan : before ≠ .idle ∧ system'.began = system.began)
    (hholds : before.roles.holds = true)
    (hinFlight : ∀ filename ∈ system.inFlightStores, filename ∈ system'.inFlightStores ∨
      call.roles.storing = none ∧
        ∃ identity, before.roles.Stores identity ∧ identity.chunkFilename = filename)
    (hremovals : ∃ more, system'.removals = system.removals ++ more)
    (hnot : call.roles.holds = false)
    (hstoring : call.roles.storing = none ∨ call.roles.storing = before.roles.storing)
    (hremoving : before.roles.removing = none) (hpublished : before.roles.published = none)
    (hcommit : call.commit? = none) (places : List Place)
    (howned : ∀ place ∈ places, before.roles.Owns place) (hindex : Place.index ∉ places)
    (hunlinking : ∀ identity, before.roles.unlinking = some identity → places = [])
    (hfiles : ChangesOnly policy places system system')
    (hphase : Phase policy lz4 system' call) : Move policy lz4 client call system system' := by
  subst hcall
  exact
    { calls := hcalls
      index := hkeeps.index
      contents := hkeeps.contents
      processId := hkeeps.processId
      files := fun place hplace => hfiles place fun hmem => hplace (howned place hmem)
      locks := fun hcall => by rw [hnot] at hcall; cases hcall
      unlocks := Or.inl hholds
      inFlight := fun filename hmem => (hinFlight filename hmem).imp_right fun hdone => hdone.2
      storing := fun chunk hchunk => by
        have hbefore : (system.calls client).roles.storing = some chunk := by
          rcases hstoring with hnone | hsame
          · rw [hnone] at hchunk
            cases hchunk
          · rw [← hsame, hchunk]
        refine ⟨((hinFlight _ (h.inFlight client chunk hbefore).2.1).resolve_right ?_), Or.inl hbefore⟩
        intro hdone
        rw [hdone.1] at hchunk
        cases hchunk
      removing := fun identity hclient => by rw [hremoving] at hclient; cases hclient
      unlinking := fun identity hclient => Or.inr (hfiles _ (by
        rw [hunlinking identity hclient]
        exact List.not_mem_nil))
      unpublished := hpublished
      onDisk := fun _ => hfiles .index hindex
      published := fun next hnext => by
        have := StorageCall.holds_of_published hnext
        rw [hnot] at this
        cases this
      phase := hphase
      commits := hkeeps.commits
      position := hkeeps.position
      commit? := hcommit
      began := Or.inl hbegan
      removals := hremovals
      logs := fun identity hclient => by
        have := StorageCall.holds_of_removing hclient
        rw [hnot] at this
        cases this }

end IsConsistent

/-! ## Publication -/

/-- The last step of a publication. -/
structure Commits (client : ι) (purpose : Purpose) (next : ChunkIndex)
    (system system' : StorageSystem ι) : Prop where
  calls : ∃ result, system'.calls = Function.update system.calls client (.returned result) ∧
    commitOf result = some purpose.commit
  index : system'.index = next
  contents : system'.contents =
    Function.update system.contents purpose.identity purpose.storing
  files : system'.files = system.files
  processId : system'.processId = system.processId
  inFlight : ∀ filename ∈ system.inFlightStores, filename ∈ system'.inFlightStores ∨
    ∃ chunk, purpose = .store chunk ∧ chunk.metadata.identity.chunkFilename = filename
  commits : system'.commits = system.commits ++ [purpose.commit]
  position : system'.position = Function.update system.position client system.commits.length
  completed : system'.completed = system.completed
  began : system'.began = system.began
  removals : system'.removals = system.removals

theorem commits_commit (system : StorageSystem ι) (client : ι) (purpose : Purpose)
    (next : ChunkIndex) :
    Commits client purpose next system (system.commit client purpose next) := by
  cases purpose with
  | store chunk =>
      refine ⟨⟨_, rfl, rfl⟩, rfl, rfl, rfl, rfl, fun filename hmem => ?_, rfl, rfl, rfl, rfl, rfl⟩
      by_cases hfilename : filename = chunk.metadata.identity.chunkFilename
      · exact Or.inr ⟨chunk, rfl, hfilename.symm⟩
      · exact Or.inl (Finset.mem_erase.mpr ⟨hfilename, hmem⟩)
  | remove identity =>
      exact ⟨⟨_, rfl, rfl⟩, rfl, rfl, rfl, rfl, fun filename hmem => Or.inl hmem, rfl, rfl, rfl, rfl,
        rfl⟩

namespace Commits

variable {client : ι} {purpose : Purpose} {next : ChunkIndex}
  (m : Commits client purpose next system system')
include m

theorem calls_of_ne {other : ι} (h : other ≠ client) : system'.calls other = system.calls other := by
  obtain ⟨result, hcalls, _⟩ := m.calls
  rw [hcalls, Function.update_of_ne h]

theorem roles_self : (system'.calls client).roles = {} := by
  obtain ⟨result, hcalls, _⟩ := m.calls
  rw [hcalls, Function.update_self]
  rfl

/-- A client with a role is another one. -/
theorem ne_of_holds {other : ι} (h : (system'.calls other).roles.holds = true) :
    other ≠ client := by
  intro heq
  rw [heq, m.roles_self] at h
  cases h

theorem contents_of_ne {identity : ChunkIdentity} (h : identity ≠ purpose.identity) :
    system'.contents identity = system.contents identity := by
  rw [m.contents, Function.update_of_ne h]

theorem contents_self : system'.contents purpose.identity = purpose.storing := by
  rw [m.contents, Function.update_self]

variable (hcall : system.calls client = .publish purpose next .sync)
include hcall

theorem not_holds (h : IsConsistent policy lz4 system) (other : ι) :
    (system'.calls other).roles.holds ≠ true := by
  intro hholds
  have hne := m.ne_of_holds hholds
  rw [m.calls_of_ne hne] at hholds
  exact hne (h.exclusive other client hholds (by rw [hcall]; rfl))

theorem not_stores (h : IsConsistent policy lz4 system) {other : ι} {chunk : Chunk}
    (hstoring : (system'.calls other).roles.storing = some chunk) :
    (system.calls other).roles.storing = some chunk ∧
      chunk.metadata.identity ≠ purpose.identity := by
  have hne : other ≠ client := by
    intro heq
    rw [heq, m.roles_self] at hstoring
    cases hstoring
  rw [m.calls_of_ne hne] at hstoring
  refine ⟨hstoring, fun hidentity => ?_⟩
  have hphase := h.phase client
  rw [hcall] at hphase
  cases purpose with
  | store chunk' =>
      exact hne (h.apart other client _ ⟨chunk, hstoring, hidentity⟩
        ⟨chunk', by rw [hcall]; rfl, rfl⟩)
  | remove identity =>
      obtain ⟨chunk', hcontents⟩ := hphase.1.2
      exact h.not_stores hcontents ⟨chunk, hstoring, hidentity⟩

theorem stored (h : IsConsistent policy lz4 system) (identity : ChunkIdentity) (chunk : Chunk)
    (hcontents : system'.contents identity = some chunk)
    (hremoving : ∀ other, (system'.calls other).roles.removing ≠ some identity) :
    HasChunk policy lz4 system'.files chunk := by
  rw [m.files]
  have hphase := h.phase client
  rw [hcall] at hphase
  by_cases hidentity : identity = purpose.identity
  · rw [hidentity, m.contents_self] at hcontents
    cases purpose with
    | store chunk' =>
        cases hcontents
        exact hphase.1.2
    | remove identity => cases hcontents
  · rw [m.contents_of_ne hidentity] at hcontents
    refine h.stored identity chunk hcontents fun other => ?_
    by_cases hother : other = client
    · intro hclient
      rw [hother, hcall] at hclient
      cases purpose with
      | store chunk' => cases hclient
      | remove identity' =>
          cases hclient
          exact hidentity rfl
    · rw [← m.calls_of_ne hother]
      exact hremoving other

/-- A publication that is complete leaves the system consistent. -/
theorem isConsistent (h : IsConsistent policy lz4 system) : IsConsistent policy lz4 system' := by
  have hphase := h.phase client
  rw [hcall] at hphase
  obtain ⟨hnext, hlimits, -⟩ := hphase
  have hload := h.published client next (by rw [hcall]; rfl)
  refine ⟨m.index ▸ hnext.isWellFormed h.wellFormed, m.index ▸ hlimits, ?_, ?_, ?_, ?_, ?_, ?_,
    m.stored hcall h, ?_, ?_, ?_⟩
  · intro identity
    rw [m.index, hnext.find?]
    by_cases hidentity : identity = purpose.identity
    · rw [if_pos hidentity, hidentity, m.contents_self]
    · rw [if_neg hidentity, m.contents_of_ne hidentity]
      exact h.refines identity
  · intro identity chunk hcontents
    by_cases hidentity : identity = purpose.identity
    · rw [hidentity, m.contents_self] at hcontents
      cases purpose with
      | store chunk' =>
          cases hcontents
          exact hidentity.symm
      | remove identity' => cases hcontents
    · rw [m.contents_of_ne hidentity] at hcontents
      exact h.named identity chunk hcontents
  · intro other hholds
    exact absurd hholds (m.not_holds hcall h other)
  · intro other other' hholds
    exact absurd hholds (m.not_holds hcall h other)
  · intro other chunk hstoring
    obtain ⟨hbefore, hidentity⟩ := m.not_stores hcall h hstoring
    obtain ⟨hvalid, hmem, hcontents⟩ := h.inFlight other chunk hbefore
    refine ⟨hvalid, (m.inFlight _ hmem).resolve_right ?_, by rw [m.contents_of_ne hidentity, hcontents]⟩
    intro hpurpose
    obtain ⟨chunk', rfl, hfilename⟩ := hpurpose
    exact hidentity (ChunkIdentity.chunkFilename_injective hfilename).symm
  · intro left right identity hleft hright
    obtain ⟨chunk, hchunk, hidentity⟩ := hleft
    obtain ⟨chunk', hchunk', hidentity'⟩ := hright
    exact h.apart left right identity ⟨chunk, (m.not_stores hcall h hchunk).1, hidentity⟩
      ⟨chunk', (m.not_stores hcall h hchunk').1, hidentity'⟩
  · intro _
    rw [m.files, m.index, hload]
  · intro other next' hpublished
    exact absurd (StorageCall.holds_of_published hpublished) (m.not_holds hcall h other)
  · intro other
    by_cases hother : other = client
    · obtain ⟨result, hcalls, _⟩ := m.calls
      rw [hother, hcalls, Function.update_self]
      trivial
    · have hholds := m.not_holds hcall h other
      rw [m.calls_of_ne hother] at hholds ⊢
      exact (h.phase other).congr m.processId (fun place _ => by rw [m.files])
        fun hother => absurd hother hholds

end Commits

end GiveMePi.Storage
