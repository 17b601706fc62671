import GiveMePi.Storage.StorageSteps

/-! # What a load returns

A load looks at the index once and at the file several times, and the file may be taken away and
written anew meanwhile. As long as no file of the identity is taken away, it finds the chunk that was
there when it began. -/

namespace GiveMePi.Storage

open StorageSystem ChunkCodec
open Library (OrderedMap)

variable {ι : Type} (policy : StoragePolicy) (lz4 : Lz4) (system : StorageSystem ι) (client : ι)

/-! ## Loads in progress -/

/-- No file of the identity has been taken away since the call of the client began. -/
def IsUndisturbed (identity : ChunkIdentity) : Prop :=
  identity ∉ system.removals.drop (system.began client).removals

/-- The chunk of the identity is the one that was there when the call began. -/
structure Finds (identity : ChunkIdentity) (entry : ChunkIndexEntry) (chunk : Chunk) : Prop where
  contents : system.contents identity = some chunk
  entry_eq : entry = ChunkIndex.entryOf chunk.metadata
  began : contentsOf policy lz4 (system.began client).files (system.began client).index identity =
    some chunk
  kept : ∀ other, (system.calls other).roles.removing ≠ some identity

/-- The call has found an entry, and unless it is disturbed the chunk of the entry, with some facts
about it. -/
def Expects (identity : ChunkIdentity) (entry : ChunkIndexEntry) (facts : Chunk → Prop) : Prop :=
  (system.began client).index.find? identity = some entry ∧
    (IsUndisturbed system client identity →
      ∃ chunk, Finds policy lz4 system client identity entry chunk ∧ facts chunk)

/-- A chunk that is loaded has the identity, the size and the checksum that were asked for, and a load
that is not disturbed returns what was there when it began. -/
structure IsLoaded (identity : ChunkIdentity) (result : Except Error (Option Chunk)) : Prop where
  sound : ∀ chunk, result = .ok (some chunk) → chunk.metadata.identity = identity ∧
    ∃ entry, (system.began client).index.find? identity = some entry ∧
      chunk.metadata.storedSize = entry.storedSize ∧
        chunk.metadata.checksumValue = entry.checksumValue
  exact : IsUndisturbed system client identity → result =
    .ok (contentsOf policy lz4 (system.began client).files (system.began client).index identity)

def Loads : StorageCall → Prop
  | .loadCheck identity entry | .loadOpen identity entry =>
      Expects policy lz4 system client identity entry fun _ => True
  | .loadSize identity entry content =>
      Expects policy lz4 system client identity entry fun chunk =>
        IsStoredAs policy lz4 chunk content
  | .loadRead identity entry content fileSize =>
      Expects policy lz4 system client identity entry fun chunk =>
        IsStoredAs policy lz4 chunk content ∧ fileSize = content.length
  | .returned (.loaded identity result) => IsLoaded policy lz4 system client identity result
  | _ => True

variable {policy lz4 system client} {system' : StorageSystem ι}

/-! ## Steps of others -/

theorem IsUndisturbed.of_append {identity : ChunkIdentity} {more : List ChunkIdentity}
    (h : IsUndisturbed system' client identity)
    (hbegan : system'.began client = system.began client)
    (hremovals : system'.removals = system.removals ++ more) :
    IsUndisturbed system client identity := by
  intro hmem
  refine h ?_
  rw [hbegan, hremovals, List.drop_append]
  exact List.mem_append_left _ hmem

/-- A load knows what it knew as long as the chunk stays. -/
theorem Loads.congr {call : StorageCall} (h : Loads policy lz4 system client call)
    (hbegan : system'.began client = system.began client)
    (hremovals : ∃ more, system'.removals = system.removals ++ more)
    (hfinds : ∀ identity entry chunk, IsUndisturbed system' client identity →
      Finds policy lz4 system client identity entry chunk →
        Finds policy lz4 system' client identity entry chunk) :
    Loads policy lz4 system' client call := by
  obtain ⟨more, hremovals⟩ := hremovals
  have hexpects {identity : ChunkIdentity} {entry : ChunkIndexEntry} {facts : Chunk → Prop}
      (h : Expects policy lz4 system client identity entry facts) :
      Expects policy lz4 system' client identity entry facts := by
    refine ⟨hbegan ▸ h.1, fun hundisturbed => ?_⟩
    obtain ⟨chunk, hchunk, hfacts⟩ := h.2 (hundisturbed.of_append hbegan hremovals)
    exact ⟨chunk, hfinds identity entry chunk hundisturbed hchunk, hfacts⟩
  cases call with
  | loadCheck identity entry | loadOpen identity entry => exact hexpects h
  | loadSize identity entry content => exact hexpects h
  | loadRead identity entry content fileSize => exact hexpects h
  | returned result =>
      cases result with
      | loaded identity result =>
          refine ⟨fun chunk hresult => ?_, fun hundisturbed => ?_⟩
          · rw [hbegan]
            exact h.sound chunk hresult
          · rw [hbegan]
            exact h.exact (hundisturbed.of_append hbegan hremovals)
      | _ => trivial
  | _ => trivial

variable [DecidableEq ι] {other : ι}

/-- A move keeps the chunk unless it takes its file away. -/
theorem Move.finds {call : StorageCall} (m : Move policy lz4 other call system system')
    (hle : (system.began client).removals ≤ system.removals.length)
    (hbegan : system'.began client = system.began client) {identity : ChunkIdentity}
    {entry : ChunkIndexEntry} {chunk : Chunk} (hundisturbed : IsUndisturbed system' client identity)
    (h : Finds policy lz4 system client identity entry chunk) :
    Finds policy lz4 system' client identity entry chunk := by
  refine ⟨by rw [m.contents, h.contents], h.entry_eq, by rw [hbegan, h.began], fun third => ?_⟩
  by_cases hthird : third = other
  · rw [hthird, m.calls_self]
    intro hremoving
    rcases m.logs identity hremoving with hbefore | hlogged
    · exact h.kept other hbefore
    · refine hundisturbed ?_
      rw [hbegan, hlogged, List.drop_append_of_le_length hle]
      exact List.mem_append_right _ (List.mem_singleton_self identity)
  · rw [m.calls_of_ne hthird]
    exact h.kept third

/-- A publication is about another chunk. -/
theorem Commits.finds {purpose : Purpose} {next : ChunkIndex}
    (m : Commits other purpose next system system') (hconsistent : IsConsistent policy lz4 system)
    (hcall : system.calls other = .publish purpose next .sync) {identity : ChunkIdentity}
    {entry : ChunkIndexEntry} {chunk : Chunk}
    (h : Finds policy lz4 system client identity entry chunk) :
    Finds policy lz4 system' client identity entry chunk := by
  have hidentity : identity ≠ purpose.identity := by
    intro heq
    cases purpose with
    | store chunk' =>
        have := (hconsistent.inFlight other chunk' (by rw [hcall]; rfl)).2.2
        rw [← show identity = chunk'.metadata.identity from heq, h.contents] at this
        cases this
    | remove removed =>
        refine h.kept other ?_
        rw [hcall, heq]
        rfl
  refine ⟨by rw [m.contents_of_ne hidentity, h.contents], h.entry_eq, by rw [m.began, h.began],
    fun third => ?_⟩
  by_cases hthird : third = other
  · rw [hthird, m.roles_self]
    simp
  · rw [m.calls_of_ne hthird]
    exact h.kept third

/-! ## Steps of the load itself -/

omit [DecidableEq ι] in
/-- The bytes of a chunk have one length. -/
theorem IsStoredAs.length_eq {chunk : Chunk} {bytes bytes' : Bytes}
    (h : IsStoredAs policy lz4 chunk bytes) (h' : IsStoredAs policy lz4 chunk bytes') :
    bytes.length = bytes'.length := by
  obtain ⟨stored, hbytes, hdecodable⟩ := decode_eq_ok_iff.mp h.1
  obtain ⟨stored', hbytes', hdecodable'⟩ := decode_eq_ok_iff.mp h'.1
  have hsize : stored.length = stored'.length := hdecodable.size.symm.trans hdecodable'.size
  simp only [hbytes, hbytes', chunkBytes, List.length_append, length_appendU32, hsize]

/-- What the last check of a load lets through. -/
theorem checkLoaded_sound {identity : ChunkIdentity} {entry : ChunkIndexEntry} {content : Bytes}
    {fileSize : ℕ} {chunk : Chunk}
    (h : checkLoaded policy lz4 identity entry content fileSize = .ok (some chunk)) :
    chunk.metadata.identity = identity ∧ chunk.metadata.storedSize = entry.storedSize ∧
      chunk.metadata.checksumValue = entry.checksumValue := by
  simp only [checkLoaded, bind_eq_ok, throwIf_eq_ok, not_not, not_or, pure_eq_ok, Except.ok.injEq,
    Option.some.injEq] at h
  obtain ⟨_, _, loaded, _, _, hidentity, _, ⟨hsize, hchecksum⟩, rfl⟩ := h
  exact ⟨hidentity, hsize, hchecksum⟩

/-- The bytes of a chunk are loaded as it. -/
theorem checkLoaded_eq {entry : ChunkIndexEntry} {content : Bytes} {chunk : Chunk}
    (h : IsStoredAs policy lz4 chunk content) (hentry : entry = ChunkIndex.entryOf chunk.metadata) :
    checkLoaded policy lz4 chunk.metadata.identity entry content content.length =
      .ok (some chunk) := by
  have hread : readContent content content.length = .ok content := by
    simp [readContent]
  subst hentry
  rw [checkLoaded, hread, ok_bind, ChunkIndex.entryOf, h.reload, ok_bind]
  simp

section Own

variable (hconsistent : IsConsistent policy lz4 system)
include hconsistent

omit [DecidableEq ι] in
/-- The file of a chunk that is still there. -/
theorem Finds.lookup {identity : ChunkIdentity} {entry : ChunkIndexEntry} {chunk : Chunk}
    (h : Finds policy lz4 system client identity entry chunk) :
    ∃ bytes, system.files.lookup (ChunkStore.chunkPath policy entry.storageFile) = some bytes ∧
      IsStoredAs policy lz4 chunk bytes := by
  rw [h.entry_eq]
  exact hconsistent.stored identity chunk h.contents h.kept

/-- What a load finds in the index when it begins. -/
theorem finds_begin (call : StorageCall) {identity : ChunkIdentity} {entry : ChunkIndexEntry}
    (hfree : system.locked = false) (hroles : call.roles = {})
    (hentry : system.index.find? identity = some entry) :
    ∃ chunk, Finds policy lz4 ((system.begin_ client).goto client call) client identity entry
      chunk := by
  obtain ⟨chunk, hcontents, hidentity, heq⟩ := hconsistent.contents_of_find? hentry
  have hkept : ∀ other, (system.calls other).roles.removing ≠ some identity := by
    intro other hremoving
    rw [hconsistent.locked other (StorageCall.holds_of_removing hremoving)] at hfree
    cases hfree
  obtain ⟨bytes, hlookup, hdecode, _⟩ := hconsistent.stored identity chunk hcontents hkept
  refine ⟨chunk, hcontents, heq, ?_, fun other => ?_⟩
  · change contentsOf policy lz4 ((system.begin_ client).began client).files
      ((system.begin_ client).began client).index identity = some chunk
    rw [began_begin_]
    simp only [contentsOf, hentry, heq, ChunkIndex.entryOf, hlookup, hdecode, bind, Option.bind,
      Except.toOption]
  · change (Function.update system.calls client call other).roles.removing ≠ some identity
    by_cases hother : other = client
    · rw [hother, Function.update_self, hroles]
      simp
    · rw [Function.update_of_ne hother]
      exact hkept other

end Own

/-- The client goes on with its load. -/
theorem Expects.goto {identity : ChunkIdentity} {entry : ChunkIndexEntry} {call : StorageCall}
    {facts facts' : Chunk → Prop} (h : Expects policy lz4 system client identity entry facts)
    (hroles : call.roles = {}) (hfacts : ∀ chunk,
      Finds policy lz4 system client identity entry chunk → facts chunk → facts' chunk) :
    Expects policy lz4 (system.goto client call) client identity entry facts' := by
  refine ⟨h.1, fun hundisturbed => ?_⟩
  obtain ⟨chunk, hfinds, hchunk⟩ := h.2 hundisturbed
  refine ⟨chunk, ⟨hfinds.contents, hfinds.entry_eq, hfinds.began, fun other => ?_⟩,
    hfacts chunk hfinds hchunk⟩
  change (Function.update system.calls client call other).roles.removing ≠ some identity
  by_cases hother : other = client
  · rw [hother, Function.update_self, hroles]
    simp
  · rw [Function.update_of_ne hother]
    exact hfinds.kept other

/-- A load that misses the file is disturbed. -/
theorem Expects.missing (hconsistent : IsConsistent policy lz4 system) {identity : ChunkIdentity}
    {entry : ChunkIndexEntry} {facts : Chunk → Prop} {call : StorageCall}
    {result : Except Error (Option Chunk)}
    (h : Expects policy lz4 system client identity entry facts)
    (hlookup : system.files.lookup (ChunkStore.chunkPath policy entry.storageFile) = none)
    (hresult : ∀ chunk, result ≠ .ok (some chunk)) :
    IsLoaded policy lz4 (system.goto client call) client identity result := by
  refine ⟨fun chunk heq => absurd heq (hresult chunk), fun hundisturbed => ?_⟩
  obtain ⟨chunk, hfinds, _⟩ := h.2 hundisturbed
  obtain ⟨bytes, hfile, _⟩ := hfinds.lookup hconsistent
  rw [hlookup] at hfile
  cases hfile

/-- The steps of a load. -/
theorem loads_loadStep (hconsistent : IsConsistent policy lz4 system)
    (h : Loads policy lz4 system client (system.calls client))
    (hs : LoadStep policy lz4 client system system') :
    Loads policy lz4 system' client (system'.calls client) := by
  cases hs with
  | @absent identity hidle hfree habsent =>
      rw [goto_calls]
      refine ⟨fun chunk hresult => absurd hresult (by simp), fun _ => ?_⟩
      change _ = Except.ok (contentsOf policy lz4 ((system.begin_ client).began client).files
        ((system.begin_ client).began client).index identity)
      rw [began_begin_, contentsOf_eq_none (OrderedMap.find?_eq_none_iff.mpr habsent)]
  | @enter identity entry hidle hfree hentry =>
      rw [goto_calls]
      refine ⟨?_, fun _ => ?_⟩
      · change ((system.begin_ client).began client).index.find? identity = some entry
        rw [began_begin_, hentry]
      · obtain ⟨chunk, hfinds⟩ := finds_begin hconsistent (.loadCheck identity entry) hfree rfl hentry
        exact ⟨chunk, hfinds, trivial⟩
  | noFile hcall hlookup | openFails hcall hlookup | sizeFails hcall hlookup =>
      rw [hcall] at h
      rw [goto_calls]
      exact h.missing hconsistent hlookup fun chunk hresult => by cases hresult
  | check hcall _ =>
      rw [hcall] at h
      rw [goto_calls]
      exact h.goto rfl fun chunk _ hchunk => hchunk
  | «open» hcall hlookup =>
      rw [hcall] at h
      rw [goto_calls]
      refine h.goto rfl fun chunk hfinds _ => ?_
      obtain ⟨bytes, hfile, hbytes⟩ := hfinds.lookup hconsistent
      rw [hlookup] at hfile
      exact Option.some.inj hfile ▸ hbytes
  | size hcall hlookup =>
      rw [hcall] at h
      rw [goto_calls]
      refine h.goto rfl fun chunk hfinds hcontent => ⟨hcontent, ?_⟩
      obtain ⟨bytes, hfile, hbytes⟩ := hfinds.lookup hconsistent
      rw [hlookup] at hfile
      exact (Option.some.inj hfile ▸ hbytes).length_eq hcontent
  | @read identity entry content fileSize hcall =>
      rw [hcall] at h
      rw [goto_calls]
      refine ⟨fun chunk hresult => ?_, fun hundisturbed => ?_⟩
      · obtain ⟨hidentity, hsizes⟩ := checkLoaded_sound hresult
        exact ⟨hidentity, entry, h.1, hsizes⟩
      · obtain ⟨chunk, hfinds, hcontent, rfl⟩ := h.2 hundisturbed
        have hidentity := hconsistent.named identity chunk hfinds.contents
        change _ = Except.ok (contentsOf policy lz4 (system.began client).files
          (system.began client).index identity)
        rw [hfinds.began, ← hidentity]
        exact checkLoaded_eq hcontent hfinds.entry_eq
  | containsAbsent _ _ _ | containsEnter _ _ _ | containsCheck _ =>
      rw [goto_calls]
      trivial

/-- Other calls load nothing. -/
theorem loads_storeStep {outcome : Outcome} (hs : StoreStep policy lz4 client outcome system system') :
    Loads policy lz4 system' client (system'.calls client) := by
  cases hs with
  | @writeFails _ chunk command _ _ _ _ =>
      rw [goto_calls]
      by_cases hdiscards : ChunkStore.discards command = true
      · rw [if_pos hdiscards]
        trivial
      · rw [if_neg hdiscards]
        trivial
  | undoNothing _ _ | undoFails _ _ | undoSync _ =>
      rw [rethrow, goto_calls]
      trivial
  | _ =>
      rw [goto_calls]
      trivial

theorem loads_publishStep {outcome : Outcome}
    (hs : PublishStep policy client outcome system system') :
    Loads policy lz4 system' client (system'.calls client) := by
  cases hs with
  | @createFails _ purpose _ _ _ _ _ _ _ _ | @syncFails _ purpose _ _ _ _
  | @discard _ purpose _ _ _ _ _ =>
      cases purpose with
      | store chunk =>
          rw [publishFailed, goto_calls]
          trivial
      | remove identity =>
          rw [publishFailed, goto_calls]
          trivial
  | @sync _ purpose next _ =>
      cases purpose with
      | store chunk =>
          rw [StorageSystem.commit, goto_calls]
          trivial
      | remove identity =>
          rw [StorageSystem.commit, goto_calls]
          trivial
  | _ =>
      rw [goto_calls]
      trivial

theorem loads_removeStep {outcome : Outcome} (hs : RemoveStep policy client outcome system system') :
    Loads policy lz4 system' client (system'.calls client) := by
  cases hs with
  | _ =>
      rw [goto_calls]
      trivial

end GiveMePi.Storage
