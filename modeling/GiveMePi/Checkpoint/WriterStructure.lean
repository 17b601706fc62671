import GiveMePi.Binary.FrontierCommits
import GiveMePi.Checkpoint.CommitSafety
import GiveMePi.Checkpoint.CheckpointFrontierWriter
import GiveMePi.Checkpoint.ManifestAcceptance

/-! # The writer on publishable frontiers

A publishable frontier passes every check that the writer makes before it touches a file, and its
manifest is accepted before and after the blocks are written. -/

namespace GiveMePi.Checkpoint.CheckpointFrontierWriter

open Binary (BinaryNode IsPublishable PlacedRange placed)
open CheckpointManifestValidator (IsAcceptable rangeOf validate validate_of_tiles)
open Library (Meets Tiles)
open WriterSession

/-- A writer of a computation whose entries are complete. -/
structure IsSound (identity : ComputationIdentity) (writer : CheckpointFrontierWriter) : Prop where
  identity : writer.identity = identity
  complete : ∀ entry ∈ writer.entries, entry.completion = CompletionState.complete

/-- A session with a sound writer. -/
def HasWriter (identity : ComputationIdentity) (session : WriterSession) : Prop :=
  session.writer.IsSound identity

theorem complete_of_validateEntries {directory : Bytes} {identity : ComputationIdentity}
    {cursor : UInt64} {entries : List ManifestEntry} {u : Unit}
    (h : validateEntries directory identity cursor entries = .ok u) :
    ∀ entry ∈ entries, entry.completion = CompletionState.complete := by
  induction entries generalizing cursor with
  | nil => exact fun entry hmem => absurd hmem List.not_mem_nil
  | cons entry rest ih =>
      simp only [validateEntries, bind_eq_ok, throwIf_eq_ok, not_not] at h
      obtain ⟨-, -, -, -, -, hcomplete, -, -, -, -, hrest⟩ := h
      exact List.forall_mem_cons.mpr ⟨hcomplete, ih hrest⟩

/-- The constructor makes a sound writer of a valid computation. -/
theorem create_isSound {directory : Bytes} {identity : ComputationIdentity} {interval : ℤ}
    {acceptedEntries : List ManifestEntry} {writer : CheckpointFrontierWriter}
    (h : create directory identity interval acceptedEntries = .ok writer) :
    identity.IsValid ∧ writer.IsSound identity := by
  simp only [create, bind_eq_ok, pure_eq_ok, Except.ok.injEq] at h
  obtain ⟨_, _, _, hvalid, _, _, _, hentries, rfl⟩ := h
  exact ⟨hvalid, rfl, complete_of_validateEntries hentries⟩

/-! ## Candidates -/

theorem mem_of_mem_lowerBound {entries : List ManifestEntry} {location : BlockLocation}
    {entry : ManifestEntry} (h : entry ∈ lowerBound entries location) : entry ∈ entries :=
  (List.dropWhile_sublist _).mem h

/-- The location of a node at a level. -/
def locationOf (place : BinaryNode × UInt32) : BlockLocation :=
  ⟨place.1.start, place.1.stop, place.2⟩

/-- A node with values is a candidate at its location, whether it was published before or not. -/
theorem candidateOf_eq_ok {existing : List ManifestEntry} {location : BlockLocation}
    {node : BinaryNode} (hvalues : node.hasValues = true)
    (hcomplete : ∀ entry ∈ existing, entry.completion = CompletionState.complete) :
    ∃ candidate, candidateOf existing location node = .ok candidate ∧
      candidate.entry.location = location ∧
        candidate.entry.completion = CompletionState.complete := by
  have hnew : newCandidate location node = .ok ⟨⟨location, [], 0, ChecksumAlgorithm.crc32c, 0,
      CompletionState.complete⟩, some node⟩ := by
    rw [newCandidate, throwIf_neg (by rw [hvalues]; decide)]
    rfl
  cases existing with
  | nil => exact ⟨_, hnew, rfl, rfl⟩
  | cons entry rest =>
      simp only [candidateOf, List.head?_cons]
      split
      · next hlocation => exact ⟨⟨entry, none⟩, rfl, hlocation, hcomplete entry List.mem_cons_self⟩
      · exact ⟨_, hnew, rfl, rfl⟩

theorem complete_of_candidateOf {existing : List ManifestEntry} {location : BlockLocation}
    {node : BinaryNode} {candidate : CandidateEntry}
    (hcomplete : ∀ entry ∈ existing, entry.completion = CompletionState.complete)
    (h : candidateOf existing location node = .ok candidate) :
    candidate.entry.completion = CompletionState.complete := by
  have hnew (hcandidate : newCandidate location node = .ok candidate) :
      candidate.entry.completion = CompletionState.complete := by
    simp only [newCandidate, bind_eq_ok, pure_eq_ok, Except.ok.injEq] at hcandidate
    obtain ⟨_, _, rfl⟩ := hcandidate
    rfl
  cases existing with
  | nil => exact hnew h
  | cons entry rest =>
      simp only [candidateOf, List.head?_cons] at h
      split at h
      · obtain rfl := Except.ok.inj h
        exact hcomplete entry List.mem_cons_self
      · exact hnew h

/-- The nodes of a tiling are candidates at their locations, up to the end of the tiling. -/
theorem candidates_eq_ok {identity : ComputationIdentity} {existing : List ManifestEntry}
    {cursor : UInt64} {places : List (BinaryNode × UInt32)}
    (hcomplete : ∀ entry ∈ existing, entry.completion = CompletionState.complete)
    (hvalues : ∀ place ∈ places, place.1.hasValues = true)
    (htiles : Tiles cursor (places.map fun place => place.1.range) identity.termCount) :
    ∃ found, candidates identity existing cursor places = .ok (found, identity.termCount) ∧
      found.map (fun candidate => candidate.entry.location) = places.map locationOf ∧
        ∀ candidate ∈ found, candidate.entry.completion = CompletionState.complete := by
  induction places generalizing existing cursor with
  | nil =>
      obtain rfl : cursor = identity.termCount := htiles
      exact ⟨[], rfl, rfl, fun _ hmem => absurd hmem List.not_mem_nil⟩
  | cons place rest ih =>
      obtain ⟨node, treeLevel⟩ := place
      obtain ⟨hstart, hlt, hrest⟩ := htiles
      rw [List.forall_mem_cons] at hvalues
      have hstart : node.start = cursor := hstart
      have hbounds : node.start < node.stop ∧ node.stop ≤ identity.termCount :=
        ⟨hstart ▸ hlt, hrest.le⟩
      have hlocation : BlockLocation.create node.start node.stop treeLevel identity =
          .ok ⟨node.start, node.stop, treeLevel⟩ := by
        have hvalid : BlockLocation.validate ⟨node.start, node.stop, treeLevel⟩ identity = .ok () :=
          BlockLocation.validate_eq_ok.mpr hbounds
        rw [BlockLocation.create, hvalid]
        rfl
      have hexisting : ∀ entry ∈ lowerBound existing ⟨node.start, node.stop, treeLevel⟩,
          entry.completion = CompletionState.complete :=
        fun entry hmem => hcomplete entry (mem_of_mem_lowerBound hmem)
      obtain ⟨candidate, hcandidate, hplace, hdone⟩ :=
        @candidateOf_eq_ok _ ⟨node.start, node.stop, treeLevel⟩ node hvalues.1 hexisting
      obtain ⟨found, hfound, hplaces, hdones⟩ := ih hexisting hvalues.2 hrest
      refine ⟨candidate :: found, ?_, ?_, List.forall_mem_cons.mpr ⟨hdone, hdones⟩⟩
      · rw [candidates, throwIf_neg (not_not.mpr hstart)]
        simp only [ok_bind, hlocation, hcandidate, hfound, pure_eq_ok]
      · rw [List.map_cons, List.map_cons, hplace, hplaces]
        rfl

/-- Whatever is shown, the candidates are complete. -/
theorem complete_of_candidates {identity : ComputationIdentity} {existing : List ManifestEntry}
    {cursor : UInt64} {places : List (BinaryNode × UInt32)}
    {result : List CandidateEntry × UInt64}
    (hcomplete : ∀ entry ∈ existing, entry.completion = CompletionState.complete)
    (h : candidates identity existing cursor places = .ok result) :
    ∀ candidate ∈ result.1, candidate.entry.completion = CompletionState.complete := by
  induction places generalizing existing cursor result with
  | nil =>
      cases h
      exact fun _ hmem => absurd hmem List.not_mem_nil
  | cons place rest ih =>
      obtain ⟨node, treeLevel⟩ := place
      simp only [candidates, bind_eq_ok, throwIf_eq_ok, pure_eq_ok, Except.ok.injEq,
        Prod.exists] at h
      obtain ⟨_, _, location, _, candidate, hcandidate, found, last, hfound, rfl⟩ := h
      have hexisting : ∀ entry ∈ lowerBound existing location,
          entry.completion = CompletionState.complete :=
        fun entry hmem => hcomplete entry (mem_of_mem_lowerBound hmem)
      refine List.forall_mem_cons.mpr ⟨?_, ih hexisting hfound⟩
      exact complete_of_candidateOf hexisting hcandidate

/-- Blocks are written at the locations of their candidates. -/
theorem saveCandidates_meets (directory : Bytes) (identity : ComputationIdentity)
    (found : List CandidateEntry) :
    Meets (fun _ => True) (saveCandidates directory identity found)
      (fun entries _ => entries.map (fun entry => (entry.location, entry.completion)) =
        found.map fun candidate => (candidate.entry.location, candidate.entry.completion))
      (fun _ _ => True) := by
  have hsave (candidate : CandidateEntry) :
      Meets (fun _ => True) (saveCandidate directory identity candidate)
        (fun entry _ => (entry.location, entry.completion) =
          (candidate.entry.location, candidate.entry.completion)) (fun _ _ => True) := by
    rw [saveCandidate]
    cases candidate.newNode with
    | none => exact Meets.pure fun _ _ => rfl
    | some node => exact Meets.bind Meets.any fun stored => Meets.pure fun _ _ => rfl
  induction found with
  | nil => exact Meets.pure fun _ _ => rfl
  | cons candidate rest ih =>
      rw [saveCandidates]
      refine Meets.bind (hsave candidate) fun entry s hentry => ?_
      refine (Meets.bind ih fun entries => Meets.pure fun _ hentries => ?_) s trivial
      rw [List.map_cons, List.map_cons, hentry, hentries]

/-! ## Manifests -/

variable {identity : ComputationIdentity} {writer : CheckpointFrontierWriter}
  {known : List PlacedRange} {nodes : List BinaryNode} {treeLevels : List UInt32}

/-- A manifest with the ranges and levels of a publishable frontier is accepted. -/
theorem isAccepted_of_isPublishable (hidentity : identity.IsValid)
    (h : IsPublishable identity.termCount known nodes treeLevels) {entries : List ManifestEntry}
    (hlocations : entries.map (fun entry => entry.location) =
      (nodes.zip treeLevels).map locationOf)
    (hcomplete : ∀ entry ∈ entries, entry.completion = CompletionState.complete) :
    (validate ⟨identity, entries⟩ identity).validation.isAccepted = true := by
  have hranges : entries.map rangeOf = nodes.map BinaryNode.range := by
    have hmap := congrArg (List.map fun location : BlockLocation =>
      (location.start, location.stop)) hlocations
    rw [List.map_map, List.map_map] at hmap
    refine hmap.trans ?_
    have hfst : ((nodes.zip treeLevels).map Prod.fst).map BinaryNode.range =
        nodes.map BinaryNode.range := by
      rw [List.map_fst_zip h.length_eq.le]
    rw [← hfst, List.map_map]
    rfl
  have htiles := h.tiles
  rw [← hranges] at htiles
  refine (validate_of_tiles hidentity rfl (fun entry hmem => ?_) htiles).1
  have hbounds := htiles.bounds_of_mem (List.mem_map_of_mem hmem)
  refine ⟨hbounds.2.1, hbounds.2.2, ?_, hcomplete entry hmem⟩
  have hlocation : entry.location ∈ (nodes.zip treeLevels).map locationOf := by
    rw [← hlocations]
    exact List.mem_map_of_mem hmem
  obtain ⟨place, hplace, hequal⟩ := List.mem_map.mp hlocation
  rw [← hequal, CheckpointManifestValidator.maximumTreeLevel_eq]
  exact h.level_le _ (List.of_mem_zip hplace).2

/-- What the writer lists for a frontier that passes its checks. -/
structure PassesChecks (writer : CheckpointFrontierWriter) (nodes : List BinaryNode)
    (treeLevels : List UInt32) (found : List CandidateEntry) : Prop where
  length_eq : nodes.length = treeLevels.length
  ne_nil : nodes ≠ []
  candidates : candidates writer.identity writer.entries 0 (nodes.zip treeLevels) =
    .ok (found, writer.identity.termCount)
  accepted : (validate ⟨writer.identity, found.map fun candidate => candidate.entry⟩
    writer.identity).validation.isAccepted = true

/-- The candidates of a publishable frontier. -/
theorem IsSound.candidates (hwriter : writer.IsSound identity)
    (h : IsPublishable identity.termCount known nodes treeLevels) :
    ∃ found, CheckpointFrontierWriter.candidates identity writer.entries 0 (nodes.zip treeLevels) =
      .ok (found, identity.termCount) ∧
        found.map (fun candidate => candidate.entry.location) =
          (nodes.zip treeLevels).map locationOf ∧
            ∀ candidate ∈ found, candidate.entry.completion = CompletionState.complete := by
  apply candidates_eq_ok hwriter.complete
  · exact fun place hmem => h.hasValues _ (List.of_mem_zip hmem).1
  · have htiles := h.tiles
    rwa [← List.map_fst_zip h.length_eq.le, List.map_map] at htiles

/-- A publishable frontier passes the checks of a sound writer. -/
theorem IsSound.passesChecks (hidentity : identity.IsValid) (hwriter : writer.IsSound identity)
    (h : IsPublishable identity.termCount known nodes treeLevels) :
    ∃ found, writer.PassesChecks nodes treeLevels found := by
  obtain ⟨found, hfound, hlocations, hcomplete⟩ := hwriter.candidates h
  obtain rfl := hwriter.identity
  refine ⟨found, h.length_eq, h.ne_nil, hfound, ?_⟩
  apply isAccepted_of_isPublishable hidentity h
  · rw [List.map_map]
    exact hlocations
  · rw [List.forall_mem_map]
    exact hcomplete

/-- What a writer hands to the store as the next manifest, if it comes so far. -/
def Publishes (writer : CheckpointFrontierWriter) (nodes : List BinaryNode)
    (treeLevels : List UInt32) (manifest : CheckpointManifest) : Prop :=
  ∃ found cursor world entries world',
    CheckpointFrontierWriter.candidates writer.identity writer.entries 0 (nodes.zip treeLevels) =
      .ok (found, cursor) ∧
    saveCandidates writer.directory writer.identity found world = .ok entries world' ∧
    manifest = ⟨writer.identity, entries⟩

/-- The manifest of a publishable frontier is accepted with the blocks in it. -/
theorem IsSound.isAccepted_of_publishes (hidentity : identity.IsValid)
    (hwriter : writer.IsSound identity)
    (h : IsPublishable identity.termCount known nodes treeLevels) {manifest : CheckpointManifest}
    (hpublishes : writer.Publishes nodes treeLevels manifest) :
    (validate manifest identity).validation.isAccepted = true := by
  obtain ⟨found, hfound, hlocations, hcomplete⟩ := hwriter.candidates h
  obtain ⟨other, cursor, world, entries, world', hother, hsave, rfl⟩ := hpublishes
  rw [hwriter.identity] at hother hsave ⊢
  rw [hfound, Except.ok.injEq, Prod.mk.injEq] at hother
  obtain ⟨rfl, rfl⟩ := hother
  have hsaved := saveCandidates_meets writer.directory identity found world trivial
  rw [hsave] at hsaved
  have hplaces := congrArg (List.map Prod.fst) hsaved
  have hdone := congrArg (List.map Prod.snd) hsaved
  simp only [List.map_map, Function.comp_def] at hplaces hdone
  apply isAccepted_of_isPublishable hidentity h (hplaces.trans hlocations)
  intro entry hmem
  have hfinal : entry.completion ∈ found.map fun candidate => candidate.entry.completion := by
    rw [← hdone]
    exact List.mem_map_of_mem hmem
  obtain ⟨candidate, hcandidate, hequal⟩ := List.mem_map.mp hfinal
  rw [← hequal]
  exact hcomplete candidate hcandidate

/-! ## Commits -/

/-- Reading the clock does not fail. -/
theorem isGated_meets (writer other : CheckpointFrontierWriter) (nodes : List BinaryNode) :
    Meets (fun session => session.writer = other) (onWorld (writer.isGated nodes))
      (fun _ session => session.writer = other) (fun _ _ => False) := by
  intro session hsession
  rw [isGated]
  cases writer.lastCommit with
  | none => exact hsession
  | some lastCommit =>
      by_cases hsingle : nodes.length = 1
      · simp only [if_pos hsingle]
        exact hsession
      · simp only [if_neg hsingle]
        exact hsession

/-- What a commit throws on a frontier that passes the checks, its publication throws. -/
theorem PassesChecks.error_of_publish {session session' : WriterSession}
    {found : List CandidateEntry} (h : session.writer.PassesChecks nodes treeLevels found)
    {e : Error} (hrun : commitFrontier nodes treeLevels session = .error e session') :
    ∃ session₁, session₁.writer = session.writer ∧ publish found session₁ = .error e session' := by
  obtain ⟨writer, hwriter⟩ : ∃ writer, session.writer = writer := ⟨_, rfl⟩
  rw [hwriter] at h ⊢
  have hmeets : Meets (fun session => session.writer = writer)
      (commitFrontier nodes treeLevels) (fun _ _ => True)
      (fun e session' => ∃ session₁, session₁.writer = writer ∧
        publish found session₁ = .error e session') := by
    rw [commitFrontier, throwIf_neg (not_not.mpr h.length_eq), throwIf_neg h.ne_nil]
    simp only [Action.liftM_eq, Action.ofExcept_ok, pure_bind]
    refine Meets.bind_of (fun seen session => seen = writer ∧ session.writer = writer)
      (fun session hsession => ⟨hsession, hsession⟩) fun seen => Meets.of_pre ?_
    intro hseen
    subst hseen
    refine Meets.bind ((isGated_meets seen seen nodes).consequence (fun _ => id) (fun _ _ => id)
      fun _ _ => False.elim) fun gated => ?_
    refine Meets.ite (fun _ => Meets.pure fun _ _ => trivial) fun _ => ?_
    simp only [h.candidates, Action.ofExcept_ok, pure_bind, throwIf_neg (not_not.mpr rfl)]
    refine Meets.ite (fun _ => Meets.pure fun _ _ => trivial) fun _ => ?_
    have haccepted : ¬ (validate ⟨seen.identity, found.map fun candidate => candidate.entry⟩
        seen.identity).validation.isAccepted = false := by
      rw [h.accepted]
      decide
    simp only [throwIf_neg haccepted, Action.ofExcept_ok, pure_bind]
    intro session₁ hsession₁
    cases hpublish : publish found session₁ with
    | ok u session₂ => trivial
    | error e session₂ => exact ⟨session₁, hsession₁, hpublish⟩
  have hresult := hmeets session hwriter
  rw [hrun] at hresult
  exact hresult

/-- Actions of the world leave the writer alone. -/
theorem onWorld_keeps {α : Type} (action : Action World α) (condition : CheckpointFrontierWriter → Prop) :
    Meets (fun session => condition session.writer) (onWorld action)
      (fun _ session => condition session.writer) (fun _ session => condition session.writer) := by
  intro session hsession
  rw [onWorld]
  cases action session.world <;> exact hsession

/-- A publication of complete candidates keeps the writer sound, also when it throws. -/
theorem publish_keeps {found : List CandidateEntry}
    (hcomplete : ∀ candidate ∈ found, candidate.entry.completion = CompletionState.complete) :
    Meets (HasWriter identity) (publish found) (fun _ => HasWriter identity)
      (fun _ => HasWriter identity) := by
  rw [publish]
  refine Meets.bind_of (fun _ => HasWriter identity)
    (fun session h => ⟨h.identity, h.complete⟩) fun _ => ?_
  refine Meets.bind_of (fun _ => HasWriter identity) (fun session h => h) fun writer => ?_
  refine Meets.bind_of (fun entries session =>
    (∀ entry ∈ entries, entry.completion = CompletionState.complete) ∧ HasWriter identity session)
      ?_ fun entries => Meets.of_pre fun hentries => ?_
  · intro session h
    have hsaved := saveCandidates_meets writer.directory writer.identity found session.world trivial
    rw [onWorld]
    cases hsave : saveCandidates writer.directory writer.identity found session.world with
    | error e world => exact h
    | ok entries world =>
        rw [hsave] at hsaved
        refine ⟨fun entry hmem => ?_, h⟩
        have hfinal : (entry.location, entry.completion) ∈ found.map fun candidate =>
            (candidate.entry.location, candidate.entry.completion) := by
          rw [← hsaved]
          exact List.mem_map_of_mem hmem
        obtain ⟨candidate, hcandidate, hequal⟩ := List.mem_map.mp hfinal
        rw [← (Prod.mk.inj hequal).2]
        exact hcomplete candidate hcandidate
  · refine Meets.bind (onWorld_keeps _ (IsSound identity)) fun _ => ?_
    refine Meets.bind (onWorld_keeps _ (IsSound identity)) fun _ => ?_
    refine Meets.bind_of (fun _ => HasWriter identity)
      (fun session h => ⟨h.identity, h.complete⟩) fun _ => ?_
    refine Meets.bind (onWorld_keeps _ (IsSound identity)) fun _ => ?_
    refine Meets.bind (onWorld_keeps _ (IsSound identity)) fun now => ?_
    exact fun session h => ⟨h.identity, hentries⟩

/-- A commit keeps the writer sound, whatever it is shown and however it ends. -/
theorem commitFrontier_keepsSound (nodes : List BinaryNode) (treeLevels : List UInt32) :
    Meets (HasWriter identity) (commitFrontier nodes treeLevels) (fun _ => HasWriter identity)
      (fun _ => HasWriter identity) := by
  rw [commitFrontier]
  refine Meets.bind (Action.guard_meets fun _ _ => id) fun _ => ?_
  refine Meets.bind (Action.guard_meets fun _ _ => id) fun _ => ?_
  refine Meets.bind_of (fun writer session => writer.IsSound identity ∧ HasWriter identity session)
    (fun session h => ⟨h, h⟩) fun writer => Meets.of_pre fun hwriter => ?_
  refine Meets.bind (onWorld_keeps _ (IsSound identity)) fun gated => ?_
  refine Meets.ite (fun _ => Meets.pure fun _ => id) fun _ => ?_
  refine Meets.bind (Action.ofExcept_meets fun _ _ _ => id) fun result =>
    Meets.of_pre fun hresult => ?_
  refine Meets.bind (Action.guard_meets fun _ _ => id) fun _ => ?_
  refine Meets.ite (fun _ => Meets.pure fun _ => id) fun _ => ?_
  refine Meets.bind (Action.guard_meets fun _ _ => id) fun _ => ?_
  exact publish_keeps (complete_of_candidates hwriter.complete hresult)

end GiveMePi.Checkpoint.CheckpointFrontierWriter
