import GiveMePi.Checkpoint.PlanAdmissibility
import GiveMePi.Checkpoint.PublishedFrontiers
import GiveMePi.Checkpoint.ResumePlan
import GiveMePi.Library.ProgramLogic
import Mathlib.Data.List.TakeWhile

/-! # The writer between crashes

One commit adds its blocks, replaces the manifest and removes the blocks that only the manifest
before it named. Whatever fails on the way, the entries that the writer remembers stay backed. -/

namespace GiveMePi.Checkpoint.CheckpointFrontierWriter

open Binary (BinaryNode)
open CheckpointBlockCodec (blockBytes checksumOf encodeValues_eq_ok_iff encodedBlock payloadLength)
open CheckpointManifestCodec (IsSorted canonical manifestBytes sortEntries_eq)
open CheckpointManifestValidator (isAcceptable_of_isAccepted isSorted_of_tiles rangeOf)
open Library (Meets Tiles)
open Library.Program (stateAfter)
open World (Keeps)
open WriterSession

variable {promise : FrontierPromise}

/-- A check that throws leaves the state as it is. -/
theorem Action.ofExcept_keeps {σ α : Type} {x : Except Error α} (kept : σ → Prop) :
    Meets kept (Action.ofExcept x) (fun a s => x = .ok a ∧ kept s) (fun _ => kept) :=
  Action.ofExcept_meets fun _ _ _ => id

/-! ## Blocks -/

/-- A node has no values in memory, or those of its range. -/
def HoldsValues (values : RangeValues) (node : BinaryNode) : Prop :=
  node.hasValues = true → node = values node.start node.stop

/-- A candidate is an entry that is backed already, or a node with the values of its location. -/
def IsProposed (values : RangeValues) (entries : List ManifestEntry) (candidate : CandidateEntry) :
    Prop :=
  candidate.entry.completion = CompletionState.complete ∧
    (candidate.newNode = none → candidate.entry ∈ entries) ∧ ∀ node ∈ candidate.newNode,
      node = values candidate.entry.location.start candidate.entry.location.stop

theorem IsProposed.mono {values : RangeValues} {entries entries' : List ManifestEntry}
    {candidate : CandidateEntry} (h : IsProposed values entries candidate)
    (hsubset : entries ⊆ entries') : IsProposed values entries' candidate :=
  ⟨h.1, fun hnone => hsubset (h.2.1 hnone), h.2.2⟩

/-- What `save` returns for a block. -/
def storedBlock (directory : Bytes) (block : CheckpointBlock) : StoredCheckpointBlock where
  path := block.path directory
  fileSize := UInt64.ofNat (blockBytes block).length
  payloadSize := UInt64.ofNat (payloadLength block.p block.q block.t)
  checksumAlgorithm := ChecksumAlgorithm.crc32c
  checksum := checksumOf block

/-- What the walk over the entries does not pass. -/
theorem mem_lowerBound {entries : List ManifestEntry} {location : BlockLocation}
    {entry : ManifestEntry} (hmem : entry ∈ entries) (hnot : ¬ entry.location < location) :
    entry ∈ lowerBound entries location := by
  rw [← List.takeWhile_append_dropWhile (p := fun entry => decide (entry.location < location))
    (l := entries), List.mem_append] at hmem
  rcases hmem with hmem | hmem
  · have hbelow := List.mem_takeWhile_imp hmem
    exact absurd (of_decide_eq_true hbelow) hnot
  · exact hmem

theorem lowerBound_sublist {entries : List ManifestEntry} (location : BlockLocation) :
    (lowerBound entries location).Sublist entries :=
  List.dropWhile_sublist _

section Saving

variable (hstable : promise.IsStable)
include hstable

omit hstable in
/-- A block that is there backs its entry. -/
theorem areBacked_insert {backed : List ManifestEntry} {location : BlockLocation}
    {files : FileSystem} (hencodable : CheckpointBlockCodec.IsEncodable
      (blockOf promise.identity promise.values location))
    (hlength : (promise.bytesOf location).length ≤ AtomicFileCommit.fileSizeMax)
    (hbacked : AreBacked promise.directory promise.identity promise.values backed files) :
    AreBacked promise.directory promise.identity promise.values
      ((blockOf promise.identity promise.values location).entry :: backed)
      (files.insert (promise.pathOf location) (promise.bytesOf location)) := by
  have hentry : IsBacked promise.directory promise.identity promise.values
      (files.insert (promise.pathOf location) (promise.bytesOf location))
      (blockOf promise.identity promise.values location).entry :=
    { entry_eq := rfl
      decodable := hencodable.isDecodable
      stored := { lookup := AList.lookup_insert files, length_le := hlength } }
  exact List.forall_mem_cons.mpr ⟨hentry, hbacked.insert_block location⟩

/-- The commit of a block backs its entry, and no entry loses its backing. The path is a variable,
because its name is a long text. -/
theorem write_block_meets (backed : List ManifestEntry) {location : BlockLocation}
    {destination : Path} {bytes : Bytes} (hdestination : destination = promise.pathOf location)
    (hbytes : bytes = promise.bytesOf location)
    (hencodable : CheckpointBlockCodec.IsEncodable
      (blockOf promise.identity promise.values location)) :
    Meets (promise.Keeps backed) (AtomicFileCommit.write destination bytes)
      (fun _ => promise.Keeps ((blockOf promise.identity promise.values location).entry :: backed))
      (fun _ => promise.Keeps backed) := by
  have hallows (condition : FileSystem → Prop) :
      promise.guarantee.AllowsInstall condition destination bytes := by
    rw [hdestination, hbytes]
    exact hstable.allowsInstall location condition
  have hinstall (hlength : bytes.length ≤ AtomicFileCommit.fileSizeMax) (files : FileSystem)
      (hbacked : AreBacked promise.directory promise.identity promise.values backed files) :
      AreBacked promise.directory promise.identity promise.values
        ((blockOf promise.identity promise.values location).entry :: backed)
        (files.insert destination bytes) := by
    rw [hdestination, hbytes]
    rw [hbytes] at hlength
    exact areBacked_insert hencodable hlength hbacked
  refine (AtomicFileCommit.write_meets hstable.isFramed (areBacked_isFramed backed)
    (areBacked_isFramed _) hinstall (hallows _)).consequence (fun _ => id) (fun _ _ => id) ?_
  intro _ _ h
  refine World.Keeps.mono h fun files hfiles => ?_
  rcases hfiles with hfiles | hfiles
  · exact hfiles
  · exact fun entry hmem => hfiles entry (List.mem_cons_of_mem _ hmem)

/-- A block that is saved is backed. -/
theorem save_meets (backed : List ManifestEntry) (location : BlockLocation) :
    Meets (promise.Keeps backed)
      (CheckpointStore.save promise.directory promise.identity location
        (blockOf promise.identity promise.values location).p
        (blockOf promise.identity promise.values location).q
        (blockOf promise.identity promise.values location).t)
      (fun stored world => stored = storedBlock promise.directory
          (blockOf promise.identity promise.values location) ∧
        promise.Keeps ((blockOf promise.identity promise.values location).entry :: backed) world)
      (fun _ => promise.Keeps backed) := by
  rw [CheckpointStore.save]
  simp only [Action.liftM_eq]
  refine Meets.bind (Action.ofExcept_keeps (promise.Keeps backed)) ?_
  intro destination
  refine Meets.of_pre ?_
  intro hdestination
  obtain ⟨-, -, -, hdestination⟩ := CheckpointStore.blockPath_eq_ok.mp hdestination
  refine Meets.bind_of (fun _ => promise.Keeps backed)
    (World.createDirectories_meets hstable.isFramed (areBacked_isFramed backed)) ?_
  intro _
  refine Meets.bind (Action.ofExcept_keeps (promise.Keeps backed)) ?_
  intro encoded
  refine Meets.of_pre ?_
  intro hencoded
  obtain ⟨hencoded, hencodable⟩ := encodeValues_eq_ok_iff.mp hencoded
  refine Meets.bind (write_block_meets hstable backed hdestination ?_ hencodable) ?_
  · rw [hencoded]
    rfl
  · intro _
    refine Meets.pure fun _ h => ⟨?_, h⟩
    rw [hencoded, hdestination]
    rfl

/-- The entry of a candidate, once its block is written. -/
theorem saveCandidate_meets {backed : List ManifestEntry} {candidate : CandidateEntry}
    (hproposed : IsProposed promise.values backed candidate) :
    Meets (promise.Keeps backed)
      (saveCandidate promise.directory promise.identity candidate)
      (fun entry world => entry.location = candidate.entry.location ∧
        promise.Keeps (entry :: backed) world)
      (fun _ => promise.Keeps backed) := by
  obtain ⟨hcomplete, hold, hnew⟩ := hproposed
  rw [saveCandidate]
  cases hnode : candidate.newNode with
  | none =>
      refine Meets.pure fun world h => ⟨rfl, World.Keeps.mono h fun files hf => ?_⟩
      exact List.forall_mem_cons.mpr ⟨hf _ (hold hnode), hf⟩
  | some node =>
      have hsave := save_meets hstable backed candidate.entry.location
      have hvalues : node = promise.values _ _ := hnew node hnode
      rw [blockOf, ← hvalues] at hsave
      refine Meets.bind hsave ?_
      intro stored
      refine Meets.of_pre ?_
      intro hstored
      refine Meets.pure fun world h => ⟨rfl, ?_⟩
      have hentry : (⟨candidate.entry.location, stored.path.filename, stored.payloadSize,
          stored.checksumAlgorithm, stored.checksum, candidate.entry.completion⟩ :
            ManifestEntry) = CheckpointBlock.entry ⟨promise.identity, candidate.entry.location,
              node.p, node.q, node.t⟩ := by
        rw [hstored, hcomplete]
        rfl
      exact hentry ▸ h

/-- The blocks of all candidates. -/
theorem saveCandidates_backed {found : List CandidateEntry} {backed : List ManifestEntry}
    (hproposed : ∀ candidate ∈ found, IsProposed promise.values backed candidate) :
    Meets (promise.Keeps backed) (saveCandidates promise.directory promise.identity found)
      (fun entries world => entries.map (fun entry => entry.location) =
          found.map (fun candidate => candidate.entry.location) ∧
        promise.Keeps (entries ++ backed) world)
      (fun _ => promise.Keeps backed) := by
  induction found generalizing backed with
  | nil => exact Meets.pure fun _ h => ⟨rfl, h⟩
  | cons candidate rest ih =>
      obtain ⟨hcandidate, hrest⟩ := List.forall_mem_cons.mp hproposed
      rw [saveCandidates]
      refine Meets.bind (saveCandidate_meets hstable hcandidate) ?_
      intro entry
      refine Meets.of_pre ?_
      intro hentry
      have hnext := ih fun candidate hmem =>
        (hrest candidate hmem).mono (List.subset_cons_self entry backed)
      refine Meets.bind (hnext.consequence (fun _ => id) (fun _ _ => id)
        fun _ _ h => h.mono (List.subset_cons_self _ _)) ?_
      intro entries
      refine Meets.of_pre ?_
      intro hentries
      refine Meets.pure fun world h => ⟨?_, h.mono ?_⟩
      · rw [List.map_cons, List.map_cons, hentry, hentries]
      · intro other hmem
        rw [List.cons_append, List.mem_cons, List.mem_append] at hmem
        rw [List.mem_append, List.mem_cons]
        tauto

/-! ## The manifest -/

/-- The new manifest is installed, or the entries that were backed still are. -/
theorem saveManifest_meets {backed entries : List ManifestEntry}
    (hfrontier : IsFrontierOf promise.identity entries) :
    Meets (promise.Keeps (entries ++ backed))
      (CheckpointStore.saveManifest promise.directory ⟨promise.identity, entries⟩)
      (fun _ world => CheckpointManifestCodec.IsDecodable ⟨promise.identity, entries⟩ ∧
        World.Keeps promise.guarantee
          (IsInstalled promise.directory promise.identity promise.values entries) world)
      (fun _ => promise.Keeps backed) := by
  have hcanonical : canonical ⟨promise.identity, entries⟩ = ⟨promise.identity, entries⟩ := by
    rw [canonical, sortEntries_eq (isSorted_of_tiles hfrontier.tiles)]
  have hold : backed ⊆ entries ++ backed := List.subset_append_right _ _
  rw [CheckpointStore.saveManifest]
  simp only [Action.liftM_eq]
  refine Meets.bind ((Action.ofExcept_keeps _).consequence (fun _ => id) (fun _ _ => id)
    fun _ _ h => h.mono hold) ?_
  intro destination
  refine Meets.of_pre ?_
  intro hdestination
  obtain ⟨-, hdestination⟩ := CheckpointStore.manifestPath_eq_ok.mp hdestination
  refine Meets.bind_of (fun _ => promise.Keeps (entries ++ backed))
    ((World.createDirectories_meets hstable.isFramed (areBacked_isFramed _)).consequence
      (fun _ => id) (fun _ _ => id) fun _ _ h =>
        FrontierPromise.Keeps.mono h hold) ?_
  intro _
  refine Meets.bind ((Action.ofExcept_keeps _).consequence (fun _ => id) (fun _ _ => id)
    fun _ _ h => h.mono hold) ?_
  intro bytes
  refine Meets.of_pre ?_
  intro hencoded
  have hdecodable := (CheckpointManifestCodec.decode_eq_ok_iff.mp
    (CheckpointManifestCodec.decode_of_encode hencoded)).2
  obtain ⟨hbytes, -⟩ := CheckpointManifestCodec.encode_eq_ok_iff.mp hencoded
  rw [hcanonical] at hbytes hdecodable
  -- Before the removals, the entries of the old manifest are backed next to the new ones.
  let both (files : FileSystem) : Prop :=
    IsInstalled promise.directory promise.identity promise.values entries files ∧
      AreBacked promise.directory promise.identity promise.values backed files
  have hboth : FileSystem.IsFramed both := fun files files' hagrees h =>
    ⟨isInstalled_isFramed entries _ _ hagrees h.1, areBacked_isFramed backed _ _ hagrees h.2⟩
  have hinstall (hlength : bytes.length ≤ AtomicFileCommit.fileSizeMax) (files : FileSystem)
      (h : AreBacked promise.directory promise.identity promise.values (entries ++ backed) files) :
      both (files.insert destination bytes) := by
    rw [hdestination, hbytes]
    rw [hbytes] at hlength
    have hbacked := AreBacked.insert_manifest h (manifestBytes ⟨promise.identity, entries⟩)
    exact ⟨⟨fun entry hmem => hbacked entry (List.mem_append_left _ hmem),
      AList.lookup_insert _, hlength⟩, fun entry hmem => hbacked entry (hold hmem)⟩
  have hallows : promise.guarantee.AllowsInstall
      (AreBacked promise.directory promise.identity promise.values (entries ++ backed))
      destination bytes :=
    fun hlength files h _ =>
      Or.inr ((hinstall hlength files h).1.holdsFrontier hfrontier hdecodable)
  refine Meets.bind_of (fun _ => World.Keeps promise.guarantee both) ?_ ?_
  · refine (AtomicFileCommit.write_meets hstable.isFramed (areBacked_isFramed _) hboth hinstall
      hallows).consequence (fun _ => id) (fun _ _ => id) ?_
    intro _ _ h
    refine World.Keeps.mono h fun files hfiles => ?_
    rcases hfiles with hfiles | hfiles
    · exact fun entry hmem => hfiles entry (hold hmem)
    · exact hfiles.2
  · intro _
    exact Meets.pure fun _ h => ⟨hdecodable, World.Keeps.mono h fun _ hfiles => hfiles.1⟩

omit hstable in
/-- The first entry that is not below a location is at that location if any entry is. -/
theorem not_mem_of_lowerBound {entries remaining : List ManifestEntry} {location : BlockLocation}
    (hsorted : IsSorted entries) (hremaining : remaining.Sublist entries)
    (hpassed : ∀ entry ∈ entries, location ≤ entry.location → entry ∈ remaining)
    (hhead : ¬ ((lowerBound remaining location).head?.any fun entry : ManifestEntry =>
      entry.location = location) = true) :
    ∀ entry ∈ entries, entry.location ≠ location := by
  intro entry hmem heq
  have hfound : entry ∈ lowerBound remaining location :=
    mem_lowerBound (hpassed entry hmem heq.ge) heq.not_lt
  cases hrest : lowerBound remaining location with
  | nil =>
      rw [hrest] at hfound
      exact List.not_mem_nil hfound
  | cons first rest =>
      have hfirst : ¬ first.location < location := by
        have hnot := List.head?_dropWhile_not
          (fun entry : ManifestEntry => decide (entry.location < location)) remaining
        rw [← lowerBound, hrest] at hnot
        exact of_decide_eq_false hnot
      rw [hrest] at hfound hhead
      rw [List.head?_cons, Option.any_some, decide_eq_true_eq] at hhead
      rcases List.mem_cons.mp hfound with rfl | hlater
      · exact hhead heq
      · have hpairwise := (hsorted.sublist hremaining).sublist (lowerBound_sublist location)
        rw [hrest, List.pairwise_cons] at hpairwise
        exact hfirst (heq ▸ hpairwise.1 entry hlater)

/-- The removals leave what is installed. The induction is on the old entries: the new ones that
the walk has passed lie below them. -/
theorem removeSuperseded_meets {entries remaining previous : List ManifestEntry}
    (hfrontier : IsFrontierOf promise.identity entries)
    (hdecodable : CheckpointManifestCodec.IsDecodable ⟨promise.identity, entries⟩)
    (hprevious : IsSorted previous)
    (hvalid : ∀ entry ∈ previous, entry.location.start < entry.location.stop ∧
      entry.location.stop ≤ promise.identity.termCount)
    (hremaining : remaining.Sublist entries)
    (hpassed : ∀ entry ∈ entries, ∀ other ∈ previous, other.location ≤ entry.location →
      entry ∈ remaining) :
    Meets
      (World.Keeps promise.guarantee
        (IsInstalled promise.directory promise.identity promise.values entries))
      (removeSuperseded promise.directory promise.identity remaining previous)
      (fun _ => World.Keeps promise.guarantee
        (IsInstalled promise.directory promise.identity promise.values entries))
      (fun _ _ => False) := by
  have hsorted : IsSorted entries := isSorted_of_tiles hfrontier.tiles
  induction previous generalizing remaining with
  | nil => exact Meets.pure fun _ => id
  | cons first rest ih =>
      rw [IsSorted, List.pairwise_cons] at hprevious
      obtain ⟨hfirst, hrest⟩ := List.forall_mem_cons.mp hvalid
      have hlower (entry : ManifestEntry) (hmem : entry ∈ entries)
          (hle : first.location ≤ entry.location) :
          entry ∈ lowerBound remaining first.location :=
        mem_lowerBound (hpassed entry hmem first List.mem_cons_self hle) hle.not_gt
      have hnext := ih hprevious.2 hrest ((lowerBound_sublist _).trans hremaining)
        fun entry hmem other hother hle =>
          hlower entry hmem ((hprevious.1 other hother).le.trans hle)
      rw [removeSuperseded]
      refine Meets.ite (fun _ => hnext) fun hhead => ?_
      have hnot := not_mem_of_lowerBound hsorted hremaining
        (fun entry hmem hle => hpassed entry hmem first List.mem_cons_self hle) hhead
      have hpath : CheckpointStore.blockPath promise.directory promise.identity first.location =
          .ok (promise.pathOf first.location) :=
        CheckpointStore.blockPath_eq_ok.mpr ⟨hdecodable.identity, hfirst.1, hfirst.2, rfl⟩
      have herase (files : FileSystem)
          (h : IsInstalled promise.directory promise.identity promise.values entries files) :
          IsInstalled promise.directory promise.identity promise.values entries
            (files.erase (promise.pathOf first.location)) := h.erase_block hnot
      rw [hpath]
      simp only [Action.liftM_eq, Action.ofExcept_ok, pure_bind]
      refine Meets.bind (World.removeQuietly_meets hstable.isFramed.startsWithRename herase
        fun files h _ => ?_) fun _ => hnext
      exact Or.inr ((herase files h).holdsFrontier hfrontier hdecodable)

end Saving

/-! ## Commits -/

/-- The writer belongs to the promise, and its entries are in order. -/
structure Continues (promise : FrontierPromise) (backed : List ManifestEntry)
    (writer : CheckpointFrontierWriter) : Prop where
  directory : writer.directory = promise.directory
  identity : writer.identity = promise.identity
  entries : writer.entries = backed

/-- A session between two commits: the promise is kept, and the entries of the writer are backed. -/
structure IsHeld (promise : FrontierPromise) (session : WriterSession) : Prop where
  continues : Continues promise session.writer.entries session.writer
  sorted : IsSorted session.writer.entries
  keeps : promise.Keeps session.writer.entries session.world

theorem candidateOf_proposed {values : RangeValues} {backed existing : List ManifestEntry}
    {location : BlockLocation} {node : BinaryNode} {candidate : CandidateEntry}
    (hexisting : existing ⊆ backed)
    (hcomplete : ∀ entry ∈ backed, entry.completion = CompletionState.complete)
    (hstart : location.start = node.start) (hstop : location.stop = node.stop)
    (hnode : HoldsValues values node)
    (h : candidateOf existing location node = .ok candidate) :
    IsProposed values backed candidate ∧ candidate.entry.location = location := by
  have hnew (hcandidate : newCandidate location node = .ok candidate) :
      IsProposed values backed candidate ∧ candidate.entry.location = location := by
    simp only [newCandidate, bind_eq_ok, throwIf_eq_ok, pure_eq_ok, Except.ok.injEq] at hcandidate
    obtain ⟨_, hvalues, rfl⟩ := hcandidate
    rw [Bool.not_eq_false] at hvalues
    refine ⟨⟨rfl, fun hnone => absurd hnone (Option.some_ne_none _), fun other hother => ?_⟩, rfl⟩
    rw [← Option.some.inj hother, hstart, hstop]
    exact hnode hvalues
  cases existing with
  | nil => exact hnew h
  | cons entry rest =>
      simp only [candidateOf, List.head?_cons] at h
      split at h
      · next hlocation =>
          obtain rfl := Except.ok.inj h
          have hmem : entry ∈ backed := hexisting List.mem_cons_self
          exact ⟨⟨hcomplete entry hmem, fun _ => hmem, fun _ hnone => absurd hnone.symm
            (Option.some_ne_none _)⟩, hlocation⟩
      · exact hnew h

/-- What a frontier proposes, and that it covers the terms. -/
theorem candidates_proposed {values : RangeValues} {identity : ComputationIdentity}
    {backed existing : List ManifestEntry} {cursor : UInt64} {places : List (BinaryNode × UInt32)}
    {result : List CandidateEntry × UInt64} (hexisting : existing ⊆ backed)
    (hcomplete : ∀ entry ∈ backed, entry.completion = CompletionState.complete)
    (hvalues : ∀ place ∈ places, HoldsValues values place.1)
    (h : candidates identity existing cursor places = .ok result) :
    (∀ candidate ∈ result.1, IsProposed values backed candidate) ∧
      Tiles cursor (result.1.map fun candidate => rangeOf candidate.entry) result.2 := by
  induction places generalizing existing cursor result with
  | nil =>
      cases h
      exact ⟨fun _ hmem => absurd hmem List.not_mem_nil, rfl⟩
  | cons place rest ih =>
      obtain ⟨node, treeLevel⟩ := place
      obtain ⟨hnode, hrest⟩ := List.forall_mem_cons.mp hvalues
      simp only [candidates, bind_eq_ok, throwIf_eq_ok, not_not, pure_eq_ok, Except.ok.injEq,
        Prod.exists] at h
      obtain ⟨_, hstart, location, hlocation, candidate, hcandidate, found, last, hfound, rfl⟩ := h
      simp only [BlockLocation.create, bind_eq_ok, pure_eq_ok, Except.ok.injEq,
        BlockLocation.validate_eq_ok] at hlocation
      obtain ⟨_, hbounds, rfl⟩ := hlocation
      have hlower : lowerBound existing ⟨node.start, node.stop, treeLevel⟩ ⊆ backed :=
        fun entry hmem => hexisting ((lowerBound_sublist _).mem hmem)
      obtain ⟨hproposed, htiles⟩ := ih hlower hrest hfound
      have hthis := candidateOf_proposed hlower hcomplete rfl rfl hnode hcandidate
      refine ⟨List.forall_mem_cons.mpr ⟨hthis.1, hproposed⟩, ?_⟩
      rw [List.map_cons, Tiles.cons_iff, rangeOf, hthis.2]
      exact ⟨hstart, hstart ▸ hbounds.1, htiles⟩

/-- An action of the world changes nothing else of a session. -/
theorem onWorld_holds {α : Type} {action : Action World α} {pre : World → Prop}
    {post : α → World → Prop} {fail : Error → World → Prop} (h : Meets pre action post fail)
    (condition : CheckpointFrontierWriter → Prop) :
    Meets (fun session => condition session.writer ∧ pre session.world) (onWorld action)
      (fun a session => condition session.writer ∧ post a session.world)
      (fun e session => condition session.writer ∧ fail e session.world) := by
  intro session hsession
  have hrun := h session.world hsession.2
  rw [onWorld]
  cases haction : action session.world with
  | ok a world =>
      rw [haction] at hrun
      exact ⟨hsession.1, hrun⟩
  | error e world =>
      rw [haction] at hrun
      exact ⟨hsession.1, hrun⟩

/-- Publishing progress changes the tracker only. -/
theorem publishProgress_keeps {guarantee : FileGuarantee} {condition : FileSystem → Prop}
    (writer : CheckpointFrontierWriter) (found : List CandidateEntry)
    (entries : List ManifestEntry) :
    Meets (World.Keeps guarantee condition) (publishProgress writer found entries)
      (fun _ => World.Keeps guarantee condition) (fun _ _ => False) :=
  fun _ h => ⟨h.kept, h.environment, h.condition⟩

/-- The saved entries stand where the candidates stood. -/
theorem isFrontierOf_of_locations {identity : ComputationIdentity} {entries : List ManifestEntry}
    {found : List CandidateEntry}
    (hlocations : entries.map (fun entry => entry.location) =
      found.map (fun candidate => candidate.entry.location))
    (htiles : Tiles 0 (found.map fun candidate => rangeOf candidate.entry) identity.termCount)
    (hlevels : ∀ candidate ∈ found, candidate.entry.location.treeLevel ≤
      Binary.maximumTreeLevel identity.termCount) : IsFrontierOf identity entries where
  tiles := by
    have hranges := congrArg (List.map fun location : BlockLocation =>
      (location.start, location.stop)) hlocations
    rw [List.map_map, List.map_map] at hranges
    exact hranges ▸ htiles
  level_le := by
    intro entry hmem
    have hlocation : entry.location ∈ found.map fun candidate => candidate.entry.location :=
      hlocations ▸ List.mem_map_of_mem hmem
    obtain ⟨candidate, hcandidate, hequal⟩ := List.mem_map.mp hlocation
    exact hequal ▸ hlevels candidate hcandidate

/-- Reading the clock changes no file. -/
theorem isGated_keeps {guarantee : FileGuarantee} {condition : FileSystem → Prop}
    (writer : CheckpointFrontierWriter) (nodes : List BinaryNode) :
    Meets (World.Keeps guarantee condition) (writer.isGated nodes)
      (fun _ => World.Keeps guarantee condition) (fun _ _ => False) := by
  intro world h
  rw [isGated]
  cases writer.lastCommit with
  | none => exact h
  | some lastCommit =>
      by_cases hsingle : nodes.length = 1
      · simp only [if_pos hsingle]
        exact h
      · simp only [if_neg hsingle]
        exact ⟨h.kept, h.environment, h.condition⟩

section Publishing

variable {backed : List ManifestEntry} (hstable : promise.IsStable) (hsorted : IsSorted backed)
include hstable hsorted

/-- The three phases keep the promise, wherever they stop. -/
theorem publish_holds {found : List CandidateEntry}
    (hproposed : ∀ candidate ∈ found, IsProposed promise.values backed candidate)
    (htiles : Tiles 0 (found.map fun candidate => rangeOf candidate.entry)
      promise.identity.termCount)
    (hlevels : ∀ candidate ∈ found, candidate.entry.location.treeLevel ≤
      Binary.maximumTreeLevel promise.identity.termCount)
    (hbounds : ∀ entry ∈ backed, entry.location.start < entry.location.stop ∧
      entry.location.stop ≤ promise.identity.termCount) :
    Meets (fun session => Continues promise backed session.writer ∧
        promise.Keeps backed session.world)
      (publish found) (fun _ => IsHeld promise) (fun _ => IsHeld promise) := by
  have hheld (session : WriterSession) (h : Continues promise backed session.writer ∧
      promise.Keeps backed session.world) : IsHeld promise session := by
    obtain ⟨⟨hdirectory, hidentity, hentries⟩, hkeeps⟩ := h
    exact ⟨⟨hdirectory, hidentity, rfl⟩, hentries ▸ hsorted, hentries ▸ hkeeps⟩
  rw [publish]
  refine Meets.bind_of (fun _ session => Continues promise backed session.writer ∧
    promise.Keeps backed session.world)
      (fun session h => ⟨⟨h.1.directory, h.1.identity, h.1.entries⟩, h.2⟩) ?_
  intro _
  refine Meets.bind_of (fun writer session => Continues promise backed writer ∧
    Continues promise backed session.writer ∧ promise.Keeps backed session.world)
      (fun session h => ⟨h.1, h⟩) ?_
  intro writer
  refine Meets.of_pre ?_
  intro hwriter
  rw [hwriter.directory, hwriter.identity, hwriter.entries]
  refine Meets.bind ((onWorld_holds (saveCandidates_backed hstable hproposed)
    (Continues promise backed)).consequence (fun _ => id) (fun _ _ => id)
      fun _ session h => hheld session h) ?_
  intro entries session hsession
  obtain ⟨hcontinues, hlocations, hkeeps⟩ := hsession
  have hfrontier := isFrontierOf_of_locations hlocations htiles hlevels
  have hinstalled : IsSorted entries := isSorted_of_tiles hfrontier.tiles
  refine (?_ : Meets (fun session => Continues promise backed session.writer ∧
    promise.Keeps (entries ++ backed) session.world) _ _ _) session ⟨hcontinues, hkeeps⟩
  -- The new manifest is on disk from here on, and the old blocks may go.
  let settled (session : WriterSession) : Prop := Continues promise backed session.writer ∧
    World.Keeps promise.guarantee
      (IsInstalled promise.directory promise.identity promise.values entries) session.world
  refine Meets.bind_of (fun _ session => CheckpointManifestCodec.IsDecodable
      ⟨promise.identity, entries⟩ ∧ settled session)
    ((onWorld_holds (saveManifest_meets hstable hfrontier) (Continues promise backed)).consequence
      (fun _ => id) (fun _ session h => ⟨h.2.1, h.1, h.2.2⟩) fun _ session h => hheld session h) ?_
  intro _
  refine Meets.of_pre ?_
  intro hdecodable
  refine Meets.bind_of (fun _ => settled) ((onWorld_holds (publishProgress_keeps writer found
    entries) (Continues promise backed)).consequence (fun _ => id) (fun _ _ => id)
      fun _ _ h => h.2.elim) ?_
  intro _
  refine Meets.bind_of (fun _ => settled)
    (fun session h => ⟨⟨h.1.directory, h.1.identity, h.1.entries⟩, h.2⟩) ?_
  intro _
  refine Meets.bind_of (fun _ => settled) ((onWorld_holds (removeSuperseded_meets hstable
    hfrontier hdecodable hsorted hbounds (List.Sublist.refl entries)
      fun entry hmem _ _ _ => hmem) (Continues promise backed)).consequence (fun _ => id)
        (fun _ _ => id) fun _ _ h => h.2.elim) ?_
  intro _
  refine Meets.bind_of (fun _ => settled)
    (fun session h => ⟨h.1, h.2.kept, h.2.environment, h.2.condition⟩) ?_
  intro now session h
  exact ⟨⟨h.1.directory, h.1.identity, rfl⟩, hinstalled,
    World.Keeps.mono h.2 fun _ hfiles => hfiles.backed⟩

end Publishing

/-- A commit keeps the promise, whatever frontier it is shown and however it ends. -/
theorem commitFrontier_holds (hstable : promise.IsStable) {nodes : List BinaryNode}
    (treeLevels : List UInt32) (hvalues : ∀ node ∈ nodes, HoldsValues promise.values node) :
    Meets (IsHeld promise) (commitFrontier nodes treeLevels) (fun _ => IsHeld promise)
      (fun _ => IsHeld promise) := by
  intro session hsession
  obtain ⟨backed, hbacked⟩ : ∃ backed, backed = session.writer.entries := ⟨_, rfl⟩
  have hsorted : IsSorted backed := hbacked ▸ hsession.sorted
  have hentries (entry : ManifestEntry) (hmem : entry ∈ backed) :
      IsBacked promise.directory promise.identity promise.values session.world.files entry :=
    hsession.keeps.condition entry (hbacked ▸ hmem)
  let held (session : WriterSession) : Prop :=
    Continues promise backed session.writer ∧ promise.Keeps backed session.world
  have hheld (session : WriterSession) (h : held session) : IsHeld promise session := by
    obtain ⟨⟨hdirectory, hidentity, hentries⟩, hkeeps⟩ := h
    exact ⟨⟨hdirectory, hidentity, rfl⟩, hentries ▸ hsorted, hentries ▸ hkeeps⟩
  have hstart : held session := by
    refine ⟨⟨hsession.continues.directory, hsession.continues.identity, hbacked.symm⟩, ?_⟩
    exact hbacked ▸ hsession.keeps
  refine (?_ : Meets held (commitFrontier nodes treeLevels) (fun _ => IsHeld promise)
    fun _ => IsHeld promise) session hstart
  rw [commitFrontier]
  simp only [Action.liftM_eq]
  refine Meets.bind (Action.guard_meets fun _ => hheld) ?_
  intro _
  refine Meets.bind (Action.guard_meets fun _ => hheld) ?_
  intro _
  refine Meets.bind_of (fun writer session => Continues promise backed writer ∧ held session)
    (fun session h => ⟨h.1, h⟩) ?_
  intro writer
  refine Meets.of_pre ?_
  intro hwriter
  refine Meets.bind_of (fun _ => held) ((onWorld_holds (isGated_keeps writer nodes)
    (Continues promise backed)).consequence (fun _ => id) (fun _ _ => id)
      fun _ _ h => h.2.elim) ?_
  intro gated
  refine Meets.ite (fun _ => Meets.pure fun _ => hheld _) fun _ => ?_
  refine Meets.bind (Action.ofExcept_meets fun _ _ _ => hheld _) ?_
  rintro ⟨found, cursor⟩
  refine Meets.of_pre ?_
  intro hfound
  rw [hwriter.identity, hwriter.entries] at hfound
  obtain ⟨hproposed, htiles⟩ := candidates_proposed (List.Subset.refl backed)
    (fun entry hmem => (hentries entry hmem).completion_eq)
    (fun place hmem => hvalues place.1 (List.of_mem_zip hmem).1) hfound
  refine Meets.bind (Action.ofExcept_meets fun _ _ _ => hheld _) ?_
  intro _
  refine Meets.of_pre ?_
  intro hcursor
  refine Meets.ite (fun _ => Meets.pure fun _ => hheld _) fun _ => ?_
  refine Meets.bind (Action.ofExcept_meets fun _ _ _ => hheld _) ?_
  intro _
  refine Meets.of_pre ?_
  intro haccepted
  rw [throwIf_eq_ok, not_not, hwriter.identity] at hcursor
  rw [throwIf_eq_ok, Bool.not_eq_false, hwriter.identity] at haccepted
  refine publish_holds hstable hsorted hproposed (hcursor ▸ htiles) ?_
    fun entry hmem => (hentries entry hmem).bounds
  intro candidate hmem
  have hacceptable := isAcceptable_of_isAccepted haccepted
    (List.mem_map_of_mem (f := fun candidate : CandidateEntry => candidate.entry) hmem)
  rw [← CheckpointManifestValidator.maximumTreeLevel_eq]
  exact hacceptable.level_le

/-! ## Runs -/

/-- A frontier that the writer is shown. -/
structure ShownFrontier where
  nodes : List BinaryNode
  treeLevels : List UInt32

/-- Commits one after the other; what one throws does not keep the next from being tried. -/
def commitAll : List ShownFrontier → WriterSession → WriterSession
  | [], session => session
  | frontier :: rest, session =>
      commitAll rest (stateAfter (commitFrontier frontier.nodes frontier.treeLevels) session)

theorem commitAll_holds (hstable : promise.IsStable) {frontiers : List ShownFrontier}
    (hvalues : ∀ frontier ∈ frontiers, ∀ node ∈ frontier.nodes, HoldsValues promise.values node)
    {session : WriterSession} (h : IsHeld promise session) :
    IsHeld promise (commitAll frontiers session) := by
  induction frontiers generalizing session with
  | nil => exact h
  | cons frontier rest ih =>
      obtain ⟨hfirst, hrest⟩ := List.forall_mem_cons.mp hvalues
      refine ih hrest ?_
      have hcommit := commitFrontier_holds hstable frontier.treeLevels hfirst session h
      rw [stateAfter]
      cases hrun : commitFrontier frontier.nodes frontier.treeLevels session with
      | ok u after =>
          rw [hrun] at hcommit
          exact hcommit
      | error e after =>
          rw [hrun] at hcommit
          exact hcommit

theorem isSorted_of_apart {entries : List ManifestEntry} {a b : UInt64}
    (h : Library.Apart a (entries.map rangeOf) b) : IsSorted entries := by
  refine (List.pairwise_map.mp h.pairwise_le).imp_of_mem fun hleft _ hle => ?_
  have hbounds := (h.bounds_of_mem (List.mem_map_of_mem hleft)).2.1
  exact BlockLocation.lt_iff.mpr (Or.inl (hbounds.trans_le hle))

/-- The session of a new writer keeps what is promised from the start. -/
theorem isHeld_of_create {interval : ℤ} {accepted : List ManifestEntry}
    {writer : CheckpointFrontierWriter} {files : FileSystem}
    {tracker : Option Progress.ProgressTracker}
    (hcreate : create promise.directory promise.identity interval accepted = .ok writer)
    (hbacked : AreBacked promise.directory promise.identity promise.values accepted files)
    (hinitially : promise.initially → promise.guarantee.good files) :
    IsHeld promise ⟨World.start promise.environment files tracker, writer⟩ := by
  obtain ⟨-, -, -, ⟨hapart, -⟩, rfl⟩ := create_eq_ok_iff.mp hcreate
  refine ⟨⟨rfl, rfl, rfl⟩, isSorted_of_apart hapart, .nil hinitially, rfl, ?_⟩
  exact fun entry hmem =>
    hbacked entry ((CheckpointManifestCodec.sortEntries_perm accepted).mem_iff.mp hmem)

/-- What a run finds: the manifest as it was, and the entries it takes over. -/
def IsAsFound (directory : Bytes) (identity : ComputationIdentity) (values : RangeValues)
    (accepted : List ManifestEntry) (found files : FileSystem) : Prop :=
  files.lookup (manifestPathOf directory identity) =
      found.lookup (manifestPathOf directory identity) ∧
    AreBacked directory identity values accepted files

theorem isAsFound_isStable (directory : Bytes) (identity : ComputationIdentity)
    (values : RangeValues) (accepted : List ManifestEntry) (found : FileSystem)
    (initially : Prop) (environment : Environment) :
    FrontierPromise.IsStable ⟨directory, identity, values,
      IsAsFound directory identity values accepted found, initially, environment⟩ where
  framed _ _ hagrees h :=
    ⟨(hagrees _ (manifestPathOf_isFinal directory identity)).trans h.1,
      areBacked_isFramed accepted _ _ hagrees h.2⟩
  insert_block _ location h :=
    ⟨(AList.lookup_insert_ne (path_ne_manifestPathOf location).symm).trans h.1,
      h.2.insert_block location⟩

/-- From the first replacement of the manifest on, a run of the writer leaves a frontier on disk
behind every step. -/
theorem commitAll_published {directory : Bytes} {identity : ComputationIdentity} {interval : ℤ}
    {accepted : List ManifestEntry} {writer : CheckpointFrontierWriter}
    (hcreate : create directory identity interval accepted = .ok writer) {values : RangeValues}
    {files : FileSystem} (hbacked : AreBacked directory identity values accepted files)
    {frontiers : List ShownFrontier}
    (hvalues : ∀ frontier ∈ frontiers, ∀ node ∈ frontier.nodes, HoldsValues values node)
    {environment : Environment} {tracker : Option Progress.ProgressTracker} {step : FileStep}
    {earlier : List FileStep}
    (hsuffix : step :: earlier <:+
      (commitAll frontiers ⟨World.start environment files tracker, writer⟩).world.trace)
    (hreplaced : ∃ replaced ∈ step :: earlier, ReplacesManifest directory identity replaced) :
    HoldsFrontier directory identity values step.files := by
  have hpublished : IsHeld ⟨directory, identity, values, fun _ => False, False, environment⟩
      (commitAll frontiers ⟨World.start environment files tracker, writer⟩) :=
    commitAll_holds ⟨fun _ _ _ => id, fun _ _ => id⟩ hvalues
      (isHeld_of_create hcreate hbacked False.elim)
  exact (hpublished.keeps.kept.past step earlier hsuffix (Or.inr hreplaced)).resolve_left id

/-- Wherever a run of the writer is cut, the directory can be resumed from: it holds what the run
has found, with every block that was taken over, or a manifest that records a whole frontier and
every block of it with its exact bytes. From the first replacement of the manifest on it is the
latter. -/
theorem commitAll_survivesCrashes {directory : Bytes} {identity : ComputationIdentity}
    {interval : ℤ} {accepted : List ManifestEntry} {writer : CheckpointFrontierWriter}
    (hcreate : create directory identity interval accepted = .ok writer) (values : RangeValues)
    {files : FileSystem} (hbacked : AreBacked directory identity values accepted files)
    {frontiers : List ShownFrontier}
    (hvalues : ∀ frontier ∈ frontiers, ∀ node ∈ frontier.nodes, HoldsValues values node)
    (environment : Environment) (tracker : Option Progress.ProgressTracker) :
    let trace := (commitAll frontiers ⟨World.start environment files tracker, writer⟩).world.trace
    ∀ step earlier, step :: earlier <:+ trace →
      (IsAsFound directory identity values accepted files step.files ∨
        HoldsFrontier directory identity values step.files) ∧
      ((∃ replaced ∈ step :: earlier, ReplacesManifest directory identity replaced) →
        HoldsFrontier directory identity values step.files) := by
  intro trace step earlier hsuffix
  have hfound : IsHeld ⟨directory, identity, values,
      IsAsFound directory identity values accepted files, True, environment⟩
      (commitAll frontiers ⟨World.start environment files tracker, writer⟩) :=
    commitAll_holds (isAsFound_isStable _ _ _ _ _ _ _) hvalues
      (isHeld_of_create hcreate hbacked fun _ => Or.inl ⟨rfl, hbacked⟩)
  exact ⟨hfound.keeps.kept.past step earlier hsuffix (Or.inl trivial),
    commitAll_published hcreate hbacked hvalues hsuffix⟩

open ModularPQTVerifier (tenDigitsIdentity)

/-- Two frontiers of ten digits, the second over the whole range. -/
def tenDigitsFrontiers : List ShownFrontier :=
  [⟨[BinaryNode.ofRange 0 2, BinaryNode.ofRange 2 3], [0, 0]⟩, ⟨[BinaryNode.ofRange 0 3], [1]⟩]

theorem create_tenDigits : create (ascii "checkpoints") tenDigitsIdentity 0 [] =
    .ok (fresh (ascii "checkpoints") tenDigitsIdentity 0 []) := by
  rw [create_eq_ok_iff, sortEntries_eq List.Pairwise.nil]
  exact ⟨by decide, by decide, le_rfl,
    ⟨UInt64.zero_le, fun _ hmem => absurd hmem List.not_mem_nil⟩, rfl⟩

theorem tenDigitsFrontiers_hold :
    ∀ frontier ∈ tenDigitsFrontiers, ∀ node ∈ frontier.nodes,
      HoldsValues BinaryNode.ofRange node := by
  intro frontier hfrontier node hnode _
  simp only [tenDigitsFrontiers, List.mem_cons, List.not_mem_nil, or_false] at hfrontier
  rcases hfrontier with rfl | rfl
  · simp only [List.mem_cons, List.not_mem_nil, or_false] at hnode
    rcases hnode with rfl | rfl <;> rfl
  · rw [List.mem_singleton] at hnode
    rw [hnode]
    rfl

theorem commitAll_survivesCrashes_tenDigits :
    let trace := (commitAll tenDigitsFrontiers
      ⟨World.start CheckpointResumePlanner.willing ∅ none,
        fresh (ascii "checkpoints") tenDigitsIdentity 0 []⟩).world.trace
    ∀ step earlier, step :: earlier <:+ trace →
      (IsAsFound (ascii "checkpoints") tenDigitsIdentity BinaryNode.ofRange [] ∅ step.files ∨
        HoldsFrontier (ascii "checkpoints") tenDigitsIdentity BinaryNode.ofRange step.files) ∧
      ((∃ replaced ∈ step :: earlier,
          ReplacesManifest (ascii "checkpoints") tenDigitsIdentity replaced) →
        HoldsFrontier (ascii "checkpoints") tenDigitsIdentity BinaryNode.ofRange step.files) :=
  commitAll_survivesCrashes create_tenDigits BinaryNode.ofRange
    (fun _ hmem => absurd hmem List.not_mem_nil) tenDigitsFrontiers_hold _ _

end GiveMePi.Checkpoint.CheckpointFrontierWriter
