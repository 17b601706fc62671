import GiveMePi.Checkpoint.ForeignBlocks
import GiveMePi.Checkpoint.PlanTiling
import GiveMePi.Checkpoint.PlannerSoundness
import GiveMePi.Checkpoint.ReliableCommits
import GiveMePi.Checkpoint.WriterCrashes
import GiveMePi.Checkpoint.WriterStructure

/-! # Commits and plans that return

A publishable frontier of true nodes is published, when no change of a file fails, the files can hold
the blocks and no temporary files of the process are left. The planner leaves none. -/

namespace GiveMePi.Checkpoint

open AtomicFileCommit (LacksTemps not_isTempOf write_returns removeQuietly_returns)
open CheckpointBlockCodec (blockBytes encodeValues_eq_ok_iff encodedBlock)
open CheckpointManifestCodec (IsValidEntry entriesLength fixedEntrySize isPlainFilename
  length_manifestBytes manifestBytes sortEntries sortEntries_eq)
open CheckpointManifestValidator (isSorted_of_tiles rangeOf)
open CheckpointResumePlanner (length_blockFilename_le)
open Library (Apart Meets Tiles)
open World (IsIn)

/-! ## The files of a computation -/

/-- Files can hold the blocks of a computation and manifests of so many entries, and the bytes of
disjoint blocks can be counted. -/
structure FitsFiles (identity : ComputationIdentity) (values : RangeValues) : Prop where
  blocks : ∀ location : BlockLocation, location.start < location.stop →
    location.stop ≤ identity.termCount →
      CheckpointBlockCodec.IsEncodable (blockOf identity values location) ∧
        (blockBytes (blockOf identity values location)).length ≤ AtomicFileCommit.fileSizeMax
  entries : 72 + identity.termCount.toNat * (fixedEntrySize + 255) ≤ AtomicFileCommit.fileSizeMax
  total : ∀ locations : List BlockLocation,
    Apart 0 (locations.map BlockLocation.range) identity.termCount →
      (locations.map fun location =>
        (blockBytes (blockOf identity values location)).length).sum < 2 ^ 64

/-- The names of blocks are plain. -/
theorem isPlainFilename_blockFilename (identity : ComputationIdentity) (location : BlockLocation) :
    isPlainFilename (CheckpointStore.blockFilename identity location) = true := by
  have hdecimal (n : ℕ) (byte : UInt8) (hmem : byte ∈ decimal n) :
      byte ≠ 47 ∧ byte ≠ 92 ∧ byte ≠ 0 := by
    have hdigit := isDigit_of_mem_decimal hmem
    refine ⟨?_, ?_, ?_⟩ <;> rintro rfl <;> revert hdigit <;> decide
  have htag (tag : Bytes) (h : tag.all (fun byte => byte != 47 && byte != 92 && byte != 0) = true)
      (byte : UInt8) (hmem : byte ∈ tag) : byte ≠ 47 ∧ byte ≠ 92 ∧ byte ≠ 0 := by
    simpa [and_assoc] using List.all_eq_true.mp h byte hmem
  have hall (byte : UInt8) (hmem : byte ∈ CheckpointStore.blockFilename identity location) :
      byte ≠ 47 ∧ byte ≠ 92 ∧ byte ≠ 0 := by
    simp only [CheckpointStore.blockFilename, CheckpointStore.identityFilename, List.mem_append,
      or_assoc] at hmem
    rcases hmem with h | h | h | h | h | h | h | h | h | h | h | h | h | h | h | h | h | h | h | h |
      h | h | h
    all_goals first | exact hdecimal _ byte h | exact htag _ (by decide) byte h
  have hne : CheckpointStore.blockFilename identity location ≠ [] := by
    rw [CheckpointStore.blockFilename, CheckpointStore.identityFilename]
    simp [decimal_ne_nil]
  simp only [isPlainFilename, Bool.and_eq_true, Bool.not_eq_true', List.isEmpty_eq_false_iff]
  refine ⟨⟨⟨hne, ?_⟩, ?_⟩, ?_⟩
  · rw [List.contains_eq_mem, decide_eq_false_iff_not]
    exact fun hmem => (hall _ hmem).1 rfl
  · rw [List.contains_eq_mem, decide_eq_false_iff_not]
    exact fun hmem => (hall _ hmem).2.1 rfl
  · rw [List.contains_eq_mem, decide_eq_false_iff_not]
    exact fun hmem => (hall _ hmem).2.2 rfl

/-- An entry that is backed may be recorded. -/
theorem IsBacked.isValidEntry {directory : Bytes} {identity : ComputationIdentity}
    {values : RangeValues} {files : FileSystem} {entry : ManifestEntry}
    (h : IsBacked directory identity values files entry) : IsValidEntry identity entry := by
  have hname : entry.filename = CheckpointStore.blockFilename identity entry.location := by
    rw [h.entry_eq]
    rfl
  refine ⟨h.bounds.1, h.bounds.2, ?_, ?_, ?_, Or.inr h.completion_eq⟩
  · rw [hname]
    exact isPlainFilename_blockFilename _ _
  · rw [hname]
    exact (length_blockFilename_le _ _).trans (by norm_num)
  · rw [h.entry_eq]
    rfl

theorem entriesLength_le {entries : List ManifestEntry}
    (h : ∀ entry ∈ entries, entry.filename.length ≤ 255) :
    entriesLength entries ≤ entries.length * (fixedEntrySize + 255) := by
  induction entries with
  | nil => exact Nat.zero_le _
  | cons entry rest ih =>
      obtain ⟨hentry, hrest⟩ := List.forall_mem_cons.mp h
      have := ih hrest
      rw [entriesLength, List.length_cons, Nat.succ_mul]
      omega

/-- Intervals of words that are apart are no more than the words between their bounds. -/
theorem length_le_of_apart {a b : UInt64} {intervals : List (UInt64 × UInt64)}
    (h : Apart a intervals b) : a.toNat + intervals.length ≤ b.toNat := by
  induction intervals generalizing a with
  | nil => simpa using UInt64.le_iff_toNat_le.mp h
  | cons interval rest ih =>
      obtain ⟨start, stop⟩ := interval
      obtain ⟨hle, hlt, hrest⟩ := h
      have := ih hrest
      have := UInt64.le_iff_toNat_le.mp hle
      have := UInt64.lt_iff_toNat_lt.mp hlt
      rw [List.length_cons]
      omega

/-- The block of numbers of so many bytes. -/
theorem isEncodable_of_lt_pow {identity : ComputationIdentity} {values : RangeValues} {bytes : ℕ}
    {location : BlockLocation} (hidentity : identity.IsValid)
    (hstart : location.start < location.stop) (hstop : location.stop ≤ identity.termCount)
    (hvalues : ∀ number ∈ [(values location.start location.stop).p,
      (values location.start location.stop).q, (values location.start location.stop).t],
        number.natAbs < 256 ^ bytes) (hbytes : 8 * bytes < 2 ^ 63) :
    CheckpointBlockCodec.IsEncodable (blockOf identity values location) ∧
      (blockBytes (blockOf identity values location)).length ≤ 112 + 3 * bytes := by
  simp only [List.forall_mem_cons, List.not_mem_nil, false_imp_iff, implies_true,
    and_true] at hvalues
  obtain ⟨hp, hq, ht⟩ := hvalues
  have hsize {number : ℤ} (h : number.natAbs < 256 ^ bytes) : number.natAbs.size ≤ 2 ^ 64 - 8 := by
    have : number.natAbs.size ≤ 8 * bytes := by
      rw [Nat.size_le, pow_mul]
      exact h
    omega
  have hlength {number : ℤ} (h : number.natAbs < 256 ^ bytes) :
      (GMPSerialization.magnitude number).length ≤ bytes := by
    rw [GMPSerialization.magnitude, GMPSerialization.exportBytes, Library.length_toBytes]
    exact GMPSerialization.size_le_of_lt h
  have hpayload : CheckpointBlockCodec.payloadLength (blockOf identity values location).p
      (blockOf identity values location).q (blockOf identity values location).t ≤ 3 * bytes := by
    have := hlength hp
    have := hlength hq
    have := hlength ht
    rw [CheckpointBlockCodec.payloadLength]
    simp only [blockOf]
    omega
  refine ⟨⟨hidentity, hstart, hstop, hsize hp, hsize hq, hsize ht, ?_⟩, ?_⟩
  · exact hpayload.trans (by omega)
  · rw [CheckpointBlockCodec.length_blockBytes]
    omega

/-- Numbers of so many bytes fit. -/
theorem FitsFiles.of_lt_pow {identity : ComputationIdentity} {values : RangeValues} {bytes : ℕ}
    (hidentity : identity.IsValid)
    (hvalues : ∀ start stop : UInt64, start < stop → stop ≤ identity.termCount →
      ∀ number ∈ [(values start stop).p, (values start stop).q, (values start stop).t],
        number.natAbs < 256 ^ bytes)
    (hfit : 72 + identity.termCount.toNat * (fixedEntrySize + 255 + 8 * bytes) ≤
      AtomicFileCommit.fileSizeMax) : FitsFiles identity values := by
  have hpos : 0 < identity.termCount.toNat := UInt64.lt_iff_toNat_lt.mp hidentity.termCount_pos
  have hentry : 112 + 3 * bytes ≤ fixedEntrySize + 255 + 8 * bytes :=
    Nat.add_le_add (by decide) (Nat.mul_le_mul_right _ (by decide))
  have hentries := (Nat.le_add_left _ 72).trans hfit
  have hone : fixedEntrySize + 255 + 8 * bytes ≤ AtomicFileCommit.fileSizeMax :=
    (Nat.le_mul_of_pos_left _ hpos).trans hentries
  have hbytes : 8 * bytes < 2 ^ 63 := by
    refine lt_of_le_of_lt ((Nat.le_add_left _ _).trans hone) ?_
    decide
  have hblock {location : BlockLocation} (hstart : location.start < location.stop)
      (hstop : location.stop ≤ identity.termCount) :=
    isEncodable_of_lt_pow hidentity hstart hstop (hvalues _ _ hstart hstop) hbytes
  refine ⟨fun location hstart hstop => ?_, ?_, fun locations happart => ?_⟩
  · exact ⟨(hblock hstart hstop).1, (hblock hstart hstop).2.trans (hentry.trans hone)⟩
  · exact (Nat.add_le_add_left (Nat.mul_le_mul_left _ (Nat.le_add_right _ _)) 72).trans hfit
  · have hcount := length_le_of_apart happart
    rw [List.length_map, UInt64.toNat_zero, zero_add] at hcount
    have hsum : (locations.map fun location =>
        (blockBytes (blockOf identity values location)).length).sum ≤
          locations.length * (112 + 3 * bytes) := by
      rw [← smul_eq_mul, ← List.length_map (fun location : BlockLocation =>
        (blockBytes (blockOf identity values location)).length)]
      refine List.sum_le_card_nsmul _ _ fun length hmem => ?_
      obtain ⟨location, hlocation, rfl⟩ := List.mem_map.mp hmem
      have hbounds := (happart.bounds_of_mem (List.mem_map_of_mem hlocation)).2
      exact (hblock hbounds.1 hbounds.2).2
    refine lt_of_le_of_lt (hsum.trans ((Nat.mul_le_mul hcount hentry).trans hentries)) ?_
    decide

/-! ## The store -/

/-- No change fails, and no temporary file is left. -/
abbrev IsCalm (environment : Environment) : World → Prop :=
  IsIn environment (LacksTemps environment.processId)

section

variable {environment : Environment} (hreliable : environment.IsReliable) {directory : Bytes}
  {identity : ComputationIdentity} {values : RangeValues} {location : BlockLocation}
include hreliable

theorem createDirectories_returns :
    Meets (IsCalm environment) (World.createDirectories directory) (fun _ => IsCalm environment)
      (fun _ _ => False) :=
  World.perform_returns hreliable fun _ h => h

/-- A block is saved. The path is a variable, because its name is a long text. -/
theorem save_returns (hidentity : identity.IsValid) (hfits : FitsFiles identity values)
    (hstart : location.start < location.stop) (hstop : location.stop ≤ identity.termCount) :
    Meets (IsCalm environment)
      (CheckpointStore.save directory identity location (blockOf identity values location).p
        (blockOf identity values location).q (blockOf identity values location).t)
      (fun _ => IsCalm environment) (fun _ _ => False) := by
  obtain ⟨hencodable, hlength⟩ := hfits.blocks location hstart hstop
  obtain ⟨path, hpath⟩ : ∃ path, path = (blockOf identity values location).path directory :=
    ⟨_, rfl⟩
  have hblockPath := CheckpointStore.blockPath_eq_ok.mpr ⟨hidentity, hstart, hstop, hpath⟩
  have hfinal : path.IsFinal := Or.inl (hpath ▸ CheckpointBlock.isFinal_path _ _)
  have hname : path.filename ≠ [] := by
    intro hnil
    have hdots := CheckpointStore.dots_blockFilename identity location
    rw [hpath] at hnil
    change CheckpointStore.blockFilename identity location = [] at hnil
    rw [hnil] at hdots
    cases hdots
  have hencode : CheckpointBlockCodec.encodeValues identity location
      (blockOf identity values location).p (blockOf identity values location).q
      (blockOf identity values location).t = .ok (encodedBlock (blockOf identity values location)) :=
    encodeValues_eq_ok_iff.mpr ⟨rfl, hencodable⟩
  rw [CheckpointStore.save, hblockPath]
  simp only [Action.liftM_eq, Action.ofExcept_ok, pure_bind]
  refine Meets.bind (createDirectories_returns hreliable) fun _ => ?_
  rw [hencode]
  simp only [Action.ofExcept_ok, pure_bind]
  refine Meets.bind (write_returns hreliable hname (not_isTempOf hfinal _) hlength) fun _ => ?_
  exact Meets.pure fun _ h => h

/-- A manifest of valid entries in order is saved. -/
theorem saveManifest_returns (hidentity : identity.IsValid) (hfits : FitsFiles identity values)
    {entries : List ManifestEntry} (hfrontier : IsFrontierOf identity entries)
    (hvalid : ∀ entry ∈ entries, IsValidEntry identity entry ∧ entry.filename.length ≤ 255) :
    Meets (IsCalm environment) (CheckpointStore.saveManifest directory ⟨identity, entries⟩)
      (fun _ => IsCalm environment) (fun _ _ => False) := by
  have hsort : sortEntries entries = entries := sortEntries_eq (isSorted_of_tiles hfrontier.tiles)
  have hcount : entries.length ≤ identity.termCount.toNat := by
    have hle := length_le_of_apart hfrontier.tiles.apart
    rw [List.length_map] at hle
    exact (Nat.le_add_left _ _).trans hle
  have hlength : 72 + entriesLength entries ≤ AtomicFileCommit.fileSizeMax := by
    have hle := entriesLength_le fun entry hmem => (hvalid entry hmem).2
    have hmul := Nat.mul_le_mul_right (fixedEntrySize + 255) hcount
    exact (Nat.add_le_add_left (hle.trans hmul) 72).trans hfits.entries
  obtain ⟨path, hpath⟩ : ∃ path, path = manifestPathOf directory identity := ⟨_, rfl⟩
  have hmanifestPath := CheckpointStore.manifestPath_eq_ok.mpr ⟨hidentity, hpath⟩
  have hfinal : path.IsFinal := hpath ▸ manifestPathOf_isFinal directory identity
  have hname : path.filename ≠ [] := by
    intro hnil
    have hdots := CheckpointStore.dots_manifestFilename identity
    rw [hpath] at hnil
    change CheckpointStore.manifestFilename identity = [] at hnil
    rw [hnil] at hdots
    cases hdots
  have hencode : CheckpointManifestCodec.encode ⟨identity, entries⟩ =
      .ok (manifestBytes (CheckpointManifestCodec.canonical ⟨identity, entries⟩)) := by
    refine CheckpointManifestCodec.encode_eq_ok_iff.mpr ⟨rfl, hidentity, ?_, ?_, ?_⟩
    · exact fun entry hmem => (hvalid entry hmem).1
    · rw [hsort]
      exact isSorted_of_tiles hfrontier.tiles
    · rw [hsort]
      exact hlength.trans (by decide)
  have hbytes : (manifestBytes (CheckpointManifestCodec.canonical ⟨identity, entries⟩)).length ≤
      AtomicFileCommit.fileSizeMax := by
    rw [length_manifestBytes, CheckpointManifestCodec.canonical, hsort]
    exact hlength
  rw [CheckpointStore.saveManifest, hmanifestPath]
  simp only [Action.liftM_eq, Action.ofExcept_ok, pure_bind]
  refine Meets.bind (createDirectories_returns hreliable) fun _ => ?_
  rw [hencode]
  simp only [Action.ofExcept_ok, pure_bind]
  refine Meets.bind (write_returns hreliable hname (not_isTempOf hfinal _) hbytes) fun _ => ?_
  exact Meets.pure fun _ h => h

end

/-! ## The writer -/

namespace CheckpointFrontierWriter

open Binary (BinaryNode IsPublishable)
open CheckpointManifestCodec (IsSorted)
open WriterSession

section

variable {environment : Environment} (hreliable : environment.IsReliable) {directory : Bytes}
  {identity : ComputationIdentity} {values : RangeValues} (hidentity : identity.IsValid)
include hreliable hidentity

theorem saveCandidate_returns (hfits : FitsFiles identity values) {backed : List ManifestEntry}
    {candidate : CandidateEntry} (hproposed : IsProposed values backed candidate)
    (hbounds : candidate.entry.location.start < candidate.entry.location.stop ∧
      candidate.entry.location.stop ≤ identity.termCount) :
    Meets (IsCalm environment) (saveCandidate directory identity candidate)
      (fun _ => IsCalm environment) (fun _ _ => False) := by
  obtain ⟨entry, newNode⟩ := candidate
  cases newNode with
  | none => exact Meets.pure fun _ h => h
  | some node =>
      have hnode : node = values entry.location.start entry.location.stop := hproposed.2.2 node rfl
      subst hnode
      rw [saveCandidate]
      exact Meets.bind (save_returns hreliable hidentity hfits hbounds.1 hbounds.2) fun _ =>
        Meets.pure fun _ h => h

theorem saveCandidates_returns (hfits : FitsFiles identity values) {backed : List ManifestEntry}
    {found : List CandidateEntry}
    (hproposed : ∀ candidate ∈ found, IsProposed values backed candidate)
    (hbounds : ∀ candidate ∈ found,
      candidate.entry.location.start < candidate.entry.location.stop ∧
        candidate.entry.location.stop ≤ identity.termCount) :
    Meets (IsCalm environment) (saveCandidates directory identity found)
      (fun _ => IsCalm environment) (fun _ _ => False) := by
  induction found with
  | nil => exact Meets.pure fun _ h => h
  | cons candidate rest ih =>
      obtain ⟨hfirst, hproposedRest⟩ := List.forall_mem_cons.mp hproposed
      obtain ⟨hfirstBounds, hboundsRest⟩ := List.forall_mem_cons.mp hbounds
      rw [saveCandidates]
      refine Meets.bind (saveCandidate_returns hreliable hidentity hfits hfirst hfirstBounds)
        fun _ => ?_
      exact Meets.bind (ih hproposedRest hboundsRest) fun _ => Meets.pure fun _ h => h

theorem removeSuperseded_returns {published previous : List ManifestEntry}
    (hbounds : ∀ entry ∈ previous, entry.location.start < entry.location.stop ∧
      entry.location.stop ≤ identity.termCount) :
    Meets (IsCalm environment) (removeSuperseded directory identity published previous)
      (fun _ => IsCalm environment) (fun _ _ => False) := by
  induction previous generalizing published with
  | nil => exact Meets.pure fun _ h => h
  | cons entry rest ih =>
      obtain ⟨hfirst, hrest⟩ := List.forall_mem_cons.mp hbounds
      have hpath := CheckpointStore.blockPath_eq_ok.mpr
        ⟨hidentity, hfirst.1, hfirst.2, (rfl : _ = (⟨directory, _⟩ : Path))⟩
      rw [removeSuperseded]
      refine Meets.ite (fun _ => ih hrest) fun _ => ?_
      rw [hpath]
      simp only [Action.liftM_eq, Action.ofExcept_ok, pure_bind]
      exact Meets.bind (removeQuietly_returns hreliable _) fun _ => ih hrest

end

/-- A session between two commits, in which commits return. -/
structure CanCommit (promise : FrontierPromise) (session : WriterSession) : Prop where
  held : IsHeld promise session
  calm : IsCalm promise.environment session.world

/-- What is read of an environment brings no temporary file back. -/
theorem isGated_returns {environment : Environment} (writer : CheckpointFrontierWriter)
    (nodes : List BinaryNode) :
    Meets (IsCalm environment) (writer.isGated nodes) (fun _ => IsCalm environment)
      (fun _ _ => False) := by
  intro world h
  rw [isGated]
  cases writer.lastCommit with
  | none => exact h
  | some lastCommit =>
      by_cases hsingle : nodes.length = 1
      · simp only [if_pos hsingle]
        exact h
      · simp only [if_neg hsingle]
        exact ⟨h.environment, h.condition⟩

section

variable {promise : FrontierPromise} (hstable : promise.IsStable)
  (hreliable : promise.environment.IsReliable) (hidentity : promise.identity.IsValid)
  (hfits : FitsFiles promise.identity promise.values)
include hstable hreliable hidentity hfits

/-- The three phases return. -/
theorem publish_returns {backed : List ManifestEntry} {found : List CandidateEntry}
    (hproposed : ∀ candidate ∈ found, IsProposed promise.values backed candidate)
    (htiles : Tiles 0 (found.map fun candidate => rangeOf candidate.entry)
      promise.identity.termCount)
    (hlevels : ∀ candidate ∈ found, candidate.entry.location.treeLevel ≤
      Binary.maximumTreeLevel promise.identity.termCount)
    (hbounds : ∀ entry ∈ backed, entry.location.start < entry.location.stop ∧
      entry.location.stop ≤ promise.identity.termCount) :
    Meets (fun session => Continues promise backed session.writer ∧
        promise.Keeps backed session.world ∧ IsCalm promise.environment session.world)
      (publish found) (fun _ session => IsCalm promise.environment session.world)
      (fun _ _ => False) := by
  let calm (session : WriterSession) : Prop :=
    Continues promise backed session.writer ∧ IsCalm promise.environment session.world
  have hcalm {α : Type} {action : Action World α}
      (h : Meets (IsCalm promise.environment) action (fun _ => IsCalm promise.environment)
        fun _ _ => False) : Meets calm (onWorld action) (fun _ => calm) fun _ _ => False :=
    (onWorld_holds h (Continues promise backed)).consequence (fun _ => id) (fun _ _ => id)
      fun _ _ hfail => hfail.2
  rw [publish]
  refine Meets.bind_of (fun _ session => Continues promise backed session.writer ∧
    promise.Keeps backed session.world ∧ IsCalm promise.environment session.world)
      (fun session h => ⟨⟨h.1.directory, h.1.identity, h.1.entries⟩, h.2⟩) fun _ => ?_
  refine Meets.bind_of (fun writer session => Continues promise backed writer ∧
    Continues promise backed session.writer ∧ promise.Keeps backed session.world ∧
      IsCalm promise.environment session.world) (fun session h => ⟨h.1, h⟩) fun writer =>
        Meets.of_pre fun hwriter => ?_
  rw [hwriter.directory, hwriter.identity, hwriter.entries]
  have hblocks : ∀ candidate ∈ found,
      candidate.entry.location.start < candidate.entry.location.stop ∧
        candidate.entry.location.stop ≤ promise.identity.termCount :=
    fun candidate hmem => (htiles.bounds_of_mem (List.mem_map_of_mem hmem)).2
  have hreturned : Meets (IsCalm promise.environment)
      (saveCandidates promise.directory promise.identity found)
      (fun _ => IsCalm promise.environment) fun _ _ => False :=
    saveCandidates_returns hreliable hidentity hfits hproposed hblocks
  have hsaved := (saveCandidates_backed hstable hproposed).and hreturned
  refine Meets.bind ((onWorld_holds hsaved (Continues promise backed)).consequence
    (fun _ => id) (fun _ _ => id) fun _ _ h => h.2.2.elim) fun entries => ?_
  rintro session ⟨hcontinues, ⟨hlocations, hkeeps⟩, hworld⟩
  have hfrontier := isFrontierOf_of_locations hlocations htiles hlevels
  have hvalid (entry : ManifestEntry) (hmem : entry ∈ entries) :
      IsValidEntry promise.identity entry ∧ entry.filename.length ≤ 255 := by
    have hbacked := hkeeps.condition entry (List.mem_append_left _ hmem)
    refine ⟨hbacked.isValidEntry, ?_⟩
    rw [hbacked.entry_eq]
    exact length_blockFilename_le _ _
  refine (?_ : Meets calm _ _ _) session ⟨hcontinues, hworld⟩
  refine Meets.bind (hcalm (saveManifest_returns hreliable hidentity hfits hfrontier hvalid))
    fun _ => ?_
  refine Meets.bind (hcalm fun world h => ⟨h.environment, h.condition⟩) fun _ => ?_
  refine Meets.bind_of (fun _ => calm)
    (fun session h => ⟨⟨h.1.directory, h.1.identity, h.1.entries⟩, h.2⟩) fun _ => ?_
  refine Meets.bind (hcalm (removeSuperseded_returns hreliable hidentity hbounds)) fun _ => ?_
  refine Meets.bind_of (fun _ => calm) (fun session h => ⟨h.1, h.2.environment, h.2.condition⟩)
    fun now => ?_
  exact fun session h => h.2

/-- The commit of a publishable frontier of true nodes returns, and the next may follow. -/
theorem commitFrontier_returns {nodes : List BinaryNode} {treeLevels : List UInt32}
    (hvalues : ∀ node ∈ nodes, HoldsValues promise.values node)
    (hpublishable : IsPublishable promise.identity.termCount [] nodes treeLevels) :
    Meets (CanCommit promise) (commitFrontier nodes treeLevels) (fun _ => CanCommit promise)
      (fun _ _ => False) := by
  have hholds := commitFrontier_holds hstable treeLevels hvalues
  suffices hcalm : Meets (CanCommit promise) (commitFrontier nodes treeLevels)
      (fun _ session => IsCalm promise.environment session.world) (fun _ _ => False) by
    refine (hholds.and hcalm).consequence (fun session h => ⟨h.held, h⟩) ?_ fun _ _ h => h.2
    exact fun _ session h => ⟨h.1, h.2⟩
  intro session hsession
  obtain ⟨backed, hbacked⟩ : ∃ backed, backed = session.writer.entries := ⟨_, rfl⟩
  have hkeeps : promise.Keeps backed session.world := hbacked ▸ hsession.held.keeps
  have hentries (entry : ManifestEntry) (hmem : entry ∈ backed) :
      IsBacked promise.directory promise.identity promise.values session.world.files entry :=
    hkeeps.condition entry hmem
  have hsound : session.writer.IsSound promise.identity :=
    ⟨hsession.held.continues.identity,
      fun entry hmem => (hentries entry (hbacked ▸ hmem)).completion_eq⟩
  obtain ⟨found, hpasses⟩ := hsound.passesChecks hidentity hpublishable
  let ready (session : WriterSession) : Prop := Continues promise backed session.writer ∧
    promise.Keeps backed session.world ∧ IsCalm promise.environment session.world
  have hstart : ready session :=
    ⟨⟨hsession.held.continues.directory, hsession.held.continues.identity, hbacked.symm⟩, hkeeps,
      hsession.calm⟩
  obtain ⟨hlength, hne, hfound, haccepted⟩ := hpasses
  rw [hsession.held.continues.identity] at hfound haccepted
  rw [← hbacked] at hfound
  obtain ⟨hproposed, htiles⟩ := candidates_proposed (List.Subset.refl backed)
    (fun entry hmem => (hentries entry hmem).completion_eq)
    (fun place hmem => hvalues place.1 (List.of_mem_zip hmem).1) hfound
  have hlevels (candidate : CandidateEntry) (hmem : candidate ∈ found) :
      candidate.entry.location.treeLevel ≤
        Binary.maximumTreeLevel promise.identity.termCount := by
    rw [← CheckpointManifestValidator.maximumTreeLevel_eq]
    exact (CheckpointManifestValidator.isAcceptable_of_isAccepted haccepted
      (List.mem_map_of_mem hmem)).level_le
  refine (?_ : Meets ready (commitFrontier nodes treeLevels)
    (fun _ session => IsCalm promise.environment session.world) fun _ _ => False) session hstart
  rw [commitFrontier, throwIf_neg (not_not.mpr hlength), throwIf_neg hne]
  simp only [Action.liftM_eq, Action.ofExcept_ok, pure_bind]
  refine Meets.bind_of (fun writer session => Continues promise backed writer ∧ ready session)
    (fun session h => ⟨h.1, h⟩) fun writer => Meets.of_pre fun hwriter => ?_
  have hkept : Meets (promise.Keeps backed) (writer.isGated nodes) (fun _ => promise.Keeps backed)
      fun _ _ => False := isGated_keeps writer nodes
  have hcalm : Meets (IsCalm promise.environment) (writer.isGated nodes)
      (fun _ => IsCalm promise.environment) fun _ _ => False := isGated_returns writer nodes
  refine Meets.bind ((onWorld_holds (hkept.and hcalm) (Continues promise backed)).consequence
    (fun _ => id) (fun _ _ => id) fun _ _ h => h.2.1) fun gated => ?_
  refine Meets.ite (fun _ => Meets.pure fun _ h => h.2.2) fun _ => ?_
  rw [hwriter.identity, hwriter.entries, hfound]
  simp only [Action.ofExcept_ok, pure_bind, throwIf_neg (not_not.mpr rfl)]
  refine Meets.ite (fun _ => Meets.pure fun _ h => h.2.2) fun _ => ?_
  rw [throwIf_neg (by rw [haccepted]; decide)]
  simp only [Action.ofExcept_ok, pure_bind]
  exact publish_returns hstable hreliable hidentity hfits hproposed htiles hlevels
    fun entry hmem => (hentries entry hmem).bounds

end

end CheckpointFrontierWriter

end GiveMePi.Checkpoint

/-! ## Plans that leave no temporary files

What the quarantine keeps, the planner keeps; and the quarantine, when no change of a file fails,
leaves no temporary file of the process. -/

namespace GiveMePi.Checkpoint

open AtomicFileCommit (IsTempOf LacksTemps lacksTemps_erase removeQuietly_returns tempPath
  write_lacksTemps)
open Library (Meets)
open World (IsIn)

theorem exists_keeps (kept : World → Prop) (path : Path) :
    Meets kept (World.exists_ path) (fun _ => kept) (fun _ => kept) := by
  refine Meets.weaken (World.exists_meets ?_) fun _ _ h => h.2
  exact fun _ h _ => h

/-! ## Names behind the last dot -/

/-- What stands behind the last dot, and what stands in front of it. -/
theorem append_dot_inj {left right last last' : Bytes} (hlast : (46 : UInt8) ∉ last)
    (hlast' : (46 : UInt8) ∉ last') (h : left ++ 46 :: last = right ++ 46 :: last') :
    left = right ∧ last = last' := by
  have aux {short long last last' : Bytes} (hlast : (46 : UInt8) ∉ last) {middle : Bytes}
      (hlong : long = short ++ middle) (h : 46 :: last = middle ++ 46 :: last') :
      short = long ∧ last = last' := by
    cases middle with
    | nil => exact ⟨by simpa using hlong.symm, (List.cons.inj h).2⟩
    | cons byte middle =>
        rw [List.cons_append, List.cons.injEq] at h
        rw [h.2] at hlast
        simp at hlast
  rcases List.append_eq_append_iff.mp h with ⟨middle, hlong, hrest⟩ | ⟨middle, hlong, hrest⟩
  · exact aux hlast hlong hrest
  · obtain ⟨hleft, hright⟩ := aux hlast' hlong hrest
    exact ⟨hleft.symm, hright.symm⟩

theorem not_dot_mem_decimal (n : ℕ) : (46 : UInt8) ∉ decimal n :=
  not_mem_decimal (by decide) n

namespace CheckpointQuarantine

theorem not_dot_mem_toString (reason : RejectionReason) : (46 : UInt8) ∉ ascii reason.toString := by
  cases reason <;> decide

theorem toString_ne_tmp (reason : RejectionReason) : ascii reason.toString ≠ ascii "tmp" := by
  cases reason <;> decide

/-- The third part from the end is a reason. -/
theorem not_isTempOf_candidatePath (directory : Bytes) (source : Path) (reason : RejectionReason)
    (processId sequence processId' : ℕ) :
    ¬ IsTempOf processId' (candidatePath directory source reason processId sequence) := by
  rintro ⟨destination, sequence', h⟩
  have hname := congrArg Path.filename h
  have hcandidate : (candidatePath directory source reason processId sequence).filename =
      (((source.filename ++ ascii ".rejected") ++ 46 :: ascii reason.toString) ++
        46 :: decimal processId) ++ 46 :: decimal sequence := by
    simp [candidatePath, ascii]
  have htemp : (tempPath destination processId' sequence').filename =
      ((destination.filename ++ 46 :: ascii "tmp") ++ 46 :: decimal processId') ++
        46 :: decimal sequence' := by
    simp [tempPath, ascii]
  rw [hcandidate, htemp] at hname
  have hprocess := (append_dot_inj (not_dot_mem_decimal _) (not_dot_mem_decimal _) hname).1
  have hreason := (append_dot_inj (not_dot_mem_decimal _) (not_dot_mem_decimal _) hprocess).1
  exact toString_ne_tmp reason
    (append_dot_inj (not_dot_mem_toString reason) (by decide) hreason).2

/-- A record does not end in a number. -/
theorem not_isTempOf_diagnosticPath (destination : Path) (processId : ℕ) :
    ¬ IsTempOf processId (diagnosticPath destination) := by
  rintro ⟨other, sequence, h⟩
  have hname := congrArg Path.filename h
  have hrecord : (diagnosticPath destination).filename =
      destination.filename ++ 46 :: ascii "reason" := rfl
  have htemp : (tempPath other processId sequence).filename =
      (other.filename ++ ascii ".tmp." ++ decimal processId) ++ 46 :: decimal sequence := by
    simp [tempPath, ascii]
  rw [hrecord, htemp] at hname
  have hlast := (append_dot_inj (by decide) (not_dot_mem_decimal _) hname).2
  have hmem : (114 : UInt8) ∈ decimal sequence := by
    rw [← hlast]
    decide
  exact absurd (isDigit_of_mem_decimal hmem) (by decide)

/-! ## The quarantine -/

section

variable {environment : Environment}

/-- The name that is found is of no temporary file. -/
theorem uniqueDestination_isCalm (directory : Bytes) (source : Path) (reason : RejectionReason)
    (attempts : ℕ) :
    Meets (IsCalm environment) (uniqueDestination directory source reason attempts)
      (fun destination world =>
        ¬ IsTempOf environment.processId destination ∧ IsCalm environment world)
      (fun _ => IsCalm environment) := by
  induction attempts with
  | zero => exact Meets.throw fun _ h => h
  | succ attempts ih =>
      rw [uniqueDestination]
      refine Meets.bind_of (fun _ => IsCalm environment)
        (fun world h => ⟨h.environment, h.condition⟩) fun sequence => ?_
      refine Meets.bind Action.get_meets fun seen => ?_
      refine Meets.strengthen (?_ : Meets (IsCalm environment) _ _ _) fun _ h => h.2
      refine Meets.bind (exists_keeps _ _) fun found => ?_
      refine Meets.ite (fun _ => ih) fun _ => ?_
      exact Meets.pure fun _ h => ⟨not_isTempOf_candidatePath _ _ _ _ _ _, h⟩

variable (hreliable : environment.IsReliable)
include hreliable

theorem rename_isCalm {source destination : Path} (what : String)
    (hdestination : ¬ IsTempOf environment.processId destination) :
    Meets (IsCalm environment) (World.rename source destination what)
      (fun _ => IsCalm environment) (fun _ => IsCalm environment) := by
  intro world h
  rw [World.rename]
  cases hlookup : world.files.lookup source with
  | none => exact h
  | some content =>
      have hperform : Meets (IsCalm environment)
          (World.perform (.rename source destination)
            (fun files => (files.erase source).insert destination content) what)
          (fun _ => IsCalm environment) (fun _ _ => False) := by
        refine World.perform_returns hreliable fun files hfiles path hpath => ?_
        have hne : path ≠ destination := by
          rintro rfl
          exact hdestination hpath
        rw [AList.lookup_insert_ne hne]
        exact lacksTemps_erase hfiles path hpath
      exact (hperform.consequence (fun _ => id) (fun _ _ => id) fun _ _ hno => hno.elim) world h

theorem recordAndMove_isCalm {source destination : Path} (primary : ValidationDiagnostic)
    (hdestination : ¬ IsTempOf environment.processId destination) :
    Meets (IsCalm environment) (recordAndMove source destination primary)
      (fun _ => IsCalm environment) (fun _ => IsCalm environment) := by
  rw [recordAndMove]
  refine Meets.bind (write_lacksTemps hreliable (not_isTempOf_diagnosticPath _ _)) fun _ => ?_
  refine Action.attempt_meets _ (rename_isCalm hreliable _ hdestination) fun error => ?_
  refine Meets.bind ((removeQuietly_returns hreliable _).consequence (fun _ => id) (fun _ _ => id)
    fun _ _ hno => hno.elim) fun _ => ?_
  exact Meets.throw fun _ h => h

/-- The quarantine brings no temporary file back. -/
theorem quarantine_isCalm (directory : Bytes) (source : Path) (rejection : ValidationResult) :
    Meets (IsCalm environment) (quarantine directory source rejection)
      (fun _ => IsCalm environment) (fun _ _ => False) := by
  have hkeep (operation : FileOperation) (what : String) : Meets (IsCalm environment)
      (World.perform operation id what) (fun _ => IsCalm environment)
      (fun _ => IsCalm environment) :=
    (World.perform_returns hreliable fun _ h => h).consequence (fun _ => id) (fun _ _ => id)
      fun _ _ hno => hno.elim
  have hmove (primary : ValidationDiagnostic) : Meets (IsCalm environment)
      (move directory source primary) (fun _ => IsCalm environment) (fun _ _ => False) := by
    rw [move]
    refine Action.attempt_meets (fun _ => IsCalm environment) ?_ fun _ => Meets.pure fun _ h => h
    refine Meets.bind (hkeep _ _) fun _ => ?_
    refine Meets.bind (uniqueDestination_isCalm _ _ _ _) fun destination => Meets.of_pre fun h => ?_
    refine Meets.bind (recordAndMove_isCalm hreliable primary h) fun _ => ?_
    refine Action.attempt_meets (fun _ => IsCalm environment) ?_ fun _ => Meets.pure fun _ h => h
    exact Meets.bind (syncDirectories_meets (fun path => hkeep _ _) directory source) fun _ =>
      Meets.pure fun _ h => h
  rw [quarantine]
  refine Meets.ite (fun _ => Meets.pure fun _ h => h) fun _ => ?_
  refine Meets.ite (fun _ => Meets.pure fun _ h => h) fun _ => ?_
  cases rejection.diagnostics with
  | nil => exact Meets.pure fun _ h => h
  | cons primary rest => exact hmove primary

end

end CheckpointQuarantine

/-! ## The planner -/

namespace CheckpointResumePlanner

section

variable {kept : World → Prop} {quarantineDirectory : Bytes}
  (hquarantine : ∀ path validation, Meets kept
    (CheckpointQuarantine.quarantine quarantineDirectory path validation) (fun _ => kept)
    (fun _ => kept))
include hquarantine

theorem rejectFile_keeps (path : Path) (validation : ValidationResult) (progress : Progress) :
    Meets kept (rejectFile quarantineDirectory path validation progress) (fun _ => kept)
      (fun _ => kept) := by
  rw [rejectFile]
  refine Meets.ite (fun _ => Meets.pure fun _ h => h) fun _ => ?_
  refine Meets.bind (exists_keeps _ _) fun found => ?_
  refine Meets.ite (fun _ => ?_) fun _ => Meets.pure fun _ h => h
  exact Meets.bind (hquarantine path validation) fun _ => Meets.pure fun _ h => h

theorem rejectEntries_keeps (directory : Bytes) (validation : CheckpointManifestValidation)
    (entries : List ManifestEntry) (progress : Progress) :
    Meets kept (rejectEntries directory quarantineDirectory validation entries progress)
      (fun _ => kept) (fun _ => kept) := by
  induction entries generalizing progress with
  | nil => exact Meets.pure fun _ h => h
  | cons entry rest ih =>
      rw [rejectEntries]
      refine Meets.ite (fun _ => ih progress) fun _ => ?_
      exact Meets.bind (rejectFile_keeps hquarantine _ _ _) ih

theorem acceptEntries_keeps (directory : Bytes) (identity : ComputationIdentity)
    (entries : List ManifestEntry) (progress : Progress) :
    Meets kept (acceptEntries directory quarantineDirectory identity entries progress)
      (fun _ => kept) (fun _ => kept) := by
  induction entries generalizing progress with
  | nil => exact Meets.pure fun _ h => h
  | cons entry rest ih =>
      rw [acceptEntries]
      refine Meets.bind_of (fun _ => kept) ?_ ih
      rw [acceptEntry]
      refine Meets.bind Action.get_meets fun seen => ?_
      refine Meets.strengthen (?_ : Meets kept _ _ _) fun _ h => h.2
      cases examineEntry seen.files ⟨directory, entry.filename⟩ identity entry with
      | error validation => exact rejectFile_keeps hquarantine _ _ _
      | ok accepted => exact Meets.pure fun _ h => h

theorem sweepCandidates_keeps (names : List Bytes) (candidates : List Path) (progress : Progress) :
    Meets kept (sweepCandidates quarantineDirectory names candidates progress) (fun _ => kept)
      (fun _ => kept) := by
  induction candidates generalizing progress with
  | nil => exact Meets.pure fun _ h => h
  | cons path rest ih =>
      rw [sweepCandidates]
      refine Meets.bind_of (fun _ => kept) ?_ ih
      rw [sweepCandidate]
      refine Meets.ite (fun _ => Meets.pure fun _ h => h) fun _ => ?_
      exact Meets.ite (fun _ => rejectFile_keeps hquarantine _ _ _) fun _ => Meets.pure fun _ h => h

/-- The planner changes files by the quarantine only. -/
theorem create_keeps (directory : Bytes) (identity : ComputationIdentity) :
    Meets kept (create directory quarantineDirectory identity) (fun _ => kept)
      (fun _ => kept) := by
  rw [create]
  refine Meets.bind (Action.guard_meets fun _ _ h => h) fun _ => ?_
  refine Meets.bind Action.get_meets fun seen => ?_
  refine Meets.strengthen (?_ : Meets kept _ _ _) fun _ h => h.2
  obtain ⟨loaded, manifest, diagnostics⟩ := loadManifest seen.files directory identity
  refine Meets.bind_of (fun _ => kept) ?_ fun progress => ?_
  · refine Meets.ite (fun _ => ?_) fun _ => Meets.pure fun _ h => h
    rw [takeEntries]
    exact Meets.bind (rejectEntries_keeps hquarantine _ _ _ _)
      (acceptEntries_keeps hquarantine _ _ _)
  refine Meets.bind Action.get_meets fun now => ?_
  refine Meets.strengthen (?_ : Meets kept _ _ _) fun _ h => h.2
  exact Meets.bind (sweepCandidates_keeps hquarantine _ _ _) fun _ => Meets.pure fun _ h => h

end

end CheckpointResumePlanner

end GiveMePi.Checkpoint
