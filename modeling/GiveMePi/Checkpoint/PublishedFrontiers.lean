import GiveMePi.Checkpoint.EntryAcceptance
import GiveMePi.Checkpoint.WriterStructure

/-! # Published frontiers survive crashes

The writer adds blocks before it replaces the manifest and removes blocks behind it, so the manifest
on disk never names a block that is not there. -/

namespace GiveMePi.Checkpoint

open Binary (BinaryNode)
open CheckpointBlockCodec (blockBytes encodeValues_eq_ok_iff)
open CheckpointManifestCodec (IsSorted canonical manifestBytes sortEntries_eq)
open CheckpointManifestValidator (isAcceptable_of_isAccepted isSorted_of_tiles rangeOf)
open FileSystem (IsFramed)
open Library (Meets Tiles)
open World (Keeps)

/-! ## Backed entries -/

/-- The node of every range. -/
abbrev RangeValues := UInt64 → UInt64 → BinaryNode

/-- The block at a location, with the values of its range. -/
def blockOf (identity : ComputationIdentity) (values : RangeValues) (location : BlockLocation) :
    CheckpointBlock :=
  let node := values location.start location.stop
  ⟨identity, location, node.p, node.q, node.t⟩

def manifestPathOf (directory : Bytes) (identity : ComputationIdentity) : Path :=
  ⟨directory, CheckpointStore.manifestFilename identity⟩

section

variable (directory : Bytes) (identity : ComputationIdentity) (values : RangeValues)

/-- An entry records the block at its location, and the file it names holds that block. -/
structure IsBacked (files : FileSystem) (entry : ManifestEntry) : Prop where
  entry_eq : entry = (blockOf identity values entry.location).entry
  decodable : CheckpointBlockCodec.IsDecodable (blockOf identity values entry.location)
  stored : IsStored files directory (blockOf identity values entry.location)

def AreBacked (entries : List ManifestEntry) (files : FileSystem) : Prop :=
  ∀ entry ∈ entries, IsBacked directory identity values files entry

/-- The manifest on disk records a frontier of the whole computation, and every block of it is
there. -/
structure HoldsManifest (manifest : CheckpointManifest) (files : FileSystem) : Prop where
  onDisk : CheckpointStore.loadManifest files directory identity = .ok manifest
  tiles : Tiles 0 (manifest.entries.map rangeOf) identity.termCount
  level_le : ∀ entry ∈ manifest.entries,
    entry.location.treeLevel ≤ Binary.maximumTreeLevel identity.termCount
  backed : AreBacked directory identity values manifest.entries files

def HoldsFrontier (files : FileSystem) : Prop :=
  ∃ manifest, HoldsManifest directory identity values manifest files

end

variable {directory : Bytes} {identity : ComputationIdentity} {values : RangeValues}
  {files : FileSystem} {entry : ManifestEntry} {entries : List ManifestEntry}

theorem blockPath_of (location : BlockLocation) :
    (blockOf identity values location).path directory =
      ⟨directory, CheckpointStore.blockFilename identity location⟩ := rfl

theorem path_ne_manifestPathOf (location : BlockLocation) :
    (blockOf identity values location).path directory ≠ manifestPathOf directory identity := by
  rw [blockPath_of, manifestPathOf, ne_eq, Path.mk.injEq]
  exact fun h => CheckpointStore.blockFilename_ne_manifestFilename _ _ _ h.2

theorem manifestPathOf_isFinal (directory : Bytes) (identity : ComputationIdentity) :
    (manifestPathOf directory identity).IsFinal :=
  Or.inl (CheckpointStore.dots_manifestFilename identity)

namespace IsBacked

/-- An entry stays backed as long as its file stays. -/
theorem of_lookup (h : IsBacked directory identity values files entry) {files' : FileSystem}
    (hlookup : files'.lookup ((blockOf identity values entry.location).path directory) =
      files.lookup ((blockOf identity values entry.location).path directory)) :
    IsBacked directory identity values files' entry :=
  ⟨h.entry_eq, h.decodable, hlookup.trans h.stored.lookup, h.stored.length_le⟩

theorem insert_ne (h : IsBacked directory identity values files entry) {path : Path}
    {content : Bytes} (hne : (blockOf identity values entry.location).path directory ≠ path) :
    IsBacked directory identity values (files.insert path content) entry :=
  h.of_lookup (AList.lookup_insert_ne hne)

/-- Writing a block again writes what is there. -/
theorem insert_block (h : IsBacked directory identity values files entry)
    (location : BlockLocation) :
    IsBacked directory identity values
      (files.insert ((blockOf identity values location).path directory)
        (blockBytes (blockOf identity values location))) entry := by
  by_cases heq : entry.location = location
  · refine ⟨h.entry_eq, h.decodable, ?_, h.stored.length_le⟩
    rw [heq]
    exact AList.lookup_insert _
  · apply h.insert_ne
    rw [blockPath_of, blockPath_of, ne_eq, Path.mk.injEq]
    exact fun hpath => heq (CheckpointStore.blockFilename_inj hpath.2).2

/-- Only the removal of its own file takes the backing from an entry. -/
theorem erase_block (h : IsBacked directory identity values files entry)
    {location : BlockLocation} (hne : entry.location ≠ location) :
    IsBacked directory identity values
      (files.erase ((blockOf identity values location).path directory)) entry := by
  apply h.of_lookup
  apply AList.lookup_erase_ne
  rw [blockPath_of, blockPath_of, ne_eq, Path.mk.injEq]
  exact fun hpath => hne (CheckpointStore.blockFilename_inj hpath.2).2

theorem bounds (h : IsBacked directory identity values files entry) :
    entry.location.start < entry.location.stop ∧ entry.location.stop ≤ identity.termCount :=
  ⟨h.decodable.start_lt, h.decodable.stop_le⟩

theorem completion_eq (h : IsBacked directory identity values files entry) :
    entry.completion = CompletionState.complete := by
  rw [h.entry_eq]
  rfl

end IsBacked

theorem areBacked_isFramed (entries : List ManifestEntry) :
    IsFramed (AreBacked directory identity values entries) := by
  intro files files' hagrees h entry hmem
  exact (h entry hmem).of_lookup (hagrees _ (Or.inl (CheckpointBlock.isFinal_path _ directory)))

theorem AreBacked.insert_block (h : AreBacked directory identity values entries files)
    (location : BlockLocation) :
    AreBacked directory identity values entries
      (files.insert ((blockOf identity values location).path directory)
        (blockBytes (blockOf identity values location))) :=
  fun entry hmem => (h entry hmem).insert_block location

theorem AreBacked.insert_manifest (h : AreBacked directory identity values entries files)
    (content : Bytes) :
    AreBacked directory identity values entries
      (files.insert (manifestPathOf directory identity) content) :=
  fun entry hmem => (h entry hmem).insert_ne (path_ne_manifestPathOf entry.location)

/-! ## Manifests on disk -/

theorem CheckpointStore.manifestPath_eq_ok {path : Path} :
    manifestPath directory identity = .ok path ↔ identity.IsValid ∧
      path = manifestPathOf directory identity := by
  simp only [manifestPath, bind_eq_ok, pure_eq_ok, Except.ok.injEq]
  exact ⟨fun h => ⟨h.choose_spec.1, h.choose_spec.2.symm⟩, fun h => ⟨(), h.1, h.2.symm⟩⟩

theorem loadManifest_eq_ok_iff {manifest : CheckpointManifest} :
    CheckpointStore.loadManifest files directory identity = .ok manifest ↔
      manifest.identity = identity ∧ CheckpointManifestCodec.IsDecodable manifest ∧
        files.lookup (manifestPathOf directory identity) = some (manifestBytes manifest) ∧
          (manifestBytes manifest).length ≤ AtomicFileCommit.fileSizeMax := by
  simp only [CheckpointStore.loadManifest, CheckpointStore.manifestPath, bind_eq_ok, pure_eq_ok,
    Except.ok.injEq, throwIf_eq_ok, not_not, CheckpointManifestCodec.decode_eq_ok_iff]
  constructor
  · intro h
    obtain ⟨_, ⟨_, -, rfl⟩, bytes, hread, _, ⟨rfl, hdecodable⟩, _, hidentity, rfl⟩ := h
    rw [readFile] at hread
    split at hread
    · cases hread
    · next found hfound =>
        simp only [bind_eq_ok, throwIf_eq_ok, not_lt, pure_eq_ok, Except.ok.injEq] at hread
        obtain ⟨_, hlength, rfl⟩ := hread
        exact ⟨hidentity, hdecodable, hfound, hlength⟩
  · intro h
    obtain ⟨rfl, hdecodable, hfound, hlength⟩ := h
    rw [manifestPathOf] at hfound
    refine ⟨_, ⟨(), hdecodable.identity, rfl⟩, manifestBytes manifest, ?_, manifest,
      ⟨rfl, hdecodable⟩, (), rfl, rfl⟩
    simp only [readFile, hfound, gt_iff_lt, throwIf_neg (not_lt.mpr hlength), ok_bind, pure_eq_ok]

/-- The manifest is on disk, and its blocks are. -/
structure IsInstalled (directory : Bytes) (identity : ComputationIdentity) (values : RangeValues)
    (entries : List ManifestEntry) (files : FileSystem) : Prop where
  backed : AreBacked directory identity values entries files
  manifest : files.lookup (manifestPathOf directory identity) =
    some (manifestBytes ⟨identity, entries⟩)
  length_le : (manifestBytes ⟨identity, entries⟩).length ≤ AtomicFileCommit.fileSizeMax

theorem isInstalled_isFramed (entries : List ManifestEntry) :
    IsFramed (IsInstalled directory identity values entries) := by
  intro files files' hagrees h
  exact ⟨areBacked_isFramed entries _ _ hagrees h.backed,
    (hagrees _ (manifestPathOf_isFinal directory identity)).trans h.manifest, h.length_le⟩

theorem IsInstalled.erase_block (h : IsInstalled directory identity values entries files)
    {location : BlockLocation} (hnot : ∀ entry ∈ entries, entry.location ≠ location) :
    IsInstalled directory identity values entries
      (files.erase ((blockOf identity values location).path directory)) where
  backed entry hmem := (h.backed entry hmem).erase_block (hnot entry hmem)
  manifest := (AList.lookup_erase_ne (path_ne_manifestPathOf location).symm).trans h.manifest
  length_le := h.length_le

/-- Entries of a frontier, at admissible levels. -/
structure IsFrontierOf (identity : ComputationIdentity) (entries : List ManifestEntry) : Prop where
  tiles : Tiles 0 (entries.map rangeOf) identity.termCount
  level_le : ∀ entry ∈ entries,
    entry.location.treeLevel ≤ Binary.maximumTreeLevel identity.termCount

theorem IsInstalled.holdsFrontier (h : IsInstalled directory identity values entries files)
    (hfrontier : IsFrontierOf identity entries)
    (hdecodable : CheckpointManifestCodec.IsDecodable ⟨identity, entries⟩) :
    HoldsFrontier directory identity values files :=
  ⟨⟨identity, entries⟩, loadManifest_eq_ok_iff.mpr ⟨rfl, hdecodable, h.manifest, h.length_le⟩,
    hfrontier.tiles, hfrontier.level_le, h.backed⟩

/-- A frontier on disk stays when the manifest stays and no block goes away. -/
theorem HoldsFrontier.of_lookup {files' : FileSystem}
    (h : HoldsFrontier directory identity values files)
    (hmanifest : files'.lookup (manifestPathOf directory identity) =
      files.lookup (manifestPathOf directory identity))
    (hbacked : ∀ entry, IsBacked directory identity values files entry →
      IsBacked directory identity values files' entry) :
    HoldsFrontier directory identity values files' := by
  obtain ⟨manifest, hholds⟩ := h
  obtain ⟨hidentity, hdecodable, hlookup, hlength⟩ := loadManifest_eq_ok_iff.mp hholds.onDisk
  exact ⟨manifest, loadManifest_eq_ok_iff.mpr
      ⟨hidentity, hdecodable, hmanifest.trans hlookup, hlength⟩, hholds.tiles, hholds.level_le,
    fun entry hmem => hbacked entry (hholds.backed entry hmem)⟩

/-! ## The guarantee -/

/-- The manifest of the computation is replaced. -/
def ReplacesManifest (directory : Bytes) (identity : ComputationIdentity) (step : FileStep) :
    Prop :=
  ∃ source, step.operation = .rename source (manifestPathOf directory identity)

/-- What is promised of a directory: a frontier with the given values is on disk, or what may hold
before one is published; and from when on this is promised. -/
structure FrontierPromise where
  directory : Bytes
  identity : ComputationIdentity
  values : RangeValues
  standby : FileSystem → Prop
  initially : Prop
  environment : Environment

namespace FrontierPromise

variable (promise : FrontierPromise)

/-- It is in force when the manifest has been replaced. -/
def guarantee : FileGuarantee where
  initially := promise.initially
  starts := ReplacesManifest promise.directory promise.identity
  good files :=
    promise.standby files ∨ HoldsFrontier promise.directory promise.identity promise.values files
  environment := promise.environment

/-- The file of the block at a location. -/
def pathOf (location : BlockLocation) : Path :=
  (blockOf promise.identity promise.values location).path promise.directory

def bytesOf (location : BlockLocation) : Bytes :=
  blockBytes (blockOf promise.identity promise.values location)

/-- What may hold before speaks of final names only, and added blocks do not disturb it. -/
structure IsStable : Prop where
  framed : IsFramed promise.standby
  insert_block : ∀ files location, promise.standby files →
    promise.standby (files.insert (promise.pathOf location) (promise.bytesOf location))

/-- The promise is kept, and entries are backed. -/
def Keeps (entries : List ManifestEntry) : World → Prop :=
  World.Keeps promise.guarantee
    (AreBacked promise.directory promise.identity promise.values entries)

variable {promise}

theorem IsStable.isFramed (h : promise.IsStable) : promise.guarantee.IsFramed where
  good files files' hagrees := by
    refine Or.imp (h.framed files files' hagrees) fun hfrontier => ?_
    apply hfrontier.of_lookup (hagrees _ (manifestPathOf_isFinal promise.directory _))
    intro entry hentry
    exact hentry.of_lookup (hagrees _ (Or.inl (CheckpointBlock.isFinal_path _ _)))
  starts := by
    intro step hstarts
    obtain ⟨source, hoperation⟩ := hstarts
    exact ⟨source, _, hoperation, manifestPathOf_isFinal promise.directory _⟩

/-- The installation of a block is allowed. -/
theorem IsStable.allowsInstall (h : promise.IsStable) (location : BlockLocation)
    (condition : FileSystem → Prop) :
    promise.guarantee.AllowsInstall condition (promise.pathOf location)
      (promise.bytesOf location) := by
  intro _ files _ hgood
  rcases hgood with (hstandby | hfrontier) | hstarts
  · exact Or.inl (h.insert_block files location hstandby)
  · refine Or.inr (hfrontier.of_lookup ?_ fun entry hentry => hentry.insert_block location)
    exact AList.lookup_insert_ne (path_ne_manifestPathOf location).symm
  · obtain ⟨_, _, _, hoperation⟩ := hstarts
    rw [FileOperation.rename.injEq] at hoperation
    exact absurd hoperation.2 (path_ne_manifestPathOf location)

theorem Keeps.mono {entries entries' : List ManifestEntry} {world : World}
    (h : promise.Keeps entries world) (hsubset : entries' ⊆ entries) :
    promise.Keeps entries' world :=
  World.Keeps.mono h fun _ hbacked entry hmem => hbacked entry (hsubset hmem)

end FrontierPromise

end GiveMePi.Checkpoint
