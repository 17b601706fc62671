import GiveMePi.Checkpoint.PlanTiling
import GiveMePi.Checkpoint.WriterCrashes

/-! # Published frontiers are resumed

From a directory that holds a frontier the planner takes over all of it and leaves nothing to
calculate; from one without a manifest it starts anew. -/

namespace GiveMePi.Checkpoint

open Binary (BinaryNode)
open CheckpointManifestValidator (IsAcceptable rangeOf validate_of_tiles)
open CheckpointResumePlanner
open FileSystem (IsFramed)
open Library (Meets Tiles)
open ModularPQTVerifier (IsCongruent verificationPrimes)
open World (Keeps)

/-! ## Frontiers on disk -/

/-- Modulo the primes of the verification, the values are those of the series. -/
def AreCongruent (identity : ComputationIdentity) (values : RangeValues) : Prop :=
  ∀ location, ∀ prime ∈ verificationPrimes,
    IsCongruent (blockOf identity values location) prime.toNat

theorem areCongruent_ofRange (identity : ComputationIdentity) :
    AreCongruent identity BinaryNode.ofRange :=
  fun _ _ _ => ⟨Int.ModEq.refl _, Int.ModEq.refl _, Int.ModEq.refl _⟩

/-- What the plan holds of an entry that is taken over. -/
def takenOver (directory : Bytes) (identity : ComputationIdentity) (values : RangeValues)
    (entry : ManifestEntry) : AcceptedCheckpoint :=
  acceptedOf directory (blockOf identity values entry.location)

section

variable {directory : Bytes} {identity : ComputationIdentity} {values : RangeValues}
  {files : FileSystem} {manifest : CheckpointManifest}

theorem IsBacked.filename_eq {entry : ManifestEntry}
    (h : IsBacked directory identity values files entry) :
    entry.filename = CheckpointStore.blockFilename identity entry.location := by
  rw [h.entry_eq]
  rfl

theorem IsBacked.path_eq {entry : ManifestEntry}
    (h : IsBacked directory identity values files entry) :
    (blockOf identity values entry.location).path directory = ⟨directory, entry.filename⟩ := by
  rw [h.filename_eq, blockPath_of]

/-- The planner takes a backed entry over. -/
theorem IsBacked.examineEntry_eq {entry : ManifestEntry}
    (h : IsBacked directory identity values files entry) (hcongruent : AreCongruent identity values)
    (hlevel : entry.location.treeLevel ≤ Binary.maximumTreeLevel identity.termCount) :
    IsResumable identity (blockOf identity values entry.location) ∧
      examineEntry files ⟨directory, entry.filename⟩ identity entry =
        .ok (takenOver directory identity values entry) := by
  have hresumable : IsResumable identity (blockOf identity values entry.location) :=
    ⟨rfl, h.decodable, hlevel, hcongruent entry.location⟩
  exact ⟨hresumable, examineEntry_eq_ok_iff.mpr ⟨_, hresumable, h.stored, h.entry_eq, rfl⟩⟩

namespace HoldsManifest

/-- The manifest stays a frontier on disk while its file and those of its blocks stay. -/
theorem of_lookup (h : HoldsManifest directory identity values manifest files)
    {files' : FileSystem}
    (hmanifest : files'.lookup (manifestPathOf directory identity) =
      files.lookup (manifestPathOf directory identity))
    (hblocks : ∀ entry ∈ manifest.entries, files'.lookup ⟨directory, entry.filename⟩ =
      files.lookup ⟨directory, entry.filename⟩) :
    HoldsManifest directory identity values manifest files' := by
  obtain ⟨hidentity, hdecodable, hlookup, hlength⟩ := loadManifest_eq_ok_iff.mp h.onDisk
  refine ⟨loadManifest_eq_ok_iff.mpr
    ⟨hidentity, hdecodable, hmanifest.trans hlookup, hlength⟩, h.tiles, h.level_le, ?_⟩
  intro entry hmem
  have hbacked := h.backed entry hmem
  exact hbacked.of_lookup (hbacked.path_eq ▸ hblocks entry hmem)

theorem isFramed : IsFramed (HoldsManifest directory identity values manifest) := by
  intro files files' hagrees h
  apply h.of_lookup (hagrees _ (manifestPathOf_isFinal directory identity))
  intro entry hmem
  have hbacked := h.backed entry hmem
  exact hbacked.path_eq ▸ hagrees _ (Or.inl (CheckpointBlock.isFinal_path _ directory))

/-- Files that the manifest does not name may go. -/
theorem erase_stray (h : HoldsManifest directory identity values manifest files) {path : Path}
    (hstray : IsStray (manifest.entries.map fun entry => entry.filename) path) :
    HoldsManifest directory identity values manifest (files.erase path) := by
  apply h.of_lookup
  · apply AList.lookup_erase_ne
    rintro rfl
    have hextension := CheckpointStore.extension_manifestFilename directory identity
    exact absurd (hextension.symm.trans hstray.extension) (by decide)
  · intro entry hmem
    apply AList.lookup_erase_ne
    rintro rfl
    exact hstray.not_mem (List.mem_map_of_mem hmem)

/-- What is taken over of a frontier has its entries. -/
theorem map_takenOver (h : HoldsManifest directory identity values manifest files) :
    (manifest.entries.map (takenOver directory identity values)).map
        (fun checkpoint => checkpoint.manifestEntry) = manifest.entries := by
  rw [List.map_map]
  exact (List.map_congr_left fun entry hmem => (h.backed entry hmem).entry_eq.symm).trans
    (List.map_id _)

/-- The validator accepts all entries of a frontier on disk. -/
theorem acceptedEntries_eq (h : HoldsManifest directory identity values manifest files) :
    (CheckpointManifestValidator.validate manifest identity).acceptedEntries =
      manifest.entries := by
  obtain ⟨hidentity, hdecodable, -, -⟩ := loadManifest_eq_ok_iff.mp h.onDisk
  refine (validate_of_tiles (hidentity ▸ hdecodable.identity) hidentity ?_ h.tiles).2.1
  intro entry hmem
  have hbacked := h.backed entry hmem
  refine ⟨hbacked.bounds.1, hbacked.bounds.2, ?_, hbacked.completion_eq⟩
  rw [(maximumTreeLevels_agree identity.termCount).2.1]
  exact h.level_le entry hmem

end HoldsManifest

end

/-! ## What the planner makes of them -/

namespace CheckpointResumePlanner

section

variable {initial : FileSystem} {directory quarantineDirectory : Bytes}
  {identity : ComputationIdentity} {values : RangeValues} {environment : Environment}
  {guarantee : FileGuarantee}

/-- Accepted entries are passed over. -/
theorem rejectEntries_of_subset {validation : CheckpointManifestValidation}
    {entries : List ManifestEntry} (h : entries ⊆ validation.acceptedEntries)
    (progress : Progress) :
    rejectEntries directory quarantineDirectory validation entries progress = pure progress := by
  induction entries with
  | nil => rfl
  | cons entry rest ih =>
      obtain ⟨hfirst, hrest⟩ := List.cons_subset.mp h
      rw [rejectEntries, if_pos hfirst, ih hrest]

/-- Backed entries are taken over one after the other, and no file is touched. -/
theorem acceptEntries_of_areBacked (hcongruent : AreCongruent identity values)
    {entries : List ManifestEntry} {world : World} {progress : Progress}
    (hbacked : AreBacked directory identity values entries world.files)
    (hlevels : ∀ entry ∈ entries,
      entry.location.treeLevel ≤ Binary.maximumTreeLevel identity.termCount)
    (hshort : ∀ entry ∈ entries, entry.filename.length ≤ environment.nameMax)
    (h : IsSound world.files directory identity environment.nameMax progress) :
    ∃ after, acceptEntries directory quarantineDirectory identity entries progress world =
        .ok after world ∧
      after.plan.acceptedBlocks = progress.plan.acceptedBlocks ++
        entries.map (takenOver directory identity values) ∧
      IsSound world.files directory identity environment.nameMax after := by
  induction entries generalizing progress with
  | nil => exact ⟨progress, rfl, (List.append_nil _).symm, h⟩
  | cons entry rest ih =>
      obtain ⟨hfirst, hrest⟩ := List.forall_mem_cons.mp hbacked
      obtain ⟨hlevel, hlevels⟩ := List.forall_mem_cons.mp hlevels
      obtain ⟨hlength, hshort⟩ := List.forall_mem_cons.mp hshort
      obtain ⟨hresumable, hexamine⟩ := hfirst.examineEntry_eq hcongruent hlevel
      have hadd : IsSound world.files directory identity environment.nameMax
          (progress.addAccepted (takenOver directory identity values entry)) :=
        h.addAccepted hresumable hfirst.stored (hfirst.path_eq ▸ hlength)
      obtain ⟨after, hrun, haccepted, hsound⟩ := ih hrest hlevels hshort hadd
      refine ⟨after, ?_, ?_, hsound⟩
      · have hstep : acceptEntry directory quarantineDirectory identity entry progress world =
            .ok (progress.addAccepted (takenOver directory identity values entry)) world := by
          rw [acceptEntry, Library.Program.get_bind, hexamine]
          rfl
        rw [acceptEntries, Library.Program.bind_of_ok hstep, hrun]
      · rw [haccepted, Progress.addAccepted, List.append_assoc, List.map_cons,
          List.singleton_append]

/-- What a plan makes of the files that were not taken over. -/
def RejectsStrays (files : FileSystem) (directory : Bytes) (names : List Bytes)
    (plan : CheckpointResumePlan) : Prop :=
  ∀ path : Path, path.directory = directory → (files.lookup path).isSome →
    IsStray names path → ∃ rejected ∈ plan.rejectedBlocks, rejected.path = path

/-- The last part of a run: the sweep of the directory, and the plan. -/
def sweep (directory quarantineDirectory : Bytes) (identity : ComputationIdentity)
    (names : List Bytes) (progress : Progress) : Action World CheckpointResumePlan := do
  let world ← get
  let progress ← sweepCandidates quarantineDirectory names
    (world.files.directoryEntries directory) progress
  pure (finish identity progress.plan)

theorem sweep_meets {condition : FileSystem → Prop} {names : List Bytes} {progress : Progress}
    (hguarantee : guarantee.IsFramed) (hcondition : IsFramed condition)
    (hinitial : condition initial) (hnames : FitsNames guarantee.environment initial)
    (herase : ∀ path, IsStray names path → AllowsErase guarantee condition path)
    (hsound : IsSound initial directory identity guarantee.environment.nameMax progress)
    (hlisted : ∀ checkpoint ∈ progress.plan.acceptedBlocks, checkpoint.path.filename ∈ names) :
    Meets (Keeps guarantee fun files => files = initial)
      (sweep directory quarantineDirectory identity names progress)
      (fun plan world => (plan.acceptedBlocks = (finish identity progress.plan).acceptedBlocks ∧
        plan.rangesToRecalculate = (finish identity progress.plan).rangesToRecalculate ∧
          RejectsStrays initial directory names plan) ∧ world.Keeps guarantee condition)
      (fun _ _ => False) := by
  rw [sweep]
  refine Meets.bind Action.get_meets fun seen => ?_
  refine (?_ : Meets (fun world => seen.files = initial ∧ world.Keeps guarantee condition) _ _
    _).strengthen fun world hworld => ?_
  swap
  · obtain ⟨rfl, hkeeps⟩ := hworld
    exact ⟨hkeeps.condition, hkeeps.mono fun files hfiles => hfiles ▸ hinitial⟩
  refine Meets.of_pre fun hseen => ?_
  rw [hseen]
  have hshort (path : Path) (hmem : path ∈ initial.directoryEntries directory)
      (hstray : IsStray names path) : path.filename.length ≤ guarantee.environment.nameMax := by
    have hkey : path ∈ initial := (List.mem_filter.mp hmem).1
    obtain ⟨bytes, hbytes⟩ := Option.isSome_iff_exists.mp (AList.lookup_isSome.mpr hkey)
    exact hnames path (Or.inr ⟨hstray.not_temporary, hstray.extension⟩) bytes hbytes
  refine Meets.bind (sweepCandidates_meets hguarantee hcondition
    (fun path _ hstray _ => herase path hstray) hshort) fun last => Meets.pure ?_
  rintro world ⟨⟨hgrows, hsettled, hswept⟩, hkeeps⟩
  refine ⟨⟨?_, ?_, ?_⟩, hkeeps⟩
  · simp only [finish, hgrows.accepted]
  · simp only [finish, hgrows.accepted]
  · intro path hdirectory hsome hstray
    have hmem : path ∈ initial.directoryEntries directory :=
      List.mem_filter.mpr ⟨AList.lookup_isSome.mp hsome, decide_eq_true hdirectory⟩
    rcases (hsettled hsound.settled).covered path (hswept path hmem hstray) with haccepted | hrejected
    · obtain ⟨checkpoint, hchecked, rfl⟩ := haccepted
      exact absurd (hlisted checkpoint (hgrows.accepted ▸ hchecked)) hstray.not_mem
    · exact hrejected

/-- A plan that takes a frontier on disk over as it is. -/
structure TakesOver (directory : Bytes) (identity : ComputationIdentity) (values : RangeValues)
    (manifest : CheckpointManifest) (files : FileSystem) (plan : CheckpointResumePlan) : Prop where
  accepted : plan.acceptedBlocks = manifest.entries.map (takenOver directory identity values)
  ranges : plan.rangesToRecalculate = []
  strays : RejectsStrays files directory (manifest.entries.map fun entry => entry.filename) plan

/-- The plan as it is before any entry or file is dealt with. -/
def started (identity : ComputationIdentity) (manifest : CheckpointManifest)
    (loadDiagnostics : List ValidationDiagnostic) : Progress :=
  ⟨⟨[], [], [], [], loadDiagnostics ++
    (CheckpointManifestValidator.validate manifest identity).validation.diagnostics⟩, []⟩

theorem started_isSound (files : FileSystem) (directory : Bytes) (limit : ℕ)
    (manifest : CheckpointManifest) (loadDiagnostics : List ValidationDiagnostic) :
    IsSound files directory identity limit (started identity manifest loadDiagnostics) := by
  refine ⟨?_, ?_, ?_, ?_⟩ <;> simp [AreTaken, Progress.Marks, started]

theorem create_guard (hdirectory : directory ≠ []) (hquarantine : quarantineDirectory ≠ []) :
    throwIf (directory = [] ∨ quarantineDirectory = [])
      (.invalidArgument "Resume planner directories must not be empty") = .ok () :=
  throwIf_eq_ok.mpr (not_or.mpr ⟨hdirectory, hquarantine⟩)

/-- A run with a manifest, once its entries are taken. -/
theorem create_of_takeEntries {world after : World} {manifest : CheckpointManifest}
    {next : Progress} (hdirectory : directory ≠ []) (hquarantine : quarantineDirectory ≠ [])
    (hload : CheckpointStore.loadManifest world.files directory identity = .ok manifest)
    (htake : takeEntries directory quarantineDirectory identity manifest
      (CheckpointManifestValidator.validate manifest identity) (started identity manifest []) world =
        .ok next after) :
    create directory quarantineDirectory identity world =
      sweep directory quarantineDirectory identity
        (manifest.entries.map fun entry => entry.filename) next after := by
  have hmanifest : loadManifest world.files directory identity = (true, manifest, []) := by
    rw [loadManifest, hload]
  rw [create, create_guard hdirectory hquarantine, Action.liftM_eq]
  refine (Library.Program.bind_of_ok (rfl : Action.ofExcept _ world = .ok () world)).trans ?_
  rw [Library.Program.get_bind, hmanifest]
  exact Library.Program.bind_of_ok htake

/-- A run without a manifest. -/
theorem create_of_loadManifest_error {world : World} {error : Error} (hdirectory : directory ≠ [])
    (hquarantine : quarantineDirectory ≠ [])
    (hload : CheckpointStore.loadManifest world.files directory identity = .error error) :
    ∃ diagnostics, create directory quarantineDirectory identity world =
      sweep directory quarantineDirectory identity [] (started identity ⟨identity, []⟩ diagnostics)
        world := by
  have hmanifest : loadManifest world.files directory identity =
      (false, ⟨identity, []⟩, [⟨.manifest, .invalidManifest, error.what⟩]) := by
    rw [loadManifest, hload]
  refine ⟨[⟨.manifest, .invalidManifest, error.what⟩], ?_⟩
  rw [create, create_guard hdirectory hquarantine, Action.liftM_eq]
  refine (Library.Program.bind_of_ok (rfl : Action.ofExcept _ world = .ok () world)).trans ?_
  rw [Library.Program.get_bind, hmanifest]
  rfl

/-- A frontier on disk is taken over, and stays. -/
theorem create_takesOver {manifest : CheckpointManifest} (hdirectory : directory ≠ [])
    (hquarantine : quarantineDirectory ≠ []) (hguarantee : guarantee.IsFramed)
    (hgood : ∀ files, HoldsManifest directory identity values manifest files → guarantee.good files)
    (hnames : FitsNames guarantee.environment initial) (hcongruent : AreCongruent identity values)
    (h : HoldsManifest directory identity values manifest initial) :
    Meets (Keeps guarantee fun files => files = initial)
      (create directory quarantineDirectory identity)
      (fun plan world => TakesOver directory identity values manifest initial plan ∧
        world.Keeps guarantee (HoldsManifest directory identity values manifest))
      (fun _ _ => False) := by
  intro world hworld
  obtain rfl : world.files = initial := hworld.condition
  have hload := h.onDisk
  have haccepted := h.acceptedEntries_eq
  have hshort (entry : ManifestEntry) (hmem : entry ∈ manifest.entries) :
      entry.filename.length ≤ guarantee.environment.nameMax := by
    have hbacked := h.backed entry hmem
    exact hnames ⟨directory, entry.filename⟩
      (hbacked.path_eq ▸ Or.inl (CheckpointBlock.isFinal_path _ directory)) _
      (hbacked.path_eq ▸ hbacked.stored.lookup)
  obtain ⟨next, hrun, htaken, hnext⟩ : ∃ next, acceptEntries directory quarantineDirectory identity
      manifest.entries (started identity manifest []) world = .ok next world ∧
        next.plan.acceptedBlocks = [] ++ manifest.entries.map (takenOver directory identity values) ∧
          IsSound world.files directory identity guarantee.environment.nameMax next :=
    acceptEntries_of_areBacked hcongruent h.backed h.level_le hshort
      (started_isSound world.files directory _ manifest [])
  rw [List.nil_append] at htaken
  have htake : takeEntries directory quarantineDirectory identity manifest
      (CheckpointManifestValidator.validate manifest identity) (started identity manifest []) world =
        .ok next world := by
    rw [takeEntries, rejectEntries_of_subset (haccepted ▸ List.Subset.refl _), haccepted]
    exact hrun
  have hentries : next.plan.acceptedBlocks.map (fun checkpoint => checkpoint.manifestEntry) =
      manifest.entries := by
    rw [htaken]
    exact h.map_takenOver
  have hlisted : AreListed world.files directory identity next.plan.acceptedBlocks :=
    Or.inr ⟨manifest, hload, by rw [hentries, haccepted]⟩
  have hadmissible := areAdmissible_of_areListed hnext.taken hlisted
  have htiled := IsTiled.of_finish hadmissible
  have hfinish : (finish identity next.plan).acceptedBlocks = next.plan.acceptedBlocks := by
    rw [finish_of_pairwise hadmissible.pairwise_start]
  have hranges : (finish identity next.plan).rangesToRecalculate = [] := by
    rw [htiled.rangesToRecalculate_eq_nil, hfinish, ← hadmissible.map_rangeOf, hentries]
    exact h.tiles
  have herase (path : Path)
      (hstray : IsStray (manifest.entries.map fun entry => entry.filename) path) :
      AllowsErase guarantee (HoldsManifest directory identity values manifest) path :=
    ⟨fun _ hholds => hholds.erase_stray hstray, fun _ hholds _ => hgood _ (hholds.erase_stray hstray)⟩
  have hnamed (checkpoint : AcceptedCheckpoint) (hmem : checkpoint ∈ next.plan.acceptedBlocks) :
      checkpoint.path.filename ∈ manifest.entries.map fun entry => entry.filename := by
    rw [htaken] at hmem
    obtain ⟨entry, hentry, rfl⟩ := List.mem_map.mp hmem
    exact List.mem_map.mpr ⟨entry, hentry, (h.backed entry hentry).filename_eq⟩
  rw [create_of_takeEntries hdirectory hquarantine hload htake]
  refine (sweep_meets hguarantee HoldsManifest.isFramed h hnames herase hnext hnamed).weaken ?_
    world hworld
  rintro plan after ⟨⟨hblocks, hleft, hstrays⟩, hkeeps⟩
  exact ⟨⟨hblocks.trans (hfinish.trans htaken), hleft.trans hranges, hstrays⟩, hkeeps⟩

/-- A plan that starts anew. -/
structure StartsAnew (identity : ComputationIdentity) (files : FileSystem) (directory : Bytes)
    (plan : CheckpointResumePlan) : Prop where
  accepted : plan.acceptedBlocks = []
  ranges : plan.rangesToRecalculate = [⟨0, identity.termCount⟩]
  strays : RejectsStrays files directory [] plan

/-- The file of the manifest is not there. -/
def LacksManifest (directory : Bytes) (identity : ComputationIdentity) (files : FileSystem) :
    Prop :=
  files.lookup (manifestPathOf directory identity) = none

theorem lacksManifest_isFramed : IsFramed (LacksManifest directory identity) :=
  fun _ _ hagrees h => (hagrees _ (manifestPathOf_isFinal directory identity)).trans h

/-- Without a manifest every block is left to calculate, and no manifest appears. -/
theorem create_startsAnew (hdirectory : directory ≠ []) (hquarantine : quarantineDirectory ≠ [])
    (hidentity : identity.IsValid) (hguarantee : guarantee.IsFramed)
    (hgood : ∀ files, LacksManifest directory identity files → guarantee.good files)
    (hnames : FitsNames guarantee.environment initial)
    (h : LacksManifest directory identity initial) :
    Meets (Keeps guarantee fun files => files = initial)
      (create directory quarantineDirectory identity)
      (fun plan world => StartsAnew identity initial directory plan ∧
        world.Keeps guarantee (LacksManifest directory identity))
      (fun _ _ => False) := by
  intro world hworld
  obtain rfl : world.files = initial := hworld.condition
  obtain ⟨error, hload⟩ : ∃ error,
      CheckpointStore.loadManifest world.files directory identity = .error error := by
    cases hload : CheckpointStore.loadManifest world.files directory identity with
    | error error => exact ⟨error, rfl⟩
    | ok manifest =>
        have hlookup := (loadManifest_eq_ok_iff.mp hload).2.2.1
        rw [h] at hlookup
        cases hlookup
  obtain ⟨diagnostics, hcreate⟩ :=
    create_of_loadManifest_error hdirectory hquarantine hload
  have herase (path : Path) (hstray : IsStray [] path) :
      AllowsErase guarantee (LacksManifest directory identity) path := by
    have hkeep (files : FileSystem) (hlacks : LacksManifest directory identity files) :
        LacksManifest directory identity (files.erase path) := by
      rw [LacksManifest, AList.lookup_erase_ne]
      · exact hlacks
      · rintro rfl
        have hextension := CheckpointStore.extension_manifestFilename directory identity
        exact absurd (hextension.symm.trans hstray.extension) (by decide)
    exact ⟨hkeep, fun _ hlacks _ => hgood _ (hkeep _ hlacks)⟩
  rw [hcreate]
  refine (sweep_meets hguarantee lacksManifest_isFramed h hnames herase
    (started_isSound world.files directory _ ⟨identity, []⟩ diagnostics) ?_).weaken ?_ world hworld
  · exact fun _ hmem => absurd hmem List.not_mem_nil
  · rintro plan after ⟨⟨hblocks, hleft, hstrays⟩, hkeeps⟩
    refine ⟨⟨hblocks.trans ?_, hleft.trans ?_, hstrays⟩, hkeeps⟩
    · simp only [finish, started, List.mergeSort_nil]
    have hpos : 0 < identity.termCount := hidentity.termCount_pos
    simp only [finish, started, List.mergeSort_nil, complement, List.map_nil, complementFrom,
      if_pos hpos]

end

end CheckpointResumePlanner

/-! ## From the writer to the planner -/

namespace CheckpointFrontierWriter

/-- Wherever a run of the writer is cut once it has replaced the manifest, the planner takes over
exactly the frontier that the manifest on disk records, with the values that were committed, leaves
nothing to calculate, rejects every other block file and keeps what it takes over in place. -/
theorem commitAll_resumes {directory : Bytes} {identity : ComputationIdentity} {interval : ℤ}
    {accepted : List ManifestEntry} {writer : CheckpointFrontierWriter}
    (hcreate : create directory identity interval accepted = .ok writer) {files : FileSystem}
    (hbacked : AreBacked directory identity BinaryNode.ofRange accepted files)
    {frontiers : List ShownFrontier}
    (hvalues : ∀ frontier ∈ frontiers, ∀ node ∈ frontier.nodes,
      HoldsValues BinaryNode.ofRange node)
    (environment : Environment) (tracker : Option Progress.ProgressTracker) :
    let trace := (commitAll frontiers ⟨World.start environment files tracker, writer⟩).world.trace
    ∀ step earlier, step :: earlier <:+ trace →
      (∃ replaced ∈ step :: earlier, ReplacesManifest directory identity replaced) →
      ∀ quarantineDirectory ≠ [], ∀ world : World, world.files = step.files →
        FitsNames world.environment world.files →
        ∃ manifest plan after,
          HoldsManifest directory identity BinaryNode.ofRange manifest step.files ∧
            CheckpointResumePlanner.create directory quarantineDirectory identity world =
              .ok plan after ∧
            TakesOver directory identity BinaryNode.ofRange manifest step.files plan ∧
              HoldsManifest directory identity BinaryNode.ofRange manifest after.files := by
  intro trace step earlier hsuffix hreplaced quarantineDirectory hquarantine world hfiles hnames
  obtain ⟨manifest, hholds⟩ := commitAll_published hcreate hbacked hvalues hsuffix hreplaced
  have hdirectory : directory ≠ [] := (create_eq_ok_iff.mp hcreate).1
  have hmeets := create_takesOver hdirectory hquarantine (noGuarantee_isFramed world.environment)
    (fun _ _ => trivial) hnames (areCongruent_ofRange identity) (hfiles ▸ hholds) world
    (keeps_noGuarantee rfl rfl)
  cases hrun : CheckpointResumePlanner.create directory quarantineDirectory identity world with
  | error e after =>
      rw [hrun] at hmeets
      exact hmeets.elim
  | ok plan after =>
      rw [hrun] at hmeets
      exact ⟨manifest, plan, after, hholds, rfl, hfiles ▸ hmeets.1, hmeets.2.condition⟩

open ModularPQTVerifier (tenDigitsIdentity)

theorem commitAll_resumes_tenDigits :
    let trace := (commitAll tenDigitsFrontiers ⟨World.start willing ∅ none,
      fresh (ascii "checkpoints") tenDigitsIdentity 0 []⟩).world.trace
    ∀ step earlier, step :: earlier <:+ trace →
      (∃ replaced ∈ step :: earlier,
        ReplacesManifest (ascii "checkpoints") tenDigitsIdentity replaced) →
      ∀ quarantineDirectory ≠ [], ∀ world : World, world.files = step.files →
        FitsNames world.environment world.files →
        ∃ manifest plan after,
          HoldsManifest (ascii "checkpoints") tenDigitsIdentity BinaryNode.ofRange manifest
              step.files ∧
            CheckpointResumePlanner.create (ascii "checkpoints") quarantineDirectory
                tenDigitsIdentity world = .ok plan after ∧
            TakesOver (ascii "checkpoints") tenDigitsIdentity BinaryNode.ofRange manifest step.files
                plan ∧
              HoldsManifest (ascii "checkpoints") tenDigitsIdentity BinaryNode.ofRange manifest
                after.files :=
  commitAll_resumes create_tenDigits (fun _ hmem => absurd hmem List.not_mem_nil)
    tenDigitsFrontiers_hold _ _

end CheckpointFrontierWriter

end GiveMePi.Checkpoint
