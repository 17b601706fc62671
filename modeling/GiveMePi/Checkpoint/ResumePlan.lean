import GiveMePi.Checkpoint.PlannerAccounting
import GiveMePi.Checkpoint.VanishingResidues

/-! # The plan that a run of the planner returns

The planner returns a plan unless the manifest names a file that no directory can hold. -/

namespace GiveMePi.Checkpoint.CheckpointResumePlanner

open CheckpointQuarantine (diagnosticPath recordBytes)
open FileSystem (SameOn)
open Library (Meets)
open World (Keeps)

/-- The manifest on disk, if it can be loaded. -/
def IsOnDisk (files : FileSystem) (directory : Bytes) (identity : ComputationIdentity)
    (manifest : CheckpointManifest) : Prop :=
  CheckpointStore.loadManifest files directory identity = .ok manifest

/-- Every file with a final name is within the limit of names. -/
def FitsNames (environment : Environment) (files : FileSystem) : Prop :=
  ∀ path : Path, path.IsFinal → ∀ bytes, files.lookup path = some bytes →
    path.filename.length ≤ environment.nameMax

/-- Every entry of the manifest names a file that a directory can hold. -/
def HasShortNames (environment : Environment) (files : FileSystem) (directory : Bytes)
    (identity : ComputationIdentity) : Prop :=
  ∀ manifest, IsOnDisk files directory identity manifest →
    ∀ entry ∈ manifest.entries, entry.filename.length ≤ environment.nameMax

/-- The accepted blocks come from the entries that the validator of the manifest accepts. -/
def AreListed (files : FileSystem) (directory : Bytes) (identity : ComputationIdentity)
    (accepted : List AcceptedCheckpoint) : Prop :=
  accepted = [] ∨ ∃ manifest, IsOnDisk files directory identity manifest ∧
    (accepted.map fun checkpoint => checkpoint.manifestEntry).Sublist
      (CheckpointManifestValidator.validate manifest identity).acceptedEntries

section

variable {initial : FileSystem} {directory quarantineDirectory : Bytes}
  {identity : ComputationIdentity} {environment : Environment}

/-- The entries of the manifest, when there is one. -/
theorem takeManifest_sound (hnames : FitsNames environment initial) {manifest : CheckpointManifest}
    (hload : IsOnDisk initial directory identity manifest) (progress : Progress)
    (hnone : progress.plan.acceptedBlocks = [])
    (h : IsSound initial directory identity environment.nameMax progress) :
    Meets (Keeps (noGuarantee environment) (Origin initial progress.plan.acceptedBlocks))
      (takeEntries directory quarantineDirectory identity manifest
        (CheckpointManifestValidator.validate manifest identity) progress)
      (fun next world => (IsSound initial directory identity environment.nameMax next ∧
        AreListed initial directory identity next.plan.acceptedBlocks ∧
          HasShortNames environment initial directory identity) ∧
            world.Keeps (noGuarantee environment) (Origin initial next.plan.acceptedBlocks))
      (fun _ _ => ¬ HasShortNames environment initial directory identity) := by
  have hsubset : (CheckpointManifestValidator.validate manifest identity).acceptedEntries ⊆
      manifest.entries := fun _ hmem =>
    (CheckpointManifestValidator.acceptable_of_accepted hmem).1
  apply (takeEntries_sound hnames hsubset h).consequence (fun _ => id)
  · intro next world hnext
    obtain ⟨⟨hsound, ⟨kept, hsublist, hkept⟩, hshort⟩, hworld⟩ := hnext
    refine ⟨⟨hsound, .inr ⟨manifest, hload, ?_⟩, ?_⟩, hworld⟩
    · rw [hkept, hnone, List.nil_append]
      exact hsublist
    · intro other hother
      rw [IsOnDisk] at hload hother
      rw [hload] at hother
      exact Except.ok.inj hother ▸ hshort
  · intro _ _ hlong hshort
    obtain ⟨entry, hmem, hlong⟩ := hlong
    exact absurd (hshort manifest hload entry hmem) (not_le.mpr hlong)

theorem mem_finish {progress : Progress} {checkpoint : AcceptedCheckpoint} :
    checkpoint ∈ (finish identity progress.plan).acceptedBlocks ↔
      checkpoint ∈ progress.plan.acceptedBlocks := by
  rw [finish]
  exact (List.mergeSort_perm _ _).mem_iff

/-- A run of the planner: it returns a plan unless a name in the manifest is too long. -/
theorem create_sound (identity : ComputationIdentity) (hdirectory : directory ≠ [])
    (hquarantine : quarantineDirectory ≠ []) (hnames : FitsNames environment initial) :
    Meets (Keeps (noGuarantee environment) fun files => files = initial)
      (create directory quarantineDirectory identity)
      (fun plan world => (∃ progress : Progress,
        (IsSound initial directory identity environment.nameMax progress ∧
          AreListed initial directory identity progress.plan.acceptedBlocks ∧
            HasShortNames environment initial directory identity) ∧
              plan = finish identity progress.plan) ∧
                world.Keeps (noGuarantee environment) (Origin initial plan.acceptedBlocks))
      (fun _ _ => ¬ HasShortNames environment initial directory identity) := by
  have hguard : throwIf (directory = [] ∨ quarantineDirectory = [])
      (.invalidArgument "Resume planner directories must not be empty") = .ok () :=
    throwIf_eq_ok.mpr (not_or.mpr ⟨hdirectory, hquarantine⟩)
  rw [create]
  simp only [Action.liftM_eq, hguard]
  apply Meets.bind (Action.ofExcept_meets fun _ _ h => by cases h)
  intro _
  refine Meets.strengthen (?_ : Meets (Keeps (noGuarantee environment) fun files =>
    files = initial) _ _ _) fun _ h => h.2
  apply Meets.bind Action.get_meets
  intro seen world hseen
  obtain ⟨rfl, hworld⟩ := hseen
  obtain rfl : seen.files = initial := hworld.condition
  have hstart (plan : CheckpointResumePlan) (haccepted : plan.acceptedBlocks = []) :
      IsSound seen.files directory identity environment.nameMax ⟨plan, []⟩ := by
    refine ⟨?_, ?_, ?_, ?_⟩ <;> simp [AreTaken, Progress.Marks, haccepted]
  have horigin : seen.Keeps (noGuarantee environment) (Origin seen.files []) :=
    ⟨hworld.kept, hworld.environment, fun _ _ _ => id, by simp⟩
  refine (Meets.bind_of (fun next world =>
    (IsSound seen.files directory identity environment.nameMax next ∧
      AreListed seen.files directory identity next.plan.acceptedBlocks ∧
        HasShortNames environment seen.files directory identity) ∧
          world.Keeps (noGuarantee environment) (Origin seen.files next.plan.acceptedBlocks))
    ?_ fun next => ?_ : Meets (Keeps (noGuarantee environment) (Origin seen.files [])) _ _ _)
      seen horigin
  · cases hload : CheckpointStore.loadManifest seen.files directory identity with
    | ok manifest =>
        simp only [loadManifest, hload, if_true]
        refine takeManifest_sound hnames hload ⟨⟨[], [], [], [], _⟩, []⟩ rfl ?_
        exact hstart _ rfl
    | error error =>
        simp only [loadManifest, hload, Bool.false_eq_true, if_false]
        refine Meets.pure fun world h => ⟨⟨hstart _ rfl, .inl rfl, ?_⟩, h⟩
        intro manifest hmanifest
        rw [IsOnDisk, hload] at hmanifest
        cases hmanifest
  · apply Meets.of_pre
    intro hnext
    obtain ⟨hsound, hlisted, hshort⟩ := hnext
    apply Meets.bind Action.get_meets
    intro current world hcurrent
    obtain ⟨rfl, hworld⟩ := hcurrent
    have hstray (path : Path) (hmem : path ∈ current.files.directoryEntries directory)
        (names : List Bytes) (h : IsStray names path) :
        path.filename.length ≤ environment.nameMax := by
      have hkey : path ∈ current.files := (List.mem_filter.mp hmem).1
      obtain ⟨bytes, hbytes⟩ := Option.isSome_iff_exists.mp (AList.lookup_isSome.mpr hkey)
      have hfinal : path.IsFinal := .inr ⟨h.not_temporary, h.extension⟩
      exact hnames path hfinal bytes (hworld.condition.old path hfinal bytes hbytes)
    refine Meets.bind ((sweepCandidates_meets (noGuarantee_isFramed environment)
      (Origin.isFramed hsound.taken) (fun _ _ _ => hsound.marks.allowsErase)
        fun path hmem => hstray path hmem _).consequence (fun _ => id) (fun _ _ => id)
          fun _ _ => False.elim) (fun last => ?_) current hworld
    apply Meets.pure
    rintro world ⟨⟨hgrows, hsettled, -⟩, hworld⟩
    refine ⟨⟨last, ⟨hsound.of_grows hgrows hsettled, ?_, hshort⟩, rfl⟩,
      hworld.kept, hworld.environment, hworld.condition.old, ?_⟩
    · rw [hgrows.accepted]
      exact hlisted
    · intro checkpoint hmem
      rw [mem_finish, hgrows.accepted] at hmem
      exact hworld.condition.unmoved checkpoint hmem

/-! ## No data is lost -/

/-- After a run, with what its plan reports: every file of the directory is in place and not
reported as moved, or it is exactly where the report says, next to a record of the reason. -/
structure KeepsData (before : FileSystem) (directory : Bytes) (plan : CheckpointResumePlan)
    (files : FileSystem) : Prop where
  every : ∀ path bytes, path.directory = directory → before.lookup path = some bytes →
    (files.lookup path = some bytes ∧
      ∀ rejected ∈ plan.rejectedBlocks, rejected.path = path → rejected.quarantinedPath = none) ∨
    (files.lookup path = none ∧ ∃ rejected ∈ plan.rejectedBlocks, rejected.path = path ∧
      ∃ destination, rejected.quarantinedPath = some destination ∧
        files.lookup destination = some bytes ∧
          ∃ primary, rejected.validation.diagnostics.head? = some primary ∧
            files.lookup (diagnosticPath destination) = some (recordBytes path primary))
  once : (plan.rejectedBlocks.map fun rejected => rejected.path).Nodup
  apart : ∀ rejected ∈ plan.rejectedBlocks, ∀ other ∈ plan.rejectedBlocks, ∀ destination,
    rejected.quarantinedPath = some destination → other.quarantinedPath = some destination →
      rejected = other
  accepted : ∀ checkpoint ∈ plan.acceptedBlocks,
    files.lookup checkpoint.path = before.lookup checkpoint.path
  temporary : ∀ path, path.directory = directory → CheckpointFileInspector.isTemporary path = true →
    files.lookup path = before.lookup path

theorem Books.keepsData {progress : Progress} {before files : FileSystem}
    (h : Books before directory quarantineDirectory progress files) :
    KeepsData before directory (finish identity progress.plan) files where
  every path bytes hpath hlookup := by
    by_cases hstays : ∀ rejected ∈ progress.plan.rejectedBlocks,
        rejected.path = path → rejected.quarantinedPath = none
    · exact .inl ⟨(h.accounts.stays path hpath hstays).trans hlookup, hstays⟩
    · push Not at hstays
      obtain ⟨rejected, hmem, rfl, hmoved⟩ := hstays
      obtain ⟨destination, hdestination⟩ := Option.ne_none_iff_exists'.mp hmoved
      have hquarantined := h.accounts.moves rejected hmem destination hdestination
      exact .inr ⟨hquarantined.gone, rejected, hmem, rfl, destination, hdestination,
        hquarantined.content.2.trans hlookup, hquarantined.record⟩
  once := h.accounts.once
  apart := h.accounts.apart
  accepted checkpoint hmem := by
    obtain ⟨-, hdirectory, hstays⟩ := h.accepted checkpoint (mem_finish.mp hmem)
    exact h.accounts.stays checkpoint.path hdirectory hstays
  temporary path hpath htemporary := by
    apply h.accounts.stays path hpath
    rintro rejected hmem rfl
    by_contra hmoved
    obtain ⟨destination, hdestination⟩ := Option.ne_none_iff_exists'.mp hmoved
    rw [(h.accounts.moves rejected hmem destination hdestination).not_temporary] at htemporary
    cases htemporary

end

theorem keeps_noGuarantee {world : World} {environment : Environment}
    {condition : FileSystem → Prop} (henvironment : world.environment = environment)
    (h : condition world.files) : world.Keeps (noGuarantee environment) condition where
  kept := ⟨fun _ => trivial, fun _ _ _ _ => trivial⟩
  environment := henvironment
  condition := h

/-- A run returns a plan that accounts for every file of the directory, whatever steps of the
quarantine fail, exactly when the manifest names no file that a directory cannot hold. -/
theorem create_keepsData_iff (directory quarantineDirectory : Bytes)
    (identity : ComputationIdentity) (world : World) (hdirectory : directory ≠ [])
    (hquarantine : quarantineDirectory ≠ []) (hdirectories : directory ≠ quarantineDirectory)
    (hnames : FitsNames world.environment world.files)
    (hclean : world.environment.FailsWithoutEffect) :
    (∃ plan after, create directory quarantineDirectory identity world = .ok plan after ∧
        KeepsData world.files directory plan after.files) ↔
      HasShortNames world.environment world.files directory identity := by
  have hkeeps : world.Keeps (noGuarantee world.environment) fun files => files = world.files :=
    keeps_noGuarantee rfl rfl
  have hsound := create_sound identity hdirectory hquarantine hnames world hkeeps
  have hbooks := create_books identity hclean hdirectories world hkeeps
  cases hrun : create directory quarantineDirectory identity world with
  | ok plan after =>
      rw [hrun] at hsound hbooks
      obtain ⟨⟨_, ⟨-, -, hshort⟩, -⟩, -⟩ := hsound
      obtain ⟨progress, hprogress, rfl⟩ := hbooks.condition
      exact ⟨fun _ => hshort, fun _ => ⟨_, after, rfl, hprogress.keepsData⟩⟩
  | error error after =>
      rw [hrun] at hsound
      refine ⟨?_, fun hshort => absurd hshort hsound⟩
      rintro ⟨_, _, hok, -⟩
      cases hok

/-! ### Examples -/

open ModularPQTVerifier (tenDigitsIdentity)

/-- An operating system that lets everything happen, with names of up to 255 bytes. -/
def willing : Environment where
  outcome _ := .done
  writeSize request := request
  clock _ := 0
  processId := 7
  nameMax := 255

/-- A file whose name no manifest holds. -/
def strayPath : Path :=
  ⟨ascii "checkpoints", ascii "a.checkpoint"⟩

def strayWorld : World :=
  World.start willing ((∅ : FileSystem).insert strayPath [1, 2, 3]) none

theorem create_keepsData_iff_stray :
    (∃ plan after, create (ascii "checkpoints") (ascii "quarantine") tenDigitsIdentity strayWorld =
        .ok plan after ∧ KeepsData strayWorld.files (ascii "checkpoints") plan after.files) ↔
      HasShortNames strayWorld.environment strayWorld.files (ascii "checkpoints")
        tenDigitsIdentity := by
  refine create_keepsData_iff (ascii "checkpoints") (ascii "quarantine") tenDigitsIdentity
    strayWorld (by decide) (by decide) (by decide) ?_ ?_
  · intro path _ bytes hlookup
    by_cases heq : path = strayPath
    · rw [heq]
      decide
    · rw [strayWorld, World.start, AList.lookup_insert_ne heq] at hlookup
      cases hlookup
  · intro n h
    cases h

/-- The world that a run leaves. -/
def leftBy {α : Type} (program : Action World α) (world : World) : World :=
  match program world with
  | .ok _ after => after
  | .error _ after => after

/-- What the examination of the entries throws is what the run throws, when the validator of the
manifest accepts every entry. -/
theorem create_error_of_acceptEntries {directory quarantineDirectory : Bytes}
    {identity : ComputationIdentity} {manifest : CheckpointManifest}
    {validation : CheckpointManifestValidation} {world after : World} {error : Error}
    (hdirectory : directory ≠ []) (hquarantine : quarantineDirectory ≠ [])
    (hload : IsOnDisk world.files directory identity manifest)
    (hvalidation : CheckpointManifestValidator.validate manifest identity = validation)
    (haccepted : manifest.entries ⊆ validation.acceptedEntries)
    (hrun : acceptEntries directory quarantineDirectory identity validation.acceptedEntries
      ⟨⟨[], [], [], [], validation.validation.diagnostics⟩, []⟩ world = .error error after) :
    create directory quarantineDirectory identity world = .error error after := by
  have hguard : throwIf (directory = [] ∨ quarantineDirectory = [])
      (.invalidArgument "Resume planner directories must not be empty") = .ok () :=
    throwIf_eq_ok.mpr (not_or.mpr ⟨hdirectory, hquarantine⟩)
  have hreject : ∀ (entries : List ManifestEntry) (progress : Progress),
      entries ⊆ validation.acceptedEntries →
        rejectEntries directory quarantineDirectory validation entries progress =
          pure progress := by
    intro entries progress hsubset
    induction entries with
    | nil => rfl
    | cons entry rest ih =>
        rw [List.cons_subset] at hsubset
        rw [rejectEntries, if_pos hsubset.1, ih hsubset.2]
  have hmanifest : loadManifest world.files directory identity = (true, manifest, []) := by
    rw [IsOnDisk] at hload
    rw [loadManifest, hload]
  have htake : takeEntries directory quarantineDirectory identity manifest validation
      ⟨⟨[], [], [], [], validation.validation.diagnostics⟩, []⟩ world = .error error after := by
    rw [takeEntries, hreject manifest.entries _ haccepted]
    exact hrun
  have hbind : ∀ {α β : Type} (program : Action World α) (next : α → Action World β) (e : Error)
      (w w' : World), program w = .error e w' → (program >>= next) w = .error e w' := by
    intro α β program next e w w' h
    simp only [bind, EStateM.bind, h]
  rw [create]
  simp only [Action.liftM_eq, hguard, Action.ofExcept_ok, pure_bind]
  have hget : ∀ next : World → Action World CheckpointResumePlan,
      (get >>= next) world = next world world := fun _ => rfl
  rw [hget]
  simp only [hmanifest, hvalidation, if_true, List.nil_append]
  exact hbind _ _ _ _ _ htake

/-- A manifest whose first entry names no block file, and whose second one nothing at all. -/
def overlongManifest : CheckpointManifest where
  identity := tenDigitsIdentity
  entries := [⟨⟨0, 1, 0⟩, ascii "a", 0, ChecksumAlgorithm.crc32c, 0, CompletionState.complete⟩,
    ⟨⟨1, 3, 1⟩, List.replicate 256 98, 0, ChecksumAlgorithm.crc32c, 0, CompletionState.complete⟩]

/-- The bytes of this manifest. -/
def overlongBytes : Bytes :=
  let output := CheckpointManifestCodec.headerBytes tenDigitsIdentity 2 ++
    overlongManifest.entries.flatMap CheckpointManifestCodec.entryBytes
  storeU32 output CheckpointManifestCodec.checksumOffset
    ((CheckpointManifestCodec.manifestChecksum output).toOption.getD 0)

def overlongWorld : World :=
  World.start willing
    (((∅ : FileSystem).insert
      ⟨ascii "checkpoints", CheckpointStore.manifestFilename tenDigitsIdentity⟩
      overlongBytes).insert ⟨ascii "checkpoints", ascii "a"⟩ [1, 2, 3]) none

theorem isOnDisk_overlong :
    IsOnDisk overlongWorld.files (ascii "checkpoints") tenDigitsIdentity overlongManifest := by
  rw [IsOnDisk]
  decide +kernel

theorem validate_overlong :
    (CheckpointManifestValidator.validate overlongManifest
        tenDigitsIdentity).validation.diagnostics = [] ∧
      (CheckpointManifestValidator.validate overlongManifest tenDigitsIdentity).acceptedEntries =
        overlongManifest.entries := by
  have hsorted : CheckpointManifestCodec.IsSorted overlongManifest.entries := by
    rw [CheckpointManifestCodec.IsSorted]
    decide
  rw [CheckpointManifestValidator.validate]
  simp only [CheckpointManifestCodec.sortEntries_eq hsorted]
  decide +kernel

/-- The first file is moved, and no plan reports it. -/
theorem create_throws_after_move :
    overlongWorld.files.lookup ⟨ascii "checkpoints", ascii "a"⟩ = some [1, 2, 3] ∧
      ∃ error after, create (ascii "checkpoints") (ascii "quarantine") tenDigitsIdentity
          overlongWorld = .error error after ∧
        after.files.lookup ⟨ascii "checkpoints", ascii "a"⟩ = none := by
  obtain ⟨hdiagnostics, haccepted⟩ := validate_overlong
  have hlost : (match acceptEntries (ascii "checkpoints") (ascii "quarantine") tenDigitsIdentity
      overlongManifest.entries ⟨⟨[], [], [], [], []⟩, []⟩ overlongWorld with
      | .ok _ _ => false
      | .error _ after => (after.files.lookup ⟨ascii "checkpoints", ascii "a"⟩).isNone) = true := by
    decide +kernel
  cases hrun : acceptEntries (ascii "checkpoints") (ascii "quarantine") tenDigitsIdentity
      overlongManifest.entries ⟨⟨[], [], [], [], []⟩, []⟩ overlongWorld with
  | ok progress after =>
      rw [hrun] at hlost
      cases hlost
  | error error after =>
      rw [hrun] at hlost
      refine ⟨by decide +kernel, error, after, ?_, Option.isNone_iff_eq_none.mp hlost⟩
      apply create_error_of_acceptEntries (by decide) (by decide) isOnDisk_overlong rfl
        (by rw [haccepted]; exact List.Subset.refl _)
      rw [haccepted, hdiagnostics]
      exact hrun

end GiveMePi.Checkpoint.CheckpointResumePlanner
