import GiveMePi.Checkpoint.SmoothMoves
import Mathlib.Algebra.Order.BigOperators.Group.List
import Mathlib.Data.Nat.Digits.Defs

/-! # The blocks of other computations

The sweep of the checkpoint directory knows one manifest only: it moves away the block files of
every other computation that shares the directory. -/

namespace GiveMePi.Checkpoint.CheckpointResumePlanner

open CheckpointQuarantine (IsFresh IsReady candidatePath diagnosticPath recordBytes)
open Library (Meets)
open World (Keeps)

/-! ## Runs in which changes fail -/

/-- A state with the given files and number of attempted changes, and the counters at the start. -/
structure IsStalled (files : FileSystem) (environment : Environment) (operations : ℕ)
    (world : World) : Prop where
  files_eq : world.files = files
  environment_eq : world.environment = environment
  operations_eq : world.operations = operations
  quarantineSequence : world.quarantineSequence = 0
  tempSequence : world.tempSequence = 0

/-- The next changes fail. -/
def FailsNext (environment : Environment) (start count : ℕ) : Prop :=
  ∀ n, start ≤ n → n < start + count → environment.outcome n = .failedBefore

/-- While its changes fail, which it attempts a fixed number of, the program returns one result and
leaves the files as they are. -/
def Replays {α : Type} (files : FileSystem) (limit count : ℕ) (program : Action World α)
    (result : α) : Prop :=
  ∀ environment start, limit ≤ environment.nameMax → FailsNext environment start count →
    Meets (IsStalled files environment start) program
      (fun a world => a = result ∧ IsStalled files environment (start + count) world)
      (fun _ _ => False)

/-- The program returns, while its changes fail, something with a property. -/
def Reaches {α : Type} (files : FileSystem) (limit : ℕ) (program : Action World α)
    (property : α → Prop) : Prop :=
  ∃ count result, Replays files limit count program result ∧ property result

section

variable {α β : Type} {files : FileSystem} {limit count : ℕ} {directory quarantineDirectory : Bytes}
  {path : Path} {validation : ValidationResult} {progress : Progress}
  {property property' : α → Prop}

theorem Reaches.pure {a : α} (h : property a) : Reaches files limit (Pure.pure a) property :=
  ⟨0, a, fun _ _ _ _ => Meets.pure fun _ hworld => ⟨rfl, hworld⟩, h⟩

theorem Replays.bind {program : Action World α} {next : α → Action World β} {a : α} {b : β}
    {count' : ℕ} (h : Replays files limit count program a)
    (hnext : Replays files limit count' (next a) b) :
    Replays files limit (count + count') (program >>= next) b := by
  intro environment start hlimit hfails
  apply Meets.bind (h environment start hlimit fun n hn hlt => hfails n hn (by omega))
  intro a'
  apply Meets.of_pre
  rintro rfl
  rw [← Nat.add_assoc]
  exact hnext environment (start + count) hlimit fun n hn hlt => hfails n (by omega) (by omega)

theorem Reaches.bind {program : Action World α} {next : α → Action World β} {final : β → Prop}
    (h : Reaches files limit program property)
    (hnext : ∀ a, property a → Reaches files limit (next a) final) :
    Reaches files limit (program >>= next) final := by
  obtain ⟨count, a, hreplays, ha⟩ := h
  obtain ⟨count', b, hreplays', hb⟩ := hnext a ha
  exact ⟨count + count', b, hreplays.bind hreplays', hb⟩

theorem Reaches.weaken {program : Action World α} (h : Reaches files limit program property)
    (himp : ∀ a, property a → property' a) : Reaches files limit program property' := by
  obtain ⟨count, a, hreplays, ha⟩ := h
  exact ⟨count, a, hreplays, himp a ha⟩

/-- What looks at the files only sees the given ones. -/
theorem Reaches.get_bind (next : FileSystem → Action World α)
    (h : Reaches files limit (next files) property) :
    Reaches files limit (get >>= fun world => next world.files) property := by
  obtain ⟨count, a, hreplays, ha⟩ := h
  refine ⟨count, a, fun environment start hlimit hfails => ?_, ha⟩
  apply Meets.bind Action.get_meets
  rintro seen world ⟨rfl, hworld⟩
  exact hworld.files_eq ▸ hreplays environment start hlimit hfails seen hworld

/-- A change that fails costs one attempt, and what is caught of it is returned. -/
theorem Reaches.attempt_perform {operation : FileOperation} {effect : FileSystem → FileSystem}
    {what : String} {next : Action World α} {handler : Error → Action World α} {a : α}
    (h : handler (.systemError what) = Pure.pure a) (ha : property a) :
    Reaches files limit
      (Action.attempt (World.perform operation effect what >>= fun _ => next) handler) property := by
  refine ⟨1, a, ?_, ha⟩
  intro environment start _ hfails world hworld
  have houtcome : world.environment.outcome world.operations = .failedBefore := by
    rw [hworld.environment_eq, hworld.operations_eq]
    exact hfails start le_rfl (Nat.lt_succ_self start)
  simp only [Action.attempt, Bind.bind, EStateM.bind, World.perform, houtcome, h]
  exact ⟨rfl, hworld.files_eq, hworld.environment_eq, congrArg (· + 1) hworld.operations_eq,
    hworld.quarantineSequence, hworld.tempSequence⟩

theorem exists_reaches (hshort : path.filename.length ≤ limit) :
    Reaches files limit (World.exists_ path) fun _ => True := by
  refine ⟨0, files.exists_ path, ?_, trivial⟩
  rintro environment start hlimit - world ⟨rfl, rfl, rfl, hquarantine, htemp⟩
  have hfits : ¬ path.filename.length > world.environment.nameMax := not_lt.mpr (hshort.trans hlimit)
  rw [World.exists_, if_neg hfits]
  exact ⟨rfl, rfl, rfl, rfl, hquarantine, htemp⟩

theorem quarantine_reaches (directory : Bytes) (source : Path) (rejection : ValidationResult) :
    Reaches files limit (CheckpointQuarantine.quarantine directory source rejection)
      fun _ => True := by
  rw [CheckpointQuarantine.quarantine]
  split_ifs
  · exact Reaches.pure trivial
  · exact Reaches.pure trivial
  · cases rejection.diagnostics with
    | nil => exact Reaches.pure trivial
    | cons primary rest => exact Reaches.attempt_perform rfl trivial

theorem rejectFile_reaches (hshort : path.filename.length ≤ limit) :
    Reaches files limit (rejectFile quarantineDirectory path validation progress)
      fun next => next.processedPaths ⊆ path :: progress.processedPaths := by
  rw [rejectFile]
  split_ifs
  · exact Reaches.pure (List.subset_cons_self _ _)
  apply (exists_reaches hshort).bind
  intro found _
  split_ifs
  · apply (quarantine_reaches _ _ _).bind
    intro outcome _
    apply Reaches.pure
    split_ifs <;> exact List.Subset.refl _
  · exact Reaches.pure (List.Subset.refl _)

/-- The paths of entries. -/
def entryPaths (directory : Bytes) (entries : List ManifestEntry) : List Path :=
  entries.map fun entry => ⟨directory, entry.filename⟩

theorem rejectEntries_reaches {manifest : CheckpointManifestValidation}
    {entries : List ManifestEntry} (hshort : ∀ entry ∈ entries, entry.filename.length ≤ limit) :
    Reaches files limit (rejectEntries directory quarantineDirectory manifest entries progress)
      fun next => next.processedPaths ⊆ entryPaths directory entries ++ progress.processedPaths := by
  induction entries generalizing progress with
  | nil => exact Reaches.pure (List.Subset.refl _)
  | cons entry rest ih =>
      obtain ⟨hentry, hrest⟩ := List.forall_mem_cons.mp hshort
      rw [rejectEntries]
      split_ifs
      · exact (ih hrest).weaken fun _ h => List.subset_cons_of_subset _ h
      · apply (rejectFile_reaches hentry).bind
        intro next hnext
        apply (ih hrest).weaken
        intro last hlast other hother
        have := hlast hother
        have := @hnext
        grind [entryPaths]

/-- The rest of `acceptEntry`, on the files that it looks at. -/
def acceptOn (checkpointDirectory quarantineDirectory : Bytes)
    (expectedIdentity : ComputationIdentity) (entry : ManifestEntry) (progress : Progress)
    (files : FileSystem) : Action World Progress :=
  match examineEntry files ⟨checkpointDirectory, entry.filename⟩ expectedIdentity entry with
  | .error validation =>
      rejectFile quarantineDirectory ⟨checkpointDirectory, entry.filename⟩ validation progress
  | .ok accepted => pure (progress.addAccepted accepted)

theorem acceptEntry_reaches {identity : ComputationIdentity} {entry : ManifestEntry}
    (hshort : entry.filename.length ≤ limit) :
    Reaches files limit (acceptEntry directory quarantineDirectory identity entry progress)
      fun next => next.processedPaths ⊆ entryPaths directory [entry] ++ progress.processedPaths := by
  rw [acceptEntry]
  apply Reaches.get_bind (acceptOn directory quarantineDirectory identity entry progress)
  rw [acceptOn]
  cases hexamine : examineEntry files ⟨directory, entry.filename⟩ identity entry with
  | error validation => exact rejectFile_reaches hshort
  | ok accepted =>
      obtain ⟨block, -, -, rfl, rfl⟩ := examineEntry_eq_ok_iff.mp hexamine
      exact Reaches.pure (List.Subset.refl _)

theorem acceptEntries_reaches {identity : ComputationIdentity} {entries : List ManifestEntry}
    (hshort : ∀ entry ∈ entries, entry.filename.length ≤ limit) :
    Reaches files limit (acceptEntries directory quarantineDirectory identity entries progress)
      fun next => next.processedPaths ⊆ entryPaths directory entries ++ progress.processedPaths := by
  induction entries generalizing progress with
  | nil => exact Reaches.pure (List.Subset.refl _)
  | cons entry rest ih =>
      obtain ⟨hentry, hrest⟩ := List.forall_mem_cons.mp hshort
      rw [acceptEntries]
      apply (acceptEntry_reaches hentry).bind
      intro next hnext
      apply (ih hrest).weaken
      intro last hlast other hother
      have := hlast hother
      have := @hnext
      grind [entryPaths]

/-! ## The sweep -/

/-- What is said of a file that the manifest does not name. -/
def orphan : ValidationDiagnostic :=
  ⟨.manifest, .unexpectedBlockFile, "Checkpoint file is not a member of the manifest"⟩

theorem sweepCandidate_reaches (quarantineDirectory : Bytes) (progress : Progress)
    {names : List Bytes} (hshort : IsStray names path → path.filename.length ≤ limit) :
    Reaches files limit (sweepCandidate quarantineDirectory names path progress)
      fun next => next.processedPaths ⊆ path :: progress.processedPaths := by
  rw [sweepCandidate]
  split_ifs with htemporary hstray
  · exact Reaches.pure (List.subset_cons_self _ _)
  · exact rejectFile_reaches (hshort ⟨Bool.eq_false_iff.mpr htemporary, hstray.1, hstray.2⟩)
  · exact Reaches.pure (List.subset_cons_self _ _)

variable {environment : Environment} {content : Bytes} {names : List Bytes}

/-- A stray file is moved away when the sweep comes to it and nothing fails any more. -/
theorem sweepCandidate_gone (hstray : IsStray names path) (hnew : path ∉ progress.processedPaths)
    (hshort : path.filename.length ≤ environment.nameMax)
    (hcontent : files.lookup path = some content)
    (hready : IsReady files environment quarantineDirectory path orphan) :
    Meets (IsFresh files environment) (sweepCandidate quarantineDirectory names path progress)
      (fun _ => Keeps (noGuarantee environment) fun files => files.lookup path = none)
      (fun _ _ => False) := by
  have hfinal : path.IsFinal := .inr ⟨hstray.not_temporary, hstray.extension⟩
  rw [sweepCandidate, if_neg (by simp [hstray.not_temporary]),
    if_pos ⟨hstray.extension, hstray.not_mem⟩, rejectFile, if_neg hnew]
  apply Meets.bind_of (fun found world => found = true ∧ IsFresh files environment world)
  · intro world hworld
    have hfound : world.files.exists_ path = true := by
      rw [FileSystem.exists_, hworld.files_eq, hcontent]
      simp
    have hfits : ¬ path.filename.length > world.environment.nameMax := by
      rw [hworld.environment_eq]
      exact not_lt.mpr hshort
    rw [World.exists_, if_neg hfits]
    exact ⟨hfound, hworld⟩
  intro found
  apply Meets.of_pre
  rintro rfl
  rw [if_pos rfl]
  apply Meets.bind (CheckpointQuarantine.quarantine_gone hfinal hstray.not_temporary hready hcontent
    rfl rfl)
  exact fun _ => Meets.pure fun _ => id

/-- The changes that fail before a stray file is reached. -/
theorem sweepCandidates_gone (quarantineDirectory : Bytes) {candidates : List Path}
    (hmem : path ∈ candidates)
    (hstray : IsStray names path) (hnew : path ∉ progress.processedPaths)
    (hshort : ∀ other ∈ candidates, IsStray names other → other.filename.length ≤ limit)
    (hcontent : files.lookup path = some content) :
    ∃ count, ∀ environment start, limit ≤ environment.nameMax →
      FailsNext environment start count → (∀ n, start + count ≤ n → environment.outcome n = .done) →
        IsReady files environment quarantineDirectory path orphan →
          Meets (IsStalled files environment start)
            (sweepCandidates quarantineDirectory names candidates progress)
            (fun _ => Keeps (noGuarantee environment) fun files => files.lookup path = none)
            (fun _ _ => False) := by
  induction candidates generalizing progress with
  | nil => cases hmem
  | cons head rest ih =>
      obtain ⟨hhead, hrest⟩ := List.forall_mem_cons.mp hshort
      by_cases heq : head = path
      · subst heq
        refine ⟨0, fun environment start hlimit _ hsmooth hready => ?_⟩
        have hframed : FileSystem.IsFramed fun files => files.lookup head = none :=
          fun _ _ hagrees h =>
            (hagrees head (.inr ⟨hstray.not_temporary, hstray.extension⟩)).trans h
        rw [sweepCandidates]
        apply Meets.bind ((sweepCandidate_gone hstray hnew ((hhead hstray).trans hlimit) hcontent
          hready).strengthen fun world h => ?_)
        · intro next
          apply (sweepCandidates_meets (noGuarantee_isFramed environment) hframed
            (fun other _ _ _ => ⟨fun files h => ?_, fun _ _ => id⟩)
              fun other hother h => (hrest other hother h).trans hlimit).weaken fun _ _ h => h.2
          by_cases hother : head = other
          · rw [hother, AList.lookup_erase]
          · rw [AList.lookup_erase_ne hother, h]
        · refine ⟨fun n hn => ?_, h.files_eq, h.environment_eq, h.quarantineSequence,
            h.tempSequence⟩
          rw [h.environment_eq]
          exact hsmooth n (h.operations_eq ▸ hn)
      · have hmem : path ∈ rest := (List.mem_cons.mp hmem).resolve_left (Ne.symm heq)
        obtain ⟨count, next, hreplays, hnext⟩ : Reaches files limit _ _ :=
          sweepCandidate_reaches quarantineDirectory progress hhead
        have hnew : path ∉ next.processedPaths := fun h => by
          rcases List.mem_cons.mp (hnext h) with h | h
          · exact heq h.symm
          · exact hnew h
        obtain ⟨count', hgone⟩ := ih hmem hnew hrest
        refine ⟨count + count', fun environment start hlimit hfails hsmooth hready => ?_⟩
        rw [sweepCandidates]
        apply Meets.bind (hreplays environment start hlimit fun n hn hlt => hfails n hn (by omega))
        intro after
        apply Meets.of_pre
        rintro rfl
        exact hgone environment (start + count) hlimit
          (fun n hn hlt => hfails n (by omega) (by omega))
            (fun n hn => hsmooth n (by omega)) hready

/-- The entries of the manifest are dealt with first. -/
theorem takeEntries_reaches {identity : ComputationIdentity} {manifest : CheckpointManifest}
    (hshort : ∀ entry ∈ manifest.entries, entry.filename.length ≤ limit) :
    Reaches files limit (takeEntries directory quarantineDirectory identity manifest
        (CheckpointManifestValidator.validate manifest identity) progress)
      fun next => next.processedPaths ⊆
        entryPaths directory manifest.entries ++ progress.processedPaths := by
  have hsubset : (CheckpointManifestValidator.validate manifest identity).acceptedEntries ⊆
      manifest.entries := fun _ hmem =>
    (CheckpointManifestValidator.acceptable_of_accepted hmem).1
  rw [takeEntries]
  apply (rejectEntries_reaches hshort).bind
  intro next hnext
  apply (acceptEntries_reaches fun entry hentry => hshort entry (hsubset hentry)).weaken
  intro last hlast other hother
  rcases List.mem_append.mp (hlast hother) with hother | hother
  · exact List.mem_append_left _ (List.map_subset _ hsubset hother)
  · exact hnext hother

theorem takeManifest_reaches (directory quarantineDirectory : Bytes) (identity : ComputationIdentity) (loaded : Bool)
    (plan : CheckpointResumePlan) {manifest : CheckpointManifest} (hshort : ∀ entry ∈ manifest.entries, entry.filename.length ≤ limit) :
    Reaches files limit
      (if loaded then takeEntries directory quarantineDirectory identity manifest
        (CheckpointManifestValidator.validate manifest identity) ⟨plan, []⟩ else pure ⟨plan, []⟩)
      fun next => next.processedPaths ⊆ entryPaths directory manifest.entries := by
  split_ifs
  · exact (takeEntries_reaches hshort).weaken fun _ h => by simpa using h
  · exact Reaches.pure (List.nil_subset _)

/-- A block file that the manifest does not name leaves the directory in some run. -/
theorem create_gone {identity : ComputationIdentity} (hdirectory : directory ≠ [])
    (hquarantine : quarantineDirectory ≠ []) (hpath : path.directory = directory)
    (hstray : IsStray ((loadManifest files directory identity).2.1.entries.map
      fun entry => entry.filename) path)
    (hentries : ∀ entry ∈ (loadManifest files directory identity).2.1.entries,
      entry.filename.length ≤ limit)
    (hshort : ∀ other : Path, other.IsFinal → ∀ bytes, files.lookup other = some bytes →
      other.filename.length ≤ limit)
    (hcontent : files.lookup path = some content) :
    ∃ count, ∀ environment, limit ≤ environment.nameMax → FailsNext environment 0 count →
      (∀ n, count ≤ n → environment.outcome n = .done) →
        IsReady files environment quarantineDirectory path orphan →
          Meets (IsStalled files environment 0) (create directory quarantineDirectory identity)
            (fun _ => Keeps (noGuarantee environment) fun files => files.lookup path = none)
            (fun _ _ => False) := by
  have hguard : throwIf (directory = [] ∨ quarantineDirectory = [])
      (.invalidArgument "Resume planner directories must not be empty") = .ok () :=
    throwIf_eq_ok.mpr (not_or.mpr ⟨hdirectory, hquarantine⟩)
  obtain ⟨count, next, hreplays, hnext⟩ : Reaches files limit _ _ := takeManifest_reaches
    directory quarantineDirectory identity (loadManifest files directory identity).1 ⟨[], [], [], [], (loadManifest files directory identity).2.2 ++
      (CheckpointManifestValidator.validate (loadManifest files directory identity).2.1
        identity).validation.diagnostics⟩ hentries
  have hnew : path ∉ next.processedPaths := by
    intro hmem
    obtain ⟨entry, hentry, rfl⟩ := List.mem_map.mp (hnext hmem)
    exact hstray.not_mem (List.mem_map.mpr ⟨entry, hentry, rfl⟩)
  have hcandidate : path ∈ files.directoryEntries directory :=
    List.mem_filter.mpr ⟨AList.lookup_isSome.mp (by rw [hcontent]; rfl), decide_eq_true hpath⟩
  have hfits (other : Path) (hmem : other ∈ files.directoryEntries directory)
      (h : IsStray ((loadManifest files directory identity).2.1.entries.map
        fun entry => entry.filename) other) : other.filename.length ≤ limit := by
    have hkey : other ∈ files := (List.mem_filter.mp hmem).1
    obtain ⟨bytes, hbytes⟩ := Option.isSome_iff_exists.mp (AList.lookup_isSome.mpr hkey)
    exact hshort other (.inr ⟨h.not_temporary, h.extension⟩) bytes hbytes
  obtain ⟨count', hgone⟩ := sweepCandidates_gone quarantineDirectory hcandidate hstray hnew hfits hcontent
  refine ⟨count + count', fun environment hlimit hfails hsmooth hready => ?_⟩
  rw [create]
  simp only [Action.liftM_eq, hguard]
  apply Meets.bind (Action.ofExcept_meets fun _ _ h => by cases h)
  intro _
  apply Meets.of_pre
  intro _
  apply Meets.bind Action.get_meets
  rintro seen world ⟨rfl, hworld⟩
  rw [hworld.files_eq]
  refine Meets.bind (hreplays environment 0 hlimit fun n hn hlt => hfails n hn (by omega))
    (fun after => ?_) seen hworld
  apply Meets.of_pre
  rintro rfl
  apply Meets.bind Action.get_meets
  rintro current world ⟨rfl, hcurrent⟩
  rw [hcurrent.files_eq]
  refine Meets.bind (hgone environment (0 + count) hlimit
    (fun n hn hlt => hfails n (by omega) (by omega)) (fun n hn => hsmooth n (by omega)) hready)
      (fun _ => ?_) current hcurrent
  exact Meets.pure fun _ => id

end

/-! ## Other computations -/

/-- The manifest on disk, if there is one, names every block file after its block. -/
def HasOwnNames (files : FileSystem) (directory : Bytes) (identity : ComputationIdentity) : Prop :=
  ∀ manifest, IsOnDisk files directory identity manifest → ∀ entry ∈ manifest.entries,
    entry.filename = CheckpointStore.blockFilename identity entry.location

/-- A path that the manifest of a computation refers to. -/
def IsReferenced (files : FileSystem) (directory : Bytes) (identity : ComputationIdentity)
    (path : Path) : Prop :=
  ∃ manifest, IsOnDisk files directory identity manifest ∧
    ∃ entry ∈ manifest.entries, path = ⟨directory, entry.filename⟩

/-- The blocks that a run of the planner takes over; one that throws takes over none. -/
def takenBy (directory quarantineDirectory : Bytes) (identity : ComputationIdentity)
    (world : World) : List AcceptedCheckpoint :=
  match create directory quarantineDirectory identity world with
  | .ok plan _ => plan.acceptedBlocks
  | .error _ _ => []

/-- A run for one computation leaves the referenced files of another as they are, and a later run
for that one takes over what it would have taken over before. -/
def Spares (directory quarantineDirectory : Bytes) (identity other : ComputationIdentity)
    (world : World) : Prop :=
  let after := leftBy (create directory quarantineDirectory identity) world
  (∀ path, IsReferenced world.files directory other path →
    after.files.lookup path = world.files.lookup path) ∧
      takenBy directory quarantineDirectory other after =
        takenBy directory quarantineDirectory other world

section

variable {files : FileSystem} {directory quarantineDirectory : Bytes}
  {identity other : ComputationIdentity} {environment : Environment} {path : Path}

theorem length_decimal_le {n digits : ℕ} (hdigits : 0 < digits) (h : n < 10 ^ digits) :
    (decimal n).length ≤ digits := by
  rw [decimal, List.length_map]
  exact Nat.toDigits_length 10 n digits hdigits h

/-- The names of blocks are short. -/
theorem length_blockFilename_le (identity : ComputationIdentity) (location : BlockLocation) :
    (CheckpointStore.blockFilename identity location).length ≤ 255 := by
  have hword (n : UInt64) : (decimal n.toNat).length ≤ 20 :=
    length_decimal_le (by decide) (n.toNat_lt.trans (by decide))
  have hhalf (n : UInt32) : (decimal n.toNat).length ≤ 10 :=
    length_decimal_le (by decide) (n.toNat_lt.trans (by decide))
  have hshort (n : UInt16) : (decimal n.toNat).length ≤ 5 :=
    length_decimal_le (by decide) (n.toNat_lt.trans (by decide))
  have hstart := hword location.start
  have hstop := hword location.stop
  have hlevel := hhalf location.treeLevel
  have hversion := hshort CheckpointBlockCodec.formatVersion
  have halgorithm := hshort identity.algorithm.code
  have harithmetic := hshort identity.arithmeticVersion
  have hformula := hshort identity.formulaVersion
  have hrequested := hword identity.requestedDigits
  have hguard := hhalf identity.guardDigits
  have hworking := hword identity.workingDigits
  have hterms := hword identity.termCount
  simp only [CheckpointStore.blockFilename, CheckpointStore.identityFilename, List.length_append,
    show (ascii "pqt-v").length = 5 from rfl, show (ascii "-a").length = 2 from rfl,
    show (ascii "-av").length = 3 from rfl, show (ascii "-fv").length = 3 from rfl,
    show (ascii "-d").length = 2 from rfl, show (ascii "-g").length = 2 from rfl,
    show (ascii "-w").length = 2 from rfl, show (ascii "-n").length = 2 from rfl,
    show (ascii "-r").length = 2 from rfl, show (ascii "-").length = 1 from rfl,
    show (ascii "-l").length = 2 from rfl, show (ascii ".checkpoint").length = 11 from rfl]
  omega

theorem HasOwnNames.isFinal (h : HasOwnNames files directory identity)
    (hreferenced : IsReferenced files directory identity path) : path.IsFinal := by
  obtain ⟨manifest, hmanifest, entry, hentry, rfl⟩ := hreferenced
  left
  rw [h manifest hmanifest entry hentry]
  exact CheckpointStore.dots_blockFilename _ _

theorem HasOwnNames.hasShortNames (h : HasOwnNames files directory identity)
    (hlimit : 255 ≤ environment.nameMax) :
    HasShortNames environment files directory identity := by
  intro manifest hmanifest entry hentry
  rw [h manifest hmanifest entry hentry]
  exact (length_blockFilename_le _ _).trans hlimit

/-- Where files with final names only went away, the manifest is as before. -/
theorem isOnDisk_of_old {before : FileSystem} {manifest : CheckpointManifest}
    (hold : ∀ path : Path, path.IsFinal → ∀ bytes, files.lookup path = some bytes →
      before.lookup path = some bytes) (h : IsOnDisk files directory identity manifest) :
    IsOnDisk before directory identity manifest := by
  simp only [IsOnDisk, CheckpointStore.loadManifest, bind_eq_ok] at h ⊢
  obtain ⟨source, hsource, bytes, hbytes, hrest⟩ := h
  refine ⟨source, hsource, bytes, ?_, hrest⟩
  simp only [CheckpointStore.manifestPath, bind_eq_ok, pure_eq_ok, Except.ok.injEq] at hsource
  obtain ⟨_, -, rfl⟩ := hsource
  rw [readFile] at hbytes ⊢
  cases hlookup : files.lookup ⟨directory, CheckpointStore.manifestFilename identity⟩ with
  | none =>
      rw [hlookup] at hbytes
      cases hbytes
  | some content =>
      have hfinal : (⟨directory, CheckpointStore.manifestFilename identity⟩ : Path).IsFinal :=
        .inl (CheckpointStore.dots_manifestFilename identity)
      rw [hlookup] at hbytes
      rw [hold _ hfinal content hlookup]
      exact hbytes

/-- A computation whose referenced files are all gone takes over nothing. -/
theorem takenBy_eq_nil {world : World} (hdirectory : directory ≠ [])
    (hquarantine : quarantineDirectory ≠ []) (hnames : FitsNames world.environment world.files)
    (habsent : ∀ path, IsReferenced world.files directory identity path →
      world.files.lookup path = none) :
    takenBy directory quarantineDirectory identity world = [] := by
  have hsound := create_sound identity hdirectory hquarantine hnames world
    (keeps_noGuarantee rfl rfl)
  rw [takenBy]
  cases hrun : create directory quarantineDirectory identity world with
  | error error after => rfl
  | ok plan after =>
      rw [hrun] at hsound
      obtain ⟨⟨progress, ⟨hprogress, hlisted, -⟩, rfl⟩, -⟩ := hsound
      rw [List.eq_nil_iff_forall_not_mem]
      intro checkpoint hmem
      rw [mem_finish] at hmem
      obtain ⟨block, hresumable, hstored, rfl⟩ := hprogress.taken checkpoint hmem
      rcases hlisted with hnone | ⟨manifest, hmanifest, hsublist⟩
      · rw [hnone] at hmem
        cases hmem
      · have hentry := (CheckpointManifestValidator.acceptable_of_accepted
          (hsublist.subset (List.mem_map_of_mem hmem))).1
        have hnone := habsent (block.path directory) ⟨manifest, hmanifest, _, hentry, rfl⟩
        rw [hstored.lookup] at hnone
        cases hnone

/-- Nothing is damaged where there is nothing to damage. -/
theorem spares_of_absent {world : World} (hdirectory : directory ≠ [])
    (hquarantine : quarantineDirectory ≠ []) (hnames : FitsNames world.environment world.files)
    (hlimit : 255 ≤ world.environment.nameMax)
    (hidentity : HasOwnNames world.files directory identity)
    (hother : HasOwnNames world.files directory other)
    (habsent : ∀ path, IsReferenced world.files directory other path →
      world.files.lookup path = none) :
    Spares directory quarantineDirectory identity other world := by
  have hsound := create_sound identity hdirectory hquarantine hnames world
    (keeps_noGuarantee rfl rfl)
  rw [Spares, leftBy]
  cases hrun : create directory quarantineDirectory identity world with
  | error error after =>
      rw [hrun] at hsound
      exact absurd (hidentity.hasShortNames hlimit) hsound
  | ok plan after =>
      rw [hrun] at hsound
      have hkeeps := hsound.2
      have hgone (path : Path) (h : IsReferenced world.files directory other path) :
          after.files.lookup path = none := by
        by_contra hsome
        obtain ⟨bytes, hbytes⟩ := Option.ne_none_iff_exists'.mp hsome
        have hsame := hkeeps.condition.old path (hother.isFinal h) bytes hbytes
        rw [habsent path h] at hsame
        cases hsame
      have hafter : FitsNames after.environment after.files := by
        intro path hfinal bytes hbytes
        rw [hkeeps.environment]
        exact hnames path hfinal bytes (hkeeps.condition.old path hfinal bytes hbytes)
      refine ⟨fun path h => by rw [hgone path h, habsent path h], ?_⟩
      rw [takenBy_eq_nil hdirectory hquarantine hnames habsent,
        takenBy_eq_nil hdirectory hquarantine hafter]
      rintro path ⟨manifest, hmanifest, hentry⟩
      exact hgone path ⟨manifest, isOnDisk_of_old hkeeps.condition.old hmanifest, hentry⟩

/-! ## A run that does damage -/

/-- An environment in which the first changes fail and the others do not. -/
def failingUntil (count processId nameMax : ℕ) : Environment where
  outcome n := if n < count then .failedBefore else .done
  writeSize _ := 1
  clock _ := 0
  processId := processId
  nameMax := nameMax

theorem candidatePath_processId_inj (directory : Bytes) (source : Path) (reason : RejectionReason)
    {m n : ℕ} (h : candidatePath directory source reason m 0 = candidatePath directory source reason n 0) :
    m = n := by
  simp only [candidatePath, Path.mk.injEq, List.append_assoc, List.append_cancel_left_eq] at h
  exact (decimal_append_inj (endsNumber_append rfl (by decide)) (endsNumber_append rfl (by decide))
    h.2).1

theorem tempPath_processId_inj (directory : Bytes) (source : Path) (reason : RejectionReason)
    {m n : ℕ} (h : AtomicFileCommit.tempPath (diagnosticPath (candidatePath directory source reason m 0)) m 0 =
      AtomicFileCommit.tempPath (diagnosticPath (candidatePath directory source reason n 0)) n 0) :
    m = n := by
  simp only [AtomicFileCommit.tempPath, diagnosticPath, candidatePath, Path.mk.injEq,
    List.append_assoc, List.append_cancel_left_eq] at h
  exact (decimal_append_inj (endsNumber_append rfl (by decide)) (endsNumber_append rfl (by decide))
    h.2).1

/-- Some process id makes the names that a quarantine uses new ones. -/
theorem exists_processId (files : FileSystem) (directory : Bytes) (source : Path)
    (reason : RejectionReason) :
    ∃ processId, files.lookup (candidatePath directory source reason processId 0) = none ∧
      files.lookup (AtomicFileCommit.tempPath (diagnosticPath
        (candidatePath directory source reason processId 0)) processId 0) = none := by
  have hfinite {name : ℕ → Path} (hname : Function.Injective name) :
      {n | name n ∈ files.keys}.Finite :=
    (List.finite_toSet files.keys).preimage hname.injOn
  obtain ⟨processId, hnot⟩ :=
    ((hfinite fun m n => candidatePath_processId_inj directory source reason).union
      (hfinite fun m n => tempPath_processId_inj directory source reason)).exists_notMem
  rw [Set.mem_union, not_or] at hnot
  exact ⟨processId, AList.lookup_eq_none.mpr hnot.1, AList.lookup_eq_none.mpr hnot.2⟩

/-- A referenced file of another computation is a stray one. -/
theorem HasOwnNames.isStray (hidentity : HasOwnNames files directory identity)
    (hother : HasOwnNames files directory other) (hdistinct : identity ≠ other)
    (hreferenced : IsReferenced files directory other path) :
    IsStray ((loadManifest files directory identity).2.1.entries.map
      fun entry => entry.filename) path := by
  obtain ⟨manifest, hmanifest, entry, hentry, rfl⟩ := hreferenced
  have hname := hother manifest hmanifest entry hentry
  refine ⟨CheckpointFileInspector.isTemporary_eq_false ?_, ?_, ?_⟩
  · rw [hname]
    exact CheckpointStore.dots_blockFilename _ _
  · rw [hname]
    exact CheckpointStore.extension_blockFilename _ _ _
  · intro hmem
    obtain ⟨own, hown, heq⟩ := List.mem_map.mp hmem
    rw [loadManifest] at hown
    cases hload : CheckpointStore.loadManifest files directory identity with
    | error error =>
        rw [hload] at hown
        cases hown
    | ok ownManifest =>
        rw [hload] at hown
        have hsame : CheckpointStore.blockFilename identity own.location =
            CheckpointStore.blockFilename other entry.location := by
          rw [← hidentity ownManifest hload own hown, ← hname]
          exact heq
        exact hdistinct (CheckpointStore.blockFilename_inj hsame).1

theorem length_recordBytes_le (source : Path) :
    (recordBytes source orphan).length ≤
      source.directory.length + source.filename.length + 1000 := by
  have htail : (ascii "\n" ++ ascii "stage=" ++ ascii orphan.stage.toString ++ ascii "\n" ++
      ascii "reason=" ++ ascii orphan.reason.toString ++ ascii "\n" ++ ascii "detail=" ++
        CheckpointQuarantine.oneLine (ascii orphan.detail) ++ ascii "\n").length ≤ 900 := by
    decide
  have hhead : (ascii "original=").length = 9 := rfl
  have hslash : (ascii "/").length = 1 := rfl
  simp only [recordBytes, CheckpointQuarantine.oneLine, List.length_append, List.length_map]
    at htail ⊢
  omega

/-- A run for one computation spares the referenced files of another, whatever the operating system
does, exactly when none of them is there. -/
theorem create_spares_iff (files : FileSystem) (directory quarantineDirectory : Bytes)
    (identity other : ComputationIdentity) (hdirectory : directory ≠ [])
    (hquarantine : quarantineDirectory ≠ []) (hlength : directory.length ≤ 2 ^ 62)
    (hdistinct : identity ≠ other) (hidentity : HasOwnNames files directory identity)
    (hother : HasOwnNames files directory other) :
    (∀ world : World, world.files = files → FitsNames world.environment files →
      255 ≤ world.environment.nameMax →
        Spares directory quarantineDirectory identity other world) ↔
      ∀ path, IsReferenced files directory other path → files.lookup path = none := by
  constructor
  · intro hspares path hreferenced
    by_contra hsome
    obtain ⟨content, hcontent⟩ := Option.ne_none_iff_exists'.mp hsome
    have hstray := hidentity.isStray hother hdistinct hreferenced
    obtain ⟨processId, hfree, hfreeTemp⟩ :=
      exists_processId files quarantineDirectory path orphan.reason
    -- a limit that admits all the names of the run
    let limit := 255 + (files.keys.map fun path => path.filename.length).sum +
      (candidatePath quarantineDirectory path orphan.reason processId 0).filename.length
    have hfits (path : Path) (_ : path.IsFinal) (bytes : Bytes)
        (h : files.lookup path = some bytes) : path.filename.length ≤ limit := by
      have hkey : path ∈ files.keys := AList.mem_keys.mp (AList.lookup_isSome.mp (by rw [h]; rfl))
      have hle := List.single_le_sum (fun _ _ => Nat.zero_le _) _
        (List.mem_map_of_mem (f := fun path : Path => path.filename.length) hkey)
      simp only [limit]
      omega
    have hentries : ∀ entry ∈ (loadManifest files directory identity).2.1.entries,
        entry.filename.length ≤ limit := by
      intro entry hentry
      rw [loadManifest] at hentry
      cases hload : CheckpointStore.loadManifest files directory identity with
      | error error =>
          rw [hload] at hentry
          cases hentry
      | ok manifest =>
          rw [hload] at hentry
          rw [hidentity manifest hload entry hentry]
          have := length_blockFilename_le identity entry.location
          simp only [limit]
          omega
    have hpath : path.directory = directory := by
      obtain ⟨_, _, _, _, rfl⟩ := hreferenced
      rfl
    obtain ⟨count, hgone⟩ := create_gone hdirectory hquarantine hpath hstray hentries hfits hcontent
    let environment := failingUntil count processId limit
    have hready : IsReady files environment quarantineDirectory path orphan := by
      have hname : path.filename.length ≤ 255 := by
        obtain ⟨manifest, hmanifest, entry, hentry, rfl⟩ := hreferenced
        rw [hother manifest hmanifest entry hentry]
        exact length_blockFilename_le _ _
      have hrecord := length_recordBytes_le path
      refine ⟨Nat.le_add_left _ _, hfree, hfreeTemp, ?_⟩
      rw [hpath] at hrecord
      rw [AtomicFileCommit.fileSizeMax]
      omega
    have hrun := hgone environment le_rfl (fun n _ hlt => if_pos (by omega))
      (fun n hn => if_neg (not_lt.mpr hn)) hready (World.start environment files none)
        ⟨rfl, rfl, rfl, rfl, rfl⟩
    have hkept := (hspares (World.start environment files none) rfl hfits (by
      simp only [World.start, environment, failingUntil, limit]
      omega)).1 path hreferenced
    rw [leftBy] at hkept
    cases hcreate : create directory quarantineDirectory identity
        (World.start environment files none) with
    | error error after =>
        rw [hcreate] at hrun
        exact hrun
    | ok plan after =>
        rw [hcreate] at hrun hkept
        rw [hrun.condition] at hkept
        exact absurd (hkept.trans hcontent) (by simp)
  · intro habsent world hfiles hnames hlimit
    subst hfiles
    exact spares_of_absent hdirectory hquarantine hnames hlimit hidentity hother habsent

end

/-! ### Two computations in one directory -/

open ModularPQTVerifier (tenDigitsIdentity)

/-- The identity of eleven digits. -/
def elevenDigitsIdentity : ComputationIdentity :=
  { tenDigitsIdentity with requestedDigits := 11, workingDigits := 27 }

/-- All terms of ten digits. -/
def wholeBlock : CheckpointBlock where
  identity := tenDigitsIdentity
  location := ⟨0, 3, 2⟩
  p := (Binary.rangeBlock 0 3).p
  q := (Binary.rangeBlock 0 3).q
  t := (Binary.rangeBlock 0 3).t

/-- A directory with the finished computation of ten digits. -/
def finishedFiles : FileSystem :=
  ((∅ : FileSystem).insert
    ⟨ascii "checkpoints", CheckpointStore.manifestFilename tenDigitsIdentity⟩
    ((CheckpointManifestCodec.encode ⟨tenDigitsIdentity, [wholeBlock.entry]⟩).toOption.getD
      [])).insert (wholeBlock.path (ascii "checkpoints")) (CheckpointBlockCodec.blockBytes wholeBlock)

def finishedWorld : World :=
  World.start willing finishedFiles none

theorem isOnDisk_finished : IsOnDisk finishedFiles (ascii "checkpoints") tenDigitsIdentity
    ⟨tenDigitsIdentity, [wholeBlock.entry]⟩ := by
  rw [IsOnDisk]
  decide +kernel

/-- A run for eleven digits takes the block of ten digits away, with nothing failing. -/
theorem create_takes_foreign_block :
    IsReferenced finishedFiles (ascii "checkpoints") tenDigitsIdentity
        (wholeBlock.path (ascii "checkpoints")) ∧
      (leftBy (create (ascii "checkpoints") (ascii "quarantine") elevenDigitsIdentity)
        finishedWorld).files.lookup (wholeBlock.path (ascii "checkpoints")) = none ∧
      (takenBy (ascii "checkpoints") (ascii "quarantine") tenDigitsIdentity
        finishedWorld).length = 1 ∧
      takenBy (ascii "checkpoints") (ascii "quarantine") tenDigitsIdentity
        (leftBy (create (ascii "checkpoints") (ascii "quarantine") elevenDigitsIdentity)
          finishedWorld) = [] := by
  refine ⟨⟨_, isOnDisk_finished, _, List.mem_singleton_self _, rfl⟩, ?_, ?_, ?_⟩
  · decide +kernel
  · decide +kernel
  · decide +kernel

theorem create_spares_iff_finished :
    (∀ world : World, world.files = finishedFiles → FitsNames world.environment finishedFiles →
      255 ≤ world.environment.nameMax →
        Spares (ascii "checkpoints") (ascii "quarantine") elevenDigitsIdentity tenDigitsIdentity
          world) ↔
      ∀ path, IsReferenced finishedFiles (ascii "checkpoints") tenDigitsIdentity path →
        finishedFiles.lookup path = none := by
  refine create_spares_iff finishedFiles (ascii "checkpoints") (ascii "quarantine")
    elevenDigitsIdentity tenDigitsIdentity (by decide) (by decide) (by decide) (by decide) ?_ ?_
  · intro manifest hmanifest
    have hnone : CheckpointStore.loadManifest finishedFiles (ascii "checkpoints")
        elevenDigitsIdentity = .error (.systemError "cannot get file size") := by
      decide +kernel
    rw [IsOnDisk, hnone] at hmanifest
    cases hmanifest
  · intro manifest hmanifest entry hentry
    have hsame := isOnDisk_finished
    rw [IsOnDisk] at hmanifest hsame
    obtain rfl := Except.ok.inj (hsame.symm.trans hmanifest)
    rw [List.mem_singleton.mp hentry]
    rfl

end GiveMePi.Checkpoint.CheckpointResumePlanner
