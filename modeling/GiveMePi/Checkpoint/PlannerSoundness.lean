import GiveMePi.Checkpoint.EntryAcceptance
import GiveMePi.Checkpoint.QuarantineSafety

/-! # The planner takes over only what it may -/

namespace GiveMePi.Checkpoint.CheckpointResumePlanner

open Library (Meets)
open FileSystem (IsFramed)
open World (Keeps)

/-! ## Rejection -/

namespace Progress

/-- What rejecting files does to a plan. -/
structure Grows (before after : Progress) : Prop where
  accepted : after.plan.acceptedBlocks = before.plan.acceptedBlocks
  rejected : before.plan.rejectedBlocks ⊆ after.plan.rejectedBlocks
  processed : before.processedPaths ⊆ after.processedPaths

theorem Grows.refl (progress : Progress) : Grows progress progress :=
  ⟨rfl, List.Subset.refl _, List.Subset.refl _⟩

theorem Grows.trans {first second third : Progress} (h : Grows first second)
    (h' : Grows second third) : Grows first third :=
  ⟨h'.accepted.trans h.accepted, List.Subset.trans h.rejected h'.rejected,
    List.Subset.trans h.processed h'.processed⟩

/-- Every path that is dealt with is accepted or rejected, and within the limit of names. -/
structure IsSettled (limit : ℕ) (progress : Progress) : Prop where
  covered : ∀ path ∈ progress.processedPaths,
    (∃ accepted ∈ progress.plan.acceptedBlocks, accepted.path = path) ∨
      ∃ rejected ∈ progress.plan.rejectedBlocks, rejected.path = path
  short : ∀ path ∈ progress.processedPaths, path.filename.length ≤ limit

/-- A path is dealt with, by a rejection if it was not before. -/
structure Deals (limit : ℕ) (path : Path) (before after : Progress) : Prop
    extends Grows before after where
  settled : before.IsSettled limit → after.IsSettled limit
  mem : path ∈ after.processedPaths

theorem deals_of_rejected {limit : ℕ} {progress after : Progress} {path : Path}
    {rejected : RejectedCheckpoint}
    (haccepted : after.plan.acceptedBlocks = progress.plan.acceptedBlocks)
    (hrejected : after.plan.rejectedBlocks = progress.plan.rejectedBlocks ++ [rejected])
    (hprocessed : after.processedPaths = path :: progress.processedPaths)
    (hpath : rejected.path = path) (hshort : path.filename.length ≤ limit) :
    Deals limit path progress after where
  accepted := haccepted
  rejected := hrejected ▸ List.subset_append_left _ _
  processed := hprocessed ▸ List.subset_cons_self _ _
  settled := by
    intro hsettled
    refine ⟨fun other hother => ?_, fun other hother => ?_⟩
    · rw [hprocessed] at hother
      rw [haccepted, hrejected]
      rcases List.mem_cons.mp hother with rfl | hother
      · exact Or.inr ⟨rejected, by simp, hpath⟩
      · rcases hsettled.covered other hother with haccepted | hrejected
        · exact Or.inl haccepted
        · obtain ⟨r, hr, hpath⟩ := hrejected
          exact Or.inr ⟨r, List.mem_append_left _ hr, hpath⟩
    · rw [hprocessed] at hother
      rcases List.mem_cons.mp hother with rfl | hother
      · exact hshort
      · exact hsettled.short other hother
  mem := hprocessed ▸ List.mem_cons_self

end Progress

variable {guarantee : FileGuarantee} {condition : FileSystem → Prop}

/-- The rejection of a file throws only for a name that is too long. -/
theorem rejectFile_meets {quarantineDirectory : Bytes} {path : Path} {validation : ValidationResult}
    {progress : Progress} (hguarantee : guarantee.IsFramed) (hcondition : IsFramed condition)
    (herase : path ∉ progress.processedPaths → AllowsErase guarantee condition path) :
    Meets (Keeps guarantee condition) (rejectFile quarantineDirectory path validation progress)
      (fun after world => Progress.Deals guarantee.environment.nameMax path progress after ∧
        world.Keeps guarantee condition)
      (fun _ _ => path.filename.length > guarantee.environment.nameMax) := by
  rw [rejectFile]
  apply Meets.ite
  · intro hprocessed
    exact Meets.pure fun _ h => ⟨⟨Progress.Grows.refl progress, id, hprocessed⟩, h⟩
  intro hprocessed
  apply Meets.bind_of (fun _ world =>
    path.filename.length ≤ guarantee.environment.nameMax ∧ world.Keeps guarantee condition)
  · apply (World.exists_meets fun world h hlong => h.environment ▸ hlong).weaken
    exact fun _ world h => ⟨h.2.environment ▸ h.1, h.2⟩
  intro found
  apply Meets.of_pre
  intro hshort
  apply Meets.ite
  · intro _
    apply Meets.bind ((CheckpointQuarantine.quarantine_meets hguarantee hcondition
      (herase hprocessed)).consequence (fun _ => id) (fun _ _ => id) fun _ _ => False.elim)
    intro outcome
    apply Meets.pure
    intro world h
    refine ⟨?_, h⟩
    split
    · exact Progress.deals_of_rejected rfl rfl rfl rfl hshort
    · exact Progress.deals_of_rejected rfl rfl rfl rfl hshort
  · intro _
    exact Meets.pure fun _ h => ⟨Progress.deals_of_rejected rfl rfl rfl rfl hshort, h⟩

/-- The files that the sweep of the directory rejects. -/
structure IsStray (names : List Bytes) (path : Path) : Prop where
  not_temporary : CheckpointFileInspector.isTemporary path = false
  extension : path.extension = ascii ".checkpoint"
  not_mem : path.filename ∉ names

theorem sweepCandidates_meets {quarantineDirectory : Bytes} {names : List Bytes}
    {candidates : List Path} {progress : Progress} (hguarantee : guarantee.IsFramed)
    (hcondition : IsFramed condition)
    (herase : ∀ path ∈ candidates, IsStray names path → path ∉ progress.processedPaths →
      AllowsErase guarantee condition path)
    (hshort : ∀ path ∈ candidates, IsStray names path →
      path.filename.length ≤ guarantee.environment.nameMax) :
    Meets (Keeps guarantee condition)
      (sweepCandidates quarantineDirectory names candidates progress)
      (fun after world => (Progress.Grows progress after ∧
        (progress.IsSettled guarantee.environment.nameMax →
          after.IsSettled guarantee.environment.nameMax) ∧
          ∀ path ∈ candidates, IsStray names path → path ∈ after.processedPaths) ∧
            world.Keeps guarantee condition)
      (fun _ _ => False) := by
  induction candidates generalizing progress with
  | nil => exact Meets.pure fun _ h => ⟨⟨Progress.Grows.refl progress, id, by simp⟩, h⟩
  | cons path rest ih =>
      rw [sweepCandidates]
      apply Meets.bind_of (fun next world => (Progress.Grows progress next ∧
        (progress.IsSettled guarantee.environment.nameMax →
          next.IsSettled guarantee.environment.nameMax) ∧
          (IsStray names path → path ∈ next.processedPaths)) ∧ world.Keeps guarantee condition)
      · rw [sweepCandidate]
        apply Meets.ite
        · intro htemporary
          refine Meets.pure fun _ h => ⟨⟨⟨rfl, List.Subset.refl _, List.Subset.refl _⟩, ?_, ?_⟩, h⟩
          · exact fun h => ⟨h.covered, h.short⟩
          intro hstray
          rw [hstray.not_temporary] at htemporary
          cases htemporary
        intro htemporary
        apply Meets.ite
        · intro hstray
          have hstray : IsStray names path :=
            ⟨Bool.eq_false_iff.mpr htemporary, hstray.1, hstray.2⟩
          apply (rejectFile_meets hguarantee hcondition
            (herase path List.mem_cons_self hstray)).consequence (fun _ => id)
          · intro next world h
            exact ⟨⟨h.1.toGrows, h.1.settled, fun _ => h.1.mem⟩, h.2⟩
          · intro e world h
            exact h.not_ge (hshort path List.mem_cons_self hstray)
        · intro hstray
          refine Meets.pure fun _ h => ⟨⟨Progress.Grows.refl progress, id, ?_⟩, h⟩
          exact fun h => absurd ⟨h.extension, h.not_mem⟩ hstray
      intro next
      apply Meets.of_pre
      intro hnext
      obtain ⟨hgrows, hcovered, hmem⟩ := hnext
      apply (ih (fun other hother hstray hprocessed => herase other
        (List.mem_cons_of_mem _ hother) hstray fun h => hprocessed (hgrows.processed h))
        fun other hother => hshort other (List.mem_cons_of_mem _ hother)).weaken
      intro after world h
      obtain ⟨⟨hgrows', hcovered', hmem'⟩, hworld⟩ := h
      refine ⟨⟨hgrows.trans hgrows', hcovered' ∘ hcovered, ?_⟩, hworld⟩
      intro other hother hstray
      rcases List.mem_cons.mp hother with rfl | hother
      · exact hgrows'.processed (hmem hstray)
      · exact hmem' other hother hstray

/-! ## Acceptance -/

/-- What a run of the planner leaves of the files: nothing new by a final name, and the accepted
ones as they were. -/
structure Origin (initial : FileSystem) (accepted : List AcceptedCheckpoint) (files : FileSystem) :
    Prop where
  old : ∀ path : Path, path.IsFinal → ∀ bytes, files.lookup path = some bytes →
    initial.lookup path = some bytes
  unmoved : ∀ checkpoint ∈ accepted, files.lookup checkpoint.path = initial.lookup checkpoint.path

/-- The accepted blocks were found in the files. -/
def AreTaken (initial : FileSystem) (directory : Bytes) (identity : ComputationIdentity)
    (accepted : List AcceptedCheckpoint) : Prop :=
  ∀ checkpoint ∈ accepted, ∃ block, IsResumable identity block ∧
    IsStored initial directory block ∧ checkpoint = acceptedOf directory block

/-- A guarantee that promises nothing. -/
def noGuarantee (environment : Environment) : FileGuarantee where
  initially := False
  starts _ := False
  good _ := True
  environment := environment

theorem noGuarantee_isFramed (environment : Environment) : (noGuarantee environment).IsFramed :=
  ⟨fun _ _ _ h => h, fun _ => False.elim⟩

section

variable {initial : FileSystem} {directory quarantineDirectory : Bytes}
  {identity : ComputationIdentity} {environment : Environment} {accepted : List AcceptedCheckpoint}

theorem AreTaken.isFinal (h : AreTaken initial directory identity accepted)
    {checkpoint : AcceptedCheckpoint} (hmem : checkpoint ∈ accepted) :
    checkpoint.path.IsFinal := by
  obtain ⟨block, -, -, rfl⟩ := h checkpoint hmem
  exact Or.inl (block.isFinal_path directory)

theorem Origin.isFramed (h : AreTaken initial directory identity accepted) :
    IsFramed (Origin initial accepted) := by
  intro files files' hagrees horigin
  refine ⟨fun path hfinal bytes hlookup => ?_, fun checkpoint hmem => ?_⟩
  · exact horigin.old path hfinal bytes (hagrees path hfinal ▸ hlookup)
  · rw [hagrees _ (h.isFinal hmem), horigin.unmoved checkpoint hmem]

theorem Origin.allowsErase {path : Path} (h : ∀ checkpoint ∈ accepted, checkpoint.path ≠ path) :
    AllowsErase (noGuarantee environment) (Origin initial accepted) path where
  keeps files horigin := by
    refine ⟨fun other hfinal bytes hlookup => ?_, fun checkpoint hmem => ?_⟩
    · by_cases heq : other = path
      · rw [heq, AList.lookup_erase] at hlookup
        cases hlookup
      · rw [AList.lookup_erase_ne heq] at hlookup
        exact horigin.old other hfinal bytes hlookup
    · rw [AList.lookup_erase_ne (h checkpoint hmem), horigin.unmoved checkpoint hmem]
  good _ _ _ := trivial

/-- The accepted blocks are among the paths that are dealt with. -/
def Progress.Marks (progress : Progress) : Prop :=
  ∀ checkpoint ∈ progress.plan.acceptedBlocks, checkpoint.path ∈ progress.processedPaths

theorem Progress.Grows.marks {before after : Progress} (h : Progress.Grows before after)
    (hmarks : before.Marks) : after.Marks := by
  intro checkpoint hmem
  exact h.processed (hmarks checkpoint (h.accepted ▸ hmem))

theorem Progress.Marks.allowsErase {progress : Progress} {path : Path} (h : progress.Marks)
    (hpath : path ∉ progress.processedPaths) :
    AllowsErase (noGuarantee environment) (Origin initial progress.plan.acceptedBlocks) path :=
  Origin.allowsErase fun checkpoint hmem heq => hpath (heq ▸ h checkpoint hmem)

/-- What the planner knows between two steps. -/
structure IsSound (initial : FileSystem) (directory : Bytes) (identity : ComputationIdentity)
    (limit : ℕ) (progress : Progress) : Prop where
  taken : AreTaken initial directory identity progress.plan.acceptedBlocks
  marks : progress.Marks
  settled : progress.IsSettled limit

theorem IsSound.of_grows {limit : ℕ} {before after : Progress}
    (h : IsSound initial directory identity limit before) (hgrows : Progress.Grows before after)
    (hsettled : before.IsSettled limit → after.IsSettled limit) :
    IsSound initial directory identity limit after :=
  ⟨hgrows.accepted ▸ h.taken, hgrows.marks h.marks, hsettled h.settled⟩

/-- The rejection of a file in a run of the planner. -/
theorem rejectFile_sound {path : Path} {validation : ValidationResult} {progress : Progress}
    (h : IsSound initial directory identity environment.nameMax progress) :
    Meets (Keeps (noGuarantee environment) (Origin initial progress.plan.acceptedBlocks))
      (rejectFile quarantineDirectory path validation progress)
      (fun after world => (IsSound initial directory identity environment.nameMax after ∧
        Progress.Grows progress after ∧ path ∈ after.processedPaths) ∧
          world.Keeps (noGuarantee environment) (Origin initial after.plan.acceptedBlocks))
      (fun _ _ => path.filename.length > environment.nameMax) := by
  apply (rejectFile_meets (noGuarantee_isFramed environment) (Origin.isFramed h.taken)
    h.marks.allowsErase).weaken
  intro after world hafter
  obtain ⟨hdeals, hworld⟩ := hafter
  exact ⟨⟨h.of_grows hdeals.toGrows hdeals.settled, hdeals.toGrows, hdeals.mem⟩,
    hdeals.accepted ▸ hworld⟩

theorem rejectEntries_sound {validation : CheckpointManifestValidation}
    {entries : List ManifestEntry} {progress : Progress}
    (h : IsSound initial directory identity environment.nameMax progress) :
    Meets (Keeps (noGuarantee environment) (Origin initial progress.plan.acceptedBlocks))
      (rejectEntries directory quarantineDirectory validation entries progress)
      (fun after world => (IsSound initial directory identity environment.nameMax after ∧
        Progress.Grows progress after ∧ ∀ entry ∈ entries, entry ∉ validation.acceptedEntries →
          ⟨directory, entry.filename⟩ ∈ after.processedPaths) ∧
          world.Keeps (noGuarantee environment) (Origin initial after.plan.acceptedBlocks))
      (fun _ _ => ∃ entry ∈ entries, entry.filename.length > environment.nameMax) := by
  induction entries generalizing progress with
  | nil => exact Meets.pure fun _ hworld => ⟨⟨h, Progress.Grows.refl progress, by simp⟩, hworld⟩
  | cons entry rest ih =>
      rw [rejectEntries]
      apply Meets.ite
      · intro haccepted
        apply (ih h).consequence (fun _ => id)
        · intro after world hafter
          obtain ⟨⟨hsound, hgrows, hmem⟩, hworld⟩ := hafter
          refine ⟨⟨hsound, hgrows, fun other hother hnot => ?_⟩, hworld⟩
          rcases List.mem_cons.mp hother with rfl | hother
          · exact absurd haccepted hnot
          · exact hmem other hother hnot
        · intro _ _ hlong
          obtain ⟨other, hother, hlong⟩ := hlong
          exact ⟨other, List.mem_cons_of_mem _ hother, hlong⟩
      intro _
      apply Meets.bind ((rejectFile_sound h).consequence (fun _ => id) (fun _ _ => id)
        fun _ _ hlong => ⟨entry, List.mem_cons_self, hlong⟩)
      intro next
      apply Meets.of_pre
      intro hnext
      obtain ⟨hsound, hgrows, hmem⟩ := hnext
      apply (ih hsound).consequence (fun _ => id)
      · intro after world hafter
        obtain ⟨⟨hsound', hgrows', hmem'⟩, hworld⟩ := hafter
        refine ⟨⟨hsound', hgrows.trans hgrows', fun other hother hnot => ?_⟩, hworld⟩
        rcases List.mem_cons.mp hother with rfl | hother
        · exact hgrows'.processed hmem
        · exact hmem' other hother hnot
      · intro _ _ hlong
        obtain ⟨other, hother, hlong⟩ := hlong
        exact ⟨other, List.mem_cons_of_mem _ hother, hlong⟩

/-- What going through entries does to a plan: some of them are accepted, in their order, and all
are dealt with. -/
structure Takes (directory : Bytes) (entries : List ManifestEntry) (before after : Progress) :
    Prop where
  kept : ∃ kept : List AcceptedCheckpoint,
    (kept.map fun checkpoint => checkpoint.manifestEntry).Sublist entries ∧
      after.plan.acceptedBlocks = before.plan.acceptedBlocks ++ kept
  processed : before.processedPaths ⊆ after.processedPaths
  dealt : ∀ entry ∈ entries, ⟨directory, entry.filename⟩ ∈ after.processedPaths

theorem Takes.cons {entry : ManifestEntry} {rest : List ManifestEntry}
    {before next after : Progress} (h : Takes directory [entry] before next)
    (h' : Takes directory rest next after) : Takes directory (entry :: rest) before after := by
  obtain ⟨kept, hsublist, hkept⟩ := h.kept
  obtain ⟨kept', hsublist', hkept'⟩ := h'.kept
  refine ⟨⟨kept ++ kept', ?_, ?_⟩, List.Subset.trans h.processed h'.processed, ?_⟩
  · rw [List.map_append]
    exact hsublist.append hsublist'
  · rw [hkept', hkept, List.append_assoc]
  · intro other hother
    rcases List.mem_cons.mp hother with rfl | hother
    · exact h'.processed (h.dealt other List.mem_cons_self)
    · exact h'.dealt other hother

theorem IsSound.addAccepted {progress : Progress} {block : CheckpointBlock}
    (h : IsSound initial directory identity environment.nameMax progress)
    (hresumable : IsResumable identity block) (hstored : IsStored initial directory block)
    (hshort : (block.path directory).filename.length ≤ environment.nameMax) :
    IsSound initial directory identity environment.nameMax
      (progress.addAccepted (acceptedOf directory block)) := by
  refine ⟨?_, ?_, ?_, ?_⟩
  · intro checkpoint hmem
    rcases List.mem_append.mp hmem with hmem | hmem
    · exact h.taken checkpoint hmem
    · rw [List.mem_singleton] at hmem
      exact ⟨block, hresumable, hstored, hmem⟩
  · intro checkpoint hmem
    rcases List.mem_append.mp hmem with hmem | hmem
    · exact List.mem_cons_of_mem _ (h.marks checkpoint hmem)
    · rw [List.mem_singleton] at hmem
      exact hmem ▸ List.mem_cons_self
  · intro path hpath
    rcases List.mem_cons.mp hpath with rfl | hpath
    · exact Or.inl ⟨_, List.mem_append_right _ List.mem_cons_self, rfl⟩
    · rcases h.settled.covered path hpath with haccepted | hrejected
      · obtain ⟨checkpoint, hmem, heq⟩ := haccepted
        exact Or.inl ⟨checkpoint, List.mem_append_left _ hmem, heq⟩
      · exact Or.inr hrejected
  · intro path hpath
    rcases List.mem_cons.mp hpath with rfl | hpath
    · exact hshort
    · exact h.settled.short path hpath

/-- One entry of the manifest: it is taken over from the first files, or rejected. -/
theorem acceptEntry_sound {entry : ManifestEntry} {progress : Progress}
    (hnames : ∀ path : Path, path.IsFinal → ∀ bytes, initial.lookup path = some bytes →
      path.filename.length ≤ environment.nameMax)
    (h : IsSound initial directory identity environment.nameMax progress) :
    Meets (Keeps (noGuarantee environment) (Origin initial progress.plan.acceptedBlocks))
      (acceptEntry directory quarantineDirectory identity entry progress)
      (fun after world => (IsSound initial directory identity environment.nameMax after ∧
        Takes directory [entry] progress after) ∧
          world.Keeps (noGuarantee environment) (Origin initial after.plan.acceptedBlocks))
      (fun _ _ => entry.filename.length > environment.nameMax) := by
  rw [acceptEntry]
  apply Meets.bind Action.get_meets
  intro seen world hseen
  obtain ⟨rfl, hworld⟩ := hseen
  cases hexamine : examineEntry seen.files ⟨directory, entry.filename⟩ identity entry with
  | error validation =>
      apply (rejectFile_sound h).weaken _ seen hworld
      intro after world hafter
      obtain ⟨⟨hsound, hgrows, hmem⟩, hworld⟩ := hafter
      refine ⟨⟨hsound, ⟨[], by simp, by simp [hgrows.accepted]⟩, hgrows.processed, ?_⟩, hworld⟩
      intro other hother
      rw [List.mem_singleton] at hother
      exact hother ▸ hmem
  | ok checkpoint =>
      obtain ⟨block, hresumable, hfound, hentry, rfl⟩ := examineEntry_eq_ok_iff.mp hexamine
      have hfinal : (block.path directory).IsFinal := Or.inl (block.isFinal_path directory)
      have hlookup := hworld.condition.old _ hfinal _ hfound.lookup
      have hstored : IsStored initial directory block := ⟨hlookup, hfound.length_le⟩
      refine ⟨⟨h.addAccepted hresumable hstored (hnames _ hfinal _ hlookup), ⟨[acceptedOf directory block],
        by simp [acceptedOf, hentry], rfl⟩, List.subset_cons_self _ _, ?_⟩, hworld.kept,
        hworld.environment, hworld.condition.old, ?_⟩
      · intro other hother
        rw [List.mem_singleton] at hother
        rw [hother, hentry]
        exact List.mem_cons_self
      · intro checkpoint hmem
        rcases List.mem_append.mp hmem with hmem | hmem
        · exact hworld.condition.unmoved checkpoint hmem
        · rw [List.mem_singleton] at hmem
          rw [hmem]
          exact hfound.lookup.trans hlookup.symm

theorem acceptEntries_sound {entries : List ManifestEntry} {progress : Progress}
    (hnames : ∀ path : Path, path.IsFinal → ∀ bytes, initial.lookup path = some bytes →
      path.filename.length ≤ environment.nameMax)
    (h : IsSound initial directory identity environment.nameMax progress) :
    Meets (Keeps (noGuarantee environment) (Origin initial progress.plan.acceptedBlocks))
      (acceptEntries directory quarantineDirectory identity entries progress)
      (fun after world => (IsSound initial directory identity environment.nameMax after ∧
        Takes directory entries progress after) ∧
          world.Keeps (noGuarantee environment) (Origin initial after.plan.acceptedBlocks))
      (fun _ _ => ∃ entry ∈ entries, entry.filename.length > environment.nameMax) := by
  induction entries generalizing progress with
  | nil =>
      exact Meets.pure fun _ hworld =>
        ⟨⟨h, ⟨[], by simp, by simp⟩, List.Subset.refl _, by simp⟩, hworld⟩
  | cons entry rest ih =>
      rw [acceptEntries]
      apply Meets.bind ((acceptEntry_sound hnames h).consequence (fun _ => id) (fun _ _ => id)
        fun _ _ hlong => ⟨entry, List.mem_cons_self, hlong⟩)
      intro next
      apply Meets.of_pre
      intro hnext
      apply (ih hnext.1).consequence (fun _ => id)
      · intro after world hafter
        exact ⟨⟨hafter.1.1, hnext.2.cons hafter.1.2⟩, hafter.2⟩
      · intro _ _ hlong
        obtain ⟨other, hother, hlong⟩ := hlong
        exact ⟨other, List.mem_cons_of_mem _ hother, hlong⟩

/-- All entries of a manifest: those that the validator accepts are examined, the others are
rejected. -/
theorem takeEntries_sound {manifest : CheckpointManifest}
    {validation : CheckpointManifestValidation} {progress : Progress}
    (hnames : ∀ path : Path, path.IsFinal → ∀ bytes, initial.lookup path = some bytes →
      path.filename.length ≤ environment.nameMax)
    (hsubset : validation.acceptedEntries ⊆ manifest.entries)
    (h : IsSound initial directory identity environment.nameMax progress) :
    Meets (Keeps (noGuarantee environment) (Origin initial progress.plan.acceptedBlocks))
      (takeEntries directory quarantineDirectory identity manifest validation progress)
      (fun after world => (IsSound initial directory identity environment.nameMax after ∧
        (∃ kept : List AcceptedCheckpoint, (kept.map fun checkpoint =>
          checkpoint.manifestEntry).Sublist validation.acceptedEntries ∧
            after.plan.acceptedBlocks = progress.plan.acceptedBlocks ++ kept) ∧
              ∀ entry ∈ manifest.entries, entry.filename.length ≤ environment.nameMax) ∧
          world.Keeps (noGuarantee environment) (Origin initial after.plan.acceptedBlocks))
      (fun _ _ => ∃ entry ∈ manifest.entries, entry.filename.length > environment.nameMax) := by
  rw [takeEntries]
  apply Meets.bind (rejectEntries_sound h)
  intro next
  apply Meets.of_pre
  intro hnext
  obtain ⟨hsound, hgrows, hmem⟩ := hnext
  apply (acceptEntries_sound hnames hsound).consequence (fun _ => id)
  · intro after world hafter
    obtain ⟨⟨hsound', htakes⟩, hworld⟩ := hafter
    obtain ⟨kept, hsublist, hkept⟩ := htakes.kept
    refine ⟨⟨hsound', ⟨kept, hsublist, hkept.trans (by rw [hgrows.accepted])⟩, ?_⟩, hworld⟩
    intro entry hentry
    by_cases haccepted : entry ∈ validation.acceptedEntries
    · exact hsound'.settled.short _ (htakes.dealt entry haccepted)
    · exact hsound'.settled.short _ (htakes.processed (hmem entry hentry haccepted))
  · intro _ _ hlong
    obtain ⟨other, hother, hlong⟩ := hlong
    exact ⟨other, hsubset hother, hlong⟩

end

end GiveMePi.Checkpoint.CheckpointResumePlanner
