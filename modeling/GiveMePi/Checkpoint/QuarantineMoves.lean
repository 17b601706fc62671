import GiveMePi.Checkpoint.PlannerSoundness

/-! # Where the quarantine leaves a file

A quarantined file is either still under its name or under the path that the outcome names, with a
record next to it. -/

namespace GiveMePi

open Library (Meets)
open World (Keeps)

/-- A change that fails did not take place. -/
def Environment.FailsWithoutEffect (environment : Environment) : Prop :=
  ∀ n, environment.outcome n ≠ .failedAfter

namespace FileSystem

/-- The files of a set of paths are as they were. -/
def SameOn (sheltered : Path → Prop) (before files : FileSystem) : Prop :=
  ∀ path, sheltered path → files.lookup path = before.lookup path

variable {sheltered : Path → Prop} {before files : FileSystem} {path : Path}

theorem SameOn.insert (h : SameOn sheltered before files) (hpath : ¬ sheltered path)
    (content : Bytes) : SameOn sheltered before (files.insert path content) := by
  intro other hother
  have hne : other ≠ path := by
    rintro rfl
    exact hpath hother
  rw [AList.lookup_insert_ne hne, h other hother]

theorem SameOn.erase (h : SameOn sheltered before files) (hpath : ¬ sheltered path) :
    SameOn sheltered before (files.erase path) := by
  intro other hother
  have hne : other ≠ path := by
    rintro rfl
    exact hpath hother
  rw [AList.lookup_erase_ne hne, h other hother]

end FileSystem

open FileSystem (SameOn)

namespace Checkpoint

open CheckpointResumePlanner (noGuarantee)

variable {sheltered : Path → Prop} {before : FileSystem} {environment : Environment}

theorem noGuarantee_startsWithRename : (noGuarantee environment).StartsWithRename :=
  fun _ => False.elim

/-! ## Commits -/

theorem AtomicFileCommit.tempPath_ne (destination : Path) (processId sequence : ℕ) :
    tempPath destination processId sequence ≠ destination := by
  intro h
  have hlength := congrArg (fun path : Path => path.filename.length) h
  have htag : (ascii ".tmp.").length = 5 := rfl
  simp only [tempPath, List.length_append] at hlength
  omega

/-- A commit keeps files that are apart from its destination and from new temporary files. -/
theorem AtomicFileCommit.write_sameOn {destination : Path} {bytes : Bytes}
    (hdestination : ¬ sheltered destination)
    (hpresent : ∀ path, sheltered path → path.directory = destination.directory →
      (before.lookup path).isSome) :
    Meets (Keeps (noGuarantee environment) (SameOn sheltered before)) (write destination bytes)
      (fun _ => Keeps (noGuarantee environment) fun files =>
        SameOn sheltered before files ∧ files.lookup destination = some bytes)
      (fun _ => Keeps (noGuarantee environment) (SameOn sheltered before)) := by
  apply (write_meets_of_temps noGuarantee_startsWithRename _ _ _).consequence (fun _ => id)
    (fun _ _ => id) fun _ _ h => h.mono fun _ hf => hf.elim id And.left
  · intro files processId sequence hfiles hfree
    have htemp : ¬ sheltered (tempPath destination processId sequence) := by
      intro hsheltered
      have hsome := hpresent _ hsheltered rfl
      rw [← hfiles _ hsheltered, hfree] at hsome
      cases hsome
    exact
      { insert := fun _ content h => h.insert htemp content
        erase := fun _ h => h.erase htemp
        eraseAfter := fun _ h => ⟨h.1.erase htemp, by
          rw [AList.lookup_erase_ne (tempPath_ne _ _ _).symm, h.2]⟩
        goodInsert := fun _ _ _ => id
        goodErase := fun _ _ => id }
  · exact fun _ files h => ⟨h.insert hdestination bytes, AList.lookup_insert _⟩
  · exact fun _ _ _ _ => trivial

namespace CheckpointQuarantine

/-! ## Records -/

/-- The name of the record of some file. -/
def IsRecord (path : Path) : Prop :=
  ∃ destination, path = diagnosticPath destination

theorem diagnosticPath_inj {left right : Path} (h : diagnosticPath left = diagnosticPath right) :
    left = right := by
  obtain ⟨directory, filename⟩ := left
  obtain ⟨directory', filename'⟩ := right
  simp only [diagnosticPath, Path.mk.injEq, List.append_cancel_right_eq] at h
  rw [h.1, h.2]

/-- The name of a quarantined file ends in a digit. -/
theorem not_isRecord_candidatePath (directory : Bytes) (source : Path) (reason : RejectionReason)
    (processId sequence : ℕ) :
    ¬ IsRecord (candidatePath directory source reason processId sequence) := by
  rintro ⟨destination, h⟩
  have hname := congrArg (fun path : Path => path.filename.getLast?) h
  have hlast : (diagnosticPath destination).filename.getLast? = some 110 := by
    rw [diagnosticPath, List.getLast?_append_of_ne_nil _ (by decide)]
    decide
  simp only [hlast, candidatePath] at hname
  rw [List.getLast?_append_of_ne_nil _ (decimal_ne_nil sequence)] at hname
  exact absurd (isDigit_of_mem_decimal (List.mem_of_getLast? hname)) (by decide)

/-- What a quarantine keeps: everything elsewhere, and of the files in the quarantine directory
those that are no records, and the records of files that are there. -/
def IsSheltered (before : FileSystem) (directory : Bytes) (path : Path) : Prop :=
  path.directory ≠ directory ∨ (before.lookup path).isSome ∧
    ∀ destination, path = diagnosticPath destination → (before.lookup destination).isSome

/-- The file is under the destination now, with a record, and nothing else has changed. -/
structure HasMoved (before : FileSystem) (directory : Bytes) (source destination : Path)
    (primary : ValidationDiagnostic) (files : FileSystem) : Prop where
  directory_eq : destination.directory = directory
  not_isRecord : ¬ IsRecord destination
  fresh : before.lookup destination = none
  gone : files.lookup source = none
  content : (before.lookup source).isSome ∧ files.lookup destination = before.lookup source
  record : files.lookup (diagnosticPath destination) = some (recordBytes source primary)
  others : SameOn (fun path => path ≠ source ∧ IsSheltered before directory path) before files

/-- What the outcome says of the files. -/
def Reports (before : FileSystem) (directory : Bytes) (source : Path)
    (rejection : ValidationResult) (outcome : QuarantineOutcome) (files : FileSystem) : Prop :=
  match outcome.quarantinedPath with
  | none => SameOn (IsSheltered before directory) before files
  | some destination => CheckpointFileInspector.isTemporary source = false ∧
      ∃ primary, rejection.diagnostics.head? = some primary ∧
        HasMoved before directory source destination primary files

section

variable {directory : Bytes} {source : Path}

/-- A destination that is free, and that no record stands in the way of. -/
structure IsFree (before : FileSystem) (directory : Bytes) (destination : Path) : Prop where
  directory_eq : destination.directory = directory
  not_isRecord : ¬ IsRecord destination
  fresh : before.lookup destination = none

theorem IsFree.not_isSheltered {destination : Path} (h : IsFree before directory destination) :
    ¬ IsSheltered before directory destination := by
  rintro (hdirectory | ⟨hsome, -⟩)
  · exact hdirectory h.directory_eq
  · rw [h.fresh] at hsome
    cases hsome

theorem IsFree.not_isSheltered_diagnosticPath {destination : Path}
    (h : IsFree before directory destination) :
    ¬ IsSheltered before directory (diagnosticPath destination) := by
  rintro (hdirectory | ⟨-, hrecord⟩)
  · exact hdirectory h.directory_eq
  · have hsome := hrecord destination rfl
    rw [h.fresh] at hsome
    cases hsome

theorem uniqueDestination_isFree {reason : RejectionReason} (attempts : ℕ) :
    Meets (Keeps (noGuarantee environment) (SameOn (IsSheltered before directory) before))
      (uniqueDestination directory source reason attempts)
      (fun destination world => IsFree before directory destination ∧
        world.Keeps (noGuarantee environment) (SameOn (IsSheltered before directory) before))
      (fun _ => Keeps (noGuarantee environment)
        (SameOn (IsSheltered before directory) before)) := by
  induction attempts with
  | zero => exact Meets.throw fun _ => id
  | succ attempts ih =>
      rw [uniqueDestination]
      apply Meets.bind_of (fun _ => Keeps (noGuarantee environment)
        (SameOn (IsSheltered before directory) before))
      · exact fun _ h => ⟨h.kept, h.environment, h.condition⟩
      intro sequence
      apply Meets.bind Action.get_meets
      intro seen
      refine Meets.strengthen (?_ : Meets (Keeps (noGuarantee environment)
        (SameOn (IsSheltered before directory) before)) _ _ _) fun _ h => h.2
      have hrecord := not_isRecord_candidatePath directory source reason
        seen.environment.processId sequence
      apply Meets.bind_of (fun found world => (found = false → IsFree before directory
        (candidatePath directory source reason seen.environment.processId sequence)) ∧
          world.Keeps (noGuarantee environment) (SameOn (IsSheltered before directory) before))
      · intro world h
        simp only [World.exists_]
        split_ifs
        · exact h
        · refine ⟨fun hfound => ⟨rfl, hrecord, ?_⟩, h⟩
          simp only [FileSystem.exists_, Bool.or_eq_false_iff] at hfound
          have hnone := Option.isSome_eq_false_iff.mp hfound.2
          rw [Option.isNone_iff_eq_none] at hnone
          by_contra hsome
          have hsheltered : IsSheltered before directory
              (candidatePath directory source reason seen.environment.processId sequence) :=
            .inr ⟨Option.isSome_iff_ne_none.mpr hsome, fun d hd => absurd ⟨d, hd⟩ hrecord⟩
          exact hsome ((h.condition _ hsheltered).symm.trans hnone)
      intro found
      apply Meets.ite
      · intro _
        exact ih.strengthen fun _ h => h.2
      · intro hfound
        exact Meets.pure fun _ h => ⟨h.1 (Bool.eq_false_iff.mpr hfound), h.2⟩

/-- The move itself. A rename that fails leaves the file, and the record is removed. -/
theorem recordAndMove_moves (hclean : environment.FailsWithoutEffect) {destination : Path}
    (hsource : source.directory ≠ directory) (hfree : IsFree before directory destination)
    {primary : ValidationDiagnostic} :
    Meets (Keeps (noGuarantee environment) (SameOn (IsSheltered before directory) before))
      (recordAndMove source destination primary)
      (fun _ => Keeps (noGuarantee environment)
        (HasMoved before directory source destination primary))
      (fun _ => Keeps (noGuarantee environment)
        (SameOn (IsSheltered before directory) before)) := by
  have hpresent (path : Path) (h : IsSheltered before directory path)
      (hdirectory : path.directory = (diagnosticPath destination).directory) :
      (before.lookup path).isSome := by
    rcases h with h | h
    · exact absurd (hdirectory.trans hfree.directory_eq) h
    · exact h.1
  rw [recordAndMove]
  apply Meets.bind (AtomicFileCommit.write_sameOn hfree.not_isSheltered_diagnosticPath hpresent)
  intro _
  apply Action.attempt_meets (fun _ => Keeps (noGuarantee environment)
    (SameOn (IsSheltered before directory) before))
  · intro world h
    rw [World.rename]
    cases hlookup : world.files.lookup source with
    | none => exact h.mono fun _ hf => hf.1
    | some content =>
        simp only [World.perform]
        cases houtcome : world.environment.outcome world.operations with
        | failedBefore => exact ⟨h.kept, h.environment, h.condition.1⟩
        | failedAfter => exact absurd (h.environment ▸ houtcome) (hclean _)
        | done =>
            have hkept : (noGuarantee environment).Kept FileStep.files
                (⟨.rename source destination,
                  (world.files.erase source).insert destination content⟩ :: world.trace)
                ((world.files.erase source).insert destination content) :=
              h.kept.step (fun _ => trivial) fun _ => trivial
            have hsame := h.condition.1 source (.inl hsource)
            have hne : source ≠ destination := fun heq => hsource (heq ▸ hfree.directory_eq)
            have hrecord : diagnosticPath destination ≠ destination := fun heq =>
              hfree.not_isRecord ⟨destination, heq.symm⟩
            refine ⟨hkept, h.environment, hfree.directory_eq, hfree.not_isRecord, hfree.fresh, ?_,
              ⟨?_, ?_⟩, ?_, ?_⟩
            · rw [World.record, AList.lookup_insert_ne hne, AList.lookup_erase]
            · rw [← hsame, hlookup]
              rfl
            · rw [World.record, AList.lookup_insert, ← hsame, hlookup]
            · have hapart : diagnosticPath destination ≠ source := fun heq =>
                hsource (heq ▸ hfree.directory_eq)
              rw [World.record, AList.lookup_insert_ne hrecord, AList.lookup_erase_ne hapart,
                h.condition.2]
            · rintro path ⟨hpath, hsheltered⟩
              have hother : path ≠ destination := fun heq =>
                hfree.not_isSheltered (heq ▸ hsheltered)
              rw [World.record, AList.lookup_insert_ne hother, AList.lookup_erase_ne hpath,
                h.condition.1 path hsheltered]
  · intro e
    apply Meets.bind_of (fun _ => Keeps (noGuarantee environment)
      (SameOn (IsSheltered before directory) before))
    · exact (World.removeQuietly_meets noGuarantee_startsWithRename
        (fun _ h => h.erase hfree.not_isSheltered_diagnosticPath) fun _ _ => id).consequence
          (fun _ => id) (fun _ _ => id) fun _ _ => False.elim
    · intro _
      exact Meets.throw fun _ => id

/-- What the outcome of a quarantine says is so. -/
theorem quarantine_reports (before : FileSystem) (hclean : environment.FailsWithoutEffect)
    (hsource : source.directory ≠ directory) (rejection : ValidationResult) :
    Meets (Keeps (noGuarantee environment) (SameOn (IsSheltered before directory) before))
      (quarantine directory source rejection)
      (fun outcome => Keeps (noGuarantee environment)
        (Reports before directory source rejection outcome))
      (fun _ _ => False) := by
  have hsync (condition : FileSystem → Prop) (path : Bytes) :
      Meets (Keeps (noGuarantee environment) condition)
        (World.perform (.syncDirectory path) id "sync quarantine directory")
        (fun _ => Keeps (noGuarantee environment) condition)
        (fun _ => Keeps (noGuarantee environment) condition) :=
    World.perform_meets (fun _ => id) (fun _ h => ⟨h, h⟩) (fun _ _ => id) fun _ _ => False.elim
  have hstays (outcome : QuarantineOutcome) (h : outcome.quarantinedPath = none) :
      Meets (ε := Error) (Keeps (noGuarantee environment)
        (SameOn (IsSheltered before directory) before)) (pure outcome) (fun outcome =>
          Keeps (noGuarantee environment) (Reports before directory source rejection outcome))
        (fun _ _ => False) :=
    Meets.pure fun _ hworld => hworld.mono fun _ hf => by rw [Reports, h]; exact hf
  rw [quarantine]
  apply Meets.ite
  · exact fun _ => hstays _ rfl
  intro htemporary
  apply Meets.ite
  · exact fun _ => hstays _ rfl
  intro _
  cases hdiagnostics : rejection.diagnostics with
  | nil => exact hstays _ rfl
  | cons primary rest =>
      simp only [move]
      apply Action.attempt_meets (fun _ => Keeps (noGuarantee environment)
        (SameOn (IsSheltered before directory) before))
      · apply Meets.bind_of (fun _ => Keeps (noGuarantee environment)
          (SameOn (IsSheltered before directory) before))
        · exact World.perform_meets (fun _ => id) (fun _ h => ⟨h, h⟩) (fun _ _ => id)
            fun _ _ => False.elim
        intro _
        apply Meets.bind (uniqueDestination_isFree maximumAttempts)
        intro destination
        apply Meets.of_pre
        intro hfree
        apply Meets.bind (recordAndMove_moves hclean hsource hfree)
        intro _
        have hmoved (outcome : QuarantineOutcome) (h : outcome.quarantinedPath = some destination)
            (fail : Error → World → Prop) :
            Meets (ε := Error) (Keeps (noGuarantee environment)
              (HasMoved before directory source destination primary)) (pure outcome)
              (fun outcome => Keeps (noGuarantee environment)
                (Reports before directory source rejection outcome)) fail :=
          Meets.pure fun _ hworld => hworld.mono fun _ hf => by
            rw [Reports, h]
            exact ⟨Bool.eq_false_iff.mpr htemporary, primary, by rw [hdiagnostics]; rfl, hf⟩
        apply Action.attempt_meets (fun _ => Keeps (noGuarantee environment)
          (HasMoved before directory source destination primary))
        · apply Meets.bind_of (fun _ => Keeps (noGuarantee environment)
            (HasMoved before directory source destination primary))
          · exact syncDirectories_meets (hsync _) directory source
          · intro _
            exact hmoved _ rfl _
        · intro e
          exact hmoved _ rfl _
      · intro e
        exact hstays _ rfl

end

end CheckpointQuarantine

end Checkpoint

end GiveMePi
