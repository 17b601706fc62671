import GiveMePi.Checkpoint.CheckpointResumePlanner
import GiveMePi.Checkpoint.CommitSafety

/-! # What the quarantine keeps

Quarantining a file removes its name and adds names that are not final. It never throws. -/

namespace GiveMePi.Checkpoint

open Library (Meets)
open FileSystem (IsFramed)
open World (Keeps)

variable {guarantee : FileGuarantee} {condition : FileSystem → Prop}

/-- What the removal of a name has to respect. -/
structure AllowsErase (guarantee : FileGuarantee) (condition : FileSystem → Prop) (path : Path) :
    Prop where
  keeps : ∀ files : FileSystem, condition files → condition (files.erase path)
  good : ∀ files : FileSystem, condition files → guarantee.good files →
    guarantee.good (files.erase path)

theorem AllowsErase.of_not_isFinal {path : Path} (hguarantee : guarantee.IsFramed)
    (hcondition : IsFramed condition) (hpath : ¬ path.IsFinal) :
    AllowsErase guarantee condition path where
  keeps _ h := hcondition _ _ (FileSystem.agrees_erase hpath) h
  good _ _ h := hguarantee.good _ _ (FileSystem.agrees_erase hpath) h

namespace CheckpointQuarantine

/-- The name of a quarantined file ends in digits. -/
theorem not_isFinal_candidatePath (directory : Bytes) (source : Path) (reason : RejectionReason)
    (processId sequence : ℕ) :
    ¬ (candidatePath directory source reason processId sequence).IsFinal := by
  intro h
  rcases h with h | h
  · have := dots_candidatePath directory source reason processId sequence
    omega
  · have hextension : (candidatePath directory source reason processId sequence).extension =
        46 :: decimal sequence := by
      rw [candidatePath, List.append_assoc _ (ascii ".")]
      exact Path.extension_append (List.append_ne_nil_of_right_ne_nil _ (decimal_ne_nil _))
        (decimal_ne_nil _) (Path.dots_decimal _)
    rw [hextension] at h
    have hmem : (99 : UInt8) ∈ decimal sequence := by
      rw [(List.cons.inj (h.2 : 46 :: decimal sequence = 46 :: ascii "checkpoint")).2]
      decide
    exact absurd (isDigit_of_mem_decimal hmem) (by decide)

theorem not_isFinal_diagnosticPath {destination : Path}
    (h : 2 ≤ Path.dots destination.filename) :
    ¬ (diagnosticPath destination).IsFinal := by
  intro hfinal
  rcases hfinal with hfinal | hfinal
  · rw [diagnosticPath, Path.dots_append] at hfinal
    omega
  · have hne : destination.filename ≠ [] := by
      intro hnil
      rw [hnil] at h
      exact absurd h (by decide)
    have hextension : (diagnosticPath destination).extension = ascii ".reason" :=
      Path.extension_append hne (by decide) (by decide)
    rw [hextension] at hfinal
    exact absurd hfinal.2 (by decide)

theorem uniqueDestination_meets {directory : Bytes} {source : Path} {reason : RejectionReason}
    (attempts : ℕ) :
    Meets (Keeps guarantee condition) (uniqueDestination directory source reason attempts)
      (fun destination world =>
        (¬ destination.IsFinal ∧ ¬ (diagnosticPath destination).IsFinal) ∧
          world.Keeps guarantee condition)
      (fun _ => Keeps guarantee condition) := by
  induction attempts with
  | zero => exact Meets.throw fun _ => id
  | succ attempts ih =>
      rw [uniqueDestination]
      apply Meets.bind_of (fun _ => Keeps guarantee condition)
      · exact fun _ h => ⟨h.kept, h.environment, h.condition⟩
      intro sequence
      apply Meets.bind Action.get_meets
      intro seen
      refine Meets.strengthen (?_ : Meets (Keeps guarantee condition) _ _ _) fun _ h => h.2
      apply Meets.bind_of (fun _ => Keeps guarantee condition)
      · apply (World.exists_meets _).weaken fun _ _ h => h.2
        exact fun _ h _ => h
      intro found
      apply Meets.ite
      · exact fun _ => ih
      · exact fun _ => Meets.pure fun _ h => ⟨⟨not_isFinal_candidatePath _ _ _ _ _,
          not_isFinal_diagnosticPath (dots_candidatePath _ _ _ _ _)⟩, h⟩

/-- The move to a name that is not final removes the name it had. -/
theorem rename_meets {source destination : Path} {what : String} (hguarantee : guarantee.IsFramed)
    (hcondition : IsFramed condition) (herase : AllowsErase guarantee condition source)
    (hdestination : ¬ destination.IsFinal) :
    Meets (Keeps guarantee condition) (World.rename source destination what)
      (fun _ => Keeps guarantee condition) (fun _ => Keeps guarantee condition) := by
  intro world h
  rw [World.rename]
  cases hlookup : world.files.lookup source with
  | none => exact h
  | some content =>
      have hagrees (files : FileSystem) :
          FileSystem.Agrees (files.erase source)
            ((files.erase source).insert destination content) :=
        FileSystem.agrees_insert hdestination
      apply World.perform_meets _ _ _ _ world h
      · exact fun files hf => hcondition _ _ (hagrees files) (herase.keeps files hf)
      · exact fun files hf =>
          ⟨hf, hcondition _ _ (hagrees files) (herase.keeps files hf)⟩
      · exact fun files hf hgood =>
          hguarantee.good _ _ (hagrees files) (herase.good files hf hgood)
      · intro files _ hstarts
        obtain ⟨_, _, heq, hfinal⟩ := hguarantee.starts _ hstarts
        cases heq
        exact absurd hfinal hdestination

theorem recordAndMove_meets {source destination : Path} {primary : ValidationDiagnostic}
    (hguarantee : guarantee.IsFramed) (hcondition : IsFramed condition)
    (herase : AllowsErase guarantee condition source)
    (hdestination : ¬ destination.IsFinal)
    (hdiagnostic : ¬ (diagnosticPath destination).IsFinal) :
    Meets (Keeps guarantee condition) (recordAndMove source destination primary)
      (fun _ => Keeps guarantee condition) (fun _ => Keeps guarantee condition) := by
  have hrecord := AllowsErase.of_not_isFinal hguarantee hcondition hdiagnostic
  rw [recordAndMove]
  apply Meets.bind (AtomicFileCommit.write_meets_of_not_isFinal hguarantee hcondition hdiagnostic)
  intro _
  apply Action.attempt_meets _ (rename_meets hguarantee hcondition herase hdestination)
  intro e
  apply Meets.bind_of (fun _ => Keeps guarantee condition)
  · exact (World.removeQuietly_meets hguarantee.startsWithRename hrecord.keeps
      hrecord.good).consequence
      (fun _ => id) (fun _ _ => id) fun _ _ => False.elim
  · intro _
    exact Meets.throw fun _ => id

theorem syncDirectories_meets {kept : World → Prop} {fail : Error → World → Prop}
    (hsync : ∀ path : Bytes, Meets kept
      (World.perform (.syncDirectory path) id "sync quarantine directory") (fun _ => kept) fail)
    (directory : Bytes) (source : Path) :
    Meets kept (syncDirectories directory source) (fun _ => kept) fail := by
  rw [syncDirectories]
  apply Meets.bind (hsync _)
  intro _
  apply Meets.ite
  · exact fun _ => hsync _
  · exact fun _ => Meets.pure fun _ => id

/-- Quarantining a file respects what the removal of its name respects. -/
theorem quarantine_meets {directory : Bytes} {source : Path} {rejection : ValidationResult}
    (hguarantee : guarantee.IsFramed) (hcondition : IsFramed condition)
    (herase : AllowsErase guarantee condition source) :
    Meets (Keeps guarantee condition) (quarantine directory source rejection)
      (fun _ => Keeps guarantee condition) (fun _ _ => False) := by
  have hsync : ∀ path : Bytes, Meets (Keeps guarantee condition)
      (World.perform (.syncDirectory path) id "sync quarantine directory")
      (fun _ => Keeps guarantee condition) (fun _ => Keeps guarantee condition) :=
    fun path => World.perform_meets_of_agrees hguarantee hcondition FileSystem.Agrees.refl (by simp)
  have hmove (primary : ValidationDiagnostic) : Meets (Keeps guarantee condition)
      (move directory source primary) (fun _ => Keeps guarantee condition) (fun _ _ => False) := by
    rw [move]
    apply Action.attempt_meets (fun _ => Keeps guarantee condition)
    · apply Meets.bind (World.createDirectories_meets hguarantee hcondition)
      intro _
      apply Meets.bind (uniqueDestination_meets maximumAttempts)
      intro destination
      apply Meets.of_pre
      intro hdestination
      apply Meets.bind (recordAndMove_meets hguarantee hcondition herase hdestination.1
        hdestination.2)
      intro _
      apply Action.attempt_meets (fun _ => Keeps guarantee condition)
      · apply Meets.bind_of (fun _ => Keeps guarantee condition)
        · exact syncDirectories_meets hsync directory source
        · intro _
          exact Meets.pure fun _ => id
      · intro e
        exact Meets.pure fun _ => id
    · intro e
      exact Meets.pure fun _ => id
  rw [quarantine]
  apply Meets.ite
  · exact fun _ => Meets.pure fun _ => id
  intro _
  apply Meets.ite
  · exact fun _ => Meets.pure fun _ => id
  intro _
  cases rejection.diagnostics with
  | nil => exact Meets.pure fun _ => id
  | cons primary rest => exact hmove primary

end CheckpointQuarantine

end GiveMePi.Checkpoint
