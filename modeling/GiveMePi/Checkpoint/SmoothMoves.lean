import GiveMePi.Checkpoint.ResumePlan

/-! # Quarantining when nothing fails

Where no change of the files fails any more and the names for it are free, a rejected file leaves
the checkpoint directory. -/

namespace GiveMePi

open Library (Meets)

/-- From here on no change of the files fails. -/
def World.IsSmooth (world : World) : Prop :=
  ∀ n, world.operations ≤ n → world.environment.outcome n = .done

/-- A state without failures, with a condition on the files. -/
structure World.Calm (condition : FileSystem → Prop) (world : World) : Prop where
  isSmooth : world.IsSmooth
  condition : condition world.files

namespace World.Calm

variable {condition post : FileSystem → Prop} {operation : FileOperation}
  {effect : FileSystem → FileSystem} {what : String} {fail : Error → World → Prop}

theorem perform_meets (h : ∀ files, condition files → post (effect files)) :
    Meets (Calm condition) (perform operation effect what) (fun _ => Calm post) fail := by
  intro world hworld
  simp only [perform, hworld.isSmooth world.operations le_rfl]
  exact ⟨fun n hn => hworld.isSmooth n (Nat.le_of_succ_le hn), h _ hworld.condition⟩

theorem rename_meets {source destination : Path} {content : Bytes}
    (hsource : ∀ files, condition files → files.lookup source = some content)
    (h : ∀ files, condition files → post ((files.erase source).insert destination content)) :
    Meets (Calm condition) (rename source destination what) (fun _ => Calm post) fail := by
  intro world hworld
  simp only [rename, hsource _ hworld.condition]
  exact perform_meets h world hworld

end World.Calm

open World (Calm)

namespace Checkpoint

/-! ## Commits -/

namespace AtomicFileCommit

variable {fail : Error → World → Prop}

/-- The first name for a temporary file is free. -/
def HasFreeTemp (destination : Path) (world : World) : Prop :=
  world.files.lookup (tempPath destination world.environment.processId world.tempSequence) = none

theorem createTempPath_calm {destination : Path} (attempts : ℕ) :
    Meets (fun world => HasFreeTemp destination world ∧ world.Calm fun _ => True)
      (createTempPath destination (attempts + 1))
      (fun temp => Calm fun files => files.lookup temp = some []) fail := by
  rintro world ⟨hfree, hworld⟩
  rw [HasFreeTemp] at hfree
  have hget (world : World) : (get : Action World World) world = .ok world world := rfl
  rw [createTempPath]
  simp only [Bind.bind, EStateM.bind, World.nextTempSequence, hget, hfree, Option.isSome_none,
    Bool.false_eq_true, if_false]
  let temp := tempPath destination world.environment.processId world.tempSequence
  have hcreate : Meets (Calm fun _ => True)
      (World.perform (.create temp) (fun files => files.insert temp [])
        "create checkpoint temp file" >>= fun _ => pure temp)
      (fun temp => Calm fun files => files.lookup temp = some []) fail := by
    apply Meets.bind_of (fun _ => Calm fun files => files.lookup temp = some [])
    · exact World.Calm.perform_meets fun files _ => AList.lookup_insert files
    · exact fun _ => Meets.pure fun _ => id
  exact hcreate _ ⟨hworld.isSmooth, trivial⟩

theorem writeAll_calm {temp : Path} (written remaining : Bytes)
    (hlength : (written ++ remaining).length ≤ fileSizeMax) :
    Meets (Calm fun files => files.lookup temp = some written) (writeAll temp written remaining)
      (fun _ => Calm fun files => files.lookup temp = some (written ++ remaining)) fail := by
  induction written, remaining using writeAll.induct with
  | case1 written =>
      rw [writeAll, List.append_nil]
      exact Meets.pure fun _ => id
  | case2 written byte rest ih =>
      have hroom : ¬ written.length ≥ fileSizeMax := by
        rw [List.length_append, List.length_cons] at hlength
        omega
      rw [writeAll]
      simp only [Action.liftM_eq, throwIf, if_neg hroom]
      apply Meets.bind_of (fun _ => Calm fun files => files.lookup temp = some written)
      · exact Meets.pure fun _ => id
      intro _
      apply Meets.bind_of (fun _ => Calm fun files => files.lookup temp = some written)
      · exact fun _ h => ⟨h.isSmooth, h.condition⟩
      intro size
      apply Meets.bind_of (fun _ => Calm fun files =>
        files.lookup temp = some (written ++ byte :: rest.take (size - 1)))
      · exact World.Calm.perform_meets fun files _ => AList.lookup_insert files
      intro _
      have hwritten : written ++ byte :: rest.take (size - 1) ++ rest.drop (size - 1) =
          written ++ byte :: rest := by
        rw [List.append_assoc, List.cons_append, List.take_append_drop]
      exact hwritten ▸ ih size (hwritten ▸ hlength)

theorem write_calm {destination : Path} {bytes : Bytes} (hname : destination.filename ≠ [])
    (hlength : bytes.length ≤ fileSizeMax) :
    Meets (fun world => HasFreeTemp destination world ∧ world.Calm fun _ => True)
      (write destination bytes) (fun _ => Calm fun _ => True) fail := by
  have hsame (temp : Path) (operation : FileOperation) (what : String) :
      Meets (Calm fun files => files.lookup temp = some bytes) (World.perform operation id what)
        (fun _ => Calm fun files => files.lookup temp = some bytes) fail :=
    World.Calm.perform_meets fun _ => id
  rw [write]
  simp only [Action.liftM_eq, throwIf, if_neg hname]
  apply Meets.bind_of (fun _ world => HasFreeTemp destination world ∧ world.Calm fun _ => True)
  · exact Meets.pure fun _ => id
  intro _
  apply Meets.bind (createTempPath_calm 127)
  intro temp
  apply Meets.bind_of (fun _ => Calm fun _ => True)
  · apply Action.attempt_meets (fun _ _ => False)
    · rw [writeAndRename]
      apply Meets.bind (writeAll_calm [] bytes hlength)
      intro _
      apply Meets.bind (World.Calm.perform_meets fun _ => id)
      intro _
      apply Meets.bind (World.Calm.perform_meets fun _ => id)
      intro _
      exact World.Calm.rename_meets (fun _ => id) fun _ _ => trivial
    · exact fun _ _ => False.elim
  · exact fun _ => World.Calm.perform_meets fun _ => id

end AtomicFileCommit

/-! ## The move -/

namespace CheckpointQuarantine

open CheckpointResumePlanner (keeps_noGuarantee noGuarantee noGuarantee_isFramed)
open World (Keeps)

variable {files : FileSystem} {environment : Environment} {directory : Bytes} {source : Path}
  {content : Bytes} {primary : ValidationDiagnostic} {fail : Error → World → Prop}

/-- The files and the counters are as at the start, and the first names are free and short. -/
structure IsReady (files : FileSystem) (environment : Environment) (directory : Bytes)
    (source : Path) (primary : ValidationDiagnostic) : Prop where
  short : (candidatePath directory source primary.reason environment.processId 0).filename.length ≤
    environment.nameMax
  free : files.lookup (candidatePath directory source primary.reason environment.processId 0) = none
  freeTemp : files.lookup (AtomicFileCommit.tempPath (diagnosticPath
    (candidatePath directory source primary.reason environment.processId 0))
      environment.processId 0) = none
  record : (recordBytes source primary).length ≤ AtomicFileCommit.fileSizeMax

/-- A state with the given files, counters at the start and no failure ahead. -/
structure IsFresh (files : FileSystem) (environment : Environment) (world : World) : Prop where
  isSmooth : world.IsSmooth
  files_eq : world.files = files
  environment_eq : world.environment = environment
  quarantineSequence : world.quarantineSequence = 0
  tempSequence : world.tempSequence = 0

theorem candidatePath_ne (directory : Bytes) (source : Path) (reason : RejectionReason)
    (processId sequence : ℕ) : candidatePath directory source reason processId sequence ≠ source := by
  intro h
  have hlength := congrArg (fun path : Path => path.filename.length) h
  have htag : (ascii ".rejected.").length = 10 := rfl
  simp only [candidatePath, List.length_append] at hlength
  omega

theorem exists_candidatePath {directory : Bytes} {source : Path} {reason : RejectionReason}
    {processId sequence : ℕ}
    (h : files.lookup (candidatePath directory source reason processId sequence) = none) :
    files.exists_ (candidatePath directory source reason processId sequence) = false := by
  have hdots := dots_candidatePath directory source reason processId sequence
  have hlength : 10 ≤ (candidatePath directory source reason processId sequence).filename.length := by
    have htag : (ascii ".rejected.").length = 10 := rfl
    simp only [candidatePath, List.length_append]
    omega
  have hshort (text : String) (htext : (ascii text).length ≤ 2) :
      (candidatePath directory source reason processId sequence).filename ≠ ascii text := by
    intro heq
    rw [heq] at hlength
    omega
  rw [FileSystem.exists_, h, decide_eq_false (hshort "." (by decide)),
    decide_eq_false (hshort ".." (by decide))]
  rfl

/-- What is known when the destination is chosen. -/
def IsChosen (environment : Environment) (source : Path) (content : Bytes) (destination : Path)
    (world : World) : Prop :=
  (AtomicFileCommit.HasFreeTemp (diagnosticPath destination) world ∧ world.Calm fun _ => True) ∧
    world.Keeps (noGuarantee environment) fun files => files.lookup source = some content

/-- The first name is taken. -/
theorem uniqueDestination_fresh (hready : IsReady files environment directory source primary)
    (hcontent : files.lookup source = some content) (attempts : ℕ) :
    Meets (IsFresh files environment)
      (uniqueDestination directory source primary.reason (attempts + 1))
      (fun destination world => destination =
        candidatePath directory source primary.reason environment.processId 0 ∧
          IsChosen environment source content destination world) fail := by
  rintro world ⟨hsmooth, rfl, rfl, hquarantine, htemp⟩
  have hexists := exists_candidatePath hready.free
  have hshort := not_lt.mpr hready.short
  have hget (world : World) : (get : Action World World) world = .ok world world := rfl
  rw [uniqueDestination]
  simp only [World.nextQuarantineSequence, World.exists_, hget, Bind.bind, EStateM.bind,
    hquarantine, gt_iff_lt, hshort, if_false, hexists, Bool.false_eq_true, Pure.pure, EStateM.pure]
  refine ⟨trivial, ⟨?_, hsmooth, trivial⟩, keeps_noGuarantee rfl hcontent⟩
  have hfree : world.files.lookup (AtomicFileCommit.tempPath (diagnosticPath (candidatePath directory
      source primary.reason world.environment.processId 0)) world.environment.processId
        world.tempSequence) = none := by
    rw [htemp]
    exact hready.freeTemp
  exact hfree

/-- The record is written and the file is moved. -/
theorem recordAndMove_calm {destination : Path} (hfinal : source.IsFinal)
    (hne : destination ≠ source) (hdiagnostic : ¬ (diagnosticPath destination).IsFinal)
    (hrecord : (recordBytes source primary).length ≤ AtomicFileCommit.fileSizeMax) :
    Meets (IsChosen environment source content destination)
      (recordAndMove source destination primary)
      (fun _ => Calm fun files => files.lookup source = none) fail := by
  have hframed : FileSystem.IsFramed fun files => files.lookup source = some content :=
    fun files files' hagrees h => (hagrees source hfinal).trans h
  have hname : (diagnosticPath destination).filename ≠ [] :=
    List.append_ne_nil_of_right_ne_nil _ (by decide)
  rw [recordAndMove]
  apply Meets.bind_of (fun _ => Calm fun files => files.lookup source = some content)
  · have hcalm : Meets _ _ _ fun (_ : Error) _ => False :=
      AtomicFileCommit.write_calm hname hrecord
    apply (hcalm.and (AtomicFileCommit.write_meets_of_not_isFinal
      (noGuarantee_isFramed environment) hframed hdiagnostic)).consequence (fun _ => id)
    · exact fun _ world h => ⟨h.1.isSmooth, h.2.condition⟩
    · exact fun _ _ h => h.1.elim
  intro _
  apply Action.attempt_meets (fun _ _ => False)
  · apply World.Calm.rename_meets (fun _ => id)
    intro files _
    rw [AList.lookup_insert_ne hne.symm, AList.lookup_erase]
  · exact fun _ _ => False.elim

/-- A rejected file is gone afterwards. -/
theorem quarantine_gone (hfinal : source.IsFinal)
    (htemporary : CheckpointFileInspector.isTemporary source = false)
    (hready : IsReady files environment directory source primary)
    (hcontent : files.lookup source = some content) {rejection : ValidationResult}
    (hrejected : rejection.isRejected = true) {rest : List ValidationDiagnostic}
    (hdiagnostics : rejection.diagnostics = primary :: rest) :
    Meets (IsFresh files environment) (quarantine directory source rejection)
      (fun _ => Keeps (noGuarantee environment) fun files => files.lookup source = none)
      (fun _ _ => False) := by
  have hsync (path : Bytes) : Meets (ε := Error) (Calm fun files => files.lookup source = none)
      (World.perform (.syncDirectory path) id "sync quarantine directory")
      (fun _ => Calm fun files => files.lookup source = none) fun _ _ => False :=
    World.Calm.perform_meets fun _ => id
  have hgone : Meets (IsFresh files environment) (quarantine directory source rejection)
      (fun _ => Calm fun files => files.lookup source = none) fun _ _ => False := by
    simp only [quarantine, htemporary, hrejected, hdiagnostics, Bool.false_eq_true,
      Bool.true_eq_false, if_false, move]
    apply Action.attempt_meets (fun _ _ => False) _ fun _ _ => False.elim
    apply Meets.bind_of (fun _ => IsFresh files environment)
    · intro world h
      simp only [World.createDirectories, World.perform, h.isSmooth world.operations le_rfl]
      exact ⟨fun n hn => h.isSmooth n (Nat.le_of_succ_le hn), h.files_eq, h.environment_eq,
        h.quarantineSequence, h.tempSequence⟩
    intro _
    apply Meets.bind (uniqueDestination_fresh hready hcontent 127)
    intro destination
    apply Meets.of_pre
    rintro rfl
    apply Meets.bind (recordAndMove_calm hfinal (candidatePath_ne _ _ _ _ _)
      (not_isFinal_diagnosticPath (dots_candidatePath _ _ _ _ _)) hready.record)
    intro _
    apply Action.attempt_meets (fun _ _ => False) _ fun _ _ => False.elim
    apply Meets.bind_of (fun _ => Calm fun files => files.lookup source = none)
    · exact syncDirectories_meets hsync directory source
    · exact fun _ => Meets.pure fun _ => id
  have hkeeps : Meets (Keeps (noGuarantee environment) fun _ => True)
      (quarantine directory source rejection)
      (fun _ => Keeps (noGuarantee environment) fun _ => True) fun _ _ => False :=
    quarantine_meets (noGuarantee_isFramed environment) (fun _ _ _ _ => trivial)
      ⟨fun _ _ => trivial, fun _ _ _ => trivial⟩
  apply (hgone.and hkeeps).consequence
  · exact fun world h => ⟨h, keeps_noGuarantee h.environment_eq trivial⟩
  · exact fun _ world h => keeps_noGuarantee h.2.environment h.1.condition
  · exact fun _ _ h => h.1

end CheckpointQuarantine

end Checkpoint

end GiveMePi
