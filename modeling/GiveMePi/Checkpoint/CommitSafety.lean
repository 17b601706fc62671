import GiveMePi.Checkpoint.CheckpointFilenames
import GiveMePi.Library.CrashSafety
import GiveMePi.Library.ProgramLogic

/-! # What commits of files keep

The names of blocks and manifests are final: only a rename installs one, with all its bytes. What is
said of files by final names is not touched by temporary files, so a guarantee in those terms
survives a crash inside a commit. -/

namespace GiveMePi

open Library (Meets Guarantee)

/-- `try { … } catch (…) { … }` meets what its parts meet. -/
theorem Action.attempt_meets {σ α : Type} {body : Action σ α} {handler : Error → Action σ α}
    {pre : σ → Prop} {post : α → σ → Prop} {fail : Error → σ → Prop} (caught : Error → σ → Prop)
    (hbody : Meets pre body post caught) (hhandler : ∀ e, Meets (caught e) (handler e) post fail) :
    Meets pre (Action.attempt body handler) post fail := by
  intro s hs
  have hrun := hbody s hs
  rw [Action.attempt]
  cases h : body s with
  | ok a s' =>
      rw [h] at hrun
      exact hrun
  | error e s' =>
      rw [h] at hrun
      exact hhandler e s' hrun

/-- A check that does not look at the state. -/
theorem Action.ofExcept_meets {σ α : Type} {x : Except Error α} {pre : σ → Prop}
    {fail : Error → σ → Prop} (hfail : ∀ e s, x = .error e → pre s → fail e s) :
    Meets pre (Action.ofExcept x) (fun a s => x = .ok a ∧ pre s) fail := by
  intro s hs
  cases x with
  | ok a => exact ⟨rfl, hs⟩
  | error e => exact hfail e s rfl hs

/-- A check leaves the state as it is. -/
theorem Action.guard_meets {σ α : Type} {x : Except Error α} {pre : σ → Prop}
    {fail : Error → σ → Prop} (hfail : ∀ e s, pre s → fail e s) :
    Meets pre (Action.ofExcept x) (fun _ => pre) fail :=
  (Action.ofExcept_meets fun e s _ => hfail e s).weaken fun _ _ h => h.2

/-- `get` returns the state. -/
theorem Action.get_meets {σ : Type} {pre : σ → Prop} {fail : Error → σ → Prop} :
    Meets pre (get : Action σ σ) (fun seen s => seen = s ∧ pre s) fail :=
  fun _ hs => ⟨rfl, hs⟩

/-! ## Final names -/

/-- A name with one dot, or one that counts as a block file. -/
def Path.IsFinal (path : Path) : Prop :=
  Path.dots path.filename = 1 ∨
    Checkpoint.CheckpointFileInspector.isTemporary path = false ∧
      path.extension = ascii ".checkpoint"

instance (path : Path) : Decidable path.IsFinal :=
  inferInstanceAs (Decidable (_ ∨ _))

namespace FileSystem

/-- The final names of the second hold what they hold in the first. -/
def Agrees (files files' : FileSystem) : Prop :=
  ∀ path : Path, path.IsFinal → files'.lookup path = files.lookup path

theorem Agrees.refl (files : FileSystem) : files.Agrees files :=
  fun _ _ => rfl

theorem agrees_insert {files : FileSystem} {path : Path} {content : Bytes}
    (h : ¬ path.IsFinal) : files.Agrees (files.insert path content) := by
  intro other hother
  apply AList.lookup_insert_ne
  rintro rfl
  exact h hother

theorem agrees_erase {files : FileSystem} {path : Path} (h : ¬ path.IsFinal) :
    files.Agrees (files.erase path) := by
  intro other hother
  apply AList.lookup_erase_ne
  rintro rfl
  exact h hother

/-- A condition on files that only speaks of final names. -/
def IsFramed (condition : FileSystem → Prop) : Prop :=
  ∀ files files', files.Agrees files' → condition files → condition files'

end FileSystem

open FileSystem (IsFramed)

/-! ## Guarantees on files -/

/-- A guarantee on files, in an environment. -/
structure FileGuarantee extends Guarantee FileStep FileSystem where
  environment : Environment

namespace FileGuarantee

/-- A guarantee that only speaks of final names, and starts only when one is installed. -/
structure IsFramed (guarantee : FileGuarantee) : Prop where
  good : FileSystem.IsFramed guarantee.good
  starts : ∀ step, guarantee.starts step →
    ∃ source destination, step.operation = .rename source destination ∧ destination.IsFinal

/-- The guarantee is not one that a file operation other than a rename starts. -/
def StartsWithRename (guarantee : FileGuarantee) : Prop :=
  ∀ step, guarantee.starts step → ∃ source destination, step.operation = .rename source destination

theorem IsFramed.startsWithRename {guarantee : FileGuarantee} (h : guarantee.IsFramed) :
    guarantee.StartsWithRename := by
  intro step hstarts
  obtain ⟨source, destination, heq, -⟩ := h.starts step hstarts
  exact ⟨source, destination, heq⟩

/-- Whether a file installed at a name may start the guarantee. -/
def StartsAt (guarantee : FileGuarantee) (destination : Path) : Prop :=
  ∃ source files, guarantee.starts ⟨.rename source destination, files⟩

/-- What the installation of a file has to respect. -/
def AllowsInstall (guarantee : FileGuarantee) (condition : FileSystem → Prop) (destination : Path)
    (bytes : Bytes) : Prop :=
  bytes.length ≤ Checkpoint.AtomicFileCommit.fileSizeMax → ∀ files : FileSystem, condition files →
    guarantee.good files ∨ guarantee.StartsAt destination →
      guarantee.good (files.insert destination bytes)

end FileGuarantee

namespace World

/-- A guarantee is kept, and a condition holds of the files. -/
structure Keeps (guarantee : FileGuarantee) (condition : FileSystem → Prop) (world : World) :
    Prop where
  kept : guarantee.Kept FileStep.files world.trace world.files
  environment : world.environment = guarantee.environment
  condition : condition world.files

section

variable {guarantee : FileGuarantee} {condition post fail : FileSystem → Prop} {α : Type}

theorem Keeps.mono {world : World} (h : world.Keeps guarantee condition)
    (himp : ∀ files, condition files → post files) : world.Keeps guarantee post :=
  ⟨h.kept, h.environment, himp _ h.condition⟩

/-- One change: what it does to the files is respected by the guarantee and the conditions. -/
theorem perform_meets {operation : FileOperation} {effect : FileSystem → FileSystem}
    {what : String} (hpost : ∀ files, condition files → post (effect files))
    (hfail : ∀ files, condition files → fail files ∧ fail (effect files))
    (hkeep : ∀ files, condition files → guarantee.good files → guarantee.good (effect files))
    (hstart : ∀ files, condition files → guarantee.starts ⟨operation, effect files⟩ →
      guarantee.good (effect files)) :
    Meets (Keeps guarantee condition) (perform operation effect what)
      (fun _ => Keeps guarantee post) (fun _ => Keeps guarantee fail) := by
  intro world h
  have hstep : guarantee.Kept FileStep.files
      (⟨operation, effect world.files⟩ :: world.trace) (effect world.files) :=
    h.kept.step (hkeep _ h.condition) (hstart _ h.condition)
  rw [perform]
  cases world.environment.outcome world.operations with
  | done => exact ⟨hstep, h.environment, hpost _ h.condition⟩
  | failedBefore => exact ⟨h.kept, h.environment, (hfail _ h.condition).1⟩
  | failedAfter => exact ⟨hstep, h.environment, (hfail _ h.condition).2⟩

/-- A change that no final name shows. -/
theorem perform_meets_of_agrees {operation : FileOperation} {effect : FileSystem → FileSystem}
    {what : String} (hguarantee : guarantee.IsFramed) (hcondition : IsFramed condition)
    (heffect : ∀ files, FileSystem.Agrees files (effect files))
    (hoperation : ∀ source destination, destination.IsFinal →
      operation ≠ .rename source destination) :
    Meets (Keeps guarantee condition) (perform operation effect what)
      (fun _ => Keeps guarantee condition) (fun _ => Keeps guarantee condition) := by
  apply perform_meets
  · exact fun files h => hcondition _ _ (heffect files) h
  · exact fun files h => ⟨h, hcondition _ _ (heffect files) h⟩
  · exact fun files _ h => hguarantee.good _ _ (heffect files) h
  · intro files _ hstarts
    obtain ⟨source, destination, heq, hfinal⟩ := hguarantee.starts _ hstarts
    exact absurd heq (hoperation source destination hfinal)

/-- The removal of a file. -/
theorem removeQuietly_meets {path : Path} (hstarts : guarantee.StartsWithRename)
    (hcondition : ∀ files, condition files → condition (files.erase path))
    (hkeep : ∀ files, condition files → guarantee.good files →
      guarantee.good (files.erase path)) :
    Meets (Keeps guarantee condition) (removeQuietly path) (fun _ => Keeps guarantee condition)
      (fun _ _ => False) := by
  apply Action.attempt_meets (fun _ => Keeps guarantee condition)
  · apply perform_meets
    · exact hcondition
    · exact fun files h => ⟨h, hcondition files h⟩
    · exact hkeep
    · intro files _ hstep
      obtain ⟨source, destination, heq⟩ := hstarts _ hstep
      cases heq
  · intro e
    exact Meets.pure fun _ => id

/-- Looking whether a name exists changes nothing, and throws only for a name that is too long. -/
theorem exists_meets {path : Path} {pre : World → Prop} {fail : Error → World → Prop}
    (hfail : ∀ world, pre world → path.filename.length > world.environment.nameMax →
      fail (.systemError "status") world) :
    Meets pre (exists_ path)
      (fun _ world => path.filename.length ≤ world.environment.nameMax ∧ pre world) fail := by
  intro world h
  rw [exists_]
  by_cases hlong : path.filename.length > world.environment.nameMax
  · rw [if_pos hlong]
    exact hfail world h hlong
  · rw [if_neg hlong]
    exact ⟨not_lt.mp hlong, h⟩

theorem createDirectories_meets {directory : Bytes} (hguarantee : guarantee.IsFramed)
    (hcondition : IsFramed condition) :
    Meets (Keeps guarantee condition) (createDirectories directory)
      (fun _ => Keeps guarantee condition) (fun _ => Keeps guarantee condition) :=
  perform_meets_of_agrees hguarantee hcondition FileSystem.Agrees.refl (by simp)

end

end World

/-! ## Commits -/

namespace Checkpoint.AtomicFileCommit

open World (Keeps)

variable {guarantee : FileGuarantee} {condition post : FileSystem → Prop}

theorem not_isFinal_tempPath (destination : Path) (processId sequence : ℕ) :
    ¬ (tempPath destination processId sequence).IsFinal := by
  intro h
  have htemporary := isTemporary_tempPath destination processId sequence
  rcases h with h | h
  · rw [dots_tempPath] at h
    omega
  · rw [htemporary] at h
    cases h.1

/-- What is done to a temporary file, before and after the commit, is respected. -/
structure AllowsScratch (guarantee : FileGuarantee) (condition post : FileSystem → Prop)
    (path : Path) : Prop where
  insert : ∀ (files : FileSystem) content, condition files → condition (files.insert path content)
  erase : ∀ files : FileSystem, condition files → condition (files.erase path)
  eraseAfter : ∀ files : FileSystem, post files → post (files.erase path)
  goodInsert : ∀ (files : FileSystem) content, condition files → guarantee.good files →
    guarantee.good (files.insert path content)
  goodErase : ∀ files : FileSystem, condition files ∨ post files → guarantee.good files →
    guarantee.good (files.erase path)

/-- The temporary names of a destination that are not taken may be used. -/
def AllowsTemps (guarantee : FileGuarantee) (condition post : FileSystem → Prop)
    (destination : Path) : Prop :=
  ∀ (files : FileSystem) processId sequence, condition files →
    files.lookup (tempPath destination processId sequence) = none →
      AllowsScratch guarantee condition post (tempPath destination processId sequence)

theorem AllowsTemps.of_isFramed (hguarantee : guarantee.IsFramed) (hcondition : IsFramed condition)
    (hpost : IsFramed post) (destination : Path) :
    AllowsTemps guarantee condition post destination := by
  intro _ processId sequence _ _
  have htemp := not_isFinal_tempPath destination processId sequence
  exact
    { insert := fun _ _ => hcondition _ _ (FileSystem.agrees_insert htemp)
      erase := fun _ => hcondition _ _ (FileSystem.agrees_erase htemp)
      eraseAfter := fun _ => hpost _ _ (FileSystem.agrees_erase htemp)
      goodInsert := fun _ _ _ => hguarantee.good _ _ (FileSystem.agrees_insert htemp)
      goodErase := fun _ _ => hguarantee.good _ _ (FileSystem.agrees_erase htemp) }

section

variable (hstarts : guarantee.StartsWithRename)
include hstarts

/-- The temporary file is new, empty and may be used. -/
theorem createTempPath_meets {destination : Path}
    (htemps : AllowsTemps guarantee condition post destination) (attempts : ℕ) :
    Meets (Keeps guarantee condition) (createTempPath destination attempts)
      (fun temp world => AllowsScratch guarantee condition post temp ∧
        world.Keeps guarantee fun files => condition files ∧ files.lookup temp = some [])
      (fun _ => Keeps guarantee condition) := by
  induction attempts with
  | zero => exact Meets.throw fun _ => id
  | succ attempts ih =>
      rw [createTempPath]
      apply Meets.bind_of (fun _ => Keeps guarantee condition)
      · exact fun _ h => ⟨h.kept, h.environment, h.condition⟩
      intro sequence
      apply Meets.bind Action.get_meets
      intro seen world hseen
      obtain ⟨rfl, hworld⟩ := hseen
      refine (Meets.ite (fun _ => ih) fun hfree => ?_ : Meets (Keeps guarantee condition) _ _ _)
        seen hworld
      have hscratch := htemps seen.files seen.environment.processId sequence hworld.condition
        (Option.not_isSome_iff_eq_none.mp hfree)
      apply Meets.bind_of (fun _ => Keeps guarantee fun files =>
        condition files ∧ files.lookup (tempPath destination seen.environment.processId sequence) =
          some [])
      · apply World.perform_meets
        · exact fun files h => ⟨hscratch.insert files [] h, AList.lookup_insert _⟩
        · exact fun files h => ⟨h, hscratch.insert files [] h⟩
        · exact fun files h => hscratch.goodInsert files [] h
        · intro files _ hstep
          obtain ⟨_, _, heq⟩ := hstarts _ hstep
          cases heq
      · intro _
        exact Meets.pure fun world h => ⟨hscratch, h⟩

/-- The temporary file holds the bytes written so far. -/
theorem writeAll_meets {temp : Path} (hscratch : AllowsScratch guarantee condition post temp)
    {written : Bytes} (remaining : Bytes) (hlength : written.length ≤ fileSizeMax) :
    Meets (Keeps guarantee fun files => condition files ∧ files.lookup temp = some written)
      (writeAll temp written remaining)
      (fun _ world => (written ++ remaining).length ≤ fileSizeMax ∧
        world.Keeps guarantee fun files =>
          condition files ∧ files.lookup temp = some (written ++ remaining))
      (fun _ => Keeps guarantee condition) := by
  induction written, remaining using writeAll.induct with
  | case1 written =>
      rw [writeAll, List.append_nil]
      exact Meets.pure fun _ h => ⟨hlength, h⟩
  | case2 written byte rest ih =>
      rw [writeAll]
      simp only [Action.liftM_eq]
      apply Meets.bind (Action.ofExcept_meets fun _ _ _ h => h.mono fun _ hf => hf.1)
      intro _
      apply Meets.of_pre
      intro hroom
      have hroom : written.length < fileSizeMax := not_le.mp (throwIf_eq_ok.mp hroom)
      apply Meets.bind_of (fun size world =>
        size ≤ fileSizeMax - written.length ∧ 1 ≤ size ∧
          world.Keeps guarantee fun files => condition files ∧ files.lookup temp = some written)
      · exact fun _ h => ⟨by omega, by omega, h.kept, h.environment, h.condition⟩
      intro size
      apply Meets.of_pre
      intro hsize
      apply Meets.of_pre
      intro hpos
      apply Meets.bind_of (fun _ => Keeps guarantee fun files => condition files ∧
        files.lookup temp = some (written ++ byte :: rest.take (size - 1)))
      · apply World.perform_meets
        · exact fun files h => ⟨hscratch.insert files _ h.1, AList.lookup_insert _⟩
        · exact fun files h => ⟨h.1, hscratch.insert files _ h.1⟩
        · exact fun files h => hscratch.goodInsert files _ h.1
        · intro files _ hstep
          obtain ⟨_, _, heq⟩ := hstarts _ hstep
          cases heq
      · intro _
        have hwritten : written ++ byte :: rest.take (size - 1) ++ rest.drop (size - 1) =
            written ++ byte :: rest := by
          rw [List.append_assoc, List.cons_append, List.take_append_drop]
        have hlength : (written ++ byte :: rest.take (size - 1)).length ≤ fileSizeMax := by
          have := List.length_take_le (size - 1) rest
          rw [List.length_append, List.length_cons]
          omega
        exact hwritten ▸ ih size hlength

/-- The rename installs the bytes; nothing before it touches more than the temporary file. -/
theorem writeAndRename_meets {temp destination : Path} {bytes : Bytes}
    (hscratch : AllowsScratch guarantee condition post temp)
    (hinstall : bytes.length ≤ fileSizeMax →
      ∀ files, condition files → post (files.insert destination bytes))
    (hallows : guarantee.AllowsInstall condition destination bytes) :
    Meets (Keeps guarantee fun files => condition files ∧ files.lookup temp = some [])
      (writeAndRename temp destination bytes) (fun _ => Keeps guarantee post)
      (fun _ => Keeps guarantee fun files => condition files ∨ post files) := by
  have hsame : ∀ (operation : FileOperation) (what : String),
      (∀ source destination, operation ≠ .rename source destination) →
      Meets (Keeps guarantee fun files => condition files ∧ files.lookup temp = some bytes)
        (World.perform operation id what)
        (fun _ => Keeps guarantee fun files => condition files ∧ files.lookup temp = some bytes)
        (fun _ => Keeps guarantee fun files => condition files ∨ post files) := by
    intro operation what hoperation
    apply World.perform_meets
    · exact fun files => id
    · exact fun files h => ⟨Or.inl h.1, Or.inl h.1⟩
    · exact fun files _ => id
    · intro files _ hstep
      obtain ⟨source, destination, heq⟩ := hstarts _ hstep
      exact absurd heq (hoperation source destination)
  rw [writeAndRename]
  apply Meets.bind ((writeAll_meets hstarts hscratch bytes (Nat.zero_le _)).consequence
    (fun _ => id) (fun _ _ => id) fun _ _ h => h.mono fun _ => Or.inl)
  intro _
  apply Meets.of_pre
  intro hlength
  apply Meets.bind (hsame _ _ (by simp))
  intro _
  apply Meets.bind (hsame _ _ (by simp))
  intro _ world h
  simp only [World.rename, h.condition.2]
  have herase (files : FileSystem) (hf : condition files) : condition (files.erase temp) :=
    hscratch.erase files hf
  apply World.perform_meets _ _ _ _ world (h.mono fun _ hf => hf.1)
  · exact fun files hf => hinstall hlength _ (herase files hf)
  · exact fun files hf => ⟨Or.inl hf, Or.inr (hinstall hlength _ (herase files hf))⟩
  · exact fun files hf hgood => hallows hlength _ (herase files hf)
      (Or.inl (hscratch.goodErase files (Or.inl hf) hgood))
  · exact fun files hf hstep => hallows hlength _ (herase files hf) (Or.inr ⟨_, _, hstep⟩)

/-- A commit installs its bytes or leaves the files as they are up to temporary ones, and every
state on the way is one of the two. -/
theorem write_meets_of_temps {destination : Path} {bytes : Bytes}
    (htemps : AllowsTemps guarantee condition post destination)
    (hinstall : bytes.length ≤ fileSizeMax →
      ∀ files, condition files → post (files.insert destination bytes))
    (hallows : guarantee.AllowsInstall condition destination bytes) :
    Meets (Keeps guarantee condition) (write destination bytes) (fun _ => Keeps guarantee post)
      (fun _ => Keeps guarantee fun files => condition files ∨ post files) := by
  rw [write]
  simp only [Action.liftM_eq]
  apply Meets.bind (Action.guard_meets fun _ _ h => h.mono fun _ => Or.inl)
  intro _
  apply Meets.bind ((createTempPath_meets hstarts htemps maximumAttempts).consequence
    (fun _ => id) (fun _ _ => id) fun _ _ h => h.mono fun _ => Or.inl)
  intro temp
  apply Meets.of_pre
  intro hscratch
  apply Meets.bind_of (fun _ => Keeps guarantee post)
  · apply Action.attempt_meets _ (writeAndRename_meets hstarts hscratch hinstall hallows)
    intro e
    apply Meets.bind_of (fun _ =>
      Keeps guarantee fun files => condition files ∨ post files)
    · have hremove : Meets (Keeps guarantee fun files => condition files ∨ post files)
          (World.removeQuietly temp) _ _ :=
        World.removeQuietly_meets hstarts
          (fun files hf => hf.imp (hscratch.erase files) (hscratch.eraseAfter files))
          (fun files hf => hscratch.goodErase files hf)
      exact hremove.consequence (fun _ => id) (fun _ _ => id) fun _ _ => False.elim
    · intro _
      exact Meets.throw fun _ => id
  · intro _
    apply World.perform_meets
    · exact fun files => id
    · exact fun files h => ⟨Or.inr h, Or.inr h⟩
    · exact fun files _ => id
    · intro files _ hstep
      obtain ⟨_, _, heq⟩ := hstarts _ hstep
      cases heq

end

/-- A commit installs its bytes or leaves the final names as they are. -/
theorem write_meets {destination : Path} {bytes : Bytes} (hguarantee : guarantee.IsFramed)
    (hcondition : IsFramed condition) (hpost : IsFramed post)
    (hinstall : bytes.length ≤ fileSizeMax →
      ∀ files, condition files → post (files.insert destination bytes))
    (hallows : guarantee.AllowsInstall condition destination bytes) :
    Meets (Keeps guarantee condition) (write destination bytes) (fun _ => Keeps guarantee post)
      (fun _ => Keeps guarantee fun files => condition files ∨ post files) :=
  write_meets_of_temps hguarantee.startsWithRename
    (AllowsTemps.of_isFramed hguarantee hcondition hpost destination) hinstall hallows

/-- A commit to a name that is not final shows in none that is. -/
theorem write_meets_of_not_isFinal {destination : Path} {bytes : Bytes}
    (hguarantee : guarantee.IsFramed) (hcondition : IsFramed condition)
    (hdestination : ¬ destination.IsFinal) :
    Meets (Keeps guarantee condition) (write destination bytes)
      (fun _ => Keeps guarantee condition) (fun _ => Keeps guarantee condition) := by
  apply (write_meets hguarantee hcondition hcondition _ _).consequence (fun _ => id)
    (fun _ _ => id) fun _ _ h => h.mono fun _ => Or.rec id id
  · exact fun _ files hf => hcondition _ _ (FileSystem.agrees_insert hdestination) hf
  · intro _ files _ hgood
    apply hguarantee.good _ _ (FileSystem.agrees_insert hdestination)
    rcases hgood with hgood | hstarts
    · exact hgood
    · obtain ⟨_, _, hstarts⟩ := hstarts
      obtain ⟨_, _, heq, hfinal⟩ := hguarantee.starts _ hstarts
      cases heq
      exact absurd hfinal hdestination

end Checkpoint.AtomicFileCommit

end GiveMePi
