import GiveMePi.Checkpoint.CommitSafety

/-! # Commits that succeed

Where no change of a file fails and no temporary file of an earlier process with the same id is
left, every commit returns, and leaves no temporary file. -/

namespace GiveMePi

open Library (Meets)

namespace World

/-- The environment of a world, and a condition on its files. -/
structure IsIn (environment : Environment) (condition : FileSystem → Prop) (world : World) :
    Prop where
  environment : world.environment = environment
  condition : condition world.files

variable {environment : Environment} {condition post : FileSystem → Prop}

theorem IsIn.mono {world : World} (h : world.IsIn environment condition)
    (himp : ∀ files, condition files → post files) : world.IsIn environment post :=
  ⟨h.environment, himp _ h.condition⟩

/-- A change takes place. -/
theorem perform_returns (hreliable : environment.IsReliable) {operation : FileOperation}
    {effect : FileSystem → FileSystem} {what : String}
    (heffect : ∀ files, condition files → post (effect files)) :
    Meets (IsIn environment condition) (perform operation effect what)
      (fun _ => IsIn environment post) (fun _ _ => False) := by
  intro world h
  have hdone : world.environment.outcome world.operations = .done := by
    rw [h.environment]
    exact hreliable _
  simp only [perform, hdone]
  exact ⟨h.environment, heffect _ h.condition⟩

end World

namespace Checkpoint.AtomicFileCommit

open World (IsIn)

/-- The name of a temporary file of a process. -/
def IsTempOf (processId : ℕ) (path : Path) : Prop :=
  ∃ destination sequence, path = tempPath destination processId sequence

/-- There is no temporary file of a process. -/
def LacksTemps (processId : ℕ) (files : FileSystem) : Prop :=
  ∀ path, IsTempOf processId path → files.lookup path = none

/-- There is one temporary file of a process. -/
structure HasTemp (processId : ℕ) (temp : Path) (files : FileSystem) : Prop where
  isTemp : IsTempOf processId temp
  content : ∃ content, files.lookup temp = some content
  others : ∀ path, IsTempOf processId path → path ≠ temp → files.lookup path = none

theorem not_isTempOf {path : Path} (h : path.IsFinal) (processId : ℕ) :
    ¬ IsTempOf processId path := by
  rintro ⟨destination, sequence, rfl⟩
  exact not_isFinal_tempPath destination processId sequence h

theorem LacksTemps.create {processId : ℕ} {temp : Path} {files : FileSystem}
    (h : LacksTemps processId files) (htemp : IsTempOf processId temp) (content : Bytes) :
    HasTemp processId temp (files.insert temp content) where
  isTemp := htemp
  content := ⟨content, AList.lookup_insert _⟩
  others path hpath hne := (AList.lookup_insert_ne hne).trans (h path hpath)

theorem HasTemp.write {processId : ℕ} {temp : Path} {files : FileSystem}
    (h : HasTemp processId temp files) (content : Bytes) :
    HasTemp processId temp (files.insert temp content) where
  isTemp := h.isTemp
  content := ⟨content, AList.lookup_insert _⟩
  others path hpath hne := (AList.lookup_insert_ne hne).trans (h.others path hpath hne)

/-- The rename leaves no temporary file. -/
theorem HasTemp.rename {processId : ℕ} {temp destination : Path} {files : FileSystem}
    (h : HasTemp processId temp files) (hdestination : ¬ IsTempOf processId destination)
    (content : Bytes) : LacksTemps processId ((files.erase temp).insert destination content) := by
  intro path hpath
  have hne : path ≠ destination := by
    rintro rfl
    exact hdestination hpath
  rw [AList.lookup_insert_ne hne]
  by_cases htemp : path = temp
  · rw [htemp, AList.lookup_erase]
  · rw [AList.lookup_erase_ne htemp]
    exact h.others path hpath htemp

theorem HasTemp.remove {processId : ℕ} {temp : Path} {files : FileSystem}
    (h : HasTemp processId temp files) : LacksTemps processId (files.erase temp) := by
  intro path hpath
  by_cases htemp : path = temp
  · rw [htemp, AList.lookup_erase]
  · rw [AList.lookup_erase_ne htemp]
    exact h.others path hpath htemp

theorem lacksTemps_erase {processId : ℕ} {path : Path} {files : FileSystem}
    (h : LacksTemps processId files) : LacksTemps processId (files.erase path) := by
  intro other hother
  by_cases heq : other = path
  · rw [heq, AList.lookup_erase]
  · rw [AList.lookup_erase_ne heq]
    exact h other hother

section

variable {environment : Environment} (hreliable : environment.IsReliable)
include hreliable

/-- The first name is free. -/
theorem createTempPath_returns (destination : Path) (attempts : ℕ) :
    Meets (IsIn environment (LacksTemps environment.processId))
      (createTempPath destination (attempts + 1))
      (fun temp => IsIn environment (HasTemp environment.processId temp)) (fun _ _ => False) := by
  rw [createTempPath]
  refine Meets.bind_of (fun _ => IsIn environment (LacksTemps environment.processId)) ?_
    fun sequence => Meets.bind Action.get_meets fun seen => ?_
  · exact fun world h => ⟨h.environment, h.condition⟩
  rintro world ⟨rfl, hworld⟩
  obtain ⟨temp, htemp⟩ : ∃ temp, temp = tempPath destination seen.environment.processId sequence :=
    ⟨_, rfl⟩
  have hisTemp : IsTempOf environment.processId temp :=
    ⟨destination, sequence, by rw [htemp, hworld.environment]⟩
  have hfree : ¬ (seen.files.lookup temp).isSome = true := by
    rw [hworld.condition temp hisTemp]
    simp
  have hcreate : Meets (IsIn environment (LacksTemps environment.processId))
      (World.perform (.create temp) (fun files => files.insert temp [])
        "create checkpoint temp file")
      (fun _ => IsIn environment (HasTemp environment.processId temp)) (fun _ _ => False) :=
    World.perform_returns hreliable fun files h => h.create hisTemp []
  dsimp only
  rw [← htemp, if_neg hfree]
  have hreturn (u : Unit) : Meets (IsIn environment (HasTemp environment.processId temp))
      (pure temp : Action World Path)
      (fun temp => IsIn environment (HasTemp environment.processId temp)) (fun _ _ => False) :=
    Meets.pure fun _ h => h
  exact hcreate.bind hreturn seen hworld

/-- Everything is written, to any file. -/
theorem writeAll_returns_of {file : Path} (condition : Bytes → FileSystem → Prop)
    (hwrite : ∀ files before content, condition before files →
      condition content (files.insert file content))
    {written : Bytes} (remaining : Bytes) (hlength : (written ++ remaining).length ≤ fileSizeMax) :
    Meets (IsIn environment (condition written)) (writeAll file written remaining)
      (fun _ => IsIn environment (condition (written ++ remaining))) (fun _ _ => False) := by
  induction written, remaining using writeAll.induct with
  | case1 written =>
      rw [writeAll, List.append_nil]
      exact Meets.pure fun _ h => h
  | case2 written byte rest ih =>
      have hroom : ¬ written.length ≥ fileSizeMax := by
        rw [List.length_append, List.length_cons] at hlength
        omega
      rw [writeAll, throwIf_neg hroom]
      simp only [Action.liftM_eq, Action.ofExcept_ok, pure_bind]
      refine Meets.bind_of (fun _ => IsIn environment (condition written))
        (fun world h => ⟨h.environment, h.condition⟩) fun size => ?_
      have hwritten : written ++ byte :: rest.take (size - 1) ++ rest.drop (size - 1) =
          written ++ byte :: rest := by
        rw [List.append_assoc, List.cons_append, List.take_append_drop]
      refine Meets.bind (World.perform_returns hreliable fun files h => hwrite files _ _ h)
        fun _ => ?_
      exact hwritten ▸ ih size (hwritten ▸ hlength)

theorem writeAll_returns {temp : Path} (bytes : Bytes) (hlength : bytes.length ≤ fileSizeMax) :
    Meets (IsIn environment (HasTemp environment.processId temp)) (writeAll temp [] bytes)
      (fun _ => IsIn environment (HasTemp environment.processId temp)) (fun _ _ => False) :=
  writeAll_returns_of hreliable (fun _ => HasTemp environment.processId temp)
    (fun _ _ content h => h.write content) bytes hlength

/-- The rename takes the only temporary file away. -/
theorem rename_returns {temp destination : Path}
    (hdestination : ¬ IsTempOf environment.processId destination) (what : String) :
    Meets (IsIn environment (HasTemp environment.processId temp))
      (World.rename temp destination what)
      (fun _ => IsIn environment (LacksTemps environment.processId)) (fun _ _ => False) := by
  intro world h
  obtain ⟨content, hcontent⟩ := h.condition.content
  simp only [World.rename, hcontent]
  exact World.perform_returns hreliable (fun files hfiles => hfiles.rename hdestination content)
    world h

/-- A commit to a file whose name is none of a temporary file returns. -/
theorem write_returns {destination : Path} {bytes : Bytes} (hname : destination.filename ≠ [])
    (hdestination : ¬ IsTempOf environment.processId destination)
    (hlength : bytes.length ≤ fileSizeMax) :
    Meets (IsIn environment (LacksTemps environment.processId)) (write destination bytes)
      (fun _ => IsIn environment (LacksTemps environment.processId)) (fun _ _ => False) := by
  have hkeep {condition : FileSystem → Prop} (operation : FileOperation) (what : String) :
      Meets (IsIn environment condition) (World.perform operation id what)
        (fun _ => IsIn environment condition) (fun _ _ => False) :=
    World.perform_returns hreliable fun _ h => h
  rw [write, throwIf_neg hname]
  simp only [Action.liftM_eq, Action.ofExcept_ok, pure_bind]
  refine Meets.bind (createTempPath_returns hreliable destination 127) fun temp => ?_
  refine Meets.bind ?_ fun _ => hkeep _ _
  refine Action.attempt_meets (fun _ _ => False) ?_ fun error world h => h.elim
  rw [writeAndRename]
  refine Meets.bind (writeAll_returns hreliable bytes hlength) fun _ => ?_
  exact Meets.bind (hkeep _ _) fun _ => Meets.bind (hkeep _ _) fun _ =>
    rename_returns hreliable hdestination _

/-- The removal of a file brings no temporary file back. -/
theorem removeQuietly_returns (path : Path) :
    Meets (IsIn environment (LacksTemps environment.processId)) (World.removeQuietly path)
      (fun _ => IsIn environment (LacksTemps environment.processId)) (fun _ _ => False) := by
  refine Action.attempt_meets (fun _ _ => False) ?_ fun error world h => h.elim
  exact World.perform_returns hreliable fun files h => lacksTemps_erase h

/-! ## Commits of any length -/

theorem writeAll_keepsTemp {temp : Path} (written remaining : Bytes) :
    Meets (IsIn environment (HasTemp environment.processId temp)) (writeAll temp written remaining)
      (fun _ => IsIn environment (HasTemp environment.processId temp))
      (fun _ => IsIn environment (HasTemp environment.processId temp)) := by
  induction written, remaining using writeAll.induct with
  | case1 written =>
      rw [writeAll]
      exact Meets.pure fun _ h => h
  | case2 written byte rest ih =>
      rw [writeAll]
      refine Meets.bind (Action.guard_meets fun _ _ h => h) fun _ => ?_
      refine Meets.bind_of
        (fun _ => IsIn environment (HasTemp environment.processId temp)) ?_ fun size => ?_
      · exact fun world h => ⟨h.environment, h.condition⟩
      have hwrite : Meets (IsIn environment (HasTemp environment.processId temp))
          (World.perform (.write temp)
            (fun files => files.insert temp (written ++ byte :: rest.take (size - 1)))
            "write checkpoint temp file")
          (fun _ => IsIn environment (HasTemp environment.processId temp)) (fun _ _ => False) :=
        World.perform_returns hreliable fun files h => h.write _
      exact Meets.bind (hwrite.consequence (fun _ => id) (fun _ _ => id) fun _ _ h => h.elim)
        fun _ => ih size

/-- What a commit throws, it throws with its temporary file removed. -/
theorem write_lacksTemps {destination : Path} {bytes : Bytes}
    (hdestination : ¬ IsTempOf environment.processId destination) :
    Meets (IsIn environment (LacksTemps environment.processId)) (write destination bytes)
      (fun _ => IsIn environment (LacksTemps environment.processId))
      (fun _ => IsIn environment (LacksTemps environment.processId)) := by
  let calm := IsIn environment (LacksTemps environment.processId)
  have hno {condition : World → Prop} (_ : Error) (world : World) (h : False) : condition world :=
    h.elim
  have hkeep {condition : FileSystem → Prop} (operation : FileOperation) (what : String) :
      Meets (IsIn environment condition) (World.perform operation id what)
        (fun _ => IsIn environment condition) (fun _ _ => False) :=
    World.perform_returns hreliable fun _ h => h
  rw [write]
  refine Meets.bind (Action.guard_meets fun _ _ h => h) fun _ => ?_
  refine Meets.bind ((createTempPath_returns hreliable destination 127).consequence (fun _ => id)
    (fun _ _ => id) hno) fun temp => ?_
  have hwritten : Meets (IsIn environment (HasTemp environment.processId temp))
      (writeAndRename temp destination bytes) (fun _ => calm)
      (fun _ => IsIn environment (HasTemp environment.processId temp)) := by
    rw [writeAndRename]
    refine Meets.bind (writeAll_keepsTemp hreliable [] bytes) fun _ => ?_
    refine Meets.consequence ?_ (fun _ => id) (fun _ _ => id) hno
    exact Meets.bind (hkeep _ _) fun _ => Meets.bind (hkeep _ _) fun _ =>
      rename_returns hreliable hdestination _
  have hremoved : Meets (IsIn environment (HasTemp environment.processId temp))
      (World.removeQuietly temp) (fun _ => calm) fun _ _ => False := by
    refine Action.attempt_meets (fun _ _ => False) ?_ fun error world h => h.elim
    exact World.perform_returns hreliable fun files h => h.remove
  refine Meets.bind (Action.attempt_meets _ hwritten fun error => ?_) fun _ => ?_
  · exact Meets.bind (hremoved.consequence (fun _ => id) (fun _ _ => id) hno) fun _ =>
      Meets.throw fun _ h => h
  · exact (hkeep _ _).consequence (fun _ => id) (fun _ _ => id) hno

end

end Checkpoint.AtomicFileCommit

end GiveMePi
