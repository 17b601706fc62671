import GiveMePi.Checkpoint.QuarantineMoves

/-! # What a plan says of the files

Every file of the checkpoint directory is where it was, or under the path that the plan reports. -/

namespace GiveMePi.Checkpoint.CheckpointResumePlanner

open CheckpointQuarantine (HasMoved IsRecord IsSheltered Reports diagnosticPath recordBytes)
open FileSystem (SameOn)
open Library (Meets)
open World (Keeps)

/-! ## The account -/

/-- A rejected file is under the destination now, with a record. -/
structure IsQuarantined (before : FileSystem) (directory quarantineDirectory : Bytes)
    (rejected : RejectedCheckpoint) (destination : Path) (files : FileSystem) : Prop where
  directory_eq : rejected.path.directory = directory
  not_temporary : CheckpointFileInspector.isTemporary rejected.path = false
  destination_directory : destination.directory = quarantineDirectory
  not_isRecord : ¬ IsRecord destination
  gone : files.lookup rejected.path = none
  content : (before.lookup rejected.path).isSome ∧
    files.lookup destination = before.lookup rejected.path
  record : ∃ primary, rejected.validation.diagnostics.head? = some primary ∧
    files.lookup (diagnosticPath destination) = some (recordBytes rejected.path primary)

/-- The files against the rejections: what is not reported as moved is as before, and no two files
went to one path. -/
structure Accounts (before : FileSystem) (directory quarantineDirectory : Bytes)
    (rejections : List RejectedCheckpoint) (files : FileSystem) : Prop where
  stays : ∀ path : Path, path.directory = directory →
    (∀ rejected ∈ rejections, rejected.path = path → rejected.quarantinedPath = none) →
      files.lookup path = before.lookup path
  moves : ∀ rejected ∈ rejections, ∀ destination, rejected.quarantinedPath = some destination →
    IsQuarantined before directory quarantineDirectory rejected destination files
  once : (rejections.map fun rejected => rejected.path).Nodup
  apart : ∀ rejected ∈ rejections, ∀ other ∈ rejections, ∀ destination,
    rejected.quarantinedPath = some destination → other.quarantinedPath = some destination →
      rejected = other

section

variable {before : FileSystem} {directory quarantineDirectory : Bytes}
  {rejections : List RejectedCheckpoint} {files after : FileSystem} {path : Path}
  {validation : ValidationResult} {outcome : QuarantineOutcome}
  {operation : Option ValidationResult}

theorem Accounts.of_no_rejection : Accounts before directory quarantineDirectory [] before where
  stays _ _ _ := rfl
  moves := by simp
  once := List.nodup_nil
  apart := by simp

/-- What is in the checkpoint directory, or was quarantined, is sheltered from the next move. -/
theorem Accounts.isSheltered (h : Accounts before directory quarantineDirectory rejections files)
    {rejected : RejectedCheckpoint} (hmem : rejected ∈ rejections) {destination : Path}
    (hmoved : rejected.quarantinedPath = some destination) :
    IsSheltered files quarantineDirectory destination ∧
      IsSheltered files quarantineDirectory (diagnosticPath destination) := by
  have hquarantined := h.moves rejected hmem destination hmoved
  have hsome : (files.lookup destination).isSome := by
    rw [hquarantined.content.2]
    exact hquarantined.content.1
  obtain ⟨primary, -, hrecord⟩ := hquarantined.record
  refine ⟨.inr ⟨hsome, fun other heq => absurd ⟨other, heq⟩ hquarantined.not_isRecord⟩,
    .inr ⟨by rw [hrecord]; rfl, fun other heq => ?_⟩⟩
  exact CheckpointQuarantine.diagnosticPath_inj heq ▸ hsome

/-- A quarantined file is not touched by what keeps the sheltered paths. -/
theorem Accounts.isQuarantined_of_sameOn
    (h : Accounts before directory quarantineDirectory rejections files)
    (hdirectories : directory ≠ quarantineDirectory) {kept : Path → Prop}
    (hsame : SameOn kept files after) {rejected : RejectedCheckpoint} (hmem : rejected ∈ rejections)
    {destination : Path} (hmoved : rejected.quarantinedPath = some destination)
    (hkept : ∀ other, other = rejected.path ∨ other.directory = quarantineDirectory →
      IsSheltered files quarantineDirectory other → kept other) :
    IsQuarantined before directory quarantineDirectory rejected destination after := by
  have hquarantined := h.moves rejected hmem destination hmoved
  obtain ⟨hdestination, hdiagnostic⟩ := h.isSheltered hmem hmoved
  obtain ⟨primary, hhead, hrecord⟩ := hquarantined.record
  have hdirectory := hquarantined.destination_directory
  have hsource : IsSheltered files quarantineDirectory rejected.path :=
    .inl (hquarantined.directory_eq ▸ hdirectories)
  refine
    { hquarantined with
      gone := ?_
      content := ⟨hquarantined.content.1, ?_⟩
      record := ⟨primary, hhead, ?_⟩ }
  · rw [hsame _ (hkept _ (.inl rfl) hsource), hquarantined.gone]
  · rw [hsame _ (hkept _ (.inr hdirectory) hdestination), hquarantined.content.2]
  · rw [hsame _ (hkept (diagnosticPath destination) (.inr hdirectory) hdiagnostic), hrecord]

/-- A rejection with a destination of its own is apart from those before it. -/
theorem Accounts.apart_append (h : Accounts before directory quarantineDirectory rejections files)
    {last : RejectedCheckpoint}
    (hfresh : ∀ destination, last.quarantinedPath = some destination →
      ∀ rejected ∈ rejections, rejected.quarantinedPath ≠ some destination) :
    ∀ rejected ∈ rejections ++ [last], ∀ other ∈ rejections ++ [last], ∀ destination,
      rejected.quarantinedPath = some destination → other.quarantinedPath = some destination →
        rejected = other := by
  intro rejected hmem other hother destination hrejected hsame
  rw [List.mem_append, List.mem_singleton] at hmem hother
  rcases hmem with hmem | rfl
  · rcases hother with hother | rfl
    · exact h.apart rejected hmem other hother destination hrejected hsame
    · exact absurd hrejected (hfresh destination hsame rejected hmem)
  · rcases hother with hother | rfl
    · exact absurd hsame (hfresh destination hrejected other hother)
    · rfl

/-- A rejection whose outcome says where the file is keeps the account. -/
theorem Accounts.reject (h : Accounts before directory quarantineDirectory rejections files)
    (hdirectories : directory ≠ quarantineDirectory) (hpath : path.directory = directory)
    (hnew : ∀ rejected ∈ rejections, rejected.path ≠ path)
    (hreports : Reports files quarantineDirectory path validation outcome after) :
    Accounts before directory quarantineDirectory
      (rejections ++ [⟨path, validation, outcome.quarantinedPath, operation⟩]) after := by
  have honce : ((rejections ++ [(⟨path, validation, outcome.quarantinedPath, operation⟩ :
      RejectedCheckpoint)]).map fun rejected => rejected.path).Nodup := by
    rw [List.map_append, List.map_singleton]
    exact h.once.append (List.nodup_singleton _) (by simpa using hnew)
  rw [Reports] at hreports
  cases hmoved : outcome.quarantinedPath with
  | none =>
      simp only [hmoved] at hreports honce
      refine ⟨fun other hother hstays => ?_, ?_, honce, ?_⟩
      · rw [hreports other (.inl (hother ▸ hdirectories))]
        exact h.stays other hother fun rejected hmem =>
          hstays rejected (List.mem_append_left _ hmem)
      · intro rejected hmem destination hdestination
        rcases List.mem_append.mp hmem with hmem | hmem
        · exact h.isQuarantined_of_sameOn hdirectories hreports hmem hdestination fun _ _ => id
        · rw [List.mem_singleton.mp hmem] at hdestination
          cases hdestination
      · apply h.apart_append
        intro destination hdestination
        cases hdestination
  | some target =>
      simp only [hmoved] at hreports honce
      obtain ⟨htemporary, primary, hhead, hhas⟩ := hreports
      have hbefore : files.lookup path = before.lookup path :=
        h.stays path hpath fun rejected hmem heq => absurd heq (hnew rejected hmem)
      have hfresh (rejected : RejectedCheckpoint) (hmem : rejected ∈ rejections) :
          rejected.quarantinedPath ≠ some target := by
        intro hsame
        have hcontent := (h.moves rejected hmem target hsame).content
        rw [hhas.fresh] at hcontent
        rw [← hcontent.2] at hcontent
        cases hcontent.1
      refine ⟨fun other hother hstays => ?_, ?_, honce, ?_⟩
      · have hne : other ≠ path := by
          intro heq
          have := hstays _ (List.mem_append_right _ (List.mem_singleton_self _)) heq.symm
          cases this
        rw [hhas.others other ⟨hne, .inl (hother ▸ hdirectories)⟩]
        exact h.stays other hother fun rejected hmem =>
          hstays rejected (List.mem_append_left _ hmem)
      · intro rejected hmem destination hdestination
        rcases List.mem_append.mp hmem with hmem | hmem
        · apply h.isQuarantined_of_sameOn hdirectories hhas.others hmem hdestination
          intro other hother hsheltered
          refine ⟨?_, hsheltered⟩
          rcases hother with rfl | hother
          · exact hnew rejected hmem
          · rintro rfl
            exact hdirectories (hpath.symm.trans hother)
        · rw [List.mem_singleton.mp hmem] at hdestination ⊢
          cases hdestination
          exact ⟨hpath, htemporary, hhas.directory_eq, hhas.not_isRecord, hhas.gone,
            hbefore ▸ hhas.content, primary, hhead, hhas.record⟩
      · apply h.apart_append
        intro destination hdestination
        cases hdestination
        exact hfresh

end

/-! ## The steps of the planner -/

/-- The account between two steps: rejected and accepted paths are dealt with, and an accepted file
was not moved. -/
structure Books (before : FileSystem) (directory quarantineDirectory : Bytes) (progress : Progress)
    (files : FileSystem) : Prop where
  accounts : Accounts before directory quarantineDirectory progress.plan.rejectedBlocks files
  processed : ∀ rejected ∈ progress.plan.rejectedBlocks, rejected.path ∈ progress.processedPaths
  accepted : ∀ checkpoint ∈ progress.plan.acceptedBlocks,
    checkpoint.path ∈ progress.processedPaths ∧ checkpoint.path.directory = directory ∧
      ∀ rejected ∈ progress.plan.rejectedBlocks, rejected.path = checkpoint.path →
        rejected.quarantinedPath = none

section

variable {before : FileSystem} {directory quarantineDirectory : Bytes} {environment : Environment}
  {progress : Progress} {files after : FileSystem} {path : Path} {validation : ValidationResult}

theorem Books.reject (h : Books before directory quarantineDirectory progress files)
    (hdirectories : directory ≠ quarantineDirectory) (hpath : path.directory = directory)
    (hnew : path ∉ progress.processedPaths) {outcome : QuarantineOutcome}
    {operation : Option ValidationResult} {next : Progress}
    (hreports : Reports files quarantineDirectory path validation outcome after)
    (hrejected : next.plan.rejectedBlocks = progress.plan.rejectedBlocks ++
      [⟨path, validation, outcome.quarantinedPath, operation⟩])
    (haccepted : next.plan.acceptedBlocks = progress.plan.acceptedBlocks)
    (hprocessed : next.processedPaths = path :: progress.processedPaths) :
    Books before directory quarantineDirectory next after where
  accounts := by
    rw [hrejected]
    exact h.accounts.reject hdirectories hpath (fun rejected hmem heq =>
      hnew (heq ▸ h.processed rejected hmem)) hreports
  processed := by
    intro rejected hmem
    rw [hrejected] at hmem
    rw [hprocessed]
    rcases List.mem_append.mp hmem with hmem | hmem
    · exact List.mem_cons_of_mem _ (h.processed rejected hmem)
    · rw [List.mem_singleton.mp hmem]
      exact List.mem_cons_self
  accepted := by
    intro checkpoint hmem
    rw [haccepted] at hmem
    obtain ⟨hmarked, hdirectory, hnone⟩ := h.accepted checkpoint hmem
    rw [hrejected, hprocessed]
    refine ⟨List.mem_cons_of_mem _ hmarked, hdirectory, fun rejected hrejected heq => ?_⟩
    rcases List.mem_append.mp hrejected with hrejected | hrejected
    · exact hnone rejected hrejected heq
    · rw [List.mem_singleton.mp hrejected] at heq
      rw [← heq] at hmarked
      exact absurd hmarked hnew

theorem rejectFile_books (hclean : environment.FailsWithoutEffect)
    (hdirectories : directory ≠ quarantineDirectory) (hpath : path.directory = directory) :
    Meets (Keeps (noGuarantee environment) (Books before directory quarantineDirectory progress))
      (rejectFile quarantineDirectory path validation progress)
      (fun next => Keeps (noGuarantee environment)
        (Books before directory quarantineDirectory next)) (fun _ _ => True) := by
  rw [rejectFile]
  apply Meets.ite
  · exact fun _ => Meets.pure fun _ => id
  intro hnew
  apply Meets.bind_of (fun _ => Keeps (noGuarantee environment)
    (Books before directory quarantineDirectory progress))
  · exact (World.exists_meets fun _ _ _ => trivial).weaken fun _ _ h => h.2
  intro found
  apply Meets.ite
  · intro _ world hworld
    have hquarantine := CheckpointQuarantine.quarantine_reports world.files hclean
      (hpath ▸ hdirectories) validation
    refine Meets.bind (hquarantine.consequence (fun _ => id) (fun _ _ => id)
      fun _ _ => False.elim) (fun outcome => ?_) world
        ⟨hworld.kept, hworld.environment, fun _ _ => rfl⟩
    apply Meets.pure
    intro world' h
    apply h.mono
    intro files hreports
    split
    · exact hworld.condition.reject hdirectories hpath hnew hreports rfl rfl rfl
    · exact hworld.condition.reject hdirectories hpath hnew hreports rfl rfl rfl
  · intro _
    apply Meets.pure
    intro world h
    apply h.mono
    intro files hbooks
    have hreports : Reports files quarantineDirectory path validation
        ⟨validation, none, none⟩ files := fun _ _ => rfl
    exact hbooks.reject hdirectories hpath hnew hreports rfl rfl rfl

theorem rejectEntries_books (hclean : environment.FailsWithoutEffect)
    (hdirectories : directory ≠ quarantineDirectory) {manifest : CheckpointManifestValidation}
    {entries : List ManifestEntry} :
    Meets (Keeps (noGuarantee environment) (Books before directory quarantineDirectory progress))
      (rejectEntries directory quarantineDirectory manifest entries progress)
      (fun next => Keeps (noGuarantee environment)
        (Books before directory quarantineDirectory next)) (fun _ _ => True) := by
  induction entries generalizing progress with
  | nil => exact Meets.pure fun _ => id
  | cons entry rest ih =>
      rw [rejectEntries]
      apply Meets.ite
      · exact fun _ => ih
      · intro _
        exact Meets.bind (rejectFile_books hclean hdirectories rfl) fun _ => ih

/-- A file that is taken over is there, so it was not moved before. -/
theorem acceptEntry_books (hclean : environment.FailsWithoutEffect)
    (hdirectories : directory ≠ quarantineDirectory) {identity : ComputationIdentity}
    {entry : ManifestEntry} :
    Meets (Keeps (noGuarantee environment) (Books before directory quarantineDirectory progress))
      (acceptEntry directory quarantineDirectory identity entry progress)
      (fun next => Keeps (noGuarantee environment)
        (Books before directory quarantineDirectory next)) (fun _ _ => True) := by
  rw [acceptEntry]
  apply Meets.bind Action.get_meets
  intro seen world hseen
  obtain ⟨rfl, hworld⟩ := hseen
  cases hexamine : examineEntry seen.files ⟨directory, entry.filename⟩ identity entry with
  | error validation => exact rejectFile_books hclean hdirectories rfl seen hworld
  | ok checkpoint =>
      obtain ⟨block, -, hstored, hentry, rfl⟩ := examineEntry_eq_ok_iff.mp hexamine
      obtain ⟨haccounts, hprocessed, haccepted⟩ := hworld.condition
      refine ⟨hworld.kept, hworld.environment, haccounts, ?_, ?_⟩
      · exact fun rejected hmem => List.mem_cons_of_mem _ (hprocessed rejected hmem)
      · intro other hother
        rcases List.mem_append.mp hother with hother | hother
        · obtain ⟨hmarked, hrest⟩ := haccepted other hother
          exact ⟨List.mem_cons_of_mem _ hmarked, hrest⟩
        · rw [List.mem_singleton.mp hother]
          refine ⟨List.mem_cons_self, rfl, fun rejected hmem heq => ?_⟩
          by_contra hmoved
          obtain ⟨destination, hdestination⟩ := Option.ne_none_iff_exists'.mp hmoved
          have hgone := (haccounts.moves rejected hmem destination hdestination).gone
          rw [heq] at hgone
          exact absurd (hgone.symm.trans hstored.lookup) (by simp)

theorem acceptEntries_books (hclean : environment.FailsWithoutEffect)
    (hdirectories : directory ≠ quarantineDirectory) {identity : ComputationIdentity}
    {entries : List ManifestEntry} :
    Meets (Keeps (noGuarantee environment) (Books before directory quarantineDirectory progress))
      (acceptEntries directory quarantineDirectory identity entries progress)
      (fun next => Keeps (noGuarantee environment)
        (Books before directory quarantineDirectory next)) (fun _ _ => True) := by
  induction entries generalizing progress with
  | nil => exact Meets.pure fun _ => id
  | cons entry rest ih =>
      rw [acceptEntries]
      exact Meets.bind (acceptEntry_books hclean hdirectories) fun _ => ih

theorem sweepCandidates_books (hclean : environment.FailsWithoutEffect)
    (hdirectories : directory ≠ quarantineDirectory) {names : List Bytes} {candidates : List Path}
    (hcandidates : ∀ path ∈ candidates, path.directory = directory) :
    Meets (Keeps (noGuarantee environment) (Books before directory quarantineDirectory progress))
      (sweepCandidates quarantineDirectory names candidates progress)
      (fun next => Keeps (noGuarantee environment)
        (Books before directory quarantineDirectory next)) (fun _ _ => True) := by
  induction candidates generalizing progress with
  | nil => exact Meets.pure fun _ => id
  | cons path rest ih =>
      obtain ⟨hpath, hrest⟩ := List.forall_mem_cons.mp hcandidates
      rw [sweepCandidates]
      apply Meets.bind_of (fun next => Keeps (noGuarantee environment)
        (Books before directory quarantineDirectory next))
      · rw [sweepCandidate]
        apply Meets.ite
        · exact fun _ => Meets.pure fun _ h => h.mono fun _ hbooks =>
            ⟨hbooks.accounts, hbooks.processed, hbooks.accepted⟩
        intro _
        apply Meets.ite
        · exact fun _ => rejectFile_books hclean hdirectories hpath
        · exact fun _ => Meets.pure fun _ => id
      · exact fun _ => ih hrest

/-- The account at the end of a run. -/
theorem create_books (identity : ComputationIdentity) (hclean : environment.FailsWithoutEffect)
    (hdirectories : directory ≠ quarantineDirectory) :
    Meets (Keeps (noGuarantee environment) fun files => files = before)
      (create directory quarantineDirectory identity)
      (fun plan => Keeps (noGuarantee environment) fun files => ∃ progress : Progress,
        Books before directory quarantineDirectory progress files ∧
          plan = finish identity progress.plan) (fun _ _ => True) := by
  rw [create]
  simp only [Action.liftM_eq]
  apply Meets.bind (Action.guard_meets fun _ _ _ => trivial)
  intro _
  apply Meets.bind Action.get_meets
  intro seen
  refine Meets.strengthen (?_ : Meets (Keeps (noGuarantee environment) fun files =>
    files = before) _ _ _) fun _ h => h.2
  apply Meets.bind_of (fun next => Keeps (noGuarantee environment)
    (Books before directory quarantineDirectory next))
  · have hstart (world : World) (plan : CheckpointResumePlan) (hrejected : plan.rejectedBlocks = [])
        (haccepted : plan.acceptedBlocks = [])
        (h : world.Keeps (noGuarantee environment) fun files => files = before) :
        world.Keeps (noGuarantee environment)
          (Books before directory quarantineDirectory ⟨plan, []⟩) := by
      refine ⟨h.kept, h.environment, ?_, ?_, ?_⟩
      · rw [h.condition, hrejected]
        exact Accounts.of_no_rejection
      · rw [hrejected]
        simp
      · rw [haccepted]
        simp
    apply Meets.ite
    · intro _
      rw [takeEntries]
      apply Meets.bind ((rejectEntries_books hclean hdirectories).strengthen
        fun world h => hstart world _ rfl rfl h)
      exact fun _ => acceptEntries_books hclean hdirectories
    · exact fun _ => Meets.pure fun world h => hstart world _ rfl rfl h
  intro next
  apply Meets.bind Action.get_meets
  intro seen
  refine Meets.strengthen (?_ : Meets (Keeps (noGuarantee environment)
    (Books before directory quarantineDirectory next)) _ _ _) fun _ h => h.2
  apply Meets.bind (sweepCandidates_books hclean hdirectories fun path hmem =>
    of_decide_eq_true (List.mem_filter.mp hmem).2)
  intro last
  exact Meets.pure fun _ h => h.mono fun _ hbooks => ⟨last, hbooks, rfl⟩

end

end GiveMePi.Checkpoint.CheckpointResumePlanner
