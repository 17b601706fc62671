import GiveMePi.Checkpoint.CheckpointFrontierWriter
import GiveMePi.Checkpoint.CommitSafety

/-! # The progress that the writer publishes

Of all that a commit does, only one step changes the tracker. -/

namespace GiveMePi

open Library (Meets)
open Progress (ProgressTracker)

/-- An action that leaves the tracker alone, whether it returns or throws. -/
def World.IsQuiet {α : Type} (action : Action World α) : Prop :=
  ∀ tracker : Option ProgressTracker, Meets (fun world => world.tracker = tracker) action
    (fun _ world => world.tracker = tracker) (fun _ world => world.tracker = tracker)

namespace World.IsQuiet

variable {α β : Type} {action : Action World α}

theorem pure (a : α) : IsQuiet (Pure.pure a : Action World α) :=
  fun _ => Meets.pure fun _ => id

theorem throw (e : Error) : IsQuiet (MonadExcept.throw e : Action World α) :=
  fun _ => Meets.throw fun _ => id

theorem ofExcept (x : Except Error α) : IsQuiet (Action.ofExcept x : Action World α) :=
  fun _ => Action.guard_meets fun _ _ => id

theorem get : IsQuiet (MonadState.get : Action World World) :=
  fun _ _ h => h

theorem bind {next : α → Action World β} (h : IsQuiet action) (hnext : ∀ a, IsQuiet (next a)) :
    IsQuiet (action >>= next) :=
  fun tracker => Meets.bind (h tracker) fun a => hnext a tracker

theorem attempt {handler : Error → Action World α} (h : IsQuiet action)
    (hhandler : ∀ e, IsQuiet (handler e)) : IsQuiet (Action.attempt action handler) :=
  fun tracker => Action.attempt_meets _ (h tracker) fun e => hhandler e tracker

theorem ite {condition : Prop} [Decidable condition] {other : Action World α} (h : IsQuiet action)
    (hother : IsQuiet other) : IsQuiet (if condition then action else other) :=
  fun tracker => Meets.ite (fun _ => h tracker) fun _ => hother tracker

theorem perform (operation : FileOperation) (effect : FileSystem → FileSystem) (what : String) :
    IsQuiet (World.perform operation effect what) := by
  intro tracker world h
  rw [World.perform]
  cases world.environment.outcome world.operations with
  | done => exact h
  | failedBefore => exact h
  | failedAfter => exact h

theorem removeQuietly (path : Path) : IsQuiet (World.removeQuietly path) :=
  attempt (perform _ _ _) fun _ => pure _

theorem rename (source destination : Path) (what : String) :
    IsQuiet (World.rename source destination what) := by
  intro tracker world h
  rw [World.rename]
  cases world.files.lookup source with
  | none => exact h
  | some content => exact perform _ _ _ tracker world h

theorem createTempPath (destination : Path) (attempts : ℕ) :
    IsQuiet (Checkpoint.AtomicFileCommit.createTempPath destination attempts) := by
  induction attempts with
  | zero => exact throw _
  | succ attempts ih =>
      rw [Checkpoint.AtomicFileCommit.createTempPath]
      refine bind (fun _ _ h => h) fun sequence => bind get fun world => ?_
      exact ite ih (bind (perform _ _ _) fun _ => pure _)

theorem writeAll (file : Path) (written remaining : Bytes) :
    IsQuiet (Checkpoint.AtomicFileCommit.writeAll file written remaining) := by
  induction written, remaining using Checkpoint.AtomicFileCommit.writeAll.induct with
  | case1 written =>
      rw [Checkpoint.AtomicFileCommit.writeAll]
      exact pure _
  | case2 written byte rest ih =>
      rw [Checkpoint.AtomicFileCommit.writeAll]
      refine bind (ofExcept _) fun _ => bind (fun _ _ h => h) fun size => ?_
      exact bind (perform _ _ _) fun _ => ih size

theorem write (destination : Path) (bytes : Bytes) :
    IsQuiet (Checkpoint.AtomicFileCommit.write destination bytes) := by
  rw [Checkpoint.AtomicFileCommit.write]
  refine bind (ofExcept _) fun _ => bind (createTempPath _ _) fun temp => ?_
  refine bind (attempt ?_ fun e => bind (removeQuietly _) fun _ => throw e)
    fun _ => perform _ _ _
  exact bind (writeAll _ _ _) fun _ => bind (perform _ _ _) fun _ => bind (perform _ _ _)
    fun _ => rename _ _ _

end World.IsQuiet

namespace Checkpoint.CheckpointFrontierWriter

open Progress (CheckpointProgressUpdate)
open World (IsQuiet)

theorem saveCandidates_isQuiet (directory : Bytes) (identity : ComputationIdentity)
    (candidates : List CandidateEntry) : IsQuiet (saveCandidates directory identity candidates) := by
  have hsave (candidate : CandidateEntry) :
      IsQuiet (saveCandidate directory identity candidate) := by
    rw [saveCandidate]
    cases candidate.newNode with
    | none => exact .pure _
    | some node =>
        refine .bind ?_ fun _ => .pure _
        rw [CheckpointStore.save]
        exact .bind (.ofExcept _) fun _ => .bind (.perform _ _ _) fun _ => .bind (.ofExcept _)
          fun _ => .bind (.write _ _) fun _ => .pure _
  induction candidates with
  | nil => exact .pure _
  | cons candidate rest ih =>
      rw [saveCandidates]
      exact .bind (hsave candidate) fun _ => .bind ih fun _ => .pure _

theorem saveManifest_isQuiet (directory : Bytes) (manifest : CheckpointManifest) :
    IsQuiet (CheckpointStore.saveManifest directory manifest) := by
  rw [CheckpointStore.saveManifest]
  exact .bind (.ofExcept _) fun _ => .bind (.perform _ _ _) fun _ => .bind (.ofExcept _)
    fun _ => .bind (.write _ _) fun _ => .pure _

theorem removeSuperseded_isQuiet (directory : Bytes) (identity : ComputationIdentity)
    (published entries : List ManifestEntry) :
    IsQuiet (removeSuperseded directory identity published entries) := by
  induction entries generalizing published with
  | nil => exact .pure _
  | cons previous rest ih =>
      rw [removeSuperseded]
      simp only
      split
      · exact ih _
      · exact .bind (.ofExcept _) fun _ => .bind (.removeQuietly _) fun _ => ih _

theorem isGated_isQuiet (writer : CheckpointFrontierWriter) (nodes : List Binary.BinaryNode) :
    IsQuiet (writer.isGated nodes) := by
  rw [isGated]
  cases writer.lastCommit with
  | none => exact .pure _
  | some lastCommit => exact .ite (.pure _) (.bind (fun _ _ h => h) fun _ => .pure _)

/-! ## Sessions -/

variable {α : Type}

/-- A quiet action of the world keeps the writer and the tracker of a session. -/
theorem onWorld_meets {action : Action World α} (h : IsQuiet action)
    (condition : Option ProgressTracker → CheckpointFrontierWriter → Prop) :
    Meets (fun session => condition session.world.tracker session.writer)
      (WriterSession.onWorld action)
      (fun _ session => condition session.world.tracker session.writer)
      (fun _ session => condition session.world.tracker session.writer) := by
  intro session hsession
  have hresult := h session.world.tracker session.world rfl
  rw [WriterSession.onWorld]
  cases hrun : action session.world with
  | ok a world =>
      rw [hrun] at hresult
      rwa [← hresult] at hsession
  | error e world =>
      rw [hrun] at hresult
      rwa [← hresult] at hsession

/-- A condition on the tracker and the writer of a session. -/
def Holds (condition : Option ProgressTracker → CheckpointFrontierWriter → Prop)
    (session : WriterSession) : Prop :=
  condition session.world.tracker session.writer

/-- Whether a writer publishes an update for a frontier. -/
structure IsUpdateOf (writer : CheckpointFrontierWriter) (candidates : List CandidateEntry)
    (update : CheckpointProgressUpdate) : Prop where
  completedBlocks : update.completedBlocks =
    if writer.initialFrontierWorkPublished then 0 else writer.initialFrontierWork.getD 0
  lastCommitted : update.lastCommitted = lastCommitted candidates

/-- The writer when the first frontier that it publishes is known. -/
def withWork (writer : CheckpointFrontierWriter) (candidates : List CandidateEntry) :
    CheckpointFrontierWriter :=
  { writer with
    initialFrontierWork :=
      if writer.initialFrontierWork.isSome then writer.initialFrontierWork
      else
        some (UInt64.ofNat
          (candidates.filter fun candidate => candidate.newNode.isSome).length) }

/-- A publication changes the tracker once; what is thrown before finds it as it was, and what is
thrown later finds it changed. -/
theorem publish_meets {candidates : List CandidateEntry}
    {before after : Option ProgressTracker → CheckpointFrontierWriter → Prop}
    (hwork : ∀ tracker writer, before tracker writer → before tracker (writer.withWork candidates))
    (hpublish : ∀ tracker writer update, before tracker writer →
      writer.initialFrontierWork.isSome = true →
      IsUpdateOf writer candidates update →
        after (tracker.map fun tracker => (tracker.publishCheckpointProgress update).2)
          { writer with initialFrontierWorkPublished := true })
    (hfinish : ∀ tracker (writer : CheckpointFrontierWriter) entries lastCommit commitCount,
      after tracker writer → after tracker
        { writer with entries := entries, lastCommit := lastCommit, commitCount := commitCount }) :
    Meets (Holds before) (publish candidates) (fun _ => Holds after)
      (fun _ session => Holds before session ∨ Holds after session) := by
  rw [publish]
  refine Meets.bind_of
    (fun _ => Holds fun tracker writer => before tracker writer ∧
      writer.initialFrontierWork.isSome = true) ?_ fun _ => ?_
  · intro session h
    refine ⟨hwork _ _ h, ?_⟩
    change (if session.writer.initialFrontierWork.isSome then session.writer.initialFrontierWork
      else some _).isSome = true
    split
    · assumption
    · rfl
  refine Meets.bind_of
    (fun seen => Holds fun tracker writer => writer = seen ∧ before tracker writer ∧
      writer.initialFrontierWork.isSome = true) (fun session h => ⟨rfl, h⟩) fun writer => ?_
  have hquiet {β : Type} {action : Action World β} (h : IsQuiet action) :=
    (onWorld_meets h fun tracker other => other = writer ∧ before tracker other ∧
      other.initialFrontierWork.isSome = true).consequence (fun _ => id) (fun _ _ => id)
        fun (_ : Error) session h => (Or.inl h.2.1 : Holds before session ∨ Holds after session)
  refine Meets.bind (hquiet (saveCandidates_isQuiet _ _ _)) fun entries => ?_
  refine Meets.bind (hquiet (saveManifest_isQuiet _ _)) fun _ => ?_
  refine Meets.bind_of (fun _ => Holds fun tracker other =>
    after tracker { other with initialFrontierWorkPublished := true }) ?_ fun _ => ?_
  · rintro session ⟨rfl, hbefore, hsome⟩
    exact hpublish _ _ _ hbefore hsome ⟨rfl, rfl⟩
  refine Meets.bind_of (fun _ => Holds after) (fun session h => h) fun _ => ?_
  have hquietAfter {β : Type} {action : Action World β} (h : IsQuiet action) :=
    (onWorld_meets h after).consequence (fun _ => id) (fun _ _ => id)
      fun (_ : Error) session h => (Or.inr h : Holds before session ∨ Holds after session)
  refine Meets.bind (hquietAfter (removeSuperseded_isQuiet _ _ _ _)) fun _ => ?_
  refine Meets.bind (hquietAfter fun _ _ h => h) fun now => ?_
  exact fun session h => hfinish _ _ _ _ _ h

/-- What a publication keeps, a commit keeps. -/
theorem commitFrontier_keeps {nodes : List Binary.BinaryNode} {treeLevels : List UInt32}
    {condition : Option ProgressTracker → CheckpointFrontierWriter → Prop}
    (hwork : ∀ tracker writer candidates, condition tracker writer →
      condition tracker (writer.withWork candidates))
    (hpublish : ∀ tracker writer candidates update, condition tracker writer →
      IsUpdateOf writer candidates update →
        condition (tracker.map fun tracker => (tracker.publishCheckpointProgress update).2)
          { writer with initialFrontierWorkPublished := true })
    (hfinish : ∀ tracker (writer : CheckpointFrontierWriter) entries lastCommit commitCount,
      condition tracker writer → condition tracker
        { writer with entries := entries, lastCommit := lastCommit, commitCount := commitCount }) :
    Meets (Holds condition) (commitFrontier nodes treeLevels) (fun _ => Holds condition)
      (fun _ => Holds condition) := by
  rw [commitFrontier]
  refine Meets.bind (Action.guard_meets fun _ _ => id) fun _ => ?_
  refine Meets.bind (Action.guard_meets fun _ _ => id) fun _ => ?_
  refine Meets.bind_of (fun _ => Holds condition) (fun session h => h) fun writer => ?_
  refine Meets.bind (onWorld_meets (isGated_isQuiet _ _) condition) fun gated => ?_
  refine Meets.ite (fun _ => Meets.pure fun _ => id) fun _ => ?_
  refine Meets.bind (Action.guard_meets fun _ _ => id) fun result => ?_
  refine Meets.bind (Action.guard_meets fun _ _ => id) fun _ => ?_
  refine Meets.ite (fun _ => Meets.pure fun _ => id) fun _ => ?_
  refine Meets.bind (Action.guard_meets fun _ _ => id) fun _ => ?_
  exact (publish_meets (fun tracker writer => hwork tracker writer result.1)
    (fun tracker writer update h _ => hpublish tracker writer result.1 update h) hfinish).consequence
      (fun _ => id) (fun _ _ => id) fun _ _ h => h.elim id id

end Checkpoint.CheckpointFrontierWriter

end GiveMePi
