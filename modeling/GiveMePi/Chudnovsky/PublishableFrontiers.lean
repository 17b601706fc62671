import GiveMePi.Checkpoint.WriterStructure
import GiveMePi.Chudnovsky.CalculateParallel

/-! # Every frontier of a calculation is publishable

In a calculation that writes checkpoints, every frontier passes the checks of the writer, which
throws only what writing the files throws, and every manifest it publishes is accepted. -/

namespace GiveMePi.Chudnovsky

open Binary (ArePublishable BinaryCheckpointCoordinator BinaryFrontierNode BinaryMergeCoordinator
  BinaryNode BinarySplitObserver Executor FrontierCommit IsInitialFrontier IsPublishable
  LeavesNodes ParallelSplitOptions Recorded StorageContract commitsOf maximumTreeLevel
  splitParallel splitSequential_eq)
open Checkpoint (CheckpointFrontierWriter CheckpointManifestValidator.validate ComputationIdentity
  ManifestEntry WriterSession)
open Checkpoint.CheckpointFrontierWriter (HasWriter IsSound PassesChecks Publishes
  commitFrontier_keepsSound create_isSound publish)
open Library (Meets Schedule)

variable {τ : Type}

/-- A commit that gets through the checks of the writer: an exception comes from the publication, and
what is published is accepted. -/
structure IsClean (identity : ComputationIdentity) (commit : FrontierCommit (Calculation τ)) :
    Prop where
  passes : ∃ found, commit.before.session.writer.PassesChecks commit.nodes commit.treeLevels found ∧
    ∀ e, commit.result = .error e → ∃ session session' : WriterSession,
      session.writer = commit.before.session.writer ∧ publish found session = .error e session'
  accepted : ∀ manifest,
    commit.before.session.writer.Publishes commit.nodes commit.treeLevels manifest →
      (CheckpointManifestValidator.validate manifest identity).validation.isAccepted = true

/-! ## Calculations -/

/-- A call of the tracker changes neither the writer nor the storage. -/
theorem Calculation.call_frame (calculation : Calculation τ) (call : TrackerCall) :
    (calculation.call call).2.session.writer = calculation.session.writer ∧
      (calculation.call call).2.storage = calculation.storage := by
  rw [Calculation.call]
  cases calculation.tracker <;> exact ⟨rfl, rfl⟩

theorem trackerSplitObserver_frame (calculation : Calculation τ) (count : UInt64)
    (mergeLevel : UInt32) :
    ((trackerSplitObserver.termsCompleted count calculation).session.writer =
        calculation.session.writer ∧
      (trackerSplitObserver.termsCompleted count calculation).storage = calculation.storage) ∧
      (trackerSplitObserver.mergeLevelStarted mergeLevel calculation).session.writer =
          calculation.session.writer ∧
        (trackerSplitObserver.mergeLevelStarted mergeLevel calculation).storage =
          calculation.storage := by
  refine ⟨calculation.call_frame _, ?_⟩
  simp only [trackerSplitObserver]
  split
  · exact ⟨rfl, rfl⟩
  · exact calculation.call_frame _

/-- A condition on the storage and a sound writer. -/
def IsReady (identity : ComputationIdentity) (condition : τ → Prop)
    (calculation : Calculation τ) : Prop :=
  condition calculation.storage ∧ HasWriter identity calculation.session

theorem onStorage_meets {α : Type} {identity : ComputationIdentity} {action : Action τ α}
    {pre : τ → Prop} {post : α → τ → Prop} (h : Meets pre action post fun _ _ => True) :
    Meets (IsReady identity pre) (Calculation.onStorage action)
      (fun a => IsReady identity (post a)) fun _ _ => True := by
  intro calculation hready
  have hresult := h calculation.storage hready.1
  rw [Calculation.onStorage]
  cases hrun : action calculation.storage with
  | ok a storage =>
      rw [hrun] at hresult
      exact ⟨hresult, hready.2⟩
  | error e storage => trivial

/-- A commit leaves the storage alone. -/
theorem commitFrontier_meets {identity : ComputationIdentity} (condition : τ → Prop)
    (nodes : List BinaryNode) (treeLevels : List UInt32) :
    Meets (IsReady identity condition)
      ((checkpointCoordinator true).commitFrontier nodes treeLevels)
      (fun _ => IsReady identity condition) fun _ _ => True := by
  intro calculation hready
  have hresult := commitFrontier_keepsSound nodes treeLevels calculation.session hready.2
  rw [checkpointCoordinator, if_pos rfl]
  simp only [Calculation.onSession]
  cases hrun : CheckpointFrontierWriter.commitFrontier nodes treeLevels calculation.session with
  | ok u session =>
      rw [hrun] at hresult
      exact ⟨hready.1, hresult⟩
  | error e session => trivial

/-- Storage keeps its contract in a calculation. -/
def storageContract {mergeCoordinator : BinaryMergeCoordinator τ}
    (storage : StorageContract .absent mergeCoordinator .absent) (identity : ComputationIdentity) :
    StorageContract trackerSplitObserver (storageCoordinator mergeCoordinator)
      (checkpointCoordinator true) where
  ready := IsReady identity storage.ready
  shown nodes mergeLevel := IsReady identity (storage.shown nodes mergeLevel)
  held nodes nodes' mergeLevel := IsReady identity (storage.held nodes nodes' mergeLevel)
  terms count calculation h := by
    obtain ⟨⟨hwriter, hstorage⟩, -⟩ := trackerSplitObserver_frame calculation count 0
    rw [IsReady, HasWriter, hwriter, hstorage]
    exact h
  level mergeLevel calculation h := by
    obtain ⟨-, hwriter, hstorage⟩ := trackerSplitObserver_frame calculation 0 mergeLevel
    rw [IsReady, HasWriter, hwriter, hstorage]
    exact h
  observe nodes mergeLevel := onStorage_meets (storage.observe nodes mergeLevel)
  commit nodes mergeLevel treeLevels := commitFrontier_meets _ nodes treeLevels
  spill nodes mergeLevel := (onStorage_meets (storage.spill nodes mergeLevel)).weaken
    fun _ _ h => ⟨h.1.1, h.1.2, h.2⟩
  prepare nodes nodes' mergeLevel := (onStorage_meets (storage.prepare nodes nodes'
    mergeLevel)).weaken fun _ _ h => ⟨h.1.1, h.1.2, h.2⟩

/-- The commit of a publishable frontier is clean. -/
theorem isClean_of_isPublishable {identity : ComputationIdentity} (hidentity : identity.IsValid)
    {known : List Binary.PlacedRange} {nodes : List BinaryNode} {treeLevels : List UInt32}
    (h : IsPublishable identity.termCount known nodes treeLevels) {calculation : Calculation τ}
    (hwriter : HasWriter identity calculation.session) :
    IsClean identity ⟨calculation, nodes, treeLevels,
      Binary.outcome ((checkpointCoordinator true).commitFrontier nodes treeLevels calculation)⟩ := by
  obtain ⟨found, hfound⟩ := IsSound.passesChecks hidentity hwriter h
  refine ⟨⟨found, hfound, fun e hresult => ?_⟩, fun manifest =>
    IsSound.isAccepted_of_publishes hidentity hwriter h⟩
  change Binary.outcome (Calculation.onSession _ calculation) = _ at hresult
  rw [Calculation.onSession] at hresult
  cases hrun : CheckpointFrontierWriter.commitFrontier nodes treeLevels calculation.session with
  | ok u session =>
      rw [hrun] at hresult
      cases hresult
  | error e' session =>
      rw [hrun] at hresult
      obtain rfl := Except.error.inj hresult
      obtain ⟨session₁, hsame, hpublish⟩ := hfound.error_of_publish hrun
      exact ⟨session₁, session, hsame, hpublish⟩

/-- Every frontier that a split commits is publishable, whatever the coordinators, and the writer of
a calculation takes each of them. -/
theorem splitParallel_publishable :
    (∀ {σ : Type} {observer : BinarySplitObserver σ} {mergeCoordinator : BinaryMergeCoordinator σ}
        {checkpointCoordinator : BinaryCheckpointCoordinator σ}
        (storage : StorageContract observer mergeCoordinator checkpointCoordinator)
        (executor : Executor) (termCount : UInt64) (options : ParallelSplitOptions)
        (frontier : List BinaryFrontierNode), IsInitialFrontier 0 termCount frontier →
      (∀ seed ∈ frontier, seed.treeLevel ≤ maximumTreeLevel termCount) →
      ∀ s, storage.ready s →
        ArePublishable termCount (frontier.map BinaryFrontierNode.placed)
          (commitsOf (splitParallel executor (Recorded.observer observer)
            (Recorded.mergeCoordinator mergeCoordinator)
            (Recorded.checkpointCoordinator checkpointCoordinator) 0 termCount options frontier
            ⟨s, []⟩))) ∧
      ∀ {τ : Type} {mergeCoordinator : BinaryMergeCoordinator τ}
        (storage : StorageContract .absent mergeCoordinator .absent) (executor : Executor)
        (directory : Bytes) (identity : ComputationIdentity) (interval : ℤ)
        (acceptedEntries : List ManifestEntry) (options : ParallelSplitOptions)
        (frontier : List BinaryFrontierNode), IsInitialFrontier 0 identity.termCount frontier →
      (∀ seed ∈ frontier, seed.treeLevel ≤ maximumTreeLevel identity.termCount) →
      ∀ calculation : Calculation τ, storage.ready calculation.storage →
        CheckpointFrontierWriter.create directory identity interval acceptedEntries =
          .ok calculation.session.writer →
        ∀ commit ∈ commitsOf (splitParallel executor (Recorded.observer trackerSplitObserver)
          (Recorded.mergeCoordinator (storageCoordinator mergeCoordinator))
          (Recorded.checkpointCoordinator (checkpointCoordinator true)) 0 identity.termCount options
          frontier ⟨calculation, []⟩), IsClean identity commit := by
  constructor
  · intro σ observer mergeCoordinator checkpointCoordinator storage executor termCount options
      frontier hfrontier hlevels s hready
    have hgrants : storage.Grants termCount fun _ => True := fun _ _ _ _ _ _ => trivial
    exact (storage.areSound_commitsOf executor hfrontier hlevels hgrants hready).1
  · intro τ mergeCoordinator storage executor directory identity interval acceptedEntries options
      frontier hfrontier hlevels calculation hready hcreate
    obtain ⟨hidentity, hwriter⟩ := create_isSound hcreate
    have hgrants : (storageContract storage identity).Grants identity.termCount
        (IsClean identity) := by
      intro calculation known nodes treeLevels hstate h
      apply isClean_of_isPublishable hidentity h
      rcases hstate with hready | ⟨mergeLevel, hshown⟩
      · exact hready.2
      · exact hshown.2
    exact ((storageContract storage identity).areSound_commitsOf executor hfrontier hlevels hgrants
      ⟨hready, hwriter⟩).2

/-- A seed in the middle of five terms, and a calculation of three terms without a seed. -/
theorem splitParallel_publishable_five :
    ArePublishable 5 [((1, 3), 2)]
      (commitsOf (splitParallel ⟨true, 2, false, fun _ jobs => Schedule.caller jobs⟩
        (Recorded.observer BinarySplitObserver.absent)
        (Recorded.mergeCoordinator BinaryMergeCoordinator.absent)
        (Recorded.checkpointCoordinator BinaryCheckpointCoordinator.absent) 0 5 ⟨1, 4⟩
        [⟨BinaryNode.ofRange 1 3, 2⟩] ⟨(), []⟩)) ∧
      ∀ commit ∈ commitsOf (splitParallel ⟨true, 2, false, fun _ jobs => Schedule.caller jobs⟩
        (Recorded.observer trackerSplitObserver)
        (Recorded.mergeCoordinator (storageCoordinator BinaryMergeCoordinator.absent))
        (Recorded.checkpointCoordinator (checkpointCoordinator true)) 0 3 ⟨1, 4⟩ []
        ⟨⟨⟨World.start ⟨fun _ => .done, fun _ => 1, fun n => n, 1, 255⟩ ∅ none,
          ⟨ascii "checkpoints", ⟨⟨1⟩, 1, 1, 1, 16, 17, 3⟩, 0, [], none, 0, none, false⟩⟩, (), false,
            []⟩, []⟩), IsClean ⟨⟨1⟩, 1, 1, 1, 16, 17, 3⟩ commit :=
  ⟨splitParallel_publishable.1 LeavesNodes.absent.storageContract _ 5 ⟨1, 4⟩ _
      ⟨by simp only [List.forall_mem_singleton]; exact ⟨by decide, by decide, by decide⟩,
        List.pairwise_singleton _ _,
        by
          simp only [List.forall_mem_singleton]
          exact splitSequential_eq (by decide)⟩
      (by
        simp only [List.forall_mem_singleton]
        simp [maximumTreeLevel, Binary.maximumTreeLevelFrom]
        decide) () trivial,
    splitParallel_publishable.2 LeavesNodes.absent.storageContract _ (ascii "checkpoints")
      ⟨⟨1⟩, 1, 1, 1, 16, 17, 3⟩ 0 [] ⟨1, 4⟩ [] ⟨by simp, List.Pairwise.nil, by simp⟩ (by simp) _
      trivial
      (by
        have hvalid : ComputationIdentity.validate ⟨⟨1⟩, 1, 1, 1, 16, 17, 3⟩ = .ok () := by decide
        have hdirectory : ¬ ascii "checkpoints" = [] := by decide
        simp [CheckpointFrontierWriter.create, hvalid, hdirectory,
          Checkpoint.CheckpointManifestCodec.sortEntries,
          Checkpoint.CheckpointFrontierWriter.validateEntries])⟩

end GiveMePi.Chudnovsky
