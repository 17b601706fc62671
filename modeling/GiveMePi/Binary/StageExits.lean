import GiveMePi.Binary.SplitCall

/-! # When control leaves `splitParallel`

`waitForStage` waits for every accepted task before it rethrows. An exception inside the loop that
hands out the jobs leaves the call by another way, past the tasks accepted so far. -/

namespace GiveMePi.Binary

variable {σ : Type}

/-- The tasks the caller has still to wait for. -/
def SplitControl.outstanding : SplitControl → List TaskId
  | .looping _ handles => handles
  | .computing _ handles => handles
  | .waiting _ rest => rest
  | _ => []

namespace SplitCall

/-- The tasks that are not terminal are among those the caller has still to wait for. -/
def Tracks (call : SplitCall σ) : Prop :=
  ∀ task, call.isReady task = false → task ∈ call.control.outstanding

/-! ## Tasks -/

theorem allTerminal_iff {call : SplitCall σ} :
    call.AllTerminal ↔ ∀ task, call.isReady task = true := by
  constructor
  · intro h task
    rw [isReady]
    cases heq : call.tasks[task]? with
    | none => rfl
    | some state => exact h state (List.mem_of_getElem? heq)
  · intro h state hmem
    rcases List.getElem?_of_mem hmem with ⟨task, heq⟩
    have hready := h task
    rwa [isReady, heq] at hready

/-- Where nothing is outstanding, every task is terminal. -/
theorem Tracks.allTerminal {call : SplitCall σ} (h : call.Tracks)
    (houtstanding : call.control.outstanding = []) : call.AllTerminal := by
  rw [allTerminal_iff]
  intro task
  by_contra hready
  have hmem := h task (by simpa using hready)
  rw [houtstanding] at hmem
  simp at hmem

/-- Less is outstanding: only terminal tasks may be missing. -/
theorem Tracks.mono {call call' : SplitCall σ} (h : call.Tracks)
    (hready : ∀ task, call'.isReady task = false → call.isReady task = false)
    (houtstanding : ∀ task, call'.isReady task = false → task ∈ call.control.outstanding →
      task ∈ call'.control.outstanding) : call'.Tracks :=
  fun task htask => houtstanding task htask (h task (hready task htask))

theorem isReady_setTask {call : SplitCall σ} {task other : TaskId} {state state' : SplitTask σ}
    (hstate : call.tasks[task]? = some state) (hready : state.state.isReady = false)
    (h : (call.setTask task state').isReady other = false) : call.isReady other = false := by
  by_cases heq : task = other
  · subst heq
    rw [isReady, hstate]
    exact hready
  · rwa [isReady, setTask, List.getElem?_set_ne heq] at h

/-! ## Steps -/

section Steps

variable {call call' : SplitCall σ}

theorem Tracks.accept (h : call.Tracks) (hstep : call.accept = some call') : call'.Tracks := by
  rw [SplitCall.accept] at hstep
  cases hcontrol : call.control with
  | looping next handles =>
      simp only [hcontrol, Option.ite_none_right_eq_some, Option.map_eq_some_iff] at hstep
      rcases hstep with ⟨_, job, _, rfl⟩
      intro task htask
      have houtstanding := h task
      rw [hcontrol] at houtstanding
      by_cases hnew : task = call.tasks.length
      · simp [SplitControl.outstanding, hnew]
      · have hold : call.isReady task = false := by
          rw [isReady] at htask ⊢
          by_cases hlt : task < call.tasks.length
          · rwa [List.getElem?_append_left hlt] at htask
          · have hle : (call.tasks ++ [(⟨job, .pending, none⟩ : SplitTask σ)]).length ≤ task := by
              rw [List.length_append]
              exact Nat.lt_of_le_of_ne (Nat.le_of_not_lt hlt) (Ne.symm hnew)
            rw [List.getElem?_eq_none hle] at htask
            simp at htask
        exact List.mem_append_left _ (houtstanding hold)
  | _ => simp [hcontrol] at hstep

theorem Tracks.reject (h : call.Tracks) (hstep : call.reject = some call') : call'.Tracks := by
  rw [SplitCall.reject] at hstep
  cases hcontrol : call.control with
  | looping next handles =>
      simp only [hcontrol, Option.ite_none_right_eq_some, Option.some.injEq] at hstep
      rcases hstep with ⟨_, rfl⟩
      intro task htask
      have houtstanding := h task htask
      rwa [hcontrol] at houtstanding
  | _ => simp [hcontrol] at hstep

/-- What leaves the call with all tasks terminal leaves nothing outstanding. -/
theorem Tracks.of_allTerminal (h : call.AllTerminal) (htasks : call'.tasks = call.tasks) :
    call'.Tracks := by
  intro task htask
  rw [isReady, htasks] at htask
  have hready := allTerminal_iff.mp h task
  rw [isReady, htask] at hready
  simp at hready

theorem Tracks.callerRuns (h : call.Tracks) {raised : Option Error}
    (hcareful : call.LeavesLoop (.callerRuns raised) → call.AllTerminal)
    (hstep : call.callerRuns raised = some call') : call'.Tracks := by
  rw [SplitCall.callerRuns] at hstep
  cases hcontrol : call.control with
  | computing next handles =>
      simp only [hcontrol, Option.map_eq_some_iff] at hstep
      rcases hstep with ⟨job, hjob, rfl⟩
      cases houtcome : job.outcome raised with
      | ok node =>
          intro task htask
          have houtstanding := h task htask
          rwa [hcontrol] at houtstanding
      | error e =>
          exact Tracks.of_allTerminal (hcareful ⟨next, handles, job, e, hcontrol, hjob, houtcome⟩) rfl
  | _ => simp [hcontrol] at hstep

theorem Tracks.submitThrows (h : call.AllTerminal) {exception : Error}
    (hstep : call.submitThrows exception = some call') : call'.Tracks := by
  rw [SplitCall.submitThrows] at hstep
  cases hcontrol : call.control with
  | looping next handles =>
      simp only [hcontrol, Option.ite_none_right_eq_some, Option.some.injEq] at hstep
      rcases hstep with ⟨_, rfl⟩
      exact Tracks.of_allTerminal h rfl
  | _ => simp [hcontrol] at hstep

/-- What workers do makes no terminal task another one. -/
theorem Tracks.worker (h : call.Tracks) (hcontrol : call'.control = call.control)
    (hready : ∀ task, call'.isReady task = false → call.isReady task = false) : call'.Tracks := by
  refine h.mono hready fun task _ hmem => ?_
  rwa [hcontrol]

theorem Tracks.workerStarts (h : call.Tracks) {task : TaskId}
    (hstep : call.workerStarts task = some call') : call'.Tracks := by
  rw [SplitCall.workerStarts] at hstep
  cases hstate : call.tasks[task]? with
  | none => simp [hstate] at hstep
  | some state =>
      simp only [hstate, Option.ite_none_right_eq_some, Option.some.injEq] at hstep
      rcases hstep with ⟨hpending, rfl⟩
      refine h.worker rfl fun other hother => ?_
      exact isReady_setTask hstate (by rw [hpending]; rfl) hother

theorem Tracks.workerRuns (h : call.Tracks) {task : TaskId} {raised : Option Error}
    (hstep : call.workerRuns task raised = some call') : call'.Tracks := by
  rw [SplitCall.workerRuns] at hstep
  cases hstate : call.tasks[task]? with
  | none => simp [hstate] at hstep
  | some state =>
      simp only [hstate, Option.ite_none_right_eq_some] at hstep
      rcases hstep with ⟨hrunning, hstep⟩
      have hnotReady : state.state.isReady = false := by
        rw [hrunning]
        rfl
      cases houtcome : state.job.outcome raised with
      | ok node =>
          rw [houtcome, Option.some.injEq] at hstep
          subst hstep
          refine h.worker rfl fun other hother => ?_
          have hfilled : (call.fill state.job node).tasks[task]? = some state := hstate
          exact isReady_setTask hfilled hnotReady hother
      | error e =>
          rw [houtcome, Option.some.injEq] at hstep
          subst hstep
          exact h.worker rfl fun other hother => isReady_setTask hstate hnotReady hother

section Caller

variable (executor : Executor) (observer : BinarySplitObserver σ)
  (mergeCoordinator : BinaryMergeCoordinator σ)
  (checkpointCoordinator : BinaryCheckpointCoordinator σ) (start stop : UInt64)

theorem beginMerge_tasks (termCount : UInt64) (parallelExecution : Bool)
    (nodes : List BinaryNode) :
    (call.beginMerge observer mergeCoordinator termCount parallelExecution nodes).tasks =
      call.tasks := by
  rw [beginMerge]
  split <;> rfl

/-- The caller goes on past a task only when it is terminal. -/
theorem Tracks.callerGoesOn (h : call.Tracks)
    (hstep : call.callerGoesOn executor observer mergeCoordinator checkpointCoordinator start stop =
      some call') : call'.Tracks := by
  rw [SplitCall.callerGoesOn] at hstep
  cases hcontrol : call.control with
  | sequential =>
      have hterminal := h.allTerminal (by simp [hcontrol, SplitControl.outstanding])
      simp only [hcontrol] at hstep
      split at hstep <;> cases hstep <;> exact Tracks.of_allTerminal hterminal rfl
  | looping next handles =>
      simp only [hcontrol, Option.ite_none_right_eq_some, Option.some.injEq] at hstep
      rcases hstep with ⟨_, rfl⟩
      intro task htask
      have houtstanding := h task htask
      rwa [hcontrol] at houtstanding
  | computing next handles => simp [hcontrol] at hstep
  | waiting handles rest =>
      cases rest with
      | nil =>
          have hterminal := h.allTerminal (by simp [hcontrol, SplitControl.outstanding])
          simp only [hcontrol, Option.some.injEq] at hstep
          subst hstep
          exact Tracks.of_allTerminal hterminal rfl
      | cons task rest =>
          simp only [hcontrol, Option.ite_none_right_eq_some, Option.some.injEq] at hstep
          rcases hstep with ⟨hready, rfl⟩
          intro other hother
          have houtstanding := h other hother
          rw [hcontrol] at houtstanding
          rcases List.mem_cons.mp houtstanding with rfl | hmem
          · change call.isReady other = false at hother
            simp [hother] at hready
          · exact hmem
  | rethrowing rest =>
      have hterminal := h.allTerminal (by simp [hcontrol, SplitControl.outstanding])
      cases rest with
      | nil =>
          simp only [hcontrol] at hstep
          split at hstep <;> cases hstep <;> exact Tracks.of_allTerminal hterminal rfl
      | cons task rest =>
          simp only [hcontrol] at hstep
          split at hstep <;> cases hstep <;> exact Tracks.of_allTerminal hterminal rfl
  | staged nodes =>
      have hterminal := h.allTerminal (by simp [hcontrol, SplitControl.outstanding])
      simp only [hcontrol] at hstep
      split at hstep <;> cases hstep <;> exact Tracks.of_allTerminal hterminal rfl
  | merging nodes =>
      have hterminal := h.allTerminal (by simp [hcontrol, SplitControl.outstanding])
      rw [hcontrol] at hstep
      match nodes with
      | [] =>
          cases hstep
          exact Tracks.of_allTerminal hterminal rfl
      | [node] =>
          cases hstep
          exact Tracks.of_allTerminal hterminal rfl
      | first :: second :: rest =>
          cases hstep
          exact Tracks.of_allTerminal hterminal (beginMerge_tasks observer mergeCoordinator _ _ _)
  | left outcome => simp [hcontrol] at hstep

end Caller

end Steps

/-! ## Runs -/

section Runs

variable (executor : Executor) (observer : BinarySplitObserver σ)
  (mergeCoordinator : BinaryMergeCoordinator σ)
  (checkpointCoordinator : BinaryCheckpointCoordinator σ) (start stop : UInt64)
  (options : ParallelSplitOptions) (initialFrontier : List BinaryFrontierNode)

/-- No exception leaves the loop of a stage past an accepted task that is not terminal. -/
def IsCareful (call : SplitCall σ) (event : SplitEvent) : Prop :=
  call.LeavesLoop event → call.AllTerminal

/-- The runs of a call: any answers of the executor, any exceptions and any order of the workers'
steps. -/
def system : Library.TransitionSystem (SplitCall σ) where
  initial call := ∃ world,
    call = enterSplit executor observer start stop options initialFrontier world
  step call call' := ∃ event,
    call.step executor observer mergeCoordinator checkpointCoordinator start stop event = some call'

/-- The careful runs. -/
def carefulSystem : Library.TransitionSystem (SplitCall σ) where
  initial call := ∃ world,
    call = enterSplit executor observer start stop options initialFrontier world
  step call call' := ∃ event, call.IsCareful event ∧
    call.step executor observer mergeCoordinator checkpointCoordinator start stop event = some call'

variable {call call' : SplitCall σ} {event : SplitEvent}

theorem enterSplit_tasks (world : σ) :
    (enterSplit executor observer start stop options initialFrontier world).tasks = [] := by
  rw [enterSplit]
  split
  · rfl
  · dsimp only
    split <;> rfl

theorem Tracks.step (h : call.Tracks) (hcareful : call.IsCareful event)
    (hstep : call.step executor observer mergeCoordinator checkpointCoordinator start stop event =
      some call') : call'.Tracks := by
  cases event with
  | accept => exact h.accept hstep
  | reject => exact h.reject hstep
  | submitThrows exception => exact Tracks.submitThrows (hcareful trivial) hstep
  | callerRuns raised => exact h.callerRuns hcareful hstep
  | workerStarts task => exact h.workerStarts hstep
  | workerRuns task raised => exact h.workerRuns hstep
  | callerGoesOn =>
      exact h.callerGoesOn executor observer mergeCoordinator checkpointCoordinator start stop hstep

theorem tracks_of_careful
    (h : (carefulSystem executor observer mergeCoordinator checkpointCoordinator start stop options
      initialFrontier).Reachable call) : call.Tracks := by
  refine h.invariant (fun call hinitial => ?_) fun call call' _ htracks hstep => ?_
  · rcases hinitial with ⟨world, rfl⟩
    intro task htask
    rw [isReady, enterSplit_tasks] at htask
    simp at htask
  · rcases hstep with ⟨event, hcareful, hstep⟩
    exact htracks.step executor observer mergeCoordinator checkpointCoordinator start stop hcareful
      hstep

/-- An exception that leaves the loop of a stage leaves the tasks as they are. -/
theorem left_of_leavesLoop (hleaves : call.LeavesLoop event)
    (hstep : call.step executor observer mergeCoordinator checkpointCoordinator start stop event =
      some call') : (∃ e, call'.control = .left (.error e)) ∧ call'.tasks = call.tasks := by
  cases event with
  | submitThrows exception =>
      rw [SplitCall.step, SplitCall.submitThrows] at hstep
      cases hcontrol : call.control with
      | looping next handles =>
          simp only [hcontrol, Option.ite_none_right_eq_some, Option.some.injEq] at hstep
          rcases hstep with ⟨_, rfl⟩
          exact ⟨⟨exception, rfl⟩, rfl⟩
      | _ => simp [hcontrol] at hstep
  | callerRuns raised =>
      rcases hleaves with ⟨next, handles, job, e, hcontrol, hjob, houtcome⟩
      rw [SplitCall.step, SplitCall.callerRuns] at hstep
      simp only [hcontrol, hjob, houtcome, Option.map_some, Option.some.injEq] at hstep
      subst hstep
      exact ⟨⟨e, rfl⟩, rfl⟩
  | _ => exact hleaves.elim

/-- Control leaves the careful runs of a call only when every accepted task is terminal; a step that
is not careful leaves one that is not terminal behind. -/
theorem leavesSafely_iff_careful :
    (∀ call, (carefulSystem executor observer mergeCoordinator checkpointCoordinator start stop
      options initialFrontier).Reachable call → call.LeavesSafely) ∧
    ∀ (call call' : SplitCall σ) event,
      call.step executor observer mergeCoordinator checkpointCoordinator start stop event =
        some call' → ¬ call.IsCareful event → ¬ call'.LeavesSafely := by
  refine ⟨fun call h outcome hcontrol => ?_, fun call call' event hstep hcareful hsafe => ?_⟩
  · have htracks := tracks_of_careful executor observer mergeCoordinator checkpointCoordinator start
      stop options initialFrontier h
    exact htracks.allTerminal (by simp [hcontrol, SplitControl.outstanding])
  · rw [IsCareful, Classical.not_imp] at hcareful
    rcases left_of_leavesLoop executor observer mergeCoordinator checkpointCoordinator start stop
      hcareful.1 hstep with ⟨⟨e, hcontrol⟩, htasks⟩
    have hterminal := hsafe _ hcontrol
    rw [AllTerminal, htasks] at hterminal
    exact hcareful.2 hterminal

end Runs

end SplitCall

/-- A scheduler with two workers that runs. -/
def twoWorkers : Executor where
  running := true
  workerCount := 2
  ownsCurrentWorker := false
  schedule _ jobs := Library.Schedule.caller jobs

/-- The runs of the call for the terms 0, …, 3 in two blocks, without coordinators. -/
def fourTerms : Library.TransitionSystem (SplitCall Unit) :=
  SplitCall.system twoWorkers .absent .absent .absent 0 4 ⟨1, 1⟩ []

/-- The call behind the acceptance of its first block. -/
def firstAccepted : SplitCall Unit where
  control := .looping 1 [0]
  jobs := [blockJob .absent ⟨0, 0, 2⟩, blockJob .absent ⟨1, 2, 4⟩]
  stageParallel := true
  slots := [none, none]
  remainder := []
  treeLevels := [0, 0]
  mergeLevel := 0
  computedNodes := true
  tasks := [⟨blockJob .absent ⟨0, 0, 2⟩, .pending, none⟩]
  world := ()

theorem checkSplit_fourTerms : checkSplit 0 4 ⟨1, 1⟩ [] = .ok [] := by
  have hrange : validateRange 0 4 = .ok () := rfl
  simp [checkSplit, hrange, sortAndValidateFrontier, validateFrontier]

theorem reachable_firstAccepted : fourTerms.Reachable firstAccepted := by
  have hinitial : fourTerms.Reachable (enterSplit twoWorkers .absent 0 4 ⟨1, 1⟩ [] ()) :=
    .initial ⟨(), rfl⟩
  refine hinitial.step ⟨.accept, ?_⟩
  rw [enterSplit, checkSplit_fourTerms]
  rfl

/-- Control leaves the call with a task that has not even started: where the submission of the second
block throws, and where the second block is rejected and throws on the caller. -/
theorem splitParallel_leaves_early :
    (∃ call, fourTerms.Reachable call ∧
      call.control = .left (.error (.systemError "submit")) ∧ ¬ call.AllTerminal) ∧
    ∃ call, fourTerms.Reachable call ∧
      call.control = .left (.error (.systemError "block")) ∧ ¬ call.AllTerminal := by
  have hpending : ¬ firstAccepted.AllTerminal := by
    intro hterminal
    have hready := hterminal _ (List.mem_singleton_self _)
    cases hready
  refine ⟨⟨firstAccepted.leave (.error (.systemError "submit")), ?_, rfl, hpending⟩,
    ⟨{ firstAccepted with control := .left (.error (.systemError "block")) }, ?_, rfl, hpending⟩⟩
  · exact reachable_firstAccepted.step ⟨.submitThrows (.systemError "submit"), rfl⟩
  · have hrejected := reachable_firstAccepted.step ⟨.reject, rfl⟩
    exact hrejected.step ⟨.callerRuns (some (.systemError "block")), rfl⟩

end GiveMePi.Binary
