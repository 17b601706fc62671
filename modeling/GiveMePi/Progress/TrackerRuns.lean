import GiveMePi.Progress.SharedTracker

/-! # Every order of accesses to the tracker

The counters stay within the plan and do not decrease, the phases follow their transitions, and every
snapshot can be constructed. -/

namespace GiveMePi.Progress

open Library (TransitionSystem)

/-! ## What a snapshot accepts -/

namespace ProgressSnapshotData

/-- The combinations of values that the constructor of a snapshot takes. -/
structure IsValid (data : ProgressSnapshotData) : Prop where
  terms : data.completedTerms ≤ data.totalTerms
  blocks : data.completedCheckpointBlocks ≤ data.totalCheckpointBlocks
  elapsed : 0 ≤ data.elapsed
  validated : hasEmptyRange data.lastValidatedCheckpoint = false
  committed : hasEmptyRange data.lastCommittedCheckpoint = false
  detail : data.failureDetail.isSome → data.phase = .failed

theorem check_eq_ok {data : ProgressSnapshotData} : data.check = .ok () ↔ data.IsValid := by
  simp only [check, bind_eq_ok, throwIf_eq_ok]
  constructor
  · rintro ⟨_, hterms, _, hblocks, _, helapsed, _, hranges, hdetail⟩
    refine ⟨UInt64.not_lt.mp hterms, UInt64.not_lt.mp hblocks, Int.not_lt.mp helapsed, ?_, ?_, ?_⟩
    · simpa using fun h => hranges (.inl h)
    · simpa using fun h => hranges (.inr h)
    · intro hsome
      by_contra hphase
      exact hdetail ⟨hphase, hsome⟩
  · intro h
    refine ⟨(), UInt64.not_lt.mpr h.terms, (), UInt64.not_lt.mpr h.blocks, (),
      Int.not_lt.mpr h.elapsed, (), ?_, fun hdetail => hdetail.1 (h.detail hdetail.2)⟩
    simp [h.validated, h.committed]

/-- The counters that are only reported are not checked. -/
theorem IsValid.setGauge {data : ProgressSnapshotData} (h : data.IsValid) (value : UInt64)
    (gauge : Gauge) : (data.setGauge value gauge).IsValid := by
  cases gauge <;> exact ⟨h.terms, h.blocks, h.elapsed, h.validated, h.committed, h.detail⟩

@[simp] theorem setGauge_totalTerms (data : ProgressSnapshotData) (value : UInt64) (gauge : Gauge) :
    (data.setGauge value gauge).totalTerms = data.totalTerms := by
  cases gauge <;> rfl

theorem create_of_isValid {data : ProgressSnapshotData} (h : data.IsValid) :
    ∃ snapshot, ProgressSnapshot.create data = .ok snapshot ∧ snapshot.data = data := by
  have hcheck := check_eq_ok.mpr h
  rw [ProgressSnapshot.create]
  split
  · exact ⟨_, rfl, rfl⟩
  · next error herror => exact absurd (hcheck.symm.trans herror) (by simp)

end ProgressSnapshotData

/-- A snapshot that exists has a failure detail in the failed phase only. -/
theorem ProgressSnapshot.detail_phase (snapshot : ProgressSnapshot)
    (h : snapshot.data.failureDetail.isSome) : snapshot.data.phase = .failed :=
  (ProgressSnapshotData.check_eq_ok.mp snapshot.valid).detail h

/-! ## What an access may change -/

theorem isValidTransition_refl (phase : ProgressPhase) : isValidTransition phase phase = true := by
  simp [isValidTransition]

theorem isValidTransition_failed {phase : ProgressPhase} (h : isTerminal phase = false) :
    isValidTransition phase .failed = true := by
  simp [isValidTransition, h]

/-- A terminal phase is left by no transition. -/
theorem eq_of_isValidTransition {phase next : ProgressPhase} (hterminal : isTerminal phase = true)
    (h : isValidTransition phase next = true) : next = phase := by
  by_contra hne
  simp [isValidTransition, Ne.symm hne, hterminal] at h

namespace SharedTracker

variable {tracker next : SharedTracker} {now : ℤ}

/-- What holds of the members of a tracker at a time of the clock. -/
structure IsConsistent (tracker : SharedTracker) (now : ℤ) : Prop where
  terms : tracker.completedTerms ≤ tracker.plan.totalTerms
  blocks : tracker.completedCheckpointBlocks ≤ tracker.plan.totalCheckpointBlocks
  started : tracker.startedAt ≤ now
  finished : ∀ time, tracker.finishedAt = some time → tracker.startedAt ≤ time
  validated : ProgressSnapshotData.hasEmptyRange tracker.lastValidatedCheckpoint = false
  committed : ProgressSnapshotData.hasEmptyRange tracker.lastCommittedCheckpoint = false
  detail : tracker.failureDetail.isSome → tracker.phase = .failed

/-- One step of the life of a tracker. -/
structure Follows (next tracker : SharedTracker) : Prop where
  plan : next.plan = tracker.plan
  phase : isValidTransition tracker.phase next.phase = true
  terms : tracker.completedTerms ≤ next.completedTerms
  blocks : tracker.completedCheckpointBlocks ≤ next.completedCheckpointBlocks

/-- A step that changes none of these members. -/
theorem Follows.of_eq (hplan : next.plan = tracker.plan) (hphase : next.phase = tracker.phase)
    (hterms : next.completedTerms = tracker.completedTerms)
    (hblocks : next.completedCheckpointBlocks = tracker.completedCheckpointBlocks) :
    Follows next tracker :=
  ⟨hplan, hphase ▸ isValidTransition_refl _, UInt64.le_of_eq hterms.symm,
    UInt64.le_of_eq hblocks.symm⟩

theorem Follows.refl (tracker : SharedTracker) : Follows tracker tracker :=
  .of_eq rfl rfl rfl rfl

theorem IsConsistent.mono {later : ℤ} (h : IsConsistent tracker now) (hle : now ≤ later) :
    IsConsistent tracker later :=
  { h with started := h.started.trans hle }

theorem create_consistent {plan : ProgressWorkPlan} (h : create plan now = .ok tracker) :
    IsConsistent tracker now := by
  simp only [create, ProgressTracker.create, bind_eq_ok, pure_eq_ok, throwIf_eq_ok,
    Except.ok.injEq] at h
  rcases h with ⟨_, ⟨_, -, _, -, rfl⟩, rfl⟩
  constructor <;> simp [ProgressTracker.ofPlan, ProgressSnapshotData.hasEmptyRange]

theorem transitionTo_spec (h : IsConsistent tracker now) (phase : ProgressPhase) :
    IsConsistent (transitionTo phase now tracker).2 now ∧
      Follows (transitionTo phase now tracker).2 tracker := by
  rw [transitionTo]
  split
  · next hvalid =>
      refine ⟨⟨h.terms, h.blocks, h.started, ?_, h.validated, h.committed, ?_⟩, rfl, hvalid,
        UInt64.le_refl _, UInt64.le_refl _⟩
      · intro time htime
        dsimp only at htime
        split at htime
        · cases htime
          exact h.started
        · exact h.finished time htime
      · -- A detail is there in the failed phase only, which is left by no transition.
        intro hdetail
        have hfailed := h.detail hdetail
        have hsame := eq_of_isValidTransition (by rw [hfailed]; rfl) hvalid
        exact hsame.trans hfailed
  · exact ⟨h, .refl _⟩

theorem publishCheckpointProgress_spec (h : IsConsistent tracker now)
    (update : CheckpointProgressUpdate) :
    IsConsistent (publishCheckpointProgress update tracker).2 now ∧
      Follows (publishCheckpointProgress update tracker).2 tracker := by
  rw [publishCheckpointProgress, lift, ProgressTracker.publishCheckpointProgress]
  split
  · exact ⟨h, .refl _⟩
  · next haccepted =>
      have hblocks := UInt64.le_iff_toNat_le.mp h.blocks
      have hremaining := UInt64.toNat_sub_of_le _ _ h.blocks
      have hmin : min update.completedBlocks
          (tracker.plan.totalCheckpointBlocks - tracker.completedCheckpointBlocks) ≤
            tracker.plan.totalCheckpointBlocks - tracker.completedCheckpointBlocks := by
        exact min_le_right _ _
      rw [UInt64.le_iff_toNat_le] at hmin
      have hsize := tracker.plan.totalCheckpointBlocks.toNat_lt
      have hsum := toNat_add_of_lt (a := tracker.completedCheckpointBlocks)
        (b := min update.completedBlocks
          (tracker.plan.totalCheckpointBlocks - tracker.completedCheckpointBlocks)) (by omega)
      refine ⟨⟨h.terms, ?_, h.started, h.finished, h.validated, ?_, h.detail⟩, rfl,
        isValidTransition_refl _, UInt64.le_refl _, ?_⟩
      · rw [UInt64.le_iff_toNat_le]
        dsimp only
        omega
      · dsimp only
        split
        · rw [not_or] at haccepted
          have hrange := haccepted.1
          cases hlast : update.lastCommitted with
          | none => rfl
          | some range =>
              simp [hlast, ProgressTracker.rejectsRange] at hrange
              simpa [ProgressSnapshotData.hasEmptyRange] using hrange.1
        · exact h.committed
      · rw [UInt64.le_iff_toNat_le]
        dsimp only
        omega

theorem recordValidatedCheckpoint_spec (h : IsConsistent tracker now)
    (checkpoint : CheckpointRangeProgress) :
    IsConsistent (recordValidatedCheckpoint checkpoint tracker).2 now ∧
      Follows (recordValidatedCheckpoint checkpoint tracker).2 tracker := by
  rw [recordValidatedCheckpoint, lift, ProgressTracker.recordValidatedCheckpoint]
  split
  · exact ⟨h, .refl _⟩
  · next haccepted =>
      refine ⟨⟨h.terms, h.blocks, h.started, h.finished, ?_, h.committed, h.detail⟩, .of_eq rfl rfl rfl rfl⟩
      simp [ProgressTracker.rejectsRange] at haccepted
      simpa [ProgressSnapshotData.hasEmptyRange] using haccepted.1.1

theorem setCurrentMergeLevel_spec (h : IsConsistent tracker now) (level : UInt32) :
    IsConsistent (setCurrentMergeLevel level tracker).2 now ∧
      Follows (setCurrentMergeLevel level tracker).2 tracker := by
  rw [setCurrentMergeLevel]
  split
  · exact ⟨h, .refl _⟩
  · exact ⟨{ h with }, .of_eq rfl rfl rfl rfl⟩

theorem clearCurrentMergeLevel_spec (h : IsConsistent tracker now) :
    IsConsistent (clearCurrentMergeLevel tracker).2 now ∧
      Follows (clearCurrentMergeLevel tracker).2 tracker := by
  rw [clearCurrentMergeLevel]
  split
  · exact ⟨h, .refl _⟩
  · exact ⟨{ h with }, .of_eq rfl rfl rfl rfl⟩

theorem markFailed_spec (h : IsConsistent tracker now) (detail : Bytes) :
    IsConsistent (markFailed detail now tracker).2 now ∧
      Follows (markFailed detail now tracker).2 tracker := by
  rw [markFailed]
  split
  · exact ⟨h, .refl _⟩
  · next hrunning =>
      refine ⟨⟨h.terms, h.blocks, h.started, ?_, h.validated, h.committed, fun _ => rfl⟩, rfl,
        isValidTransition_failed (by simpa using hrunning), UInt64.le_refl _, UInt64.le_refl _⟩
      intro time htime
      cases htime
      exact h.started

/-- What every section under the mutex does. -/
theorem perform_spec (h : IsConsistent tracker now) (body : TrackerSection) :
    IsConsistent (body.perform now tracker).2 now ∧
      Follows (body.perform now tracker).2 tracker := by
  cases body with
  | transitionTo phase => exact transitionTo_spec h phase
  | publishCheckpointProgress update => exact publishCheckpointProgress_spec h update
  | setCurrentMergeLevel level => exact setCurrentMergeLevel_spec h level
  | clearCurrentMergeLevel => exact clearCurrentMergeLevel_spec h
  | recordValidatedCheckpoint checkpoint => exact recordValidatedCheckpoint_spec h checkpoint
  | markFailed detail => exact markFailed_spec h detail

/-- An exchange that succeeds adds within the limit. -/
theorem exchange_spec (h : IsConsistent tracker now) {count : UInt64}
    (hroom : count ≤ tracker.plan.totalTerms - tracker.completedTerms) :
    IsConsistent { tracker with completedTerms := tracker.completedTerms + count } now ∧
      Follows { tracker with completedTerms := tracker.completedTerms + count } tracker := by
  have hterms := UInt64.le_iff_toNat_le.mp h.terms
  rw [UInt64.le_iff_toNat_le, UInt64.toNat_sub_of_le _ _ h.terms] at hroom
  have hsize := tracker.plan.totalTerms.toNat_lt
  have hsum := toNat_add_of_lt (a := tracker.completedTerms) (b := count) (by omega)
  refine ⟨{ h with terms := ?_ }, rfl, isValidTransition_refl _, ?_, UInt64.le_refl _⟩
  · rw [UInt64.le_iff_toNat_le]
    dsimp only
    omega
  · rw [UInt64.le_iff_toNat_le]
    dsimp only
    omega

/-- What a snapshot copies under the mutex is valid, the counters apart. -/
theorem IsConsistent.collect (h : IsConsistent tracker now) : (collect now tracker).IsValid where
  terms := UInt64.le_iff_toNat_le.mpr (Nat.zero_le _)
  blocks := h.blocks
  elapsed := by
    have hle : tracker.startedAt ≤ tracker.finishedAt.getD now := by
      cases hfinished : tracker.finishedAt with
      | none => exact h.started
      | some time => exact h.finished time hfinished
    exact Int.sub_nonneg.mpr hle
  validated := h.validated
  committed := h.committed
  detail := h.detail

end SharedTracker

/-! ## Runs -/

/-- The values that a thread has gathered for a snapshot. -/
def TrackerPhase.data? : TrackerPhase → Option ProgressSnapshotData
  | .snapshotTerms data => some data
  | .snapshotGauges data _ => some data
  | _ => none

theorem TrackerOperation.data?_start (operation : TrackerOperation) :
    operation.start.data? = none := by
  cases operation <;> rfl

namespace TrackerWorld

variable {ι : Type} {world next : TrackerWorld ι} {i : ι}

/-- What holds in every state. -/
structure IsSafe (world : TrackerWorld ι) : Prop where
  tracker : world.tracker.IsConsistent world.now
  gathered : ∀ i data, (world.threads i).data? = some data →
    data.totalTerms = world.tracker.plan.totalTerms ∧ data.IsValid
  history : ∀ i result, .snapshotted i result ∈ world.history → ∃ snapshot, result = .ok snapshot

theorem IsInitial.isSafe (h : IsInitial world) : IsSafe world where
  tracker := by
    rcases h.created with ⟨plan, hplan⟩
    exact SharedTracker.create_consistent hplan
  gathered i data hdata := by
    rw [h.idle i] at hdata
    simp [TrackerPhase.data?] at hdata
  history i result hresult := by simp [h.history] at hresult

variable [DecidableEq ι]

/-- An access keeps the state safe if what it leaves is, and what it returns. -/
theorem IsSafe.advance (h : IsSafe world) {phase : TrackerPhase} {tracker : SharedTracker}
    {events : List (TrackerEvent ι)} (htracker : tracker.IsConsistent world.now)
    (hplan : tracker.plan = world.tracker.plan)
    (hdata : ∀ data, phase.data? = some data →
      data.totalTerms = tracker.plan.totalTerms ∧ data.IsValid)
    (hevents : ∀ j result, .snapshotted j result ∈ events → ∃ snapshot, result = .ok snapshot) :
    IsSafe (world.advance i phase tracker events) where
  tracker := htracker
  gathered j data hj := by
    simp only [TrackerWorld.advance, Function.update_apply] at hj ⊢
    split at hj
    · exact hdata data hj
    · rw [hplan]
      exact h.gathered j data hj
  history j result hresult := by
    rcases List.mem_append.mp hresult with hold | hnew
    · exact h.history j result hold
    · exact hevents j result hnew

/-- A thread goes on, and neither it nor its access has to do with a snapshot. -/
theorem IsSafe.move (h : IsSafe world) {phase : TrackerPhase} {tracker : SharedTracker}
    {events : List (TrackerEvent ι)} (htracker : tracker.IsConsistent world.now)
    (hplan : tracker.plan = world.tracker.plan) (hdata : phase.data? = none)
    (hevents : ∀ j result, .snapshotted j result ∉ events) :
    IsSafe (world.advance i phase tracker events) :=
  h.advance htracker hplan (fun data hsome => by simp [hdata] at hsome)
    fun j result hresult => absurd hresult (hevents j result)

theorem ThreadStep.spec (hs : ThreadStep i world next) (h : IsSafe world) :
    IsSafe next ∧ next.tracker.Follows world.tracker := by
  cases hs with
  | call operation hi =>
      exact ⟨h.move h.tracker rfl operation.data?_start (by simp), .refl _⟩
  | locked hi =>
      rename_i body
      rcases SharedTracker.perform_spec h.tracker body with ⟨hconsistent, hfollows⟩
      exact ⟨h.move hconsistent hfollows.plan rfl (by simp), hfollows⟩
  | addStopped hi hstopped => exact ⟨h.move h.tracker rfl rfl (by simp), .refl _⟩
  | addRunning hi hrunning => exact ⟨h.move h.tracker rfl rfl (by simp), .refl _⟩
  | addLoad hi => exact ⟨h.move h.tracker rfl rfl (by simp), .refl _⟩
  | addRefused hi hroom => exact ⟨h.move h.tracker rfl rfl (by simp), .refl _⟩
  | addExchanged hi hroom hcurrent =>
      subst hcurrent
      rcases SharedTracker.exchange_spec h.tracker hroom with ⟨hconsistent, hfollows⟩
      exact ⟨h.move hconsistent rfl rfl (by simp), hfollows⟩
  | addRetry hi hroom => exact ⟨h.move h.tracker rfl rfl (by simp), .refl _⟩
  | storeStopped hi hstopped => exact ⟨h.move h.tracker rfl rfl (by simp), .refl _⟩
  | storeRunning hi hrunning => exact ⟨h.move h.tracker rfl rfl (by simp), .refl _⟩
  | store hi => exact ⟨h.move { h.tracker with } rfl rfl (by simp), .of_eq rfl rfl rfl rfl⟩
  | storeDone hi => exact ⟨h.move h.tracker rfl rfl (by simp), .refl _⟩
  | snapshotLock hi =>
      refine ⟨h.advance h.tracker rfl ?_ (by simp), .refl _⟩
      intro data hdata
      cases hdata
      exact ⟨rfl, h.tracker.collect⟩
  | snapshotTerms hi =>
      rcases h.gathered i _ (by rw [hi]; rfl) with ⟨htotal, hvalid⟩
      refine ⟨h.advance h.tracker rfl ?_ (by simp), .refl _⟩
      intro data hdata
      cases hdata
      exact ⟨htotal, { hvalid with terms := htotal ▸ h.tracker.terms }⟩
  | snapshotGauge hi =>
      rcases h.gathered i _ (by rw [hi]; rfl) with ⟨htotal, hvalid⟩
      refine ⟨h.advance h.tracker rfl ?_ (by simp), .refl _⟩
      intro data hdata
      cases hdata
      exact ⟨by rw [ProgressSnapshotData.setGauge_totalTerms, htotal], hvalid.setGauge _ _⟩
  | snapshotBuild hi =>
      rcases h.gathered i _ (by rw [hi]; rfl) with ⟨-, hvalid⟩
      rcases ProgressSnapshotData.create_of_isValid hvalid with ⟨snapshot, hsnapshot, -⟩
      refine ⟨h.advance h.tracker rfl (by simp [TrackerPhase.data?]) ?_, .refl _⟩
      intro j result hresult
      simp only [List.mem_singleton, TrackerEvent.snapshotted.injEq] at hresult
      exact ⟨snapshot, hresult.2.trans hsnapshot⟩

theorem Step.spec (hs : Step world next) (h : IsSafe world) :
    IsSafe next ∧ next.tracker.Follows world.tracker := by
  cases hs with
  | thread i hs => exact hs.spec h
  | tick now hle => exact ⟨⟨h.tracker.mono hle, h.gathered, h.history⟩, .refl _⟩

theorem isSafe_of_reachable (h : (system ι).Reachable world) : IsSafe world :=
  h.invariant (P := IsSafe) (fun _ hinitial => IsInitial.isSafe hinitial)
    fun _ _ _ hsafe hs => (Step.spec hs hsafe).1

/-- A run takes nothing back. -/
structure Later (later world : TrackerWorld ι) : Prop where
  terms : world.tracker.completedTerms ≤ later.tracker.completedTerms
  blocks : world.tracker.completedCheckpointBlocks ≤ later.tracker.completedCheckpointBlocks
  terminal : isTerminal world.tracker.phase = true → later.tracker.phase = world.tracker.phase

theorem later_of_run (h : (system ι).Reachable world)
    (hrun : Relation.ReflTransGen Step world next) : Later next world := by
  induction hrun with
  | refl => exact ⟨UInt64.le_refl _, UInt64.le_refl _, fun _ => rfl⟩
  | tail hrun hs ih =>
      have hfollows := (Step.spec hs (isSafe_of_reachable (h.run hrun))).2
      refine ⟨UInt64.le_trans ih.terms hfollows.terms, UInt64.le_trans ih.blocks hfollows.blocks, ?_⟩
      intro hterminal
      have hsame := ih.terminal hterminal
      exact (eq_of_isValidTransition (hsame ▸ hterminal) hfollows.phase).trans hsame

/-- What the threads can rely on in a state, and in every run from it. -/
structure Guarantees (world : TrackerWorld ι) : Prop where
  terms : world.tracker.completedTerms ≤ world.tracker.plan.totalTerms
  blocks : world.tracker.completedCheckpointBlocks ≤ world.tracker.plan.totalCheckpointBlocks
  /-- No snapshot throws, and a failure detail is there in the failed phase only. -/
  snapshots : ∀ i result, .snapshotted i result ∈ world.history → ∃ snapshot, result = .ok snapshot ∧
    (snapshot.data.failureDetail.isSome → snapshot.data.phase = .failed)
  transitions : ∀ next, Step world next →
    isValidTransition world.tracker.phase next.tracker.phase = true
  terms_monotone : ∀ later, Relation.ReflTransGen Step world later →
    world.tracker.completedTerms ≤ later.tracker.completedTerms
  blocks_monotone : ∀ later, Relation.ReflTransGen Step world later →
    world.tracker.completedCheckpointBlocks ≤ later.tracker.completedCheckpointBlocks
  completed_absorbing : world.tracker.phase = .completed → ∀ later,
    Relation.ReflTransGen Step world later → later.tracker.phase = .completed
  failed_absorbing : world.tracker.phase = .failed → ∀ later,
    Relation.ReflTransGen Step world later → later.tracker.phase = .failed

/-- They hold however the accesses of the threads and the clock interleave. -/
theorem tracker_guarantees (h : (system ι).Reachable world) : Guarantees world where
  terms := (isSafe_of_reachable h).tracker.terms
  blocks := (isSafe_of_reachable h).tracker.blocks
  snapshots i result hresult := by
    rcases (isSafe_of_reachable h).history i result hresult with ⟨snapshot, rfl⟩
    exact ⟨snapshot, rfl, snapshot.detail_phase⟩
  transitions next hs := (Step.spec hs (isSafe_of_reachable h)).2.phase
  terms_monotone later hrun := (later_of_run h hrun).terms
  blocks_monotone later hrun := (later_of_run h hrun).blocks
  completed_absorbing hphase later hrun := by
    rw [(later_of_run h hrun).terminal (by rw [hphase]; rfl), hphase]
  failed_absorbing hphase later hrun := by
    rw [(later_of_run h hrun).terminal (by rw [hphase]; rfl), hphase]

/-- A tracker of 72 terms and 4 blocks. -/
def seventyTwoTerms : SharedTracker where
  toProgressTracker := .ofPlan ⟨1000, 72, 4⟩
  startedAt := 0
  gauges _ := 0
  currentMergeLevel := none
  failureDetail := none
  finishedAt := none

/-- Two threads before their first operation on it. -/
def twoIdle : TrackerWorld Bool :=
  ⟨seventyTwoTerms, fun _ => .idle, 0, []⟩

theorem tracker_guarantees_failed : ∃ world : TrackerWorld Bool,
    world.tracker.phase = .failed ∧ world.tracker.failureDetail.isSome ∧ Guarantees world := by
  have hstart : (system Bool).Reachable twoIdle :=
    .initial ⟨⟨⟨1000, 72, 4⟩, rfl⟩, fun _ => rfl, rfl⟩
  have hcalled := hstart.step (.thread true (.call (.locked (.markFailed [])) rfl))
  exact ⟨_, rfl, rfl, tracker_guarantees (hcalled.step (.thread true (.locked rfl)))⟩

end TrackerWorld

end GiveMePi.Progress
