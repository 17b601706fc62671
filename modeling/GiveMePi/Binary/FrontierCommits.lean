import GiveMePi.Binary.SplitRuns

/-! # The frontiers that a split commits

Every frontier that a split shows to the checkpoint coordinator tiles the terms with levels of the
computation tree, and a range keeps the level it was seeded or committed at. -/

namespace GiveMePi.Binary

open Library (Meets Tiles)

variable {σ α : Type}

/-! ## Recorded commits -/

/-- A call of `commitFrontier`: the state it finds, what it is shown, and how it ends. -/
structure FrontierCommit (σ : Type) where
  before : σ
  nodes : List BinaryNode
  treeLevels : List UInt32
  result : Except Error Unit

/-- A state with the commits made so far, the first one first. -/
structure Recorded (σ : Type) where
  state : σ
  commits : List (FrontierCommit σ)

/-- What a call returned or threw. -/
def outcome : EStateM.Result Error σ α → Except Error α
  | .ok a _ => .ok a
  | .error e _ => .error e

/-- The commits of a recorded run. -/
def commitsOf : EStateM.Result Error (Recorded σ) α → List (FrontierCommit σ)
  | .ok _ recorded => recorded.commits
  | .error _ recorded => recorded.commits

namespace Recorded

/-- An action that commits nothing. -/
def lift (action : Action σ α) : Action (Recorded σ) α := fun recorded =>
  match action recorded.state with
  | .ok a s => .ok a { recorded with state := s }
  | .error e s => .error e { recorded with state := s }

def observer (observer : BinarySplitObserver σ) : BinarySplitObserver (Recorded σ) where
  termsCompleted count recorded :=
    { recorded with state := observer.termsCompleted count recorded.state }
  mergeLevelStarted mergeLevel recorded :=
    { recorded with state := observer.mergeLevelStarted mergeLevel recorded.state }

def mergeCoordinator (coordinator : BinaryMergeCoordinator σ) :
    BinaryMergeCoordinator (Recorded σ) where
  observeResidentNodes nodes mergeLevel := lift (coordinator.observeResidentNodes nodes mergeLevel)
  prepareMergeNodes nodes mergeLevel := lift (coordinator.prepareMergeNodes nodes mergeLevel)
  spillAfterMergeLevel nodes mergeLevel := lift (coordinator.spillAfterMergeLevel nodes mergeLevel)

/-- Every commit is recorded, also one that throws. -/
def checkpointCoordinator (coordinator : BinaryCheckpointCoordinator σ) :
    BinaryCheckpointCoordinator (Recorded σ) where
  commitFrontier nodes treeLevels := fun recorded =>
    let result := coordinator.commitFrontier nodes treeLevels recorded.state
    let commits := recorded.commits ++ [⟨recorded.state, nodes, treeLevels, outcome result⟩]
    match result with
    | .ok _ s => .ok () ⟨s, commits⟩
    | .error e s => .error e ⟨s, commits⟩

/-- A condition on the state and one on the commits. -/
def Holds (now : σ → Prop) (past : List (FrontierCommit σ) → Prop) (recorded : Recorded σ) :
    Prop :=
  now recorded.state ∧ past recorded.commits

theorem lift_meets {action : Action σ α} {pre : σ → Prop} {post : α → σ → Prop}
    {fail : Error → σ → Prop} (h : Meets pre action post fail)
    (past : List (FrontierCommit σ) → Prop) :
    Meets (Holds pre past) (lift action) (fun a => Holds (post a) past)
      (fun e => Holds (fail e) past) := by
  intro recorded hrecorded
  have hresult := h recorded.state hrecorded.1
  rw [lift]
  cases hrun : action recorded.state with
  | ok a s =>
      rw [hrun] at hresult
      exact ⟨hresult, hrecorded.2⟩
  | error e s =>
      rw [hrun] at hresult
      exact ⟨hresult, hrecorded.2⟩

/-- A commit grows the record by itself. -/
theorem commitFrontier_meets {coordinator : BinaryCheckpointCoordinator σ}
    {nodes : List BinaryNode} {treeLevels : List UInt32} {pre : σ → Prop} {post : Unit → σ → Prop}
    {fail : Error → σ → Prop}
    (h : Meets pre (coordinator.commitFrontier nodes treeLevels) post fail)
    {past past' : List (FrontierCommit σ) → Prop}
    (hpast : ∀ s commits, pre s → past commits → past' (commits ++
      [⟨s, nodes, treeLevels, outcome (coordinator.commitFrontier nodes treeLevels s)⟩])) :
    Meets (Holds pre past) ((checkpointCoordinator coordinator).commitFrontier nodes treeLevels)
      (fun u => Holds (post u) past') (fun e => Holds (fail e) past') := by
  intro recorded hrecorded
  have hresult := h recorded.state hrecorded.1
  have hcommits := hpast _ _ hrecorded.1 hrecorded.2
  rw [checkpointCoordinator]
  simp only
  cases hrun : coordinator.commitFrontier nodes treeLevels recorded.state with
  | ok a s =>
      rw [hrun] at hresult hcommits
      exact ⟨hresult, hcommits⟩
  | error e s =>
      rw [hrun] at hresult hcommits
      exact ⟨hresult, hcommits⟩

end Recorded

/-! ## Ranges and their levels -/

/-- A range and its tree level. -/
abbrev PlacedRange := (UInt64 × UInt64) × UInt32

def placed (nodes : List BinaryNode) (treeLevels : List UInt32) : List PlacedRange :=
  (nodes.map BinaryNode.range).zip treeLevels

def FrontierCommit.placed (commit : FrontierCommit σ) : List PlacedRange :=
  Binary.placed commit.nodes commit.treeLevels

def BinaryFrontierNode.placed (seed : BinaryFrontierNode) : PlacedRange :=
  (seed.node.range, seed.treeLevel)

/-- Every range of the first list is part of one of the second, and at the same level when it is the
whole of it. -/
def Within (known current : List PlacedRange) : Prop :=
  ∀ place ∈ known, ∃ holder ∈ current, holder.1.1 ≤ place.1.1 ∧ place.1.2 ≤ holder.1.2 ∧
    (place.1 = holder.1 → place.2 = holder.2)

namespace Within

variable {first second third known current : List PlacedRange}

theorem of_subset (h : first ⊆ second) : Within first second :=
  fun place hmem => ⟨place, h hmem, le_rfl, le_rfl, fun _ => rfl⟩

theorem append (hfirst : Within first current) (hsecond : Within second current) :
    Within (first ++ second) current := by
  intro place hmem
  rcases List.mem_append.mp hmem with hmem | hmem
  · exact hfirst place hmem
  · exact hsecond place hmem

theorem trans (hfirst : Within first second) (hsecond : Within second third) :
    Within first third := by
  intro place hmem
  obtain ⟨middle, hmiddle, hstart, hstop, hlevel⟩ := hfirst place hmem
  obtain ⟨holder, hholder, hstart', hstop', hlevel'⟩ := hsecond middle hmiddle
  refine ⟨holder, hholder, hstart'.trans hstart, hstop.trans hstop', fun hequal => ?_⟩
  -- a range between two equal ones is equal to both
  have hmiddleRange : place.1 = middle.1 := by
    rw [hequal] at hstart hstop
    rw [hequal]
    exact Prod.ext (le_antisymm hstart' hstart) (le_antisymm hstop hstop')
  rw [hlevel hmiddleRange, hlevel' (hmiddleRange.symm.trans hequal)]

/-- Of the ranges of a tiling none is part of another one. -/
theorem eq_of_tiles {start stop : UInt64} (htiles : Tiles start (current.map Prod.fst) stop)
    {place holder : PlacedRange} (hplace : place ∈ current) (hholder : holder ∈ current)
    (hstart : holder.1.1 ≤ place.1.1) (hstop : place.1.2 ≤ holder.1.2) : holder = place := by
  have hpairwise := List.pairwise_map.mp htiles.pairwise_le
  have hlt {other : PlacedRange} (hmem : other ∈ current) : other.1.1 < other.1.2 :=
    (htiles.bounds_of_mem (List.mem_map_of_mem hmem)).2.1
  have hrelated : holder = place ∨ holder.1.2 ≤ place.1.1 ∨ place.1.2 ≤ holder.1.1 := by
    refine @List.Pairwise.forall_of_forall _ (fun left right : PlacedRange =>
      left = right ∨ left.1.2 ≤ right.1.1 ∨ right.1.2 ≤ left.1.1) _ ?_ ?_ ?_ _ hholder _ hplace
    · exact ⟨fun left right h => h.imp Eq.symm Or.symm⟩
    · exact fun _ _ => Or.inl rfl
    · exact hpairwise.imp fun h => Or.inr (Or.inl h)
  rcases hrelated with heq | hle | hle
  · exact heq
  · exact absurd (hle.trans_lt (hlt hplace)) hstop.not_gt
  · exact absurd ((hlt hplace).trans_le hle) hstart.not_gt

/-- What lies within a tiling has the level of the range it is equal to. -/
theorem level_eq (h : Within known current) {start stop : UInt64}
    (htiles : Tiles start (current.map Prod.fst) stop) {place other : PlacedRange}
    (hplace : place ∈ current) (hother : other ∈ known) (hequal : other.1 = place.1) :
    other.2 = place.2 := by
  obtain ⟨holder, hholder, hstart, hstop, hlevel⟩ := h other hother
  rw [hequal] at hstart hstop hlevel
  obtain rfl := eq_of_tiles htiles hplace hholder hstart hstop
  exact hlevel rfl

end Within

theorem map_fst_placed {nodes : List BinaryNode} {treeLevels : List UInt32}
    (h : nodes.length = treeLevels.length) :
    (placed nodes treeLevels).map Prod.fst = nodes.map BinaryNode.range := by
  rw [placed, List.map_fst_zip]
  rw [List.length_map, h]

/-- A merge level puts every range into one of the next frontier, and a range that is carried over
keeps its level. -/
theorem within_next {start stop termCount : UInt64} {nodes : List BinaryNode}
    {treeLevels : List UInt32} (htiles : Tiles start (nodes.map BinaryNode.range) stop)
    (hlength : treeLevels.length = nodes.length) :
    Within (placed nodes treeLevels) (placed (joinPairs nodes)
      (nextTreeLevels termCount treeLevels)) := by
  induction nodes using joinPairs.induct generalizing start treeLevels with
  | case1 => exact fun place hmem => absurd hmem List.not_mem_nil
  | case2 node =>
      obtain ⟨level, rfl⟩ := List.length_eq_one_iff.mp hlength
      exact Within.of_subset fun place hmem => hmem
  | case3 left right rest ih =>
      rcases treeLevels with _ | ⟨leftLevel, _ | ⟨rightLevel, levels⟩⟩
      · simp at hlength
      · simp at hlength
      · obtain ⟨hstart, hleft, hadjacent, hright, hrest⟩ := htiles
        have hnext := ih hrest (by simpa using hlength)
        have hjoined : left.start < left.stop ∧ left.stop = right.start ∧
            left.stop < right.stop := ⟨hstart ▸ hleft, hadjacent.symm, hright⟩
        intro place hmem
        simp only [placed, List.map_cons, List.zip_cons_cons, List.mem_cons] at hmem
        simp only [placed, joinPairs, nextTreeLevels, List.map_cons, List.zip_cons_cons,
          List.exists_mem_cons_iff]
        rcases hmem with rfl | rfl | hmem
        · refine Or.inl ⟨le_rfl, hjoined.2.2.le, fun hequal => ?_⟩
          exact absurd (Prod.mk.inj hequal).2 hjoined.2.2.ne
        · refine Or.inl ⟨(hjoined.1.trans_le hjoined.2.1.le).le, le_rfl, fun hequal => ?_⟩
          exact absurd (Prod.mk.inj hequal).1 (hjoined.1.trans_le hjoined.2.1.le).ne'
        · exact Or.inr (hnext place hmem)

/-! ## Publishable frontiers -/

/-- A frontier that may be published over `[0, termCount)`, when the known ranges have been seeded or
committed before. -/
structure IsPublishable (termCount : UInt64) (known : List PlacedRange) (nodes : List BinaryNode)
    (treeLevels : List UInt32) : Prop where
  length_eq : nodes.length = treeLevels.length
  ne_nil : nodes ≠ []
  tiles : Tiles 0 (nodes.map BinaryNode.range) termCount
  hasValues : ∀ node ∈ nodes, node.hasValues = true
  level_le : ∀ level ∈ treeLevels, level ≤ maximumTreeLevel termCount
  stable : ∀ place ∈ placed nodes treeLevels, ∀ other ∈ known, other.1 = place.1 →
    other.2 = place.2

/-- Every commit is publishable after the seeds and the commits before it. -/
def ArePublishable (termCount : UInt64) (seeds : List PlacedRange)
    (commits : List (FrontierCommit σ)) : Prop :=
  ∀ before commit after, commits = before ++ commit :: after →
    IsPublishable termCount (seeds ++ before.flatMap FrontierCommit.placed) commit.nodes
      commit.treeLevels

section

variable {termCount : UInt64} {seeds : List PlacedRange} {nodes : List BinaryNode}
  {treeLevels : List UInt32} {commits : List (FrontierCommit σ)}

theorem ArePublishable.nil : ArePublishable termCount seeds ([] : List (FrontierCommit σ)) :=
  fun before commit after h => by simp at h

theorem ArePublishable.concat (h : ArePublishable termCount seeds commits)
    {commit : FrontierCommit σ} (hcommit : IsPublishable termCount
      (seeds ++ commits.flatMap FrontierCommit.placed) commit.nodes commit.treeLevels) :
    ArePublishable termCount seeds (commits ++ [commit]) := by
  intro before other after heq
  cases after using List.reverseRecOn with
  | nil =>
      obtain ⟨rfl, hlast⟩ := List.append_inj' heq rfl
      obtain rfl := List.singleton_inj.mp hlast
      exact hcommit
  | append_singleton after last =>
      rw [← List.cons_append, ← List.append_assoc] at heq
      exact h before other after (List.append_inj' heq rfl).1

/-- The whole range at level zero, when nothing is known. -/
theorem IsPublishable.single (hpos : 0 < termCount) :
    IsPublishable termCount [] [BinaryNode.ofRange 0 termCount] [0] where
  length_eq := rfl
  ne_nil := List.cons_ne_nil _ _
  tiles := Tiles.singleton hpos
  hasValues node hmem := by
    rw [List.mem_singleton.mp hmem]
    exact ofRange_hasValues hpos.le
  level_le level hmem := by
    rw [List.mem_singleton.mp hmem]
    exact UInt32.zero_le
  stable _ _ _ hmem := absurd hmem List.not_mem_nil

/-- A stage whose frontier holds what is known is publishable. -/
theorem IsStage.isPublishable {mergeLevel : UInt32} (hpos : 0 < termCount)
    (h : IsStage (fun level => level ≤ maximumTreeLevel termCount) 0 termCount mergeLevel nodes
      treeLevels) {known : List PlacedRange} (hknown : Within known (placed nodes treeLevels)) :
    IsPublishable termCount known nodes treeLevels where
  length_eq := h.length_treeLevels.symm
  ne_nil := by
    intro hnil
    have htiles := h.frontier.tiles
    rw [hnil] at htiles
    exact hpos.ne htiles
  tiles := h.frontier.tiles
  hasValues node hmem := by
    rw [h.frontier.isTrue node hmem]
    exact ofRange_hasValues (h.frontier.lt_of_mem hmem).le
  level_le := h.treeLevels
  stable place hplace other hother hequal := by
    have htiles := h.frontier.tiles
    rw [← map_fst_placed h.length_treeLevels.symm] at htiles
    exact hknown.level_eq htiles hplace hother hequal

end

/-- The commits made so far are publishable, each has a further property, and what is known lies
within the frontier. -/
structure Tracks (termCount : UInt64) (seeds : List PlacedRange)
    (property : FrontierCommit σ → Prop) (nodes : List BinaryNode) (treeLevels : List UInt32)
    (commits : List (FrontierCommit σ)) : Prop where
  arePublishable : ArePublishable termCount seeds commits
  property : ∀ commit ∈ commits, property commit
  within : Within (seeds ++ commits.flatMap FrontierCommit.placed) (placed nodes treeLevels)

/-- What a split leaves of its commits. -/
def AreSound (termCount : UInt64) (seeds : List PlacedRange) (property : FrontierCommit σ → Prop)
    (commits : List (FrontierCommit σ)) : Prop :=
  ArePublishable termCount seeds commits ∧ ∀ commit ∈ commits, property commit

namespace Tracks

variable {termCount : UInt64} {seeds : List PlacedRange} {property : FrontierCommit σ → Prop}
  {nodes : List BinaryNode} {treeLevels : List UInt32} {commits : List (FrontierCommit σ)}
  {mergeLevel : UInt32} (h : Tracks termCount seeds property nodes treeLevels commits)
  (hstage : IsStage (fun level => level ≤ maximumTreeLevel termCount) 0 termCount mergeLevel nodes
    treeLevels)

include h

theorem areSound : AreSound termCount seeds property commits :=
  ⟨h.arePublishable, h.property⟩

include hstage

/-- The commit of a stage keeps what is known within its frontier. -/
theorem commit (hpos : 0 < termCount) {commit : FrontierCommit σ} (hnodes : commit.nodes = nodes)
    (hlevels : commit.treeLevels = treeLevels)
    (hproperty : IsPublishable termCount (seeds ++ commits.flatMap FrontierCommit.placed)
      commit.nodes commit.treeLevels → property commit) :
    Tracks termCount seeds property nodes treeLevels (commits ++ [commit]) := by
  subst hnodes hlevels
  have hpublishable := hstage.isPublishable hpos h.within
  refine ⟨h.arePublishable.concat hpublishable, ?_, ?_⟩
  · rw [List.forall_mem_append, List.forall_mem_singleton]
    exact ⟨h.property, hproperty hpublishable⟩
  · rw [List.flatMap_append, ← List.append_assoc]
    refine h.within.append (Within.of_subset ?_)
    simp [FrontierCommit.placed]

/-- A merge level keeps what is known within the frontier. -/
theorem next :
    Tracks termCount seeds property (joinPairs nodes) (nextTreeLevels termCount treeLevels)
      commits :=
  ⟨h.arePublishable, h.property,
    h.within.trans (within_next hstage.frontier.tiles hstage.length_treeLevels)⟩

end Tracks

/-! ## Splits from their pieces -/

/-- The pieces of a split are the frontier of its first stage. -/
theorem IsSplittable.isStage {levelOk : UInt32 → Prop} {start stop : UInt64}
    {options : ParallelSplitOptions} {frontier : List BinaryFrontierNode}
    (h : IsSplittable start stop options frontier) (executor : Executor) (hzero : levelOk 0)
    (htrue : ∀ seed ∈ frontier, seed.node.IsTrue)
    (hlevels : ∀ seed ∈ frontier, levelOk seed.treeLevel) :
    IsStage levelOk start stop 0
      ((splitPieces executor start stop options frontier).map LayoutPiece.node)
      ((splitPieces executor start stop options frontier).map LayoutPiece.treeLevel) := by
  have hseeds := splitPieces_seed? executor start stop options frontier
  have htiles := h.tiles executor
  generalize splitPieces executor start stop options frontier = pieces at hseeds htiles
  have hseed (seed : BinaryFrontierNode) (hmem : LayoutPiece.seed seed ∈ pieces) :
      seed ∈ frontier := by
    have hfound : seed ∈ pieces.filterMap LayoutPiece.seed? := List.mem_filterMap.mpr ⟨_, hmem, rfl⟩
    rw [hseeds] at hfound
    exact (List.mergeSort_perm _ _).mem_iff.mp hfound
  have hfrontier : IsFrontier start (pieces.map LayoutPiece.node) stop := by
    refine ⟨?_, ?_⟩
    · rwa [List.map_map, show BinaryNode.range ∘ LayoutPiece.node = LayoutPiece.range from
        funext LayoutPiece.node_range]
    · rw [List.forall_mem_map]
      intro piece hmem
      cases piece with
      | seed seed => exact htrue seed (hseed seed hmem)
      | block blockStart blockStop => exact BinaryNode.ofRange_isTrue _ _
  refine ⟨hfrontier, by simp, ?_, ?_⟩
  · rw [List.forall_mem_map]
    intro piece hmem
    cases piece with
    | seed seed => exact hlevels seed (hseed seed hmem)
    | block blockStart blockStop => exact hzero
  · have hbound := hfrontier.length_le
    have hlimit := stop.toNat_lt
    rw [UInt32.toNat_zero, pow_zero]
    omega

/-- Whether the caller computes the whole range itself. -/
def IsDirect (executor : Executor) (start stop : UInt64) (options : ParallelSplitOptions)
    (frontier : List BinaryFrontierNode) : Prop :=
  frontier.isEmpty ∧ (stop - start ≤ options.sequentialCutoff ∨
    acceptsStagedWork executor = false ∨ boundedBlockCount (stop - start)
      options.sequentialCutoff executor.workerCount options.tasksPerWorker < 2)

instance (executor : Executor) (start stop : UInt64) (options : ParallelSplitOptions)
    (frontier : List BinaryFrontierNode) :
    Decidable (IsDirect executor start stop options frontier) :=
  inferInstanceAs (Decidable (_ ∧ _))

/-- A split whose coordinators keep their contract from the frontier of its pieces on. -/
theorem StageContract.splitParallel_meets_stages (executor : Executor)
    {observer : BinarySplitObserver σ} {mergeCoordinator : BinaryMergeCoordinator σ}
    {checkpointCoordinator : BinaryCheckpointCoordinator σ} {levelOk : UInt32 → Prop}
    {start stop : UInt64} {fail : Error → σ → Prop}
    (contract : StageContract observer mergeCoordinator checkpointCoordinator levelOk start stop
      fail) {options : ParallelSplitOptions} {frontier : List BinaryFrontierNode}
    {before : σ → Prop}
    (hthrow : ¬ IsSplittable start stop options frontier → ∀ e s, before s → fail e s)
    (hterms : ∀ count s, before s → before (observer.termsCompleted count s))
    (hdirect : IsDirect executor start stop options frontier → start < stop → Meets before
      (checkpointCoordinator.commitFrontier [BinaryNode.ofRange start stop] [0])
      (fun _ => contract.finished) fail)
    (hstart : ¬ IsDirect executor start stop options frontier →
      IsSplittable start stop options frontier → ∀ s, before s → contract.fresh 0
        ((splitPieces executor start stop options frontier).map LayoutPiece.node)
        ((splitPieces executor start stop options frontier).map LayoutPiece.treeLevel) s)
    (htrue : ∀ seed ∈ frontier, seed.node.IsTrue)
    (hcap : ∀ level, level ≤ maximumTreeLevel (stop - start) → levelOk level)
    (hlevels : ∀ seed ∈ frontier, levelOk seed.treeLevel) :
    Meets before
      (splitParallel executor observer mergeCoordinator checkpointCoordinator start stop options
        frontier)
      (fun node s => node = BinaryNode.ofRange start stop ∧ contract.finished s) fail := by
  have hexcept {β : Type} (x : Except Error β) {next : β → Action σ BinaryNode}
      (hnext : ∀ a, x = .ok a → Meets before (next a)
        (fun node s => node = BinaryNode.ofRange start stop ∧ contract.finished s) fail)
      (herror : ∀ e, x = .error e → ¬ IsSplittable start stop options frontier) :
      Meets before ((liftM x : Action σ β) >>= next)
        (fun node s => node = BinaryNode.ofRange start stop ∧ contract.finished s) fail := by
    cases x with
    | ok a => exact hnext a rfl
    | error e => exact fun s hs => hthrow (herror e rfl) e s hs
  rw [splitParallel]
  refine hexcept _ (fun _ hrange => ?_) fun e herror h => ?_
  · refine hexcept _ (fun _ hcutoff => ?_) fun e herror h => ?_
    · refine hexcept _ (fun _ htasks => ?_) fun e herror h => ?_
      · refine hexcept _ (fun sorted hsort => ?_) fun e herror h => ?_
        · obtain ⟨hsplittable, hempty, hsorted⟩ :=
            IsSplittable.of_checks hrange hcutoff htasks hsort
          simp only [hempty]
          by_cases hcaller : IsDirect executor start stop options frontier
          · have hcaller' := hcaller
            rw [IsDirect] at hcaller'
            rw [if_pos hcaller', splitSequential_eq hsplittable.lt]
            simp only [Action.liftM_eq, Action.ofExcept_ok, pure_bind]
            refine Meets.bind_of (fun _ => before) (fun s hs => hterms _ s hs) fun _ => ?_
            exact Meets.bind (hdirect hcaller hsplittable.lt) fun _ =>
              Meets.pure fun s hs => ⟨rfl, hs⟩
          · have hstage := hsplittable.isStage executor (hcap 0 UInt32.zero_le) htrue hlevels
            replace hstart := hstart hcaller hsplittable
            rw [IsDirect] at hcaller
            have hpieces : splitPieces executor start stop options frontier =
                Layout.frontierPieces executor options (acceptsStagedWork executor) stop sorted
                  start := by
              rw [splitPieces, hsorted]
              exact if_neg hcaller
            have hnonempty : ∀ piece ∈ splitPieces executor start stop options frontier,
                piece.range.1 < piece.range.2 := fun piece hmem =>
              ((hsplittable.tiles executor).bounds_of_mem (List.mem_map_of_mem hmem)).2.1
            have hne : splitPieces executor start stop options frontier ≠ [] := by
              intro hnil
              have htiles := hsplittable.tiles executor
              rw [hnil] at htiles
              exact hsplittable.lt.ne htiles
            rw [if_neg hcaller, Layout.appendFrontier_eq, ← hpieces]
            generalize splitPieces executor start stop options frontier = pieces at *
            have hreports : ∀ (i : ℕ) (block : UInt64 × UInt64),
                (pieces.filterMap LayoutPiece.block?)[i]? = some block → ∀ done : Finset ℕ,
                  i ∉ done → ∀ s, (fun _ => before) done s →
                    (fun _ => before) (insert i done)
                      (observer.termsCompleted (block.2 - block.1) s) :=
              fun _ block _ _ _ => hterms _
            refine Meets.bind (runStage_blockJobs hnonempty hreports) fun slots =>
              Meets.of_pre ?_
            rintro rfl
            simp only [slotValues_map_some, Action.liftM_eq, Action.ofExcept_ok, pure_bind]
            rw [show (Layout.empty.pushAll pieces).treeLevels = pieces.map LayoutPiece.treeLevel by
              simp [Layout.empty]]
            refine Meets.bind ((contract.completeStage_meets hstage (.inr rfl)).strengthen hstart)
              fun nodes' => Meets.of_pre fun hlength => ?_
            exact contract.mergeLevels_meets hcap _ hstage (by simpa using hne) (by omega) hlength
        · simp [sortAndValidateFrontier, h.frontier] at herror
      · simp [h.tasksPerWorker] at herror
    · simp [h.sequentialCutoff] at herror
  · simp [validateRange, h.lt.not_ge] at herror

/-- A split whose coordinators keep their contract from the frontier of its pieces on; what is
thrown before finds the state as the reports left it. -/
theorem StageContract.splitParallel_meets_pieces (executor : Executor)
    {observer : BinarySplitObserver σ} {mergeCoordinator : BinaryMergeCoordinator σ}
    {checkpointCoordinator : BinaryCheckpointCoordinator σ} {levelOk : UInt32 → Prop}
    {start stop : UInt64} {fail : Error → σ → Prop}
    (contract : StageContract observer mergeCoordinator checkpointCoordinator levelOk start stop
      fail) {options : ParallelSplitOptions} {frontier : List BinaryFrontierNode}
    {before : σ → Prop} (hthrow : ∀ e s, before s → fail e s)
    (hterms : ∀ count s, before s → before (observer.termsCompleted count s))
    (hdirect : start < stop → frontier = [] → Meets before
      (checkpointCoordinator.commitFrontier [BinaryNode.ofRange start stop] [0])
      (fun _ => contract.finished) fail)
    (hstart : ∀ s, before s → contract.fresh 0
      ((splitPieces executor start stop options frontier).map LayoutPiece.node)
      ((splitPieces executor start stop options frontier).map LayoutPiece.treeLevel) s)
    (htrue : ∀ seed ∈ frontier, seed.node.IsTrue)
    (hcap : ∀ level, level ≤ maximumTreeLevel (stop - start) → levelOk level)
    (hlevels : ∀ seed ∈ frontier, levelOk seed.treeLevel) :
    Meets before
      (splitParallel executor observer mergeCoordinator checkpointCoordinator start stop options
        frontier)
      (fun node s => node = BinaryNode.ofRange start stop ∧ contract.finished s) fail :=
  contract.splitParallel_meets_stages executor (fun _ => hthrow) hterms
    (fun hcaller hlt => hdirect hlt (List.isEmpty_iff.mp hcaller.1)) (fun _ _ => hstart) htrue hcap
    hlevels

/-! ## Storage between the stages -/

/-- What storage keeps during a split: the nodes it is shown after a stage are given back before the
next merge, whatever it spills in between and whatever is committed. -/
structure StorageContract (observer : BinarySplitObserver σ)
    (mergeCoordinator : BinaryMergeCoordinator σ)
    (checkpointCoordinator : BinaryCheckpointCoordinator σ) where
  ready : σ → Prop
  shown : List BinaryNode → UInt32 → σ → Prop
  /-- The nodes as they were shown, and as they are after the spill. -/
  held : List BinaryNode → List BinaryNode → UInt32 → σ → Prop
  terms : ∀ count s, ready s → ready (observer.termsCompleted count s)
  level : ∀ mergeLevel s, ready s → ready (observer.mergeLevelStarted mergeLevel s)
  observe : ∀ nodes mergeLevel, Meets ready
    (mergeCoordinator.observeResidentNodes nodes mergeLevel)
    (fun _ => shown nodes mergeLevel) fun _ _ => True
  commit : ∀ nodes mergeLevel treeLevels, Meets (shown nodes mergeLevel)
    (checkpointCoordinator.commitFrontier nodes treeLevels)
    (fun _ => shown nodes mergeLevel) fun _ _ => True
  spill : ∀ nodes mergeLevel, Meets (shown nodes mergeLevel)
    (mergeCoordinator.spillAfterMergeLevel nodes mergeLevel)
    (fun nodes' s => nodes'.length = nodes.length ∧ held nodes nodes' mergeLevel s) fun _ _ => True
  prepare : ∀ nodes nodes' mergeLevel, Meets (held nodes nodes' mergeLevel)
    (mergeCoordinator.prepareMergeNodes nodes' mergeLevel)
    (fun result s => result = nodes ∧ ready s) fun _ _ => True

/-- Coordinators that leave the nodes alone keep the contract in every state. -/
def LeavesNodes.storageContract {observer : BinarySplitObserver σ}
    {mergeCoordinator : BinaryMergeCoordinator σ}
    {checkpointCoordinator : BinaryCheckpointCoordinator σ}
    (h : LeavesNodes mergeCoordinator checkpointCoordinator) :
    StorageContract observer mergeCoordinator checkpointCoordinator where
  ready _ := True
  shown _ _ _ := True
  held nodes nodes' _ _ := nodes' = nodes
  terms _ _ _ := trivial
  level _ _ _ := trivial
  observe nodes mergeLevel := meets_of_returns (h.observe nodes mergeLevel) fun _ => trivial
  commit nodes _ treeLevels := meets_of_returns (h.commit nodes treeLevels) fun _ => trivial
  spill nodes mergeLevel := meets_of_returns (h.spill nodes mergeLevel) fun _ => ⟨rfl, rfl⟩
  prepare nodes nodes' mergeLevel := fun s hnodes => by
    obtain ⟨s', hrun⟩ := h.prepare nodes' mergeLevel s
    rw [hrun]
    exact ⟨hnodes, trivial⟩

namespace StorageContract

variable {observer : BinarySplitObserver σ} {mergeCoordinator : BinaryMergeCoordinator σ}
  {checkpointCoordinator : BinaryCheckpointCoordinator σ}
  (contract : StorageContract observer mergeCoordinator checkpointCoordinator)

/-- The commit of a publishable frontier, between the stages, has a property. -/
def Grants (termCount : UInt64) (property : FrontierCommit σ → Prop) : Prop :=
  ∀ s known nodes treeLevels, contract.ready s ∨ (∃ mergeLevel, contract.shown nodes mergeLevel s) →
    IsPublishable termCount known nodes treeLevels → property ⟨s, nodes, treeLevels,
      outcome (checkpointCoordinator.commitFrontier nodes treeLevels s)⟩

/-- The contract of the stages with their commits recorded. The record tracks the frontier of the
stage, and what is thrown leaves publishable commits. -/
def recorded {termCount : UInt64} (hpos : 0 < termCount) (seeds : List PlacedRange)
    {property : FrontierCommit σ → Prop} (hgrants : contract.Grants termCount property) :
    StageContract (Recorded.observer observer) (Recorded.mergeCoordinator mergeCoordinator)
      (Recorded.checkpointCoordinator checkpointCoordinator)
      (fun level => level ≤ maximumTreeLevel termCount) 0 termCount
      (fun _ => Recorded.Holds (fun _ => True) (AreSound termCount seeds property)) where
  initial _ := False
  fresh _ nodes treeLevels :=
    Recorded.Holds contract.ready (Tracks termCount seeds property nodes treeLevels)
  observed mergeLevel nodes treeLevels := Recorded.Holds (contract.shown nodes mergeLevel)
    (Tracks termCount seeds property nodes treeLevels)
  committed mergeLevel nodes treeLevels := Recorded.Holds (contract.shown nodes mergeLevel)
    (Tracks termCount seeds property nodes treeLevels)
  spilled mergeLevel nodes nodes' treeLevels :=
    Recorded.Holds (contract.held nodes nodes' mergeLevel)
      (Tracks termCount seeds property nodes treeLevels)
  prepared _ nodes treeLevels :=
    Recorded.Holds contract.ready (Tracks termCount seeds property nodes treeLevels)
  finished := Recorded.Holds (fun _ => True) (AreSound termCount seeds property)
  terms _ _ h := h.elim
  direct := fun _ h => h.elim
  start_fresh _ _ _ _ h := h.elim
  observe mergeLevel nodes treeLevels _ :=
    (Recorded.lift_meets (contract.observe nodes mergeLevel) _).consequence (fun _ => id)
      (fun _ _ => id) fun _ _ h => ⟨trivial, h.2.areSound⟩
  commit mergeLevel nodes treeLevels hstage := by
    have hcommit := Recorded.commitFrontier_meets (contract.commit nodes mergeLevel treeLevels)
      fun s commits hshown (h : Tracks termCount seeds property nodes treeLevels commits) =>
        h.commit hstage hpos rfl rfl (hgrants s _ nodes treeLevels (.inr ⟨mergeLevel, hshown⟩))
    exact hcommit.consequence (fun _ => id) (fun _ _ => id) fun _ _ h => ⟨trivial, h.2.areSound⟩
  skip _ _ _ _ h := h
  spill mergeLevel nodes treeLevels _ _ :=
    (Recorded.lift_meets (contract.spill nodes mergeLevel) _).consequence (fun _ => id)
      (fun _ _ h => ⟨h.1.1, h.1.2, h.2⟩) fun _ _ h => ⟨trivial, h.2.areSound⟩
  prepare mergeLevel nodes nodes' treeLevels _ _ :=
    (Recorded.lift_meets (contract.prepare nodes nodes' mergeLevel) _).consequence
      (fun _ => id) (fun _ _ h => ⟨h.1.1, h.1.2, h.2⟩) fun _ _ h => ⟨trivial, h.2.areSound⟩
  merge mergeLevel nodes treeLevels hstage _ _ h := by
    refine ⟨contract.level mergeLevel _ h.1, ?_⟩
    rw [UInt64.sub_zero]
    exact h.2.next hstage
  finish _ _ _ _ _ h := ⟨trivial, h.2.areSound⟩

/-- Every seed is a piece of the split. -/
theorem within_splitPieces (executor : Executor) (start stop : UInt64)
    (options : ParallelSplitOptions) (frontier : List BinaryFrontierNode) :
    Within (frontier.map BinaryFrontierNode.placed)
      (placed ((splitPieces executor start stop options frontier).map LayoutPiece.node)
        ((splitPieces executor start stop options frontier).map LayoutPiece.treeLevel)) := by
  have hseeds := splitPieces_seed? executor start stop options frontier
  generalize splitPieces executor start stop options frontier = pieces at hseeds
  apply Within.of_subset
  intro place hmem
  obtain ⟨seed, hseed, rfl⟩ := List.mem_map.mp hmem
  rw [← (List.mergeSort_perm frontier _).mem_iff, ← hseeds, List.mem_filterMap] at hseed
  obtain ⟨piece, hpiece, hfound⟩ := hseed
  cases piece with
  | seed other =>
      obtain rfl := Option.some.inj hfound
      rw [placed, List.map_map, List.zip_map']
      exact List.mem_map.mpr ⟨_, hpiece, rfl⟩
  | block blockStart blockStop => cases hfound

/-- The commits of a split are publishable, whether it returns or throws. -/
theorem splitParallel_meets (executor : Executor) {termCount : UInt64}
    (options : ParallelSplitOptions) {frontier : List BinaryFrontierNode}
    (htrue : ∀ seed ∈ frontier, seed.node.IsTrue)
    (hlevels : ∀ seed ∈ frontier, seed.treeLevel ≤ maximumTreeLevel termCount)
    {property : FrontierCommit σ → Prop} (hgrants : contract.Grants termCount property) :
    Meets (Recorded.Holds contract.ready fun commits => commits = [])
      (splitParallel executor (Recorded.observer observer)
        (Recorded.mergeCoordinator mergeCoordinator)
        (Recorded.checkpointCoordinator checkpointCoordinator) 0 termCount options frontier)
      (fun _ => Recorded.Holds (fun _ => True)
        (AreSound termCount (frontier.map BinaryFrontierNode.placed) property))
      (fun _ => Recorded.Holds (fun _ => True)
        (AreSound termCount (frontier.map BinaryFrontierNode.placed) property)) := by
  have hnothing (recorded : Recorded σ)
      (h : Recorded.Holds contract.ready (fun commits => commits = []) recorded) :
      Recorded.Holds (fun _ => True)
        (AreSound termCount (frontier.map BinaryFrontierNode.placed) property) recorded := by
    refine ⟨trivial, ?_⟩
    rw [show recorded.commits = [] from h.2]
    exact ⟨ArePublishable.nil, fun commit hmem => absurd hmem List.not_mem_nil⟩
  by_cases hpos : 0 < termCount
  · refine Meets.weaken ((contract.recorded hpos (frontier.map BinaryFrontierNode.placed)
      hgrants).splitParallel_meets_pieces executor (fun _ => hnothing) ?_ ?_ ?_ htrue ?_ hlevels)
        fun _ _ h => h.2
    · exact fun count recorded h => ⟨contract.terms count _ h.1, h.2⟩
    · intro _ hnone
      subst hnone
      refine Recorded.commitFrontier_meets Meets.any fun s commits hready hcommits => ?_
      subst hcommits
      refine ⟨ArePublishable.nil.concat (IsPublishable.single hpos), ?_⟩
      rw [List.nil_append, List.forall_mem_singleton]
      exact hgrants s [] _ _ (.inl hready) (IsPublishable.single hpos)
    · intro recorded h
      refine ⟨h.1, (hnothing recorded h).2.1, (hnothing recorded h).2.2, ?_⟩
      rw [show recorded.commits = [] from h.2, List.flatMap_nil, List.append_nil]
      exact within_splitPieces executor 0 termCount options frontier
    · rw [UInt64.sub_zero]
      exact fun _ => id
  · intro recorded h
    rw [splitParallel, validateRange, if_pos (not_lt.mp hpos)]
    exact hnothing recorded h

/-- All commits of a split are sound, from a state in which the storage is ready. -/
theorem areSound_commitsOf (executor : Executor) {termCount : UInt64}
    {options : ParallelSplitOptions} {frontier : List BinaryFrontierNode}
    (hfrontier : IsInitialFrontier 0 termCount frontier)
    (hlevels : ∀ seed ∈ frontier, seed.treeLevel ≤ maximumTreeLevel termCount)
    {property : FrontierCommit σ → Prop} (hgrants : contract.Grants termCount property) {s : σ}
    (hready : contract.ready s) :
    AreSound termCount (frontier.map BinaryFrontierNode.placed) property
      (commitsOf (splitParallel executor (Recorded.observer observer)
        (Recorded.mergeCoordinator mergeCoordinator)
        (Recorded.checkpointCoordinator checkpointCoordinator) 0 termCount options frontier
        ⟨s, []⟩)) := by
  have hresult := contract.splitParallel_meets executor options (fun seed => hfrontier.isTrue)
    hlevels hgrants ⟨s, []⟩ ⟨hready, rfl⟩
  cases hrun : splitParallel executor (Recorded.observer observer)
      (Recorded.mergeCoordinator mergeCoordinator)
      (Recorded.checkpointCoordinator checkpointCoordinator) 0 termCount options frontier
      ⟨s, []⟩ with
  | ok node recorded =>
      rw [hrun] at hresult
      exact hresult.2
  | error e recorded =>
      rw [hrun] at hresult
      exact hresult.2

end StorageContract

end GiveMePi.Binary
