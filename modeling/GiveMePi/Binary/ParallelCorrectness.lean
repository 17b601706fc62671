import GiveMePi.Binary.ClosedForm
import GiveMePi.Binary.SplitParallel
import GiveMePi.Library.Tiling

/-! # Parallel splitting computes the sequential node

Every stage keeps a frontier of nodes that hold the values of their ranges, whatever the layout of
the gaps and the course of the tasks. -/

namespace GiveMePi.Binary

open Library

variable {σ : Type}

/-! ## Frontiers -/

def BinaryNode.range (node : BinaryNode) : UInt64 × UInt64 :=
  (node.start, node.stop)

/-- Whether a node holds the values of its range. -/
def BinaryNode.IsTrue (node : BinaryNode) : Prop :=
  node = BinaryNode.ofRange node.start node.stop

@[simp] theorem BinaryNode.ofRange_isTrue (start stop : UInt64) :
    (BinaryNode.ofRange start stop).IsTrue := rfl

/-- Nodes with the values of adjacent ranges from `start` to `stop`. -/
structure IsFrontier (start : UInt64) (nodes : List BinaryNode) (stop : UInt64) : Prop where
  tiles : Tiles start (nodes.map BinaryNode.range) stop
  isTrue : ∀ node ∈ nodes, node.IsTrue

namespace IsFrontier

variable {start stop : UInt64} {nodes : List BinaryNode}

theorem nil : IsFrontier start [] start :=
  ⟨rfl, by simp⟩

@[simp] theorem cons_iff {node : BinaryNode} :
    IsFrontier start (node :: nodes) stop ↔
      node.start = start ∧ start < node.stop ∧ node.IsTrue ∧ IsFrontier node.stop nodes stop := by
  constructor
  · rintro ⟨⟨hstart, hlt, htiles⟩, htrue⟩
    exact ⟨hstart, hlt, htrue node List.mem_cons_self,
      htiles, fun other hmem => htrue other (List.mem_cons_of_mem _ hmem)⟩
  · rintro ⟨hstart, hlt, hnode, htiles, htrue⟩
    exact ⟨⟨hstart, hlt, htiles⟩, List.forall_mem_cons.mpr ⟨hnode, htrue⟩⟩

/-- A frontier grows by a node at its end. -/
theorem concat {node : BinaryNode} (h : IsFrontier start nodes node.start)
    (hlt : node.start < node.stop) (htrue : node.IsTrue) :
    IsFrontier start (nodes ++ [node]) node.stop := by
  refine ⟨?_, ?_⟩
  · rw [List.map_append]
    exact h.tiles.append ⟨rfl, hlt, rfl⟩
  · rw [List.forall_mem_append]
    exact ⟨h.isTrue, by simpa using htrue⟩

theorem lt_of_mem (h : IsFrontier start nodes stop) {node : BinaryNode} (hmem : node ∈ nodes) :
    node.start < node.stop :=
  (h.tiles.bounds_of_mem (List.mem_map_of_mem hmem)).2.1

theorem singleton_eq {node : BinaryNode} (h : IsFrontier start [node] stop) :
    node = BinaryNode.ofRange start stop := by
  obtain ⟨rfl, -, htrue, hnil⟩ := cons_iff.mp h
  obtain rfl : node.stop = stop := hnil.tiles
  exact htrue

end IsFrontier

/-- The frontier after one merge level: neighbours are joined, and an odd last node is carried. -/
def joinPairs : List BinaryNode → List BinaryNode
  | [] => []
  | [node] => [node]
  | left :: right :: rest => BinaryNode.ofRange left.start right.stop :: joinPairs rest

theorem joinPairs_isFrontier {start stop : UInt64} {nodes : List BinaryNode}
    (h : IsFrontier start nodes stop) : IsFrontier start (joinPairs nodes) stop := by
  induction nodes using joinPairs.induct generalizing start with
  | case1 => exact h
  | case2 node => exact h
  | case3 left right rest ih =>
      obtain ⟨rfl, hleft, -, hnext⟩ := IsFrontier.cons_iff.mp h
      obtain ⟨hadjacent, hright, -, hrest⟩ := IsFrontier.cons_iff.mp hnext
      rw [joinPairs, IsFrontier.cons_iff]
      exact ⟨rfl, hleft.trans hright, rfl, ih hrest⟩

theorem length_joinPairs (nodes : List BinaryNode) :
    (joinPairs nodes).length = (nodes.length + 1) / 2 := by
  induction nodes using joinPairs.induct with
  | case1 => rfl
  | case2 node => simp [joinPairs]
  | case3 left right rest ih =>
      simp only [joinPairs, List.length_cons, ih]
      omega

/-- The pairs of a frontier merge to the joined nodes. -/
theorem mergePairs_eq {start stop : UInt64} {nodes : List BinaryNode}
    (h : IsFrontier start nodes stop) :
    mergePairs nodes = ((joinPairs nodes).take (nodes.length / 2)).map .ok ∧
      (joinPairs nodes).drop (nodes.length / 2) = nodes.drop (2 * (nodes.length / 2)) := by
  induction nodes using joinPairs.induct generalizing start with
  | case1 => simp [mergePairs, joinPairs]
  | case2 node => simp [mergePairs, joinPairs]
  | case3 left right rest ih =>
      obtain ⟨rfl, hleft, hleftTrue, hnext⟩ := IsFrontier.cons_iff.mp h
      obtain ⟨hadjacent, hright, hrightTrue, hrest⟩ := IsFrontier.cons_iff.mp hnext
      have hhalf : (left :: right :: rest).length / 2 = rest.length / 2 + 1 := by
        simp only [List.length_cons]
        omega
      have hmerge : merge left right = .ok (BinaryNode.ofRange left.start right.stop) := by
        rw [hleftTrue, hrightTrue, hadjacent]
        exact merge_ofRange hleft.le hright.le
      obtain ⟨hpairs, hdrop⟩ := ih hrest
      rw [hhalf, joinPairs, mergePairs, hmerge, hpairs]
      exact ⟨rfl, by simpa [Nat.mul_add] using hdrop⟩

/-! ## The blocks of a gap -/

/-- A bounded block count is positive and leaves no block empty. -/
theorem boundedBlockCount_bounds {termCount sequentialCutoff workerCount tasksPerWorker : UInt64}
    (hterms : termCount ≠ 0) (hworkers : workerCount ≠ 0)
    (htasks : tasksPerWorker ≠ 0) :
    0 < (boundedBlockCount termCount sequentialCutoff workerCount tasksPerWorker).toNat ∧
      (boundedBlockCount termCount sequentialCutoff workerCount tasksPerWorker).toNat ≤
        termCount.toNat := by
  have hone : (1 : UInt64).toNat = 1 := rfl
  have positive {a : UInt64} (ha : a ≠ 0) : 0 < a.toNat :=
    Nat.pos_of_ne_zero fun h => ha (UInt64.toNat_inj.mp h)
  have hterms' := positive hterms
  have hpred : (termCount - 1).toNat = termCount.toNat - 1 :=
    UInt64.toNat_sub_of_le _ _ (UInt64.le_iff_toNat_le.mpr hterms')
  have hrequested : (1 + (termCount - 1) / sequentialCutoff).toNat =
      1 + (termCount.toNat - 1) / sequentialCutoff.toNat := by
    have hquotient : 1 + (termCount.toNat - 1) / sequentialCutoff.toNat ≤ termCount.toNat :=
      (Nat.add_le_add_left (Nat.div_le_self _ _) 1).trans (by omega)
    rw [UInt64.toNat_add, UInt64.toNat_div, hpred, hone,
      Nat.mod_eq_of_lt (hquotient.trans_lt termCount.toNat_lt)]
  have hmaximum : 0 < (if workerCount > uint64Max / tasksPerWorker then uint64Max
      else workerCount * tasksPerWorker).toNat := by
    split
    · rw [uint64Max_toNat]
      decide
    · next h =>
        rw [gt_iff_lt, UInt64.lt_iff_toNat_lt, UInt64.toNat_div, uint64Max_toNat, not_lt,
          Nat.le_div_iff_mul_le (positive htasks)] at h
        rw [UInt64.toNat_mul, Nat.mod_eq_of_lt (by omega)]
        exact Nat.mul_pos (positive hworkers) (positive htasks)
  rw [boundedBlockCount]
  generalize (if workerCount > uint64Max / tasksPerWorker then uint64Max
    else workerCount * tasksPerWorker) = maximum at hmaximum
  constructor
  · rcases min_choice (1 + (termCount - 1) / sequentialCutoff) maximum with h | h
    · rw [h, hrequested]
      exact Nat.add_pos_left Nat.one_pos _
    · rwa [h]
  · have hle := UInt64.le_iff_toNat_le.mp
      (min_le_left (1 + (termCount - 1) / sequentialCutoff) maximum)
    have hquotient := Nat.div_le_self (termCount.toNat - 1) sequentialCutoff.toNat
    rw [hrequested] at hle
    omega

namespace Layout

theorem getElem?_concat_eq_some {α : Type*} {l : List α} {a x : α} {k : ℕ} :
    (l ++ [a])[k]? = some x ↔ l[k]? = some x ∨ k = l.length ∧ a = x := by
  rw [List.getElem?_append]
  split
  · next h => simp [h.ne]
  · next h =>
      rw [List.getElem?_singleton, List.getElem?_eq_none (by omega)]
      simp only [Option.ite_none_right_eq_some, Option.some.injEq, reduceCtorEq, false_or]
      exact and_congr_left' (by omega)

/-- The slots and pending blocks stand for a frontier: `truth` has the node every slot holds, or
will hold when its block is computed. -/
structure Covers (start : UInt64) (layout : Layout) (truth : List BinaryNode) (stop : UInt64) :
    Prop where
  frontier : IsFrontier start truth stop
  length_slots : layout.slots.length = truth.length
  length_treeLevels : layout.treeLevels.length = truth.length
  seed : ∀ (k : ℕ) (node : BinaryNode), layout.slots[k]? = some (some node) →
    truth[k]? = some node
  pending : ∀ k : ℕ, layout.slots[k]? = some none → ∃ block ∈ layout.pendingBlocks, block.index = k
  block : ∀ block ∈ layout.pendingBlocks, block.start < block.stop ∧
    truth[block.index]? = some (BinaryNode.ofRange block.start block.stop)

namespace Covers

variable {start stop : UInt64} {layout : Layout} {truth : List BinaryNode}

theorem empty : Covers start Layout.empty [] start :=
  ⟨.nil, rfl, rfl, by simp [Layout.empty], by simp [Layout.empty], by simp [Layout.empty]⟩

theorem pushSeed (h : Covers start layout truth stop) {seed : BinaryFrontierNode}
    (hstart : seed.node.start = stop) (hlt : stop < seed.node.stop) (htrue : seed.node.IsTrue) :
    Covers start (layout.pushSeed seed) (truth ++ [seed.node]) seed.node.stop where
  frontier := by
    subst hstart
    exact h.frontier.concat hlt htrue
  length_slots := by simp [Layout.pushSeed, h.length_slots]
  length_treeLevels := by simp [Layout.pushSeed, h.length_treeLevels]
  seed k node hk := by
    rcases getElem?_concat_eq_some.mp hk with hk | ⟨hk, hnode⟩
    · exact getElem?_concat_eq_some.mpr (.inl (h.seed k node hk))
    · exact getElem?_concat_eq_some.mpr
        (.inr ⟨hk.trans h.length_slots, Option.some.inj hnode⟩)
  pending k hk := by
    rcases getElem?_concat_eq_some.mp hk with hk | ⟨-, hnone⟩
    · exact h.pending k hk
    · cases hnone
  block block hmem := by
    obtain ⟨hlt, hnode⟩ := h.block block hmem
    exact ⟨hlt, getElem?_concat_eq_some.mpr (.inl hnode)⟩

theorem pushBlock (h : Covers start layout truth stop) {blockStop : UInt64}
    (hlt : stop < blockStop) :
    Covers start (layout.pushBlock stop blockStop)
      (truth ++ [BinaryNode.ofRange stop blockStop]) blockStop where
  frontier := h.frontier.concat hlt rfl
  length_slots := by simp [Layout.pushBlock, h.length_slots]
  length_treeLevels := by simp [Layout.pushBlock, h.length_treeLevels]
  seed k node hk := by
    rcases getElem?_concat_eq_some.mp hk with hk | ⟨-, hnone⟩
    · exact getElem?_concat_eq_some.mpr (.inl (h.seed k node hk))
    · cases hnone
  pending k hk := by
    rcases getElem?_concat_eq_some.mp hk with hk | ⟨hk, -⟩
    · obtain ⟨block, hmem, hindex⟩ := h.pending k hk
      exact ⟨block, List.mem_append_left _ hmem, hindex⟩
    · exact ⟨_, List.mem_append_right _ List.mem_cons_self, hk.symm⟩
  block block hmem := by
    rcases List.mem_append.mp hmem with hmem | hmem
    · obtain ⟨hlt, hnode⟩ := h.block block hmem
      exact ⟨hlt, getElem?_concat_eq_some.mpr (.inl hnode)⟩
    · obtain rfl := List.mem_singleton.mp hmem
      exact ⟨hlt, getElem?_concat_eq_some.mpr (.inr ⟨h.length_slots, rfl⟩)⟩

/-- The loop over the blocks of a gap: what is left of the gap is the sum of the sizes to come. -/
theorem appendBlocks {baseBlockSize largerBlockCount : UInt64} (hbase : baseBlockSize ≠ 0)
    {gapStop : UInt64} (remaining : ℕ) (block : UInt64) (layout : Layout) (truth : List BinaryNode)
    {blockStart : UInt64} (h : Covers start layout truth blockStart)
    (hcount : block.toNat + remaining < 2 ^ 64)
    (hsum : blockStart.toNat + remaining * baseBlockSize.toNat +
      min remaining (largerBlockCount.toNat - block.toNat) = gapStop.toNat) :
    ∃ truth', Covers start (Layout.appendBlocks baseBlockSize largerBlockCount remaining block
      blockStart layout) truth' gapStop := by
  induction remaining generalizing block blockStart layout truth with
  | zero =>
      obtain rfl : blockStart = gapStop := UInt64.toNat_inj.mp (by simpa using hsum)
      exact ⟨truth, h⟩
  | succ remaining ih =>
      have hlimit := gapStop.toNat_lt
      have hbase' : 0 < baseBlockSize.toNat :=
        Nat.pos_of_ne_zero fun hzero => hbase (UInt64.toNat_inj.mp hzero)
      have hone : (1 : UInt64).toNat = 1 := rfl
      have hnext : (block + 1).toNat = block.toNat + 1 := by
        rw [UInt64.toNat_add, hone, Nat.mod_eq_of_lt (by omega)]
      rw [Nat.succ_mul] at hsum
      obtain ⟨extra, hextra⟩ : ∃ extra : UInt64,
          extra = if block < largerBlockCount then 1 else 0 := ⟨_, rfl⟩
      have hextraNat : extra.toNat + min remaining (largerBlockCount.toNat - (block.toNat + 1)) =
          min (remaining + 1) (largerBlockCount.toNat - block.toNat) := by
        rw [hextra]
        split
        · next hlt =>
            have := UInt64.lt_iff_toNat_lt.mp hlt
            rw [hone]
            omega
        · next hle =>
            have := UInt64.le_iff_toNat_le.mp (UInt64.not_lt.mp hle)
            rw [UInt64.toNat_zero]
            omega
      have hstop : (blockStart + baseBlockSize + extra).toNat =
          blockStart.toNat + baseBlockSize.toNat + extra.toNat := by
        rw [UInt64.toNat_add, UInt64.toNat_add]
        omega
      rw [Layout.appendBlocks, ← hextra]
      refine ih (block + 1) _ _ (h.pushBlock ?_) (by omega) ?_
      · rw [UInt64.lt_iff_toNat_lt, hstop]
        omega
      · rw [hstop, hnext]
        omega

section Gap

variable {executor : Executor} {options : ParallelSplitOptions} {parallelExecution : Bool}

theorem appendGap (h : Covers start layout truth stop) {gapStop : UInt64} (hlt : stop < gapStop)
    (hworkers : parallelExecution = true → executor.workerCount ≠ 0)
    (htasks : options.tasksPerWorker ≠ 0) :
    ∃ truth', Covers start
      (Layout.appendGap executor options parallelExecution layout stop gapStop) truth' gapStop := by
  have hltNat := UInt64.lt_iff_toNat_lt.mp hlt
  have hsize : (gapStop - stop).toNat = gapStop.toNat - stop.toNat :=
    UInt64.toNat_sub_of_le _ _ hlt.le
  have hnonzero : gapStop - stop ≠ 0 := by
    intro hzero
    rw [hzero, UInt64.toNat_zero] at hsize
    omega
  rw [Layout.appendGap]
  obtain ⟨blockCount, hblockCount⟩ : ∃ blockCount, blockCount =
      if parallelExecution then boundedBlockCount (gapStop - stop) options.sequentialCutoff
        executor.workerCount options.tasksPerWorker else 1 := ⟨_, rfl⟩
  have hbounds : 0 < blockCount.toNat ∧ blockCount.toNat ≤ (gapStop - stop).toNat := by
    rw [hblockCount]
    split
    · next hparallel => exact boundedBlockCount_bounds hnonzero (hworkers hparallel) htasks
    · have hone : (1 : UInt64).toNat = 1 := rfl
      rw [hone]
      omega
  rw [← hblockCount]
  have hdiv := Nat.div_add_mod (gapStop - stop).toNat blockCount.toNat
  have hmod := Nat.mod_lt (gapStop - stop).toNat hbounds.1
  have hquotient := Nat.div_pos hbounds.2 hbounds.1
  have hlimit := blockCount.toNat_lt
  refine appendBlocks ?_ blockCount.toNat 0 layout truth h ?_ ?_
  · intro hzero
    rw [← UInt64.toNat_div, hzero] at hquotient
    exact absurd hquotient (by decide)
  · rw [UInt64.toNat_zero]
    omega
  · rw [UInt64.toNat_div, UInt64.toNat_mod, UInt64.toNat_zero, Nat.sub_zero,
      Nat.min_eq_right hmod.le]
    omega

/-- The loop over the seeds covers the rest of the range. -/
theorem appendFrontier (h : Covers start layout truth stop)
    (hworkers : parallelExecution = true → executor.workerCount ≠ 0)
    (htasks : options.tasksPerWorker ≠ 0) {last : UInt64} {seeds : List BinaryFrontierNode}
    (hle : stop ≤ last)
    (hvalid : validateFrontier start last stop seeds = .ok ())
    (htrue : ∀ seed ∈ seeds, seed.node.IsTrue) :
    ∃ truth', Covers start
      (Layout.appendFrontier executor options parallelExecution last seeds stop layout)
      truth' last := by
  induction seeds generalizing stop layout truth with
  | nil =>
      rw [Layout.appendFrontier]
      split
      · next hlt => exact h.appendGap hlt hworkers htasks
      · next hnot =>
          obtain rfl : stop = last := le_antisymm hle (not_lt.mp hnot)
          exact ⟨truth, h⟩
  | cons seed rest ih =>
      simp only [validateFrontier, bind_eq_ok, throwIf_eq_ok] at hvalid
      obtain ⟨-, hrange, -, hinside, -, hoverlap, -, -, hrest⟩ := hvalid
      have hseedLt : seed.node.start < seed.node.stop := not_le.mp hrange
      have hstopLe : stop ≤ seed.node.start := not_lt.mp hoverlap
      have hlast : seed.node.stop ≤ last := not_lt.mp fun hgt => hinside (.inr hgt)
      rw [Layout.appendFrontier]
      obtain ⟨layout', hlayout'⟩ : ∃ layout', layout' =
          if stop < seed.node.start then Layout.appendGap executor options parallelExecution layout
            stop seed.node.start else layout := ⟨_, rfl⟩
      have hcovers : ∃ truth', Covers start layout' truth' seed.node.start := by
        rw [hlayout']
        split
        · next hlt => exact h.appendGap hlt hworkers htasks
        · next hnot =>
            obtain rfl : stop = seed.node.start := le_antisymm hstopLe (not_lt.mp hnot)
            exact ⟨truth, h⟩
      obtain ⟨truth', htruth'⟩ := hcovers
      rw [← hlayout']
      exact ih (htruth'.pushSeed rfl hseedLt (htrue seed List.mem_cons_self)) hlast hrest
        fun other hmem => htrue other (List.mem_cons_of_mem _ hmem)

end Gap

end Covers

end Layout

/-! ## Initial frontiers -/

/-- A frontier a split may start from: pairwise disjoint parts of the range, in any order and with
any tree levels, each the node of its part. -/
structure IsInitialFrontier (start stop : UInt64) (frontier : List BinaryFrontierNode) :
    Prop where
  bounds : ∀ seed ∈ frontier, start ≤ seed.node.start ∧ seed.node.start < seed.node.stop ∧
    seed.node.stop ≤ stop
  disjoint : frontier.Pairwise fun left right =>
    left.node.stop ≤ right.node.start ∨ right.node.stop ≤ left.node.start
  eq_splitSequential : ∀ seed ∈ frontier,
    splitSequential seed.node.start seed.node.stop = .ok seed.node

theorem validateFrontier_eq_ok {start stop coveredEnd : UInt64} {seeds : List BinaryFrontierNode}
    (hbounds : ∀ seed ∈ seeds, start ≤ seed.node.start ∧ seed.node.start < seed.node.stop ∧
      seed.node.stop ≤ stop)
    (hvalues : ∀ seed ∈ seeds, seed.node.hasValues = true)
    (hcovered : ∀ seed ∈ seeds, coveredEnd ≤ seed.node.start)
    (hordered : seeds.Pairwise fun left right => left.node.stop ≤ right.node.start) :
    validateFrontier start stop coveredEnd seeds = .ok () := by
  induction seeds generalizing coveredEnd with
  | nil => rfl
  | cons seed rest ih =>
      rw [List.forall_mem_cons] at hbounds hvalues hcovered
      rw [List.pairwise_cons] at hordered
      obtain ⟨⟨hstart, hlt, hstop⟩, hbounds⟩ := hbounds
      have hinside : ¬ (seed.node.start < start ∨ seed.node.stop > stop) := by
        rw [not_or, not_lt, gt_iff_lt, not_lt]
        exact ⟨hstart, hstop⟩
      rw [validateFrontier, throwIf_neg (not_le.mpr hlt), ok_bind, throwIf_neg hinside, ok_bind,
        throwIf_neg (not_lt.mpr hcovered.1), ok_bind, throwIf_neg (by simp [hvalues.1]), ok_bind]
      exact ih hbounds hvalues.2 hordered.1 hordered.2

namespace IsInitialFrontier

variable {start stop : UInt64} {frontier : List BinaryFrontierNode}

theorem isTrue (h : IsInitialFrontier start stop frontier) {seed : BinaryFrontierNode}
    (hmem : seed ∈ frontier) : seed.node.IsTrue := by
  have heq := h.eq_splitSequential seed hmem
  rw [splitSequential_eq (h.bounds seed hmem).2.1] at heq
  exact (Except.ok.inj heq).symm

theorem sortAndValidateFrontier_eq (h : IsInitialFrontier start stop frontier) :
    ∃ sorted, sortAndValidateFrontier frontier start stop = .ok sorted ∧ sorted.Perm frontier ∧
      validateFrontier start stop start sorted = .ok () := by
  obtain ⟨sorted, hsorted⟩ : ∃ sorted, sorted = frontier.mergeSort
    fun left right => decide (left.node.start ≤ right.node.start) := ⟨_, rfl⟩
  have hperm : sorted.Perm frontier := hsorted ▸ List.mergeSort_perm ..
  have hstarts : sorted.Pairwise fun left right => left.node.start ≤ right.node.start := by
    have hpairwise := @List.pairwise_mergeSort BinaryFrontierNode
      (fun left right => decide (left.node.start ≤ right.node.start))
      (fun a b c hab hbc => by simpa using (of_decide_eq_true hab).trans (of_decide_eq_true hbc))
      (fun a b => by simpa using le_total a.node.start b.node.start) frontier
    rw [← hsorted] at hpairwise
    exact hpairwise.imp of_decide_eq_true
  have hdisjoint : sorted.Pairwise fun left right =>
      left.node.stop ≤ right.node.start ∨ right.node.stop ≤ left.node.start :=
    hperm.symm.pairwise h.disjoint fun hor => hor.symm
  have hordered : sorted.Pairwise fun left right => left.node.stop ≤ right.node.start := by
    refine (hstarts.and hdisjoint).imp_of_mem fun {left right} hleft hright hpair => ?_
    rcases hpair.2 with hle | hle
    · exact hle
    · have hlt := (h.bounds right (hperm.mem_iff.mp hright)).2.1
      exact absurd (hlt.trans_le (hle.trans hpair.1)) (lt_irrefl _)
  have hvalid : validateFrontier start stop start sorted = .ok () := by
    refine validateFrontier_eq_ok (fun seed hmem => h.bounds seed (hperm.mem_iff.mp hmem))
      (fun seed hmem => ?_) (fun seed hmem => (h.bounds seed (hperm.mem_iff.mp hmem)).1) hordered
    have hseed := hperm.mem_iff.mp hmem
    rw [h.isTrue hseed]
    exact ofRange_hasValues (h.bounds seed hseed).2.1.le
  refine ⟨sorted, ?_, hperm, hvalid⟩
  rw [sortAndValidateFrontier, ← hsorted]
  simp only [hvalid, ok_bind, pure_eq_ok]

end IsInitialFrontier

/-! ## One stage of tasks -/

/-- What the tasks done so far leave in memory: a slot has the node of the frontier, or is empty
and waits for a task that is not done. -/
structure StageMemory.Fills (jobs : List (StageJob σ)) (truth : List BinaryNode)
    (invariant : σ → Prop) (done : Finset ℕ) (memory : StageMemory σ) : Prop where
  failures : memory.failures = []
  world : invariant memory.world
  length_slots : memory.slots.length = truth.length
  slot : ∀ (k : ℕ) (slot : Option BinaryNode), memory.slots[k]? = some slot →
    slot = truth[k]? ∨ slot = none ∧ ∃ (i : ℕ) (job : StageJob σ), jobs[i]? = some job ∧
      job.slot = k ∧ i ∉ done

namespace StageMemory.Fills

variable {jobs : List (StageJob σ)} {truth : List BinaryNode} {invariant : σ → Prop}
  {done : Finset ℕ} {memory : StageMemory σ}

/-- A task that succeeds fills its slot. -/
theorem fill (h : Fills jobs truth invariant done memory) {i : ℕ} {job : StageJob σ}
    (hi : jobs[i]? = some job) {node : BinaryNode} (hnode : truth[job.slot]? = some node)
    (hcompleted : ∀ s, invariant s → invariant (job.completed s)) :
    Fills jobs truth invariant (insert i done) (memory.fill job node) where
  failures := h.failures
  world := hcompleted _ h.world
  length_slots := by simpa [StageMemory.fill] using h.length_slots
  slot k slot hk := by
    rw [StageMemory.fill, List.getElem?_set] at hk
    split at hk
    · next heq =>
        split at hk
        · subst heq
          exact .inl ((Option.some.inj hk).symm.trans hnode.symm)
        · cases hk
    · next hne =>
        rcases h.slot k slot hk with htruth | ⟨hnone, other, otherJob, hother, hslot, hdone⟩
        · exact .inl htruth
        · refine .inr ⟨hnone, other, otherJob, hother, hslot, ?_⟩
          rw [Finset.mem_insert, not_or]
          refine ⟨?_, hdone⟩
          rintro rfl
          rw [hi] at hother
          cases hother
          exact hne hslot

/-- When all tasks are done, the slots are those of the frontier. -/
theorem slots_eq (h : Fills jobs truth invariant (Finset.range jobs.length) memory) :
    memory.slots = truth.map some := by
  apply List.ext_getElem?
  intro k
  rw [List.getElem?_map]
  by_cases hk : k < memory.slots.length
  · have hslot := List.getElem?_eq_getElem hk
    have htruth := List.getElem?_eq_getElem (h.length_slots ▸ hk)
    rcases h.slot k _ hslot with heq | ⟨-, i, job, hi, -, hdone⟩
    · rw [hslot, heq, htruth]
      rfl
    · obtain ⟨hlt, -⟩ := List.getElem?_eq_some_iff.mp hi
      exact absurd (Finset.mem_range.mpr hlt) hdone
  · rw [List.getElem?_eq_none (by omega),
      List.getElem?_eq_none (by rw [← h.length_slots]; omega)]
    rfl

end StageMemory.Fills

/-- A stage whose tasks all succeed fills every slot, whatever its schedule. -/
theorem runStage_meets {jobs : List (StageJob σ)} {schedule : Schedule jobs.length}
    {slots : List (Option BinaryNode)} {truth : List BinaryNode} {invariant : σ → Prop}
    {fail : Error → σ → Prop} (hlength : slots.length = truth.length)
    (hjobs : ∀ job ∈ jobs, ∃ node, job.compute = .ok node ∧ truth[job.slot]? = some node ∧
      ∀ s, invariant s → invariant (job.completed s))
    (hseeds : ∀ (k : ℕ) (node : BinaryNode), slots[k]? = some (some node) → truth[k]? = some node)
    (hpending : ∀ k : ℕ, slots[k]? = some none → ∃ job ∈ jobs, job.slot = k) :
    Meets invariant (runStage jobs schedule slots)
      (fun result s => result = truth.map some ∧ invariant s) fail := by
  have hrun : Meets (StageMemory.Fills jobs truth invariant ∅)
      (schedule.run (runOnCaller jobs) (runOnWorker jobs))
      (fun _ => StageMemory.Fills jobs truth invariant (Finset.range jobs.length))
      (fun _ _ => False) := by
    have hjob (i : ℕ) (hi : i < jobs.length) : ∃ job node, jobs[i]? = some job ∧
        job.compute = .ok node ∧ truth[job.slot]? = some node ∧
        ∀ s, invariant s → invariant (job.completed s) := by
      obtain ⟨node, hnode⟩ := hjobs jobs[i] (List.getElem_mem hi)
      exact ⟨jobs[i], node, List.getElem?_eq_getElem hi, hnode⟩
    apply Schedule.run_meets
    · intro i done hi _ memory hmemory
      obtain ⟨job, node, hget, hcompute, hnode, hcompleted⟩ := hjob i hi
      simpa [runOnCaller, hget, hcompute] using hmemory.fill hget hnode hcompleted
    · intro i done hi _ memory hmemory
      obtain ⟨job, node, hget, hcompute, hnode, hcompleted⟩ := hjob i hi
      simpa [runOnWorker, hget, hcompute] using hmemory.fill hget hnode hcompleted
  intro s hs
  have hinitial : StageMemory.Fills jobs truth invariant ∅ ⟨slots, [], s⟩ := by
    refine ⟨rfl, hs, hlength, fun k slot hk => ?_⟩
    cases slot with
    | some node => exact .inl (hseeds k node hk).symm
    | none =>
        obtain ⟨job, hmem, hslot⟩ := hpending k hk
        obtain ⟨i, hi⟩ := List.getElem?_of_mem hmem
        exact .inr ⟨rfl, i, job, hi, hslot, Finset.notMem_empty i⟩
  have hresult := hrun ⟨slots, [], s⟩ hinitial
  rw [runStage]
  cases hexec : schedule.run (runOnCaller jobs) (runOnWorker jobs) ⟨slots, [], s⟩ with
  | error e memory =>
      rw [hexec] at hresult
      exact hresult.elim
  | ok u memory =>
      rw [hexec] at hresult
      have hnone : firstFailure jobs.length memory.failures = none := by
        rw [hresult.failures, firstFailure, List.findSome?_eq_none_iff]
        simp
      simp only [hnone]
      exact ⟨hresult.slots_eq, hresult.world⟩

theorem slotValues_map_some (nodes : List BinaryNode) :
    slotValues (nodes.map some) = .ok nodes := by
  induction nodes with
  | nil => rfl
  | cons node rest ih =>
      simp [slotValues, ih]

/-- The tasks of a merge level leave the joined nodes of the pairs. -/
theorem runStage_mergeJobs_meets {start stop : UInt64} {nodes : List BinaryNode}
    (h : IsFrontier start nodes stop)
    {schedule : Schedule (mergeJobs (σ := σ) nodes).length} {invariant : σ → Prop}
    {fail : Error → σ → Prop} :
    Meets invariant
      (runStage (mergeJobs nodes) schedule
        (List.replicate (mergeJobs (σ := σ) nodes).length none))
      (fun result s => result = ((joinPairs nodes).take (nodes.length / 2)).map some ∧ invariant s)
      fail := by
  obtain ⟨hpairs, -⟩ := mergePairs_eq h
  have hlength : (mergeJobs (σ := σ) nodes).length =
      ((joinPairs nodes).take (nodes.length / 2)).length := by
    rw [mergeJobs, List.length_mapIdx, hpairs, List.length_map]
  apply runStage_meets
  · rw [List.length_replicate, hlength]
  · intro job hmem
    obtain ⟨pair, hpair, rfl⟩ := List.mem_mapIdx.mp hmem
    have hlt : pair < ((joinPairs nodes).take (nodes.length / 2)).length := by
      simpa [hpairs] using hpair
    exact ⟨((joinPairs nodes).take (nodes.length / 2))[pair], by simp [hpairs],
      List.getElem?_eq_getElem hlt, fun s hs => hs⟩
  · intro k node hk
    rw [List.getElem?_replicate] at hk
    split at hk
    · cases Option.some.inj hk
    · cases hk
  · intro k hk
    have hlt : k < (mergeJobs (σ := σ) nodes).length := by
      simpa [List.getElem?_replicate] using hk
    refine ⟨_, List.getElem_mem hlt, ?_⟩
    simp [mergeJobs]

/-! ## Runs of the stages -/

/-- The nodes and tree levels of a stage: the nodes are a frontier of the whole range, every tree
level is one that may occur, and the number of nodes has halved with every merge level. -/
structure IsStage (levelOk : UInt32 → Prop) (start stop : UInt64) (mergeLevel : UInt32)
    (nodes : List BinaryNode) (treeLevels : List UInt32) : Prop where
  frontier : IsFrontier start nodes stop
  length_treeLevels : treeLevels.length = nodes.length
  treeLevels : ∀ level ∈ treeLevels, levelOk level
  halved : (nodes.length - 1) * 2 ^ mergeLevel.toNat < 2 ^ 64

theorem length_nextTreeLevels (termCount : UInt64) (treeLevels : List UInt32) :
    (nextTreeLevels termCount treeLevels).length = (treeLevels.length + 1) / 2 := by
  induction treeLevels using nextTreeLevels.induct with
  | case1 left right rest ih =>
      simp only [nextTreeLevels, List.length_cons, ih]
      omega
  | case2 rest hrest =>
      match rest with
      | [] => simp [nextTreeLevels]
      | [_] => simp [nextTreeLevels]
      | left :: right :: rest => exact absurd rfl (hrest left right rest)

theorem nextTreeLevels_le {levelOk : UInt32 → Prop} {termCount : UInt64}
    (hcap : ∀ level, level ≤ maximumTreeLevel termCount → levelOk level) {treeLevels : List UInt32}
    (h : ∀ level ∈ treeLevels, levelOk level) :
    ∀ level ∈ nextTreeLevels termCount treeLevels, levelOk level := by
  induction treeLevels using nextTreeLevels.induct with
  | case1 left right rest ih =>
      rw [nextTreeLevels, List.forall_mem_cons]
      refine ⟨hcap _ ?_, ih fun level hmem => h level (by simp [hmem])⟩
      exact min_le_right _ _
  | case2 rest hrest =>
      match rest with
      | [] => simp [nextTreeLevels]
      | [_] => simpa [nextTreeLevels] using h
      | left :: right :: rest => exact absurd rfl (hrest left right rest)

namespace IsStage

variable {levelOk : UInt32 → Prop} {start stop : UInt64} {mergeLevel : UInt32}
  {nodes : List BinaryNode} {treeLevels : List UInt32}

/-- More than 64 merge levels do not arise. -/
theorem mergeLevel_lt (h : IsStage levelOk start stop mergeLevel nodes treeLevels)
    (hlength : 1 < nodes.length) : mergeLevel.toNat < 64 := by
  have hpow : 1 * 2 ^ mergeLevel.toNat < 2 ^ 64 :=
    (Nat.mul_le_mul_right _ (by omega)).trans_lt h.halved
  rw [one_mul] at hpow
  exact (Nat.pow_lt_pow_iff_right (by decide)).mp hpow

theorem toNat_succ_mergeLevel (h : IsStage levelOk start stop mergeLevel nodes treeLevels)
    (hlength : 1 < nodes.length) : (mergeLevel + 1).toNat = mergeLevel.toNat + 1 := by
  have hone : (1 : UInt32).toNat = 1 := rfl
  have := h.mergeLevel_lt hlength
  rw [UInt32.toNat_add, hone, Nat.mod_eq_of_lt (by omega)]

/-- The stage after a merge level. -/
theorem next (h : IsStage levelOk start stop mergeLevel nodes treeLevels)
    (hlength : 1 < nodes.length)
    (hcap : ∀ level, level ≤ maximumTreeLevel (stop - start) → levelOk level) :
    IsStage levelOk start stop (mergeLevel + 1) (joinPairs nodes)
      (nextTreeLevels (stop - start) treeLevels) where
  frontier := joinPairs_isFrontier h.frontier
  length_treeLevels := by
    rw [length_nextTreeLevels, length_joinPairs, h.length_treeLevels]
  treeLevels := nextTreeLevels_le hcap h.treeLevels
  halved := by
    rw [length_joinPairs, h.toNat_succ_mergeLevel hlength, pow_succ]
    calc ((nodes.length + 1) / 2 - 1) * (2 ^ mergeLevel.toNat * 2)
        = ((nodes.length + 1) / 2 - 1) * 2 * 2 ^ mergeLevel.toNat := by ring
      _ ≤ (nodes.length - 1) * 2 ^ mergeLevel.toNat := Nat.mul_le_mul_right _ (by omega)
      _ < 2 ^ 64 := h.halved

end IsStage

theorem IsFrontier.length_le {start stop : UInt64} {nodes : List BinaryNode}
    (h : IsFrontier start nodes stop) : start.toNat + nodes.length ≤ stop.toNat := by
  induction nodes generalizing start with
  | nil => exact (UInt64.toNat_inj.mpr h.tiles).le
  | cons node rest ih =>
      obtain ⟨-, hlt, -, hrest⟩ := IsFrontier.cons_iff.mp h
      have hltNat := UInt64.lt_iff_toNat_lt.mp hlt
      have := ih hrest
      rw [List.length_cons]
      omega

/-- What the coordinators promise about the state between the stages of a split, when every stage
shows them a frontier: the conditions on the state from the observation of a stage's nodes to the
merge of the next. -/
structure StageContract (observer : BinarySplitObserver σ)
    (mergeCoordinator : BinaryMergeCoordinator σ)
    (checkpointCoordinator : BinaryCheckpointCoordinator σ) (levelOk : UInt32 → Prop)
    (start stop : UInt64) (fail : Error → σ → Prop) where
  initial : σ → Prop
  fresh : UInt32 → List BinaryNode → List UInt32 → σ → Prop
  observed : UInt32 → List BinaryNode → List UInt32 → σ → Prop
  committed : UInt32 → List BinaryNode → List UInt32 → σ → Prop
  /-- The true nodes, the nodes as they are after the spill, and the tree levels. -/
  spilled : UInt32 → List BinaryNode → List BinaryNode → List UInt32 → σ → Prop
  prepared : UInt32 → List BinaryNode → List UInt32 → σ → Prop
  finished : σ → Prop
  terms : ∀ count s, initial s → initial (observer.termsCompleted count s)
  direct : Meets initial (checkpointCoordinator.commitFrontier [BinaryNode.ofRange start stop] [0])
    (fun _ => finished) fail
  start_fresh : ∀ nodes treeLevels, IsStage levelOk start stop 0 nodes treeLevels →
    ∀ s, initial s → fresh 0 nodes treeLevels s
  observe : ∀ mergeLevel nodes treeLevels, IsStage levelOk start stop mergeLevel nodes treeLevels →
    Meets (fresh mergeLevel nodes treeLevels)
      (mergeCoordinator.observeResidentNodes nodes mergeLevel)
      (fun _ => observed mergeLevel nodes treeLevels) fail
  commit : ∀ mergeLevel nodes treeLevels, IsStage levelOk start stop mergeLevel nodes treeLevels →
    Meets (observed mergeLevel nodes treeLevels)
      (checkpointCoordinator.commitFrontier nodes treeLevels)
      (fun _ => committed mergeLevel nodes treeLevels) fail
  skip : ∀ nodes treeLevels, IsStage levelOk start stop 0 nodes treeLevels →
    ∀ s, observed 0 nodes treeLevels s → committed 0 nodes treeLevels s
  spill : ∀ mergeLevel nodes treeLevels, IsStage levelOk start stop mergeLevel nodes treeLevels →
    1 < nodes.length → Meets (committed mergeLevel nodes treeLevels)
      (mergeCoordinator.spillAfterMergeLevel nodes mergeLevel)
      (fun nodes' s => nodes'.length = nodes.length ∧ spilled mergeLevel nodes nodes' treeLevels s)
      fail
  prepare : ∀ mergeLevel nodes nodes' treeLevels,
    IsStage levelOk start stop mergeLevel nodes treeLevels → 1 < nodes.length →
    Meets (spilled mergeLevel nodes nodes' treeLevels)
      (mergeCoordinator.prepareMergeNodes nodes' mergeLevel)
      (fun result s => result = nodes ∧ prepared mergeLevel nodes treeLevels s) fail
  merge : ∀ mergeLevel nodes treeLevels, IsStage levelOk start stop mergeLevel nodes treeLevels →
    1 < nodes.length → ∀ s, prepared mergeLevel nodes treeLevels s →
      fresh (mergeLevel + 1) (joinPairs nodes) (nextTreeLevels (stop - start) treeLevels)
        (observer.mergeLevelStarted mergeLevel s)
  finish : ∀ mergeLevel node treeLevels,
    IsStage levelOk start stop mergeLevel [node] treeLevels →
      ∀ s, committed mergeLevel [node] treeLevels s → finished s

namespace StageContract

variable {executor : Executor} {observer : BinarySplitObserver σ}
  {mergeCoordinator : BinaryMergeCoordinator σ}
  {checkpointCoordinator : BinaryCheckpointCoordinator σ} {levelOk : UInt32 → Prop}
  {start stop : UInt64} {fail : Error → σ → Prop}
  (contract : StageContract observer mergeCoordinator checkpointCoordinator levelOk start stop fail)

include contract

/-- What a completed stage leaves: more than one node is spilled, a single one is kept. -/
def completed (mergeLevel : UInt32) (nodes nodes' : List BinaryNode) (treeLevels : List UInt32)
    (s : σ) : Prop :=
  if 1 < nodes.length then contract.spilled mergeLevel nodes nodes' treeLevels s
  else nodes' = nodes ∧ contract.committed mergeLevel nodes treeLevels s

theorem spilled_of_completed {mergeLevel : UInt32} {nodes nodes' : List BinaryNode}
    {treeLevels : List UInt32} (hlength : 1 < nodes.length) (s : σ)
    (h : contract.completed mergeLevel nodes nodes' treeLevels s) :
    contract.spilled mergeLevel nodes nodes' treeLevels s := by
  rwa [completed, if_pos hlength] at h

theorem completeStage_meets {mergeLevel : UInt32} {nodes : List BinaryNode}
    {treeLevels : List UInt32} {computedNodes : Bool}
    (h : IsStage levelOk start stop mergeLevel nodes treeLevels)
    (hcomputed : computedNodes = true ∨ mergeLevel = 0) :
    Meets (contract.fresh mergeLevel nodes treeLevels)
      (completeStage mergeCoordinator checkpointCoordinator nodes treeLevels mergeLevel
        computedNodes)
      (fun nodes' s => nodes'.length = nodes.length ∧
        contract.completed mergeLevel nodes nodes' treeLevels s) fail := by
  have hspill : Meets (contract.committed mergeLevel nodes treeLevels)
      (if nodes.length > 1 then mergeCoordinator.spillAfterMergeLevel nodes mergeLevel
        else pure nodes)
      (fun nodes' s => nodes'.length = nodes.length ∧
        contract.completed mergeLevel nodes nodes' treeLevels s) fail := by
    apply Meets.ite
    · intro hlength
      simpa [completed, show 1 < nodes.length from hlength] using
        contract.spill mergeLevel nodes treeLevels h hlength
    · intro hlength
      exact Meets.pure fun s hs => ⟨rfl, by simpa [completed, hlength] using hs⟩
  rw [completeStage]
  refine Meets.bind (contract.observe mergeLevel nodes treeLevels h) fun _ => ?_
  cases computedNodes with
  | true => exact Meets.bind (contract.commit mergeLevel nodes treeLevels h) fun _ => hspill
  | false =>
      obtain rfl : mergeLevel = 0 := by simpa using hcomputed
      exact hspill.strengthen (contract.skip nodes treeLevels h)

theorem mergeLevels_single {parallelExecution : Bool} {levels : ℕ} {mergeLevel : UInt32}
    {node : BinaryNode} {nodes' : List BinaryNode} {treeLevels : List UInt32}
    (h : IsStage levelOk start stop mergeLevel [node] treeLevels) :
    Meets (contract.completed mergeLevel [node] nodes' treeLevels)
      (mergeLevels executor observer mergeCoordinator checkpointCoordinator (stop - start)
        parallelExecution levels nodes' treeLevels mergeLevel)
      (fun node s => node = BinaryNode.ofRange start stop ∧ contract.finished s) fail := by
  intro s hs
  obtain ⟨rfl, hcommitted⟩ : nodes' = [node] ∧ contract.committed mergeLevel [node] treeLevels s :=
    by simpa [completed] using hs
  have hmerge : mergeLevels executor observer mergeCoordinator checkpointCoordinator (stop - start)
      parallelExecution levels [node] treeLevels mergeLevel = pure node := by
    cases levels <;> rw [mergeLevels]
  rw [hmerge]
  exact ⟨h.frontier.singleton_eq, contract.finish mergeLevel node treeLevels h s hcommitted⟩

/-- The merge levels end with the node of the whole range. The induction is on the bound of their
number; what a stage leaves spilled, the next prepares. -/
theorem mergeLevels_meets {parallelExecution : Bool}
    (hcap : ∀ level, level ≤ maximumTreeLevel (stop - start) → levelOk level) (levels : ℕ)
    {mergeLevel : UInt32} {nodes nodes' : List BinaryNode} {treeLevels : List UInt32}
    (h : IsStage levelOk start stop mergeLevel nodes treeLevels) (hne : nodes ≠ [])
    (hlevels : nodes.length ≤ levels + 1) (hlength : nodes'.length = nodes.length) :
    Meets (contract.completed mergeLevel nodes nodes' treeLevels)
      (mergeLevels executor observer mergeCoordinator checkpointCoordinator (stop - start)
        parallelExecution levels nodes' treeLevels mergeLevel)
      (fun node s => node = BinaryNode.ofRange start stop ∧ contract.finished s) fail := by
  induction levels generalizing mergeLevel nodes nodes' treeLevels with
  | zero =>
      obtain ⟨node, rfl⟩ := List.length_eq_one_iff.mp
        (show nodes.length = 1 from le_antisymm hlevels (List.length_pos_of_ne_nil hne))
      exact contract.mergeLevels_single h
  | succ levels ih =>
      by_cases hsingle : nodes.length = 1
      · obtain ⟨node, rfl⟩ := List.length_eq_one_iff.mp hsingle
        exact contract.mergeLevels_single h
      · have hmany : 1 < nodes.length := by
          have := List.length_pos_of_ne_nil hne
          omega
        obtain ⟨a, b, rest, rfl⟩ : ∃ a b rest, nodes' = a :: b :: rest := by
          match nodes', hlength with
          | a :: b :: rest, _ => exact ⟨a, b, rest, rfl⟩
          | [a], hlength => exact absurd hlength.symm hsingle
          | [], hlength => exact absurd hlength (by rw [List.length_nil]; omega)
        have hnext := h.next hmany hcap
        obtain ⟨-, hdrop⟩ := mergePairs_eq h.frontier
        rw [mergeLevels]
        · have hprepare := (contract.prepare mergeLevel nodes (a :: b :: rest) treeLevels h
            hmany).strengthen (contract.spilled_of_completed hmany)
          refine Meets.bind hprepare fun prepared => Meets.of_pre ?_
          rintro rfl
          refine Meets.bind_of (fun _ => contract.fresh (mergeLevel + 1) (joinPairs prepared)
            (nextTreeLevels (stop - start) treeLevels))
            (fun s hs => contract.merge mergeLevel prepared treeLevels h hmany s hs) fun _ => ?_
          refine Meets.bind (runStage_mergeJobs_meets h.frontier) fun results => Meets.of_pre ?_
          rintro rfl
          simp only [slotValues_map_some, Action.liftM_eq, Action.ofExcept_ok, pure_bind]
          rw [← hdrop, List.take_append_drop]
          refine Meets.bind (contract.completeStage_meets hnext (.inl rfl)) fun nodes' =>
            Meets.of_pre fun hlength' => ?_
          refine ih hnext ?_ ?_ hlength'
          · rw [← List.length_pos_iff, length_joinPairs]
            omega
          · rw [length_joinPairs]
            omega
        · intro node hnode
          cases hnode

end StageContract

/-! ## The tree levels of a layout -/

namespace Layout

variable {levelOk : UInt32 → Prop}

theorem appendBlocks_treeLevels (hzero : levelOk 0) (baseBlockSize largerBlockCount : UInt64)
    (remaining : ℕ) (block blockStart : UInt64) (layout : Layout)
    (h : ∀ level ∈ layout.treeLevels, levelOk level) :
    ∀ level ∈ (appendBlocks baseBlockSize largerBlockCount remaining block blockStart
      layout).treeLevels, levelOk level := by
  induction remaining generalizing block blockStart layout with
  | zero => exact h
  | succ remaining ih =>
      rw [appendBlocks]
      refine ih _ _ _ ?_
      simp only [pushBlock, List.forall_mem_append, List.forall_mem_singleton]
      exact ⟨h, hzero⟩

variable {executor : Executor} {options : ParallelSplitOptions} {parallelExecution : Bool}

/-- The tree levels of a layout are those of the seeds, and zero. -/
theorem appendFrontier_treeLevels (hzero : levelOk 0) {stop : UInt64}
    {seeds : List BinaryFrontierNode} (hseeds : ∀ seed ∈ seeds, levelOk seed.treeLevel)
    (coveredEnd : UInt64) (layout : Layout) (h : ∀ level ∈ layout.treeLevels, levelOk level) :
    ∀ level ∈ (appendFrontier executor options parallelExecution stop seeds coveredEnd
      layout).treeLevels, levelOk level := by
  have hgap (layout : Layout) (h : ∀ level ∈ layout.treeLevels, levelOk level)
      (gapStart gapStop : UInt64) (condition : Prop) [Decidable condition] :
      ∀ level ∈ (if condition then
        appendGap executor options parallelExecution layout gapStart gapStop
        else layout).treeLevels, levelOk level := by
    split
    · exact appendBlocks_treeLevels hzero _ _ _ _ _ _ h
    · exact h
  induction seeds generalizing coveredEnd layout with
  | nil =>
      rw [appendFrontier]
      exact hgap layout h coveredEnd stop _
  | cons seed rest ih =>
      rw [List.forall_mem_cons] at hseeds
      rw [appendFrontier]
      refine ih hseeds.2 _ _ ?_
      simp only [pushSeed, List.forall_mem_append, List.forall_mem_singleton]
      exact ⟨hgap layout h coveredEnd seed.node.start _, hseeds.1⟩

end Layout

namespace StageContract

/-- A split whose coordinators keep their contract returns the node of the whole range. -/
theorem splitParallel_meets (executor : Executor) {observer : BinarySplitObserver σ}
    {mergeCoordinator : BinaryMergeCoordinator σ}
    {checkpointCoordinator : BinaryCheckpointCoordinator σ} {levelOk : UInt32 → Prop}
    {start stop : UInt64} {fail : Error → σ → Prop}
    (contract : StageContract observer mergeCoordinator checkpointCoordinator levelOk start stop
      fail)
    (hlt : start < stop) {options : ParallelSplitOptions} (hcutoff : options.sequentialCutoff ≠ 0)
    (htasks : options.tasksPerWorker ≠ 0) {frontier : List BinaryFrontierNode}
    (hfrontier : IsInitialFrontier start stop frontier)
    (hcap : ∀ level, level ≤ maximumTreeLevel (stop - start) → levelOk level)
    (hlevels : ∀ seed ∈ frontier, levelOk seed.treeLevel) :
    Meets contract.initial
      (splitParallel executor observer mergeCoordinator checkpointCoordinator start stop options
        frontier)
      (fun node s => node = BinaryNode.ofRange start stop ∧ contract.finished s) fail := by
  obtain ⟨sorted, hsort, hperm, hvalid⟩ := hfrontier.sortAndValidateFrontier_eq
  have hrange : validateRange start stop = .ok () := by
    rw [validateRange, if_neg (not_le.mpr hlt)]
    rfl
  rw [splitParallel]
  simp only [hrange, throwIf_neg hcutoff, throwIf_neg htasks, hsort, splitSequential_eq hlt,
    Action.liftM_eq, Action.ofExcept_ok, pure_bind]
  apply Meets.ite
  · intro _
    refine Meets.bind_of (fun _ => contract.initial)
      (fun s hs => contract.terms (stop - start) s hs) fun _ => ?_
    exact Meets.bind contract.direct fun _ => Meets.pure fun s hs => ⟨rfl, hs⟩
  · intro _
    have hworkers : acceptsStagedWork executor = true → executor.workerCount ≠ 0 := by
      intro haccepts
      simp only [acceptsStagedWork, Bool.and_eq_true, bne_iff_ne] at haccepts
      exact haccepts.1.2
    obtain ⟨truth, hcovers⟩ : ∃ truth, Layout.Covers start (Layout.appendFrontier executor options
        (acceptsStagedWork executor) stop sorted start Layout.empty) truth stop :=
      Layout.Covers.empty.appendFrontier hworkers htasks hlt.le hvalid
      fun seed hmem => hfrontier.isTrue (hperm.mem_iff.mp hmem)
    have hlayoutLevels : ∀ level ∈ (Layout.appendFrontier executor options
        (acceptsStagedWork executor) stop sorted start Layout.empty).treeLevels, levelOk level :=
      Layout.appendFrontier_treeLevels (hcap 0 (UInt32.zero_le)) (fun seed hmem => hlevels seed (hperm.mem_iff.mp hmem)) start
      Layout.empty (by simp [Layout.empty])
    obtain ⟨layout, hlayout⟩ : ∃ layout, layout = Layout.appendFrontier executor options
      (acceptsStagedWork executor) stop sorted start Layout.empty := ⟨_, rfl⟩
    rw [← hlayout] at hcovers hlayoutLevels ⊢
    have hstage : IsStage levelOk start stop 0 truth layout.treeLevels := by
      refine ⟨hcovers.frontier, hcovers.length_treeLevels, hlayoutLevels, ?_⟩
      have := hcovers.frontier.length_le
      have := stop.toNat_lt
      rw [UInt32.toNat_zero, pow_zero]
      omega
    have hne : truth ≠ [] := by
      rintro rfl
      exact hlt.ne hcovers.frontier.tiles
    have hblocks : Meets contract.initial
        (runStage (layout.pendingBlocks.map (blockJob observer))
          (stageSchedule executor (acceptsStagedWork executor) 0
            (layout.pendingBlocks.map (blockJob observer)).length) layout.slots)
        (fun result s => result = truth.map some ∧ contract.initial s) fail := by
      apply runStage_meets hcovers.length_slots
      · intro job hmem
        obtain ⟨block, hblock, rfl⟩ := List.mem_map.mp hmem
        obtain ⟨hblockLt, hnode⟩ := hcovers.block block hblock
        exact ⟨_, splitSequential_eq hblockLt, hnode, contract.terms _⟩
      · exact hcovers.seed
      · intro k hk
        obtain ⟨block, hblock, hindex⟩ := hcovers.pending k hk
        exact ⟨_, List.mem_map_of_mem hblock, hindex⟩
    refine Meets.bind hblocks fun results => Meets.of_pre ?_
    rintro rfl
    simp only [slotValues_map_some, Action.ofExcept_ok, pure_bind]
    have hcomplete : Meets contract.initial (completeStage mergeCoordinator checkpointCoordinator
        truth layout.treeLevels 0 !layout.pendingBlocks.isEmpty) _ fail :=
      (contract.completeStage_meets hstage (.inr rfl)).strengthen
        (contract.start_fresh truth layout.treeLevels hstage)
    refine Meets.bind hcomplete fun nodes' => Meets.of_pre fun hlength => ?_
    exact contract.mergeLevels_meets hcap _ hstage hne (by omega) hlength

end StageContract

/-! ## Coordinators that leave the nodes alone -/

/-- Coordinators that return, and give back the nodes they were given. -/
structure LeavesNodes (mergeCoordinator : BinaryMergeCoordinator σ)
    (checkpointCoordinator : BinaryCheckpointCoordinator σ) : Prop where
  observe : ∀ nodes mergeLevel s, ∃ s',
    mergeCoordinator.observeResidentNodes nodes mergeLevel s = .ok () s'
  prepare : ∀ nodes mergeLevel s, ∃ s',
    mergeCoordinator.prepareMergeNodes nodes mergeLevel s = .ok nodes s'
  spill : ∀ nodes mergeLevel s, ∃ s',
    mergeCoordinator.spillAfterMergeLevel nodes mergeLevel s = .ok nodes s'
  commit : ∀ nodes treeLevels s, ∃ s',
    checkpointCoordinator.commitFrontier nodes treeLevels s = .ok () s'

theorem LeavesNodes.absent :
    LeavesNodes (BinaryMergeCoordinator.absent (σ := σ)) BinaryCheckpointCoordinator.absent :=
  ⟨fun _ _ s => ⟨s, rfl⟩, fun _ _ s => ⟨s, rfl⟩, fun _ _ s => ⟨s, rfl⟩, fun _ _ s => ⟨s, rfl⟩⟩

/-- A program that returns from every state meets what it returns. -/
theorem meets_of_returns {α : Type} {program : Action σ α} {pre : σ → Prop} {a : α}
    {fail : Error → σ → Prop} {post : α → σ → Prop} (h : ∀ s, ∃ s', program s = .ok a s')
    (hpost : ∀ s, post a s) : Meets pre program post fail := by
  intro s _
  obtain ⟨s', hs'⟩ := h s
  rw [hs']
  exact hpost s'

/-- The contract of coordinators that leave the nodes alone puts no condition on the state. -/
def LeavesNodes.contract {mergeCoordinator : BinaryMergeCoordinator σ}
    {checkpointCoordinator : BinaryCheckpointCoordinator σ}
    (h : LeavesNodes mergeCoordinator checkpointCoordinator) (observer : BinarySplitObserver σ)
    (start stop : UInt64) :
    StageContract observer mergeCoordinator checkpointCoordinator (fun _ => True) start stop
      (fun _ _ => False) where
  initial _ := True
  fresh _ _ _ _ := True
  observed _ _ _ _ := True
  committed _ _ _ _ := True
  spilled _ nodes nodes' _ _ := nodes' = nodes
  prepared _ _ _ _ := True
  finished _ := True
  terms _ _ _ := trivial
  direct := meets_of_returns (h.commit _ _) fun _ => trivial
  start_fresh _ _ _ _ _ := trivial
  observe mergeLevel nodes _ _ := meets_of_returns (h.observe nodes mergeLevel) fun _ => trivial
  commit _ nodes treeLevels _ := meets_of_returns (h.commit nodes treeLevels) fun _ => trivial
  skip _ _ _ _ _ := trivial
  spill mergeLevel nodes _ _ _ :=
    meets_of_returns (h.spill nodes mergeLevel) fun _ => ⟨rfl, rfl⟩
  prepare mergeLevel nodes nodes' _ _ _ := by
    rintro s rfl
    have hprepare : Meets (fun _ => True) (mergeCoordinator.prepareMergeNodes nodes' mergeLevel)
        (fun after _ => after = nodes' ∧ True) fun _ _ => False :=
      meets_of_returns (h.prepare nodes' mergeLevel) fun _ => ⟨rfl, trivial⟩
    exact hprepare s trivial
  merge _ _ _ _ _ _ _ := trivial
  finish _ _ _ _ _ _ := trivial

/-- Parallel splitting returns the node of sequential splitting, for every policy, executor, course
of the stages and initial frontier. -/
theorem splitParallel_eq_splitSequential (executor : Executor) (observer : BinarySplitObserver σ)
    (mergeCoordinator : BinaryMergeCoordinator σ)
    (checkpointCoordinator : BinaryCheckpointCoordinator σ)
    (hcoordinators : LeavesNodes mergeCoordinator checkpointCoordinator) (start stop : UInt64)
    (hlt : start < stop) (options : ParallelSplitOptions) (hcutoff : options.sequentialCutoff ≠ 0)
    (htasks : options.tasksPerWorker ≠ 0) (frontier : List BinaryFrontierNode)
    (hfrontier : IsInitialFrontier start stop frontier) (s : σ) :
    ∃ node s', splitParallel executor observer mergeCoordinator checkpointCoordinator start stop
      options frontier s = .ok node s' ∧ splitSequential start stop = .ok node := by
  have hmeets := (hcoordinators.contract observer start stop).splitParallel_meets executor hlt
    hcutoff htasks hfrontier (fun _ _ => trivial) (fun _ _ => trivial) s trivial
  cases hrun : splitParallel executor observer mergeCoordinator checkpointCoordinator start stop
    options frontier s with
  | ok node s' =>
      rw [hrun] at hmeets
      exact ⟨node, s', rfl, by rw [hmeets.1, splitSequential_eq hlt]⟩
  | error e s' =>
      rw [hrun] at hmeets
      exact hmeets.elim

theorem splitParallel_eq_splitSequential_five :
    ∃ node s', splitParallel ⟨true, 2, false, fun _ jobs => Schedule.caller jobs⟩
      BinarySplitObserver.absent BinaryMergeCoordinator.absent BinaryCheckpointCoordinator.absent
      0 5 ⟨1, 4⟩ [⟨BinaryNode.ofRange 1 3, 7⟩] () = .ok node s' ∧
      splitSequential 0 5 = .ok node :=
  splitParallel_eq_splitSequential _ _ _ _ LeavesNodes.absent 0 5 (by decide) ⟨1, 4⟩ (by decide)
    (by decide) _
    ⟨by simp only [List.forall_mem_singleton]; exact ⟨by decide, by decide, by decide⟩,
      List.pairwise_singleton _ _,
      by
        simp only [List.forall_mem_singleton]
        exact splitSequential_eq (by decide)⟩ ()

end GiveMePi.Binary
