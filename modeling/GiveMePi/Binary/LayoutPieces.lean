import GiveMePi.Binary.ParallelCorrectness

/-! # The pieces of a layout

A layout is a row of pieces: the seeds with whatever values they hold, and between them the blocks
of the gaps. -/

namespace GiveMePi.Binary

open Library (Apart Tiles)

/-- A seed, or a block that is computed. -/
inductive LayoutPiece where
  | seed (frontierNode : BinaryFrontierNode)
  | block (start stop : UInt64)
deriving DecidableEq

namespace LayoutPiece

def range : LayoutPiece → UInt64 × UInt64
  | .seed frontierNode => frontierNode.node.range
  | .block start stop => (start, stop)

/-- The node of a piece, when its block is computed. -/
def node : LayoutPiece → BinaryNode
  | .seed frontierNode => frontierNode.node
  | .block start stop => BinaryNode.ofRange start stop

def treeLevel : LayoutPiece → UInt32
  | .seed frontierNode => frontierNode.treeLevel
  | .block _ _ => 0

/-- The slot of a piece before the first stage. -/
def slot : LayoutPiece → Option BinaryNode
  | .seed frontierNode => some frontierNode.node
  | .block _ _ => none

def seed? : LayoutPiece → Option BinaryFrontierNode
  | .seed frontierNode => some frontierNode
  | .block _ _ => none

def block? : LayoutPiece → Option (UInt64 × UInt64)
  | .seed _ => none
  | .block start stop => some (start, stop)

@[simp] theorem node_range (piece : LayoutPiece) : piece.node.range = piece.range := by
  cases piece <;> rfl

end LayoutPiece

/-- A measure of the ranges of all pieces is that of the seeds and that of the blocks. -/
theorem LayoutPiece.sum_ranges (measure : UInt64 × UInt64 → ℕ) (pieces : List LayoutPiece) :
    ((pieces.map LayoutPiece.range).map measure).sum =
      ((pieces.filterMap LayoutPiece.seed?).map fun seed => measure seed.node.range).sum +
        ((pieces.filterMap LayoutPiece.block?).map measure).sum := by
  induction pieces with
  | nil => rfl
  | cons piece rest ih =>
      cases piece with
      | seed frontierNode =>
          simp only [List.map_cons, List.sum_cons, List.filterMap_cons, seed?, block?, ih, range]
          omega
      | block start stop =>
          simp only [List.map_cons, List.sum_cons, List.filterMap_cons, seed?, block?, ih, range]
          omega

namespace Layout

def push (layout : Layout) : LayoutPiece → Layout
  | .seed seed => layout.pushSeed seed
  | .block start stop => layout.pushBlock start stop

def pushAll (layout : Layout) (pieces : List LayoutPiece) : Layout :=
  pieces.foldl push layout

@[simp] theorem pushAll_nil (layout : Layout) : layout.pushAll [] = layout := rfl

@[simp] theorem pushAll_cons (layout : Layout) (piece : LayoutPiece) (pieces : List LayoutPiece) :
    layout.pushAll (piece :: pieces) = (layout.push piece).pushAll pieces := rfl

theorem pushAll_append (layout : Layout) (left right : List LayoutPiece) :
    layout.pushAll (left ++ right) = (layout.pushAll left).pushAll right :=
  List.foldl_append

@[simp] theorem slots_push (layout : Layout) (piece : LayoutPiece) :
    (layout.push piece).slots = layout.slots ++ [piece.slot] := by
  cases piece <;> rfl

@[simp] theorem treeLevels_push (layout : Layout) (piece : LayoutPiece) :
    (layout.push piece).treeLevels = layout.treeLevels ++ [piece.treeLevel] := by
  cases piece <;> rfl

@[simp] theorem slots_pushAll (layout : Layout) (pieces : List LayoutPiece) :
    (layout.pushAll pieces).slots = layout.slots ++ pieces.map LayoutPiece.slot := by
  induction pieces generalizing layout with
  | nil => simp
  | cons piece rest ih => simp [ih]

@[simp] theorem treeLevels_pushAll (layout : Layout) (pieces : List LayoutPiece) :
    (layout.pushAll pieces).treeLevels =
      layout.treeLevels ++ pieces.map LayoutPiece.treeLevel := by
  induction pieces generalizing layout with
  | nil => simp
  | cons piece rest ih => simp [ih]

/-- The blocks of the pieces are pending in their order. -/
theorem pendingBlocks_pushAll (layout : Layout) (pieces : List LayoutPiece) :
    (layout.pushAll pieces).pendingBlocks.map (fun block => (block.start, block.stop)) =
      layout.pendingBlocks.map (fun block => (block.start, block.stop)) ++
        pieces.filterMap LayoutPiece.block? := by
  induction pieces generalizing layout with
  | nil => simp
  | cons piece rest ih =>
      cases piece with
      | seed seed =>
          rw [pushAll_cons, ih]
          simp [push, pushSeed, LayoutPiece.block?, List.filterMap_cons]
      | block start stop =>
          rw [pushAll_cons, ih]
          simp [push, pushBlock, LayoutPiece.block?]

/-- A pending block of a row of pieces is the piece at its index. -/
theorem mem_pendingBlocks_pushAll {pieces : List LayoutPiece} {block : PendingBlock} :
    block ∈ (empty.pushAll pieces).pendingBlocks ↔
      pieces[block.index]? = some (.block block.start block.stop) := by
  induction pieces using List.reverseRecOn with
  | nil => simp [empty]
  | append_singleton pieces piece ih =>
      have hlength : (empty.pushAll pieces).slots.length = pieces.length := by
        simp [empty]
      rw [pushAll_append, getElem?_concat_eq_some, ← ih]
      cases piece with
      | seed seed => simp [push, pushSeed]
      | block start stop =>
          simp only [pushAll_cons, pushAll_nil, push, pushBlock, List.mem_append,
            List.mem_singleton, hlength, LayoutPiece.block.injEq]
          apply or_congr_right
          constructor
          · rintro rfl
            exact ⟨rfl, rfl, rfl⟩
          · rintro ⟨hindex, rfl, rfl⟩
            rw [← hindex]

/-! ## The pieces of gaps -/

/-- The blocks that the loop over a gap appends. -/
def blockPieces (baseBlockSize largerBlockCount : UInt64) : ℕ → UInt64 → UInt64 → List LayoutPiece
  | 0, _, _ => []
  | remaining + 1, block, blockStart =>
      let blockStop := blockStart + baseBlockSize + (if block < largerBlockCount then 1 else 0)
      .block blockStart blockStop ::
        blockPieces baseBlockSize largerBlockCount remaining (block + 1) blockStop

theorem appendBlocks_eq (baseBlockSize largerBlockCount : UInt64) (remaining : ℕ)
    (block blockStart : UInt64) (layout : Layout) :
    appendBlocks baseBlockSize largerBlockCount remaining block blockStart layout =
      layout.pushAll (blockPieces baseBlockSize largerBlockCount remaining block blockStart) := by
  induction remaining generalizing block blockStart layout with
  | zero => rfl
  | succ remaining ih =>
      rw [appendBlocks, ih]
      rfl

variable (executor : Executor) (options : ParallelSplitOptions) (parallelExecution : Bool)

/-- The number of blocks of a gap. -/
def gapBlockCount (gapStart gapStop : UInt64) : UInt64 :=
  if parallelExecution then
    boundedBlockCount (gapStop - gapStart) options.sequentialCutoff executor.workerCount
      options.tasksPerWorker
  else 1

def gapPieces (gapStart gapStop : UInt64) : List LayoutPiece :=
  let gapSize := gapStop - gapStart
  let blockCount := gapBlockCount executor options parallelExecution gapStart gapStop
  blockPieces (gapSize / blockCount) (gapSize % blockCount) blockCount.toNat 0 gapStart

/-- The gap before a bound, if there is one. -/
def gapPiecesBelow (coveredEnd bound : UInt64) : List LayoutPiece :=
  if coveredEnd < bound then gapPieces executor options parallelExecution coveredEnd bound else []

/-- The seeds with the gaps between them. -/
def frontierPieces (stop : UInt64) : List BinaryFrontierNode → UInt64 → List LayoutPiece
  | [], coveredEnd => gapPiecesBelow executor options parallelExecution coveredEnd stop
  | seed :: rest, coveredEnd =>
      gapPiecesBelow executor options parallelExecution coveredEnd seed.node.start ++
        .seed seed :: frontierPieces stop rest seed.node.stop

variable {executor options parallelExecution}

theorem appendGap_eq (layout : Layout) (gapStart gapStop : UInt64) :
    appendGap executor options parallelExecution layout gapStart gapStop =
      layout.pushAll (gapPieces executor options parallelExecution gapStart gapStop) := by
  rw [appendGap, appendBlocks_eq]
  rfl

theorem appendGapBelow_eq (layout : Layout) (coveredEnd bound : UInt64) :
    (if coveredEnd < bound then
      appendGap executor options parallelExecution layout coveredEnd bound else layout) =
        layout.pushAll (gapPiecesBelow executor options parallelExecution coveredEnd bound) := by
  rw [gapPiecesBelow]
  split
  · rw [appendGap_eq]
  · rfl

/-- A layout is the row of its pieces. -/
theorem appendFrontier_eq (stop : UInt64) (seeds : List BinaryFrontierNode) (coveredEnd : UInt64)
    (layout : Layout) :
    appendFrontier executor options parallelExecution stop seeds coveredEnd layout =
      layout.pushAll (frontierPieces executor options parallelExecution stop seeds coveredEnd) := by
  induction seeds generalizing coveredEnd layout with
  | nil => rw [appendFrontier, frontierPieces, appendGapBelow_eq]
  | cons seed rest ih =>
      rw [appendFrontier, frontierPieces, pushAll_append, ← appendGapBelow_eq]
      exact ih seed.node.stop _

theorem blockPieces_length (baseBlockSize largerBlockCount : UInt64) (remaining : ℕ)
    (block blockStart : UInt64) :
    ((blockPieces baseBlockSize largerBlockCount remaining block blockStart).filterMap
      LayoutPiece.block?).length = remaining := by
  induction remaining generalizing block blockStart with
  | zero => rfl
  | succ remaining ih => simp [blockPieces, LayoutPiece.block?, ih]

theorem blockPieces_seed? (baseBlockSize largerBlockCount : UInt64) (remaining : ℕ)
    (block blockStart : UInt64) :
    ∀ piece ∈ blockPieces baseBlockSize largerBlockCount remaining block blockStart,
      piece.seed? = none := by
  induction remaining generalizing block blockStart with
  | zero => simp [blockPieces]
  | succ remaining ih =>
      rw [blockPieces, List.forall_mem_cons]
      exact ⟨rfl, ih _ _⟩

/-- The seeds that a split accepts are apart. -/
theorem apart_of_validateFrontier {start stop coveredEnd : UInt64}
    {seeds : List BinaryFrontierNode} (hle : coveredEnd ≤ stop)
    (h : validateFrontier start stop coveredEnd seeds = .ok ()) :
    Apart coveredEnd (seeds.map fun seed => seed.node.range) stop := by
  induction seeds generalizing coveredEnd with
  | nil => exact hle
  | cons seed rest ih =>
      simp only [validateFrontier, bind_eq_ok, throwIf_eq_ok] at h
      obtain ⟨-, hrange, -, hinside, -, hoverlap, -, -, hrest⟩ := h
      exact ⟨not_lt.mp hoverlap, not_le.mp hrange, ih (not_lt.mp fun hgt => hinside (.inr hgt)) hrest⟩

/-- What a layout covers are the ranges of its pieces. -/
theorem Covers.map_range {start stop : UInt64} {pieces : List LayoutPiece}
    {truth : List BinaryNode} (h : Covers start (Layout.empty.pushAll pieces) truth stop) :
    truth.map BinaryNode.range = pieces.map LayoutPiece.range := by
  have hlength : truth.length = pieces.length := by
    rw [← h.length_slots]
    simp [Layout.empty]
  apply List.ext_getElem?
  intro k
  rw [List.getElem?_map, List.getElem?_map]
  cases hpiece : pieces[k]? with
  | none =>
      rw [List.getElem?_eq_none_iff, ← hlength] at hpiece
      rw [List.getElem?_eq_none hpiece]
      rfl
  | some piece =>
      cases piece with
      | seed frontierNode =>
          rw [h.seed k frontierNode.node (by simp [Layout.empty, hpiece, LayoutPiece.slot])]
          rfl
      | block blockStart blockStop =>
          obtain ⟨-, htruth⟩ := h.block ⟨k, blockStart, blockStop⟩
            (mem_pendingBlocks_pushAll.mpr hpiece)
          rw [htruth]
          rfl

section Frontier

variable (hworkers : parallelExecution = true → executor.workerCount ≠ 0)
  (htasks : options.tasksPerWorker ≠ 0)

include hworkers htasks

theorem gapPiecesBelow_tiles {coveredEnd bound : UInt64} (hle : coveredEnd ≤ bound) :
    Tiles coveredEnd ((gapPiecesBelow executor options parallelExecution coveredEnd bound).map
      LayoutPiece.range) bound := by
  rw [gapPiecesBelow]
  split
  · next hlt =>
      obtain ⟨truth, hcovers⟩ := (@Covers.empty coveredEnd).appendGap hlt hworkers htasks
      rw [appendGap_eq] at hcovers
      rw [← hcovers.map_range]
      exact hcovers.frontier.tiles
  · next hnot => exact le_antisymm hle (not_lt.mp hnot)

/-- The pieces of a frontier follow each other up to the end of the split. -/
theorem frontierPieces_tiles {stop coveredEnd : UInt64} {seeds : List BinaryFrontierNode}
    (h : Apart coveredEnd (seeds.map fun seed => seed.node.range) stop) :
    Tiles coveredEnd ((frontierPieces executor options parallelExecution stop seeds coveredEnd).map
      LayoutPiece.range) stop := by
  induction seeds generalizing coveredEnd with
  | nil => exact gapPiecesBelow_tiles hworkers htasks h
  | cons seed rest ih =>
      obtain ⟨hcovered, hlt, hrest⟩ := h
      rw [frontierPieces, List.map_append]
      exact (gapPiecesBelow_tiles hworkers htasks hcovered).append ⟨rfl, hlt, ih hrest⟩

end Frontier

theorem gapPiecesBelow_seed? (coveredEnd bound : UInt64) :
    (gapPiecesBelow executor options parallelExecution coveredEnd bound).filterMap
      LayoutPiece.seed? = [] := by
  rw [gapPiecesBelow]
  split
  · exact List.filterMap_eq_nil_iff.mpr (blockPieces_seed? _ _ _ _ _)
  · rfl

theorem frontierPieces_seed? (stop : UInt64) (seeds : List BinaryFrontierNode)
    (coveredEnd : UInt64) :
    (frontierPieces executor options parallelExecution stop seeds coveredEnd).filterMap
      LayoutPiece.seed? = seeds := by
  induction seeds generalizing coveredEnd with
  | nil => exact gapPiecesBelow_seed? coveredEnd stop
  | cons seed rest ih =>
      rw [frontierPieces, List.filterMap_append, gapPiecesBelow_seed?, List.nil_append,
        List.filterMap_cons, LayoutPiece.seed?, ih]

end Layout

end GiveMePi.Binary
