import GiveMePi.Storage.IndexHistories
import GiveMePi.Storage.ResidentAccounting
import GiveMePi.Storage.StoragePolicy

/-! # Resident bytes against the memory budget

The store and the manager add up the sizes of the resident chunks, the one with a check and the
other without. The coordinator decides on a spill by the total of the manager. -/

namespace GiveMePi.Storage

open Binary (BinaryNode)
open Library (Saturates Wraps)
open StorageManager (saturatingAdd)

/-! ## The budget of the store -/

/-- The resident bytes are those of chunks in memory, the storage bytes those of chunks on disk. -/
structure MemoryBudget where
  residentBytes : UInt64 := 0
  storageBytes : UInt64 := 0
  budgetBytes : UInt64 := 0
  targetChunkSize : UInt64 := 0
deriving DecidableEq, Repr

namespace MemoryBudget

def addResidentBytes (budget : MemoryBudget) (bytes : UInt64) : MemoryBudget :=
  { budget with residentBytes := saturatingAdd budget.residentBytes bytes }

def addStorageBytes (budget : MemoryBudget) (bytes : UInt64) : MemoryBudget :=
  { budget with storageBytes := saturatingAdd budget.storageBytes bytes }

def setBudget (budget : MemoryBudget) (bytes : UInt64) : MemoryBudget :=
  { budget with budgetBytes := bytes }

def setTargetChunkSize (budget : MemoryBudget) (bytes : UInt64) : MemoryBudget :=
  { budget with targetChunkSize := bytes }

end MemoryBudget

def ChunkStore.queryBudget (policy : FullStoragePolicy)
    (residentChunks storedChunks : List (Bytes × UInt64)) : MemoryBudget :=
  let result : MemoryBudget := {}
  let result := result.setBudget policy.memoryBudgetBytes
  let result := result.setTargetChunkSize policy.targetChunkSizeBytes
  let result := residentChunks.foldl (fun result chunk => result.addResidentBytes chunk.2) result
  storedChunks.foldl (fun result chunk => result.addStorageBytes chunk.2) result

/-! ## The snapshot of the manager -/

structure StorageSnapshot where
  indexedChunks : ℕ
  storedBytes : UInt64
  residentBytes : UInt64
  memoryBudgetBytes : UInt64
  entries : List ChunkIndexEntry
deriving DecidableEq, Repr

def StorageManager.snapshot (policy : FullStoragePolicy) (manager : StorageManager)
    (residentChunks : List (Bytes × UInt64)) : StorageSnapshot where
  indexedChunks := manager.index.entries.length
  storedBytes := manager.index.storedBytes
  residentBytes := residentChunks.foldl (fun total chunk => total + chunk.2) 0
  memoryBudgetBytes := policy.memoryBudgetBytes
  entries := manager.index.entries.map fun entry => entry.2

/-- What the coordinator has in memory, or is writing. -/
def CoordinatorMemory.residentChunks (memory : CoordinatorMemory) : List (Bytes × UInt64) :=
  (memory.residentNodes.filter fun record => record.lifecycle.state = .resident ∨
    record.lifecycle.state = .spilling).map fun record => (record.chunkId, record.residentBytes)

def StorageMergeCoordinator.snapshot (policy : FullStoragePolicy) (memory : MergeMemory) :
    StorageSnapshot :=
  memory.manager.snapshot policy memory.residentChunks

/-! ## Totals -/

/-- The sum of the sizes, in numbers without a bound. -/
def totalBytes (chunks : List (Bytes × UInt64)) : ℕ :=
  (chunks.map fun chunk => chunk.2.toNat).sum

theorem saturates_saturatingAdd : Saturates (2 ^ 64 - 1) UInt64.toNat
    (fun chunk : Bytes × UInt64 => chunk.2.toNat) (fun total chunk => saturatingAdd total chunk.2) :=
  saturates_toNat fun _ _ => rfl

theorem wraps_add : Wraps (2 ^ 64 - 1) UInt64.toNat
    (fun chunk : Bytes × UInt64 => chunk.2.toNat) (fun total chunk => total + chunk.2) :=
  wraps_toNat fun _ _ => rfl

/-- The loop over the resident chunks works on one field. -/
theorem foldl_addResidentBytes (chunks : List (Bytes × UInt64)) (budget : MemoryBudget) :
    chunks.foldl (fun result chunk => result.addResidentBytes chunk.2) budget =
      { budget with
        residentBytes := chunks.foldl (fun total chunk => saturatingAdd total chunk.2)
          budget.residentBytes } := by
  induction chunks generalizing budget with
  | nil => rfl
  | cons chunk rest ih =>
      rw [List.foldl_cons, ih, List.foldl_cons, MemoryBudget.addResidentBytes]

theorem foldl_addStorageBytes (chunks : List (Bytes × UInt64)) (budget : MemoryBudget) :
    chunks.foldl (fun result chunk => result.addStorageBytes chunk.2) budget =
      { budget with
        storageBytes := chunks.foldl (fun total chunk => saturatingAdd total chunk.2)
          budget.storageBytes } := by
  induction chunks generalizing budget with
  | nil => rfl
  | cons chunk rest ih =>
      rw [List.foldl_cons, ih, List.foldl_cons, MemoryBudget.addStorageBytes]

section

variable {policy : FullStoragePolicy} {manager : StorageManager}
  {residentChunks storedChunks : List (Bytes × UInt64)}

theorem queryBudget_eq : ChunkStore.queryBudget policy residentChunks storedChunks =
    { residentBytes := residentChunks.foldl (fun total chunk => saturatingAdd total chunk.2) 0
      storageBytes := storedChunks.foldl (fun total chunk => saturatingAdd total chunk.2) 0
      budgetBytes := policy.memoryBudgetBytes
      targetChunkSize := policy.targetChunkSizeBytes } := by
  simp only [ChunkStore.queryBudget, foldl_addResidentBytes, foldl_addStorageBytes]
  rfl

/-- Both totals of a budget stay at the largest word. -/
theorem toNat_queryBudget :
    (ChunkStore.queryBudget policy residentChunks storedChunks).residentBytes.toNat =
        min (2 ^ 64 - 1) (totalBytes residentChunks) ∧
      (ChunkStore.queryBudget policy residentChunks storedChunks).storageBytes.toNat =
        min (2 ^ 64 - 1) (totalBytes storedChunks) := by
  rw [queryBudget_eq, saturates_saturatingAdd.foldl, saturates_saturatingAdd.foldl,
    UInt64.toNat_zero, Nat.zero_add, Nat.zero_add]
  exact ⟨rfl, rfl⟩

theorem toNat_snapshot : (manager.snapshot policy residentChunks).residentBytes.toNat =
    totalBytes residentChunks % 2 ^ 64 := by
  have htotal := wraps_add.foldl 0 residentChunks
  rw [UInt64.toNat_zero, Nat.zero_add, Nat.sub_add_cancel Nat.one_le_two_pow] at htotal
  exact htotal

/-- The total of the manager is that of the store exactly up to the largest word, and where the
wrapped sum comes to lie on it. -/
theorem snapshot_eq_queryBudget_iff : (manager.snapshot policy residentChunks).residentBytes =
      (ChunkStore.queryBudget policy residentChunks storedChunks).residentBytes ↔
    totalBytes residentChunks < 2 ^ 64 ∨ totalBytes residentChunks % 2 ^ 64 = 2 ^ 64 - 1 := by
  have hagree := @Library.mod_succ_eq_min_iff (2 ^ 64 - 1) (totalBytes residentChunks)
  rw [Nat.sub_add_cancel Nat.one_le_two_pow, Nat.le_sub_one_iff_lt Nat.one_le_two_pow] at hagree
  rw [← UInt64.toNat_inj, toNat_snapshot, toNat_queryBudget.1, hagree]

end

/-! ## The decision on a spill -/

namespace StorageMergeCoordinator

theorem residentBytes_eq (memory : CoordinatorMemory) : residentBytes memory.residentNodes =
    memory.residentChunks.foldl (fun total chunk => total + chunk.2) 0 := by
  rw [residentBytes, CoordinatorMemory.residentChunks, List.foldl_map]

/-- Nothing is planned exactly when the total is within the budget. -/
theorem spillPlan_eq_none_iff {memoryBudgetBytes : UInt64} {memory : CoordinatorMemory} :
    spillPlan memoryBudgetBytes memory = .ok none ↔
      residentBytes memory.residentNodes ≤ memoryBudgetBytes := by
  simp only [spillPlan]
  split
  · next h => simp [h]
  · next h =>
      simp only [h, iff_false, bind_eq_ok, pure_eq_ok, not_exists, not_and]
      intro plan _ _ _ hnone
      cases hnone

/-- The decision is the one on the snapshot. -/
theorem spillPlan_snapshot {policy : FullStoragePolicy} {memory : MergeMemory} :
    spillPlan policy.memoryBudgetBytes memory.toCoordinatorMemory = .ok none ↔
      (snapshot policy memory).residentBytes ≤ (snapshot policy memory).memoryBudgetBytes := by
  rw [spillPlan_eq_none_iff, residentBytes_eq]
  rfl

/-- The totals of the manager and of the store are the saturated sum, and spills are decided by that
sum, exactly up to the largest word and where the wrapped sum comes to lie on it. -/
theorem residentBytes_agree_iff (policy : FullStoragePolicy) (manager : StorageManager)
    (residentChunks storedChunks : List (Bytes × UInt64)) :
    ((manager.snapshot policy residentChunks).residentBytes =
        (ChunkStore.queryBudget policy residentChunks storedChunks).residentBytes ∧
      (ChunkStore.queryBudget policy residentChunks storedChunks).residentBytes.toNat =
        min (totalBytes residentChunks) (2 ^ 64 - 1) ∧
      ∀ memory : CoordinatorMemory, memory.residentChunks = residentChunks →
        ∀ memoryBudgetBytes : UInt64, spillPlan memoryBudgetBytes memory = .ok none ↔
          min (totalBytes residentChunks) (2 ^ 64 - 1) ≤ memoryBudgetBytes.toNat) ↔
    totalBytes residentChunks < 2 ^ 64 ∨ totalBytes residentChunks % 2 ^ 64 = 2 ^ 64 - 1 := by
  constructor
  · rintro ⟨hagree, -⟩
    exact snapshot_eq_queryBudget_iff.mp hagree
  · intro h
    have hagree : (manager.snapshot policy residentChunks).residentBytes =
        (ChunkStore.queryBudget policy residentChunks storedChunks).residentBytes :=
      snapshot_eq_queryBudget_iff.mpr h
    have hsaturated : (ChunkStore.queryBudget policy residentChunks storedChunks).residentBytes.toNat =
        min (totalBytes residentChunks) (2 ^ 64 - 1) :=
      toNat_queryBudget.1.trans (Nat.min_comm _ _)
    refine ⟨hagree, hsaturated, fun memory hchunks memoryBudgetBytes => ?_⟩
    have htotal : residentBytes memory.residentNodes =
        (manager.snapshot policy residentChunks).residentBytes := by
      rw [residentBytes_eq, hchunks]
      rfl
    rw [spillPlan_eq_none_iff, UInt64.le_iff_toNat_le, htotal, hagree, hsaturated]

/-- Two chunks whose sizes wrap around to nothing: the manager sees no resident bytes and a total
within the default budget, where the store sees the largest word. -/
theorem residentBytes_disagree :
    let chunks : List (Bytes × UInt64) := [(ascii "first", uint64Max), (ascii "second", 1)]
    (StorageManager.create.snapshot {} chunks).residentBytes = 0 ∧
      (ChunkStore.queryBudget {} chunks []).residentBytes = uint64Max ∧
      (StorageManager.create.snapshot {} chunks).residentBytes ≠
        (ChunkStore.queryBudget {} chunks []).residentBytes ∧
      (StorageManager.create.snapshot {} chunks).residentBytes ≤ defaultMemoryBudgetBytes ∧
      ¬ min (totalBytes chunks) (2 ^ 64 - 1) ≤ defaultMemoryBudgetBytes.toNat := by
  decide

/-! ## Frontiers -/

theorem totalBytes_le {bound : ℕ} {chunks : List (Bytes × UInt64)}
    (h : ∀ chunk ∈ chunks, chunk.2.toNat ≤ bound) : totalBytes chunks ≤ chunks.length * bound := by
  have hsum := List.sum_le_card_nsmul (chunks.map fun chunk => chunk.2.toNat) bound (by
    intro size hmem
    obtain ⟨chunk, hchunk, rfl⟩ := List.mem_map.mp hmem
    exact h chunk hchunk)
  rwa [List.length_map, smul_eq_mul] at hsum

/-- A payload that fits into a chunk is so small that no frontier that can be observed, of fewer than
`2 ^ 34` nodes, is added up wrongly. -/
theorem totalBytes_observed_lt {policy : StoragePolicy} {lz4 : Lz4}
    {computation : Checkpoint.ComputationIdentity} {nodes : List BinaryNode} {level : UInt32}
    {memory memory' : MergeMemory} (hcount : nodes.length < 2 ^ 34)
    (h : observeResidentNodes policy lz4 computation nodes level memory = .ok () memory') :
    totalBytes memory'.residentChunks < 2 ^ 64 := by
  have hobserve := observeResidentNodes_eq policy lz4 computation nodes level memory
  cases hrecords : residentNodesOf lz4 computation nodes.length level nodes ∅ with
  | error e =>
      rw [hrecords, h] at hobserve
      cases hobserve
  | ok records =>
      rw [hrecords] at hobserve
      obtain ⟨observed, hok, hresident, -, -⟩ := hobserve
      obtain rfl : memory' = observed := by
        rw [h] at hok
        cases hok
        rfl
      obtain ⟨rfl, hfit, -⟩ := residentNodesOf_eq_ok.mp hrecords
      have hsize : ∀ chunk ∈ memory'.residentChunks, chunk.2.toNat ≤ 2 ^ 30 := by
        intro chunk hmem
        rw [CoordinatorMemory.residentChunks, hresident] at hmem
        obtain ⟨record, hrecord, rfl⟩ := List.mem_map.mp hmem
        obtain ⟨node, hnode, rfl⟩ := List.mem_map.mp (List.mem_of_mem_filter hrecord)
        have hpayload := (hfit node hnode).2.1
        exact (UInt64.toNat_ofNat_of_lt (hpayload.trans_lt (by decide))).le.trans hpayload
      have hlength : memory'.residentChunks.length ≤ nodes.length := by
        rw [CoordinatorMemory.residentChunks, List.length_map, hresident]
        exact (List.length_filter_le _ _).trans (List.length_map _).le
      have htotal := totalBytes_le hsize
      omega

end StorageMergeCoordinator

end GiveMePi.Storage
