import GiveMePi.Library.ProgramLogic
import GiveMePi.Storage.StorageMergeCoordinator

/-! # Accounting of resident nodes

When the observation of a frontier succeeds: exactly when every payload fits into one chunk. -/

namespace GiveMePi.Storage

open Binary (BinaryNode)
open Checkpoint (ComputationIdentity BlockLocation.create BlockLocation.validate_eq_ok
  CheckpointBlockCodec.payloadBytes GMPSerialization.encode_eq_ok_iff
  GMPSerialization.magnitude GMPSerialization.exportBytes)

/-! ## Metadata without compression -/

namespace ChunkCodec

theorem compress_none_eq_ok {lz4 : Lz4} {payload stored : Bytes} (hlength : payload.length < 2 ^ 64) :
    CompressionCodec.compress lz4 .none payload maxChunkPayloadBytes = .ok stored ↔
      stored = payload ∧ payload.length ≤ 2 ^ 30 := by
  have htoNat : (UInt64.ofNat payload.length).toNat = payload.length :=
    UInt64.toNat_ofNat_of_lt hlength
  simp only [CompressionCodec.compress, CompressionCodec.forAlgorithm, if_true, pure_eq_ok, ok_bind,
    CompressionCodec.None.compress, bind_eq_ok, CompressionCodec.checkedSize_eq_ok,
    UInt64.le_iff_toNat_le, htoNat, maxChunkPayloadBytes_toNat, Except.ok.injEq]
  constructor
  · intro h
    rcases h with ⟨_, ⟨hle, _⟩, rfl⟩
    exact ⟨rfl, hle⟩
  · intro h
    exact ⟨_, ⟨h.2, rfl⟩, h.1.symm⟩

/-- Metadata is made for every identity that is valid, up to the limit of a payload. -/
theorem createMetadata_none_isOk {lz4 : Lz4} {identity : ChunkIdentity} {p q t : ℤ} :
    (∃ metadata, createMetadata lz4 identity p q t .none = .ok metadata) ↔
      identity.IsValid ∧ (CheckpointBlockCodec.payloadBytes p q t).length ≤ 2 ^ 30 := by
  constructor
  · intro h
    rcases h with ⟨metadata, h⟩
    simp only [createMetadata, bind_eq_ok, GMPSerialization.encode_eq_ok_iff, canonicalPayload,
      checkedAdd_eq_ok, pure_eq_ok, Except.ok.injEq, ChunkMetadata.create_eq_ok] at h
    rcases h with ⟨_, ⟨rfl, hp⟩, _, ⟨rfl, hq⟩, _, ⟨rfl, ht⟩, payload, ⟨_, ⟨_, rfl⟩, _, ⟨_, _⟩, rfl⟩,
      stored, hstored, created, ⟨rfl, hvalid⟩, _⟩
    have hlength : (CheckpointBlockCodec.payloadBytes p q t).length < 2 ^ 64 := by
      simp only [CheckpointBlockCodec.payloadBytes, List.length_append, GMPSerialization.magnitude,
        GMPSerialization.exportBytes, Library.length_toBytes]
      omega
    exact ⟨hvalid.identity, ((compress_none_eq_ok hlength).mp hstored).2⟩
  · intro h
    have hstored : CompressionCodec.compress lz4 .none (CheckpointBlockCodec.payloadBytes p q t)
        maxChunkPayloadBytes = .ok (CheckpointBlockCodec.payloadBytes p q t) :=
      (compress_none_eq_ok (by omega)).mpr ⟨rfl, h.2⟩
    rcases createMetadata_eq_ok h.1 (.inl rfl) h.2 hstored h.2 with ⟨metadata, hmetadata, _⟩
    exact ⟨metadata, hmetadata⟩

/-- The size in the metadata is that of the payload. -/
theorem uncompressedSize_of_createMetadata {lz4 : Lz4} {identity : ChunkIdentity} {p q t : ℤ}
    {compression : CompressionAlgorithm} {metadata : ChunkMetadata}
    (h : createMetadata lz4 identity p q t compression = .ok metadata) :
    metadata.uncompressedSize = UInt64.ofNat (CheckpointBlockCodec.payloadBytes p q t).length := by
  simp only [createMetadata, bind_eq_ok, GMPSerialization.encode_eq_ok_iff, canonicalPayload,
    checkedAdd_eq_ok, pure_eq_ok, Except.ok.injEq, ChunkMetadata.create_eq_ok] at h
  rcases h with ⟨_, ⟨rfl, _⟩, _, ⟨rfl, _⟩, _, ⟨rfl, _⟩, payload, ⟨_, ⟨_, rfl⟩, _, ⟨_, _⟩, rfl⟩, stored, _,
    created, ⟨rfl, _⟩, _, _, _, _, rfl⟩
  rfl

end ChunkCodec

namespace StorageMergeCoordinator

open Library.Program

variable {policy : StoragePolicy} {memoryBudgetBytes : UInt64} {lz4 : Lz4}
  {computation : ComputationIdentity}

/-! ## Records -/

/-- The payload of a node in bytes. -/
def payloadSize (node : BinaryNode) : ℕ :=
  (CheckpointBlockCodec.payloadBytes node.p node.q node.t).length

/-- The identity a node is stored as. -/
def identityOf (computation : ComputationIdentity) (level : UInt32) (node : BinaryNode) :
    ChunkIdentity :=
  ⟨computation, ⟨node.start, node.stop, level⟩⟩

/-- The record of a node that is observed. -/
def recordOf (computation : ComputationIdentity) (count : ℕ) (level : UInt32) (node : BinaryNode) :
    ResidentMergeNode where
  identity := identityOf computation level node
  chunkId := (identityOf computation level node).chunkFilename
  residentBytes := UInt64.ofNat (payloadSize node)
  level := level
  lifecycle := .initial
  mergeDistance := if count > 1 then 1 else 0

theorem residentNode_eq_ok {count : ℕ} {level : UInt32} {node : BinaryNode}
    {record : ResidentMergeNode} :
    residentNode lz4 computation count level node = .ok record ↔
      record = recordOf computation count level node ∧
        (identityOf computation level node).IsValid ∧ payloadSize node ≤ 2 ^ 30 := by
  simp only [residentNode, bind_eq_ok, throwIf_eq_ok, ge_iff_le, not_le, BlockLocation.create,
    BlockLocation.validate_eq_ok, ChunkIdentity.create_eq_ok, ChunkIdentity.deterministicFilename,
    ChunkIdentity.validate_eq_ok, pure_eq_ok, Except.ok.injEq]
  constructor
  · intro h
    rcases h with ⟨_, _, _, ⟨_, _, rfl⟩, _, ⟨rfl, hvalid⟩, metadata, hmetadata, _, ⟨_, _, rfl⟩, rfl⟩
    have hsize := (ChunkCodec.createMetadata_none_isOk.mp ⟨metadata, hmetadata⟩).2
    rw [ChunkCodec.uncompressedSize_of_createMetadata hmetadata]
    exact ⟨rfl, hvalid, hsize⟩
  · intro h
    rcases h with ⟨rfl, hvalid, hsize⟩
    obtain ⟨metadata, hmetadata⟩ : ∃ metadata, ChunkCodec.createMetadata lz4
        (identityOf computation level node) node.p node.q node.t .none = .ok metadata :=
      ChunkCodec.createMetadata_none_isOk.mpr ⟨hvalid, hsize⟩
    refine ⟨(), hvalid.start_lt, _, ⟨(), ⟨hvalid.start_lt, hvalid.stop_le⟩, rfl⟩, _, ⟨rfl, hvalid⟩,
      metadata, hmetadata, _, ⟨(), hvalid, rfl⟩, ?_⟩
    rw [ChunkCodec.uncompressedSize_of_createMetadata hmetadata]
    rfl

/-- What the loop over the nodes returns, and when it does. -/
theorem residentNodesOf_eq_ok {count : ℕ} {level : UInt32} {nodes : List BinaryNode}
    {identities : Finset Bytes} {records : List ResidentMergeNode} :
    residentNodesOf lz4 computation count level nodes identities = .ok records ↔
      records = nodes.map (recordOf computation count level) ∧
        (∀ node ∈ nodes, (identityOf computation level node).IsValid ∧ payloadSize node ≤ 2 ^ 30 ∧
          (identityOf computation level node).chunkFilename ∉ identities) ∧
        nodes.Pairwise fun node other =>
          identityOf computation level node ≠ identityOf computation level other := by
  induction nodes generalizing identities records with
  | nil =>
      simp [residentNodesOf, eq_comm]
  | cons node rest ih =>
      simp only [residentNodesOf, bind_eq_ok, residentNode_eq_ok, throwIf_eq_ok, ih, pure_eq_ok,
        Except.ok.injEq, List.map_cons, List.forall_mem_cons, List.pairwise_cons]
      constructor
      · intro h
        rcases h with ⟨_, ⟨rfl, hvalid, hsize⟩, _, hfresh, _, ⟨rfl, hrest, hapart⟩, rfl⟩
        refine ⟨rfl, ⟨⟨hvalid, hsize, hfresh⟩, fun other hmem => ?_⟩, fun other hmem heq => ?_, hapart⟩
        · have hother := hrest other hmem
          rw [Finset.mem_insert, not_or] at hother
          exact ⟨hother.1, hother.2.1, hother.2.2.2⟩
        · have hother := (hrest other hmem).2.2
          rw [← heq] at hother
          exact hother (Finset.mem_insert_self _ _)
      · intro h
        rcases h with ⟨rfl, ⟨⟨hvalid, hsize, hfresh⟩, hrest⟩, hne, hapart⟩
        refine ⟨_, ⟨rfl, hvalid, hsize⟩, (), hfresh, _, ⟨rfl, fun other hmem => ?_, hapart⟩, rfl⟩
        have hother := hrest other hmem
        rw [Finset.mem_insert, not_or]
        exact ⟨hother.1, hother.2.1,
          fun heq => hne other hmem (ChunkIdentity.chunkFilename_injective heq.symm), hother.2.2⟩

/-! ## Retired nodes -/

/-- What is in the manager can be removed. -/
theorem remove_returns {manager : StorageManager} {identity : ChunkIdentity}
    (h : manager.contains policy identity = true) :
    ∃ manager', StorageManager.remove policy identity manager = .ok true manager' ∧
      manager'.inFlightStores = manager.inFlightStores := by
  rw [StorageManager.contains] at h
  cases hentry : manager.index.find? identity with
  | none => simp [hentry] at h
  | some entry =>
      simp only [hentry] at h
      cases hfile : manager.chunkFile? policy entry with
      | none => simp [hfile] at h
      | some content =>
          rcases StorageManager.publishIndex_returns policy (manager.limits.remove identity)
            (manager.eraseFile (ChunkStore.chunkPath policy entry.storageFile))
            with ⟨manager', hpublish, _, hflight, _⟩
          refine ⟨manager', ?_, hflight⟩
          simp only [StorageManager.remove, get_bind, hentry, hfile, set_bind, bind_of_ok hpublish,
            pure_apply]

theorem retire_returns (policy : StoragePolicy) (record : ResidentMergeNode) (memory : MergeMemory) :
    ∃ memory', retire policy record memory = .ok () memory' ∧ memory'.nodes = memory.nodes ∧
      memory'.manager.inFlightStores = memory.manager.inFlightStores := by
  by_cases hcontains : memory.manager.contains policy record.identity = true
  · rcases remove_returns hcontains with ⟨manager', hremove, hflight⟩
    have hretire : MergeMemory.onManager (StorageManager.remove policy record.identity) memory =
        .ok true { memory with manager := manager' } := by
      simp only [MergeMemory.onManager, hremove]
    refine ⟨{ memory with manager := manager' }, ?_, rfl, hflight⟩
    simp only [retire, get_bind, hcontains, if_true, bind_of_ok hretire]
    rfl
  · refine ⟨memory, ?_, rfl, rfl⟩
    simp only [retire, get_bind, hcontains]
    rfl

/-! ## Observations -/

/-- An observation returns exactly when the records of the nodes can be made, and keeps them. -/
theorem observeResidentNodes_eq (policy : StoragePolicy) (lz4 : Lz4)
    (computation : ComputationIdentity) (nodes : List BinaryNode) (level : UInt32)
    (memory : MergeMemory) :
    match residentNodesOf lz4 computation nodes.length level nodes ∅ with
    | .error e => observeResidentNodes policy lz4 computation nodes level memory = .error e memory
    | .ok records => ∃ memory', observeResidentNodes policy lz4 computation nodes level memory =
        .ok () memory' ∧ memory'.residentNodes = records ∧ memory'.nodes = memory.nodes ∧
          memory'.manager.inFlightStores = memory.manager.inFlightStores := by
  rw [observeResidentNodes]
  cases residentNodesOf lz4 computation nodes.length level nodes ∅ with
  | error e => rfl
  | ok records =>
      have hretire : ∀ (record : ResidentMergeNode) (state : MergeMemory),
          state.nodes = memory.nodes ∧
              state.manager.inFlightStores = memory.manager.inFlightStores →
            ∃ state', retire policy record state = .ok () state' ∧ state'.nodes = memory.nodes ∧
              state'.manager.inFlightStores = memory.manager.inFlightStores := by
        intro record state h
        rcases retire_returns policy record state with ⟨state', hreturns, hnodes, hflight⟩
        exact ⟨state', hreturns, hnodes.trans h.1, hflight.trans h.2⟩
      rcases forM_returns hretire memory.residentNodes ⟨rfl, rfl⟩ with
        ⟨memory', hretired, hnodes, hflight⟩
      refine ⟨{ memory' with residentNodes := records }, ?_, rfl, hnodes, hflight⟩
      simp only [Action.liftM_eq, Action.ofExcept_ok, pure_bind, get_bind, bind_of_ok hretired,
        modify_apply]

/-- A frontier that may be resident: ranges of the computation, each one once. -/
structure IsResident (computation : ComputationIdentity) (nodes : List BinaryNode) : Prop where
  isValid : computation.IsValid
  bounds : ∀ node ∈ nodes, node.start < node.stop ∧ node.stop ≤ computation.termCount
  apart : nodes.Pairwise fun node other => (node.start, node.stop) ≠ (other.start, other.stop)

theorem residentNodesOf_isResident (lz4 : Lz4) {nodes : List BinaryNode}
    (h : IsResident computation nodes) (count : ℕ) (level : UInt32) :
    residentNodesOf lz4 computation count level nodes ∅ =
        .ok (nodes.map (recordOf computation count level)) ↔
      ∀ node ∈ nodes, payloadSize node ≤ 2 ^ 30 := by
  rw [residentNodesOf_eq_ok]
  constructor
  · intro hok node hmem
    exact (hok.2.1 node hmem).2.1
  · intro hsize
    refine ⟨rfl, fun node hmem => ⟨⟨h.isValid, (h.bounds node hmem).1, (h.bounds node hmem).2⟩,
      hsize node hmem, Finset.notMem_empty _⟩, h.apart.imp fun hne heq => hne ?_⟩
    simp only [identityOf, ChunkIdentity.mk.injEq, Checkpoint.BlockLocation.mk.injEq, true_and,
      and_true] at heq
    rw [heq.1, heq.2]

/-- The observation of a resident frontier succeeds exactly when every payload fits into a chunk. -/
theorem observeResidentNodes_isOk {nodes : List BinaryNode} (h : IsResident computation nodes)
    (level : UInt32) (memory : MergeMemory) :
    (∃ memory', observeResidentNodes policy lz4 computation nodes level memory = .ok () memory') ↔
      ∀ node ∈ nodes, payloadSize node ≤ 2 ^ 30 := by
  have hobserve := observeResidentNodes_eq policy lz4 computation nodes level memory
  rw [← residentNodesOf_isResident lz4 h nodes.length level]
  cases hrecords : residentNodesOf lz4 computation nodes.length level nodes ∅ with
  | error e =>
      rw [hrecords] at hobserve
      simp [hobserve]
  | ok records =>
      rw [hrecords] at hobserve
      rcases hobserve with ⟨memory', hobserve, _⟩
      simp [hobserve, (residentNodesOf_eq_ok.mp hrecords).1]

end StorageMergeCoordinator

end GiveMePi.Storage
