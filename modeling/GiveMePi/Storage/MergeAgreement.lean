import GiveMePi.Storage.LoadLoops
import GiveMePi.Storage.ResidentAccounting
import GiveMePi.Storage.WritePools

/-! # Agreement of merge storage

A coordinator with a writer and a reader ends each call of a split like one without, whatever the order
in which the workers take their steps. Where the manager refuses a chunk, both throw. -/

namespace GiveMePi.Storage

open Binary (BinaryNode)
open BinaryNodeChunkAdapter (literals literals_isLossless)
open Checkpoint (ComputationIdentity)
open Library (Inevitable Pool)
open Library.Program

theorem BinaryNodeChunkAdapter.toChunk_eq_ok {lz4 : Lz4} {node : BinaryNode}
    {computation : ComputationIdentity} {level : UInt32} {compression : CompressionAlgorithm}
    {chunk : Chunk} (h : toChunk lz4 node computation level compression = .ok chunk) :
    chunk.metadata.identity = ⟨computation, ⟨node.start, node.stop, level⟩⟩ ∧
      chunk.metadata.IsValid := by
  simp only [toChunk, GiveMePi.bind_eq_ok, Checkpoint.BlockLocation.create, ChunkCodec.createMetadata,
    ChunkIdentity.create_eq_ok, ChunkMetadata.create_eq_ok, pure_eq_ok, Except.ok.injEq] at h
  rcases h with ⟨_, _, _, ⟨_, _, rfl⟩, _, ⟨rfl, _⟩, _, ⟨_, _, _, _, _, _, _, _, _, _, _, ⟨rfl, hvalid⟩, _,
    _, _, _, rfl⟩, rfl⟩
  exact ⟨rfl, hvalid.identity, hvalid.version, hvalid.uncompressed_le, hvalid.stored_le, hvalid.crc32c,
    hvalid.compression⟩

namespace StorageMergeCoordinator

open CoordinatorMemory MergeMemory StorageManager AsyncMerges

section Calls

variable {policy : StoragePolicy} {memoryBudgetBytes : UInt64} {lz4 : Lz4}
  {computation : ComputationIdentity} {level : UInt32}

/-! ## What the calls keep -/

/-- The records are those of the nodes, and those whose chunks are stored have a given property. -/
structure AreObserved (computation : ComputationIdentity) (level : UInt32)
    (isStored : ChunkIdentity → Prop) (memory : CoordinatorMemory) : Prop where
  identity : ∀ (index : ℕ) (record : ResidentMergeNode) (node : BinaryNode),
    memory.residentNodes[index]? = some record → memory.nodes[index]? = some node →
      record.identity = identityOf computation level node
  stored : ∀ (index : ℕ) (record : ResidentMergeNode),
    memory.residentNodes[index]? = some record → record.lifecycle.state = .stored → isStored record.identity

section Observed

variable {isStored isStored' : ChunkIdentity → Prop} {memory : CoordinatorMemory}

theorem AreObserved.mono (h : AreObserved computation level isStored memory)
    (hle : ∀ identity, isStored identity → isStored' identity) :
    AreObserved computation level isStored' memory where
  identity := h.identity
  stored index record hrecord hstate := hle _ (h.stored index record hrecord hstate)

/-- One chunk more. -/
theorem AreObserved.write (h : AreObserved computation level isStored memory) {index : ℕ}
    {chunk : Chunk} {begun : CoordinatorMemory}
    (hbegin : beginSpill policy lz4 computation level index memory = .ok chunk begun) :
    AreObserved computation level
      (fun identity => isStored identity ∨
        chunk.metadata.identity = identity ∧ chunk.metadata.IsValid)
      (completeWrite index chunk.metadata.storedSize begun) := by
  rcases beginSpill_eq_ok.mp hbegin with ⟨rfl, record, node, hrecord, hnode, _, hchunk⟩
  rcases BinaryNodeChunkAdapter.toChunk_eq_ok hchunk with ⟨hidentity, hvalid⟩
  -- the node that is written has become a stored one without values
  have hwritten : (completeWrite index chunk.metadata.storedSize
      (memory.setLifecycle index ⟨.spilling, none⟩)).residentNodes[index]? =
        some { record with lifecycle := ⟨.stored, none⟩ } := by
    rw [completeWrite, getElem?_updateRecord]
    simp [releaseNode, setLifecycle, updateRecord, hrecord, NodeLifecycle.finishAsyncSpill]
  have hcleared : (completeWrite index chunk.metadata.storedSize
      (memory.setLifecycle index ⟨.spilling, none⟩)).nodes[index]? = some node.clearValues := by
    simp [completeWrite, releaseNode, setLifecycle, updateRecord, hnode]
  have hothers : ∀ other, index ≠ other →
      (completeWrite index chunk.metadata.storedSize
        (memory.setLifecycle index ⟨.spilling, none⟩)).residentNodes[other]? =
          memory.residentNodes[other]? ∧
      (completeWrite index chunk.metadata.storedSize
        (memory.setLifecycle index ⟨.spilling, none⟩)).nodes[other]? = memory.nodes[other]? := by
    intro other hne
    rcases getElem?_completeWrite hne chunk.metadata.storedSize
      (memory.setLifecycle index ⟨.spilling, none⟩) with ⟨hrecords, hnodes⟩
    exact ⟨hrecords.trans (getElem?_updateRecord_of_ne hne _ _), hnodes⟩
  constructor
  · intro other record' node' hrecord' hnode'
    by_cases heq : index = other
    · subst heq
      rw [hwritten] at hrecord'
      rw [hcleared] at hnode'
      cases hrecord'
      cases hnode'
      exact h.identity index record node hrecord hnode
    · rw [(hothers other heq).1] at hrecord'
      rw [(hothers other heq).2] at hnode'
      exact h.identity other record' node' hrecord' hnode'
  · intro other record' hrecord' hstate
    by_cases heq : index = other
    · subst heq
      rw [hwritten] at hrecord'
      cases hrecord'
      exact .inr ⟨hidentity.trans (h.identity index record node hrecord hnode).symm, hvalid⟩
    · rw [(hothers other heq).1] at hrecord'
      exact .inl (h.stored other record' hrecord' hstate)

/-- After the loop over the candidates, what is stored are its chunks and what was stored before. -/
theorem AreObserved.spilled (h : AreObserved computation level isStored memory)
    {candidates : List EvictionCandidate} {memory' : CoordinatorMemory}
    (hend : (spilled policy lz4 computation level candidates memory).2 = .ok () memory') :
    AreObserved computation level
      (fun identity => isStored identity ∨
        ∃ chunk ∈ (spilled policy lz4 computation level candidates memory).1,
          chunk.metadata.identity = identity ∧ chunk.metadata.IsValid) memory' := by
  induction candidates generalizing isStored memory with
  | nil =>
      cases hend
      exact h.mono fun _ => .inl
  | cons candidate rest ih =>
      rw [StorageMergeCoordinator.spilled] at hend ⊢
      cases hindex : spillIndex? memory level candidate with
      | none =>
          simp only [hindex] at hend ⊢
          exact ih h hend
      | some index =>
          cases hbegin : beginSpill policy lz4 computation level index memory with
          | error e begun =>
              simp only [hindex, hbegin] at hend
              cases hend
          | ok chunk begun =>
              simp only [hindex, hbegin] at hend ⊢
              refine (ih (h.write hbegin) hend).mono fun identity hstored => ?_
              simp only [List.exists_mem_cons_iff]
              tauto

theorem AreObserved.plannedSpill (h : AreObserved computation level isStored memory)
    {memory' : CoordinatorMemory}
    (hend : (plannedSpill policy memoryBudgetBytes lz4 computation level memory).2 =
      .ok () memory') :
    AreObserved computation level
      (fun identity => isStored identity ∨
        ∃ chunk ∈ (plannedSpill policy memoryBudgetBytes lz4 computation level memory).1,
          chunk.metadata.identity = identity ∧ chunk.metadata.IsValid) memory' := by
  rw [StorageMergeCoordinator.plannedSpill] at hend ⊢
  split at hend
  · cases hend
  · cases hend
    exact h.mono fun _ => .inl
  · next plan hplan =>
      cases hspilled : (StorageMergeCoordinator.spilled policy lz4 computation level plan.candidates
          memory).2 with
      | error e failed =>
          simp only [hspilled] at hend
          cases hend
      | ok _ spilled =>
          simp only [hspilled] at hend
          cases hend
          exact h.spilled hspilled

end Observed

/-- After an observation no store is under way, and the records are those of the nodes. -/
theorem observeCall_eq_ok {nodes : List BinaryNode} {memory memory' : MergeMemory}
    (hidle : memory.manager.inFlightStores = ∅)
    (h : observeCall policy lz4 computation nodes level memory = .ok () memory') :
    memory'.manager.inFlightStores = ∅ ∧
      AreObserved computation level (fun _ => False) memory'.toCoordinatorMemory := by
  have hobserve := observeResidentNodes_eq policy lz4 computation nodes level { memory with nodes }
  rw [observeCall, modify_bind] at h
  cases hrecords : residentNodesOf lz4 computation nodes.length level nodes ∅ with
  | error e =>
      rw [hrecords] at hobserve
      cases h.symm.trans hobserve
  | ok records =>
      rw [hrecords] at hobserve
      rcases hobserve with ⟨observed, hobserve, hresident, hnodes, hflight⟩
      rw [hobserve] at h
      cases h
      rw [(residentNodesOf_eq_ok.mp hrecords).1] at hresident
      refine ⟨hflight.trans hidle, ⟨?_, ?_⟩⟩
      · intro index record node hrecord hnode
        rw [hresident, List.getElem?_map] at hrecord
        rw [hnodes] at hnode
        simp only [hnode, Option.map_some, Option.some.injEq] at hrecord
        rw [← hrecord]
        rfl
      · intro index record hrecord hstate
        rw [hresident, List.getElem?_map] at hrecord
        rcases Option.map_eq_some_iff.mp hrecord with ⟨node, _, rfl⟩
        cases hstate

/-- After a spill no store is under way, and every node of the level that has no values is there. -/
theorem spill_eq_ok (hlz4 : lz4.IsLossless) {memory memory' : MergeMemory}
    (hidle : memory.manager.inFlightStores = ∅)
    (hobserved : AreObserved computation level (fun _ => False) memory.toCoordinatorMemory)
    (h : spillAfterMergeLevel policy memoryBudgetBytes lz4 computation level memory =
      .ok () memory') :
    memory'.manager.inFlightStores = ∅ ∧
      AreLoadable policy lz4 memory'.manager level (List.range memory'.nodes.length)
        memory'.toCoordinatorMemory := by
  have hspill := @spillAfterMergeLevel_eq_plannedSpill policy memoryBudgetBytes lz4 computation level
    memory.toCoordinatorMemory memory.manager
  cases hall : storeAll policy lz4 (plannedSpill policy memoryBudgetBytes lz4 computation level
      memory.toCoordinatorMemory).1 memory.manager with
  | error e manager' =>
      rw [hall] at hspill
      rcases hspill with ⟨e', failed, hspill⟩
      cases h.symm.trans hspill
  | ok _ manager' =>
      rw [hall] at hspill
      have hend := h.symm.trans hspill
      cases hplanned : (plannedSpill policy memoryBudgetBytes lz4 computation level
          memory.toCoordinatorMemory).2 with
      | error e failed =>
          rw [hplanned] at hend
          cases hend
      | ok _ spilled =>
          rw [hplanned] at hend
          cases hend
          rcases (isAccepted_of_storeAll hall).storeAll hidle with
            ⟨manager'', stage, hall', hstoring, hstored⟩
          rw [hall] at hall'
          cases hall'
          have hafter := hobserved.plannedSpill hplanned
          constructor
          · rw [Finset.eq_empty_iff_forall_notMem]
            intro id hid
            rcases (hstoring.inFlight id).mp hid with ⟨chunk, hmem, hflight, _⟩
            rw [hstored chunk hmem] at hflight
            exact hflight
          · intro index _ identity hidentity
            rcases Option.bind_eq_some_iff.mp hidentity with ⟨record, hrecord, hload⟩
            rw [loadIdentity] at hload
            split at hload
            · cases hload
            · next hskip =>
                cases hload
                have hstate : record.lifecycle.state = .stored := not_not.mp (not_or.mp hskip).2
                rcases hafter.stored index record hrecord hstate with hnone | ⟨chunk, hmem, heq, hvalid⟩
                · exact hnone.elim
                · refine ⟨chunk, ?_, hvalid⟩
                  rw [← heq]
                  exact hstoring.load hlz4 hmem (hstored chunk hmem)

/-- A preparation that finds every chunk leaves the manager alone. -/
theorem prepare_eq_ok {memory memory' : MergeMemory}
    (hloadable : AreLoadable policy lz4 memory.manager level (List.range memory.nodes.length)
      memory.toCoordinatorMemory)
    (h : prepareMergeNodes policy lz4 level memory = .ok () memory') :
    memory'.manager = memory.manager := by
  have hprepare := prepareMergeNodes_eq hloadable
  cases hcheck : checkPrepare memory.toCoordinatorMemory with
  | error e =>
      rw [hcheck] at hprepare
      cases h.symm.trans hprepare
  | ok _ =>
      rw [hcheck] at hprepare
      cases h.symm.trans hprepare
      rfl

/-! ## Agreement -/

/-- The manager refuses a chunk of the spill. -/
def IsRefused (policy : StoragePolicy) (memoryBudgetBytes : UInt64) (lz4 : Lz4)
    (computation : ComputationIdentity) : MergeCall → MergeMemory → Prop
  | .spill level, memory => ∃ e manager, storeAll policy lz4
      (plannedSpill policy memoryBudgetBytes lz4 computation level memory.toCoordinatorMemory).1
        memory.manager = .error e manager
  | .observe _ _, _ | .prepare _, _ => False

/-- Calls that have ended like those without a writer and a reader. -/
def Agree (policy : StoragePolicy) (memoryBudgetBytes : UInt64) (lz4 : Lz4)
    (computation : ComputationIdentity) : List MergeCall → MergeMemory → List CallEnd → Prop
  | [], _, ends => ends = []
  | call :: rest, memory, ends =>
      match syncCall policy memoryBudgetBytes lz4 computation call memory with
      | .ok _ memory' => ∃ others, ends = .ok () memory' :: others ∧
          Agree policy memoryBudgetBytes lz4 computation rest memory' others
      | .error e memory' => ∃ e' memory'', ends = [.error e' memory''] ∧
          (¬ IsRefused policy memoryBudgetBytes lz4 computation call memory →
            e' = e ∧ memory'' = memory')

section Agreement

variable {writers readers writeCapacity readCapacity : ℕ} {rest : List MergeCall}
  {memory : MergeMemory}

/-- All calls have ended, after the given ends like those without a writer and a reader. -/
def HasAgreed (policy : StoragePolicy) (memoryBudgetBytes : UInt64) (lz4 : Lz4)
    (computation : ComputationIdentity) (calls : List MergeCall) (memory : MergeMemory)
    (ends : List CallEnd) (merges : AsyncMerges writers readers) : Prop :=
  merges.calls = [] ∧ merges.activity = .idle ∧ ∃ others, merges.ends = ends ++ others ∧
    Agree policy memoryBudgetBytes lz4 computation calls memory others

/-- Whatever has ended before, the calls come to agree. -/
def WillAgree (policy : StoragePolicy) (memoryBudgetBytes : UInt64) (lz4 : Lz4)
    (computation : ComputationIdentity) (writers readers writeCapacity readCapacity : ℕ)
    (calls : List MergeCall) (memory : MergeMemory) : Prop :=
  ∀ ends, Inevitable
    (Step policy memoryBudgetBytes lz4 computation writeCapacity readCapacity)
    (HasAgreed policy memoryBudgetBytes lz4 computation calls memory ends)
    (⟨memory, calls, ends, .idle⟩ : AsyncMerges writers readers)

theorem willAgree_nil (memory : MergeMemory) :
    WillAgree policy memoryBudgetBytes lz4 computation writers readers writeCapacity readCapacity []
      memory :=
  fun _ => .now ⟨rfl, rfl, [], (List.append_nil _).symm, rfl⟩

/-- A call that ends, and what comes after it. -/
theorem inevitable_finishCall {call : MergeCall} {ends : List CallEnd}
    {activity : MergeActivity writers readers} {callEnd : CallEnd}
    (hend : match syncCall policy memoryBudgetBytes lz4 computation call memory with
      | .ok _ memory' => callEnd = .ok () memory'
      | .error e memory' => ∃ e' memory'', callEnd = .error e' memory'' ∧
          (¬ IsRefused policy memoryBudgetBytes lz4 computation call memory →
            e' = e ∧ memory'' = memory'))
    (hrest : ∀ memory', syncCall policy memoryBudgetBytes lz4 computation call memory =
        .ok () memory' →
      WillAgree policy memoryBudgetBytes lz4 computation writers readers writeCapacity readCapacity
        rest memory') :
    Inevitable (Step policy memoryBudgetBytes lz4 computation writeCapacity readCapacity)
      (HasAgreed policy memoryBudgetBytes lz4 computation (call :: rest) memory ends)
      ((⟨memory, call :: rest, ends, activity⟩ : AsyncMerges writers readers).finishCall callEnd) := by
  cases hsync : syncCall policy memoryBudgetBytes lz4 computation call memory with
  | ok _ memory' =>
      simp only [hsync] at hend
      subst hend
      refine (hrest memory' hsync (ends ++ [.ok () memory'])).mono fun merges h => ?_
      rcases h with ⟨hcalls, hidle, others, hends, hagree⟩
      refine ⟨hcalls, hidle, .ok () memory' :: others, by simp [hends], ?_⟩
      rw [Agree, hsync]
      exact ⟨others, rfl, hagree⟩
  | error e memory' =>
      simp only [hsync] at hend
      rcases hend with ⟨e', memory'', rfl, hsame⟩
      refine .now ⟨rfl, rfl, [.error e' memory''], rfl, ?_⟩
      rw [Agree, hsync]
      exact ⟨e', memory'', rfl, hsame⟩

theorem willAgree_observe {nodes : List BinaryNode}
    (hrest : ∀ memory', observeCall policy lz4 computation nodes level memory = .ok () memory' →
      WillAgree policy memoryBudgetBytes lz4 computation writers readers writeCapacity readCapacity
        rest memory') :
    WillAgree policy memoryBudgetBytes lz4 computation writers readers writeCapacity readCapacity
      (.observe nodes level :: rest) memory := by
  intro ends
  refine .later ⟨_, .observe rfl rfl⟩ fun merges hstep => ?_
  cases hstep with
  | observe _ hcall =>
      cases hcall
      refine inevitable_finishCall ?_ hrest
      simp only [syncCall]
      cases observeCall policy lz4 computation nodes level memory with
      | ok _ memory' => rfl
      | error e memory' => exact ⟨e, memory', rfl, fun _ => ⟨rfl, rfl⟩⟩
  | spill _ hcall | prepare _ hcall => cases hcall
  | write hactivity _ | read hactivity _ | spilled hactivity _ | prepared hactivity _ =>
      cases hactivity

theorem willAgree_spill (hwriters : 0 < writers) (hcapacity : 0 < writeCapacity)
    (hidle : memory.manager.inFlightStores = ∅)
    (hrest : ∀ memory', spillAfterMergeLevel policy memoryBudgetBytes lz4 computation level memory =
        .ok () memory' →
      WillAgree policy memoryBudgetBytes lz4 computation writers readers writeCapacity readCapacity
        rest memory') :
    WillAgree policy memoryBudgetBytes lz4 computation writers readers writeCapacity readCapacity
      (.spill level :: rest) memory := by
  intro ends
  refine .later ⟨_, .spill rfl rfl⟩ fun merges hstep => ?_
  cases hstep with
  | spill _ hcall =>
      cases hcall
      refine Pool.inevitable_embed
        (fun pool => ⟨memory, .spill level :: rest, ends, .spilling pool⟩)
        (fun pool result => finishCall ⟨memory, .spill level :: rest, ends, .spilling pool⟩
          (withManager pool.memory result)) hwriters hcapacity
        (fun pool h => IsSpill.settling h) (fun pool pool' h hpool => h.step hpool) ?_ ?_
        (isSpill_start hidle level memory.toCoordinatorMemory)
      · intro pool merges
        constructor
        · intro hstep
          cases hstep with
          | write hactivity hpool =>
              cases hactivity
              exact .inl ⟨_, rfl, hpool⟩
          | spilled hactivity hdone =>
              cases hactivity
              exact .inr ⟨_, hdone, rfl⟩
          | observe hactivity _ | spill hactivity _ | prepare hactivity _ | read hactivity _
          | prepared hactivity _ => cases hactivity
        · intro hstep
          rcases hstep with ⟨pool', rfl, hpool⟩ | ⟨result, hdone, rfl⟩
          · exact .write rfl hpool
          · exact .spilled rfl hdone
      · intro pool result hspill hdone
        refine inevitable_finishCall ?_ hrest
        have hsync := @spillAfterMergeLevel_eq_plannedSpill policy memoryBudgetBytes lz4 computation
          level memory.toCoordinatorMemory memory.manager
        have hasync := hspill.ends hidle hdone
        simp only [syncCall]
        cases hall : storeAll policy lz4 (plannedSpill policy memoryBudgetBytes lz4 computation level
            memory.toCoordinatorMemory).1 memory.manager with
        | ok _ manager =>
            rw [hall] at hsync hasync
            rcases hasync with ⟨rfl, rfl⟩
            simp only at hsync
            rw [hsync]
            cases (plannedSpill policy memoryBudgetBytes lz4 computation level
              memory.toCoordinatorMemory).2 with
            | ok _ memory' => rfl
            | error e memory' => exact ⟨e, _, rfl, fun _ => ⟨rfl, rfl⟩⟩
        | error e manager =>
            rw [hall] at hsync hasync
            rcases hasync with ⟨e', memory', rfl⟩
            rcases hsync with ⟨e'', memory'', hsync⟩
            rw [hsync]
            exact ⟨e', _, rfl, fun haccepted => absurd ⟨e, manager, hall⟩ haccepted⟩
  | observe _ hcall | prepare _ hcall => cases hcall
  | write hactivity _ | read hactivity _ | spilled hactivity _ | prepared hactivity _ =>
      cases hactivity

theorem willAgree_prepare (hreaders : 0 < readers) (hcapacity : 0 < readCapacity)
    (hloadable : AreLoadable policy lz4 memory.manager level (List.range memory.nodes.length)
      memory.toCoordinatorMemory)
    (hrest : ∀ memory', prepareMergeNodes policy lz4 level memory = .ok () memory' →
      WillAgree policy memoryBudgetBytes lz4 computation writers readers writeCapacity readCapacity
        rest memory') :
    WillAgree policy memoryBudgetBytes lz4 computation writers readers writeCapacity readCapacity
      (.prepare level :: rest) memory := by
  intro ends
  refine .later ⟨_, .prepare rfl rfl⟩ fun merges hstep => ?_
  cases hstep with
  | prepare _ hcall =>
      cases hcall
      refine Pool.inevitable_embed
        (fun pool => ⟨memory, .prepare level :: rest, ends, .loading pool⟩)
        (fun pool result => finishCall ⟨memory, .prepare level :: rest, ends, .loading pool⟩
          (withManager pool.memory result)) hreaders hcapacity
        (fun pool h => IsPreparation.settling h) (fun pool pool' h hpool => h.step hpool) ?_ ?_
        (@isPreparation_start policy lz4 _ memory.manager level memory.toCoordinatorMemory)
      · intro pool merges
        constructor
        · intro hstep
          cases hstep with
          | read hactivity hpool =>
              cases hactivity
              exact .inl ⟨_, rfl, hpool⟩
          | prepared hactivity hdone =>
              cases hactivity
              exact .inr ⟨_, hdone, rfl⟩
          | observe hactivity _ | spill hactivity _ | prepare hactivity _ | write hactivity _
          | spilled hactivity _ => cases hactivity
        · intro hstep
          rcases hstep with ⟨pool', rfl, hpool⟩ | ⟨result, hdone, rfl⟩
          · exact .read rfl hpool
          · exact .prepared rfl hdone
      · intro pool result hpreparation hdone
        refine inevitable_finishCall ?_ hrest
        rw [hpreparation.ends hloadable hdone]
        simp only [syncCall]
        cases prepareMergeNodes policy lz4 level memory with
        | ok _ memory' => rfl
        | error e memory' => exact ⟨e, memory', rfl, fun _ => ⟨rfl, rfl⟩⟩
  | observe _ hcall | spill _ hcall => cases hcall
  | write hactivity _ | read hactivity _ | spilled hactivity _ | prepared hactivity _ =>
      cases hactivity

/-- The calls of a split agree, whatever the order of the workers' steps. -/
theorem stages_agree (hlz4 : lz4.IsLossless) (hwriters : 0 < writers) (hreaders : 0 < readers)
    (hwriteCapacity : 0 < writeCapacity) (hreadCapacity : 0 < readCapacity)
    (stages : List (List BinaryNode × UInt32)) {manager : StorageManager}
    (hidle : manager.inFlightStores = ∅) :
    Inevitable (Step policy memoryBudgetBytes lz4 computation writeCapacity readCapacity)
      (fun merges => merges.calls = [] ∧ merges.activity = .idle ∧
        Agree policy memoryBudgetBytes lz4 computation
          (stages.flatMap fun stage => stageCalls stage.1 stage.2) (.initial manager) merges.ends)
      (start writers readers (stages.flatMap fun stage => stageCalls stage.1 stage.2)
        (.initial manager)) := by
  have hall : ∀ memory : MergeMemory, memory.manager.inFlightStores = ∅ →
      WillAgree policy memoryBudgetBytes lz4 computation writers readers writeCapacity readCapacity
        (stages.flatMap fun stage => stageCalls stage.1 stage.2) memory := by
    induction stages with
    | nil => exact fun memory _ => willAgree_nil memory
    | cons stage stages ih =>
        intro memory hidle
        rw [List.flatMap_cons, stageCalls]
        split
        · refine willAgree_observe fun observed hobserve => ?_
          rcases observeCall_eq_ok hidle hobserve with ⟨hobservedIdle, hobserved⟩
          refine willAgree_spill hwriters hwriteCapacity hobservedIdle fun spilled hspill => ?_
          rcases spill_eq_ok hlz4 hobservedIdle hobserved hspill with ⟨hspilledIdle, hloadable⟩
          refine willAgree_prepare hreaders hreadCapacity hloadable fun prepared hprepare => ?_
          refine ih prepared ?_
          rw [prepare_eq_ok hloadable hprepare]
          exact hspilledIdle
        · refine willAgree_observe fun observed hobserve => ?_
          exact ih observed (observeCall_eq_ok hidle hobserve).1
  refine (hall (.initial manager) hidle []).mono fun merges h => ?_
  rcases h with ⟨hcalls, hactivity, others, hends, hagree⟩
  rw [List.nil_append] at hends
  exact ⟨hcalls, hactivity, hends ▸ hagree⟩

end Agreement

/-- Two stages of a computation of three terms, with a budget of five bytes for six. -/
theorem stages_agree_three :
    let computation : ComputationIdentity := ⟨⟨1⟩, 1, 1, 1, 16, 17, 3⟩
    let policy : StoragePolicy := ⟨ascii "storage", .none⟩
    let stages : List (List BinaryNode × UInt32) :=
      [([⟨0, 2, 1, 1, 1⟩, ⟨2, 3, 1, 1, 1⟩], 0), ([⟨0, 3, 1, 1, 1⟩], 1)]
    Inevitable (Step policy 5 literals computation 1 1)
      (fun merges => merges.calls = [] ∧ merges.activity = .idle ∧
        Agree policy 5 literals computation (stages.flatMap fun stage => stageCalls stage.1 stage.2)
          (.initial .create) merges.ends)
      (start 2 2 (stages.flatMap fun stage => stageCalls stage.1 stage.2) (.initial .create)) :=
  stages_agree literals_isLossless (by decide) (by decide) (by decide) (by decide) _ rfl

/-! ## A chunk of an earlier process -/

/-- A schedule of a coordinator: the first worker does all the jobs. -/
def AsyncMerges.next? (policy : StoragePolicy) (memoryBudgetBytes : UInt64) (lz4 : Lz4)
    (computation : ComputationIdentity) (writeCapacity readCapacity : ℕ) (merges : AsyncMerges 1 1) :
    Option (AsyncMerges 1 1) :=
  match merges.activity, merges.calls with
  | .idle, [] => none
  | .idle, .observe nodes level :: _ =>
      some (merges.finishCall (observeCall policy lz4 computation nodes level merges.memory))
  | .idle, .spill level :: _ =>
      some { merges with activity := .spilling (.start 1 merges.memory.manager
        (asyncSpill policy memoryBudgetBytes lz4 computation level
          merges.memory.toCoordinatorMemory)) }
  | .idle, .prepare level :: _ =>
      some { merges with activity := .loading (.start 1 merges.memory.manager
        (asyncPrepare policy merges.memory.manager level merges.memory.toCoordinatorMemory)) }
  | .spilling pool, _ =>
      match pool.caller with
      | .done result => some (merges.finishCall (withManager pool.memory result))
      | _ => (pool.next? (AsyncChunkWriter.workerLoop policy lz4) 0 writeCapacity).map fun pool =>
          { merges with activity := .spilling pool }
  | .loading pool, _ =>
      match pool.caller with
      | .done result => some (merges.finishCall (withManager pool.memory result))
      | _ => (pool.next? (AsyncChunkReader.workerLoop policy lz4) 0 readCapacity).map fun pool =>
          { merges with activity := .loading pool }

theorem AsyncMerges.step_of_next? {writeCapacity readCapacity : ℕ} {merges merges' : AsyncMerges 1 1}
    (h : merges.next? policy memoryBudgetBytes lz4 computation writeCapacity readCapacity =
      some merges') :
    Step policy memoryBudgetBytes lz4 computation writeCapacity readCapacity merges merges' := by
  rw [next?] at h
  split at h
  · cases h
  · next hidle hcall =>
      cases h
      exact .observe hidle hcall
  · next hidle hcall =>
      cases h
      exact .spill hidle hcall
  · next hidle hcall =>
      cases h
      exact .prepare hidle hcall
  · next pool hactivity =>
      split at h
      · next hdone =>
          cases h
          exact .spilled hactivity hdone
      · rcases Option.map_eq_some_iff.mp h with ⟨pool', hnext, rfl⟩
        exact .write hactivity (Pool.step_of_next? hnext)
  · next pool hactivity =>
      split at h
      · next hdone =>
          cases h
          exact .prepared hactivity hdone
      · rcases Option.map_eq_some_iff.mp h with ⟨pool', hnext, rfl⟩
        exact .read hactivity (Pool.step_of_next? hnext)

theorem AsyncMerges.isStuck {writers readers writeCapacity readCapacity : ℕ}
    {merges merges' : AsyncMerges writers readers} (hcalls : merges.calls = [])
    (hidle : merges.activity = .idle) :
    ¬ Step policy memoryBudgetBytes lz4 computation writeCapacity readCapacity merges merges' := by
  intro hstep
  cases hstep with
  | observe _ hcall | spill _ hcall | prepare _ hcall => cases hcalls.symm.trans hcall
  | write hactivity _ | read hactivity _ | spilled hactivity _ | prepared hactivity _ =>
      cases hidle.symm.trans hactivity

end Calls

namespace Leftover

def computation : ComputationIdentity :=
  ⟨⟨1⟩, 1, 1, 1, 16, 17, 3⟩

def policy : StoragePolicy :=
  ⟨ascii "storage", .none⟩

def nodes : List BinaryNode :=
  [⟨0, 1, 1, 1, 1⟩, ⟨1, 2, 1, 1, 1⟩, ⟨2, 3, 1, 1, 1⟩]

/-- The chunk of the first node is there already. -/
def manager : StorageManager where
  index := ChunkIndex.create.emplace ⟨computation, ⟨0, 1, 0⟩⟩
    ⟨⟨computation, ⟨0, 1, 0⟩⟩, ascii "left.chunk", 3, 3, .crc32c, 0, chunkFormatVersion⟩
  limits := ⟨by decide +kernel, by decide +kernel⟩
  inFlightStores := ∅
  files _ := none

/-- What the observation leaves. -/
def observed : MergeMemory :=
  ⟨⟨nodes, nodes.map (recordOf computation 3 0), 0, 0, 0⟩, manager⟩

def candidates : List EvictionCandidate :=
  nodes.map fun node => ⟨(identityOf computation 0 node).chunkFilename, 3, 1⟩

theorem observeCall_nodes :
    observeCall policy literals computation nodes 0 (.initial manager) = .ok () observed := by
  have hrecords : residentNodesOf literals computation nodes.length 0 nodes ∅ =
      .ok (nodes.map (recordOf computation nodes.length 0)) := by
    rw [residentNodesOf_eq_ok]
    exact ⟨rfl, by decide +kernel, by decide +kernel⟩
  simp only [observeCall, modify_bind, observeResidentNodes, hrecords, Action.liftM_eq,
    Action.ofExcept_ok, pure_bind, get_bind]
  rfl

/-- Two of the three nodes are to be spilled. -/
theorem beginSpills_observed :
    beginSpills 3 observed.toCoordinatorMemory = .ok (some ⟨candidates.take 2, true⟩) := by
  have hcollected : collectCandidates
      (fun id => (observed.residentNodes.find? fun record => record.chunkId = id).map
        ResidentMergeNode.mergeDistance)
      (observed.residentNodes.map fun record => (record.chunkId, record.residentBytes)) [] =
        .ok candidates := by decide +kernel
  have hsorted : candidates.mergeSort EvictionCandidate.before = candidates :=
    List.mergeSort_of_pairwise (by decide +kernel)
  have hbytes : residentBytes observed.residentNodes = 9 := by decide +kernel
  have hsizes : checkSizes "merge coordinator resident set does not match spill nodes"
      observed.toCoordinatorMemory = .ok () := rfl
  have hplan : planEvictions
      (observed.residentNodes.map fun record => (record.chunkId, record.residentBytes))
      (observed.residentNodes.map ResidentMergeNode.chunkId)
      (fun id => (observed.residentNodes.find? fun record => record.chunkId = id).map
        ResidentMergeNode.mergeDistance) 3 6 = .ok ⟨candidates.take 2, true⟩ := by
    simp only [planEvictions, getEvictionCandidates, hcollected, ok_bind, hsorted, pure_eq_ok]
    rfl
  simp only [beginSpills, hsizes, ok_bind, spillPlan, hbytes]
  rw [if_neg (by decide)]
  have hneeded : (9 - 3 : UInt64) = 6 := rfl
  rw [hneeded, hplan]
  rfl

/-- The number of spills at the end of a call. -/
def spillCountOf : CallEnd → UInt64
  | .ok _ memory | .error _ memory => memory.spillCount

theorem syncEnds_stageCalls :
    (syncEnds policy 3 literals computation (stageCalls nodes 0) (.initial manager)).map
      spillCountOf = [0, 0] := by
  have hspill : spillAfterMergeLevel policy 3 literals computation 0 observed =
      Action.attempt ((candidates.take 2).forM (spillCandidate policy literals computation 0))
        (fun e => do
          onCoordinator (modify failSpills)
          throw e) observed := by
    simp only [spillAfterMergeLevel, get_bind, beginSpills_observed, Action.liftM_eq,
      Action.ofExcept_ok, pure_bind]
  have hcalls : stageCalls nodes 0 = [.observe nodes 0, .spill 0, .prepare 0] := rfl
  simp only [hcalls, syncEnds, syncCall, observeCall_nodes, hspill]
  decide +kernel

/-- The spill has begun. -/
def spilling : AsyncMerges 1 1 where
  memory := observed
  calls := [.spill 0, .prepare 0]
  ends := [.ok () observed]
  activity := .spilling (.start 1 manager (submitWrites policy literals computation 0
    (candidates.take 2) [] observed.toCoordinatorMemory))

/-- The spill has ended. -/
def ended : AsyncMerges 1 1 :=
  Library.advance (AsyncMerges.next? policy 3 literals computation 1 1) 20 spilling

def isIdle : MergeActivity 1 1 → Bool
  | .idle => true
  | _ => false

theorem ended_spec :
    ended.calls.isEmpty = true ∧ isIdle ended.activity = true ∧
      ended.ends.map spillCountOf = [0, 1] := by
  decide +kernel

end Leftover

open Leftover in
/-- The store of the first chunk is refused. Without a writer the spill ends there, and with a writer
the other chunk is spilled as well. -/
theorem stages_disagree_leftover :
    literals.IsLossless ∧ manager.inFlightStores = ∅ ∧
      ¬ Inevitable (Step policy 3 literals computation 1 1)
        (fun merges : AsyncMerges 1 1 => merges.calls = [] ∧ merges.activity = .idle ∧
          merges.ends = syncEnds policy 3 literals computation (stageCalls nodes 0)
            (.initial manager))
        (start 1 1 (stageCalls nodes 0) (.initial manager)) := by
  refine ⟨literals_isLossless, rfl, fun h => ?_⟩
  have hobserved := h.after (fun hend => by cases hend.1) (.observe rfl rfl)
  rw [start, observeCall_nodes, finishCall] at hobserved
  have hspilling := hobserved.after (fun hend => by cases hend.1) (.spill rfl rfl)
  have hasync : asyncSpill policy 3 literals computation 0 observed.toCoordinatorMemory =
      submitWrites policy literals computation 0 (candidates.take 2) []
        observed.toCoordinatorMemory := by
    rw [asyncSpill, beginSpills_observed]
  rw [hasync] at hspilling
  have hended : Inevitable _ _ ended := hspilling.advance (fun _ _ => AsyncMerges.step_of_next?)
    (fun _ _ hnext hend => isStuck hend.1 hend.2.1 (AsyncMerges.step_of_next? hnext)) 20
  rcases ended_spec with ⟨hcalls, hidle, hcounts⟩
  have hactivity : ended.activity = .idle := by
    cases hactivity : ended.activity with
    | idle => rfl
    | spilling pool | loading pool =>
        rw [hactivity] at hidle
        cases hidle
  have hends := (hended.of_stuck fun _ => isStuck (List.isEmpty_iff.mp hcalls) hactivity).2.2
  rw [hends, syncEnds_stageCalls] at hcounts
  cases hcounts

end StorageMergeCoordinator

end GiveMePi.Storage
