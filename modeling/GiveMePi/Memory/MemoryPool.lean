import GiveMePi.Library.LinkedMemory
import GiveMePi.Library.ProgramLogic
import GiveMePi.Library.TransitionSystem
import GiveMePi.Memory.Buffer

/-! # Memory pools

A pool cuts its buffer into blocks of one size and links the free ones through their first word. -/

namespace GiveMePi.Memory

open Library

/-- A pool, and the bytes of the memory that it is in. -/
structure MemoryPool where
  memory : UInt64
  freeList : UInt64
  blockSize : UInt64
  blockCount : UInt64
  used : UInt64
  bytes : ByteMemory

namespace MemoryPool

/-- `sizeof(FreeBlock)` -/
def freeBlockSize : UInt64 := 8

/-- The block size of the constructor, which leaves room for a link. -/
def clampedSize (blockSize : UInt64) : UInt64 :=
  if blockSize < freeBlockSize then freeBlockSize else blockSize

/-- The size that the constructor asks `operator new` for. -/
def requestedSize (blockSize blockCount : UInt64) : UInt64 :=
  clampedSize blockSize * blockCount

def blockAddress (pool : MemoryPool) (index : UInt64) : UInt64 :=
  pool.memory + index * pool.blockSize

/-- The blocks in the order in which `initialize` walks over them. -/
def blocks (pool : MemoryPool) : List UInt64 :=
  (List.range pool.blockCount.toNat).map fun index => pool.blockAddress (UInt64.ofNat index)

/-- `block->next = freeList_; freeList_ = block` -/
def pushFree (pool : MemoryPool) (block : UInt64) : MemoryPool :=
  { pool with
    bytes := pool.bytes.storeWord block pool.freeList
    freeList := block }

/-- `initialize` -/
def initializeList (pool : MemoryPool) : MemoryPool :=
  { pool.blocks.foldl pushFree { pool with freeList := 0 } with used := 0 }

/-- The pool in a buffer of the requested size. -/
def create (buffer : Buffer) (blockSize blockCount : UInt64) (bytes : ByteMemory) : MemoryPool :=
  initializeList ⟨buffer.address, 0, clampedSize blockSize, blockCount, 0, bytes⟩

def allocate : EStateM BadAlloc MemoryPool UInt64 := do
  let pool ← get
  if pool.freeList = 0 then
    throw .badAlloc
  let block := pool.freeList
  set { pool with freeList := pool.bytes.loadWord block, used := pool.used + 1 }
  pure block

def deallocate (pool : MemoryPool) (block : UInt64) : MemoryPool :=
  if block = 0 then pool
  else { pool.pushFree block with used := pool.used - 1 }

def reset (pool : MemoryPool) : MemoryPool :=
  pool.initializeList

def capacity (pool : MemoryPool) : UInt64 :=
  pool.blockCount

def available (pool : MemoryPool) : UInt64 :=
  pool.blockCount - pool.used

/-- The bytes of a block. -/
def region (pool : MemoryPool) (block : UInt64) : Region :=
  ⟨block.toNat, pool.blockSize.toNat⟩

/-- The blocks are laid out in the buffer one after the other. -/
structure IsLaidOut (buffer : Buffer) (pool : MemoryPool) : Prop where
  memory_eq : pool.memory = buffer.address
  fits : pool.blockSize.toNat * pool.blockCount.toNat = buffer.size.toNat
  wide : 8 ≤ pool.blockSize.toNat

theorem allocate_eq (pool : MemoryPool) :
    allocate pool =
      if pool.freeList = 0 then .error .badAlloc pool
      else .ok pool.freeList
        { pool with freeList := pool.bytes.loadWord pool.freeList, used := pool.used + 1 } := by
  by_cases h : pool.freeList = 0
  · rw [if_pos h]
    simp only [allocate, Program.get_bind, if_pos h]
    rfl
  · rw [if_neg h]
    simp only [allocate, Program.get_bind, if_neg h]
    rfl

theorem allocate_error_iff {pool pool' : MemoryPool} {error : BadAlloc} :
    allocate pool = .error error pool' ↔ pool.freeList = 0 ∧ pool' = pool := by
  rw [allocate_eq]
  split
  · cases error
    simp_all [eq_comm]
  · simp_all

theorem allocate_ok_iff {pool pool' : MemoryPool} {block : UInt64} :
    allocate pool = .ok block pool' ↔ pool.freeList ≠ 0 ∧ block = pool.freeList ∧
      pool' = { pool with
        freeList := pool.bytes.loadWord pool.freeList
        used := pool.used + 1 } := by
  rw [allocate_eq]
  split
  · simp_all
  · simp_all [eq_comm]

theorem le_clampedSize (blockSize : UInt64) : 8 ≤ (clampedSize blockSize).toNat := by
  rw [clampedSize]
  split
  · exact le_refl _
  · rename_i h
    exact UInt64.le_iff_toNat_le.mp (UInt64.not_lt.mp h)

/-- A block that was given back is the next one. -/
theorem allocate_deallocate {pool : MemoryPool} {block : UInt64} (h : block ≠ 0) :
    ∃ pool', allocate (pool.deallocate block) = .ok block pool' := by
  rw [deallocate, if_neg h, allocate_eq]
  exact ⟨_, if_neg h⟩

end MemoryPool

/-! ## Histories -/

/-- A pool, with the blocks that its clients hold. -/
structure PoolState where
  pool : MemoryPool
  live : List UInt64

inductive PoolStep (state : PoolState) : PoolState → Prop
  | allocate {block : UInt64} {pool : MemoryPool}
      (h : MemoryPool.allocate state.pool = .ok block pool) :
      PoolStep state ⟨pool, block :: state.live⟩
  | failedAllocate {error : BadAlloc} {pool : MemoryPool}
      (h : MemoryPool.allocate state.pool = .error error pool) :
      PoolStep state ⟨pool, state.live⟩
  | deallocate {block : UInt64} (h : block ∈ state.live) :
      PoolStep state ⟨state.pool.deallocate block, state.live.erase block⟩
  | deallocateNull : PoolStep state ⟨state.pool.deallocate 0, state.live⟩
  | reset (h : state.live = []) : PoolStep state ⟨state.pool.reset, []⟩
  /-- A client writes to a block that it holds. -/
  | write {block address : UInt64} (byte : UInt8) (hlive : block ∈ state.live)
      (hstart : block ≤ address) (hstop : address.toNat < (state.pool.region block).stop) :
      PoolStep state
        ⟨{ state.pool with bytes := state.pool.bytes.storeByte address byte }, state.live⟩

/-- The pools of the constructor, on any bytes that were in the buffer. -/
def pools (buffer : Buffer) (blockSize blockCount : UInt64) : TransitionSystem PoolState where
  initial state := ∃ bytes, state = ⟨MemoryPool.create buffer blockSize blockCount bytes, []⟩
  step := PoolStep

namespace PoolState

/-- What a pool promises. -/
structure IsSound (buffer : Buffer) (state : PoolState) : Prop where
  nodup : state.live.Nodup
  apart : (state.live.map state.pool.region).Pairwise Region.Apart
  inside : ∀ block ∈ state.live, (state.pool.region block).Within buffer.region
  used_eq : state.pool.used.toNat = state.live.length
  failing : ∀ error pool, MemoryPool.allocate state.pool = .error error pool →
    state.pool.used = state.pool.capacity ∧ ∀ block ∈ state.pool.blocks, block ∈ state.live
  available : ∀ block ∈ state.live, ∃ pool,
    MemoryPool.allocate (state.pool.deallocate block) = .ok block pool

end PoolState

/-! ## Blocks -/

namespace MemoryPool

variable {buffer : Buffer} {pool : MemoryPool}

theorem IsLaidOut.toNat_blockAddress (h : IsLaidOut buffer pool) {index : ℕ}
    (hindex : index < pool.blockCount.toNat) :
    (pool.blockAddress (UInt64.ofNat index)).toNat =
      buffer.address.toNat + index * pool.blockSize.toNat := by
  have hbound := buffer.fits
  have hcount := pool.blockCount.toNat_lt
  have hlt : index * pool.blockSize.toNat < buffer.size.toNat := by
    rw [← h.fits, Nat.mul_comm pool.blockSize.toNat]
    exact Nat.mul_lt_mul_of_pos_right hindex (by
      have hwide := h.wide
      omega)
  rw [blockAddress, h.memory_eq, UInt64.toNat_add, UInt64.toNat_mul,
    UInt64.toNat_ofNat_of_lt' (by
      change index < 2 ^ 64
      omega), Nat.mod_eq_of_lt (by omega), Nat.mod_eq_of_lt (by omega)]

/-- Blocks of the buffer that do not overlap. -/
structure AreSeparate (buffer : Buffer) (pool : MemoryPool) (blocks : List UInt64) : Prop where
  inside : ∀ block ∈ blocks, (pool.region block).Within buffer.region
  apart : blocks.Pairwise fun left right => Region.Apart (pool.region left) (pool.region right)

theorem AreSeparate.perm {blocks blocks' : List UInt64} (h : AreSeparate buffer pool blocks)
    (hperm : blocks.Perm blocks') : AreSeparate buffer pool blocks' :=
  ⟨fun block hblock => h.inside block (hperm.mem_iff.mpr hblock),
    (hperm.pairwise_iff Region.Apart.symm).mp h.apart⟩

theorem AreSeparate.of_append_left {blocks blocks' : List UInt64}
    (h : AreSeparate buffer pool (blocks ++ blocks')) : AreSeparate buffer pool blocks :=
  ⟨fun block hblock => h.inside block (List.mem_append_left _ hblock),
    (List.pairwise_append.mp h.apart).1⟩

theorem AreSeparate.of_append_right {blocks blocks' : List UInt64}
    (h : AreSeparate buffer pool (blocks ++ blocks')) : AreSeparate buffer pool blocks' :=
  ⟨fun block hblock => h.inside block (List.mem_append_right _ hblock),
    (List.pairwise_append.mp h.apart).2.1⟩

theorem AreSeparate.nodup {blocks : List UInt64} (h : AreSeparate buffer pool blocks)
    (hlaid : IsLaidOut buffer pool) : blocks.Nodup := by
  apply h.apart.imp
  rintro left right hapart rfl
  have hwide := hlaid.wide
  simp only [Region.Apart, Region.stop, region] at hapart
  omega

theorem ne_zero_of_within {block : UInt64} (h : (pool.region block).Within buffer.region) :
    block ≠ 0 := by
  rintro rfl
  have haddress := buffer.address_pos
  have hstart := h.1
  simp only [Buffer.region, region, UInt64.toNat_zero] at hstart
  omega

theorem toNat_add_le_of_within {block : UInt64} (hlaid : IsLaidOut buffer pool)
    (h : (pool.region block).Within buffer.region) : block.toNat + 8 ≤ 2 ^ 64 := by
  have hbound := buffer.fits
  have hwide := hlaid.wide
  have hstop := h.2
  simp only [Region.stop, Buffer.region, region] at hstop
  omega

theorem IsLaidOut.wordRegion_within (hlaid : IsLaidOut buffer pool) (block : UInt64) :
    (ByteMemory.wordRegion block).Within (pool.region block) :=
  ⟨le_refl _, Nat.add_le_add_left hlaid.wide _⟩

theorem IsLaidOut.areSeparate (h : IsLaidOut buffer pool) :
    AreSeparate buffer pool pool.blocks := by
  constructor
  · intro block hblock
    rcases List.mem_map.mp hblock with ⟨index, hindex, rfl⟩
    rw [List.mem_range] at hindex
    have hle : (index + 1) * pool.blockSize.toNat ≤
        pool.blockCount.toNat * pool.blockSize.toNat := Nat.mul_le_mul_right _ hindex
    rw [Nat.mul_comm pool.blockCount.toNat, h.fits, Nat.succ_mul] at hle
    simp only [Region.Within, Region.stop, region, Buffer.region, h.toNat_blockAddress hindex]
    omega
  · rw [blocks, List.pairwise_map]
    apply List.pairwise_lt_range.imp_of_mem
    intro left right hleft hright hlt
    rw [List.mem_range] at hleft hright
    have hle : (left + 1) * pool.blockSize.toNat ≤ right * pool.blockSize.toNat :=
      Nat.mul_le_mul_right _ hlt
    rw [Nat.succ_mul] at hle
    left
    simp only [Region.stop, region, h.toNat_blockAddress hleft, h.toNat_blockAddress hright]
    omega

/-! ## The free list -/

/-- Bytes of a block that is not free are not links. -/
theorem linked_of_agreeOutside {bytes' : ByteMemory} {block head : UInt64} {free : List UInt64}
    (hlaid : IsLaidOut buffer pool) (hseparate : AreSeparate buffer pool (block :: free))
    (hlinked : Linked pool.bytes.loadWord 0 head free)
    (hagree : ByteMemory.AgreeOutside (pool.region block) pool.bytes bytes') :
    Linked bytes'.loadWord 0 head free := by
  apply hlinked.congr
  intro other hother
  apply hagree.loadWord_eq
  · exact toNat_add_le_of_within hlaid (hseparate.inside _ (List.mem_cons_of_mem _ hother))
  · have hapart := (List.pairwise_cons.mp hseparate.apart).1 other hother
    exact hapart.symm.mono (hlaid.wordRegion_within other) ⟨le_refl _, le_refl _⟩

theorem linked_pushFree {block : UInt64} {free : List UInt64} (hlaid : IsLaidOut buffer pool)
    (hseparate : AreSeparate buffer pool (block :: free))
    (hlinked : Linked pool.bytes.loadWord 0 pool.freeList free) :
    Linked (pool.pushFree block).bytes.loadWord 0 (pool.pushFree block).freeList
      (block :: free) := by
  have hinside := hseparate.inside block (List.mem_cons_self ..)
  refine ⟨rfl, ne_zero_of_within hinside, ?_⟩
  have hword := ByteMemory.loadWord_storeWord pool.bytes block pool.freeList
  have hagree := ByteMemory.agreeOutside_storeWord pool.bytes pool.freeList
    (toNat_add_le_of_within hlaid hinside)
  simp only [pushFree, hword]
  apply linked_of_agreeOutside hlaid hseparate hlinked
  intro location hlocation
  apply hagree
  have hwithin := hlaid.wordRegion_within block
  rcases hlocation with hlt | hle
  · exact .inl (hlt.trans_le hwithin.1)
  · exact .inr (hwithin.2.trans hle)

/-- The loop of `initialize` threads the blocks, the last one in front. -/
theorem linked_foldl_pushFree {todo free : List UInt64} (hlaid : IsLaidOut buffer pool)
    (hseparate : AreSeparate buffer pool (todo ++ free))
    (hlinked : Linked pool.bytes.loadWord 0 pool.freeList free) :
    Linked (todo.foldl pushFree pool).bytes.loadWord 0 (todo.foldl pushFree pool).freeList
      (todo.reverse ++ free) := by
  induction todo generalizing pool free with
  | nil => exact hlinked
  | cons block todo ih =>
      have hmoved : AreSeparate buffer pool (todo ++ block :: free) :=
        hseparate.perm List.perm_middle.symm
      have hpushed := linked_pushFree hlaid hmoved.of_append_right hlinked
      rw [List.foldl_cons, List.reverse_cons, List.append_assoc]
      exact ih ⟨hlaid.memory_eq, hlaid.fits, hlaid.wide⟩ ⟨hmoved.inside, hmoved.apart⟩ hpushed

/-- The loop changes links only. -/
theorem foldl_pushFree_eq (todo : List UInt64) (pool : MemoryPool) :
    ∃ head bytes, todo.foldl pushFree pool = { pool with freeList := head, bytes := bytes } := by
  induction todo generalizing pool with
  | nil => exact ⟨pool.freeList, pool.bytes, rfl⟩
  | cons block todo ih => exact ih (pool.pushFree block)

theorem initializeList_eq (pool : MemoryPool) :
    ∃ head bytes, pool.initializeList =
      { pool with freeList := head, bytes := bytes, used := 0 } := by
  rcases foldl_pushFree_eq pool.blocks { pool with freeList := 0 } with ⟨head, bytes, hloop⟩
  exact ⟨head, bytes, by rw [initializeList, hloop]⟩

/-- The invariant of the free list: with the live blocks, it is all the blocks. -/
structure IsLinked (pool : MemoryPool) (free live : List UInt64) : Prop where
  linked : Linked pool.bytes.loadWord 0 pool.freeList free
  perm : (free ++ live).Perm pool.blocks

end MemoryPool

/-! ## The invariant -/

namespace PoolState

open MemoryPool

/-- The free blocks and the blocks of the clients are all the blocks of the buffer. -/
structure IsConsistent (buffer : Buffer) (state : PoolState) : Prop where
  laidOut : state.pool.IsLaidOut buffer
  used_eq : state.pool.used.toNat = state.live.length
  free : ∃ free, state.pool.IsLinked free state.live

variable {buffer : Buffer} {state : PoolState} {pool : MemoryPool} {block : UInt64}

theorem IsConsistent.areSeparate (h : IsConsistent buffer state) {free : List UInt64}
    (hfree : state.pool.IsLinked free state.live) :
    state.pool.AreSeparate buffer (free ++ state.live) :=
  h.laidOut.areSeparate.perm hfree.perm.symm

/-- The free blocks and the live ones are as many as there are blocks. -/
theorem IsConsistent.length_add {free : List UInt64}
    (hfree : state.pool.IsLinked free state.live) :
    free.length + state.live.length = state.pool.blockCount.toNat := by
  have hlength := hfree.perm.length_eq
  simpa [blocks] using hlength

theorem initializeList_isConsistent (hlaid : IsLaidOut buffer pool) :
    IsConsistent buffer ⟨pool.initializeList, []⟩ := by
  have hempty : Linked pool.bytes.loadWord 0 0 [] := rfl
  have hlaid' : IsLaidOut buffer { pool with freeList := 0 } :=
    ⟨hlaid.memory_eq, hlaid.fits, hlaid.wide⟩
  have hseparate : AreSeparate buffer { pool with freeList := 0 } (pool.blocks ++ []) := by
    rw [List.append_nil]
    exact hlaid'.areSeparate
  have hlinked := linked_foldl_pushFree hlaid' hseparate hempty
  rcases foldl_pushFree_eq pool.blocks { pool with freeList := 0 } with ⟨head, bytes, hloop⟩
  rw [hloop] at hlinked
  rw [initializeList, hloop]
  refine ⟨⟨hlaid.memory_eq, hlaid.fits, hlaid.wide⟩, rfl, pool.blocks.reverse ++ [], hlinked, ?_⟩
  rw [List.append_nil, List.append_nil]
  exact List.reverse_perm pool.blocks

/-- The first free block moves to the clients. -/
theorem IsConsistent.allocate (h : IsConsistent buffer state)
    (hok : MemoryPool.allocate state.pool = .ok block pool) :
    IsConsistent buffer ⟨pool, block :: state.live⟩ := by
  rcases h.free with ⟨free, hfree⟩
  rcases allocate_ok_iff.mp hok with ⟨hhead, rfl, rfl⟩
  have hlength := length_add hfree
  have hcount := state.pool.blockCount.toNat_lt
  cases free with
  | nil => exact absurd hfree.linked hhead
  | cons first rest =>
      rcases hfree.linked with ⟨hfirst, -, hrest⟩
      refine ⟨⟨h.laidOut.memory_eq, h.laidOut.fits, h.laidOut.wide⟩, ?_, rest, ?_, ?_⟩
      · rw [List.length_cons] at hlength
        rw [UInt64.toNat_add, h.used_eq, List.length_cons]
        change (_ + 1) % 2 ^ 64 = _
        omega
      · rw [← hfirst] at hrest
        exact hrest
      · rw [hfirst]
        exact List.perm_middle.trans hfree.perm

/-- A block of the clients becomes the first free one. -/
theorem IsConsistent.deallocate (h : IsConsistent buffer state) (hlive : block ∈ state.live) :
    IsConsistent buffer ⟨state.pool.deallocate block, state.live.erase block⟩ := by
  rcases h.free with ⟨free, hfree⟩
  have hperm : (free ++ state.live).Perm (block :: free ++ state.live.erase block) :=
    ((List.perm_cons_erase hlive).append_left free).trans List.perm_middle
  have hseparate := (h.areSeparate hfree).perm hperm
  have hlinked := linked_pushFree h.laidOut hseparate.of_append_left hfree.linked
  have hne := ne_zero_of_within (hseparate.inside block (List.mem_cons_self ..))
  have hused : 0 < state.live.length := List.length_pos_of_mem hlive
  rw [MemoryPool.deallocate, if_neg hne]
  refine ⟨⟨h.laidOut.memory_eq, h.laidOut.fits, h.laidOut.wide⟩, ?_, block :: free, hlinked, ?_⟩
  · have hone : (1 : UInt64) ≤ state.pool.used := by
      rw [UInt64.le_iff_toNat_le, h.used_eq]
      exact hused
    rw [List.length_erase_of_mem hlive, UInt64.toNat_sub_of_le _ _ hone, h.used_eq]
    rfl
  · exact hperm.symm.trans hfree.perm

/-- A client does not write to the links. -/
theorem IsConsistent.write (h : IsConsistent buffer state) {address : UInt64} (byte : UInt8)
    (hlive : block ∈ state.live) (hstart : block ≤ address)
    (hstop : address.toNat < (state.pool.region block).stop) :
    IsConsistent buffer
      ⟨{ state.pool with bytes := state.pool.bytes.storeByte address byte }, state.live⟩ := by
  rcases h.free with ⟨free, hfree⟩
  have hperm : (free ++ state.live).Perm (block :: free ++ state.live.erase block) :=
    ((List.perm_cons_erase hlive).append_left free).trans List.perm_middle
  have hseparate := (h.areSeparate hfree).perm hperm
  have hagree : ByteMemory.AgreeOutside (state.pool.region block) state.pool.bytes
      (state.pool.bytes.storeByte address byte) :=
    ByteMemory.agreeOutside_storeByte _ _ (UInt64.le_iff_toNat_le.mp hstart) hstop
  exact ⟨⟨h.laidOut.memory_eq, h.laidOut.fits, h.laidOut.wide⟩, h.used_eq, free,
    linked_of_agreeOutside h.laidOut hseparate.of_append_left hfree.linked hagree, hfree.perm⟩

theorem IsConsistent.step {state' : PoolState} (h : IsConsistent buffer state)
    (hstep : PoolStep state state') : IsConsistent buffer state' := by
  cases hstep with
  | allocate hok => exact h.allocate hok
  | failedAllocate herror =>
      rw [(allocate_error_iff.mp herror).2]
      exact h
  | deallocate hlive => exact h.deallocate hlive
  | deallocateNull => exact h
  | reset hnone => exact initializeList_isConsistent h.laidOut
  | write byte hlive hstart hstop => exact h.write byte hlive hstart hstop

theorem IsConsistent.isSound (h : IsConsistent buffer state) : IsSound buffer state := by
  rcases h.free with ⟨free, hfree⟩
  have hseparate := (h.areSeparate hfree).of_append_right
  refine ⟨hseparate.nodup h.laidOut, List.pairwise_map.mpr hseparate.apart, hseparate.inside,
    h.used_eq, ?failing, ?available⟩
  case failing =>
    intro error pool herror
    have hnone : free = [] := 
      hfree.linked.head_eq_null_iff.mp (allocate_error_iff.mp herror).1
    have hlength := length_add hfree
    rw [hnone, List.length_nil, Nat.zero_add] at hlength
    have hperm := hfree.perm
    rw [hnone, List.nil_append] at hperm
    exact ⟨UInt64.toNat_inj.mp (h.used_eq.trans hlength), fun block => hperm.mem_iff.mpr⟩
  case available =>
    intro block hlive
    have hne := ne_zero_of_within (hseparate.inside block hlive)
    exact allocate_deallocate hne

end PoolState

/-! ## Runs -/

open PoolState in
theorem reachable_isConsistent {buffer : Buffer} {blockSize blockCount : UInt64}
    (hbuffer : buffer.size = MemoryPool.requestedSize blockSize blockCount)
    (hfits : (MemoryPool.clampedSize blockSize).toNat * blockCount.toNat < 2 ^ 64)
    {state : PoolState} (h : (pools buffer blockSize blockCount).Reachable state) :
    IsConsistent buffer state := by
  induction h with
  | initial hinitial =>
      rcases hinitial with ⟨bytes, rfl⟩
      apply initializeList_isConsistent
      refine ⟨rfl, ?_, MemoryPool.le_clampedSize blockSize⟩
      rw [hbuffer, MemoryPool.requestedSize, UInt64.toNat_mul, Nat.mod_eq_of_lt hfits]
  | step _ hstep ih => exact ih.step hstep

/-- A sound pool can be allocated from until all its blocks are live. -/
theorem exists_reachable_length {buffer : Buffer} {blockSize blockCount : UInt64}
    (hsound : ∀ state, (pools buffer blockSize blockCount).Reachable state →
      state.IsSound buffer) {count : ℕ} (hcount : count ≤ blockCount.toNat) :
    ∃ state, (pools buffer blockSize blockCount).Reachable state ∧ state.live.length = count ∧
      state.pool.blockSize = MemoryPool.clampedSize blockSize ∧
      state.pool.blockCount = blockCount := by
  induction count with
  | zero =>
      let created := MemoryPool.create buffer blockSize blockCount fun _ => 0
      have hcreated : (pools buffer blockSize blockCount).Reachable ⟨created, []⟩ :=
        .initial ⟨_, rfl⟩
      refine ⟨⟨created, []⟩, hcreated, rfl, ?_⟩
      rcases MemoryPool.initializeList_eq ⟨buffer.address, 0, MemoryPool.clampedSize blockSize,
        blockCount, 0, fun _ => 0⟩ with ⟨head, bytes, heq⟩
      simp [created, MemoryPool.create, heq]
  | succ count ih =>
      rcases ih (Nat.le_of_succ_le hcount) with ⟨state, hreachable, hlength, hsize, hblocks⟩
      cases hallocate : MemoryPool.allocate state.pool with
      | error error pool =>
          -- no allocation fails before the last block is live
          have hused := ((hsound state hreachable).failing error pool hallocate).1
          have hlive := (hsound state hreachable).used_eq
          rw [hused, MemoryPool.capacity, hblocks, hlength] at hlive
          omega
      | ok block pool =>
          rcases MemoryPool.allocate_ok_iff.mp hallocate with ⟨-, -, rfl⟩
          exact ⟨_, hreachable.step (.allocate hallocate), congrArg (· + 1) hlength, hsize, hblocks⟩

/-- A pool is sound in every state if and only if the size that it asked for did not wrap
around. -/
theorem reachable_isSound_iff {buffer : Buffer} {blockSize blockCount : UInt64}
    (hbuffer : buffer.size = MemoryPool.requestedSize blockSize blockCount) :
    (∀ state, (pools buffer blockSize blockCount).Reachable state → state.IsSound buffer) ↔
      (MemoryPool.clampedSize blockSize).toNat * blockCount.toNat < 2 ^ 64 := by
  constructor
  · intro hsound
    rcases exists_reachable_length hsound (le_refl _) with ⟨state, hreachable, hlength, hsize, -⟩
    -- all blocks at once take up no more than the buffer
    have hregions : ((state.live.map state.pool.region).map Region.size).sum ≤
        buffer.region.size := by
      apply Region.sum_size_le (hsound state hreachable).apart
      intro region hregion
      rcases List.mem_map.mp hregion with ⟨block, hblock, rfl⟩
      exact (hsound state hreachable).inside block hblock
    have hsum : ((state.live.map state.pool.region).map Region.size).sum =
        blockCount.toNat * (MemoryPool.clampedSize blockSize).toNat := by
      have hconst : Region.size ∘ state.pool.region =
          Function.const UInt64 (MemoryPool.clampedSize blockSize).toNat :=
        funext fun _ => congrArg UInt64.toNat hsize
      rw [List.map_map, hconst, List.map_const, List.sum_replicate, hlength, smul_eq_mul]
    calc (MemoryPool.clampedSize blockSize).toNat * blockCount.toNat
        = blockCount.toNat * (MemoryPool.clampedSize blockSize).toNat := Nat.mul_comm _ _
      _ ≤ buffer.size.toNat := hsum ▸ hregions
      _ < 2 ^ 64 := buffer.size.toNat_lt
  · intro hfits state hreachable
    exact (reachable_isConsistent hbuffer hfits hreachable).isSound

/-- A buffer for four blocks of sixteen bytes. -/
def fourBlocks : Buffer :=
  ⟨4096, 64, page_ne_zero, by decide⟩

theorem reachable_isSound_fourBlocks :
    fourBlocks.size = MemoryPool.requestedSize 16 4 ∧
      ((∀ state, (pools fourBlocks 16 4).Reachable state → state.IsSound fourBlocks) ↔
        (MemoryPool.clampedSize 16).toNat * UInt64.toNat 4 < 2 ^ 64) :=
  ⟨by decide, reachable_isSound_iff (by decide)⟩

/-- What `operator new` returned for no bytes. -/
def noBytes : Buffer :=
  ⟨4096, 0, page_ne_zero, by decide⟩

/-- Two blocks of 2^63 bytes each ask for no memory, and the first block that is allocated is not
in the buffer. -/
theorem wrapping_pool :
    noBytes.size = MemoryPool.requestedSize 0x8000000000000000 2 ∧
    ∃ state, (pools noBytes 0x8000000000000000 2).Reachable state ∧
      state.live = [0x8000000000001000] ∧ ¬ state.IsSound noBytes := by
  let pool := MemoryPool.create noBytes 0x8000000000000000 2 fun _ => 0
  have hcreated : (pools noBytes 0x8000000000000000 2).Reachable ⟨pool, []⟩ := .initial ⟨_, rfl⟩
  have hhead : pool.freeList = 0x8000000000001000 := by decide
  have hsize : pool.blockSize = 0x8000000000000000 := by decide
  have hallocate : MemoryPool.allocate pool = .ok 0x8000000000001000
      { pool with freeList := pool.bytes.loadWord pool.freeList, used := pool.used + 1 } :=
    MemoryPool.allocate_ok_iff.mpr ⟨hhead ▸ by decide, hhead.symm, rfl⟩
  refine ⟨by decide, _, hcreated.step (.allocate hallocate), rfl, fun hsound => ?_⟩
  have hinside := hsound.inside _ (List.mem_cons_self ..)
  simp only [MemoryPool.region, hsize] at hinside
  exact absurd hinside (by decide)

end GiveMePi.Memory
