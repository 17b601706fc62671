import GiveMePi.Library.Regions
import GiveMePi.Library.WordCodec

/-! # Lists that are linked through a memory

Bytes at 64-bit addresses, the words in them, and lists whose links are such words. -/

namespace GiveMePi.Library

/-! ## Words of a memory -/

abbrev ByteMemory := UInt64 → UInt8

namespace ByteMemory

/-- The word at an address, its lowest byte first. -/
def loadWord (memory : ByteMemory) (address : UInt64) : UInt64 :=
  UInt64.ofNat (ofBytes ((List.range 8).map fun index =>
    memory (address + UInt64.ofNat index)).reverse)

def storeWord (memory : ByteMemory) (address word : UInt64) : ByteMemory := fun location =>
  (toBytes 8 word.toNat).reverse[(location - address).toNat]?.getD (memory location)

def storeByte (memory : ByteMemory) (address : UInt64) (byte : UInt8) : ByteMemory := fun location =>
  if location = address then byte else memory location

/-- The memories differ at most in the region. -/
def AgreeOutside (region : Region) (memory memory' : ByteMemory) : Prop :=
  ∀ location : UInt64, location.toNat < region.start ∨ region.stop ≤ location.toNat →
    memory' location = memory location

/-- The bytes of the word at an address. -/
def wordRegion (address : UInt64) : Region :=
  ⟨address.toNat, 8⟩

variable {memory memory' : ByteMemory} {address word : UInt64} {region : Region}

theorem loadWord_storeWord (memory : ByteMemory) (address word : UInt64) :
    (memory.storeWord address word).loadWord address = word := by
  have hbytes : ((List.range 8).map fun index =>
      memory.storeWord address word (address + UInt64.ofNat index)) =
      (toBytes 8 word.toNat).reverse := by
    apply List.ext_getElem (by simp)
    intro index hindex hindex'
    have hlt : index < 8 := by simpa using hindex
    have hoffset : (address + UInt64.ofNat index - address).toNat = index := by
      rw [UInt64.add_comm, UInt64.add_sub_cancel, UInt64.toNat_ofNat_of_lt' (hlt.trans (by decide))]
    simp only [List.getElem_map, List.getElem_range, storeWord, hoffset,
      List.getElem?_eq_getElem hindex', Option.getD_some]
  rw [loadWord, hbytes, List.reverse_reverse, ofBytes_toBytes (by
    have hword := word.toNat_lt
    omega)]
  simp

theorem agreeOutside_storeWord (memory : ByteMemory) (word : UInt64)
    (hfits : address.toNat + 8 ≤ 2 ^ 64) :
    AgreeOutside (wordRegion address) memory (memory.storeWord address word) := by
  intro location hlocation
  have hlt := location.toNat_lt
  have haddress := address.toNat_lt
  have hoffset : 8 ≤ (location - address).toNat := by
    rw [UInt64.toNat_sub]
    simp only [wordRegion, Region.stop] at hlocation
    omega
  rw [storeWord, List.getElem?_eq_none (by simpa using hoffset), Option.getD_none]

theorem agreeOutside_storeByte (memory : ByteMemory) (byte : UInt8)
    (hstart : region.start ≤ address.toNat) (hstop : address.toNat < region.stop) :
    AgreeOutside region memory (memory.storeByte address byte) := by
  intro location hlocation
  have hne : location ≠ address := by
    rintro rfl
    omega
  rw [storeByte, if_neg hne]

theorem AgreeOutside.loadWord_eq (h : AgreeOutside region memory memory')
    (hfits : address.toNat + 8 ≤ 2 ^ 64) (hapart : Region.Apart (wordRegion address) region) :
    memory'.loadWord address = memory.loadWord address := by
  have hbytes : ∀ index ∈ List.range 8, memory' (address + UInt64.ofNat index) =
      memory (address + UInt64.ofNat index) := by
    intro index hindex
    have hlt := List.mem_range.mp hindex
    apply h
    have haddress : (address + UInt64.ofNat index).toNat = address.toNat + index := by
      rw [UInt64.toNat_add, UInt64.toNat_ofNat_of_lt' (hlt.trans (by decide)), Nat.mod_eq_of_lt (by omega)]
    rw [haddress]
    simp only [Region.Apart, wordRegion, Region.stop] at hapart ⊢
    omega
  rw [loadWord, loadWord, List.map_congr_left hbytes]

end ByteMemory

/-! ## Linked lists -/

section Linked

variable {α : Type*} {next next' : α → α} {null head item : α} {items : List α}

/-- The head is the first of the items, each of them is linked to the one behind it, and the last
one to null. -/
def Linked (next : α → α) (null : α) : α → List α → Prop
  | head, [] => head = null
  | head, item :: rest => head = item ∧ item ≠ null ∧ Linked next null (next item) rest

theorem Linked.head_eq_null_iff (h : Linked next null head items) : head = null ↔ items = [] := by
  cases items with
  | nil => simpa [Linked] using h
  | cons item rest =>
      rcases h with ⟨rfl, hne, -⟩
      simp [hne]

/-- The links of the items are all that matters. -/
theorem Linked.congr (h : Linked next null head items)
    (hnext : ∀ item ∈ items, next' item = next item) : Linked next' null head items := by
  induction items generalizing head with
  | nil => exact h
  | cons item rest ih =>
      rcases h with ⟨rfl, hne, hrest⟩
      rcases List.forall_mem_cons.mp hnext with ⟨hitem, hnext⟩
      exact ⟨rfl, hne, hitem ▸ ih hrest hnext⟩

/-- A new item in front is linked to the old head. -/
theorem Linked.push (h : Linked next null head items) (hne : item ≠ null)
    (hitem : next' item = head) (hnext : ∀ other ∈ items, next' other = next other) :
    Linked next' null item (item :: items) :=
  ⟨rfl, hne, hitem ▸ h.congr hnext⟩

end Linked

end GiveMePi.Library
