import GiveMePi.Library.Regions
import GiveMePi.Numeric

/-! # Memory from the heap -/

namespace GiveMePi.Memory

open Library

/-- `std::bad_alloc` -/
inductive BadAlloc where
  | badAlloc
deriving DecidableEq, Repr

/-- Memory that `operator new` returned. -/
structure Buffer where
  address : UInt64
  size : UInt64
  address_ne : address ≠ 0
  fits : address.toNat + size.toNat < 2 ^ 64
deriving DecidableEq, Repr

def Buffer.region (buffer : Buffer) : Region :=
  ⟨buffer.address.toNat, buffer.size.toNat⟩

theorem Buffer.address_pos (buffer : Buffer) : 0 < buffer.address.toNat :=
  Nat.pos_of_ne_zero fun hzero => buffer.address_ne (UInt64.toNat_inj.mp hzero)

/-- The address behind the first page. -/
theorem page_ne_zero : (4096 : UInt64) ≠ 0 := by decide

end GiveMePi.Memory
