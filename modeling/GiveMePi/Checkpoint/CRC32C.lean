import GiveMePi.ByteCodec

/-! # CRC32C checksums -/

namespace GiveMePi.Checkpoint

namespace CRC32C

def reflectedCastagnoliPolynomial : UInt32 := 0x82F63B78

/-- The remainder of one index of the table after some of its eight bits. -/
def tableRemainder : ℕ → UInt32 → UInt32
  | 0, remainder => remainder
  | bits + 1, remainder =>
      tableRemainder bits
        ((remainder >>> 1) ^^^ (if remainder &&& 1 ≠ 0 then reflectedCastagnoliPolynomial else 0))

def crcTable (index : UInt8) : UInt32 :=
  tableRemainder 8 index.toUInt32

def step (checksum : UInt32) (byte : UInt8) : UInt32 :=
  let index := (checksum ^^^ byte.toUInt32).toUInt8
  crcTable index ^^^ (checksum >>> 8)

/-- The checksum of the bytes, continuing that of the bytes before them. -/
def calculate (bytes : Bytes) (previous : UInt32) : UInt32 :=
  bytes.foldl step (previous ^^^ 0xFFFFFFFF) ^^^ 0xFFFFFFFF

/-- The checksum of bytes whose four bytes at an offset count as zero. -/
def calculateZeroed (checksumOffset : ℕ) (bytes : Bytes) : UInt32 :=
  let checksum := calculate (bytes.take checksumOffset) 0
  let checksum := calculate [0, 0, 0, 0] checksum
  calculate (bytes.drop (checksumOffset + 4)) checksum

/-- What stands in the checksum's own bytes does not count. -/
theorem calculateZeroed_slot {checksumOffset : ℕ} {before slot slot' after : Bytes}
    (hbefore : before.length = checksumOffset) (hslot : slot.length = 4)
    (hslot' : slot'.length = 4) :
    calculateZeroed checksumOffset (before ++ slot ++ after) =
      calculateZeroed checksumOffset (before ++ slot' ++ after) := by
  subst hbefore
  have hdrop (s : Bytes) (hs : s.length = 4) :
      (before ++ s ++ after).drop (before.length + 4) = after := by
    rw [List.drop_append_of_le_length (by simp [hs]), ← hs, ← List.length_append, List.drop_length,
      List.nil_append]
  rw [calculateZeroed, calculateZeroed, hdrop slot hslot, hdrop slot' hslot', List.append_assoc,
    List.append_assoc, List.take_left, List.take_left]

end CRC32C

end GiveMePi.Checkpoint
