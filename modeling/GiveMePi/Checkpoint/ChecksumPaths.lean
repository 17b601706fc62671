import GiveMePi.Checkpoint.ChecksumBursts

/-! # The paths of the checksum

With the instructions of a processor the checksum is computed by words, without them by bytes and a
table. Both give the checksum that the polynomial defines bit by bit, so that one path can continue
what the other one has begun. -/

namespace GiveMePi.Checkpoint.CRC32C

open Library

/-! ## The hardware path -/

/-- The instructions of a processor. -/
structure Sse42 where
  crc32U8 : UInt32 → UInt8 → UInt32
  crc32U16 : UInt32 → UInt16 → UInt32
  crc32U32 : UInt32 → UInt32 → UInt32
  crc32U64 : UInt64 → UInt64 → UInt64

/-- The number that a little-endian processor reads from bytes. -/
def littleWord (bytes : Bytes) : ℕ :=
  ofBytes bytes.reverse

/-- The bytes of a word in the memory of a little-endian processor. -/
def littleBytes (width n : ℕ) : Bytes :=
  (toBytes width n).reverse

/-- The loop over words of some bytes: the checksum, and the bytes that are left. -/
def wordLoop (width : ℕ) [NeZero width] (instruction : UInt32 → ℕ → UInt32) (bytes : Bytes)
    (checksum : UInt32) : UInt32 × Bytes :=
  if width ≤ bytes.length then
    wordLoop width instruction (bytes.drop width)
      (instruction checksum (littleWord (bytes.take width)))
  else (checksum, bytes)
termination_by bytes.length
decreasing_by
  have hpos := NeZero.pos width
  rw [List.length_drop]
  omega

def calculateSse42 (cpu : Sse42) (is64Bit : Bool) (bytes : Bytes) (previous : UInt32) : UInt32 :=
  let checksum := previous ^^^ 0xFFFFFFFF
  let (checksum, bytes) :=
    if is64Bit then
      wordLoop 8 (fun checksum word =>
        (cpu.crc32U64 checksum.toUInt64 (UInt64.ofNat word)).toUInt32) bytes checksum
    else (checksum, bytes)
  let (checksum, bytes) :=
    wordLoop 4 (fun checksum word => cpu.crc32U32 checksum (UInt32.ofNat word)) bytes checksum
  let (checksum, bytes) :=
    wordLoop 2 (fun checksum word => cpu.crc32U16 checksum (UInt16.ofNat word)) bytes checksum
  bytes.foldl cpu.crc32U8 checksum ^^^ 0xFFFFFFFF

/-- What the program is built for, and the processor it runs on if that has the instructions. -/
structure Machine where
  is64Bit : Bool
  sse42 : Option Sse42

/-- `CRC32C::calculate` on a machine. -/
def calculateOn (machine : Machine) (bytes : Bytes) (previous : UInt32) : UInt32 :=
  match machine.sse42 with
  | some cpu => calculateSse42 cpu machine.is64Bit bytes previous
  | none => calculate bytes previous

/-! ## The definition by bits -/

/-- The register after some bytes, each of them entering it bit by bit from its lowest one. -/
def shiftBytes (checksum : UInt32) (bytes : Bytes) : UInt32 :=
  .ofBitVec (crcBytes 0x82F63B78#32 checksum.toBitVec (bytes.map UInt8.toBitVec))

def calculateBitwise (bytes : Bytes) (previous : UInt32) : UInt32 :=
  shiftBytes (previous ^^^ 0xFFFFFFFF) bytes ^^^ 0xFFFFFFFF

/-- The instructions do to the register what the bytes of their word do. -/
structure Sse42.IsCRC32C (cpu : Sse42) : Prop where
  u8 : ∀ checksum byte, cpu.crc32U8 checksum byte = shiftBytes checksum [byte]
  u16 : ∀ checksum word, cpu.crc32U16 checksum word =
    shiftBytes checksum (littleBytes 2 word.toNat)
  u32 : ∀ checksum word, cpu.crc32U32 checksum word =
    shiftBytes checksum (littleBytes 4 word.toNat)
  u64 : ∀ (checksum : UInt32) (word : UInt64), cpu.crc32U64 checksum.toUInt64 word =
    (shiftBytes checksum (littleBytes 8 word.toNat)).toUInt64

def Machine.IsCRC32C (machine : Machine) : Prop :=
  ∀ cpu ∈ machine.sse42, cpu.IsCRC32C

/-! ## Agreement -/

variable {cpu : Sse42} {bytes : Bytes} {checksum previous : UInt32}

/-- The table does to the register what the byte does. -/
theorem foldl_step_eq (bytes : Bytes) (checksum : UInt32) :
    bytes.foldl step checksum = shiftBytes checksum bytes := by
  rw [← UInt32.toBitVec_inj, toBitVec_foldl_step]
  rfl

theorem littleBytes_littleWord (bytes : Bytes) : littleBytes bytes.length (littleWord bytes) = bytes := by
  have hbytes := toBytes_ofBytes bytes.reverse
  rw [List.length_reverse] at hbytes
  rw [littleBytes, littleWord, hbytes, List.reverse_reverse]

theorem littleWord_lt (bytes : Bytes) : littleWord bytes < 256 ^ bytes.length := by
  have hlt := ofBytes_lt bytes.reverse
  rwa [List.length_reverse] at hlt

/-- An instruction does to the register what the table does with the bytes of its word. -/
theorem instruction_eq {width : ℕ} {instruction : UInt32 → ℕ → UInt32}
    (h : ∀ (checksum : UInt32) (n : ℕ), n < 256 ^ width →
      instruction checksum n = shiftBytes checksum (littleBytes width n))
    (checksum : UInt32) {word : Bytes} (hword : word.length = width) :
    instruction checksum (littleWord word) = word.foldl step checksum := by
  subst hword
  rw [h checksum _ (littleWord_lt word), littleBytes_littleWord, foldl_step_eq]

/-- A loop over words leaves the register and the rest of the bytes as a loop over bytes would. -/
theorem foldl_wordLoop (width : ℕ) [NeZero width] (instruction : UInt32 → ℕ → UInt32)
    (h : ∀ (checksum : UInt32) (n : ℕ), n < 256 ^ width →
      instruction checksum n = shiftBytes checksum (littleBytes width n))
    (bytes : Bytes) (checksum : UInt32) :
    (wordLoop width instruction bytes checksum).2.foldl step
      (wordLoop width instruction bytes checksum).1 = bytes.foldl step checksum := by
  fun_induction wordLoop width instruction bytes checksum with
  | case1 bytes checksum hfits ih =>
      rw [ih, instruction_eq h checksum (List.length_take_of_le hfits), ← List.foldl_append,
        List.take_append_drop]
  | case2 => rfl

theorem calculateSse42_eq (hcpu : cpu.IsCRC32C) (is64Bit : Bool) (bytes : Bytes)
    (previous : UInt32) : calculateSse42 cpu is64Bit bytes previous = calculate bytes previous := by
  have hu8 : cpu.crc32U8 = step := by
    funext checksum byte
    rw [hcpu.u8, ← foldl_step_eq, List.foldl_cons, List.foldl_nil]
  have hu16 := foldl_wordLoop 2 (fun checksum word => cpu.crc32U16 checksum (UInt16.ofNat word))
    fun checksum n hn => by simp only [hcpu.u16, UInt16.toNat_ofNat_of_lt' hn]
  have hu32 := foldl_wordLoop 4 (fun checksum word => cpu.crc32U32 checksum (UInt32.ofNat word))
    fun checksum n hn => by simp only [hcpu.u32, UInt32.toNat_ofNat_of_lt' hn]
  have hu64 := foldl_wordLoop 8
    (fun checksum word => (cpu.crc32U64 checksum.toUInt64 (UInt64.ofNat word)).toUInt32)
    fun checksum n hn => by
      simp only [hcpu.u64, UInt64.toNat_ofNat_of_lt' hn, UInt32.toUInt32_toUInt64]
  rw [calculateSse42, calculate, hu8]
  cases is64Bit with
  | false => simp only [Bool.false_eq_true, if_false, hu16, hu32]
  | true => simp only [if_true, hu16, hu32, hu64]

theorem calculateOn_eq {machine : Machine} (hmachine : machine.IsCRC32C) (bytes : Bytes)
    (previous : UInt32) : calculateOn machine bytes previous = calculate bytes previous := by
  rw [calculateOn]
  split
  · next cpu hcpu => exact calculateSse42_eq (hmachine cpu hcpu) machine.is64Bit bytes previous
  · rfl

/-- All paths give the checksum that is defined bit by bit, a checksum is continued on any of them, and
so is one whose own bytes count as zero. -/
theorem calculateOn_agrees (machine machine' : Machine) (hmachine : machine.IsCRC32C)
    (hmachine' : machine'.IsCRC32C) :
    (∀ bytes previous, calculateOn machine bytes previous = calculateBitwise bytes previous ∧
      calculate bytes previous = calculateBitwise bytes previous) ∧
    (∀ left right previous, calculateOn machine (left ++ right) previous =
      calculateOn machine' right (calculateOn machine left previous)) ∧
    ∀ (checksumOffset : ℕ) (bytes : Bytes), calculateZeroed checksumOffset bytes =
      calculateOn machine (zeroed checksumOffset bytes) 0 := by
  have hbits : ∀ bytes previous, calculate bytes previous = calculateBitwise bytes previous := by
    intro bytes previous
    rw [calculate, foldl_step_eq, calculateBitwise]
  refine ⟨fun bytes previous => ?_, fun left right previous => ?_, fun checksumOffset bytes => ?_⟩
  · rw [calculateOn_eq hmachine]
    exact ⟨hbits bytes previous, hbits bytes previous⟩
  · rw [calculateOn_eq hmachine, calculateOn_eq hmachine', calculateOn_eq hmachine, calculate_append]
  · rw [calculateOn_eq hmachine, calculateZeroed_eq]

/-- A processor with the instructions. -/
def tableCpu : Sse42 where
  crc32U8 := step
  crc32U16 checksum word := (littleBytes 2 word.toNat).foldl step checksum
  crc32U32 checksum word := (littleBytes 4 word.toNat).foldl step checksum
  crc32U64 checksum word := ((littleBytes 8 word.toNat).foldl step checksum.toUInt32).toUInt64

theorem tableCpu_isCRC32C : tableCpu.IsCRC32C where
  u8 checksum byte := foldl_step_eq [byte] checksum
  u16 _ _ := foldl_step_eq _ _
  u32 _ _ := foldl_step_eq _ _
  u64 checksum word := by
    simp only [tableCpu, UInt32.toUInt32_toUInt64, foldl_step_eq]

/-- A file written on one machine and read on another. -/
theorem calculateOn_agrees_two :
    (∀ bytes previous, calculateOn ⟨true, some tableCpu⟩ bytes previous =
        calculateBitwise bytes previous ∧
      calculate bytes previous = calculateBitwise bytes previous) ∧
    (∀ left right previous, calculateOn ⟨true, some tableCpu⟩ (left ++ right) previous =
      calculateOn ⟨false, none⟩ right (calculateOn ⟨true, some tableCpu⟩ left previous)) ∧
    ∀ (checksumOffset : ℕ) (bytes : Bytes), calculateZeroed checksumOffset bytes =
      calculateOn ⟨true, some tableCpu⟩ (zeroed checksumOffset bytes) 0 :=
  calculateOn_agrees ⟨true, some tableCpu⟩ ⟨false, none⟩
    (fun _ hcpu => Option.some.inj hcpu ▸ tableCpu_isCRC32C) (fun _ hcpu => nomatch hcpu)

end GiveMePi.Checkpoint.CRC32C
