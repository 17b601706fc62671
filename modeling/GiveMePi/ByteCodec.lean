import GiveMePi.Error
import GiveMePi.Library.WordCodec

/-! # Reading and writing bytes

The codecs of the program write words most significant byte first, and read them with a reader that
throws when bytes are missing. -/

namespace GiveMePi

open Library

abbrev Bytes := List UInt8

instance Bytes.instLawfulBEq : LawfulBEq Bytes := inferInstance

def ascii (text : String) : Bytes :=
  text.toList.map fun c => c.toNat.toUInt8

/-- The decimal digits of a number. -/
def decimal (n : ℕ) : Bytes :=
  (Nat.toDigits 10 n).map fun digit => digit.toNat.toUInt8

/-! ## Writing -/

def appendU8 (value : UInt8) : Bytes :=
  [value]

def appendU16 (value : UInt16) : Bytes :=
  [(value >>> 8).toUInt8, value.toUInt8]

def appendU32 (value : UInt32) : Bytes :=
  [24, 16, 8, 0].map fun shift : UInt32 => (value >>> shift).toUInt8

def appendU64 (value : UInt64) : Bytes :=
  [56, 48, 40, 32, 24, 16, 8, 0].map fun shift : UInt64 => (value >>> shift).toUInt8

@[simp] theorem length_appendU8 (value : UInt8) : (appendU8 value).length = 1 := rfl

@[simp] theorem length_appendU16 (value : UInt16) : (appendU16 value).length = 2 := rfl

@[simp] theorem length_appendU32 (value : UInt32) : (appendU32 value).length = 4 := rfl

@[simp] theorem length_appendU64 (value : UInt64) : (appendU64 value).length = 8 := rfl

theorem appendU16_eq (value : UInt16) : appendU16 value = toBytes 2 value.toNat := by
  simp only [appendU16, toBytes, List.nil_append, List.cons_append, List.cons.injEq, and_true]
  refine ⟨?_, ?_⟩ <;> apply UInt8.toNat_inj.mp <;> simp [Nat.shiftRight_eq_div_pow]

theorem appendU32_eq (value : UInt32) : appendU32 value = toBytes 4 value.toNat := by
  simp only [appendU32, toBytes, List.nil_append, List.cons_append, List.map_cons, List.map_nil,
    List.cons.injEq, and_true]
  refine ⟨?_, ?_, ?_, ?_⟩ <;> apply UInt8.toNat_inj.mp <;>
    simp [Nat.shiftRight_eq_div_pow, Nat.div_div_eq_div_mul]

theorem appendU64_eq (value : UInt64) : appendU64 value = toBytes 8 value.toNat := by
  simp only [appendU64, toBytes, List.nil_append, List.cons_append, List.map_cons, List.map_nil,
    List.cons.injEq, and_true]
  refine ⟨?_, ?_, ?_, ?_, ?_, ?_, ?_, ?_⟩ <;> apply UInt8.toNat_inj.mp <;>
    simp [Nat.shiftRight_eq_div_pow, Nat.div_div_eq_div_mul]

/-! ## Words from bytes -/

def wordU16 (bytes : Bytes) : UInt16 :=
  bytes.foldl (fun value byte => (value <<< 8) ||| byte.toUInt16) 0

def wordU32 (bytes : Bytes) : UInt32 :=
  bytes.foldl (fun value byte => (value <<< 8) ||| byte.toUInt32) 0

def wordU64 (bytes : Bytes) : UInt64 :=
  bytes.foldl (fun value byte => (value <<< 8) ||| byte.toUInt64) 0

/-- Shifting a word by eight bits and adding a byte, modulo the number of words. -/
theorem shiftLeft_or_byte (width value : ℕ) {byte : ℕ} (hbyte : byte < 256) :
    value <<< 8 % 2 ^ (width + 8) ||| byte = (256 * value + byte) % 2 ^ (width + 8) := by
  have hpow : 2 ^ (width + 8) = 256 * 2 ^ width := by
    rw [pow_add, mul_comm]
    rfl
  have hshift : value <<< 8 % 2 ^ (width + 8) = 2 ^ 8 * (value % 2 ^ width) := by
    rw [Nat.shiftLeft_eq, hpow, mul_comm value, Nat.mul_mod_mul_left]
  have hquotient : (256 * value + byte) / 256 = value := by omega
  have hremainder : (256 * value + byte) % 256 = byte := by omega
  rw [hshift, ← Nat.two_pow_add_eq_or_of_lt (by omega), hpow, Nat.mod_mul, hquotient, hremainder]
  omega

theorem toNat_wordU16 (bytes : Bytes) : (wordU16 bytes).toNat = ofBytes bytes % 2 ^ 16 := by
  induction bytes using List.reverseRecOn with
  | nil => rfl
  | append_singleton bytes byte ih =>
      have hstep : wordU16 (bytes ++ [byte]) = (wordU16 bytes <<< 8) ||| byte.toUInt16 := by
        simp [wordU16]
      have hword : ((wordU16 bytes <<< 8) ||| byte.toUInt16).toNat =
          (wordU16 bytes).toNat <<< 8 % 2 ^ 16 ||| byte.toNat := by simp
      rw [hstep, hword, shiftLeft_or_byte 8 _ byte.toNat_lt, ih, ofBytes_concat]
      omega

theorem toNat_wordU32 (bytes : Bytes) : (wordU32 bytes).toNat = ofBytes bytes % 2 ^ 32 := by
  induction bytes using List.reverseRecOn with
  | nil => rfl
  | append_singleton bytes byte ih =>
      have hstep : wordU32 (bytes ++ [byte]) = (wordU32 bytes <<< 8) ||| byte.toUInt32 := by
        simp [wordU32]
      have hword : ((wordU32 bytes <<< 8) ||| byte.toUInt32).toNat =
          (wordU32 bytes).toNat <<< 8 % 2 ^ 32 ||| byte.toNat := by simp
      rw [hstep, hword, shiftLeft_or_byte 24 _ byte.toNat_lt, ih, ofBytes_concat]
      omega

theorem toNat_wordU64 (bytes : Bytes) : (wordU64 bytes).toNat = ofBytes bytes % 2 ^ 64 := by
  induction bytes using List.reverseRecOn with
  | nil => rfl
  | append_singleton bytes byte ih =>
      have hstep : wordU64 (bytes ++ [byte]) = (wordU64 bytes <<< 8) ||| byte.toUInt64 := by
        simp [wordU64]
      have hword : ((wordU64 bytes <<< 8) ||| byte.toUInt64).toNat =
          (wordU64 bytes).toNat <<< 8 % 2 ^ 64 ||| byte.toNat := by simp
      rw [hstep, hword, shiftLeft_or_byte 56 _ byte.toNat_lt, ih, ofBytes_concat]
      omega

theorem appendU16_wordU16 {bytes : Bytes} (h : bytes.length = 2) :
    appendU16 (wordU16 bytes) = bytes := by
  have hlt := ofBytes_lt bytes
  rw [h] at hlt
  rw [appendU16_eq, toNat_wordU16, Nat.mod_eq_of_lt (by omega), ← h, toBytes_ofBytes]

theorem appendU32_wordU32 {bytes : Bytes} (h : bytes.length = 4) :
    appendU32 (wordU32 bytes) = bytes := by
  have hlt := ofBytes_lt bytes
  rw [h] at hlt
  rw [appendU32_eq, toNat_wordU32, Nat.mod_eq_of_lt (by omega), ← h, toBytes_ofBytes]

theorem appendU64_wordU64 {bytes : Bytes} (h : bytes.length = 8) :
    appendU64 (wordU64 bytes) = bytes := by
  have hlt := ofBytes_lt bytes
  rw [h] at hlt
  rw [appendU64_eq, toNat_wordU64, Nat.mod_eq_of_lt (by omega), ← h, toBytes_ofBytes]

@[simp] theorem wordU16_appendU16 (value : UInt16) : wordU16 (appendU16 value) = value := by
  have hlt := value.toNat_lt
  apply UInt16.toNat_inj.mp
  rw [toNat_wordU16, appendU16_eq, ofBytes_toBytes (by omega), Nat.mod_eq_of_lt hlt]

@[simp] theorem wordU32_appendU32 (value : UInt32) : wordU32 (appendU32 value) = value := by
  have hlt := value.toNat_lt
  apply UInt32.toNat_inj.mp
  rw [toNat_wordU32, appendU32_eq, ofBytes_toBytes (by omega), Nat.mod_eq_of_lt hlt]

@[simp] theorem wordU64_appendU64 (value : UInt64) : wordU64 (appendU64 value) = value := by
  have hlt := value.toNat_lt
  apply UInt64.toNat_inj.mp
  rw [toNat_wordU64, appendU64_eq, ofBytes_toBytes (by omega), Nat.mod_eq_of_lt hlt]

/-! ## Reading -/

/-- A reader of the bytes that are left. -/
abbrev Reader := StateT Bytes (Except Error)

namespace Reader

variable {α β : Type}

/-- The next `count` bytes; `truncated` is what the codec says when they are missing. -/
def take (truncated : String) (count : ℕ) : Reader Bytes := fun bytes =>
  if count > bytes.length then .error (.invalidArgument truncated)
  else .ok (bytes.take count, bytes.drop count)

def readU8 (truncated : String) : Reader UInt8 := do
  let bytes ← take truncated 1
  pure (bytes.headD 0)

def readU16 (truncated : String) : Reader UInt16 := do
  let bytes ← take truncated 2
  pure (wordU16 bytes)

def readU32 (truncated : String) : Reader UInt32 := do
  let bytes ← take truncated 4
  pure (wordU32 bytes)

def readU64 (truncated : String) : Reader UInt64 := do
  let bytes ← take truncated 8
  pure (wordU64 bytes)

variable {truncated : String} {bytes rest : Bytes}

theorem bind_eq_ok {reader : Reader α} {next : α → Reader β} {b : β} :
    (reader >>= next) bytes = .ok (b, rest) ↔
      ∃ a middle, reader bytes = .ok (a, middle) ∧ next a middle = .ok (b, rest) := by
  change (reader bytes >>= fun result => next result.1 result.2) = _ ↔ _
  rw [GiveMePi.bind_eq_ok, Prod.exists]

@[simp] theorem pure_eq_ok {a b : α} :
    (pure a : Reader α) bytes = .ok (b, rest) ↔ a = b ∧ bytes = rest := by
  change (Except.ok (a, bytes) : Except Error _) = _ ↔ _
  simp

@[simp] theorem liftM_eq_ok {x : Except Error α} {a : α} :
    (liftM x : Reader α) bytes = .ok (a, rest) ↔ x = .ok a ∧ bytes = rest := by
  change (x >>= fun a => Except.ok (a, bytes)) = _ ↔ _
  rw [GiveMePi.bind_eq_ok]
  simp [eq_comm]

theorem throwIf_bind_eq_ok {condition : Prop} [Decidable condition] {error : Error}
    {next : Unit → Reader β} {b : β} :
    ((liftM (throwIf condition error) : Reader Unit) >>= next) bytes = .ok (b, rest) ↔
      ¬ condition ∧ next () bytes = .ok (b, rest) := by
  simp only [bind_eq_ok, liftM_eq_ok, throwIf_eq_ok]
  constructor
  · intro h
    obtain ⟨_, _, ⟨hcondition, rfl⟩, hnext⟩ := h
    exact ⟨hcondition, hnext⟩
  · intro h
    exact ⟨(), bytes, ⟨h.1, rfl⟩, h.2⟩

@[simp] theorem get_eq_ok {left : Bytes} :
    (get : Reader Bytes) bytes = .ok (left, rest) ↔ bytes = left ∧ bytes = rest := by
  change (Except.ok (bytes, bytes) : Except Error _) = _ ↔ _
  simp

theorem take_eq_ok {count : ℕ} {out : Bytes} :
    take truncated count bytes = .ok (out, rest) ↔ bytes = out ++ rest ∧ out.length = count := by
  rw [take]
  split
  · next hlt =>
      simp only [reduceCtorEq, false_iff, not_and]
      rintro rfl
      rw [List.length_append] at hlt
      omega
  · next hle =>
      simp only [Except.ok.injEq, Prod.mk.injEq]
      constructor
      · rintro ⟨rfl, rfl⟩
        exact ⟨(List.take_append_drop count bytes).symm, by rw [List.length_take]; omega⟩
      · rintro ⟨rfl, rfl⟩
        simp

@[simp] theorem readU8_eq_ok {value : UInt8} :
    readU8 truncated bytes = .ok (value, rest) ↔ bytes = appendU8 value ++ rest := by
  simp only [readU8, bind_eq_ok, take_eq_ok, pure_eq_ok, appendU8]
  constructor
  · rintro ⟨out, _, ⟨rfl, hlength⟩, rfl, rfl⟩
    obtain ⟨byte, rfl⟩ := List.length_eq_one_iff.mp hlength
    rfl
  · rintro rfl
    exact ⟨[value], rest, ⟨rfl, rfl⟩, rfl, rfl⟩

@[simp] theorem readU16_eq_ok {value : UInt16} :
    readU16 truncated bytes = .ok (value, rest) ↔ bytes = appendU16 value ++ rest := by
  simp only [readU16, bind_eq_ok, take_eq_ok, pure_eq_ok]
  constructor
  · rintro ⟨out, _, ⟨rfl, hlength⟩, rfl, rfl⟩
    rw [appendU16_wordU16 hlength]
  · rintro rfl
    exact ⟨appendU16 value, rest, ⟨rfl, rfl⟩, by simp, rfl⟩

@[simp] theorem readU32_eq_ok {value : UInt32} :
    readU32 truncated bytes = .ok (value, rest) ↔ bytes = appendU32 value ++ rest := by
  simp only [readU32, bind_eq_ok, take_eq_ok, pure_eq_ok]
  constructor
  · rintro ⟨out, _, ⟨rfl, hlength⟩, rfl, rfl⟩
    rw [appendU32_wordU32 hlength]
  · rintro rfl
    exact ⟨appendU32 value, rest, ⟨rfl, rfl⟩, by simp, rfl⟩

@[simp] theorem readU64_eq_ok {value : UInt64} :
    readU64 truncated bytes = .ok (value, rest) ↔ bytes = appendU64 value ++ rest := by
  simp only [readU64, bind_eq_ok, take_eq_ok, pure_eq_ok]
  constructor
  · rintro ⟨out, _, ⟨rfl, hlength⟩, rfl, rfl⟩
    rw [appendU64_wordU64 hlength]
  · rintro rfl
    exact ⟨appendU64 value, rest, ⟨rfl, rfl⟩, by simp, rfl⟩

end Reader

end GiveMePi
