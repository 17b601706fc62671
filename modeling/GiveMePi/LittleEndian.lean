import GiveMePi.CursorSpans

/-! # Words from the lowest byte to the highest

The readers by position, for words whose lowest byte comes first. -/

namespace GiveMePi

variable {ω α : Type}

/-- How the words of a type are written. -/
structure WordCode (ω : Type) where
  size : ℕ
  write : ω → Bytes
  read : Bytes → ω
  length_write : ∀ word, (write word).length = size
  read_write : ∀ word, read (write word) = word
  write_read : ∀ bytes, bytes.length = size → write (read bytes) = bytes

namespace WordCode

/-- `value & 0xFF`, `(value >> 8) & 0xFF` -/
def little16 : WordCode UInt16 where
  size := 2
  write word := [word.toUInt8, (word >>> 8).toUInt8]
  read bytes := wordU16 bytes.reverse
  length_write _ := rfl
  read_write word := wordU16_appendU16 word
  write_read bytes h := by
    have hreverse := congrArg List.reverse
      (appendU16_wordU16 (bytes.length_reverse.trans h))
    rwa [List.reverse_reverse] at hreverse

def little32 : WordCode UInt32 where
  size := 4
  write word := [0, 8, 16, 24].map fun shift : UInt32 => (word >>> shift).toUInt8
  read bytes := wordU32 bytes.reverse
  length_write _ := rfl
  read_write word := wordU32_appendU32 word
  write_read bytes h := by
    have hreverse := congrArg List.reverse
      (appendU32_wordU32 (bytes.length_reverse.trans h))
    rwa [List.reverse_reverse] at hreverse

def little64 : WordCode UInt64 where
  size := 8
  write word := [0, 8, 16, 24, 32, 40, 48, 56].map fun shift : UInt64 => (word >>> shift).toUInt8
  read bytes := wordU64 bytes.reverse
  length_write _ := rfl
  read_write word := wordU64_appendU64 word
  write_read bytes h := by
    have hreverse := congrArg List.reverse
      (appendU64_wordU64 (bytes.length_reverse.trans h))
    rwa [List.reverse_reverse] at hreverse

variable {code : WordCode ω} {word : ω} {bytes : Bytes} {position last : ℕ} {truncated : String}

@[simp] theorem length_write_little16 (word : UInt16) : (little16.write word).length = 2 := rfl

@[simp] theorem length_write_little32 (word : UInt32) : (little32.write word).length = 4 := rfl

@[simp] theorem length_write_little64 (word : UInt64) : (little64.write word).length = 8 := rfl

theorem write_injective (code : WordCode ω) : Function.Injective code.write :=
  Function.LeftInverse.injective code.read_write

/-- The word at the position, which is not checked. -/
def copy (code : WordCode ω) (bytes : Bytes) : Cursor ω := do
  let word ← Cursor.copy bytes code.size
  pure (code.read word)

/-- The word at the position, if its bytes are there. -/
def readChecked (code : WordCode ω) (bytes : Bytes) (truncated : String) : Cursor ω := do
  Cursor.require bytes truncated code.size
  code.copy bytes

open Cursor

/-- The words that are read are those that stand there. -/
theorem copy_eq_ok : code.copy bytes position = .ok (word, last) ↔
    Spans bytes position (code.write word) last := by
  constructor
  · intro h
    simp only [copy, Cursor.bind_eq_ok, Cursor.pure_eq_ok] at h
    rcases h with ⟨copied, _, hcopied, rfl, rfl⟩
    rw [code.write_read copied (length_copy hcopied)]
    exact spans_copy hcopied
  · intro h
    have hreads : Reads bytes _ _ _ := (reads_copy (code.write word)).map code.read
    rw [code.read_write, code.length_write] at hreads
    exact hreads.of_spans h

theorem readChecked_eq_ok (hsize : 0 < code.size) :
    code.readChecked bytes truncated position = .ok (word, last) ↔
      Spans bytes position (code.write word) last := by
  simp only [readChecked, Cursor.bind_eq_ok, require_eq_ok, copy_eq_ok]
  constructor
  · rintro ⟨_, _, ⟨-, rfl⟩, h⟩
    exact h
  · intro h
    have hlast := h.last_le (by
      rw [code.length_write]
      exact hsize)
    rw [h.last_eq, code.length_write] at hlast
    exact ⟨(), position, ⟨hlast, rfl⟩, h⟩

@[simp] theorem readChecked_little16_eq_ok {word : UInt16} :
    little16.readChecked bytes truncated position = .ok (word, last) ↔
      Spans bytes position (little16.write word) last :=
  readChecked_eq_ok (by decide)

@[simp] theorem readChecked_little32_eq_ok {word : UInt32} :
    little32.readChecked bytes truncated position = .ok (word, last) ↔
      Spans bytes position (little32.write word) last :=
  readChecked_eq_ok (by decide)

@[simp] theorem readChecked_little64_eq_ok {word : UInt64} :
    little64.readChecked bytes truncated position = .ok (word, last) ↔
      Spans bytes position (little64.write word) last :=
  readChecked_eq_ok (by decide)

theorem staysAt_copy (code : WordCode ω) (h : position + code.size ≤ bytes.length) :
    StaysAt (code.copy bytes) position :=
  (Cursor.staysAt_copy h).bind fun word _ _ => stays_pure (code.read word) _

/-- What comes behind a word stays if it does behind as many bytes. -/
theorem staysAt_copy_bind (code : WordCode ω) (count : ℕ) (hsize : code.size = count)
    (h : position + count ≤ bytes.length) {rest : ω → Cursor α}
    (hrest : ∀ word, StaysAt (rest word) (position + count)) :
    StaysAt (code.copy bytes >>= rest) position := by
  subst hsize
  refine (code.staysAt_copy h).bind fun word middle hword => ?_
  rw [(copy_eq_ok.mp hword).last_eq, code.length_write]
  exact hrest word

theorem stays_readChecked (code : WordCode ω) : Stays (code.readChecked bytes truncated) := by
  refine fun position => (stays_require bytes truncated code.size position).bind ?_
  intro _ _ hrequire
  rcases spans_require hrequire with ⟨hfits, rfl⟩
  exact code.staysAt_copy hfits

end WordCode

end GiveMePi
