import GiveMePi.ByteCursor

/-! # Where a reader by position has been

The bytes between two positions of a reader, and the readers that index no byte outside of the
bytes. -/

namespace GiveMePi.Cursor

variable {α β : Type} {bytes out out' : Bytes} {truncated : String} {position middle last : ℕ}

/-! ## Spans -/

/-- The bytes `out` stand between two positions. -/
structure Spans (bytes : Bytes) (position : ℕ) (out : Bytes) (last : ℕ) : Prop where
  drop_eq : bytes.drop position = out ++ bytes.drop last
  last_eq : last = position + out.length

theorem Spans.refl (bytes : Bytes) (position : ℕ) : Spans bytes position [] position :=
  ⟨rfl, rfl⟩

@[simp] theorem spans_nil : Spans bytes position [] last ↔ last = position := by
  constructor
  · exact fun h => h.last_eq
  · rintro rfl
    exact .refl bytes last

theorem Spans.trans (h : Spans bytes position out middle) (h' : Spans bytes middle out' last) :
    Spans bytes position (out ++ out') last where
  drop_eq := by rw [h.drop_eq, h'.drop_eq, List.append_assoc]
  last_eq := by rw [h'.last_eq, h.last_eq, List.length_append, Nat.add_assoc]

theorem spans_of_eq (h : bytes = out ++ out') : Spans bytes 0 out out.length :=
  ⟨by rw [h, List.drop_zero, List.drop_left], (Nat.zero_add _).symm⟩

theorem Spans.split (h : Spans bytes position (out ++ out') last) :
    ∃ middle, Spans bytes position out middle ∧ Spans bytes middle out' last := by
  have hrest : bytes.drop (position + out.length) = out' ++ bytes.drop last := by
    rw [← List.drop_drop, h.drop_eq, List.append_assoc, List.drop_left]
  refine ⟨position + out.length, ⟨?_, rfl⟩, ⟨hrest, ?_⟩⟩
  · rw [h.drop_eq, hrest, List.append_assoc]
  · rw [h.last_eq, List.length_append, Nat.add_assoc]

theorem spans_append : Spans bytes position (out ++ out') last ↔
    ∃ middle, Spans bytes position out middle ∧ Spans bytes middle out' last :=
  ⟨Spans.split, fun ⟨_, h, h'⟩ => h.trans h'⟩

/-- As many bytes from a position on are always the same. -/
theorem Spans.unique {last' : ℕ} (h : Spans bytes position out last)
    (h' : Spans bytes position out' last') (hlength : out.length = out'.length) :
    out = out' ∧ last = last' := by
  have hdrop := h.drop_eq
  rw [h'.drop_eq] at hdrop
  refine ⟨(List.append_inj_left hdrop hlength.symm).symm, ?_⟩
  rw [h.last_eq, h'.last_eq, hlength]

theorem Spans.last_le (h : Spans bytes position out last) (hout : 0 < out.length) :
    last ≤ bytes.length := by
  have hlength := congrArg List.length h.drop_eq
  rw [List.length_append, List.length_drop, List.length_drop] at hlength
  have hlast := h.last_eq
  omega

/-- From the first byte to the last, there is nothing else. -/
theorem spans_all : Spans bytes 0 out bytes.length ↔ bytes = out := by
  constructor
  · intro h
    have hdrop := h.drop_eq
    rwa [List.drop_zero, List.drop_length, List.append_nil] at hdrop
  · rintro rfl
    exact ⟨by simp, by simp⟩

@[simp] theorem get_eq_ok {found : ℕ} :
    (get : Cursor ℕ) position = .ok (found, last) ↔ found = position ∧ last = position := by
  change (Except.ok (position, position) : Except Fault _) = _ ↔ _
  simp [eq_comm]

/-- What is read where its bytes stand. -/
theorem Reads.of_spans {cursor : Cursor α} {a : α} (h : Reads bytes cursor out a)
    (hspans : Spans bytes position out last) : cursor position = .ok (a, last) := by
  rw [hspans.last_eq]
  exact h position _ hspans.drop_eq

theorem spans_next {byte : UInt8} (h : next bytes position = .ok (byte, last)) :
    Spans bytes position [byte] last := by
  rw [next] at h
  split at h
  · next byte' hbyte =>
      cases h
      rcases List.getElem?_eq_some_iff.mp hbyte with ⟨hlt, rfl⟩
      exact ⟨List.drop_eq_getElem_cons hlt, rfl⟩
  · cases h

theorem next_eq_ok {byte : UInt8} :
    next bytes position = .ok (byte, last) ↔ Spans bytes position [byte] last :=
  ⟨spans_next, (reads_next byte).of_spans⟩

theorem spans_copy {count : ℕ} {copied : Bytes} (h : copy bytes count position = .ok (copied, last)) :
    Spans bytes position copied last := by
  induction count generalizing copied position last with
  | zero =>
      rw [copy, pure_eq_ok] at h
      rcases h with ⟨rfl, rfl⟩
      exact .refl bytes position
  | succ count ih =>
      simp only [copy, bind_eq_ok, pure_eq_ok] at h
      rcases h with ⟨byte, middle, hbyte, rest, _, hrest, rfl, rfl⟩
      exact (spans_next hbyte).trans (ih hrest)

theorem copy_eq_ok {count : ℕ} {copied : Bytes} :
    copy bytes count position = .ok (copied, last) ↔
      copied.length = count ∧ Spans bytes position copied last := by
  constructor
  · exact fun h => ⟨length_copy h, spans_copy h⟩
  · rintro ⟨rfl, h⟩
    exact (reads_copy copied).of_spans h

theorem spans_require {count : ℕ} {u : Unit}
    (h : require bytes truncated count position = .ok (u, last)) :
    position + count ≤ bytes.length ∧ last = position := by
  rw [require] at h
  split at h
  · cases h
  · next hfits =>
      cases h
      exact ⟨Nat.not_lt.mp hfits, rfl⟩

theorem require_eq_ok {count : ℕ} {u : Unit} :
    require bytes truncated count position = .ok (u, last) ↔
      position + count ≤ bytes.length ∧ last = position := by
  constructor
  · exact spans_require
  · rintro ⟨hfits, rfl⟩
    rw [require, if_neg (Nat.not_lt.mpr hfits)]

theorem spans_read16 {value : UInt16} (h : read16 bytes truncated position = .ok (value, last)) :
    Spans bytes position (appendU16 value) last := by
  simp only [read16, bind_eq_ok, pure_eq_ok] at h
  rcases h with ⟨_, _, hrequire, word, _, hword, rfl, rfl⟩
  rcases spans_require hrequire with ⟨-, rfl⟩
  rw [appendU16_wordU16 (length_copy hword)]
  exact spans_copy hword

theorem spans_read32 {value : UInt32} (h : read32 bytes truncated position = .ok (value, last)) :
    Spans bytes position (appendU32 value) last ∧ last ≤ bytes.length := by
  simp only [read32, bind_eq_ok, pure_eq_ok] at h
  rcases h with ⟨_, _, hrequire, word, _, hword, rfl, rfl⟩
  rcases spans_require hrequire with ⟨hfits, rfl⟩
  rw [appendU32_wordU32 (length_copy hword)]
  refine ⟨spans_copy hword, ?_⟩
  rw [(spans_copy hword).last_eq, length_copy hword]
  exact hfits

theorem spans_read64 {value : UInt64} (h : read64 bytes truncated position = .ok (value, last)) :
    Spans bytes position (appendU64 value) last := by
  simp only [read64, bind_eq_ok, pure_eq_ok] at h
  rcases h with ⟨_, _, hrequire, word, _, hword, rfl, rfl⟩
  rcases spans_require hrequire with ⟨-, rfl⟩
  rw [appendU64_wordU64 (length_copy hword)]
  exact spans_copy hword

/-! ## Accesses within the bytes -/

theorem bind_eq_error {cursor : Cursor α} {rest : α → Cursor β} {fault : Fault} :
    (cursor >>= rest) position = .error fault ↔ cursor position = .error fault ∨
      ∃ a middle, cursor position = .ok (a, middle) ∧ rest a middle = .error fault := by
  change (cursor position >>= fun result => rest result.1 result.2) = _ ↔ _
  cases cursor position with
  | error fault' => simp
  | ok result => simp [Prod.ext_iff]

/-- From this position on, a computation accesses no byte outside of the bytes. -/
def StaysAt (cursor : Cursor α) (position : ℕ) : Prop :=
  cursor position ≠ .error .outOfBounds

/-- From every position. -/
def Stays (cursor : Cursor α) : Prop :=
  ∀ position, StaysAt cursor position

theorem StaysAt.bind {cursor : Cursor α} {rest : α → Cursor β} (h : StaysAt cursor position)
    (h' : ∀ a middle, cursor position = .ok (a, middle) → StaysAt (rest a) middle) :
    StaysAt (cursor >>= rest) position := by
  intro hfault
  rcases bind_eq_error.mp hfault with hfirst | ⟨a, middle, hfirst, hrest⟩
  · exact h hfirst
  · exact h' a middle hfirst hrest

theorem Stays.bind {cursor : Cursor α} {rest : α → Cursor β} (h : Stays cursor)
    (h' : ∀ a, Stays (rest a)) : Stays (cursor >>= rest) :=
  fun position => (h position).bind fun a middle _ => h' a middle

theorem stays_pure (a : α) : Stays (pure a : Cursor α) := by
  intro position h
  cases h

theorem stays_liftM (x : Except Error α) : Stays (liftM x : Cursor α) := by
  intro position h
  change ofExcept x position = _ at h
  cases x with
  | error error => cases h
  | ok a => cases h

theorem stays_require (bytes : Bytes) (truncated : String) (count : ℕ) :
    Stays (require bytes truncated count) := by
  intro position h
  rw [require] at h
  split at h
  · cases h
  · cases h

theorem staysAt_next (h : position < bytes.length) : StaysAt (next bytes) position := by
  rw [StaysAt, next, List.getElem?_eq_getElem h]
  intro hfault
  cases hfault

theorem copy_of_le {count : ℕ} (h : position + count ≤ bytes.length) :
    copy bytes count position = .ok ((bytes.drop position).take count, position + count) := by
  have hlength : ((bytes.drop position).take count).length = count := by
    rw [List.length_take, List.length_drop]
    omega
  have hread : copy bytes _ position = _ := reads_copy ((bytes.drop position).take count) position
    ((bytes.drop position).drop count) (List.take_append_drop _ _).symm
  rw [hlength] at hread
  exact hread

/-- Bytes that are not all there are not copied. -/
theorem copy_of_lt {count : ℕ} (hcount : 0 < count) (h : bytes.length < position + count) :
    copy bytes count position = .error .outOfBounds := by
  induction count generalizing position with
  | zero => exact absurd hcount (Nat.lt_irrefl 0)
  | succ count ih =>
      rw [copy, bind_eq_error]
      by_cases hposition : position < bytes.length
      · refine .inr ⟨bytes[position], position + 1, ?_, ?_⟩
        · rw [next, List.getElem?_eq_getElem hposition]
        · exact bind_eq_error.mpr (.inl (ih (by omega) (by omega)))
      · refine .inl ?_
        rw [next, List.getElem?_eq_none (Nat.not_lt.mp hposition)]

theorem staysAt_copy {count : ℕ} (h : position + count ≤ bytes.length) :
    StaysAt (copy bytes count) position := by
  rw [StaysAt, copy_of_le h]
  intro hfault
  cases hfault

theorem stays_read16 : Stays (read16 bytes truncated) := by
  refine fun position => (stays_require bytes truncated 2 position).bind ?_
  intro _ _ hrequire
  rcases spans_require hrequire with ⟨hfits, rfl⟩
  exact (staysAt_copy hfits).bind fun word _ _ => stays_pure (wordU16 word) _

theorem stays_read32 : Stays (read32 bytes truncated) := by
  refine fun position => (stays_require bytes truncated 4 position).bind ?_
  intro _ _ hrequire
  rcases spans_require hrequire with ⟨hfits, rfl⟩
  exact (staysAt_copy hfits).bind fun word _ _ => stays_pure (wordU32 word) _

theorem stays_read64 : Stays (read64 bytes truncated) := by
  refine fun position => (stays_require bytes truncated 8 position).bind ?_
  intro _ _ hrequire
  rcases spans_require hrequire with ⟨hfits, rfl⟩
  exact (staysAt_copy hfits).bind fun word _ _ => stays_pure (wordU64 word) _

end GiveMePi.Cursor
