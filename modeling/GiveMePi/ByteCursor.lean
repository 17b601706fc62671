import GiveMePi.ByteCodec

/-! # Reading bytes by position

Some parsers keep a position and index the bytes themselves. An index outside of the bytes is not
an exception but an access that the model reports as such. -/

namespace GiveMePi

/-- How a function that indexes memory may end without a result. -/
inductive Fault where
  | thrown (error : Error)
  | outOfBounds
deriving DecidableEq, Repr

/-- A computation on a position in the bytes. -/
abbrev Cursor := StateT ℕ (Except Fault)

namespace Cursor

variable {α β : Type}

def ofExcept (x : Except Error α) : Cursor α := fun position =>
  match x with
  | .ok a => .ok (a, position)
  | .error e => .error (.thrown e)

instance : MonadLift (Except Error) Cursor := ⟨ofExcept⟩

/-- A subtraction of sizes, which are below 2 ^ 64. -/
def subSize (a b : ℕ) : ℕ :=
  if b ≤ a then a - b else a + 2 ^ 64 - b

/-- `bytes[position++]` -/
def next (bytes : Bytes) : Cursor UInt8 := fun position =>
  match bytes[position]? with
  | some byte => .ok (byte, position + 1)
  | none => .error .outOfBounds

/-- The bytes from the position on, as many as asked for. -/
def copy (bytes : Bytes) : ℕ → Cursor Bytes
  | 0 => pure []
  | count + 1 => do
      let byte ← next bytes
      let rest ← copy bytes count
      pure (byte :: rest)

/-- The number of bytes behind the position. -/
def remaining (bytes : Bytes) : Cursor ℕ := fun position =>
  .ok (subSize bytes.length position, position)

/-- The check before a read. -/
def require (bytes : Bytes) (truncated : String) (count : ℕ) : Cursor Unit := fun position =>
  if position + count > bytes.length then .error (.thrown (.invalidArgument truncated))
  else .ok ((), position)

def read16 (bytes : Bytes) (truncated : String) : Cursor UInt16 := do
  require bytes truncated 2
  let word ← copy bytes 2
  pure (wordU16 word)

def read32 (bytes : Bytes) (truncated : String) : Cursor UInt32 := do
  require bytes truncated 4
  let word ← copy bytes 4
  pure (wordU32 word)

def read64 (bytes : Bytes) (truncated : String) : Cursor UInt64 := do
  require bytes truncated 8
  let word ← copy bytes 8
  pure (wordU64 word)

/-! ## What a computation returns -/

variable {bytes out out' : Bytes} {truncated : String} {position position' : ℕ}

theorem bind_eq_ok {cursor : Cursor α} {rest : α → Cursor β} {b : β} :
    (cursor >>= rest) position = .ok (b, position') ↔
      ∃ a middle, cursor position = .ok (a, middle) ∧ rest a middle = .ok (b, position') := by
  change (cursor position >>= fun result => rest result.1 result.2) = _ ↔ _
  rw [GiveMePi.bind_eq_ok, Prod.exists]

@[simp] theorem pure_eq_ok {a b : α} :
    (pure a : Cursor α) position = .ok (b, position') ↔ a = b ∧ position = position' := by
  change (Except.ok (a, position) : Except Fault _) = _ ↔ _
  simp

@[simp] theorem liftM_eq_ok {x : Except Error α} {a : α} :
    (liftM x : Cursor α) position = .ok (a, position') ↔ x = .ok a ∧ position = position' := by
  change ofExcept x position = _ ↔ _
  cases x with
  | error e => simp [ofExcept]
  | ok b => simp [ofExcept]

theorem length_copy {count : ℕ} {copied : Bytes}
    (h : copy bytes count position = .ok (copied, position')) : copied.length = count := by
  induction count generalizing copied position position' with
  | zero =>
      rw [copy, pure_eq_ok] at h
      rw [← h.1, List.length_nil]
  | succ count ih =>
      simp only [copy, bind_eq_ok, pure_eq_ok] at h
      obtain ⟨_, _, _, _, _, hrest, rfl, _⟩ := h
      rw [List.length_cons, ih hrest]

/-! ## Reading what was written -/

/-- Where the bytes `out` stand, the computation returns `a` and passes them. -/
def Reads (bytes : Bytes) (cursor : Cursor α) (out : Bytes) (a : α) : Prop :=
  ∀ position rest, bytes.drop position = out ++ rest →
    cursor position = .ok (a, position + out.length)

theorem Reads.bind {cursor : Cursor α} {rest : α → Cursor β} {a : α} {b : β}
    (h : Reads bytes cursor out a) (h' : Reads bytes (rest a) out' b) :
    Reads bytes (cursor >>= rest) (out ++ out') b := by
  intro position left hdrop
  rw [List.append_assoc] at hdrop
  refine bind_eq_ok.mpr ⟨a, position + out.length, h _ _ hdrop, ?_⟩
  have hrest : bytes.drop (position + out.length) = out' ++ left := by
    rw [← List.drop_drop, hdrop, List.drop_left]
  rw [h' _ _ hrest, List.length_append, add_assoc]

theorem reads_pure (a : α) : Reads bytes (pure a) [] a := fun _ _ _ => rfl

theorem Reads.bind_nil {cursor : Cursor α} {rest : α → Cursor β} {a : α} {b : β}
    (h : Reads bytes cursor out a) (h' : Reads bytes (rest a) [] b) :
    Reads bytes (cursor >>= rest) out b := by
  have hbind := h.bind h'
  rwa [List.append_nil] at hbind

theorem Reads.map {cursor : Cursor α} {a : α} (h : Reads bytes cursor out a) (f : α → β) :
    Reads bytes (cursor >>= fun x => pure (f x)) out (f a) := by
  exact h.bind_nil (reads_pure (f a))

theorem reads_liftM {x : Except Error α} {a : α} (h : x = .ok a) :
    Reads bytes (liftM x) [] a := by
  intro position rest _
  exact liftM_eq_ok.mpr ⟨h, rfl⟩

theorem reads_next (byte : UInt8) : Reads bytes (next bytes) [byte] byte := by
  intro position rest hdrop
  have hbyte : bytes[position]? = some byte := by
    have hhead := congrArg (fun list => list[0]?) hdrop
    simpa [List.getElem?_drop] using hhead
  rw [next, hbyte]
  rfl

theorem reads_copy (out : Bytes) : Reads bytes (copy bytes out.length) out out := by
  induction out with
  | nil => exact reads_pure []
  | cons byte rest ih =>
      exact (reads_next byte).bind (ih.map fun copied => byte :: copied)

theorem reads_require {count : ℕ} (hcount : out.length = count) (hpos : 0 < count)
    {cursor : Cursor α} {a : α} (h : Reads bytes cursor out a) :
    Reads bytes (require bytes truncated count >>= fun _ => cursor) out a := by
  intro position rest hdrop
  have hlength := congrArg List.length hdrop
  rw [List.length_drop, List.length_append] at hlength
  refine bind_eq_ok.mpr ⟨(), position, ?_, h position rest hdrop⟩
  rw [require]
  split
  · omega
  · rfl

theorem reads_read16 (value : UInt16) :
    Reads bytes (read16 bytes truncated) (appendU16 value) value := by
  have h : Reads bytes _ _ _ := (reads_copy (appendU16 value)).map wordU16
  rw [wordU16_appendU16] at h
  exact reads_require (length_appendU16 value) (by decide) h

theorem reads_read32 (value : UInt32) :
    Reads bytes (read32 bytes truncated) (appendU32 value) value := by
  have h : Reads bytes _ _ _ := (reads_copy (appendU32 value)).map wordU32
  rw [wordU32_appendU32] at h
  exact reads_require (length_appendU32 value) (by decide) h

theorem reads_read64 (value : UInt64) :
    Reads bytes (read64 bytes truncated) (appendU64 value) value := by
  have h : Reads bytes _ _ _ := (reads_copy (appendU64 value)).map wordU64
  rw [wordU64_appendU64] at h
  exact reads_require (length_appendU64 value) (by decide) h

end Cursor

end GiveMePi
