import GiveMePi.Verification.SHA256Blocks

/-! # Messages in pieces

What the pieces given so far make of a context, and the digest of the whole message. -/

namespace GiveMePi.Verification.SHA256

open Library Library.SecureHash

/-! ## The buffer -/

/-- The bytes that wait for the rest of a block. -/
def pending (context : SHA256) : Bytes :=
  context.buffer.toList.take context.bufferSize

theorem length_pending {context : SHA256} (h : context.bufferSize < 64) :
    context.pending.length = context.bufferSize := by
  simp [pending]
  omega

/-- Bytes written to the buffer follow the bytes before them. -/
theorem take_overwrite (buffer : Vector UInt8 64) (start : ℕ) (source : Bytes) {last : ℕ}
    (hlast : start + source.length = last) (h : last ≤ 64) :
    (overwrite buffer start source).toList.take last = buffer.toList.take start ++ source := by
  subst hlast
  apply List.ext_getElem
  · simp
    omega
  · intro i hi hi'
    rw [List.length_append, List.length_take, Vector.length_toList] at hi'
    by_cases hstart : i < start
    · rw [List.getElem_append_left (by simp; omega)]
      simp [overwrite, Nat.not_le.mpr hstart]
    · have hsource : i - start < source.length := by omega
      rw [List.getElem_append_right (by simp; omega)]
      have hmin : min start 64 = start := by omega
      simp [overwrite, Nat.not_lt.mp hstart, hsource, hmin]

theorem toList_overwrite (buffer : Vector UInt8 64) (start : ℕ) (source : Bytes)
    (h : start + source.length = 64) :
    (overwrite buffer start source).toList = buffer.toList.take start ++ source := by
  rw [← take_overwrite buffer start source h le_rfl, List.take_of_length_le (by simp)]

/-! ## A piece -/

variable {context : SHA256} {message bytes : Bytes}

/-- Filling the buffer moves bytes of the piece to it, and a full buffer to the state. -/
theorem fillBuffer_spec (hsize : context.bufferSize < 64) (bytes : Bytes) :
    (fillBuffer context bytes).2 ≤ bytes.length ∧
      ((fillBuffer context bytes).1.bufferSize = 0 ∨
        (fillBuffer context bytes).1.bufferSize < 64 ∧ (fillBuffer context bytes).2 = bytes.length) ∧
      hashBlocks (registers context.state) (context.pending ++ bytes) =
        hashBlocks (registers (fillBuffer context bytes).1.state)
          ((fillBuffer context bytes).1.pending ++ bytes.drop (fillBuffer context bytes).2) := by
  rw [fillBuffer]
  split
  · next hpartial =>
      have hcopied : (bytes.take (min bytes.length (64 - context.bufferSize))).length =
          min bytes.length (64 - context.bufferSize) := by simp
      dsimp only
      split
      · next hfull =>
          refine ⟨Nat.min_le_left _ _, .inl rfl, ?_⟩
          have hblock := toList_overwrite context.buffer _ _ (hcopied.symm ▸ hfull)
          rw [registers_transform, ← hashBlocks_block_append (by simp), hblock]
          simp [pending]
      · next hshort =>
          have hlast := take_overwrite context.buffer context.bufferSize
            (bytes.take (min bytes.length (64 - context.bufferSize))) rfl (by rw [hcopied]; omega)
          rw [hcopied] at hlast
          refine ⟨Nat.min_le_left _ _, .inr ⟨by simp only; omega, by simp only; omega⟩, ?_⟩
          simp [pending, hlast]
  · next hempty =>
      refine ⟨Nat.zero_le _, .inl (not_not.mp hempty), ?_⟩
      simp

@[simp] theorem fillBuffer_finalized : (fillBuffer context bytes).1.finalized = context.finalized := by
  rw [fillBuffer]
  dsimp only
  repeat' split
  all_goals rfl

@[simp] theorem fillBuffer_totalBytes : (fillBuffer context bytes).1.totalBytes = context.totalBytes := by
  rw [fillBuffer]
  dsimp only
  repeat' split
  all_goals rfl

/-- The loop takes in the whole blocks after the offset. -/
theorem transformBlocks_spec (state : Vector UInt32 8) (bytes : Bytes) {offset : ℕ}
    (h : offset ≤ bytes.length) :
    (transformBlocks state bytes offset).2 ≤ bytes.length ∧
      bytes.length - (transformBlocks state bytes offset).2 < 64 ∧
      hashBlocks (registers state) (bytes.drop offset) =
        (registers (transformBlocks state bytes offset).1,
          bytes.drop (transformBlocks state bytes offset).2) := by
  fun_induction transformBlocks state bytes offset with
  | case1 state offset hblock ih =>
      rcases ih (by omega) with ⟨hle, hrest, hblocks⟩
      refine ⟨hle, hrest, ?_⟩
      have htake : (Vector.ofFn fun i : Fin 64 => bytes[offset + i]).toList =
          (bytes.drop offset).take 64 := by
        apply List.ext_getElem
        · simp
          omega
        · intro i hi hi'
          simp
      rw [registers_transform, htake, ← hashBlocks_block_append (by simp; omega), ← List.drop_drop,
        List.take_append_drop] at hblocks
      exact hblocks
  | case2 state offset hblock =>
      refine ⟨h, by omega, ?_⟩
      rw [hashBlocks_of_lt]
      rw [List.length_drop]
      omega

/-- After a piece, the state and the buffer stand for everything before it and the piece. -/
theorem take_spec (hsize : context.bufferSize < 64) (bytes : Bytes) :
    (context.take bytes).bufferSize < 64 ∧
      hashBlocks (registers context.state) (context.pending ++ bytes) =
        (registers (context.take bytes).state, (context.take bytes).pending) := by
  rcases fillBuffer_spec hsize bytes with ⟨hle, hfilled, hblocks⟩
  rw [hblocks, take]
  generalize fillBuffer context bytes = filled at hle hfilled ⊢
  rcases transformBlocks_spec filled.1.state bytes hle with ⟨hend, hrest, hwhole⟩
  rcases hfilled with hempty | ⟨hshort, hread⟩
  · have hpending : filled.1.pending = [] := by simp [pending, hempty]
    rw [hpending, List.nil_append, hwhole]
    generalize transformBlocks filled.1.state bytes filled.2 = blocks at hend hrest ⊢
    dsimp only
    split
    · next hleft =>
        refine ⟨hrest, ?_⟩
        have hcopy := take_overwrite filled.1.buffer 0 (bytes.drop blocks.2)
          (Nat.zero_add _) (by rw [List.length_drop]; omega)
        rw [List.length_drop] at hcopy
        simp [pending, hcopy]
    · next hdone =>
        refine ⟨by simp [hempty], ?_⟩
        simp [pending, hempty, List.drop_eq_nil_of_le (Nat.not_lt.mp hdone)]
  · have hnone : transformBlocks filled.1.state bytes filled.2 = (filled.1.state, filled.2) := by
      rw [transformBlocks, dif_neg (by omega)]
    rw [hnone, if_neg (by omega)]
    refine ⟨hshort, ?_⟩
    rw [hread, List.drop_length, List.append_nil]
    exact hashBlocks_of_lt ((length_pending hshort).trans_lt hshort) _

@[simp] theorem take_finalized : (context.take bytes).finalized = context.finalized := by
  rw [take]
  split <;> simp

@[simp] theorem take_totalBytes : (context.take bytes).totalBytes = context.totalBytes := by
  rw [take]
  split <;> simp

/-- An unfinished context that has been given a message. -/
structure Represents (context : SHA256) (message : Bytes) : Prop where
  finalized : context.finalized = false
  totalBytes : context.totalBytes.toNat = message.length
  limit : message.length < 2 ^ 61
  bufferSize : context.bufferSize < 64
  blocks : hashBlocks initial message = (registers context.state, context.pending)

theorem new_represents : Represents new [] where
  finalized := rfl
  totalBytes := rfl
  limit := by simp
  bufferSize := by decide
  blocks := by rw [hashBlocks_of_lt (by simp), registers_new]; rfl

theorem maximumBytes_toNat : maximumBytes.toNat = 2 ^ 61 - 1 := rfl

/-- What `update` does, check by check. -/
theorem update_eq (bytes : Bytes) (context : SHA256) :
    update bytes context =
      if context.finalized then
        .error (.logicError "Cannot update a finalized SHA-256 context") context
      else if bytes.length > (maximumBytes - context.totalBytes).toNat then
        .error (.lengthError "SHA-256 input bit length overflows uint64") context
      else .ok () (SHA256.take
        { context with totalBytes := context.totalBytes + UInt64.ofNat bytes.length } bytes) := by
  rw [update, Program.get_bind]
  split
  · next hfinalized => simp [hfinalized]
  · next hfinalized =>
      split
      · next hlimit => simp [hfinalized, hlimit]
      · next hlimit => simp [hfinalized, hlimit]

/-- The limit leaves room for exactly the messages whose bits can be counted. -/
theorem limit_iff (h : Represents context message) (bytes : Bytes) :
    bytes.length > (maximumBytes - context.totalBytes).toNat ↔
      2 ^ 61 ≤ message.length + bytes.length := by
  have hlimit := h.limit
  have htotal := h.totalBytes
  have hle : context.totalBytes ≤ maximumBytes := by
    rw [UInt64.le_iff_toNat_le, maximumBytes_toNat]
    omega
  rw [UInt64.toNat_sub_of_le _ _ hle, maximumBytes_toNat]
  omega

theorem update_over_limit (h : Represents context message)
    (hlimit : 2 ^ 61 ≤ message.length + bytes.length) :
    update bytes context =
      .error (.lengthError "SHA-256 input bit length overflows uint64") context := by
  rw [update_eq, if_pos ((limit_iff h bytes).mpr hlimit)]
  simp [h.finalized]

theorem update_represents (h : Represents context message) (bytes : Bytes)
    (hlimit : message.length + bytes.length < 2 ^ 61) :
    ∃ next, update bytes context = .ok () next ∧ Represents next (message ++ bytes) := by
  have hfits : ¬ bytes.length > (maximumBytes - context.totalBytes).toNat := by
    rw [limit_iff h bytes]
    omega
  refine ⟨_, by rw [update_eq, if_neg (by simp [h.finalized]), if_neg hfits], ?_⟩
  let counted := { context with totalBytes := context.totalBytes + UInt64.ofNat bytes.length }
  have hcounted : counted.bufferSize < 64 := h.bufferSize
  rcases take_spec hcounted bytes with ⟨hsize, hblocks⟩
  refine ⟨?_, ?_, ?_, hsize, ?_⟩
  · rw [take_finalized, h.finalized]
  · have hlength : (UInt64.ofNat bytes.length).toNat = bytes.length :=
      UInt64.toNat_ofNat_of_lt' (by rw [UInt64.size]; omega)
    rw [take_totalBytes, UInt64.toNat_add, hlength, h.totalBytes, List.length_append]
    omega
  · rw [List.length_append]
    exact hlimit
  · rw [hashBlocks_append, h.blocks, ← hblocks]
    rfl

/-- Pieces one after another. -/
theorem updates_represent (pieces : List Bytes) (h : Represents context message)
    (hlimit : message.length + pieces.flatten.length < 2 ^ 61) :
    ∃ next, pieces.forM update context = .ok () next ∧
      Represents next (message ++ pieces.flatten) := by
  induction pieces generalizing context message with
  | nil => exact ⟨context, rfl, by simpa using h⟩
  | cons piece pieces ih =>
      rw [List.flatten_cons, List.length_append] at hlimit
      rcases update_represents h piece (by omega) with ⟨middle, hpiece, hmiddle⟩
      rcases ih hmiddle (by rw [List.length_append]; omega) with ⟨next, hpieces, hnext⟩
      refine ⟨next, ?_, ?_⟩
      · rw [Program.forM_cons, Program.bind_of_ok hpiece, hpieces]
      · rw [List.flatten_cons, ← List.append_assoc]
        exact hnext

/-! ## The end of the message -/

/-- The zero bytes of the padding, counted from the bytes that wait. -/
theorem zeroBytes_eq (length : ℕ) :
    (zeroBits (8 * length) - 7) / 8 =
      if length % 64 + 1 > 56 then 64 - (length % 64 + 1) + 56 else 56 - (length % 64 + 1) := by
  rw [zeroBits]
  split <;> omega

/-- After `pad` only the length field of the last block is missing. -/
theorem pad_spec (hsize : context.bufferSize < 64) {zeros : ℕ}
    (hzeros : zeros = if context.bufferSize + 1 > 56 then 64 - (context.bufferSize + 1) + 56
      else 56 - (context.bufferSize + 1)) {field : Bytes} (hfield : field.length = 8) :
    hashBlocks (registers context.state)
        (context.pending ++ (0x80 :: List.replicate zeros 0 ++ field)) =
      (compress (registers context.pad.state) (context.pad.buffer.toList.take 56 ++ field), []) := by
  have hmark := take_overwrite context.buffer context.bufferSize [0x80] rfl
    (by simp; omega)
  rw [List.length_singleton] at hmark
  have hlast (buffer : Vector UInt8 64) (r : Registers) :
      hashBlocks r (buffer.toList.take 56 ++ field) =
        (compress r (buffer.toList.take 56 ++ field), []) :=
    hashBlocks_block (by simp [hfield]) r
  rw [← hlast, pad]
  dsimp only
  split
  · next hlong =>
      rw [if_pos hlong] at hzeros
      have hfull := toList_overwrite (overwrite context.buffer context.bufferSize [0x80])
        (context.bufferSize + 1) (List.replicate (64 - (context.bufferSize + 1)) 0)
        (by rw [List.length_replicate]; omega)
      have hnext (buffer : Vector UInt8 64) :
          (overwrite buffer 0 (List.replicate 56 0)).toList.take 56 = List.replicate 56 0 := by
        rw [take_overwrite buffer 0 _ (by simp) (by decide)]
        rfl
      rw [hnext, registers_transform, ← hashBlocks_block_append (by simp), hfull, hmark, hzeros,
        List.replicate_add]
      simp [pending]
  · next hshort =>
      rw [if_neg hshort] at hzeros
      have hfill := take_overwrite (overwrite context.buffer context.bufferSize [0x80])
        (context.bufferSize + 1) (List.replicate (56 - (context.bufferSize + 1)) 0)
        (show _ = 56 by rw [List.length_replicate]; omega) (by decide)
      rw [hfill, hmark, hzeros]
      simp [pending]

/-- The loop over the length field writes the number of bits as the standard does. -/
theorem toList_storeLength (bitLength : UInt64) (buffer : Vector UInt8 64) :
    (storeLength bitLength buffer).toList =
      buffer.toList.take 56 ++ toBytes 8 bitLength.toNat := by
  rw [← appendU64_eq]
  apply List.ext_getElem
  · simp
  · intro i hi hi'
    rw [Vector.length_toList] at hi
    rw [Vector.getElem_toList]
    by_cases hfield : i < 56
    · rw [List.getElem_append_left (by simp; omega)]
      have hne (k : ℕ) (hk : 56 ≤ k) : k ≠ i := by omega
      simp [storeLength, hne]
    · rw [List.getElem_append_right (by simp; omega)]
      interval_cases i <;> simp [storeLength, appendU64]

theorem bytes_digestOf (state : Vector UInt32 8) :
    (digestOf state).bytes = (registers state).toList.flatMap fun word => toBytes 4 word.toNat := by
  have hword (word : UInt32) : wordBytes word = toBytes 4 word.toBitVec.toNat := by
    rw [UInt32.toNat_toBitVec, ← appendU32_eq]
    rfl
  have hstate : (registers state).toList = state.toList.map UInt32.toBitVec := by
    apply List.ext_getElem
    · simp [Registers.toList]
    · intro i hi hi'
      simp only [List.length_map, Vector.length_toList] at hi'
      interval_cases i <;> simp [Registers.toList, registers, Variables.registers, Variables.load]
  rw [hstate, List.flatMap_map, digestOf]
  exact List.flatMap_congr fun word _ => hword word

/-- A finished context returns its digest again. -/
theorem finalize_of_finalized (h : context.finalized = true) :
    finalize context = .ok context.digest context := by
  rw [finalize, Program.get_bind]
  simp [h]

theorem update_of_finalized (h : context.finalized = true) (bytes : Bytes) :
    update bytes context =
      .error (.logicError "Cannot update a finalized SHA-256 context") context := by
  rw [update_eq, if_pos h]

theorem finalize_represents (h : Represents context message) :
    ∃ digest finished, finalize context = .ok digest finished ∧
      digest.bytes = SecureHash.digest message ∧ finished.finalized = true ∧
      finished.digest = digest := by
  rw [finalize, Program.get_bind, if_neg (by simp [h.finalized])]
  refine ⟨_, _, rfl, ?_, rfl, rfl⟩
  have hlimit := h.limit
  have hlength : (context.totalBytes * 8).toNat = 8 * message.length := by
    have height : (8 : UInt64).toNat = 8 := rfl
    rw [UInt64.toNat_mul, h.totalBytes, height]
    omega
  have hsize : context.bufferSize = message.length % 64 := by
    have hmod := length_hashBlocks_mod initial message
    rw [h.blocks, length_pending h.bufferSize, Nat.mod_eq_of_lt h.bufferSize] at hmod
    exact hmod
  have hblocks := pad_spec h.bufferSize (hsize ▸ zeroBytes_eq message.length)
    (length_toBytes 8 (8 * message.length))
  rw [bytes_digestOf, registers_transform, toList_storeLength, hlength, SecureHash.digest,
    SecureHash.pad, hashBlocks_append, h.blocks, SecureHash.padding, hblocks]

/-- However a message of fewer than 2^61 bytes is split, the digest is that of the standard, and is
returned again. A piece that the length field has no room for is refused, before the end and after
it, and leaves the context as it was. -/
theorem finalize_pieces (pieces : List Bytes) (h : pieces.flatten.length < 2 ^ 61) :
    ∃ context digest finished,
      pieces.forM update new = .ok () context ∧
      finalize context = .ok digest finished ∧
      digest.bytes = SecureHash.digest pieces.flatten ∧
      finalize finished = .ok digest finished ∧
      ∀ bytes : Bytes, 2 ^ 61 ≤ pieces.flatten.length + bytes.length →
        (∃ error, update bytes context = .error error context) ∧
        ∃ error, update bytes finished = .error error finished := by
  rcases updates_represent pieces new_represents (by simpa using h) with ⟨context, hpieces, hcontext⟩
  rw [List.nil_append] at hcontext
  rcases finalize_represents hcontext with ⟨digest, finished, hfinalize, hdigest, hdone, hstored⟩
  refine ⟨context, digest, finished, hpieces, hfinalize, hdigest, ?_, ?_⟩
  · rw [finalize_of_finalized hdone, hstored]
  · intro bytes hbytes
    exact ⟨⟨_, update_over_limit hcontext hbytes⟩, _, update_of_finalized hdone bytes⟩

theorem finalize_pieces_three :
    ∃ context digest finished,
      [[0x61], [], [0x62, 0x63]].forM update new = .ok () context ∧
      finalize context = .ok digest finished ∧
      digest.bytes = SecureHash.digest [0x61, 0x62, 0x63] ∧
      finalize finished = .ok digest finished ∧
      ∀ bytes : Bytes, 2 ^ 61 ≤ 3 + bytes.length →
        (∃ error, update bytes context = .error error context) ∧
        ∃ error, update bytes finished = .error error finished :=
  finalize_pieces [[0x61], [], [0x62, 0x63]] (by decide)

/-- One update is enough for `hash`. -/
theorem hash_eq (h : message.length < 2 ^ 61) :
    ∃ digest, SHA256.hash message = .ok digest ∧ digest.bytes = SecureHash.digest message := by
  rcases update_represents new_represents message (by simpa using h) with
    ⟨context, hupdate, hcontext⟩
  rcases finalize_represents hcontext with ⟨digest, finished, hfinalize, hdigest, -⟩
  refine ⟨digest, ?_, hdigest⟩
  rw [SHA256.hash, Program.bind_of_ok hupdate, hfinalize]

example : (SHA256.hash (ascii "abc")).toOption.map SHA256Digest.bytes = some [
    0xba, 0x78, 0x16, 0xbf, 0x8f, 0x01, 0xcf, 0xea, 0x41, 0x41, 0x40, 0xde, 0x5d, 0xae, 0x22, 0x23,
    0xb0, 0x03, 0x61, 0xa3, 0x96, 0x17, 0x7a, 0x9c, 0xb4, 0x10, 0xff, 0x61, 0xf2, 0x00, 0x15, 0xad] := by
  decide +kernel

end GiveMePi.Verification.SHA256
