import GiveMePi.Checkpoint.CRC32C
import GiveMePi.Library.CyclicRedundancy

/-! # What the checksums detect

The table-driven checksum is a register of 32 bits over the Castagnoli polynomial. Its value
therefore changes whenever the bytes change within four neighbours only. -/

namespace GiveMePi.Checkpoint

open Library

namespace CRC32C

/-! ## The register -/

def polynomial : BitVec 32 := reflectedCastagnoliPolynomial.toBitVec

theorem polynomial_top : polynomial.getLsbD (32 - 1) = true := by decide

theorem and_one_ne_zero_iff (remainder : UInt32) :
    remainder &&& 1 ≠ 0 ↔ remainder.toBitVec.getLsbD 0 = true := by
  have hand : (remainder &&& 1).toBitVec =
      BitVec.setWidth 32 (BitVec.ofBool (remainder.toBitVec.getLsbD 0)) := by
    rw [UInt32.toBitVec_and]
    exact BitVec.and_one_eq_setWidth_ofBool_getLsbD
  rw [ne_eq, ← UInt32.toBitVec_inj, hand]
  cases remainder.toBitVec.getLsbD 0 <;> decide

theorem toBitVec_tableRemainder (bits : ℕ) (remainder : UInt32) :
    (tableRemainder bits remainder).toBitVec = crcShifts polynomial bits remainder.toBitVec := by
  induction bits generalizing remainder with
  | zero => rfl
  | succ bits ih =>
      rw [tableRemainder, ih, crcShifts, crcShift]
      congr 1
      by_cases h : remainder &&& 1 ≠ 0
      · rw [if_pos h, if_pos ((and_one_ne_zero_iff remainder).mp h)]
        simp [polynomial]
      · rw [if_neg h, if_neg fun hbit => h ((and_one_ne_zero_iff remainder).mpr hbit)]
        simp

/-- A word is its low byte and the rest of it. -/
theorem low_xor_high (word : BitVec 32) :
    (word.setWidth 8).setWidth 32 ^^^ ((word >>> 8) <<< 8) = word := by
  apply BitVec.eq_of_getLsbD_eq
  intro i hi
  simp only [BitVec.getLsbD_xor, BitVec.getLsbD_setWidth, BitVec.getLsbD_shiftLeft,
    BitVec.getLsbD_ushiftRight, hi]
  by_cases hlow : i < 8
  · simp [hlow]
  · simp [hlow, Nat.add_sub_cancel' (not_lt.mp hlow)]

theorem toBitVec_step (checksum : UInt32) (byte : UInt8) :
    (step checksum byte).toBitVec = crcByte polynomial checksum.toBitVec byte.toBitVec := by
  obtain ⟨word, hword⟩ : ∃ word, word = checksum.toBitVec ^^^ byte.toBitVec.setWidth 32 := ⟨_, rfl⟩
  have hlow : ∀ i < 8, ((word >>> 8) <<< 8).getLsbD i = false := by
    intro i hi
    simp [BitVec.getLsbD_shiftLeft, hi]
  have hback : ((word >>> 8) <<< 8) >>> 8 = word >>> 8 := by
    apply BitVec.eq_of_getLsbD_eq
    intro i _
    simp only [BitVec.getLsbD_ushiftRight, BitVec.getLsbD_shiftLeft]
    by_cases hfit : 8 + i < 32
    · simp [hfit]
    · simp [hfit, BitVec.getLsbD_of_ge word (8 + i) (by omega)]
  have hhigh : word >>> 8 = checksum.toBitVec >>> 8 := by
    apply BitVec.eq_of_getLsbD_eq
    intro i _
    rw [hword, BitVec.getLsbD_ushiftRight, BitVec.getLsbD_xor, BitVec.getLsbD_setWidth,
      BitVec.getLsbD_of_ge byte.toBitVec (8 + i) (by omega), BitVec.getLsbD_ushiftRight,
      Bool.and_false, Bool.xor_false]
  have hindex : ((checksum ^^^ byte.toUInt32).toUInt8.toUInt32).toBitVec =
      (word.setWidth 8).setWidth 32 := by
    rw [hword]
    rfl
  rw [crcByte, ← hword, ← low_xor_high word, crcShifts_xor,
    crcShifts_eq_ushiftRight hlow, hback, hhigh, step, UInt32.toBitVec_xor, crcTable,
    toBitVec_tableRemainder, hindex]
  rfl

theorem toBitVec_foldl_step (bytes : Bytes) (checksum : UInt32) :
    (bytes.foldl step checksum).toBitVec =
      crcBytes polynomial checksum.toBitVec (bytes.map UInt8.toBitVec) := by
  induction bytes generalizing checksum with
  | nil => rfl
  | cons byte rest ih => rw [List.foldl_cons, ih, toBitVec_step]; rfl

/-- A checksum of two parts is the checksum of the whole. -/
theorem calculate_append (left right : Bytes) (previous : UInt32) :
    calculate (left ++ right) previous = calculate right (calculate left previous) := by
  have hcancel (a : UInt32) : a ^^^ 0xFFFFFFFF ^^^ 0xFFFFFFFF = a := by
    rw [UInt32.xor_assoc, UInt32.xor_self, UInt32.xor_zero]
  rw [calculate, calculate, calculate, List.foldl_append, hcancel]

/-- A change within four neighbours changes the checksum. -/
theorem calculate_ne {before left right after : Bytes} {previous : UInt32}
    (hlength : left.length = right.length) (hwidth : left.length ≤ 4) (hne : left ≠ right) :
    calculate (before ++ left ++ after) previous ≠ calculate (before ++ right ++ after) previous := by
  intro h
  have hfold := congrArg (fun checksum => (checksum ^^^ 0xFFFFFFFF).toBitVec) h
  have hcancel (a : UInt32) : a ^^^ 0xFFFFFFFF ^^^ 0xFFFFFFFF = a := by
    rw [UInt32.xor_assoc, UInt32.xor_self, UInt32.xor_zero]
  simp only [calculate, hcancel, toBitVec_foldl_step, List.map_append] at hfold
  refine crcBytes_ne polynomial_top ?_ ?_ ?_ hfold
  · rw [List.length_map, List.length_map, hlength]
  · rw [List.length_map]
    omega
  · intro hmap
    exact hne (List.map_injective_iff.mpr (fun a b hab => UInt8.toBitVec_inj.mp hab) hmap)

/-- The parts of a byte string before, in and behind four neighbours. -/
theorem split_window (bytes : Bytes) (first : ℕ) :
    bytes = bytes.take first ++ (bytes.drop first).take 4 ++ bytes.drop (first + 4) := by
  rw [List.append_assoc, ← List.drop_drop, List.take_append_drop, List.take_append_drop]

/-- Byte strings that differ in four neighbours only have different checksums. -/
theorem calculate_ne_of_window {bytes bytes' : Bytes} {previous : UInt32} (first : ℕ)
    (hlength : bytes'.length = bytes.length) (hne : bytes' ≠ bytes)
    (hwindow : ∀ i, bytes'[i]? ≠ bytes[i]? → first ≤ i ∧ i < first + 4) :
    calculate bytes' previous ≠ calculate bytes previous := by
  have hbefore : bytes'.take first = bytes.take first := by
    apply List.ext_getElem?
    intro i
    rw [List.getElem?_take, List.getElem?_take]
    by_cases hi : i < first
    · rw [if_pos hi, if_pos hi]
      by_contra hdiff
      have := hwindow i hdiff
      omega
    · rw [if_neg hi, if_neg hi]
  have hafter : bytes'.drop (first + 4) = bytes.drop (first + 4) := by
    apply List.ext_getElem?
    intro i
    rw [List.getElem?_drop, List.getElem?_drop]
    by_contra hdiff
    have := hwindow _ hdiff
    omega
  have hmiddle : (bytes'.drop first).take 4 ≠ (bytes.drop first).take 4 := by
    intro hmiddle
    apply hne
    rw [split_window bytes' first, hbefore, hmiddle, hafter, ← split_window]
  rw [split_window bytes' first, split_window bytes first, hbefore, hafter]
  apply calculate_ne _ _ hmiddle
  · simp [hlength]
  · exact List.length_take_le _ _

/-! ## Bytes that hold their own checksum -/

/-- The bytes with zeros in the checksum's place. -/
def zeroed (checksumOffset : ℕ) (bytes : Bytes) : Bytes :=
  bytes.take checksumOffset ++ [0, 0, 0, 0] ++ bytes.drop (checksumOffset + 4)

theorem calculateZeroed_eq (checksumOffset : ℕ) (bytes : Bytes) :
    calculateZeroed checksumOffset bytes = calculate (zeroed checksumOffset bytes) 0 := by
  rw [calculateZeroed, zeroed, calculate_append, calculate_append]

theorem getElem?_zeroed {checksumOffset : ℕ} {bytes : Bytes}
    (hlength : checksumOffset + 4 ≤ bytes.length) (i : ℕ) :
    (zeroed checksumOffset bytes)[i]? =
      if checksumOffset ≤ i ∧ i < checksumOffset + 4 then some 0 else bytes[i]? := by
  have htake : (bytes.take checksumOffset).length = checksumOffset :=
    List.length_take_of_le (by omega)
  have hslot : (bytes.take checksumOffset ++ [0, 0, 0, 0]).length = checksumOffset + 4 := by
    rw [List.length_append, htake]
    rfl
  rw [zeroed]
  by_cases hi : i < checksumOffset + 4
  · rw [List.getElem?_append_left (hslot ▸ hi)]
    by_cases hlow : i < checksumOffset
    · rw [List.getElem?_append_left (htake.symm ▸ hlow), List.getElem?_take, if_pos hlow,
        if_neg (by omega)]
    · rw [List.getElem?_append_right (by omega), htake, if_pos (by omega)]
      obtain ⟨k, rfl⟩ := Nat.exists_eq_add_of_le (not_lt.mp hlow)
      rw [Nat.add_sub_cancel_left]
      have hzeros : ([0, 0, 0, 0] : Bytes) = List.replicate 4 0 := rfl
      rw [hzeros, List.getElem?_replicate, if_pos (by omega)]
  · rw [List.getElem?_append_right (by omega), hslot, List.getElem?_drop, if_neg (by omega),
      Nat.add_sub_cancel' (not_lt.mp hi)]

theorem length_zeroed {checksumOffset : ℕ} {bytes : Bytes}
    (hlength : checksumOffset + 4 ≤ bytes.length) :
    (zeroed checksumOffset bytes).length = bytes.length := by
  simp only [zeroed, List.length_append, List.length_take, List.length_drop, List.length_cons,
    List.length_nil]
  omega

/-- The four bytes at an offset are the checksum of the others. -/
structure IsSealed (checksumOffset : ℕ) (bytes : Bytes) : Prop where
  length_le : checksumOffset + 4 ≤ bytes.length
  checksum : (bytes.drop checksumOffset).take 4 =
    appendU32 (calculateZeroed checksumOffset bytes)

/-- Bytes whose checksum was stored are sealed. -/
theorem isSealed_append {before after : Bytes} {checksumOffset : ℕ} {checksum : UInt32}
    (hbefore : before.length = checksumOffset)
    (hchecksum : checksum =
      calculateZeroed checksumOffset (before ++ appendU32 checksum ++ after)) :
    IsSealed checksumOffset (before ++ appendU32 checksum ++ after) := by
  refine ⟨?_, ?_⟩
  · rw [List.length_append, List.length_append, length_appendU32, hbefore]
    omega
  · rw [← hchecksum, ← hbefore, List.append_assoc, List.drop_left]
    exact List.take_left' (length_appendU32 checksum)

/-- A change of some bytes within four neighbours, none or all of which hold the checksum. -/
structure IsBurst (checksumOffset : ℕ) (bytes bytes' : Bytes) : Prop where
  length_eq : bytes'.length = bytes.length
  ne : bytes' ≠ bytes
  window : ∃ first, (first + 4 ≤ checksumOffset ∨ first = checksumOffset ∨
    checksumOffset + 4 ≤ first) ∧ ∀ i, bytes'[i]? ≠ bytes[i]? → first ≤ i ∧ i < first + 4

/-- No burst leads from sealed bytes to sealed bytes. -/
theorem IsSealed.not_isSealed {checksumOffset : ℕ} {bytes bytes' : Bytes}
    (h : IsSealed checksumOffset bytes) (hburst : IsBurst checksumOffset bytes bytes') :
    ¬ IsSealed checksumOffset bytes' := by
  intro h'
  obtain ⟨first, hfirst, hwindow⟩ := hburst.window
  have hzeroed (i : ℕ) (hdiff : (zeroed checksumOffset bytes')[i]? ≠
      (zeroed checksumOffset bytes)[i]?) :
      bytes'[i]? ≠ bytes[i]? ∧ ¬ (checksumOffset ≤ i ∧ i < checksumOffset + 4) := by
    rw [getElem?_zeroed h'.length_le, getElem?_zeroed h.length_le] at hdiff
    by_cases hslot : checksumOffset ≤ i ∧ i < checksumOffset + 4
    · rw [if_pos hslot, if_pos hslot] at hdiff
      exact absurd rfl hdiff
    · rw [if_neg hslot, if_neg hslot] at hdiff
      exact ⟨hdiff, hslot⟩
  have hslots (i : ℕ) (hi : i < 4) (hequal : bytes'[checksumOffset + i]? =
      bytes[checksumOffset + i]?) : ((bytes'.drop checksumOffset).take 4)[i]? =
        ((bytes.drop checksumOffset).take 4)[i]? := by
    rw [List.getElem?_take, List.getElem?_take, if_pos hi, if_pos hi, List.getElem?_drop,
      List.getElem?_drop, hequal]
  by_cases hinside : first = checksumOffset
  · -- The other bytes are the same, and so are the checksums that they give.
    have hsame : zeroed checksumOffset bytes' = zeroed checksumOffset bytes := by
      apply List.ext_getElem?
      intro i
      by_contra hdiff
      obtain ⟨hbyte, hslot⟩ := hzeroed i hdiff
      have := hwindow i hbyte
      omega
    have hslot : (bytes'.drop checksumOffset).take 4 = (bytes.drop checksumOffset).take 4 := by
      rw [h.checksum, h'.checksum, calculateZeroed_eq, calculateZeroed_eq, hsame]
    apply hburst.ne
    apply List.ext_getElem?
    intro i
    by_contra hdiff
    obtain ⟨hle, hlt⟩ := hwindow i hdiff
    obtain ⟨k, rfl⟩ := Nat.exists_eq_add_of_le (hinside ▸ hle)
    have hk := congrArg (fun slot => slot[k]?) hslot
    simp only [List.getElem?_take, List.getElem?_drop, if_pos (show k < 4 by omega)] at hk
    exact hdiff hk
  · -- The stored checksum is the same, but the bytes give another one.
    have hslot : (bytes'.drop checksumOffset).take 4 = (bytes.drop checksumOffset).take 4 := by
      apply List.ext_getElem?
      intro i
      by_cases hi : i < 4
      · apply hslots i hi
        by_contra hdiff
        have := hwindow _ hdiff
        omega
      · rw [List.getElem?_take, List.getElem?_take, if_neg hi, if_neg hi]
    rw [h.checksum, h'.checksum, calculateZeroed_eq, calculateZeroed_eq] at hslot
    have hequal := congrArg wordU32 hslot
    rw [wordU32_appendU32, wordU32_appendU32] at hequal
    refine calculate_ne_of_window first ?_ ?_ ?_ hequal
    · rw [length_zeroed h.length_le, length_zeroed h'.length_le, hburst.length_eq]
    · intro hsame
      apply hburst.ne
      apply List.ext_getElem?
      intro i
      by_contra hdiff
      have hi := hwindow i hdiff
      have hbyte := congrArg (fun list => list[i]?) hsame
      simp only [getElem?_zeroed h'.length_le, getElem?_zeroed h.length_le] at hbyte
      rw [if_neg (by omega), if_neg (by omega)] at hbyte
      exact hdiff hbyte
    · intro i hdiff
      exact hwindow i (hzeroed i hdiff).1

end CRC32C

end GiveMePi.Checkpoint
