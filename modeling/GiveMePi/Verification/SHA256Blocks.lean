import GiveMePi.Verification.SHA256
import Mathlib.Tactic.IntervalCases

/-! # One block of SHA-256

The function of a block computes the compression of FIPS 180-4, with the constants of the standard. -/

namespace GiveMePi.Verification.SHA256

open Library Library.SecureHash

/-! ## Words -/

theorem toBitVec_rotr {shift : UInt32} (hpos : 0 < shift.toNat) (h : shift.toNat < 32) (x : UInt32) :
    (rotr x shift).toBitVec = x.toBitVec.rotateRight shift.toNat := by
  have hright : shift.toNat % 32 = shift.toNat := Nat.mod_eq_of_lt h
  have hleft : (4294967296 - shift.toNat) % 32 = 32 - shift.toNat := by omega
  rw [rotr, BitVec.rotateRight_def]
  simp [hright, hleft]

theorem toBitVec_smallSigma0 (x : UInt32) :
    (rotr x 7 ^^^ rotr x 18 ^^^ x >>> 3).toBitVec = smallSigma0 x.toBitVec := by
  simp (disch := decide) [toBitVec_rotr, smallSigma0]

theorem toBitVec_smallSigma1 (x : UInt32) :
    (rotr x 17 ^^^ rotr x 19 ^^^ x >>> 10).toBitVec = smallSigma1 x.toBitVec := by
  simp (disch := decide) [toBitVec_rotr, smallSigma1]

theorem toBitVec_bigSigma0 (x : UInt32) :
    (rotr x 2 ^^^ rotr x 13 ^^^ rotr x 22).toBitVec = bigSigma0 x.toBitVec := by
  simp (disch := decide) [toBitVec_rotr, bigSigma0]

theorem toBitVec_bigSigma1 (x : UInt32) :
    (rotr x 6 ^^^ rotr x 11 ^^^ rotr x 25).toBitVec = bigSigma1 x.toBitVec := by
  simp (disch := decide) [toBitVec_rotr, bigSigma1]

theorem loadBigEndian_eq (block : Vector UInt8 64) {offset : ℕ} (h : offset + 4 ≤ 64) :
    loadBigEndian block offset h = wordU32 ((block.toList.drop offset).take 4) := by
  have hbytes : (block.toList.drop offset).take 4 =
      [block[offset], block[offset + 1], block[offset + 2], block[offset + 3]] := by
    apply List.ext_getElem
    · simp
      omega
    · intro i hi hi'
      simp only [List.length_cons, List.length_nil] at hi'
      interval_cases i <;> simp
  rw [hbytes]
  apply UInt32.toBitVec_inj.mp
  simp [loadBigEndian, wordU32, BitVec.shiftLeft_or_distrib, ← BitVec.shiftLeft_add]

/-- The words of a block are those of the standard. -/
theorem toBitVec_loadBigEndian (block : Vector UInt8 64) {t : ℕ} (h : t * 4 + 4 ≤ 64) :
    (loadBigEndian block (t * 4) h).toBitVec = blockWord block.toList t := by
  have hbytes : (block.toList.drop (4 * t)).take 4 = (block.toList.drop (t * 4)).take 4 := by
    rw [mul_comm]
  rw [loadBigEndian_eq, blockWord, hbytes]
  apply BitVec.eq_of_toNat_eq
  rw [UInt32.toNat_toBitVec, toNat_wordU32, BitVec.toNat_ofNat]

/-- The table of the rounds holds the constants of the standard. -/
theorem roundConstants_eq : roundConstants.toList.map UInt32.toBitVec = constants := by
  decide +kernel

theorem toBitVec_roundConstants {t : ℕ} (h : t < 64) :
    roundConstants[t].toBitVec = constants.getD t 0 := by
  rw [← roundConstants_eq]
  simp [h]

/-! ## The schedule -/

variable {block : Vector UInt8 64}

/-- The first loop stores the words of the block. -/
theorem loadSchedule_fold (count : ℕ) (hcount : count ≤ 16) {t : ℕ} (ht : t < count) :
    ((Nat.fold count (fun index h schedule =>
        schedule.set index (loadBigEndian block (index * 4) (by omega)))
      (Vector.replicate 64 0) : Vector UInt32 64)[t]).toBitVec = blockWord block.toList t := by
  induction count with
  | zero => exact absurd ht (Nat.not_lt_zero t)
  | succ count ih =>
      rw [Nat.fold_succ]
      by_cases hlast : count = t
      · subst hlast
        rw [Vector.getElem_set_self]
        exact toBitVec_loadBigEndian block (by omega)
      · rw [Vector.getElem_set_ne _ _ hlast]
        exact ih (by omega) (by omega)

theorem toBitVec_loadSchedule {t : ℕ} (h : t < 16) (hbound : t < 64) :
    (loadSchedule block)[t].toBitVec = blockWord block.toList t :=
  loadSchedule_fold 16 le_rfl h

/-- The passes of the second loop continue the schedule, word by word. -/
theorem schedule_fold (count : ℕ) (hcount : count ≤ 48) {t : ℕ} (ht : t < count + 16) :
    ((Nat.fold count (fun index h => extendSchedule index (by omega)) (loadSchedule block))[t]).toBitVec =
      SecureHash.schedule block.toList t := by
  induction count generalizing t with
  | zero => rw [schedule_of_lt (by omega), ← toBitVec_loadSchedule (by omega) (by omega), Nat.fold_zero]
  | succ count ih =>
      rw [Nat.fold_succ, extendSchedule]
      by_cases hlast : count + 16 = t
      · subst hlast
        rw [Vector.getElem_set_self, schedule_of_le (by omega)]
        simp only [UInt32.toBitVec_add, toBitVec_smallSigma0, toBitVec_smallSigma1]
        rw [ih (by omega) (t := count + 16 - 16) (by omega), ih (by omega) (t := count + 16 - 15) (by omega),
          ih (by omega) (t := count + 16 - 7) (by omega), ih (by omega) (t := count + 16 - 2) (by omega)]
        ac_rfl
      · rw [Vector.getElem_set_ne _ _ hlast]
        exact ih (by omega) (by omega)

theorem toBitVec_schedule {t : ℕ} (h : t < 64) :
    (schedule block)[t].toBitVec = SecureHash.schedule block.toList t :=
  schedule_fold 48 le_rfl h

/-! ## The rounds -/

/-- The eight variables as words of the standard. -/
def Variables.registers (v : Variables) : Registers :=
  ⟨v.a.toBitVec, v.b.toBitVec, v.c.toBitVec, v.d.toBitVec, v.e.toBitVec, v.f.toBitVec, v.g.toBitVec,
    v.h.toBitVec⟩

def registers (state : Vector UInt32 8) : Registers :=
  (Variables.load state).registers

theorem registers_round (constant word : UInt32) (v : Variables) :
    (round constant word v).registers =
      SecureHash.round constant.toBitVec word.toBitVec v.registers := by
  simp only [round, Variables.registers, SecureHash.round, UInt32.toBitVec_add, ← toBitVec_bigSigma0,
    ← toBitVec_bigSigma1, ch, maj, UInt32.toBitVec_xor, UInt32.toBitVec_and, UInt32.toBitVec_not]

theorem registers_rounds (v : Variables) (count : ℕ) (hcount : count ≤ 64) :
    (Nat.fold count (fun index h => round roundConstants[index] (schedule block)[index]) v).registers =
      rounds block.toList v.registers count := by
  induction count with
  | zero => rfl
  | succ count ih =>
      rw [Nat.fold_succ, registers_round, ih (by omega), rounds_succ, toBitVec_roundConstants,
        toBitVec_schedule]

/-- A block changes the state as the standard says. -/
theorem registers_transform (state : Vector UInt32 8) (block : Vector UInt8 64) :
    registers (transform state block) = compress (registers state) block.toList := by
  rw [compress, registers, registers, ← registers_rounds _ 64 le_rfl]
  rfl

/-- The constructor starts from the initial hash value of the standard. -/
theorem registers_new : registers new.state = initial := by
  decide +kernel

end GiveMePi.Verification.SHA256
