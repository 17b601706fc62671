import Mathlib.Algebra.Order.Ring.Nat
import Mathlib.Data.BitVec
import Mathlib.Tactic.Common

/-! # Cyclic redundancy registers

A register of `w` bits that takes its input least significant bit first. If the polynomial has its
top bit, that is a constant term in the reflected order, no shift loses information: what a few bytes
did to the register can be undone, and bytes that fit into the register can be read off from it. -/

namespace GiveMePi.Library

variable {w : ℕ} {poly : BitVec w}

/-- One shift of the register. -/
def crcShift (poly register : BitVec w) : BitVec w :=
  if register.getLsbD 0 then (register >>> 1) ^^^ poly else register >>> 1

def crcShifts (poly : BitVec w) : ℕ → BitVec w → BitVec w
  | 0, register => register
  | n + 1, register => crcShifts poly n (crcShift poly register)

theorem crcShift_xor (a b : BitVec w) :
    crcShift poly (a ^^^ b) = crcShift poly a ^^^ crcShift poly b := by
  rw [crcShift, crcShift, crcShift, BitVec.getLsbD_xor, BitVec.ushiftRight_xor_distrib]
  have hswap : (a >>> 1) ^^^ poly ^^^ ((b >>> 1) ^^^ poly) = (a >>> 1) ^^^ (b >>> 1) := by
    rw [BitVec.xor_comm (b >>> 1), ← BitVec.xor_assoc, BitVec.xor_assoc (a >>> 1), BitVec.xor_self,
      BitVec.xor_zero]
  cases a.getLsbD 0 with
  | false =>
      cases b.getLsbD 0 with
      | false => rfl
      | true => exact BitVec.xor_assoc _ _ _
  | true =>
      cases b.getLsbD 0 with
      | false =>
          change (a >>> 1) ^^^ (b >>> 1) ^^^ poly = (a >>> 1) ^^^ poly ^^^ (b >>> 1)
          rw [BitVec.xor_assoc, BitVec.xor_comm (b >>> 1), ← BitVec.xor_assoc]
      | true => exact hswap.symm

theorem crcShifts_xor (n : ℕ) (a b : BitVec w) :
    crcShifts poly n (a ^^^ b) = crcShifts poly n a ^^^ crcShifts poly n b := by
  induction n generalizing a b with
  | zero => rfl
  | succ n ih => rw [crcShifts, crcShift_xor, ih, crcShifts, crcShifts]

theorem crcShifts_add (m n : ℕ) (register : BitVec w) :
    crcShifts poly (m + n) register = crcShifts poly n (crcShifts poly m register) := by
  induction m generalizing register with
  | zero => rw [Nat.zero_add, crcShifts]
  | succ m ih => rw [Nat.succ_add, crcShifts, ih, crcShifts]

/-! ## No information is lost -/

theorem xor_eq_zero_iff {a b : BitVec w} : a ^^^ b = 0#w ↔ a = b := by
  constructor
  · intro h
    have hxor := congrArg (fun c => c ^^^ b) h
    simpa [BitVec.xor_assoc] using hxor
  · intro h
    rw [h, BitVec.xor_self]

/-- Only the empty register shifts to the empty register. -/
theorem crcShift_eq_zero (hpoly : poly.getLsbD (w - 1) = true) {register : BitVec w}
    (h : crcShift poly register = 0#w) : register = 0#w := by
  have hbit (i : ℕ) : (crcShift poly register).getLsbD i = false := by
    rw [h, BitVec.getLsbD_zero]
  rw [crcShift] at hbit
  split at hbit
  · -- The top bit would be that of the polynomial.
    exfalso
    have htop := hbit (w - 1)
    have hwidth : 0 < w := by
      by_contra hzero
      obtain rfl : w = 0 := by omega
      simp at hpoly
    rw [BitVec.getLsbD_xor, hpoly, BitVec.getLsbD_ushiftRight,
      BitVec.getLsbD_of_ge register (1 + (w - 1)) (by omega)] at htop
    exact absurd htop (by decide)
  · next hlow =>
      apply BitVec.eq_of_getLsbD_eq
      intro i _
      rw [BitVec.getLsbD_zero]
      cases i with
      | zero => simpa using hlow
      | succ i =>
          have hi := hbit i
          rwa [BitVec.getLsbD_ushiftRight, Nat.add_comm] at hi

theorem crcShifts_injective (hpoly : poly.getLsbD (w - 1) = true) (n : ℕ) :
    Function.Injective (crcShifts poly n) := by
  induction n with
  | zero => exact fun a b h => h
  | succ n ih =>
      intro a b h
      have hshift := ih h
      rw [← xor_eq_zero_iff, ← crcShift_xor] at hshift
      exact xor_eq_zero_iff.mp (crcShift_eq_zero hpoly hshift)

/-! ## Bytes -/

/-- A register whose lowest bits are clear only moves down. -/
theorem crcShifts_eq_ushiftRight {n : ℕ} {register : BitVec w}
    (h : ∀ i < n, register.getLsbD i = false) : crcShifts poly n register = register >>> n := by
  induction n generalizing register with
  | zero => rfl
  | succ n ih =>
      have hlow := h 0 (Nat.succ_pos n)
      have hrest : ∀ i < n, (register >>> 1).getLsbD i = false := by
        intro i hi
        rw [BitVec.getLsbD_ushiftRight, Nat.add_comm]
        exact h (i + 1) (by omega)
      rw [crcShifts, crcShift, hlow, if_neg (by decide), ih hrest, ← BitVec.shiftRight_add,
        Nat.add_comm]

/-- A byte enters the register at its low end. -/
def crcByte (poly register : BitVec w) (byte : BitVec 8) : BitVec w :=
  crcShifts poly 8 (register ^^^ byte.setWidth w)

def crcBytes (poly register : BitVec w) (bytes : List (BitVec 8)) : BitVec w :=
  bytes.foldl (crcByte poly) register

/-- The bytes as one word, the first byte lowest. -/
def crcWord (w : ℕ) : List (BitVec 8) → BitVec w
  | [] => 0#w
  | byte :: rest => byte.setWidth w ^^^ (crcWord w rest <<< 8)

/-- A word of few bytes has few bits. -/
theorem getLsbD_crcWord {bytes : List (BitVec 8)} {i : ℕ} (h : 8 * bytes.length ≤ i) :
    (crcWord w bytes).getLsbD i = false := by
  induction bytes generalizing i with
  | nil => rw [crcWord, BitVec.getLsbD_zero]
  | cons byte rest ih =>
      rw [List.length_cons] at h
      have hrest := ih (i := i - 8) (by omega)
      have hbyte : (byte.setWidth w).getLsbD i = false := by
        rw [BitVec.getLsbD_setWidth, BitVec.getLsbD_of_ge byte i (by omega), Bool.and_false]
      rw [crcWord, BitVec.getLsbD_xor, hbyte, BitVec.getLsbD_shiftLeft, hrest]
      simp

/-- Bytes that fit into the register enter it as one word. -/
theorem crcBytes_eq {register : BitVec w} {bytes : List (BitVec 8)} (h : 8 * bytes.length ≤ w) :
    crcBytes poly register bytes =
      crcShifts poly (8 * bytes.length) (register ^^^ crcWord w bytes) := by
  induction bytes generalizing register with
  | nil => rw [crcWord, BitVec.xor_zero, crcBytes, List.foldl_nil, List.length_nil, Nat.mul_zero,
      crcShifts]
  | cons byte rest ih =>
      rw [List.length_cons] at h
      have hlow : ∀ i < 8, (crcWord w rest <<< 8).getLsbD i = false := by
        intro i hi
        simp [BitVec.getLsbD_shiftLeft, hi]
      have hmove : (crcWord w rest <<< 8) >>> 8 = crcWord w rest := by
        apply BitVec.eq_of_getLsbD_eq
        intro i hi
        rw [BitVec.getLsbD_ushiftRight, BitVec.getLsbD_shiftLeft]
        by_cases hfit : 8 + i < w
        · simp [hfit]
        · have hclear : (crcWord w rest).getLsbD i = false := getLsbD_crcWord (by omega)
          simp [hfit, hclear]
      have hword : crcShifts poly 8 (register ^^^ crcWord w (byte :: rest)) =
          crcByte poly register byte ^^^ crcWord w rest := by
        rw [crcWord, ← BitVec.xor_assoc, crcShifts_xor, crcShifts_eq_ushiftRight hlow, hmove,
          crcByte]
      have hstep : crcBytes poly register (byte :: rest) =
          crcBytes poly (crcByte poly register byte) rest := rfl
      rw [hstep, ih (by omega), List.length_cons, Nat.mul_succ, Nat.add_comm, crcShifts_add, hword]

theorem crcWord_injective {left right : List (BitVec 8)} (hlength : left.length = right.length)
    (hwidth : 8 * left.length ≤ w) (h : crcWord w left = crcWord w right) : left = right := by
  induction left generalizing right with
  | nil => exact (List.length_eq_zero_iff.mp hlength.symm).symm
  | cons byte rest ih =>
      obtain ⟨byte', rest', rfl⟩ := List.exists_cons_of_length_eq_add_one hlength.symm
      rw [List.length_cons] at hwidth
      rw [List.length_cons, List.length_cons, Nat.add_right_cancel_iff] at hlength
      have hbit (i : ℕ) := congrArg (fun word => word.getLsbD i) h
      simp only [crcWord, BitVec.getLsbD_xor, BitVec.getLsbD_setWidth,
        BitVec.getLsbD_shiftLeft] at hbit
      have hbyte : byte = byte' := by
        apply BitVec.eq_of_getLsbD_eq
        intro i hi
        simpa [hi, show i < w by omega] using hbit i
      have hrest : crcWord w rest = crcWord w rest' := by
        apply BitVec.eq_of_getLsbD_eq
        intro i _
        by_cases hfit : i + 8 < w
        · have hi := hbit (i + 8)
          rw [hbyte] at hi
          simpa [hfit] using hi
        · rw [getLsbD_crcWord (by omega), getLsbD_crcWord (by omega)]
      rw [hbyte, ih hlength (by omega) hrest]

/-! ## Bursts -/

/-- The register can be read back through any bytes. -/
theorem crcBytes_injective (hpoly : poly.getLsbD (w - 1) = true) (bytes : List (BitVec 8)) :
    Function.Injective fun register => crcBytes poly register bytes := by
  induction bytes with
  | nil => exact fun a b h => h
  | cons byte rest ih =>
      intro a b h
      have hbyte : crcByte poly a byte = crcByte poly b byte := ih h
      have hxor := crcShifts_injective hpoly 8 hbyte
      simpa using congrArg (fun c => c ^^^ byte.setWidth w) hxor

/-- Two byte strings that differ only in as many bytes as the register has give different
registers. -/
theorem crcBytes_ne (hpoly : poly.getLsbD (w - 1) = true) {register : BitVec w}
    {before left right after : List (BitVec 8)} (hlength : left.length = right.length)
    (hwidth : 8 * left.length ≤ w) (hne : left ≠ right) :
    crcBytes poly register (before ++ left ++ after) ≠
      crcBytes poly register (before ++ right ++ after) := by
  intro h
  simp only [crcBytes, List.foldl_append] at h
  have hmiddle := crcBytes_injective hpoly after h
  have hword : crcShifts poly (8 * left.length)
      (crcBytes poly register before ^^^ crcWord w left) =
        crcShifts poly (8 * left.length) (crcBytes poly register before ^^^ crcWord w right) := by
    rw [← crcBytes_eq hwidth, hlength, ← crcBytes_eq (hlength ▸ hwidth)]
    exact hmiddle
  have hxor := crcShifts_injective hpoly _ hword
  rw [BitVec.xor_right_inj] at hxor
  exact hne (crcWord_injective hlength hwidth hxor)

end GiveMePi.Library
