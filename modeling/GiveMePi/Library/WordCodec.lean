import Mathlib.Algebra.Order.Ring.Nat
import Mathlib.Data.List.Induction
import Mathlib.Tactic.Common
import Mathlib.Tactic.Ring

/-! # Numbers as bytes

Numbers written in base 256, most significant byte first, with a fixed number of bytes. -/

namespace GiveMePi.Library

/-- The number whose digits in base 256 are the bytes, continuing a number already read. -/
def accumulateBytes (value : ℕ) (bytes : List UInt8) : ℕ :=
  bytes.foldl (fun value byte => 256 * value + byte.toNat) value

def ofBytes (bytes : List UInt8) : ℕ :=
  accumulateBytes 0 bytes

/-- The lowest `width` digits in base 256. -/
def toBytes : ℕ → ℕ → List UInt8
  | 0, _ => []
  | width + 1, n => toBytes width (n / 256) ++ [UInt8.ofNat n]

@[simp] theorem ofBytes_nil : ofBytes [] = 0 := rfl

@[simp] theorem length_toBytes (width n : ℕ) : (toBytes width n).length = width := by
  induction width generalizing n with
  | zero => rfl
  | succ width ih => simp [toBytes, ih]

theorem accumulateBytes_eq (value : ℕ) (bytes : List UInt8) :
    accumulateBytes value bytes = value * 256 ^ bytes.length + ofBytes bytes := by
  induction bytes generalizing value with
  | nil => simp [accumulateBytes]
  | cons byte rest ih =>
      have hstep (value : ℕ) : accumulateBytes value (byte :: rest) =
          accumulateBytes (256 * value + byte.toNat) rest := rfl
      have hzero : ofBytes (byte :: rest) = accumulateBytes (256 * 0 + byte.toNat) rest := rfl
      rw [hstep, ih, hzero, ih, List.length_cons, pow_succ]
      ring

theorem ofBytes_append (left right : List UInt8) :
    ofBytes (left ++ right) = ofBytes left * 256 ^ right.length + ofBytes right := by
  rw [ofBytes, accumulateBytes, List.foldl_append]
  exact accumulateBytes_eq _ _

theorem ofBytes_concat (bytes : List UInt8) (byte : UInt8) :
    ofBytes (bytes ++ [byte]) = 256 * ofBytes bytes + byte.toNat := by
  rw [ofBytes_append, List.length_singleton, pow_one, mul_comm]
  simp [ofBytes, accumulateBytes]

theorem ofBytes_lt (bytes : List UInt8) : ofBytes bytes < 256 ^ bytes.length := by
  induction bytes using List.reverseRecOn with
  | nil => simp
  | append_singleton bytes byte ih =>
      have hbyte := byte.toNat_lt
      rw [ofBytes_concat, List.length_append, List.length_singleton, pow_succ]
      omega

/-- Reading what was written gives the number back, if it fits. -/
theorem ofBytes_toBytes {width n : ℕ} (h : n < 256 ^ width) : ofBytes (toBytes width n) = n := by
  induction width generalizing n with
  | zero =>
      rw [pow_zero] at h
      rw [toBytes, ofBytes_nil]
      omega
  | succ width ih =>
      have hhigh : n / 256 < 256 ^ width := by
        rw [pow_succ] at h
        omega
      rw [toBytes, ofBytes_concat, ih hhigh]
      simp
      omega

/-- Bytes are the digits of the number they stand for. -/
theorem toBytes_ofBytes (bytes : List UInt8) : toBytes bytes.length (ofBytes bytes) = bytes := by
  induction bytes using List.reverseRecOn with
  | nil => rfl
  | append_singleton bytes byte ih =>
      have hbyte := byte.toNat_lt
      have hhigh : (256 * ofBytes bytes + byte.toNat) / 256 = ofBytes bytes := by omega
      have hlow : UInt8.ofNat (256 * ofBytes bytes + byte.toNat) = byte := by
        apply UInt8.toNat_inj.mp
        simp
      rw [List.length_append, List.length_singleton, ofBytes_concat, toBytes, hhigh, hlow, ih]

/-- A number with a nonzero first byte needs all its bytes. -/
theorem pow_le_ofBytes {byte : UInt8} {rest : List UInt8} (h : byte ≠ 0) :
    256 ^ rest.length ≤ ofBytes (byte :: rest) := by
  have hbyte : 0 < byte.toNat := Nat.pos_of_ne_zero fun hzero => h (UInt8.toNat_inj.mp hzero)
  have hsplit : ofBytes (byte :: rest) = byte.toNat * 256 ^ rest.length + ofBytes rest := by
    rw [← List.singleton_append, ofBytes_append]
    simp [ofBytes, accumulateBytes]
  rw [hsplit]
  calc 256 ^ rest.length = 1 * 256 ^ rest.length := (one_mul _).symm
    _ ≤ byte.toNat * 256 ^ rest.length := Nat.mul_le_mul_right _ hbyte
    _ ≤ byte.toNat * 256 ^ rest.length + ofBytes rest := Nat.le_add_right _ _

/-- A number that needs all its bytes is written with a nonzero first byte. -/
theorem head_toBytes_ne_zero {width n : ℕ} (hlow : 256 ^ width ≤ n) (hhigh : n < 256 ^ (width + 1)) :
    ∃ byte rest, toBytes (width + 1) n = byte :: rest ∧ byte ≠ 0 := by
  obtain ⟨byte, rest, hbytes⟩ := List.exists_cons_of_length_eq_add_one (length_toBytes (width + 1) n)
  refine ⟨byte, rest, hbytes, ?_⟩
  rintro rfl
  have hlength : rest.length = width := by
    have := length_toBytes (width + 1) n
    rw [hbytes, List.length_cons] at this
    omega
  have hvalue := ofBytes_toBytes hhigh
  rw [hbytes, ← List.singleton_append, ofBytes_append] at hvalue
  have hzero : ofBytes [0] = 0 := rfl
  have hrest := ofBytes_lt rest
  rw [hzero, zero_mul, zero_add] at hvalue
  rw [hlength] at hrest
  omega

end GiveMePi.Library
