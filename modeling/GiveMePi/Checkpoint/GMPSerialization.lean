import GiveMePi.Bigint.GMPInteger
import GiveMePi.ByteCodec
import Mathlib.Algebra.Order.Ring.Abs
import Mathlib.Data.Nat.Size

/-! # Integers as canonical signed magnitudes

Zero has an empty magnitude; any other integer has a sign and the bytes of its absolute value, most
significant first, without a leading zero. -/

namespace GiveMePi.Checkpoint

open Library

/-- The code of a sign; a file may hold any byte. -/
structure IntegerSign where
  code : UInt8
deriving DecidableEq, Repr

namespace IntegerSign

def zero : IntegerSign := ⟨0⟩

def positive : IntegerSign := ⟨1⟩

def negative : IntegerSign := ⟨2⟩

end IntegerSign

namespace GMPSerialization

/-- The bytes `mpz_export` writes: as many as the number needs. -/
def exportBytes (n : ℕ) : Bytes :=
  toBytes ((n.size + 7) / 8) n

def sign (value : ℤ) : IntegerSign :=
  if value = 0 then .zero else if value > 0 then .positive else .negative

def magnitudeSize (value : ℤ) : Except Error ℕ :=
  if value = 0 then pure 0
  else do
    let bitCount := value.natAbs.size
    throwIf (bitCount > uint64Max.toNat - 7)
      (.overflowError "Canonical GMP magnitude size overflow")
    pure ((bitCount + 7) / 8)

/-- The bytes written to a destination of the given size. -/
def exportMagnitude (value : ℤ) (destinationSize : ℕ) : Except Error Bytes := do
  let size ← magnitudeSize value
  throwIf (destinationSize ≠ size)
    (.invalidArgument "Canonical magnitude destination has the wrong size")
  if destinationSize = 0 then pure []
  else do
    let written := exportBytes value.natAbs
    throwIf (written.length ≠ destinationSize)
      (.logicError "Canonical magnitude export size mismatch")
    pure written

structure SerializedGMPInteger where
  sign : IntegerSign
  magnitude : Bytes
deriving DecidableEq, Repr

def encode (value : ℤ) : Except Error SerializedGMPInteger := do
  let size ← magnitudeSize value
  let magnitude ← exportMagnitude value size
  pure ⟨sign value, magnitude⟩

def decode (sign : IntegerSign) (magnitude : Bytes) : Except Error ℤ :=
  if sign = .zero then do
    throwIf (magnitude ≠ [])
      (.invalidArgument "Canonical zero must have an empty magnitude")
    pure 0
  else if sign = .positive ∨ sign = .negative then do
    throwIf (magnitude = [])
      (.invalidArgument "Canonical non-zero integer requires a magnitude")
    throwIf (magnitude.head? = some 0)
      (.invalidArgument "Canonical magnitude must not contain a leading zero")
    let value : ℤ := ofBytes magnitude
    pure (if sign = .negative then -value else value)
  else throw (.invalidArgument "Unknown canonical integer sign")

/-! ## The canonical form is unique -/

/-- The magnitude of an integer. -/
def magnitude (value : ℤ) : Bytes :=
  exportBytes value.natAbs

@[simp] theorem magnitude_zero : magnitude 0 = [] := rfl

theorem size_le_of_lt {n bytes : ℕ} (h : n < 256 ^ bytes) : (n.size + 7) / 8 ≤ bytes := by
  have hsize : n.size ≤ 8 * bytes := by
    rw [Nat.size_le, pow_mul]
    exact h
  omega

theorem lt_pow_exportBytes (n : ℕ) : n < 256 ^ ((n.size + 7) / 8) := by
  have hlt : n < 2 ^ n.size := Nat.lt_size_self n
  have hpow : (256 : ℕ) ^ ((n.size + 7) / 8) = 2 ^ (8 * ((n.size + 7) / 8)) := (pow_mul 2 8 _).symm
  rw [hpow]
  exact hlt.trans_le (Nat.pow_le_pow_right (by decide) (by omega))

/-- The magnitudes of the integers of GMP have less than 2 ^ 34 bytes. -/
theorem length_magnitude_lt {value : ℤ} (h : GMPInteger.Fits value) :
    (magnitude value).length < 2 ^ 34 := by
  rw [GMPInteger.Fits, GMPInteger.maximumLimbs] at h
  rw [magnitude, exportBytes, length_toBytes]
  omega

theorem ofBytes_exportBytes (n : ℕ) : ofBytes (exportBytes n) = n :=
  ofBytes_toBytes (lt_pow_exportBytes n)

/-- A positive number is exported without a leading zero. -/
theorem head_exportBytes {n : ℕ} (h : 0 < n) :
    ∃ byte rest, exportBytes n = byte :: rest ∧ byte ≠ 0 := by
  have hsize : 0 < n.size := Nat.size_pos.mpr h
  have hlow : 256 ^ ((n.size + 7) / 8 - 1) ≤ n := by
    have hpow : (256 : ℕ) ^ ((n.size + 7) / 8 - 1) = 2 ^ (8 * ((n.size + 7) / 8 - 1)) :=
      (pow_mul 2 8 _).symm
    rw [hpow]
    exact Nat.lt_size.mp (by omega)
  have hwidth : (n.size + 7) / 8 = (n.size + 7) / 8 - 1 + 1 := by omega
  rw [exportBytes, hwidth]
  exact head_toBytes_ne_zero hlow (hwidth ▸ lt_pow_exportBytes n)

/-- Bytes without a leading zero are the export of the number they stand for. -/
theorem exportBytes_ofBytes {byte : UInt8} {rest : Bytes} (h : byte ≠ 0) :
    exportBytes (ofBytes (byte :: rest)) = byte :: rest := by
  have hlow : 256 ^ rest.length ≤ ofBytes (byte :: rest) := pow_le_ofBytes h
  have hlength : ((ofBytes (byte :: rest)).size + 7) / 8 = (byte :: rest).length := by
    apply le_antisymm (size_le_of_lt (ofBytes_lt _))
    have hsize : 8 * rest.length < (ofBytes (byte :: rest)).size := by
      rw [Nat.lt_size, pow_mul]
      exact hlow
    rw [List.length_cons]
    omega
  rw [exportBytes, hlength, toBytes_ofBytes]

theorem magnitude_eq_nil_iff {value : ℤ} : magnitude value = [] ↔ value = 0 := by
  constructor
  · intro h
    by_contra hne
    obtain ⟨byte, rest, hbytes, -⟩ := head_exportBytes (Int.natAbs_pos.mpr hne)
    rw [magnitude, hbytes] at h
    cases h
  · rintro rfl
    rfl

/-- Decoding is inverse to taking sign and magnitude, in both directions. -/
theorem decode_eq_ok_iff {s : IntegerSign} {bytes : Bytes} {value : ℤ} :
    decode s bytes = .ok value ↔ s = sign value ∧ bytes = magnitude value := by
  constructor
  · intro h
    rw [decode] at h
    split at h
    · next hzero =>
        simp only [bind_eq_ok, throwIf_eq_ok, pure_eq_ok, Except.ok.injEq, not_not] at h
        obtain ⟨-, hempty, rfl⟩ := h
        exact ⟨hzero, hempty⟩
    · split at h
      · next hzero hsign =>
          simp only [bind_eq_ok, throwIf_eq_ok, pure_eq_ok, Except.ok.injEq] at h
          obtain ⟨-, hne, -, hhead, hvalue⟩ := h
          obtain ⟨byte, rest, rfl⟩ := List.exists_cons_of_ne_nil hne
          have hbyte : byte ≠ 0 := fun hbyte => hhead (by rw [hbyte]; rfl)
          have hpos : 0 < ofBytes (byte :: rest) :=
            (Nat.pow_pos (by decide)).trans_le (pow_le_ofBytes hbyte)
          rcases hsign with rfl | rfl
          · obtain rfl : (ofBytes (byte :: rest) : ℤ) = value := by
              simpa [IntegerSign.positive, IntegerSign.negative] using hvalue
            refine ⟨?_, ?_⟩
            · rw [sign, if_neg (by omega), if_pos (by omega)]
            · rw [magnitude, Int.natAbs_natCast, exportBytes_ofBytes hbyte]
          · obtain rfl : -(ofBytes (byte :: rest) : ℤ) = value := by simpa using hvalue
            refine ⟨?_, ?_⟩
            · rw [sign, if_neg (by omega), if_neg (by omega)]
            · rw [magnitude, Int.natAbs_neg, Int.natAbs_natCast, exportBytes_ofBytes hbyte]
      · simp at h
  · rintro ⟨rfl, rfl⟩
    by_cases hzero : value = 0
    · subst hzero
      rfl
    · obtain ⟨byte, rest, hbytes, hbyte⟩ := head_exportBytes (Int.natAbs_pos.mpr hzero)
      have hvalue : ofBytes (byte :: rest) = value.natAbs := by
        rw [← hbytes, ofBytes_exportBytes]
      have hhead : (byte :: rest).head? ≠ some 0 := by simpa using hbyte
      rw [magnitude, hbytes, decode, sign, if_neg hzero]
      by_cases hpos : value > 0
      · rw [if_pos hpos, if_neg (by decide), if_pos (by decide), throwIf_neg (by simp), ok_bind,
          throwIf_neg hhead, ok_bind, hvalue]
        simp only [IntegerSign.positive, IntegerSign.negative, IntegerSign.mk.injEq, pure_eq_ok,
          Except.ok.injEq]
        rw [if_neg (by decide)]
        omega
      · rw [if_neg hpos, if_neg (by decide), if_pos (by decide), throwIf_neg (by simp), ok_bind,
          throwIf_neg hhead, ok_bind, hvalue]
        simp only [if_pos, pure_eq_ok, Except.ok.injEq]
        omega

/-- The size is that of the magnitude, if the bit count does not overflow. -/
theorem magnitudeSize_eq_ok_iff {value : ℤ} {size : ℕ} :
    magnitudeSize value = .ok size ↔
      size = (magnitude value).length ∧ value.natAbs.size ≤ 2 ^ 64 - 8 := by
  rw [magnitudeSize]
  split
  · next hzero =>
      subst hzero
      simp [eq_comm]
  · simp only [bind_eq_ok, throwIf_eq_ok, pure_eq_ok, Except.ok.injEq, uint64Max_toNat, not_lt,
      gt_iff_lt, magnitude, exportBytes, length_toBytes]
    constructor
    · rintro ⟨-, hle, rfl⟩
      exact ⟨rfl, hle⟩
    · rintro ⟨rfl, hle⟩
      exact ⟨(), hle, rfl⟩

theorem exportMagnitude_eq {value : ℤ} (h : value.natAbs.size ≤ 2 ^ 64 - 8) :
    exportMagnitude value (magnitude value).length = .ok (magnitude value) := by
  rw [exportMagnitude, magnitudeSize_eq_ok_iff.mpr ⟨rfl, h⟩, ok_bind, throwIf_neg (by simp), ok_bind]
  split
  · next hlength =>
      rw [List.length_eq_zero_iff.mp hlength]
      rfl
  · simp [magnitude]

/-- Sign and magnitude, if the bit count does not overflow. -/
theorem encode_eq_ok_iff {value : ℤ} {serialized : SerializedGMPInteger} :
    encode value = .ok serialized ↔
      serialized = ⟨sign value, magnitude value⟩ ∧ value.natAbs.size ≤ 2 ^ 64 - 8 := by
  simp only [encode, bind_eq_ok, magnitudeSize_eq_ok_iff, pure_eq_ok, Except.ok.injEq]
  constructor
  · intro h
    obtain ⟨_, ⟨rfl, hle⟩, bytes, hbytes, rfl⟩ := h
    rw [exportMagnitude_eq hle, Except.ok.injEq] at hbytes
    exact ⟨by rw [hbytes], hle⟩
  · intro h
    obtain ⟨rfl, hle⟩ := h
    exact ⟨_, ⟨rfl, hle⟩, _, exportMagnitude_eq hle, rfl⟩

/-- A magnitude of few bytes is that of a number of few bits. -/
theorem size_le_of_length_le {value : ℤ} {bytes : ℕ} (h : (magnitude value).length ≤ bytes) :
    value.natAbs.size ≤ 8 * bytes := by
  rw [magnitude, exportBytes, length_toBytes] at h
  omega

end GMPSerialization

end GiveMePi.Checkpoint
