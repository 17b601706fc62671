import GiveMePi.Checkpoint.CheckpointFilenames
import GiveMePi.Library.TextSearch

/-! # Texts of numbers

What the standard library reads from a text, in the "C" locale and with 64-bit `long`. -/

namespace GiveMePi

open Library

/-- A text in the message of an exception. -/
def spelled (text : Bytes) : String :=
  String.ofList (text.map fun byte => Char.ofNat byte.toNat)

/-- `text.substr(start, count)` -/
def substr (text : Bytes) (start : ℕ) (count : Option ℕ) : Except Error Bytes :=
  match substr? text start count with
  | some piece => pure piece
  | none => throw (.outOfRange "basic_string::substr")

/-- `std::isspace` -/
def IsBlank (byte : UInt8) : Prop :=
  byte = 32 ∨ 9 ≤ byte.toNat ∧ byte.toNat ≤ 13

instance (byte : UInt8) : Decidable (IsBlank byte) :=
  inferInstanceAs (Decidable (_ ∨ _))

/-- The number a text begins with, behind blanks and a sign. -/
def leadingNumber (text : Bytes) : Option ℤ :=
  let text := text.dropWhile fun byte => IsBlank byte
  let unsigned := if text.head? = some 43 ∨ text.head? = some 45 then text.tail else text
  let digits := unsigned.takeWhile fun byte => IsDigit byte
  let number : ℕ := digits.foldl (fun number digit => 10 * number + (digit.toNat - 48)) 0
  if digits = [] then none
  else some (if text.head? = some 45 then -number else number)

/-- `std::stoull` and `std::stoul`, the same but for the name in the text of their exceptions. -/
def parseWord (name : String) (text : Bytes) : Except Error UInt64 :=
  match leadingNumber text with
  | none => throw (.invalidArgument name)
  | some number => do
      throwIf (2 ^ 64 ≤ number.natAbs) (.outOfRange name)
      pure (.ofInt number)

def stoull : Bytes → Except Error UInt64 :=
  parseWord "stoull"

def stoul : Bytes → Except Error UInt64 :=
  parseWord "stoul"

def stoi (text : Bytes) : Except Error ℤ :=
  match leadingNumber text with
  | none => throw (.invalidArgument "stoi")
  | some number => do
      throwIf (number < -2 ^ 31 ∨ 2 ^ 31 ≤ number) (.outOfRange "stoi")
      pure number

/-- The lines that `std::getline` reads. -/
def textLines (text : Bytes) : List Bytes :=
  let pieces := text.splitOn 10
  if pieces.getLast? = some [] then pieces.dropLast else pieces

/-! ## Numbers that were written -/

theorem substr_eq {text : Bytes} {start : ℕ} (count : Option ℕ) (h : start ≤ text.length) :
    substr text start count =
      .ok (count.elim (text.drop start) fun count => (text.drop start).take count) := by
  simp [substr, substr?, Nat.not_lt.mpr h]

theorem endsNumber_cons {byte : UInt8} {rest : Bytes} (h : ¬ IsDigit byte) :
    EndsNumber (byte :: rest) := by
  simpa [EndsNumber] using h

theorem foldl_decimal (n : ℕ) :
    (decimal n).foldl (fun number digit => 10 * number + (digit.toNat - 48)) 0 = n := by
  rw [decimal, List.foldl_map]
  conv_rhs => rw [← Nat.ofDigitChars_ten_toDigits (n := n), Nat.ofDigitChars_eq_foldl]
  apply List.foldl_ext
  intro number c hc
  have hdigit := toNat_toUInt8_of_isDigit
    (Nat.isDigit_of_mem_toDigits (by decide) (by decide) hc)
  rw [hdigit.1]
  rfl

theorem takeWhile_decimal (n : ℕ) {rest : Bytes} (hrest : EndsNumber rest) :
    (decimal n ++ rest).takeWhile (fun byte => IsDigit byte) = decimal n := by
  have hdigits : ∀ byte ∈ decimal n, decide (IsDigit byte) = true :=
    fun byte hbyte => decide_eq_true (isDigit_of_mem_decimal hbyte)
  rw [List.takeWhile_append_of_pos hdigits]
  cases rest with
  | nil => simp
  | cons byte rest =>
      have hbyte : ¬ IsDigit byte := hrest byte rfl
      simp [hbyte]

theorem IsDigit.not_isBlank {byte : UInt8} (h : IsDigit byte) : ¬ IsBlank byte := by
  rintro (rfl | hblank)
  · exact absurd h (by decide)
  · rw [IsDigit] at h
    omega

/-- A number is read back, whatever stands behind its digits. -/
theorem leadingNumber_decimal (n : ℕ) {rest : Bytes} (hrest : EndsNumber rest) :
    leadingNumber (decimal n ++ rest) = some (n : ℤ) := by
  obtain ⟨digit, digits, hdecimal⟩ := List.exists_cons_of_ne_nil (decimal_ne_nil n)
  have hdigit : IsDigit digit := isDigit_of_mem_decimal (n := n) (by simp [hdecimal])
  have hsigned : ¬ (digit = 43 ∨ digit = 45) := by
    rintro (rfl | rfl) <;> exact absurd hdigit (by decide)
  have hfront : (decimal n ++ rest).dropWhile (fun byte => IsBlank byte) = decimal n ++ rest := by
    rw [hdecimal, List.cons_append, List.dropWhile_cons_of_neg]
    simpa using hdigit.not_isBlank
  have hhead : (decimal n ++ rest).head? = some digit := by simp [hdecimal]
  rw [not_or] at hsigned
  simp only [leadingNumber, hfront, hhead, takeWhile_decimal n hrest, foldl_decimal,
    decimal_ne_nil, Option.some.injEq, hsigned.1, hsigned.2, or_self, ↓reduceIte]

theorem stoull_decimal (n : UInt64) {rest : Bytes} (hrest : EndsNumber rest) :
    stoull (decimal n.toNat ++ rest) = .ok n := by
  have hlt := n.toNat_lt
  have hvalue : UInt64.ofInt n.toNat = n := by
    apply UInt64.toNat_inj.mp
    rw [UInt64.ofInt, UInt64.toNat_ofNat']
    omega
  rw [stoull, parseWord, leadingNumber_decimal _ hrest]
  simp [hvalue, hlt]

theorem stoi_decimal (n : ℕ) {rest : Bytes} (hrest : EndsNumber rest) {number : ℤ} :
    stoi (decimal n ++ rest) = .ok number ↔ n < 2 ^ 31 ∧ number = n := by
  simp only [stoi, leadingNumber_decimal n hrest, bind_eq_ok, throwIf_eq_ok, exists_const,
    pure_eq_ok, Except.ok.injEq]
  constructor
  · rintro ⟨hlimit, rfl⟩
    exact ⟨by omega, rfl⟩
  · rintro ⟨hlt, rfl⟩
    exact ⟨by omega, rfl⟩

/-- Lines that end are read as they are. -/
theorem textLines_flatten {lines : List Bytes} (h : ∀ line ∈ lines, 10 ∉ line) :
    textLines (lines.map (· ++ [10])).flatten = lines := by
  have hpieces : (lines.map (· ++ [10])).flatten.splitOn 10 = lines ++ [[]] := by
    induction lines with
    | nil => rfl
    | cons line lines ih =>
        rw [List.map_cons, List.flatten_cons, List.append_assoc, List.singleton_append,
          List.splitOn_append_cons_self_of_not_mem (h line (by simp)),
          ih fun line hline => h line (.tail _ hline), List.cons_append]
  simp [textLines, hpieces]

end GiveMePi
