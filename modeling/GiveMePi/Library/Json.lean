import Mathlib.Data.Int.Notation
import Mathlib.Data.List.Basic
import Mathlib.Tactic.Common

/-! # JSON texts

The grammar of JSON over bytes, and a scan that counts braces outside of strings: every value
leaves the count as it was. -/

namespace GiveMePi.Library.Json

/-- The elements of a list are tested one by one, not all values of their type. -/
scoped instance (priority := 1100) decidableForallMem {α : Type} {P : α → Prop} [DecidablePred P]
    (elements : List α) : Decidable (∀ a ∈ elements, P a) :=
  List.decidableBAll P elements

abbrev Text := List UInt8

/-! ## Grammar -/

def IsSpace (text : Text) : Prop :=
  ∀ byte ∈ text, byte = 32 ∨ byte = 9 ∨ byte = 10 ∨ byte = 13

def IsDigit (byte : UInt8) : Prop :=
  48 ≤ byte ∧ byte ≤ 57

instance (byte : UInt8) : Decidable (IsDigit byte) :=
  inferInstanceAs (Decidable (_ ∧ _))

def IsDigits (text : Text) : Prop :=
  text ≠ [] ∧ ∀ byte ∈ text, IsDigit byte

/-- Digits without a leading zero. -/
def IsWhole (text : Text) : Prop :=
  IsDigits text ∧ (text = [48] ∨ text.head? ≠ some 48)

theorem isWhole_zero : IsWhole [48] := by
  refine ⟨⟨by simp, fun byte hmem => ?_⟩, Or.inl rfl⟩
  rw [List.mem_singleton.mp hmem]
  decide

def IsFraction (text : Text) : Prop :=
  text = [] ∨ ∃ digits, IsDigits digits ∧ text = 46 :: digits

def IsExponent (text : Text) : Prop :=
  text = [] ∨ ∃ letter sign digits, (letter = 101 ∨ letter = 69) ∧
    (sign = [] ∨ sign = [43] ∨ sign = [45]) ∧ IsDigits digits ∧ text = letter :: (sign ++ digits)

def IsNumber (text : Text) : Prop :=
  ∃ sign whole fraction exponent, (sign = [] ∨ sign = [45]) ∧ IsWhole whole ∧ IsFraction fraction ∧
    IsExponent exponent ∧ text = sign ++ whole ++ fraction ++ exponent

def IsHexDigit (byte : UInt8) : Prop :=
  IsDigit byte ∨ 97 ≤ byte ∧ byte ≤ 102 ∨ 65 ≤ byte ∧ byte ≤ 70

instance (byte : UInt8) : Decidable (IsHexDigit byte) :=
  inferInstanceAs (Decidable (_ ∨ _))

/-- A byte that stands for itself in a string. -/
def IsPlain (byte : UInt8) : Prop :=
  32 ≤ byte ∧ byte ≠ 34 ∧ byte ≠ 92

instance (byte : UInt8) : Decidable (IsPlain byte) :=
  inferInstanceAs (Decidable (_ ∧ _))

/-- The letters of the short escapes. -/
def escapeLetters : Text :=
  [34, 92, 47, 98, 102, 110, 114, 116]

/-- What stands between the quotes of a string. -/
inductive IsChars : Text → Prop where
  | nil : IsChars []
  | plain {byte rest} : IsPlain byte → IsChars rest → IsChars (byte :: rest)
  | escape {letter rest} : letter ∈ escapeLetters → IsChars rest → IsChars (92 :: letter :: rest)
  | unicode {a b c d rest} : IsHexDigit a → IsHexDigit b → IsHexDigit c → IsHexDigit d →
      IsChars rest → IsChars (92 :: 117 :: a :: b :: c :: d :: rest)

def IsString (text : Text) : Prop :=
  ∃ chars, IsChars chars ∧ text = 34 :: (chars ++ [34])

/-- The kinds of texts the grammar derives. -/
inductive Kind where
  | value
  | elements
  | members

inductive Derives : Kind → Text → Prop where
  | null : Derives .value [110, 117, 108, 108]
  | true : Derives .value [116, 114, 117, 101]
  | false : Derives .value [102, 97, 108, 115, 101]
  | number {text} : IsNumber text → Derives .value text
  | string {text} : IsString text → Derives .value text
  | emptyArray {space} : IsSpace space → Derives .value (91 :: (space ++ [93]))
  | array {text} : Derives .elements text → Derives .value (91 :: (text ++ [93]))
  | emptyObject {space} : IsSpace space → Derives .value (123 :: (space ++ [125]))
  | object {text} : Derives .members text → Derives .value (123 :: (text ++ [125]))
  | element {before value after} : IsSpace before → Derives .value value → IsSpace after →
      Derives .elements (before ++ value ++ after)
  | elements {first rest} : Derives .elements first → Derives .elements rest →
      Derives .elements (first ++ 44 :: rest)
  | member {before name between space value after} : IsSpace before → IsString name →
      IsSpace between → IsSpace space → Derives .value value → IsSpace after →
      Derives .members (before ++ name ++ between ++ 58 :: (space ++ value ++ after))
  | members {first rest} : Derives .members first → Derives .members rest →
      Derives .members (first ++ 44 :: rest)

/-- A text that is one object. -/
def IsObject (text : Text) : Prop :=
  ∃ before value after, IsSpace before ∧ Derives .value value ∧ value.head? = some 123 ∧
    IsSpace after ∧ text = before ++ value ++ after

/-- A record of a stream of lines: one object on one line, with its line feed. -/
def IsRecord (record : Text) : Prop :=
  ∃ line, record = line ++ [10] ∧ 10 ∉ line ∧ IsObject line

/-! ## Objects without spaces -/

/-- Names with their values, separated by commas. -/
def joined : List (Text × Text) → Text
  | [] => []
  | [member] => member.1 ++ 58 :: member.2
  | member :: rest => member.1 ++ 58 :: member.2 ++ 44 :: joined rest

theorem joined_singleton (name value : Text) : joined [(name, value)] = name ++ 58 :: value := rfl

theorem joined_cons_cons (name value : Text) (member : Text × Text) (rest : List (Text × Text)) :
    joined ((name, value) :: member :: rest) =
      name ++ 58 :: value ++ 44 :: joined (member :: rest) := rfl

def object (members : List (Text × Text)) : Text :=
  123 :: (joined members ++ [125])

theorem isSpace_nil : IsSpace [] := by
  intro byte hmem
  simp at hmem

theorem derives_joined {members : List (Text × Text)} (hne : members ≠ [])
    (h : ∀ member ∈ members, IsString member.1 ∧ Derives .value member.2) :
    Derives .members (joined members) := by
  have hone : ∀ member : Text × Text, IsString member.1 ∧ Derives .value member.2 →
      Derives .members (member.1 ++ 58 :: member.2) := by
    intro member hmember
    have hderives := Derives.member isSpace_nil hmember.1 isSpace_nil isSpace_nil hmember.2
      isSpace_nil
    simpa using hderives
  induction members with
  | nil => exact absurd rfl hne
  | cons member rest ih =>
      cases rest with
      | nil => exact hone member (h member (by simp))
      | cons other rest =>
          exact Derives.members (hone member (h member (by simp)))
            (ih (by simp) fun other hmem => h other (List.mem_cons_of_mem _ hmem))

/-- An object of names and values is a value. -/
theorem derives_object {members : List (Text × Text)}
    (h : ∀ member ∈ members, IsString member.1 ∧ Derives .value member.2) :
    Derives .value (object members) := by
  cases members with
  | nil => exact Derives.emptyObject isSpace_nil
  | cons member rest => exact Derives.object (derives_joined (by simp) h)

/-! ## Values on one line -/

/-- A value without control bytes. -/
structure IsInline (text : Text) : Prop where
  derives : Derives .value text
  printable : ∀ byte ∈ text, 32 ≤ byte

theorem IsChars.printable {text : Text} (h : IsChars text) : ∀ byte ∈ text, 32 ≤ byte := by
  have hhex : ∀ {byte : UInt8}, IsHexDigit byte → 32 ≤ byte := by
    intro byte hbyte
    rcases hbyte with hbyte | hbyte | hbyte
    · exact UInt8.le_trans (by decide) hbyte.1
    · exact UInt8.le_trans (by decide) hbyte.1
    · exact UInt8.le_trans (by decide) hbyte.1
  induction h with
  | nil => simp
  | plain hbyte _ ih => exact List.forall_mem_cons.mpr ⟨hbyte.1, ih⟩
  | escape hletter _ ih =>
      have hletters : ∀ letter ∈ escapeLetters, 32 ≤ letter := by decide
      exact List.forall_mem_cons.mpr ⟨by decide, List.forall_mem_cons.mpr ⟨hletters _ hletter, ih⟩⟩
  | unicode ha hb hc hd _ ih =>
      simp only [List.forall_mem_cons]
      exact ⟨by decide, by decide, hhex ha, hhex hb, hhex hc, hhex hd, ih⟩

theorem IsString.printable {text : Text} (h : IsString text) : ∀ byte ∈ text, 32 ≤ byte := by
  rcases h with ⟨chars, hchars, rfl⟩
  intro byte hmem
  simp only [List.mem_cons, List.mem_append, List.mem_nil_iff, or_false] at hmem
  rcases hmem with rfl | hmem | rfl
  · decide
  · exact hchars.printable byte hmem
  · decide

/-- The bytes of numbers. -/
def IsNumeric (byte : UInt8) : Prop :=
  IsDigit byte ∨ byte = 45 ∨ byte = 43 ∨ byte = 46 ∨ byte = 101 ∨ byte = 69

theorem IsNumber.isNumeric {text : Text} (h : IsNumber text) :
    ∀ byte ∈ text, IsNumeric byte := by
  rcases h with ⟨sign, whole, fraction, exponent, hsign, hwhole, hfraction, hexponent, rfl⟩
  have hdigits : ∀ {digits : Text}, IsDigits digits → ∀ byte ∈ digits, IsNumeric byte :=
    fun h byte hmem => Or.inl (h.2 byte hmem)
  intro byte hmem
  simp only [List.mem_append] at hmem
  rcases hmem with ((hmem | hmem) | hmem) | hmem
  · rcases hsign with rfl | rfl <;> simp_all [IsNumeric]
  · exact hdigits hwhole.1 byte hmem
  · rcases hfraction with rfl | ⟨digits, h, rfl⟩
    · simp at hmem
    · rcases List.mem_cons.mp hmem with rfl | hmem
      · simp [IsNumeric]
      · exact hdigits h byte hmem
  · rcases hexponent with rfl | ⟨letter, sign, digits, hletter, hsign, h, rfl⟩
    · simp at hmem
    · simp only [List.mem_cons, List.mem_append] at hmem
      rcases hmem with rfl | hmem | hmem
      · rcases hletter with rfl | rfl <;> simp [IsNumeric]
      · rcases hsign with rfl | rfl | rfl <;> simp_all [IsNumeric]
      · exact hdigits h byte hmem

namespace IsInline

theorem null : IsInline [110, 117, 108, 108] :=
  ⟨Derives.null, by decide⟩

theorem string {text : Text} (h : IsString text) : IsInline text :=
  ⟨Derives.string h, h.printable⟩

theorem number {text : Text} (h : IsNumber text) : IsInline text := by
  refine ⟨Derives.number h, fun byte hmem => ?_⟩
  rcases h.isNumeric byte hmem with hbyte | rfl | rfl | rfl | rfl | rfl
  · exact UInt8.le_trans (by decide) hbyte.1
  all_goals decide

theorem printable_joined {members : List (Text × Text)}
    (h : ∀ member ∈ members, IsString member.1 ∧ IsInline member.2) :
    ∀ byte ∈ joined members, 32 ≤ byte := by
  induction members with
  | nil => simp [joined]
  | cons member rest ih =>
      have hmember := h member (by simp)
      have hrest := ih fun other hmem => h other (by simp [hmem])
      intro byte hmem
      cases rest with
      | nil =>
          simp only [joined, List.mem_append, List.mem_cons] at hmem
          rcases hmem with hmem | rfl | hmem
          · exact hmember.1.printable byte hmem
          · decide
          · exact hmember.2.printable byte hmem
      | cons other rest =>
          rw [joined] at hmem
          · simp only [List.mem_append, List.mem_cons] at hmem
            rcases hmem with (hmem | rfl | hmem) | rfl | hmem
            · exact hmember.1.printable byte hmem
            · decide
            · exact hmember.2.printable byte hmem
            · decide
            · exact hrest byte hmem
          · simp

/-- An object of such values is one. -/
theorem object {members : List (Text × Text)}
    (h : ∀ member ∈ members, IsString member.1 ∧ IsInline member.2) :
    IsInline (object members) := by
  refine ⟨derives_object fun member hmem => ⟨(h member hmem).1, (h member hmem).2.derives⟩, ?_⟩
  intro byte hmem
  rw [Json.object, List.mem_cons, List.mem_append, List.mem_singleton] at hmem
  rcases hmem with rfl | hmem | rfl
  · decide
  · exact printable_joined h byte hmem
  · decide

/-- With a line feed, an object without control bytes is a record. -/
theorem isRecord {members : List (Text × Text)} (h : IsInline (Json.object members)) :
    IsRecord (Json.object members ++ [10]) := by
  refine ⟨Json.object members, rfl, fun hmem => ?_, [], Json.object members, [], isSpace_nil,
    h.derives, rfl, isSpace_nil, by simp⟩
  exact absurd (h.printable 10 hmem) (by decide)

end IsInline

/-! ## Braces -/

inductive Mode where
  | outside
  | inside
  | escaped
deriving DecidableEq, Repr

/-- The braces open so far, and where a reader of the bytes is: outside of strings, inside of one or
behind a backslash. -/
structure Scan where
  depth : ℤ
  mode : Mode
deriving DecidableEq, Repr

def Scan.step (state : Scan) (byte : UInt8) : Scan :=
  match state.mode with
  | .outside =>
      if byte = 34 then { state with mode := .inside }
      else if byte = 123 then { state with depth := state.depth + 1 }
      else if byte = 125 then { state with depth := state.depth - 1 }
      else state
  | .inside =>
      if byte = 34 then { state with mode := .outside }
      else if byte = 92 then { state with mode := .escaped }
      else state
  | .escaped => { state with mode := .inside }

def scan (state : Scan) (text : Text) : Scan :=
  text.foldl Scan.step state

@[simp] theorem scan_nil (state : Scan) : scan state [] = state := rfl

@[simp] theorem scan_cons (state : Scan) (byte : UInt8) (text : Text) :
    scan state (byte :: text) = scan (state.step byte) text := rfl

@[simp] theorem scan_append (state : Scan) (text text' : Text) :
    scan state (text ++ text') = scan (scan state text) text' := by
  simp [scan]

/-- Outside of strings, a text opens so many braces more than it closes, and ends outside. -/
def Opens (count : ℤ) (text : Text) : Prop :=
  ∀ depth, scan ⟨depth, .outside⟩ text = ⟨depth + count, .outside⟩

namespace Opens

theorem nil : Opens 0 [] := by
  intro depth
  simp

theorem append {count count' : ℤ} {text text' : Text} (h : Opens count text)
    (h' : Opens count' text') : Opens (count + count') (text ++ text') := by
  intro depth
  rw [scan_append, h, h', Int.add_assoc]

theorem cons_quiet {count : ℤ} {byte : UInt8} {text : Text} (h : Opens count text)
    (hbyte : byte ≠ 34 ∧ byte ≠ 123 ∧ byte ≠ 125) : Opens count (byte :: text) := by
  intro depth
  rw [scan_cons, Scan.step]
  simp only [hbyte.1, hbyte.2.1, hbyte.2.2, if_false]
  exact h depth

/-- Text without quotes and braces. -/
theorem of_quiet {text : Text} (h : ∀ byte ∈ text, byte ≠ 34 ∧ byte ≠ 123 ∧ byte ≠ 125) :
    Opens 0 text := by
  induction text with
  | nil => exact nil
  | cons byte text ih =>
      exact (ih fun other hmem => h other (by simp [hmem])).cons_quiet (h byte (by simp))

theorem space {text : Text} (h : IsSpace text) : Opens 0 text := by
  refine of_quiet fun byte hmem => ?_
  rcases h byte hmem with rfl | rfl | rfl | rfl <;> decide

theorem chars {text : Text} (h : IsChars text) (depth : ℤ) :
    scan ⟨depth, .inside⟩ text = ⟨depth, .inside⟩ := by
  have hplain : ∀ {byte : UInt8}, byte ≠ 34 → byte ≠ 92 →
      Scan.step ⟨depth, .inside⟩ byte = ⟨depth, .inside⟩ := by
    intro byte hquote hslash
    simp [Scan.step, hquote, hslash]
  have hhex : ∀ {byte : UInt8}, IsHexDigit byte → byte ≠ 34 ∧ byte ≠ 92 := by
    intro byte hbyte
    rcases hbyte with hbyte | hbyte | hbyte <;> constructor <;> rintro rfl <;>
      exact absurd hbyte (by decide)
  induction h with
  | nil => rfl
  | plain hbyte _ ih => rw [scan_cons, hplain hbyte.2.1 hbyte.2.2, ih]
  | escape _ _ ih => exact ih
  | unicode ha hb hc hd _ ih =>
      have ha := hhex ha
      have hb := hhex hb
      have hc := hhex hc
      have hd := hhex hd
      have hescape : Scan.step (Scan.step ⟨depth, .inside⟩ 92) 117 = ⟨depth, .inside⟩ := rfl
      rw [scan_cons, scan_cons, hescape, scan_cons, hplain ha.1 ha.2, scan_cons, hplain hb.1 hb.2,
        scan_cons, hplain hc.1 hc.2, scan_cons, hplain hd.1 hd.2, ih]

theorem string {text : Text} (h : IsString text) : Opens 0 text := by
  rcases h with ⟨chars, hchars, rfl⟩
  intro depth
  change scan ⟨depth, .inside⟩ (chars ++ [34]) = _
  rw [scan_append, Opens.chars hchars]
  simp [Scan.step]

theorem number {text : Text} (h : IsNumber text) : Opens 0 text := by
  refine of_quiet fun byte hmem => ?_
  rcases h.isNumeric byte hmem with hbyte | rfl | rfl | rfl | rfl | rfl
  · refine ⟨?_, ?_, ?_⟩ <;> rintro rfl <;> exact absurd hbyte (by decide)
  all_goals decide

theorem openBrace : Opens 1 [123] :=
  fun _ => rfl

theorem closeBrace : Opens (-1) [125] :=
  fun _ => rfl

theorem comma {count : ℤ} {text : Text} (h : Opens count text) : Opens count (44 :: text) :=
  h.cons_quiet (by decide)

theorem colon {count : ℤ} {text : Text} (h : Opens count text) : Opens count (58 :: text) :=
  h.cons_quiet (by decide)

theorem bracketed {text : Text} (h : Opens 0 text) : Opens 0 (91 :: (text ++ [93])) :=
  (h.append (nil.cons_quiet (by decide))).cons_quiet (by decide)

theorem braced {text : Text} (h : Opens 0 text) : Opens 0 (123 :: (text ++ [125])) :=
  openBrace.append (h.append closeBrace)

/-- Every text of the grammar closes the braces it opens. -/
theorem derives {kind : Kind} {text : Text} (h : Derives kind text) : Opens 0 text := by
  induction h with
  | null => exact of_quiet (by decide)
  | true => exact of_quiet (by decide)
  | false => exact of_quiet (by decide)
  | number h => exact number h
  | string h => exact string h
  | emptyArray h => exact bracketed (space h)
  | array _ ih => exact bracketed ih
  | emptyObject h => exact braced (space h)
  | object _ ih => exact braced ih
  | element hbefore _ hafter ih => exact ((space hbefore).append ih).append (space hafter)
  | elements _ _ ih ih' => exact ih.append (comma ih')
  | member ha hname hb hc _ hd ih =>
      exact (((space ha).append (string hname)).append (space hb)).append
        (colon (((space hc).append ih).append (space hd)))
  | members _ _ ih ih' => exact ih.append (comma ih')

/-- What follows a text makes up for it. -/
theorem of_append {count total : ℤ} {text rest : Text} (h : Opens count text)
    (htotal : Opens total (text ++ rest)) : Opens (total - count) rest := by
  intro depth
  have hdepth := htotal (depth - count)
  rw [scan_append, h, Int.sub_add_cancel] at hdepth
  rw [hdepth, Scan.mk.injEq]
  exact ⟨by omega, rfl⟩

/-- A brace closes only outside of strings. -/
theorem of_closed {count : ℤ} {text : Text} (h : Opens count (text ++ [125])) :
    Opens (count + 1) text := by
  intro depth
  have hdepth := h depth
  rw [scan_append] at hdepth
  cases hstate : scan ⟨depth, .outside⟩ text with
  | mk depth' mode =>
      rw [hstate] at hdepth
      cases mode with
      | outside =>
          have hstep : scan ⟨depth', .outside⟩ [125] = ⟨depth' - 1, .outside⟩ := rfl
          rw [hstep, Scan.mk.injEq] at hdepth
          rw [Scan.mk.injEq]
          exact ⟨by omega, rfl⟩
      | inside => cases hdepth
      | escaped => cases hdepth

/-- An object closes the braces it opens. -/
theorem isObject {text : Text} (h : IsObject text) : Opens 0 text := by
  rcases h with ⟨before, value, after, hbefore, hvalue, _, hafter, rfl⟩
  exact ((space hbefore).append (derives hvalue)).append (space hafter)

/-- A text that leaves a brace open is no record. -/
theorem not_isRecord {count : ℤ} {text : Text} (h : Opens count text) (hcount : count ≠ 0) :
    ¬ IsRecord text := by
  intro hrecord
  rcases hrecord with ⟨line, rfl, _, hobject⟩
  have hfeed : Opens 0 [10] := of_quiet (by decide)
  have hline := (isObject hobject).append hfeed
  have hdepth := (h 0).symm.trans (hline 0)
  simp only [Scan.mk.injEq] at hdepth
  omega

end Opens

end GiveMePi.Library.Json
