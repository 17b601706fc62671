import Mathlib.Data.List.Basic
import Mathlib.Data.List.Infix
import Mathlib.Data.Nat.Find
import Mathlib.Tactic.Common

/-! # Searching in texts

Positions found in a text, the pieces cut out between them, and what a separator cuts a text
into. -/

namespace GiveMePi.Library

variable {α : Type*} [DecidableEq α] {text pattern before after : List α} {start pos : ℕ} {sep : α}

/-! ## Positions -/

/-- The first position from `start` on where the pattern, which is not empty, occurs. -/
def find (text pattern : List α) (start : ℕ) : Option ℕ :=
  ((text.drop start).dropInfix? pattern).map fun pieces => start + pieces.1.length

theorem find_eq_some_iff : find text pattern start = some pos ↔
    ∃ before after, text.drop start = before ++ pattern ++ after ∧ pos = start + before.length ∧
      ∀ before' after', text.drop start = before' ++ pattern ++ after' →
        before.length ≤ before'.length := by
  simp only [find, Option.map_eq_some_iff, Prod.exists, List.dropInfix?_eq_some_iff, beq_iff_eq]
  constructor
  · rintro ⟨before, after, ⟨⟨_, htext, rfl⟩, hfirst⟩, rfl⟩
    exact ⟨before, after, htext, rfl, fun before' after' h => hfirst before' _ after' h rfl⟩
  · rintro ⟨before, after, htext, rfl, hfirst⟩
    refine ⟨before, after, ⟨⟨pattern, htext, rfl⟩, ?_⟩, rfl⟩
    rintro before' _ after' h rfl
    exact hfirst before' after' h

/-- A pattern that occurs is found. -/
theorem exists_find_eq_some (h : pattern <:+: text.drop start) :
    ∃ pos, find text pattern start = some pos := by
  classical
  have hlengths : ∃ length, ∃ before after : List α,
      text.drop start = before ++ pattern ++ after ∧ before.length = length := by
    obtain ⟨before, after, h⟩ := h
    exact ⟨_, before, after, h.symm, rfl⟩
  obtain ⟨before, after, htext, hlength⟩ := Nat.find_spec hlengths
  refine ⟨_, find_eq_some_iff.mpr ⟨before, after, htext, rfl, ?_⟩⟩
  intro before' after' h'
  rw [hlength]
  exact Nat.find_min' hlengths ⟨before', after', h', rfl⟩

theorem find_eq_none (h : ¬ pattern <:+: text.drop start) : find text pattern start = none := by
  apply Option.eq_none_iff_forall_ne_some.mpr
  intro pos hpos
  obtain ⟨before, after, htext, _⟩ := find_eq_some_iff.mp hpos
  exact h ⟨before, after, htext.symm⟩

theorem prefix_drop_of_find (h : find text pattern start = some pos) : pattern <+: text.drop pos := by
  obtain ⟨before, after, htext, rfl, _⟩ := find_eq_some_iff.mp h
  rw [← List.drop_drop, htext, List.append_assoc, List.drop_left]
  exact List.prefix_append pattern after

/-- A text begins with what is found at its front. -/
theorem find_eq_zero_iff : find text pattern 0 = some 0 ↔ pattern.isPrefixOf text = true := by
  rw [List.isPrefixOf_iff_prefix]
  constructor
  · exact prefix_drop_of_find
  · rintro ⟨after, rfl⟩
    exact find_eq_some_iff.mpr ⟨[], after, rfl, rfl, fun _ _ _ => Nat.zero_le _⟩

theorem find_singleton (htext : text.drop start = before ++ sep :: after) (hsep : sep ∉ before) :
    find text [sep] start = some (start + before.length) := by
  refine find_eq_some_iff.mpr ⟨before, after, by simp [htext], rfl, ?_⟩
  intro before' after' h
  by_contra hshort
  apply hsep
  have hbegins : before' ++ [sep] <+: before := by
    apply List.prefix_of_prefix_length_le ⟨after', h.symm⟩ ⟨sep :: after, htext.symm⟩
    simp only [List.length_append, List.length_singleton]
    omega
  exact hbegins.mem (by simp)

theorem find_singleton_eq_none (h : sep ∉ text.drop start) : find text [sep] start = none :=
  find_eq_none fun hoccurs => h (hoccurs.mem (by simp))

/-! ## Pieces

Positions are machine words: one behind no position is the front of the text, and a length below
zero is more than any text has. -/

/-- `position + 1` -/
def beyond (position : Option ℕ) : ℕ :=
  position.elim 0 (· + 1)

/-- `last - first`, `none` if that is more than any text has. -/
def distance (first : ℕ) (last : Option ℕ) : Option ℕ :=
  last.bind fun last => if first ≤ last then some (last - first) else none

theorem distance_add (first length : ℕ) : distance first (some (first + length)) = some length := by
  rw [distance, Option.bind_some, if_pos (Nat.le_add_right first length), Nat.add_sub_cancel_left]

/-- At most `count` elements from a position on, which may be the end of the text. -/
def substr? (text : List α) (start : ℕ) (count : Option ℕ) : Option (List α) :=
  if text.length < start then none
  else some (count.elim (text.drop start) fun count => (text.drop start).take count)

/-- The piece between the first separator behind a position and the next. -/
def delimited (sep : α) (text : List α) (pos : ℕ) : Option (List α) :=
  let start := beyond (find text [sep] pos)
  substr? text start (distance start (find text [sep] start))

/-! ## Separators -/

/-- What a text is cut into shows its front, and the rest behind the separator. -/
theorem splitOn_eq_cons_cons {front piece : List α} {rest : List (List α)}
    (h : text.splitOn sep = front :: piece :: rest) :
    sep ∉ front ∧ ∃ after, text = front ++ sep :: after ∧ after.splitOn sep = piece :: rest := by
  by_cases hsep : sep ∈ text
  · obtain ⟨front', after, rfl, hfront⟩ := List.eq_append_cons_of_mem hsep
    rw [List.splitOn_append_cons_self_of_not_mem hfront] at h
    obtain ⟨rfl, hafter⟩ := List.cons.inj h
    exact ⟨hfront, after, rfl, hafter⟩
  · simp [List.splitOn_eq_singleton hsep] at h

theorem splitOn_eq_singleton_iff {piece : List α} :
    text.splitOn sep = [piece] ↔ sep ∉ text ∧ text = piece := by
  constructor
  · intro h
    have hsep : sep ∉ text := by
      intro hsep
      obtain ⟨front, after, rfl, hfront⟩ := List.eq_append_cons_of_mem hsep
      rw [List.splitOn_append_cons_self_of_not_mem hfront] at h
      simp at h
    refine ⟨hsep, ?_⟩
    rw [List.splitOn_eq_singleton hsep] at h
    exact List.cons.inj h |>.1
  · rintro ⟨hsep, rfl⟩
    exact List.splitOn_eq_singleton hsep

/-- The piece between two separators is the second that the text is cut into. -/
theorem delimited_eq {front piece : List α} {rest : List (List α)}
    (h : (text.drop pos).splitOn sep = front :: piece :: rest) :
    delimited sep text pos = some piece := by
  obtain ⟨hfront, after, htext, hafter⟩ := splitOn_eq_cons_cons h
  have hlength : pos + front.length < text.length := by
    have := congrArg List.length htext
    simp only [List.length_drop, List.length_append, List.length_cons] at this
    omega
  have hdrop : text.drop (pos + front.length + 1) = after := by
    rw [Nat.add_assoc, ← List.drop_drop, htext]
    simp
  rw [delimited, find_singleton htext hfront]
  simp only [beyond, Option.elim_some]
  cases rest with
  | nil =>
      obtain ⟨hpiece, rfl⟩ := splitOn_eq_singleton_iff.mp hafter
      rw [find_singleton_eq_none (hdrop ▸ hpiece)]
      simp [distance, substr?, hdrop, Nat.not_lt.mpr hlength]
  | cons next rest =>
      obtain ⟨hpiece, behind, rfl, _⟩ := splitOn_eq_cons_cons hafter
      rw [find_singleton hdrop hpiece, distance_add]
      simp [substr?, hdrop, Nat.not_lt.mpr hlength]

/-- Cut from anywhere on, a joined text falls into a rest of one piece and the pieces behind it. -/
theorem splitOn_drop_intercalate {pieces : List (List α)} (hne : pieces ≠ [])
    (hpieces : ∀ piece ∈ pieces, sep ∉ piece) (pos : ℕ) :
    ∃ front piece rest, front <:+ piece ∧ piece :: rest <:+ pieces ∧
      (([sep].intercalate pieces).drop pos).splitOn sep = front :: rest := by
  induction pieces generalizing pos with
  | nil => exact absurd rfl hne
  | cons piece pieces ih =>
      have hpiece : sep ∉ piece := hpieces piece (by simp)
      have hfront : sep ∉ piece.drop pos := fun h => hpiece (List.mem_of_mem_drop h)
      cases pieces with
      | nil =>
          refine ⟨piece.drop pos, piece, [], List.drop_suffix .., List.suffix_rfl, ?_⟩
          rw [List.intercalate_singleton, List.splitOn_eq_singleton hfront]
      | cons next rest =>
          have hrest : ∀ piece ∈ next :: rest, sep ∉ piece := fun piece h => hpieces piece (.tail _ h)
          rw [List.intercalate_cons_cons, List.append_assoc, List.singleton_append]
          by_cases hpos : pos ≤ piece.length
          · refine ⟨piece.drop pos, piece, next :: rest, List.drop_suffix .., List.suffix_rfl, ?_⟩
            rw [List.drop_append_of_le_length hpos,
              List.splitOn_append_cons_self_of_not_mem hfront,
              List.splitOn_intercalate sep hrest (by simp)]
          · -- behind the first piece and its separator
            obtain ⟨front, piece', rest', hsuffix, hpieces', hsplit⟩ :=
              ih (by simp) hrest (pos - piece.length - 1)
            refine ⟨front, piece', rest', hsuffix, hpieces'.trans (List.suffix_cons ..), ?_⟩
            have hbehind : pos = piece.length + (1 + (pos - piece.length - 1)) := by omega
            rw [hbehind, ← List.drop_drop, List.drop_left, ← List.drop_drop, List.drop_one,
              List.tail_cons, hsplit]

/-- A text without separators at the front is in the first piece. -/
theorem prefix_of_splitOn {word front : List α} {rest : List (List α)} (hword : word <+: text)
    (hsep : sep ∉ word) (h : text.splitOn sep = front :: rest) : word <+: front := by
  obtain ⟨behind, rfl⟩ := hword
  by_cases hbehind : sep ∈ behind
  · obtain ⟨left, right, rfl, hleft⟩ := List.eq_append_cons_of_mem hbehind
    rw [← List.append_assoc, List.splitOn_append_cons_self_of_not_mem (by simp [hsep, hleft])] at h
    rw [← (List.cons.inj h).1]
    exact List.prefix_append word left
  · rw [List.splitOn_eq_singleton (by simp [hsep, hbehind])] at h
    rw [← (List.cons.inj h).1]
    exact List.prefix_append word behind

omit [DecidableEq α] in
theorem infix_intercalate {pieces : List (List α)} {piece : List α} (h : piece ∈ pieces) :
    piece <:+: [sep].intercalate pieces := by
  induction pieces with
  | nil => simp at h
  | cons first pieces ih =>
      cases pieces with
      | nil => simp_all
      | cons next rest =>
          rw [List.intercalate_cons_cons, List.append_assoc]
          rcases List.mem_cons.mp h with rfl | h
          · exact (List.prefix_append ..).isInfix
          · exact (ih h).trans ((List.suffix_append ..).trans (List.suffix_append ..)).isInfix

/-- What stands between the first separators behind a word is the piece that follows the piece with
the word. -/
theorem delimited_of_find {word : List α} {pieces : List (List α)} (hne : pieces ≠ [])
    (hpieces : ∀ piece ∈ pieces, sep ∉ piece) (hword : sep ∉ word)
    (hfind : find ([sep].intercalate pieces) word start = some pos) :
    ∃ piece rest, word <:+: piece ∧ piece :: rest <:+ pieces ∧
      ∀ next ∈ rest.head?, delimited sep ([sep].intercalate pieces) pos = some next := by
  obtain ⟨front, piece, rest, hfront, hsuffix, hsplit⟩ := splitOn_drop_intercalate hne hpieces pos
  have hbegins : word <+: front := prefix_of_splitOn (prefix_drop_of_find hfind) hword hsplit
  refine ⟨piece, rest, hbegins.isInfix.trans hfront.isInfix, hsuffix, ?_⟩
  cases rest with
  | nil => simp
  | cons next rest =>
      intro next' h
      cases h
      exact delimited_eq hsplit

end GiveMePi.Library
