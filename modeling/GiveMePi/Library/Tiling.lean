import Mathlib.Order.Lattice
import Mathlib.Tactic.Common

/-! # Tilings of an interval

A list of half-open intervals tiles `[a, b)` when they follow each other from `a` to `b` without gap
or overlap, and none is empty. -/

namespace GiveMePi.Library

universe u

variable {α : Type u}

/-- The intervals follow each other from the first bound to the last. -/
def Tiles [LT α] : α → List (α × α) → α → Prop
  | a, [], b => a = b
  | a, (start, stop) :: rest, b => start = a ∧ a < stop ∧ Tiles stop rest b

namespace Tiles

section LT

variable [LT α]

@[simp] theorem nil_iff {a b : α} : Tiles a [] b ↔ a = b := Iff.rfl

@[simp] theorem cons_iff {a b : α} {interval : α × α} {rest : List (α × α)} :
    Tiles a (interval :: rest) b ↔
      interval.1 = a ∧ a < interval.2 ∧ Tiles interval.2 rest b := Iff.rfl

instance decidable [DecidableEq α] [DecidableLT α] :
    (a : α) → (intervals : List (α × α)) → (b : α) → Decidable (Tiles a intervals b)
  | a, [], b => inferInstanceAs (Decidable (a = b))
  | a, (start, stop) :: rest, b =>
      have := decidable stop rest b
      inferInstanceAs (Decidable (start = a ∧ a < stop ∧ Tiles stop rest b))

/-- Two tilings that meet form one. -/
theorem append_iff {a c : α} {left right : List (α × α)} :
    Tiles a (left ++ right) c ↔ ∃ b, Tiles a left b ∧ Tiles b right c := by
  induction left generalizing a with
  | nil => simp
  | cons interval left ih =>
      simp only [List.cons_append, cons_iff, ih]
      constructor
      · rintro ⟨hstart, hlt, b, hleft, hright⟩
        exact ⟨b, ⟨hstart, hlt, hleft⟩, hright⟩
      · rintro ⟨b, ⟨hstart, hlt, hleft⟩, hright⟩
        exact ⟨hstart, hlt, b, hleft, hright⟩

theorem append {a b c : α} {left right : List (α × α)} (hleft : Tiles a left b)
    (hright : Tiles b right c) : Tiles a (left ++ right) c :=
  append_iff.mpr ⟨b, hleft, hright⟩

theorem singleton {a b : α} (h : a < b) : Tiles a [(a, b)] b :=
  ⟨rfl, h, rfl⟩

end LT

section Preorder

variable [Preorder α] {a b : α} {intervals : List (α × α)}

theorem le (h : Tiles a intervals b) : a ≤ b := by
  induction intervals generalizing a with
  | nil => exact h.le
  | cons interval rest ih =>
      obtain ⟨-, hlt, hrest⟩ := h
      exact hlt.le.trans (ih hrest)

/-- Every interval of a tiling is a nonempty part of the whole. -/
theorem bounds_of_mem (h : Tiles a intervals b) {interval : α × α} (hmem : interval ∈ intervals) :
    a ≤ interval.1 ∧ interval.1 < interval.2 ∧ interval.2 ≤ b := by
  induction intervals generalizing a with
  | nil => simp at hmem
  | cons first rest ih =>
      obtain ⟨hstart, hlt, hrest⟩ := h
      rcases List.mem_cons.mp hmem with rfl | hmem
      · exact ⟨hstart.ge, hstart.trans_lt hlt, hrest.le⟩
      · obtain ⟨hlow, hbetween, hhigh⟩ := ih hrest hmem
        exact ⟨hlt.le.trans hlow, hbetween, hhigh⟩

/-- The intervals of a tiling stand in order and do not overlap. -/
theorem pairwise_le (h : Tiles a intervals b) :
    intervals.Pairwise fun left right => left.2 ≤ right.1 := by
  induction intervals generalizing a with
  | nil => exact List.Pairwise.nil
  | cons first rest ih =>
      obtain ⟨-, -, hrest⟩ := h
      exact List.Pairwise.cons (fun interval hmem => (bounds_of_mem hrest hmem).1) (ih hrest)

end Preorder

end Tiles

/-! ## Gaps

Intervals that stand apart in order leave gaps, which fill them up to a tiling. -/

section Gaps

variable [LinearOrder α]

/-- The intervals lie between the bounds, in order and apart. -/
def Apart : α → List (α × α) → α → Prop
  | a, [], b => a ≤ b
  | a, (start, stop) :: rest, b => a ≤ start ∧ start < stop ∧ Apart stop rest b

/-- What the intervals leave out. -/
def gaps : α → List (α × α) → α → List (α × α)
  | a, [], b => if a < b then [(a, b)] else []
  | a, (start, stop) :: rest, b => (if a < start then [(a, start)] else []) ++ gaps stop rest b

/-- The intervals and the gaps between them, in order. -/
def filled : α → List (α × α) → α → List (α × α)
  | a, [], b => if a < b then [(a, b)] else []
  | a, (start, stop) :: rest, b =>
      (if a < start then [(a, start)] else []) ++ (start, stop) :: filled stop rest b

namespace Apart

variable {a b : α} {intervals : List (α × α)}

theorem le (h : Apart a intervals b) : a ≤ b := by
  induction intervals generalizing a with
  | nil => exact h
  | cons interval rest ih =>
      obtain ⟨hstart, hlt, hrest⟩ := h
      exact (hstart.trans hlt.le).trans (ih hrest)

theorem of_pairwise (hpairwise : intervals.Pairwise fun left right => left.2 ≤ right.1)
    (hbounds : ∀ interval ∈ intervals, a ≤ interval.1 ∧ interval.1 < interval.2 ∧ interval.2 ≤ b)
    (hab : a ≤ b) : Apart a intervals b := by
  induction intervals generalizing a with
  | nil => exact hab
  | cons interval rest ih =>
      obtain ⟨hstart, hlt, hstop⟩ := hbounds interval List.mem_cons_self
      obtain ⟨hfirst, hrest⟩ := List.pairwise_cons.mp hpairwise
      refine ⟨hstart, hlt, ih hrest (fun other hmem => ?_) hstop⟩
      exact ⟨hfirst other hmem, (hbounds other (List.mem_cons_of_mem _ hmem)).2⟩

theorem mono {a' : α} (h : Apart a intervals b) (ha : a' ≤ a) : Apart a' intervals b := by
  cases intervals with
  | nil => exact ha.trans h
  | cons interval rest => exact ⟨ha.trans h.1, h.2.1, h.2.2⟩

theorem bounds_of_mem (h : Apart a intervals b) {interval : α × α} (hmem : interval ∈ intervals) :
    a ≤ interval.1 ∧ interval.1 < interval.2 ∧ interval.2 ≤ b := by
  induction intervals generalizing a with
  | nil => simp at hmem
  | cons first rest ih =>
      obtain ⟨hstart, hlt, hrest⟩ := h
      rcases List.mem_cons.mp hmem with rfl | hmem
      · exact ⟨hstart, hlt, hrest.le⟩
      · exact ih (hrest.mono (hstart.trans hlt.le)) hmem

theorem pairwise_le (h : Apart a intervals b) :
    intervals.Pairwise fun left right => left.2 ≤ right.1 := by
  induction intervals generalizing a with
  | nil => exact List.Pairwise.nil
  | cons first rest ih =>
      obtain ⟨-, -, hrest⟩ := h
      exact List.Pairwise.cons (fun interval hmem => (hrest.bounds_of_mem hmem).1) (ih hrest)

/-- The gaps stand apart themselves. -/
theorem gaps_apart (h : Apart a intervals b) : Apart a (gaps a intervals b) b := by
  induction intervals generalizing a with
  | nil =>
      rw [gaps]
      split
      · next hlt => exact ⟨le_rfl, hlt, le_rfl⟩
      · next hle => exact h
  | cons interval rest ih =>
      obtain ⟨hstart, hlt, hrest⟩ := h
      rw [gaps]
      split
      · next hgap => exact ⟨le_rfl, hgap, (ih hrest).mono hlt.le⟩
      · next hle => exact (ih hrest).mono (hstart.trans hlt.le)

/-- The gaps hold exactly what the intervals leave out. -/
theorem mem_gaps_iff (h : Apart a intervals b) (x : α) :
    (∃ gap ∈ gaps a intervals b, gap.1 ≤ x ∧ x < gap.2) ↔
      a ≤ x ∧ x < b ∧ ∀ interval ∈ intervals, ¬ (interval.1 ≤ x ∧ x < interval.2) := by
  induction intervals generalizing a with
  | nil =>
      rw [gaps]
      split
      · simp
      · next hle => simpa using fun hax => (not_lt.mp hle).trans hax
  | cons interval rest ih =>
      obtain ⟨start, stop⟩ := interval
      obtain ⟨hstart, hlt, hrest⟩ := h
      have hrestIff := ih hrest
      have hstop := hrest.le
      simp only [gaps, List.mem_append, or_and_right, exists_or, hrestIff, List.forall_mem_cons]
      by_cases hx : x < start
      · -- before the interval the gap in front of it decides
        have hnone (other : α × α) (hmem : other ∈ rest) : ¬ (other.1 ≤ x ∧ x < other.2) := by
          rintro ⟨hle, -⟩
          exact absurd ((hrest.bounds_of_mem hmem).1.trans hle) (hx.trans hlt).not_ge
        simp only [(hx.trans hlt).not_ge, false_and, or_false, hx.not_ge, not_false_eq_true,
          true_and, (hx.trans hlt).trans_le hstop]
        split
        · next hgap => simpa [hx] using fun _ other => hnone other
        · next hle => simpa using fun hax => absurd (hax.trans_lt hx) hle
      · rw [not_lt] at hx
        simp only [hstart.trans hx, true_and, hx, not_lt]
        split <;> simp [hx.not_gt] <;> tauto

/-- Intervals that stand apart and the gaps between them form a tiling. -/
theorem tiles_filled (h : Apart a intervals b) : Tiles a (filled a intervals b) b := by
  induction intervals generalizing a with
  | nil =>
      rw [filled]
      split
      · next hlt => exact Tiles.singleton hlt
      · next hle => exact le_antisymm h (not_lt.mp hle)
  | cons interval rest ih =>
      obtain ⟨hstart, hlt, hrest⟩ := h
      rw [filled]
      split
      · next hgap => exact ⟨rfl, hgap, rfl, hlt, ih hrest⟩
      · next hle =>
          obtain rfl := le_antisymm hstart (not_lt.mp hle)
          exact ⟨rfl, hlt, ih hrest⟩

/-- Only a tiling leaves no gap. -/
theorem gaps_eq_nil_iff (h : Apart a intervals b) : gaps a intervals b = [] ↔ Tiles a intervals b := by
  induction intervals generalizing a with
  | nil =>
      rw [gaps, Tiles.nil_iff]
      split
      · next hlt => simp [hlt.ne]
      · next hle => simp [le_antisymm h (not_lt.mp hle)]
  | cons interval rest ih =>
      obtain ⟨hstart, hlt, hrest⟩ := h
      rw [gaps, List.append_eq_nil_iff, ih hrest, Tiles.cons_iff]
      split
      · next hgap => simp [hgap.ne']
      · next hle =>
          obtain rfl := le_antisymm hstart (not_lt.mp hle)
          simp [hlt]

end Apart

theorem Tiles.apart {a b : α} {intervals : List (α × α)} (h : Tiles a intervals b) :
    Apart a intervals b := by
  induction intervals generalizing a with
  | nil => exact h.le
  | cons interval rest ih =>
      obtain ⟨hstart, hlt, hrest⟩ := h
      exact ⟨hstart.ge, hstart ▸ hlt, ih hrest⟩

theorem filled_perm (a b : α) (intervals : List (α × α)) :
    (filled a intervals b).Perm (intervals ++ gaps a intervals b) := by
  induction intervals generalizing a with
  | nil => exact List.Perm.refl _
  | cons interval rest ih =>
      rw [filled, gaps]
      refine List.perm_middle.trans (List.Perm.cons _ ?_)
      refine ((ih interval.2).append_left _).trans ?_
      change (_ ++ (rest ++ _)).Perm (rest ++ (_ ++ _))
      rw [← List.append_assoc, ← List.append_assoc]
      exact List.perm_append_comm.append_right _

end Gaps

end GiveMePi.Library
