import Mathlib.Algebra.BigOperators.Group.List.Basic
import Mathlib.Algebra.Ring.Nat
import Mathlib.Tactic.Common

/-! # Totals in bounded accumulators

Numbers added up one after the other, in an accumulator that stays at its limit or in one that
wraps around behind it. -/

namespace GiveMePi.Library

variable {α β : Type*} {limit : ℕ}

/-- An addition that would pass the limit ends at the limit. -/
structure Saturates (limit : ℕ) (value : β → ℕ) (size : α → ℕ) (add : β → α → β) : Prop where
  value_le : ∀ total, value total ≤ limit
  value_add : ∀ total a, value (add total a) = min limit (value total + size a)

/-- An addition that passes the limit goes on from zero. -/
structure Wraps (limit : ℕ) (value : β → ℕ) (size : α → ℕ) (add : β → α → β) : Prop where
  value_le : ∀ total, value total ≤ limit
  value_add : ∀ total a, value (add total a) = (value total + size a) % (limit + 1)

variable {value : β → ℕ} {size : α → ℕ} {add : β → α → β}

/-- To saturate at every addition is to saturate once, at the end. -/
theorem Saturates.foldl (h : Saturates limit value size add) (total : β) (elements : List α) :
    value (elements.foldl add total) = min limit (value total + (elements.map size).sum) := by
  induction elements generalizing total with
  | nil => simp [h.value_le total]
  | cons a rest ih =>
      rw [List.foldl_cons, ih, h.value_add, List.map_cons, List.sum_cons]
      omega

/-- To wrap around at every addition is to take one remainder, at the end. -/
theorem Wraps.foldl (h : Wraps limit value size add) (total : β) (elements : List α) :
    value (elements.foldl add total) = (value total + (elements.map size).sum) % (limit + 1) := by
  induction elements generalizing total with
  | nil => simp [Nat.mod_eq_of_lt (Nat.lt_succ_of_le (h.value_le total))]
  | cons a rest ih =>
      rw [List.foldl_cons, ih, h.value_add, List.map_cons, List.sum_cons, Nat.mod_add_mod,
        Nat.add_assoc]

theorem Wraps.foldl_of_le (h : Wraps limit value size add) {total : β} {elements : List α}
    (hle : value total + (elements.map size).sum ≤ limit) :
    value (elements.foldl add total) = value total + (elements.map size).sum := by
  rw [h.foldl, Nat.mod_eq_of_lt (Nat.lt_succ_of_le hle)]

/-- A wrapped total is the saturated one up to the limit, and where it comes to lie on the limit. -/
theorem mod_succ_eq_min_iff {sum : ℕ} :
    sum % (limit + 1) = min limit sum ↔ sum ≤ limit ∨ sum % (limit + 1) = limit := by
  constructor
  · intro h
    by_cases hle : sum ≤ limit
    · exact .inl hle
    · rw [Nat.min_eq_left (Nat.le_of_not_le hle)] at h
      exact .inr h
  · rintro (hle | hmod)
    · rw [Nat.min_eq_right hle, Nat.mod_eq_of_lt (Nat.lt_succ_of_le hle)]
    · have hle : limit ≤ sum := hmod ▸ Nat.mod_le sum (limit + 1)
      rw [hmod, Nat.min_eq_left hle]

end GiveMePi.Library
