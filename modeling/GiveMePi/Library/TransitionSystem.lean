import Mathlib.Algebra.BigOperators.Fin
import Mathlib.Algebra.BigOperators.Group.Finset.Piecewise
import Mathlib.Algebra.Order.BigOperators.Group.Finset
import Mathlib.Logic.Relation
import Mathlib.Tactic.Common

/-! # Transition systems

States that are reached by steps from an initial one, what every such state has in common, and the
bookkeeping of items that move between a family of places. -/

namespace GiveMePi.Library

universe u v

/-- Initial states and steps, any interleaving of the parts being one step after the other. -/
structure TransitionSystem (σ : Type u) where
  initial : σ → Prop
  step : σ → σ → Prop

namespace TransitionSystem

variable {σ : Type u} (system : TransitionSystem σ)

/-- The states of the runs. -/
inductive Reachable : σ → Prop where
  | initial {s : σ} : system.initial s → Reachable s
  | step {s s' : σ} : Reachable s → system.step s s' → Reachable s'

variable {system}

/-- What holds initially and is kept by the steps between reachable states holds of each. -/
theorem Reachable.invariant {P : σ → Prop} (hinitial : ∀ s, system.initial s → P s)
    (hstep : ∀ s s', system.Reachable s → P s → system.step s s' → P s') {s : σ}
    (h : system.Reachable s) : P s := by
  induction h with
  | initial h => exact hinitial _ h
  | step h hs ih => exact hstep _ _ h ih hs

/-- A run of any length stays inside the reachable states. -/
theorem Reachable.run {s s' : σ} (h : system.Reachable s)
    (hrun : Relation.ReflTransGen system.step s s') : system.Reachable s' := by
  induction hrun with
  | refl => exact h
  | tail _ hs ih => exact ih.step hs

end TransitionSystem

/-! ## Items in places -/

/-- The items of a list, each counted with its weight. -/
def weight {α : Type u} (f : α → ℕ) (items : List α) : ℕ :=
  (items.map f).sum

section Weight

variable {α : Type u} (f : α → ℕ)

@[simp] theorem weight_nil : weight f [] = 0 := rfl

@[simp] theorem weight_cons (item : α) (items : List α) :
    weight f (item :: items) = f item + weight f items := by
  simp [weight]

@[simp] theorem weight_append (items items' : List α) :
    weight f (items ++ items') = weight f items + weight f items' := by
  simp [weight]

theorem weight_one (items : List α) : weight (fun _ => 1) items = items.length := by
  simp [weight]

theorem weight_indicator [DecidableEq α] (item : α) (items : List α) :
    weight (fun other => if other = item then 1 else 0) items = items.count item := by
  induction items with
  | nil => rfl
  | cons other items ih =>
      by_cases h : other = item
      · simp [h, ih, Nat.add_comm]
      · simp [h, ih]

theorem le_weight {item : α} {items : List α} (h : item ∈ items) : f item ≤ weight f items := by
  induction items with
  | nil => simp at h
  | cons other items ih =>
      rcases List.mem_cons.mp h with rfl | h
      · simp
      · have := ih h
        simp only [weight_cons]
        omega

end Weight

/-- A sum over places after one of them changes. -/
theorem sum_update_add {ι : Type u} {α : Type v} [Fintype ι] [DecidableEq ι] (g : α → ℕ)
    (place : ι → α) (i : ι) (content : α) :
    ∑ j, g (Function.update place i content j) + g (place i) = ∑ j, g (place j) + g content := by
  have hafter : ∀ j ∈ Finset.univ.erase i, g (Function.update place i content j) = g (place j) := by
    intro j hj
    rw [Function.update_of_ne (Finset.ne_of_mem_erase hj)]
  have hbefore := Finset.add_sum_erase Finset.univ (fun j => g (place j)) (Finset.mem_univ i)
  have hnow := Finset.add_sum_erase Finset.univ
    (fun j => g (Function.update place i content j)) (Finset.mem_univ i)
  rw [Finset.sum_congr rfl hafter] at hnow
  simp only [Function.update_self] at hbefore hnow
  omega

end GiveMePi.Library
