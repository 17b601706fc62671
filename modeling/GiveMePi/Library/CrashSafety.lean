import Mathlib.Data.List.Infix
import Mathlib.Tactic.Common

/-! # Guarantees that survive crashes

A program leaves a history of steps, the newest first, each with the durable state behind it. A
crash keeps some earlier part of the history, so a guarantee that is to survive it must hold of the
state behind every step from where it is in force. -/

namespace GiveMePi.Library

universe u v

/-- A guarantee on durable states: it is in force from the beginning, or from a step that starts
it. -/
structure Guarantee (τ : Type u) (ς : Type v) where
  initially : Prop
  starts : τ → Prop
  good : ς → Prop

namespace Guarantee

variable {τ : Type u} {ς : Type v} (guarantee : Guarantee τ ς)

/-- Whether the guarantee is in force behind a history. -/
def InForce (history : List τ) : Prop :=
  guarantee.initially ∨ ∃ step ∈ history, guarantee.starts step

/-- The guarantee holds now and held behind every step, wherever it is in force. -/
structure Kept (left : τ → ς) (history : List τ) (current : ς) : Prop where
  current : guarantee.InForce history → guarantee.good current
  past : ∀ step earlier, step :: earlier <:+ history → guarantee.InForce (step :: earlier) →
    guarantee.good (left step)

namespace Kept

variable {guarantee} {left : τ → ς} {history : List τ} {current : ς}

theorem nil (h : guarantee.initially → guarantee.good current) :
    guarantee.Kept left [] current where
  current hforce := by
    rcases hforce with hforce | hforce
    · exact h hforce
    · simp at hforce
  past step earlier hsuffix := by simp at hsuffix

/-- What one step has to respect: it keeps the good states, and starts only with one. -/
theorem step {step : τ} (h : guarantee.Kept left history current)
    (hkeep : guarantee.good current → guarantee.good (left step))
    (hstart : guarantee.starts step → guarantee.good (left step)) :
    guarantee.Kept left (step :: history) (left step) := by
  have hnow : guarantee.InForce (step :: history) → guarantee.good (left step) := by
    intro hforce
    rcases hforce with hforce | hforce
    · exact hkeep (h.current (Or.inl hforce))
    · obtain ⟨other, hmem, hstarts⟩ := hforce
      rcases List.mem_cons.mp hmem with rfl | hmem
      · exact hstart hstarts
      · exact hkeep (h.current (Or.inr ⟨other, hmem, hstarts⟩))
  refine ⟨hnow, ?_⟩
  intro other earlier hsuffix hforce
  rcases List.suffix_cons_iff.mp hsuffix with heq | hsuffix
  · rw [List.cons.injEq] at heq
    exact heq.1 ▸ hnow (heq.1 ▸ heq.2 ▸ hforce)
  · exact h.past other earlier hsuffix hforce

end Kept

end Guarantee

end GiveMePi.Library
