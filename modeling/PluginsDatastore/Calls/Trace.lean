import Mathlib.Data.List.Basic
import Mathlib.Tactic.Common

/-!
# Runs of labelled steps

`Trace R σ es σ'` says that the steps labelled `es`, taken one after another
under the step relation `R`, lead from the state `σ` to the state `σ'`. The two
rules used on runs are `Trace.preserves`, for what every step keeps, and
`Trace.exists_switch`, which finds in a run from a state with a property to a
state without it the step that lost it.
-/

namespace Calls

variable {State Ev : Type} {R : State → Ev → State → Prop}

/-- The runs of the step relation `R`, with the labels of their steps. -/
inductive Trace (R : State → Ev → State → Prop) : State → List Ev → State → Prop
  | nil (σ : State) : Trace R σ [] σ
  | cons {σ σ₁ σ₂ : State} {e : Ev} {es : List Ev} :
      R σ e σ₁ → Trace R σ₁ es σ₂ → Trace R σ (e :: es) σ₂

namespace Trace

/-- Runs compose. -/
theorem append {σ σ₁ σ₂ : State} {es es' : List Ev} (h : Trace R σ es σ₁)
    (h' : Trace R σ₁ es' σ₂) : Trace R σ (es ++ es') σ₂ := by
  -- by induction on the first run, whose end is the start of the second
  induction h with
  | nil σ => exact h'
  | cons hstep _ ih => exact .cons hstep (ih h')

/-- **The invariant rule.** What every step keeps holds at the end of a run from
a state where it holds. -/
theorem preserves {P : State → Prop} (hP : ∀ σ e σ', P σ → R σ e σ' → P σ')
    {σ σ' : State} {es : List Ev} (h : Trace R σ es σ') (h₀ : P σ) : P σ' := by
  induction h with
  | nil σ => exact h₀
  | cons hstep _ ih => exact ih (hP _ _ _ h₀ hstep)

/-- **The step that loses a property.** A run from a state with `P` to a state
without it has a step that is taken with `P` and left without. -/
theorem exists_switch {P : State → Prop} {σ σ' : State} {es : List Ev}
    (h : Trace R σ es σ') (h₀ : P σ) (h₁ : ¬ P σ') :
    ∃ es₁ e es₂ τ τ', es = es₁ ++ e :: es₂ ∧ Trace R σ es₁ τ ∧ R τ e τ' ∧
      Trace R τ' es₂ σ' ∧ P τ ∧ ¬ P τ' := by
  induction h with
  | nil σ => exact absurd h₀ h₁
  | @cons σ σ₁ σ₂ e es hstep hrest ih =>
    by_cases hP : P σ₁
    · -- the property survives the first step and is lost later
      obtain ⟨es₁, e', es₂, τ, τ', rfl, hpre, he, hpost, hτ, hτ'⟩ := ih hP h₁
      exact ⟨e :: es₁, e', es₂, τ, τ', rfl, .cons hstep hpre, he, hpost, hτ, hτ'⟩
    · -- the first step loses it
      exact ⟨[], e, es, σ, σ₁, rfl, .nil σ, hstep, hrest, h₀, hP⟩

end Trace

end Calls
