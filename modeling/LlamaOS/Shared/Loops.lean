import Mathlib.Tactic.Common

/-!
# Loops with fuel

A loop is a step that goes on or stops. A run that ends is a finite chain of steps; fuel above a
quantity that every step decreases is never used up.
-/

namespace LlamaOS.Loops

variable {σ ρ : Type}

/-- The loop from this state stops with this result. -/
inductive Ends (step : σ → σ ⊕ ρ) : σ → ρ → Prop
  | stop {s : σ} {r : ρ} (h : step s = .inr r) : Ends step s r
  | next {s s' : σ} {r : ρ} (h : step s = .inl s') (hs : Ends step s' r) : Ends step s r

def fueled (step : σ → σ ⊕ ρ) (exhausted : σ → ρ) : Nat → σ → ρ
  | 0, s => exhausted s
  | left + 1, s =>
    match step s with
    | .inr r => r
    | .inl s' => fueled step exhausted left s'

theorem fueled_ends {step : σ → σ ⊕ ρ} {exhausted : σ → ρ} (size : σ → Nat)
    (hless : ∀ {s s'}, step s = .inl s' → size s' < size s) (left : Nat) :
    ∀ {s : σ}, size s < left → Ends step s (fueled step exhausted left s) := by
  induction left with
  | zero => exact fun h => absurd h (Nat.not_lt_zero _)
  | succ left ih =>
    intro s hsize
    unfold fueled
    cases hstep : step s with
    | inr r => exact .stop hstep
    | inl s' =>
      have hlt := hless hstep
      exact .next hstep (ih (by omega))

end LlamaOS.Loops
