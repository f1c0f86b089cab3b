import Mathlib.Tactic.Common

/-!
# Computations that read a part of memory

Memory is a partial function; a computation fails when it reads where there is nothing. A local
computation succeeds wherever its window is there, and its result depends on nothing else.
-/

namespace LlamaOS.PartialReads

variable {α β γ : Type} {lo hi : Nat}

/-- Both memories hold the same bytes in the window. -/
def Agree (lo hi : Nat) (mem mem' : Nat → Option β) : Prop :=
  ∀ a, lo ≤ a → a < hi → ∃ b, mem a = some b ∧ mem' a = some b

def Local (lo hi : Nat) (f : (Nat → Option β) → Option α) : Prop :=
  ∀ mem mem', Agree lo hi mem mem' → ∃ x, f mem = some x ∧ f mem' = some x

namespace Local

theorem pure (x : α) : Local lo hi fun _ : Nat → Option β => Pure.pure x :=
  fun _ _ _ => ⟨x, rfl, rfl⟩

theorem byte {a : Nat} (ha : lo ≤ a ∧ a < hi) : Local lo hi fun mem : Nat → Option β => mem a :=
  fun _ _ h => h a ha.1 ha.2

theorem bind {f : (Nat → Option β) → Option α} {g : α → (Nat → Option β) → Option γ}
    (hf : Local lo hi f) (hg : ∀ x, Local lo hi (g x)) :
    Local lo hi fun mem => f mem >>= fun x => g x mem := by
  intro mem mem' h
  obtain ⟨x, hx, hx'⟩ := hf mem mem' h
  obtain ⟨y, hy, hy'⟩ := hg x mem mem' h
  refine ⟨y, ?_, ?_⟩
  · dsimp only
    rw [hx]
    exact hy
  · dsimp only
    rw [hx']
    exact hy'

variable {c : Prop} [Decidable c] {f g : (Nat → Option β) → Option α}

theorem ite (hf : c → Local lo hi f) (hg : ¬ c → Local lo hi g) :
    Local lo hi fun mem => if c then f mem else g mem := by
  intro mem mem' h
  by_cases hc : c
  · simp only [if_pos hc]
    exact hf hc mem mem' h
  · simp only [if_neg hc]
    exact hg hc mem mem' h

theorem when {x : α} (hf : c → Local lo hi f) :
    Local lo hi fun mem => if c then f mem else Pure.pure x :=
  .ite hf fun _ => .pure x

theorem past {x : α} (hf : ¬ c → Local lo hi f) :
    Local lo hi fun mem => if c then Pure.pure x else f mem :=
  .ite (fun _ => .pure x) hf

end Local

end LlamaOS.PartialReads
