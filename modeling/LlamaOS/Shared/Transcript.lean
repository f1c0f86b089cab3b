import Mathlib.Data.List.Basic

/-!
# Programs as lists of primitive actions

A program over a state is described from outside by the primitive actions it performs: how
many there are at most, and what holds for each of them. Invariants and costs of the single
actions carry over to the whole program.
-/

namespace LlamaOS.Transcript

variable {σ α : Type} {run : σ → α → σ}

/-- At most `n` actions, each of them with `P`, lead from `s` to `s'`. -/
def Does (run : σ → α → σ) (P : α → Prop) (n : Nat) (s s' : σ) : Prop :=
  ∃ actions : List α, actions.foldl run s = s' ∧ actions.length ≤ n ∧ ∀ a ∈ actions, P a

namespace Does

variable {P Q : α → Prop} {n m : Nat} {s s' s'' : σ}

theorem refl : Does run P n s s :=
  ⟨[], rfl, Nat.zero_le _, fun a ha => by cases ha⟩

theorem one {a : α} (h : P a) (s : σ) : Does run P 1 s (run s a) := by
  refine ⟨[a], rfl, Nat.le_refl _, ?_⟩
  intro b hb
  rw [List.mem_singleton.mp hb]
  exact h

theorem trans (h : Does run P n s s') (h' : Does run P m s' s'') : Does run P (n + m) s s'' := by
  obtain ⟨actions, hrun, hlen, hall⟩ := h
  obtain ⟨actions', hrun', hlen', hall'⟩ := h'
  refine ⟨actions ++ actions', ?_, ?_, ?_⟩
  · rw [List.foldl_append, hrun, hrun']
  · rw [List.length_append]
    omega
  · exact List.forall_mem_append.mpr ⟨hall, hall'⟩

theorem mono (h : Does run P n s s') (hle : n ≤ m) : Does run P m s s' := by
  obtain ⟨actions, hrun, hlen, hall⟩ := h
  exact ⟨actions, hrun, Nat.le_trans hlen hle, hall⟩

theorem invariant {I : σ → Prop} (hstep : ∀ s a, P a → I s → I (run s a)) (h : Does run P n s s')
    (hs : I s) : I s' := by
  obtain ⟨actions, rfl, _, hall⟩ := h
  induction actions generalizing s with
  | nil => exact hs
  | cons a actions ih =>
    have ha := hstep s a (hall a List.mem_cons_self) hs
    have hlen : actions.length ≤ n := by
      rename_i hle
      rw [List.length_cons] at hle
      omega
    exact ih ha hlen fun b hb => hall b (List.mem_cons_of_mem _ hb)

/-- Where each action costs at most `k`, the program costs at most `k` for each of its actions. -/
theorem cost {I : σ → Prop} {measure : σ → Nat} {k : Nat}
    (hstep : ∀ s a, P a → I s → I (run s a) ∧ measure (run s a) ≤ measure s + k)
    (h : Does run P n s s') (hs : I s) : measure s' ≤ measure s + n * k := by
  obtain ⟨actions, rfl, hlen, hall⟩ := h
  have hsum : measure (actions.foldl run s) ≤ measure s + actions.length * k := by
    clear hlen
    induction actions generalizing s with
    | nil =>
      rw [List.length_nil, Nat.zero_mul]
      exact Nat.le_refl _
    | cons a actions ih =>
      obtain ⟨ha, hcost⟩ := hstep s a (hall a List.mem_cons_self) hs
      have hrest := ih ha fun b hb => hall b (List.mem_cons_of_mem _ hb)
      rw [List.foldl_cons, List.length_cons, Nat.succ_mul]
      omega
  have hle := Nat.mul_le_mul_right k hlen
  omega

end Does

end LlamaOS.Transcript
