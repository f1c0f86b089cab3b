import Mathlib.Tactic.Common

/-!
# Loops that may stop

A loop over a list whose body may have no result. What every completed iteration keeps,
a completed loop keeps; and a body that always completes makes the loop complete. Where
the body may stop with an error, the loop either keeps the invariant to its end or stops
in an iteration that started with it.
-/

namespace MonadicFold

universe u v
variable {α : Type u} {β : Type v}

theorem invariant {P : β → Prop} {f : β → α → Option β} {l : List α}
    (hstep : ∀ b a b', a ∈ l → P b → f b a = some b' → P b') {b b' : β} (hb : P b)
    (h : l.foldlM f b = some b') : P b' := by
  induction l generalizing b with
  | nil =>
    cases h
    exact hb
  | cons a l ih =>
    rw [List.foldlM_cons] at h
    obtain ⟨b₁, h₁, h⟩ := Option.bind_eq_some_iff.mp h
    exact ih (fun b a b' ha => hstep b a b' (List.mem_cons_of_mem _ ha))
      (hstep b a b₁ List.mem_cons_self hb h₁) h

theorem total {P : List α → β → Prop} {f : β → α → Option β} {l : List α} (hl : l.Nodup)
    (hstep : ∀ done a b, a ∈ l → a ∉ done → P done b → ∃ b', f b a = some b' ∧ P (done ++ [a]) b')
    {b : β} (hb : P [] b) : ∃ b', l.foldlM f b = some b' ∧ P l b' := by
  have hloop : ∀ (rest done : List α) (b : β), done ++ rest = l → P done b →
      ∃ b', rest.foldlM f b = some b' ∧ P l b' := by
    intro rest
    induction rest with
    | nil =>
      intro done b hsplit hdone
      rw [List.append_nil] at hsplit
      exact ⟨b, rfl, hsplit ▸ hdone⟩
    | cons a rest ih =>
      intro done b hsplit hdone
      have hfresh : a ∉ done := by
        intro hmem
        rw [← hsplit] at hl
        exact (List.nodup_append.mp hl).2.2 a hmem a List.mem_cons_self rfl
      obtain ⟨b₁, h₁, hnext⟩ := hstep done a b (hsplit ▸ by simp) hfresh hdone
      obtain ⟨b', hrest, hend⟩ :=
        ih (done ++ [a]) b₁ (by rw [List.append_assoc]; exact hsplit) hnext
      refine ⟨b', ?_, hend⟩
      rw [List.foldlM_cons, h₁]
      exact hrest
  exact hloop l [] b (List.nil_append l) hb

section Errors
variable {ε : Type u} {γ : Type v}

/-- A run that ends with a value in `P`. -/
def Completes (x : Except ε β) (P : β → Prop) : Prop := ∃ b, x = .ok b ∧ P b

variable {P : β → Prop}

theorem Completes.pure {b : β} (h : P b) : Completes (.ok b : Except ε β) P := ⟨b, rfl, h⟩

theorem Completes.bind {x : Except ε β} {f : β → Except ε γ} {Q : γ → Prop}
    (hx : Completes x P) (hf : ∀ b, P b → Completes (f b) Q) : Completes (x >>= f) Q := by
  obtain ⟨b, rfl, hb⟩ := hx
  exact hf b hb

variable {l : List α}

theorem Completes.mapM {f : α → Except ε β}
    (hf : ∀ a ∈ l, Completes (f a) P) : Completes (l.mapM f) fun r => r.length = l.length := by
  induction l with
  | nil => exact .pure rfl
  | cons a l ih =>
    rw [List.mapM_cons]
    apply (hf a List.mem_cons_self).bind
    intro b _
    apply (ih fun a' ha' => hf a' (List.mem_cons_of_mem _ ha')).bind
    intro r hr
    exact .pure (by rw [List.length_cons, List.length_cons, hr])

/-- How a loop ends: after the whole list, or in the iteration of some element. -/
theorem exit {P : List α → β → Prop} {f : β → α → Except ε β}
    (hstep : ∀ done a b b', done ++ [a] <+: l → P done b → f b a = .ok b' → P (done ++ [a]) b')
    {b : β} (hb : P [] b) :
    (∃ b', l.foldlM f b = .ok b' ∧ P l b') ∨
      ∃ done a b' e, done ++ [a] <+: l ∧ P done b' ∧ f b' a = .error e ∧
        l.foldlM f b = .error e := by
  have hloop : ∀ (rest done : List α) (b : β), done ++ rest = l → P done b →
      (∃ b', rest.foldlM f b = .ok b' ∧ P l b') ∨
        ∃ done a b' e, done ++ [a] <+: l ∧ P done b' ∧ f b' a = .error e ∧
          rest.foldlM f b = .error e := by
    intro rest
    induction rest with
    | nil =>
      intro done b hsplit hdone
      rw [List.append_nil] at hsplit
      exact Or.inl ⟨b, rfl, hsplit ▸ hdone⟩
    | cons a rest ih =>
      intro done b hsplit hdone
      have hpre : done ++ [a] <+: l := ⟨rest, by rw [List.append_assoc]; exact hsplit⟩
      rw [List.foldlM_cons]
      cases hrun : f b a with
      | error e => exact Or.inr ⟨done, a, b, e, hpre, hdone, hrun, rfl⟩
      | ok b₁ =>
        exact ih (done ++ [a]) b₁ (by rw [List.append_assoc]; exact hsplit)
          (hstep done a b b₁ hpre hdone hrun)
  exact hloop l [] b (List.nil_append l) hb

theorem foldlM_ok {f : β → α → Except ε β} {g : β → α → β}
    (h : ∀ b, ∀ a ∈ l, f b a = .ok (g b a)) (b : β) : l.foldlM f b = .ok (l.foldl g b) := by
  induction l generalizing b with
  | nil => rfl
  | cons a l ih =>
    rw [List.foldlM_cons, h b a List.mem_cons_self, List.foldl_cons]
    exact ih (fun b' a' ha' => h b' a' (List.mem_cons_of_mem _ ha')) (g b a)

end Errors

end MonadicFold
