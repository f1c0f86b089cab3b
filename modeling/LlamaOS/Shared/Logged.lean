import Mathlib.Tactic.Common

/-!
# Computations that record what they touch

A value together with the events on the way to it. A property of every event of a computation
is proved along its structure.
-/

namespace LlamaOS

structure Logged (ε α : Type) where
  value : α
  log : List ε

namespace Logged

variable {ε α β : Type}

def record (e : ε) (a : α) : Logged ε α := ⟨a, [e]⟩

instance : Monad (Logged ε) where
  pure a := ⟨a, []⟩
  bind x f := ⟨(f x.value).value, x.log ++ (f x.value).log⟩

@[simp] theorem value_pure (a : α) : (pure a : Logged ε α).value = a := rfl

@[simp] theorem log_pure (a : α) : (pure a : Logged ε α).log = [] := rfl

@[simp] theorem value_bind (x : Logged ε α) (f : α → Logged ε β) :
    (x >>= f).value = (f x.value).value :=
  rfl

@[simp] theorem log_bind (x : Logged ε α) (f : α → Logged ε β) :
    (x >>= f).log = x.log ++ (f x.value).log :=
  rfl

/-- The computation after the given events. -/
def after (es : List ε) (x : Logged ε α) : Logged ε α := ⟨x.value, es ++ x.log⟩

@[simp] theorem value_after (es : List ε) (x : Logged ε α) : (x.after es).value = x.value := rfl

@[simp] theorem log_after (es : List ε) (x : Logged ε α) : (x.after es).log = es ++ x.log := rfl

theorem record_bind (e : ε) (a : α) (f : α → Logged ε β) : (record e a >>= f) = (f a).after [e] :=
  rfl

theorem after_after (es es' : List ε) (x : Logged ε α) :
    (x.after es').after es = x.after (es ++ es') := by
  simp only [after, List.append_assoc]

/-- Every event of the computation has `P`. -/
def Only (P : ε → Prop) (x : Logged ε α) : Prop := ∀ e ∈ x.log, P e

namespace Only

variable {P Q : ε → Prop} {x : Logged ε α} {f : α → Logged ε β}

protected theorem pure {a : α} : Only P (pure a : Logged ε α) := by
  intro e he
  cases he

protected theorem record {e : ε} (he : P e) {a : α} : Only P (record e a) := by
  intro e' he'
  rw [List.mem_singleton.mp he']
  exact he

protected theorem bind (hx : Only P x) (hf : Only P (f x.value)) : Only P (x >>= f) :=
  List.forall_mem_append.mpr ⟨hx, hf⟩

theorem imp (hx : Only P x) (h : ∀ e, P e → Q e) : Only Q x := fun e he => h e (hx e he)

end Only

end Logged

end LlamaOS
