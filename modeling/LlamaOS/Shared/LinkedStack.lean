/-!
# Stacks in a table of links

Each entry of the table names the next one; a mark ends the stack.
-/

namespace LlamaOS.LinkedStack

/-- From `head` on, the table links the entries of the list and then the end mark. -/
def Links (link : Nat → Nat) (mark : Nat) : Nat → List Nat → Prop
  | head, [] => head = mark
  | head, x :: xs => head = x ∧ Links link mark (link x) xs

variable {link link' : Nat → Nat} {mark : Nat}

theorem Links.congr {xs : List Nat} {head} (h : Links link mark head xs)
    (hsame : ∀ x ∈ xs, link' x = link x) : Links link' mark head xs := by
  induction xs generalizing head with
  | nil => exact h
  | cons x xs ih =>
    refine ⟨h.1, ?_⟩
    rw [hsame x List.mem_cons_self]
    exact ih h.2 fun y hy => hsame y (List.mem_cons_of_mem _ hy)

theorem Links.push {head x : Nat} {xs : List Nat} (h : Links link mark head xs)
    (hx : link' x = head) (hsame : ∀ y ∈ xs, link' y = link y) : Links link' mark x (x :: xs) := by
  refine ⟨rfl, ?_⟩
  rw [hx]
  exact h.congr hsame

theorem links_range {start count : Nat}
    (hnext : ∀ i, start ≤ i → i + 1 < start + count → link i = i + 1)
    (hlast : 0 < count → link (start + count - 1) = mark) (hpos : 0 < count) :
    Links link mark start (List.range' start count) := by
  induction count generalizing start with
  | zero => cases hpos
  | succ count ih =>
    rw [List.range'_succ]
    refine ⟨rfl, ?_⟩
    cases count with
    | zero =>
      rw [List.range'_zero]
      exact hlast hpos
    | succ count =>
      rw [hnext start (Nat.le_refl _) (by omega)]
      refine ih (fun i hi hlt => hnext i (by omega) (by omega)) (fun _ => ?_) (Nat.succ_pos _)
      rw [← hlast hpos]
      exact congrArg link (by omega)

end LlamaOS.LinkedStack
