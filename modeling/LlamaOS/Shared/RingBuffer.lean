import Mathlib.Tactic.Common

/-!
# Lists in a ring of cells

A list stands in the cells of a ring from a position on, one element after the other and around
the end. Appending, taking the head and closing a gap are changes of single cells.
-/

namespace LlamaOS.RingBuffer

variable {α : Type} {n : Nat} {cells cells' : Nat → Option α} {l : List α} {pos : Nat} {x : α}

/-- The cells from `pos` on hold the list. -/
def Holds (n : Nat) (cells : Nat → Option α) : List α → Nat → Prop
  | [], _ => True
  | x :: l, pos => cells pos = some x ∧ Holds n cells l ((pos + 1) % n)

def setCell (cells : Nat → Option α) (p : Nat) (v : Option α) : Nat → Option α :=
  fun i => if i = p then v else cells i

theorem setCell_self (p : Nat) (v : Option α) : setCell cells p v p = v := if_pos rfl

theorem setCell_ne {p q : Nat} (h : q ≠ p) (v : Option α) : setCell cells p v q = cells q :=
  if_neg h

theorem wrap (hpos : pos < n) {i : Nat} (hi : i ≤ n) :
    (pos + i) % n = if pos + i < n then pos + i else pos + i - n := by
  split
  · rename_i hlt
    exact Nat.mod_eq_of_lt hlt
  · rw [Nat.mod_eq_sub_mod (by omega), Nat.mod_eq_of_lt (by omega)]

theorem next_wrap (pos i : Nat) : ((pos + 1) % n + i) % n = (pos + (i + 1)) % n := by
  rw [Nat.mod_add_mod, Nat.add_assoc, Nat.add_comm 1 i]

theorem wrap_ne (hpos : pos < n) {i j : Nat} (hij : i < j) (hj : j < n) :
    (pos + i) % n ≠ (pos + j) % n := by
  rw [wrap hpos (by omega), wrap hpos (by omega)]
  split <;> split <;> omega

theorem ne_behind (hpos : pos < n) {i : Nat} (hi : i + 1 < n) : pos ≠ (pos + (i + 1)) % n := by
  have hne := wrap_ne hpos (Nat.succ_pos i) hi
  rwa [Nat.add_zero, Nat.mod_eq_of_lt hpos] at hne

theorem next_lt (hpos : pos < n) : (pos + 1) % n < n := Nat.mod_lt _ (by omega)

namespace Holds

theorem congr (hsame : ∀ i < l.length, cells' ((pos + i) % n) = cells ((pos + i) % n))
    (hpos : pos < n) (h : Holds n cells l pos) : Holds n cells' l pos := by
  induction l generalizing pos with
  | nil => trivial
  | cons y l ih =>
    have hfirst := hsame 0 (Nat.succ_pos _)
    rw [Nat.add_zero, Nat.mod_eq_of_lt hpos] at hfirst
    refine ⟨hfirst.trans h.1, ih (fun i hi => ?_) (next_lt hpos) h.2⟩
    rw [next_wrap]
    exact hsame (i + 1) (Nat.succ_lt_succ hi)

theorem append {l' : List α} (hpos : pos < n) :
    Holds n cells (l ++ l') pos ↔
      Holds n cells l pos ∧ Holds n cells l' ((pos + l.length) % n) := by
  induction l generalizing pos with
  | nil =>
    rw [List.nil_append, List.length_nil, Nat.add_zero, Nat.mod_eq_of_lt hpos, Holds, true_and]
  | cons y l ih =>
    rw [List.cons_append, Holds, Holds, ih (next_lt hpos), next_wrap, List.length_cons, and_assoc]

theorem update (h : Holds n cells l pos) (hpos : pos < n) {j : Nat} (hj : l.length ≤ j)
    (hjn : j < n) (v : Option α) : Holds n (setCell cells ((pos + j) % n) v) l pos :=
  h.congr (fun _ hi => setCell_ne (wrap_ne hpos (by omega) hjn) _) hpos

theorem push (h : Holds n cells l pos) (hpos : pos < n) (hroom : l.length < n) (x : α) :
    Holds n (setCell cells ((pos + l.length) % n) (some x)) (l ++ [x]) pos :=
  (append hpos).mpr ⟨h.update hpos (Nat.le_refl _) hroom _, setCell_self _ _, trivial⟩

theorem pop (h : Holds n cells (x :: l) pos) (hpos : pos < n) (hroom : l.length < n) :
    Holds n (setCell cells pos none) l ((pos + 1) % n) := by
  refine h.2.congr (fun i hi => ?_) (next_lt hpos)
  rw [next_wrap]
  exact setCell_ne (ne_behind hpos (by omega)).symm _

end Holds

/-- Every one of `left` cells takes the content of the next one. -/
def shift (n : Nat) (cells : Nat → Option α) : Nat → Nat → Nat → Option α
  | 0, _ => cells
  | left + 1, curr => shift n (setCell cells curr (cells ((curr + 1) % n))) left ((curr + 1) % n)

theorem shift_outside (hpos : pos < n) {left q : Nat} (hq : ∀ i < left, q ≠ (pos + i) % n) :
    shift n cells left pos q = cells q := by
  induction left generalizing cells pos with
  | zero => rfl
  | succ left ih =>
    have hfirst := hq 0 (Nat.succ_pos _)
    rw [Nat.add_zero, Nat.mod_eq_of_lt hpos] at hfirst
    rw [shift, ih (next_lt hpos), setCell_ne hfirst]
    intro i hi
    rw [next_wrap]
    exact hq (i + 1) (Nat.succ_lt_succ hi)

theorem Holds.shift (h : Holds n cells (x :: l) pos) (hpos : pos < n) (hroom : l.length < n) :
    Holds n (shift n cells l.length pos) l pos := by
  induction l generalizing cells pos x with
  | nil => trivial
  | cons y l ih =>
    rw [List.length_cons] at hroom
    have hrest : Holds n (setCell cells pos (cells ((pos + 1) % n))) (y :: l) ((pos + 1) % n) := by
      refine h.2.congr (fun i hi => ?_) (next_lt hpos)
      rw [List.length_cons] at hi
      rw [next_wrap]
      exact setCell_ne (ne_behind hpos (by omega)).symm _
    refine ⟨?_, ih hrest (next_lt hpos) (by omega)⟩
    rw [List.length_cons, RingBuffer.shift, shift_outside (next_lt hpos), setCell_self]
    · exact h.2.1
    · intro i hi
      rw [next_wrap]
      exact ne_behind hpos (by omega)

end LlamaOS.RingBuffer
