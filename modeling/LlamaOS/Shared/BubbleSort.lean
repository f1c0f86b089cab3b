import Mathlib.Data.List.Sort
import Mathlib.Tactic.Common

/-!
# Bubble sort by a natural key

A pass makes a given number of adjacent compare-and-swaps from the left; the sort
runs passes of decreasing length. After a pass of length `k` the element at
position `k` bounds everything before it, which is the invariant of the sort.
-/

namespace BubbleSort

universe u
variable {α : Type u} (key : α → Nat)

def pass : Nat → List α → List α
  | k + 1, a :: b :: rest =>
    if key a > key b then b :: pass k (a :: rest) else a :: pass k (b :: rest)
  | _, rest => rest

def passes : Nat → List α → List α
  | 0, l => l
  | k + 1, l => passes k (pass key (k + 1) l)

def sort (l : List α) : List α := passes key (l.length - 1) l

theorem pass_perm (k : Nat) (l : List α) : (pass key k l).Perm l := by
  induction k generalizing l with
  | zero => cases l <;> simp [pass]
  | succ k ih =>
    match l with
    | [] => simp [pass]
    | [a] => simp [pass]
    | a :: b :: rest =>
      simp only [pass]
      split
      · exact ((ih (a :: rest)).cons b).trans (List.Perm.swap a b rest)
      · exact (ih (b :: rest)).cons a

theorem passes_perm (k : Nat) (l : List α) : (passes key k l).Perm l := by
  induction k generalizing l with
  | zero => exact List.Perm.refl l
  | succ k ih => exact (ih _).trans (pass_perm key (k + 1) l)

theorem sort_perm (l : List α) : (sort key l).Perm l := passes_perm key _ l

theorem mem_sort {a : α} {l : List α} : a ∈ sort key l ↔ a ∈ l := (sort_perm key l).mem_iff

theorem length_sort (l : List α) : (sort key l).length = l.length := (sort_perm key l).length_eq

/-- One pass over a head of `k + 1` elements moves a maximum of it to its end and
leaves the tail alone. -/
theorem pass_append (k : Nat) (head tail : List α) (hlen : head.length = k + 1) :
    ∃ front last, pass key k (head ++ tail) = (front ++ [last]) ++ tail ∧
      front.length = k ∧ (front ++ [last]).Perm head ∧ ∀ x ∈ head, key x ≤ key last := by
  induction k generalizing head with
  | zero =>
    obtain ⟨a, rfl⟩ := List.length_eq_one_iff.mp hlen
    exact ⟨[], a, by simp [pass], rfl, by simp, by simp⟩
  | succ k ih =>
    match head, hlen with
    | a :: b :: rest, hlen =>
      have hrest : rest.length = k := by simpa using hlen
      simp only [List.cons_append, pass]
      split
      · rename_i hgt
        obtain ⟨front, last, he, hl, hp, hmax⟩ := ih (a :: rest) (by simp [hrest])
        refine ⟨b :: front, last, ?_, by simp [hl], ?_, ?_⟩
        · rw [List.cons_append] at he
          simp [he]
        · exact ((hp.cons b).trans (List.Perm.swap a b rest))
        · obtain ⟨ha, hmax⟩ := List.forall_mem_cons.mp hmax
          exact List.forall_mem_cons.mpr ⟨ha, List.forall_mem_cons.mpr ⟨by omega, hmax⟩⟩
      · rename_i hle
        obtain ⟨front, last, he, hl, hp, hmax⟩ := ih (b :: rest) (by simp [hrest])
        refine ⟨a :: front, last, ?_, by simp [hl], hp.cons a, ?_⟩
        · rw [List.cons_append] at he
          simp [he]
        · have hb : key b ≤ key last := hmax b List.mem_cons_self
          exact List.forall_mem_cons.mpr ⟨by omega, hmax⟩

theorem passes_sorted (k : Nat) (head tail : List α) (hlen : head.length = k + 1)
    (htail : tail.Pairwise fun x y => key x ≤ key y)
    (hbound : ∀ x ∈ head, ∀ y ∈ tail, key x ≤ key y) :
    (passes key k (head ++ tail)).Pairwise fun x y => key x ≤ key y := by
  induction k generalizing head tail with
  | zero =>
    obtain ⟨a, rfl⟩ := List.length_eq_one_iff.mp hlen
    simp only [passes, List.singleton_append, List.pairwise_cons]
    exact ⟨fun y hy => hbound a (by simp) y hy, htail⟩
  | succ k ih =>
    obtain ⟨front, last, he, hl, hp, hmax⟩ := pass_append key (k + 1) head tail hlen
    have hmem : ∀ x ∈ front ++ [last], x ∈ head := fun x hx => hp.mem_iff.mp hx
    simp only [passes]
    rw [he, List.append_assoc]
    apply ih front ([last] ++ tail) hl
    · simp only [List.singleton_append, List.pairwise_cons]
      exact ⟨fun y hy => hbound last (hmem last (by simp)) y hy, htail⟩
    · intro x hx y hy
      rcases List.mem_cons.mp hy with rfl | hy
      · exact hmax x (hmem x (by simp [hx]))
      · exact hbound x (hmem x (by simp [hx])) y hy

theorem sort_sorted (l : List α) : (sort key l).Pairwise fun x y => key x ≤ key y := by
  cases l with
  | nil => exact List.Pairwise.nil
  | cons a l =>
    have h := passes_sorted key l.length (a :: l) [] (by simp) List.Pairwise.nil (by simp)
    simpa [sort] using h

end BubbleSort
