import Mathlib.Data.List.Perm.Basic
import Mathlib.Logic.Function.Basic

/-!
# Lists of memory regions

Regions that lie apart from each other, whatever their order in the list, and regions kept in bins
of one size each.
-/

namespace LlamaOS.Regions

structure Region where
  start : Nat
  length : Nat

namespace Region

def Has (r : Region) (a : Nat) : Prop := r.start ≤ a ∧ a < r.start + r.length

def Apart (r s : Region) : Prop := r.start + r.length ≤ s.start ∨ s.start + s.length ≤ r.start

variable {r s : Region}

theorem Apart.symm (h : Apart r s) : Apart s r := Or.symm h

theorem Apart.not_has (h : Apart r s) {a : Nat} (hr : r.Has a) : ¬ s.Has a := by
  unfold Apart at h
  unfold Has at *
  omega

theorem apart_of_forall (hr : 0 < r.length) (hs : 0 < s.length) (h : ∀ a, r.Has a → ¬ s.Has a) :
    Apart r s := by
  unfold Apart
  by_contra hover
  refine h (max r.start s.start) ⟨?_, ?_⟩ ⟨?_, ?_⟩ <;> omega

theorem Apart.part {t : Region} (h : Apart r s) (hlo : r.start ≤ t.start)
    (hhi : t.start + t.length ≤ r.start + r.length) : Apart t s := by
  unfold Apart at *
  omega

end Region

open Region

/-- No two regions of the list overlap. -/
def AllApart (l : List Region) : Prop := l.Pairwise Apart

variable {l l' : List Region} {r : Region}

theorem AllApart.perm (h : AllApart l) (hperm : l.Perm l') : AllApart l' :=
  (hperm.pairwise_iff Apart.symm).mp h

theorem allApart_cons : AllApart (r :: l) ↔ (∀ s ∈ l, Apart r s) ∧ AllApart l := List.pairwise_cons

def row (base size count : Nat) : List Region :=
  (List.range count).map fun i => ⟨base + i * size, size⟩

theorem mem_row {base size count : Nat} :
    r ∈ row base size count ↔ ∃ i < count, r = ⟨base + i * size, size⟩ := by
  unfold row
  simp only [List.mem_map, List.mem_range, eq_comm]

theorem row_inside {base size count : Nat} (hr : r ∈ row base size count) :
    base ≤ r.start ∧ r.start + r.length ≤ base + count * size := by
  obtain ⟨i, hi, rfl⟩ := mem_row.mp hr
  have hle : (i + 1) * size ≤ count * size := Nat.mul_le_mul_right _ hi
  rw [Nat.add_mul, Nat.one_mul] at hle
  dsimp only
  omega

theorem row_apart (base size count : Nat) : AllApart (row base size count) := by
  refine List.pairwise_map.mpr (List.pairwise_lt_range.imp fun {i j} hij => .inl ?_)
  have hle : (i + 1) * size ≤ j * size := Nat.mul_le_mul_right _ hij
  rw [Nat.add_mul, Nat.one_mul] at hle
  dsimp only
  omega

/-- The regions of the bins below `count`; the regions of a bin have one size. -/
def binned (size : Nat → Nat) (lists : Nat → List Nat) (count : Nat) : List Region :=
  (List.range count).flatMap fun bin => (lists bin).map fun x => ⟨x, size bin⟩

variable {size : Nat → Nat} {lists : Nat → List Nat} {count : Nat}

theorem mem_binned :
    r ∈ binned size lists count ↔ ∃ bin < count, ∃ x ∈ lists bin, r = ⟨x, size bin⟩ := by
  unfold binned
  simp only [List.mem_flatMap, List.mem_range, List.mem_map, eq_comm]

theorem binned_succ :
    binned size lists (count + 1) = binned size lists count ++ (lists count).map fun x =>
      ⟨x, size count⟩ := by
  unfold binned
  rw [List.range_succ, List.flatMap_append, List.flatMap_singleton]

theorem binned_congr {lists' : Nat → List Nat} (h : ∀ bin < count, lists' bin = lists bin) :
    binned size lists' count = binned size lists count := by
  unfold binned
  refine List.flatMap_congr fun bin hbin => ?_
  rw [h bin (List.mem_range.mp hbin)]

theorem binned_push {bin x : Nat} {xs : List Nat} (hbin : bin < count) :
    (binned size (Function.update lists bin (x :: xs)) count).Perm
      (⟨x, size bin⟩ :: binned size (Function.update lists bin xs) count) := by
  induction count with
  | zero => exact absurd hbin (Nat.not_lt_zero _)
  | succ count ih =>
    rw [binned_succ, binned_succ]
    rcases Nat.lt_succ_iff_lt_or_eq.mp hbin with hlt | rfl
    · rw [Function.update_of_ne (by omega), Function.update_of_ne (by omega)]
      exact (ih hlt).append_right _
    have hsame : binned size (Function.update lists bin (x :: xs)) bin =
        binned size (Function.update lists bin xs) bin :=
      binned_congr fun b hb => by
        rw [Function.update_of_ne (Nat.ne_of_lt hb), Function.update_of_ne (Nat.ne_of_lt hb)]
    rw [Function.update_self, Function.update_self, hsame, List.map_cons]
    exact List.perm_middle

end LlamaOS.Regions
