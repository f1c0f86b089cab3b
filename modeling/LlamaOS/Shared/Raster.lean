import Mathlib.Data.List.Induction
import Mathlib.Logic.Function.Basic
import Mathlib.Tactic.Common

/-!
# Cells of a raster

Cells of `size` bytes in rows that start `pitch` bytes apart, and memories painted by a list of
writes.
-/

namespace LlamaOS.Raster

/-- Where the cell in column `x` of row `y` starts. -/
def cell (pitch size x y : Nat) : Nat := y * pitch + x * size

variable {pitch size width height x y i : Nat}

section

variable (hrow : width * size ≤ pitch)
include hrow

theorem column_fits (hx : x < width) : x * size + size ≤ pitch := by
  have hle : (x + 1) * size ≤ width * size := Nat.mul_le_mul_right _ hx
  rw [Nat.add_mul, Nat.one_mul] at hle
  omega

theorem cell_inside (hx : x < width) (hy : y < height) :
    cell pitch size x y + size ≤ pitch * height := by
  have hcolumn := column_fits hrow hx
  have hle : (y + 1) * pitch ≤ height * pitch := Nat.mul_le_mul_right _ hy
  rw [Nat.add_mul, Nat.one_mul, Nat.mul_comm height] at hle
  unfold cell
  omega

theorem cell_unique {x' y' i' : Nat} (hx : x < width) (hx' : x' < width) (hi : i < size)
    (hi' : i' < size) (h : cell pitch size x y + i = cell pitch size x' y' + i') :
    x = x' ∧ y = y' ∧ i = i' := by
  have hcolumn := column_fits hrow hx
  have hcolumn' := column_fits hrow hx'
  have hrows : ∀ {x y i : Nat}, x * size + i < pitch →
      (cell pitch size x y + i) / pitch = y ∧ (cell pitch size x y + i) % pitch = x * size + i := by
    intro x y i hlt
    unfold cell
    rw [Nat.add_assoc, Nat.add_comm, Nat.add_mul_div_right _ _ (by omega),
      Nat.add_mul_mod_self_right, Nat.div_eq_of_lt hlt, Nat.mod_eq_of_lt hlt]
    exact ⟨Nat.zero_add _, rfl⟩
  obtain ⟨hy, hcell⟩ := @hrows x y i (by omega)
  obtain ⟨hy', hcell'⟩ := @hrows x' y' i' (by omega)
  rw [h] at hy hcell
  have hcolumns : x * size + i = x' * size + i' := hcell.symm.trans hcell'
  have hdiv : ∀ {x i : Nat}, i < size → (x * size + i) / size = x ∧ (x * size + i) % size = i := by
    intro x i hlt
    rw [Nat.add_comm, Nat.add_mul_div_right _ _ (by omega), Nat.add_mul_mod_self_right,
      Nat.div_eq_of_lt hlt, Nat.mod_eq_of_lt hlt]
    exact ⟨Nat.zero_add _, rfl⟩
  obtain ⟨hfst, hsnd⟩ := @hdiv x i hi
  obtain ⟨hfst', hsnd'⟩ := @hdiv x' i' hi'
  rw [hcolumns] at hfst hsnd
  exact ⟨hfst.symm.trans hfst', hy.symm.trans hy', hsnd.symm.trans hsnd'⟩

end

variable {β : Type}

def paint (mem : Nat → β) (writes : List (Nat × β)) : Nat → β :=
  writes.foldl (fun mem w => Function.update mem w.1 w.2) mem

theorem paint_append (mem : Nat → β) (writes : List (Nat × β)) (w : Nat × β) :
    paint mem (writes ++ [w]) = Function.update (paint mem writes) w.1 w.2 := by
  unfold paint
  rw [List.foldl_append]
  rfl

theorem paint_outside {mem : Nat → β} {writes : List (Nat × β)} {a : Nat}
    (h : ∀ w ∈ writes, w.1 ≠ a) : paint mem writes a = mem a := by
  induction writes using List.reverseRecOn with
  | nil => rfl
  | append_singleton writes w ih =>
    rw [paint_append, Function.update_of_ne (h w (by simp)).symm]
    exact ih fun w hw => h w (List.mem_append_left _ hw)

theorem paint_inside {mem : Nat → β} {writes : List (Nat × β)} {a : Nat} {b : β}
    (h : ∀ w ∈ writes, w.1 = a → w.2 = b) (hsome : ∃ w ∈ writes, w.1 = a) :
    paint mem writes a = b := by
  induction writes using List.reverseRecOn with
  | nil =>
    obtain ⟨w, hw, _⟩ := hsome
    exact absurd hw List.not_mem_nil
  | append_singleton writes w ih =>
    rw [paint_append]
    by_cases hw : w.1 = a
    · rw [hw, Function.update_self]
      exact h w (by simp) hw
    rw [Function.update_of_ne (Ne.symm hw)]
    refine ih (fun w hw => h w (List.mem_append_left _ hw)) ?_
    obtain ⟨w', hmem, heq⟩ := hsome
    rcases List.mem_append.mp hmem with hmem | hmem
    · exact ⟨w', hmem, heq⟩
    · rw [List.mem_singleton.mp hmem] at heq
      exact absurd heq hw

end LlamaOS.Raster
