import Mathlib.Tactic.Common

/-!
# One's-complement sums

Sums of 16-bit words with the carries added back in. A sum that is not zero folds to its
residue modulo 65535, with 65535 in the place of zero.
-/

namespace LlamaOS.OnesComplement

/-- At most `rounds` times, what is above the low 16 bits is added to them. -/
def fold : Nat → Nat → Nat
  | 0, sum => sum
  | rounds + 1, sum => if sum / 65536 = 0 then sum else fold rounds (sum % 65536 + sum / 65536)

theorem fold_mod (rounds sum : Nat) : fold rounds sum % 65535 = sum % 65535 := by
  induction rounds generalizing sum with
  | zero => rfl
  | succ rounds ih =>
    rw [fold]
    split
    · rfl
    · rw [ih]
      omega

theorem fold_pos (rounds : Nat) {sum} (h : 0 < sum) : 0 < fold rounds sum := by
  induction rounds generalizing sum with
  | zero => exact h
  | succ rounds ih =>
    rw [fold]
    split
    · exact h
    · exact ih (by omega)

theorem fold_lt {sum : Nat} (h : sum < 4294967296) : fold 2 sum < 65536 := by
  rw [fold, fold, fold]
  split
  · omega
  · split <;> omega

theorem fold_add_complement {sum : Nat} (h : sum + 65535 < 4294967296) :
    fold 2 (sum + (65535 - fold 2 sum)) = 65535 := by
  have hlt := fold_lt (show sum < 4294967296 by omega)
  have hmod := fold_mod 2 sum
  have hallLt := fold_lt (show sum + (65535 - fold 2 sum) < 4294967296 by omega)
  have hallMod := fold_mod 2 (sum + (65535 - fold 2 sum))
  have hallPos : 0 < fold 2 (sum + (65535 - fold 2 sum)) := by
    rcases Nat.eq_zero_or_pos sum with rfl | hpos
    · decide
    · exact fold_pos 2 (by omega)
  omega

end LlamaOS.OnesComplement
