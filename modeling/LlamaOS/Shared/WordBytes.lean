import Mathlib.Tactic.Common

/-!
# Bytes of a machine word

Eight bytes in a 64-bit word, the least significant byte first.
-/

namespace WordBytes

def getByte (w : BitVec 64) (k : Nat) : BitVec 8 := w.extractLsb' (8 * k) 8

def setByte (w : BitVec 64) (k : Nat) (b : BitVec 8) : BitVec 64 :=
  (w &&& ~~~(0xFF#64 <<< (8 * k))) ||| (b.setWidth 64 <<< (8 * k))

theorem getLsbD_byteMask (i : Nat) : (0xFF#64).getLsbD i = decide (i < 8) := by
  by_cases hi : i < 64
  · have h : ∀ j : Fin 64, (0xFF#64).getLsbD j = decide (j.val < 8) := by decide
    exact h ⟨i, hi⟩
  · rw [BitVec.getLsbD_of_ge _ _ (by omega), decide_eq_false (by omega)]

theorem getLsbD_setByte (w : BitVec 64) {k : Nat} (b : BitVec 8) {i : Nat} (hi : i < 64) :
    (setByte w k b).getLsbD i =
      if 8 * k ≤ i ∧ i < 8 * k + 8 then b.getLsbD (i - 8 * k) else w.getLsbD i := by
  simp only [setByte, BitVec.getLsbD_or, BitVec.getLsbD_and, BitVec.getLsbD_not,
    BitVec.getLsbD_shiftLeft, BitVec.getLsbD_setWidth, getLsbD_byteMask]
  by_cases hlo : i < 8 * k
  · have hno : ¬ (8 * k ≤ i ∧ i < 8 * k + 8) := by omega
    simp [hi, hlo, hno]
  by_cases hhi : i < 8 * k + 8
  · have hin : 8 * k ≤ i ∧ i < 8 * k + 8 := by omega
    have h8 : i - 8 * k < 8 := by omega
    have h64 : i - 8 * k < 64 := by omega
    simp [hi, hlo, hin, h8, h64]
  have hno : ¬ (8 * k ≤ i ∧ i < 8 * k + 8) := by omega
  have h8 : ¬ i - 8 * k < 8 := by omega
  have hb : b.getLsbD (i - 8 * k) = false := BitVec.getLsbD_of_ge b _ (by omega)
  simp [hi, hlo, hno, h8, hb]

theorem getByte_setByte_self (w : BitVec 64) {k : Nat} (hk : k < 8) (b : BitVec 8) :
    getByte (setByte w k b) k = b := by
  apply BitVec.eq_of_getLsbD_eq
  intro i hi
  rw [getByte, BitVec.getLsbD_extractLsb', getLsbD_setByte w b (by omega), decide_eq_true hi,
    Bool.true_and, if_pos (by omega), show 8 * k + i - 8 * k = i by omega]

theorem getByte_setByte_of_ne (w : BitVec 64) {j k : Nat} (hj : j < 8) (hne : j ≠ k)
    (b : BitVec 8) : getByte (setByte w k b) j = getByte w j := by
  apply BitVec.eq_of_getLsbD_eq
  intro i hi
  rw [getByte, getByte, BitVec.getLsbD_extractLsb', BitVec.getLsbD_extractLsb',
    getLsbD_setByte w b (by omega), if_neg (by omega)]

@[simp] theorem getByte_zero (k : Nat) : getByte 0#64 k = 0#8 := by
  apply BitVec.eq_of_getLsbD_eq
  intro i hi
  rw [getByte, BitVec.getLsbD_extractLsb', BitVec.getLsbD_zero, BitVec.getLsbD_zero, Bool.and_false]

end WordBytes
