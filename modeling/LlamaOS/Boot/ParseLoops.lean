import LlamaOS.Boot.Multiboot2
import LlamaOS.Shared.Loops

/-!
# The parser's loops end

Every turn of the tag loop and of the entry loop moves closer to the end of its block, so the fuel
of the model is never used up.
-/

namespace LlamaOS.Boot
open Loops

section Termination
variable (mem : Memory)

def entryStep (entrySize entriesEnd : Nat) (s : Nat × BootInformation) :
    Nat × BootInformation ⊕ Option BootInformation :=
  if s.1 < entriesEnd ∧ entriesEnd - s.1 ≥ entrySize then
    match readEntry mem s.1 with
    | none => .inr none
    | some e =>
      if uint64Max - s.1 < entrySize then .inr (some (addEntry s.2 e))
      else .inl (s.1 + entrySize, addEntry s.2 e)
  else .inr (some s.2)

def tagStep (endAddr : Nat) (s : Nat × ParseState) :
    Nat × ParseState ⊕ Option (Bool × ParseState) :=
  if s.1 < endAddr then
    if endAddr - s.1 < 8 then .inr (some (false, s.2))
    else
      match readU32 mem s.1, readU32 mem (s.1 + 4) with
      | some type, some size =>
        if TagType.ofCode type = .endTag then .inr (some (size == 8 && endAddr - s.1 ≥ 8, s.2))
        else if size < 8 ∨ size > (endAddr - s.1) % 2 ^ 32 then .inr (some (false, s.2))
        else
          match handleTag mem (TagType.ofCode type) s.1 size s.2 with
          | none => .inr none
          | some st =>
            if size > uint32Max - 7 then .inr (some (false, st))
            else if uint64Max - s.1 < alignedTagSize size then .inr (some (false, st))
            else .inl (s.1 + alignedTagSize size, st)
      | _, _ => .inr none
  else .inr (some (false, s.2))

theorem entryLoop_fueled (entrySize entriesEnd : Nat) (left : Nat) :
    ∀ (p : Nat) (info : BootInformation),
    entryLoop mem entrySize entriesEnd left p info =
      fueled (entryStep mem entrySize entriesEnd) (fun s => some s.2) left (p, info) := by
  induction left with
  | zero => exact fun _ _ => rfl
  | succ left ih =>
    intro p info
    simp only [entryLoop, fueled, entryStep]
    split
    · cases readEntry mem p with
      | none => rfl
      | some e =>
        split
        · rfl
        · exact ih _ _
    · rfl

theorem tagLoop_fueled (endAddr : Nat) (left : Nat) : ∀ (curr : Nat) (st : ParseState),
    tagLoop mem endAddr left curr st = fueled (tagStep mem endAddr) (fun s => some (false, s.2))
      left (curr, st) := by
  induction left with
  | zero => exact fun _ _ => rfl
  | succ left ih =>
    intro curr st
    simp only [tagLoop, fueled, tagStep]
    split
    · split
      · rfl
      cases readU32 mem curr with
      | none => rfl
      | some type =>
        cases readU32 mem (curr + 4) with
        | none => rfl
        | some size =>
          simp only [Option.bind_eq_bind, Option.bind_some]
          split
          · rfl
          split
          · rfl
          cases handleTag mem (TagType.ofCode type) curr size st with
          | none => rfl
          | some st' =>
            split
            · rfl
            · split
              · rfl
              · exact ih _ _
    · rfl

theorem alignedTagSize_eq {size : Nat} (h : size ≤ uint32Max - 7) :
    alignedTagSize size = (size + 7) / 8 * 8 := by
  have hlt : size + 7 < 2 ^ 32 := by
    simp only [uint32Max] at h
    omega
  have hmask : (0xFFFFFFF8 : Nat) = (2 ^ 29 - 1) <<< 3 := by decide
  have hround : (size + 7) / 8 * 8 = (size + 7) >>> 3 <<< 3 := by
    rw [Nat.shiftLeft_eq, Nat.shiftRight_eq_div_pow]
  unfold alignedTagSize
  rw [hmask, hround]
  apply Nat.eq_of_testBit_eq
  intro i
  rw [Nat.testBit_and, Nat.testBit_shiftLeft, Nat.testBit_shiftLeft, Nat.testBit_shiftRight,
    Nat.testBit_two_pow_sub_one]
  by_cases hi : 3 ≤ i
  · rw [Nat.add_sub_cancel' hi]
    by_cases hbig : i < 32
    · simp [hi, show i - 3 < 29 by omega]
    · have hzero : (size + 7).testBit i = false :=
        Nat.testBit_lt_two_pow
          (Nat.lt_of_lt_of_le hlt (Nat.pow_le_pow_right (by decide) (by omega)))
      simp [hzero]
  · simp [hi]

theorem entryStep_less {entrySize entriesEnd : Nat} (hsize : 0 < entrySize)
    {s s' : Nat × BootInformation} (h : entryStep mem entrySize entriesEnd s = .inl s') :
    entriesEnd - s'.1 < entriesEnd - s.1 := by
  unfold entryStep at h
  split at h
  · rename_i hroom
    split at h
    · cases h
    split at h
    · cases h
    · cases h
      omega
  · cases h

theorem tagStep_less {endAddr : Nat} {s s' : Nat × ParseState}
    (h : tagStep mem endAddr s = .inl s') : endAddr - s'.1 < endAddr - s.1 := by
  unfold tagStep at h
  split at h
  · rename_i hlt
    split at h
    · cases h
    split at h
    · split at h
      · cases h
      split at h
      · cases h
      rename_i hsize
      split at h
      · cases h
      split at h
      · cases h
      rename_i hbig
      split at h
      · cases h
      cases h
      have heq := alignedTagSize_eq (Nat.not_lt.mp hbig)
      omega
    · cases h
  · cases h

theorem entryLoop_ends {entrySize entriesEnd left p : Nat} (info : BootInformation)
    (hsize : 0 < entrySize) (hleft : entriesEnd - p < left) :
    Ends (entryStep mem entrySize entriesEnd) (p, info)
      (entryLoop mem entrySize entriesEnd left p info) := by
  rw [entryLoop_fueled]
  exact fueled_ends (fun s => entriesEnd - s.1) (entryStep_less mem hsize) left hleft

theorem tagLoop_ends {endAddr left curr : Nat} (st : ParseState) (hleft : endAddr - curr < left) :
    Ends (tagStep mem endAddr) (curr, st) (tagLoop mem endAddr left curr st) := by
  rw [tagLoop_fueled]
  exact fueled_ends (fun s => endAddr - s.1) (tagStep_less mem) left hleft

end Termination

end LlamaOS.Boot
