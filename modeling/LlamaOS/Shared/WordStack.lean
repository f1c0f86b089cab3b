import Mathlib.Data.List.Induction
import Mathlib.Algebra.Group.Nat.Defs
import Mathlib.Tactic.Common

/-!
# A stack of words in memory

Pushes go down by eight bytes, pops come back up. Addresses wrap around.
-/

namespace LlamaOS.WordStack

structure Stack where
  mem : BitVec 64 → BitVec 64
  sp : BitVec 64

namespace Stack

def store (s : Stack) (a v : BitVec 64) : Stack :=
  { s with mem := fun b => if b = a then v else s.mem b }

def push (s : Stack) (v : BitVec 64) : Stack := { s.store (s.sp - 8) v with sp := s.sp - 8 }

def pop (s : Stack) : BitVec 64 × Stack := (s.mem s.sp, { s with sp := s.sp + 8 })

def pushAll (s : Stack) (vs : List (BitVec 64)) : Stack := vs.foldl push s

section

variable (s : Stack)
include s

@[simp] theorem store_sp (a v : BitVec 64) : (s.store a v).sp = s.sp := rfl

theorem store_mem (a v b : BitVec 64) : (s.store a v).mem b = if b = a then v else s.mem b := rfl

@[simp] theorem push_sp (v : BitVec 64) : (s.push v).sp = s.sp - 8 := rfl

theorem push_mem (v b : BitVec 64) : (s.push v).mem b = if b = s.sp - 8 then v else s.mem b := rfl

theorem pushAll_append (vs : List (BitVec 64)) (v : BitVec 64) :
    s.pushAll (vs ++ [v]) = (s.pushAll vs).push v := by
  rw [pushAll, List.foldl_append]
  rfl

theorem pushAll_mem (vs : List (BitVec 64)) (hlen : vs.length < 2 ^ 61) :
    ∀ i < vs.length, (s.pushAll vs).mem ((s.pushAll vs).sp + 8 * BitVec.ofNat 64 i) =
      vs.reverse.getD i 0 := by
  induction vs using List.reverseRecOn with
  | nil =>
    intro i hi
    exact absurd hi (Nat.not_lt_zero i)
  | append_singleton vs v ih =>
    rw [List.length_append, List.length_singleton] at hlen
    intro i hi
    rw [List.length_append, List.length_singleton] at hi
    rw [pushAll_append, push_sp, push_mem, List.reverse_append, List.reverse_singleton,
      List.singleton_append]
    cases i with
    | zero => simp
    | succ i =>
      have hshift : (s.pushAll vs).sp - 8 + 8 * BitVec.ofNat 64 (i + 1) =
          (s.pushAll vs).sp + 8 * BitVec.ofNat 64 i := by
        rw [BitVec.ofNat_add]
        bv_omega
      have hne : (s.pushAll vs).sp + 8 * BitVec.ofNat 64 i ≠ (s.pushAll vs).sp - 8 := by
        intro heq
        have hsmall : i < 2 ^ 61 - 1 := by omega
        bv_omega
      rw [hshift, if_neg hne, List.getD_cons_succ]
      exact ih (by omega) i (by omega)

end

end Stack

end LlamaOS.WordStack
