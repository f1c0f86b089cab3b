import LlamaOS.Shared.WordStack
import LlamaOS.Syscall.Dispatch

/-!
# System call entry and return

The assembly stub saves the registers in a frame on a kernel stack, calls the dispatcher
and restores them. A call from user mode gets all of its registers back but RAX.
-/

namespace LlamaOS.Syscall
open Userland WordStack Stack

structure Registers where
  rax : BitVec 64 := 0
  rbx : BitVec 64 := 0
  rcx : BitVec 64 := 0
  rdx : BitVec 64 := 0
  rsi : BitVec 64 := 0
  rdi : BitVec 64 := 0
  rbp : BitVec 64 := 0
  rsp : BitVec 64 := 0
  r8 : BitVec 64 := 0
  r9 : BitVec 64 := 0
  r10 : BitVec 64 := 0
  r11 : BitVec 64 := 0
  r12 : BitVec 64 := 0
  r13 : BitVec 64 := 0
  r14 : BitVec 64 := 0
  r15 : BitVec 64 := 0
deriving DecidableEq

/-- Stack memory, and the stack top in the TSS: the one of the running thread, in the kernel
half. -/
structure KernelStack where
  mem : BitVec 64 → BitVec 64
  rsp0 : BitVec 64
  upper : 2 ^ 63 + 128 ≤ rsp0.toNat

inductive Exit where
  | sysret (regs : Registers)
  | jump (regs : Registers)

def frameAt (s : Stack) : SyscallFrame where
  r15 := s.mem (s.sp + 0x00)
  r14 := s.mem (s.sp + 0x08)
  r13 := s.mem (s.sp + 0x10)
  r12 := s.mem (s.sp + 0x18)
  rbp := s.mem (s.sp + 0x20)
  rbx := s.mem (s.sp + 0x28)
  r9 := s.mem (s.sp + 0x30)
  r8 := s.mem (s.sp + 0x38)
  r10 := s.mem (s.sp + 0x40)
  rdx := s.mem (s.sp + 0x48)
  rsi := s.mem (s.sp + 0x50)
  rdi := s.mem (s.sp + 0x58)
  rax := s.mem (s.sp + 0x60)
  rcx := s.mem (s.sp + 0x68)
  r11 := s.mem (s.sp + 0x70)
  rsp := s.mem (s.sp + 0x78)

def buildFrame (regs : Registers) (scratchRsp : BitVec 64) (s : Stack) : Stack :=
  s.pushAll [scratchRsp, regs.r11, regs.rcx, regs.rax, regs.rdi, regs.rsi, regs.rdx,
    regs.r10, regs.r8, regs.r9, regs.rbx, regs.rbp, regs.r12, regs.r13, regs.r14, regs.r15]

def restore (s : Stack) : Registers :=
  let (r15, s) := s.pop
  let (r14, s) := s.pop
  let (r13, s) := s.pop
  let (r12, s) := s.pop
  let (rbp, s) := s.pop
  let (rbx, s) := s.pop
  let (r9, s) := s.pop
  let (r8, s) := s.pop
  let (r10, s) := s.pop
  let (rdx, s) := s.pop
  let (rsi, s) := s.pop
  let (rdi, s) := s.pop
  let (rax, s) := s.pop
  let (rcx, s) := s.pop
  let (r11, s) := s.pop
  let (rsp, _) := s.pop
  { rax, rbx, rcx, rdx, rsi, rdi, rbp, rsp, r8, r9, r10, r11, r12, r13, r14, r15 }

/-- `test rcx, rcx; js` selects the stack at entry and the way back. -/
def syscallEntry (S : Services) (stack : KernelStack) (regs : Registers) (k : SyscallState) :
    List UserAccess × Option (Exit × SyscallState) :=
  let scratchRsp := regs.rsp
  let s : Stack := ⟨stack.mem, if regs.rcx.msb then scratchRsp else stack.rsp0⟩
  let s := buildFrame regs scratchRsp s
  match dispatch S (if s.sp = 0 then none else some (frameAt s)) k with
  | (accesses, none) => (accesses, none)
  | (accesses, some (ret, k)) =>
    let regs := restore (s.store (s.sp + 0x60) ret)
    (accesses, some (if regs.rcx.msb then .jump regs else .sysret regs, k))

/-- The registers in the places of the frame. -/
def Registers.frame (regs : Registers) : SyscallFrame :=
  { r15 := regs.r15, r14 := regs.r14, r13 := regs.r13, r12 := regs.r12, rbp := regs.rbp,
    rbx := regs.rbx,
    r9 := regs.r9, r8 := regs.r8, r10 := regs.r10, rdx := regs.rdx, rsi :=
      regs.rsi, rdi := regs.rdi,
    rax := regs.rax, rcx := regs.rcx, r11 := regs.r11, rsp := regs.rsp }

theorem buildFrame_sp (regs : Registers) (scratchRsp : BitVec 64) (s : Stack) :
    (buildFrame regs scratchRsp s).sp = s.sp - 128 := by
  simp only [buildFrame, pushAll, List.foldl_cons, List.foldl_nil, push_sp]
  bv_omega

theorem buildFrame_mem (regs : Registers) (scratchRsp : BitVec 64) (s : Stack) {i : Nat}
    (hi : i < 16) :
    (buildFrame regs scratchRsp s).mem ((buildFrame regs scratchRsp s).sp + 8 * BitVec.ofNat 64 i) =
      [regs.r15, regs.r14, regs.r13, regs.r12, regs.rbp, regs.rbx, regs.r9, regs.r8,
        regs.r10, regs.rdx,
        regs.rsi, regs.rdi, regs.rax, regs.rcx, regs.r11, scratchRsp].getD i 0 :=
  pushAll_mem s _ (by simp only [List.length_cons, List.length_nil]; decide) i hi

theorem frameAt_buildFrame (regs : Registers) (s : Stack) :
    frameAt (buildFrame regs regs.rsp s) = regs.frame := by
  have hmem := fun {i : Nat} => buildFrame_mem regs regs.rsp s (i := i)
  simp only [frameAt, Registers.frame, SyscallFrame.mk.injEq]
  exact ⟨hmem (i := 0) (by decide), hmem (i := 1) (by decide), hmem (i := 2) (by decide),
    hmem (i := 3) (by decide), hmem (i := 4) (by decide), hmem (i := 5) (by decide),
    hmem (i := 6) (by decide), hmem (i := 7) (by decide), hmem (i := 8) (by decide),
    hmem (i := 9) (by decide), hmem (i := 10) (by decide), hmem (i := 11) (by decide),
    hmem (i := 12) (by decide), hmem (i := 13) (by decide), hmem (i := 14) (by decide),
    hmem (i := 15) (by decide)⟩

theorem restore_frame (s : Stack) : (restore s).frame = frameAt s := by
  simp [restore, pop, Registers.frame, frameAt, BitVec.add_assoc]

theorem frameAt_store_rax (s : Stack) (ret : BitVec 64) :
    frameAt (s.store (s.sp + 0x60) ret) = { frameAt s with rax := ret } := by
  simp [frameAt, store_mem]

theorem Registers.eq_of_frame {regs regs' : Registers} (h : regs.frame = regs'.frame) :
    regs = regs' := by
  cases regs
  cases regs'
  simp only [Registers.frame, SyscallFrame.mk.injEq] at h
  simp only [h]

theorem restore_store {s : Stack} {regs : Registers} (hframe : frameAt s = regs.frame)
    (ret : BitVec 64) : restore (s.store (s.sp + 0x60) ret) = { regs with rax := ret } := by
  apply Registers.eq_of_frame
  rw [restore_frame, frameAt_store_rax, hframe]
  rfl

/-- A user's call as a whole: the dispatcher sees the registers, and a call that returns gives all
of them back but RAX. -/
theorem syscallEntry_user (S : Services) (stack : KernelStack) {regs : Registers}
    (huser : regs.rcx.msb = false) (k : SyscallState) :
    syscallEntry S stack regs k =
      ((dispatch S (some regs.frame) k).1,
        (dispatch S (some regs.frame) k).2.map fun r =>
          (.sysret { regs with rax := r.1 }, r.2)) := by
  have hframe := frameAt_buildFrame regs ⟨stack.mem, stack.rsp0⟩
  have hsp : (buildFrame regs regs.rsp ⟨stack.mem, stack.rsp0⟩).sp ≠ 0 := by
    have hupper := stack.upper
    rw [buildFrame_sp]
    bv_omega
  unfold syscallEntry
  simp only [huser, Bool.false_eq_true, if_false]
  generalize buildFrame regs regs.rsp ⟨stack.mem, stack.rsp0⟩ = s at hframe hsp
  rw [if_neg hsp, hframe]
  cases dispatch S (some regs.frame) k with
  | mk accesses result =>
    cases result with
    | none => rfl
    | some r =>
      simp only [restore_store hframe, huser, Bool.false_eq_true, if_false, Option.map_some]

end LlamaOS.Syscall
