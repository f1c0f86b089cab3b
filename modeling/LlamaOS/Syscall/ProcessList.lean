import LlamaOS.Syscall.Dispatch
import Mathlib.Data.BitVec

/-!
# What the process list call writes

The handler of `SysPs` validates `max_count * sizeof(ProcessTelemetry)` bytes, a product
of 64 bits, and lets `get_processes` fill up to `max_count` entries. The two agree as long
as the product does not wrap below what is filled.
-/

namespace LlamaOS.Syscall
open Memory Userland UserMemoryValidator PageFlags

abbrev WritesCovered (m : Machine) (accesses : List UserAccess) : Prop :=
  Covered m writeFlags .write accesses

theorem writesCovered_iff (m : Machine) (start length : Nat) (stores : List (Nat × BitVec 8)) :
    WritesCovered m (.validated start length :: writes stores) ↔
      ∀ a ∈ stores.map Prod.fst,
        (start ≤ a ∧ a < start + length) ∧ (0x1000 ≤ a ∧ a < 2 ^ 47) ∧
          PageGrants m writeFlags a := by
  have hwrites : writes stores = (stores.map Prod.fst).map .write := by
    rw [List.map_map]
    rfl
  rw [hwrites]
  apply covered_validated_iff
  · intro a b h
    exact UserAccess.write.inj h
  · intro a start length h
    cases h

theorem activeProcessCount_le (pm : ProcessManager) : pm.activeProcessCount ≤ maxProcesses := by
  have h := List.length_filter_le (fun i => (pm.processes i).active) (List.range maxProcesses)
  rwa [List.length_range] at h

/-- The addresses `get_processes` stores to, from a list inside the user range. -/
theorem getProcesses_addresses (pm : ProcessManager) (ticks : Nat) {list maxCount : Nat}
    (hlist : list ≠ 0) (hcount : maxCount ≠ 0) (hupper : list < 2 ^ 47) (a : Nat) :
    a ∈ (pm.getProcesses ticks list maxCount).2.map Prod.fst ↔
      list ≤ a ∧ a < list + min pm.activeProcessCount maxCount * telemetrySize := by
  have hactive := activeProcessCount_le pm
  simp only [maxProcesses] at hactive
  rw [(pm.getProcesses_spec ticks hlist hcount).2, List.mem_map]
  simp only [List.mem_range, telemetrySize]
  constructor
  · intro h
    obtain ⟨j, hj, heq⟩ := h
    rw [add64_eq (by omega)] at heq
    omega
  · intro h
    refine ⟨a - list, by omega, ?_⟩
    rw [add64_eq (by omega)]
    omega

theorem telemetry_fits_iff (n maxCount : Nat) :
    n * telemetrySize ≤ maxCount * telemetrySize % 2 ^ 64 ↔ n ≤ maxCount % 2 ^ 58 := by
  have hmod : maxCount * telemetrySize % 2 ^ 64 = maxCount % 2 ^ 58 * telemetrySize := by
    rw [show (2 : Nat) ^ 64 = 2 ^ 58 * telemetrySize by decide, Nat.mul_mod_mul_right]
  rw [hmod]
  exact Nat.mul_le_mul_right_iff (by decide)

theorem sysPs_covered_iff (frame : SyscallFrame) (k : SyscallState) :
    WritesCovered k.machine (sysPs frame k).1 ↔
      validateWriteBuffer k.machine frame.rdi.toNat (frame.rsi.toNat * telemetrySize % 2 ^ 64) =
        false ∨
        min k.kernel.manager.activeProcessCount frame.rsi.toNat ≤ frame.rsi.toNat % 2 ^ 58 := by
  unfold sysPs
  cases hvalid :
      validateWriteBuffer k.machine frame.rdi.toNat (frame.rsi.toNat * telemetrySize % 2 ^ 64) with
  | false =>
    simp only [hvalid, Bool.not_false, if_true, true_or, iff_true]
    split
    · exact Covered.nil _ _ _
    · exact Covered.nil _ _ _
  | true =>
    obtain ⟨hlength, ⟨hlower, hend⟩, hpages⟩ := (validateBuffer_iff _ _ _ _).mp hvalid
    have hcount : frame.rsi.toNat ≠ 0 := by
      intro hzero
      rw [hzero] at hlength
      exact absurd hlength.1 (by decide)
    rw [if_neg (by omega)]
    simp only [hvalid, Bool.not_true, Bool.false_eq_true, if_false, reduceCtorEq, false_or]
    rw [writesCovered_iff, ← telemetry_fits_iff]
    simp only [getProcesses_addresses k.kernel.manager k.ticks
      (show frame.rdi.toNat ≠ 0 by omega) hcount (show frame.rdi.toNat < 2 ^ 47 by omega)]
    generalize min k.kernel.manager.activeProcessCount frame.rsi.toNat * telemetrySize = written
    constructor
    · intro h
      by_contra hlong
      have hlast := (h (frame.rdi.toNat + written - 1) (by omega)).1
      omega
    · intro h a ha
      refine ⟨by omega, by omega, ?_⟩
      exact hpages a (by omega) (by omega)

/-- The writes of the process list call stay inside what it validated exactly if the call is turned
away or the count that is left of the wrapped product reaches the number of entries filled. -/
theorem ps_writes_covered_iff (S : Services) (frame : SyscallFrame) (k : SyscallState)
    (hps : frame.rax = 17) (huser : isUserAddress frame.rcx.toNat = true) :
    WritesCovered k.machine (dispatch S (some frame) k).1 ↔
      isUserAddress frame.rsp.toNat = false ∨
      validateWriteBuffer k.machine frame.rdi.toNat (frame.rsi.toNat * telemetrySize % 2 ^ 64) =
        false ∨
      min k.kernel.manager.activeProcessCount frame.rsi.toNat ≤ frame.rsi.toNat % 2 ^ 58 := by
  have hlow := (isUserAddress_iff _).mp huser
  have hfrom : fromUser frame = true := by
    simp only [fromUser, decide_eq_true_eq]
    omega
  simp only [dispatch, hfrom, huser, true_and]
  cases hrsp : isUserAddress frame.rsp.toNat with
  | false =>
    simp only [Bool.false_eq_true, not_false_eq_true, if_true, true_or, iff_true]
    exact Covered.nil _ _ _
  | true =>
    simp only [not_true_eq_false, if_false, reduceCtorEq, false_or, handle, hps]
    exact sysPs_covered_iff frame _

/-! A user page at 0x400000 in front of a page of the kernel, and two processes. -/

def psMachine : Machine where
  pmm := gPmm
  ram t i :=
    if t = 0x1000 ∧ i.val = 0 then .set 0x2000 (present ||| writable ||| user)
    else if t = 0x2000 ∧ i.val = 0 then .set 0x3000 (present ||| writable ||| user)
    else if t = 0x3000 ∧ i.val = 2 then .set 0x4000 (present ||| writable ||| user)
    else if t = 0x4000 ∧ i.val = 0 then .set 0x10000 (present ||| writable ||| user)
    else if t = 0x4000 ∧ i.val = 1 then .set 0x11000 (present ||| writable)
    else .clear
  vmm := ⟨0x1000, true⟩
  cr3 := 0x1000

def psState : SyscallState where
  kernel :=
    { machine := psMachine
      manager :=
        { processes := fun i =>
            if i < 2 then
              { pid := i + 1, state := .running, thread := some (i + 2), active := true } else {}
          nextPid := 3
          initialized := true } }

/-- The list starts 64 bytes before the end of the user page. -/
def psFrame (maxCount : BitVec 64) : SyscallFrame :=
  { rax := 17, rcx := 0x400010, rsp := 0x400800, rdi := 0x400FC0, rsi := maxCount }

def noServices : Services where
  yield _ := none
  readChar _ := none
  consoleWrite _ _ _ := none
  vfsRead _ _ _ _ := none
  vfsWrite _ _ _ _ := none
  vfsOpen _ _ _ := none
  vfsClose _ _ := none
  vfsReaddir _ _ _ _ := none
  vfsStat _ _ _ := none
  vfsMkdir _ _ := none
  vfsUnlink _ _ := none

theorem ps_one_entry_covered :
    WritesCovered psState.machine (dispatch noServices (some (psFrame 1)) psState).1 :=
  (ps_writes_covered_iff noServices (psFrame 1) psState (by decide) (by decide)).mpr
    (Or.inr (Or.inr (by decide +kernel)))

/-- With a count of 2 ^ 58 + 1 one entry is validated and two are filled: the process identifier of
the second one lands in the page of the kernel. -/
theorem ps_wrapped_count_escapes :
    let (accesses, result) := dispatch noServices (some (psFrame (2 ^ 58 + 1))) psState
    ¬ WritesCovered psState.machine accesses ∧ UserAccess.write 0x401000 ∈ accesses ∧
      ¬ PageGrants psState.machine writeFlags 0x401000 ∧
      (result.map fun r => (r.1, r.2.machine.byteAt 0x11000)) = some (2, 2) := by
  have hwrite : UserAccess.write 0x401000 ∈
      (dispatch noServices (some (psFrame (2 ^ 58 + 1))) psState).1 := by decide +kernel
  have hgrants : ¬ PageGrants psState.machine writeFlags 0x401000 := by
    intro h
    have hcheck := (checkPage_page_iff psState.machine writeFlags (a := 0x401000) (by decide)).mpr h
    revert hcheck
    decide +kernel
  exact ⟨fun h => hgrants (h.grants hwrite), hwrite, hgrants, by decide +kernel⟩

end LlamaOS.Syscall
