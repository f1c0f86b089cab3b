import LlamaOS.Syscall.Entry

/-!
# Calls from user mode

The stub tells the two kinds of callers by the sign of the return address in RCX, the
dispatcher by comparing it with the end of the user half. An address between the two halves
is a user's to the stub and a kernel's to the dispatcher.
-/

namespace LlamaOS.Syscall
open Memory Userland UserMemoryValidator

/-- A return to user mode has a return address and a stack in the user range, and the debug write
uses its pointer only behind a validation. -/
structure EntrySafe (S : Services) (stack : KernelStack) (regs : Registers) (k : SyscallState) :
    Prop where
  returns : ∀ regs' k', (syscallEntry S stack regs k).2 = some (.sysret regs', k') →
    (0x1000 ≤ regs'.rcx.toNat ∧ regs'.rcx.toNat ≤ 0x7FFFFFFFFFFF) ∧
      0x1000 ≤ regs'.rsp.toNat ∧ regs'.rsp.toNat ≤ 0x7FFFFFFFFFFF
  debugReads : regs.rax = 1 → Covered k.machine readFlags .read (syscallEntry S stack regs k).1

theorem covered_reads_iff (m : Machine) (start length : Nat) (addrs : List Nat) :
    Covered m readFlags .read (.validated start length :: addrs.map .read) ↔
      ∀ a ∈ addrs, (start ≤ a ∧ a < start + length) ∧ (0x1000 ≤ a ∧ a < 2 ^ 47) ∧
        PageGrants m readFlags a := by
  apply covered_validated_iff
  · intro a b h
    exact UserAccess.read.inj h
  · intro a start length h
    cases h

/-- The serial line reads the buffer from its start, at least its first byte. -/
theorem serialWrite_accesses (buf left i : Nat) (k : SyscallState) :
    ∃ n ≤ left, (0 < left → 0 < n) ∧
      (SyscallState.serialWrite buf left i k).1 =
        ((List.range' i n).map (add64 buf)).map .read := by
  induction left generalizing i k with
  | zero => exact ⟨0, Nat.le_refl _, id, rfl⟩
  | succ left ih =>
    simp only [SyscallState.serialWrite]
    cases loadByte k.machine (add64 buf i) with
    | none => exact ⟨1, by omega, fun _ => Nat.one_pos, rfl⟩
    | some c =>
      obtain ⟨n, hn, _, haccesses⟩ := ih (i + 1) (k.putChar c)
      refine ⟨n + 1, by omega, fun _ => Nat.succ_pos n, ?_⟩
      simp only [haccesses, List.range'_succ, List.map_cons]

variable {frame : SyscallFrame}

theorem sysWriteDebug_covered (hfrom : fromUser frame = true) (k : SyscallState) :
    Covered k.machine readFlags .read (sysWriteDebug frame k).1 := by
  simp only [sysWriteDebug, hfrom, if_true]
  split
  · exact Covered.nil _ _ _
  split
  · exact Covered.nil _ _ _
  cases hvalid : validateUserBuffer k.machine frame.rdi.toNat frame.rsi.toNat false with
  | false => exact Covered.nil _ _ _
  | true =>
    obtain ⟨_, ⟨hlower, hend⟩, hpages⟩ := (validateBuffer_iff _ _ _ _).mp hvalid
    obtain ⟨n, hn, _, haccesses⟩ := serialWrite_accesses frame.rdi.toNat frame.rsi.toNat 0 k
    simp only [Bool.not_true, Bool.false_eq_true, if_false, after, haccesses, List.singleton_append]
    apply (covered_reads_iff _ _ _ _).mpr
    intro a ha
    obtain ⟨j, hj, rfl⟩ := List.mem_map.mp ha
    rw [List.mem_range'_1] at hj
    rw [add64_eq (by omega)]
    exact ⟨by omega, by omega, hpages _ (by omega) (by omega)⟩

variable {regs : Registers}

theorem entrySafe_of_low (S : Services) (stack : KernelStack) (hlow : regs.rcx.toNat < 2 ^ 47)
    (k : SyscallState) : EntrySafe S stack regs k := by
  have huser : regs.rcx.msb = false := by
    rw [BitVec.msb_eq_false_iff_two_mul_lt]
    omega
  have hfrom : fromUser regs.frame = true := decide_eq_true hlow
  have hentry := syscallEntry_user S stack huser k
  constructor
  · intro regs' k' hret
    simp only [hentry, dispatch, hfrom, true_and] at hret
    split at hret
    · cases hret
    rename_i hchecked
    obtain ⟨r, _, hr⟩ := Option.map_eq_some_iff.mp hret
    cases hr
    simp only [not_not] at hchecked
    have hrcx := (isUserAddress_iff _).mp hchecked.1
    have hrsp := (isUserAddress_iff _).mp hchecked.2
    simp only [Registers.frame] at hrcx hrsp ⊢
    omega
  · intro hdebug
    simp only [hentry, dispatch, hfrom, true_and]
    split
    · exact Covered.nil _ _ _
    · have hrax : regs.frame.rax = 1 := hdebug
      simp only [handle, hrax]
      exact sysWriteDebug_covered hfrom _

def promptServices : Services where
  yield k := some k
  readChar k := some (0x0A, k)
  consoleWrite _ _ k := some k
  vfsRead _ _ _ k := some (0, k)
  vfsWrite _ _ _ k := some (0, k)
  vfsOpen _ _ k := some (0, k)
  vfsClose _ k := some (0, k)
  vfsReaddir _ _ _ k := some (0, k)
  vfsStat _ _ k := some (0, k)
  vfsMkdir _ k := some (0, k)
  vfsUnlink _ k := some (0, k)

/-- A kernel whose memory manager is not yet set up validates nothing. -/
structure Unmapped (k : SyscallState) : Prop where
  uninitialized : k.machine.vmm.initialized = false
  loaded : k.machine.cr3 ≠ 0

variable {k : SyscallState}

section

variable (h : Unmapped k)
include h

theorem Unmapped.validateBuffer (required : List PageFlags) (ptr length : Nat) :
    validateBuffer k.machine required ptr length = false := by
  rw [Bool.eq_false_iff]
  intro hvalid
  obtain ⟨hlength, _, hpages⟩ := (validateBuffer_iff _ _ _ _).mp hvalid
  obtain ⟨pa, flags, htranslate, _⟩ := hpages ptr (Nat.le_refl _) (by omega)
  simp [VirtualMemoryManager.translate, h.uninitialized] at htranslate

theorem Unmapped.validateObjectWrite (ptr size : Nat) :
    validateObjectWrite k.machine ptr size = false := by
  unfold Syscall.validateObjectWrite
  split
  · rfl
  · exact h.validateBuffer _ _ _

theorem Unmapped.withPath_returns (path : Nat) {next : Handled} (hnext : next.2.isSome = true) :
    (withPath k path next).2.isSome = true := by
  unfold withPath
  split
  · rfl
  obtain ⟨r, hr⟩ := validateString_returns h.loaded path maxPath
  simp only [hr]
  cases r with
  | none => rfl
  | some len =>
    simp only
    split
    · rfl
    · exact hnext

theorem Unmapped.storeFrames_returns (ptr value : Nat) {next : SyscallState → Handled}
    (hnext : (next k).2.isSome = true) :
    (storeFrames k ptr value next).2.isSome = true := by
  unfold storeFrames
  split
  · exact hnext
  · rw [h.validateObjectWrite]
    rfl

theorem Unmapped.handle_returns (frame : SyscallFrame) (hdebug : frame.rax ≠ 1)
    (hexit : frame.rax ≠ 5) (hreboot : frame.rax ≠ 14) (hpoweroff : frame.rax ≠ 15) :
    (handle promptServices frame k).2.isSome = true := by
  have hnumber : ∀ {number}, SyscallNumber.ofNat? frame.rax.toNat = some number →
      frame.rax = BitVec.ofNat 64 number.toNat := by
    intro number hnumber
    rw [← SyscallNumber.toNat_of_ofNat? hnumber, BitVec.ofNat_toNat, BitVec.setWidth_eq]
  unfold handle
  cases hcase : SyscallNumber.ofNat? frame.rax.toNat with
  | none => rfl
  | some number =>
    have hrax := hnumber hcase
    cases number with
    | sysWriteDebug => exact absurd hrax hdebug
    | sysYield => rfl
    | sysGetPid => rfl
    | sysGetTicks => rfl
    | sysExit => exact absurd hrax hexit
    | sysRead =>
      simp only [sysRead, validateWriteBuffer, h.validateBuffer, and_true]
      split
      · rfl
      split
      · rfl
      rename_i hcount
      rw [show frame.rdx.toNat = 0 by omega]
      split
      · rfl
      · rfl
    | sysWrite =>
      simp only [sysWrite, validateReadBuffer, h.validateBuffer, and_true]
      split
      · rfl
      split
      · rfl
      · split
        · rfl
        · rfl
    | sysOpen => exact h.withPath_returns _ rfl
    | sysClose => rfl
    | sysReaddir =>
      simp only [sysReaddir, h.validateObjectWrite]
      split
      · rfl
      · rfl
    | sysStat =>
      simp only [sysStat, h.validateObjectWrite]
      split
      · rfl
      · exact h.withPath_returns _ rfl
    | sysMkdir => exact h.withPath_returns _ rfl
    | sysUnlink => exact h.withPath_returns _ rfl
    | sysReboot => exact absurd hrax hreboot
    | sysPoweroff => exact absurd hrax hpoweroff
    | sysMemInfo =>
      simp only [sysMemInfo]
      split
      · rfl
      · exact h.storeFrames_returns _ _ (h.storeFrames_returns _ _ rfl)
    | sysPs =>
      simp only [sysPs, validateWriteBuffer, h.validateBuffer]
      split
      · rfl
      · rfl

end

/-- Outside the user half the debug write either returns or reads what nobody validated. -/
theorem sysWriteDebug_unchecked (hfrom : fromUser frame = false) (k : SyscallState) :
    (sysWriteDebug frame k).2.isSome = true ∨
      ¬ Covered k.machine readFlags .read (sysWriteDebug frame k).1 := by
  simp only [sysWriteDebug, hfrom, Bool.false_eq_true, if_false]
  split
  · exact Or.inl rfl
  split
  · exact Or.inl rfl
  rename_i hlen
  obtain ⟨n, _, hpos, haccesses⟩ := serialWrite_accesses frame.rdi.toNat frame.rsi.toNat 0 k
  right
  intro hcovered
  obtain ⟨n, rfl⟩ := Nat.exists_eq_succ_of_ne_zero (Nat.ne_of_gt (hpos (by omega)))
  obtain ⟨⟨_, _, hmem, _⟩, _⟩ := hcovered [] _ _ (by rw [haccesses]; rfl)
  cases hmem

/-- The dispatcher lets a caller from between the halves through unchecked. -/
theorem dispatch_unchecked (hfrom : fromUser frame = false) (S : Services) (k : SyscallState) :
    dispatch S (some frame) k =
      handle S frame { k with syscallCount := (k.syscallCount + 1) % 2 ^ 64 } := by
  simp [dispatch, hfrom]

theorem entrySafe_of_halting (S : Services) (stack : KernelStack) (huser : regs.rcx.msb = false)
    (hrax : regs.rax = 5 ∨ regs.rax = 14 ∨ regs.rax = 15) (k : SyscallState) :
    EntrySafe S stack regs k := by
  have hnone : (dispatch S (some regs.frame) k).2 = none := by
    have hhandle : ∀ k, (handle S regs.frame k).2 = none := by
      intro k
      rcases hrax with h | h | h
      · simp [handle, Registers.frame, h, SyscallNumber.ofNat?]
      · simp [handle, Registers.frame, h, SyscallNumber.ofNat?]
      · simp [handle, Registers.frame, h, SyscallNumber.ofNat?]
    unfold dispatch
    simp only
    split
    · rfl
    · exact hhandle _
  constructor
  · intro regs' k' hret
    rw [syscallEntry_user S stack huser k, hnone] at hret
    cases hret
  · intro hdebug
    rw [hdebug] at hrax
    exact absurd hrax (by decide)

def emptyState : SyscallState :=
  { kernel := { machine := { pmm := gPmm, ram := fun _ _ => .clear, vmm := {}, cr3 := 0x1000 } } }

def sampleStack : KernelStack := ⟨fun _ => 0, 0xFFFFFFFF70005000, by decide⟩

/-- A call that the stub takes for a user's is safe in every state of the kernel exactly if its
return address lies in the user half, or if it asks to exit, to reboot or to power off. -/
theorem user_entry_safe_iff (regs : Registers) (huser : regs.rcx.msb = false) :
    (∀ S stack k, EntrySafe S stack regs k) ↔
      regs.rcx.toNat < 2 ^ 47 ∨ regs.rax = 5 ∨ regs.rax = 14 ∨ regs.rax = 15 := by
  constructor
  · intro h
    by_contra hcond
    simp only [not_or, Nat.not_lt] at hcond
    obtain ⟨hhigh, hexit, hreboot, hpoweroff⟩ := hcond
    have hfrom : fromUser regs.frame = false := decide_eq_false (Nat.not_lt.mpr hhigh)
    have hsafe := h promptServices sampleStack emptyState
    have hentry := syscallEntry_user promptServices sampleStack huser emptyState
    rw [dispatch_unchecked hfrom] at hentry
    -- a call that returns carries the unchecked return address back
    have hnone : (handle promptServices regs.frame
        { emptyState with syscallCount := (emptyState.syscallCount + 1) % 2 ^ 64 }).2 = none := by
      rw [← Option.not_isSome_iff_eq_none]
      intro hsome
      obtain ⟨r, hr⟩ := Option.isSome_iff_exists.mp hsome
      have hret := (hsafe.returns { regs with rax := r.1 } r.2 (by rw [hentry, hr]; rfl)).1.2
      simp only at hret
      omega
    by_cases hdebug : regs.rax = 1
    · have hreads := hsafe.debugReads hdebug
      have hrax : regs.frame.rax = 1 := hdebug
      rw [hentry] at hreads
      simp only [handle, hrax] at hreads hnone
      rcases sysWriteDebug_unchecked hfrom
        { emptyState with syscallCount := (emptyState.syscallCount + 1) % 2 ^ 64 } with
          hsome | hread
      · rw [← Option.not_isSome_iff_eq_none] at hnone
        exact hnone hsome
      · exact hread hreads
    · have hunmapped :
          Unmapped { emptyState with syscallCount := (emptyState.syscallCount + 1) % 2 ^ 64 } :=
        ⟨rfl, by decide⟩
      have hsome := hunmapped.handle_returns regs.frame hdebug hexit hreboot hpoweroff
      rw [hnone] at hsome
      cases hsome
  · intro h S stack k
    rcases h with hlow | hrax
    · exact entrySafe_of_low S stack hlow k
    · exact entrySafe_of_halting S stack huser hrax k

theorem low_entry_safe :
    EntrySafe promptServices sampleStack { rax := 1, rcx := 0x400010, rsp := 0x400800 }
      emptyState :=
  (user_entry_safe_iff { rax := 1, rcx := 0x400010, rsp := 0x400800 } (by decide)).mpr
    (Or.inl (by decide)) promptServices sampleStack emptyState

/-- A `syscall` instruction in the last two bytes of the user half returns behind it, with a stack
pointer nobody looked at. The debug write there goes for kernel memory without a validation. -/
theorem gap_entry_returns :
    let regs : Registers := { rax := 4, rcx := 0x800000000000, rsp := 0xFFFFFFFF80000000 }
    let debug : Registers :=
  { rax := 1, rcx := 0x800000000000, rdi := 0xFFFFFFFF80100000, rsi := 8 }
    regs.rcx.msb = false ∧ debug.rcx.msb = false ∧
      (∃ k, (syscallEntry promptServices sampleStack regs emptyState).2 =
        some (.sysret { regs with rax := 0 }, k)) ∧
      (syscallEntry promptServices sampleStack debug emptyState).1 =
        [.read 0xFFFFFFFF80100000] := by
  intro regs debug
  refine ⟨by decide, by decide, ?_, ?_⟩
  · rw [syscallEntry_user promptServices sampleStack (by decide) emptyState]
    exact ⟨_, rfl⟩
  · rw [syscallEntry_user promptServices sampleStack (by decide) emptyState]
    decide +kernel

end LlamaOS.Syscall
