import LlamaOS.Userland.Process
import LlamaOS.Userland.UserStrings

/-!
# The system call dispatcher

`SyscallManager::dispatch` with its handlers. A handler yields the accesses its own code
makes through pointers of the caller and, unless it never returns, a result and the new
state. The parts of the kernel behind the handlers are given by `Services`.
-/

namespace LlamaOS.Syscall
open Memory Userland Threading UserMemoryValidator ByteBuffer

inductive SyscallNumber where
  | sysWriteDebug
  | sysYield
  | sysGetPid
  | sysGetTicks
  | sysExit
  | sysRead
  | sysWrite
  | sysOpen
  | sysClose
  | sysReaddir
  | sysStat
  | sysMkdir
  | sysUnlink
  | sysReboot
  | sysPoweroff
  | sysMemInfo
  | sysPs
deriving DecidableEq

/-- The cases of the `switch`; `none` is its default. -/
def SyscallNumber.ofNat? : Nat → Option SyscallNumber
  | 1 => some .sysWriteDebug
  | 2 => some .sysYield
  | 3 => some .sysGetPid
  | 4 => some .sysGetTicks
  | 5 => some .sysExit
  | 6 => some .sysRead
  | 7 => some .sysWrite
  | 8 => some .sysOpen
  | 9 => some .sysClose
  | 10 => some .sysReaddir
  | 11 => some .sysStat
  | 12 => some .sysMkdir
  | 13 => some .sysUnlink
  | 14 => some .sysReboot
  | 15 => some .sysPoweroff
  | 16 => some .sysMemInfo
  | 17 => some .sysPs
  | _ => none

def SyscallNumber.toNat : SyscallNumber → Nat
  | .sysWriteDebug => 1
  | .sysYield => 2
  | .sysGetPid => 3
  | .sysGetTicks => 4
  | .sysExit => 5
  | .sysRead => 6
  | .sysWrite => 7
  | .sysOpen => 8
  | .sysClose => 9
  | .sysReaddir => 10
  | .sysStat => 11
  | .sysMkdir => 12
  | .sysUnlink => 13
  | .sysReboot => 14
  | .sysPoweroff => 15
  | .sysMemInfo => 16
  | .sysPs => 17

theorem SyscallNumber.toNat_of_ofNat? {n : Nat} {number : SyscallNumber}
    (h : ofNat? n = some number) : n = number.toNat := by
  unfold ofNat? at h
  split at h
  all_goals cases h
  all_goals rfl

abbrev sysErrNosys : Int := -1
abbrev sysErrInval : Int := -2
abbrev sysErrFault : Int := -3
abbrev syscallMaxDebugWriteLen : Nat := 512

abbrev dirEntrySize : Nat := 88
abbrev fileStatSize : Nat := 40
abbrev maxPath : Nat := 256

structure SyscallFrame where
  r15 : BitVec 64 := 0
  r14 : BitVec 64 := 0
  r13 : BitVec 64 := 0
  r12 : BitVec 64 := 0
  rbp : BitVec 64 := 0
  rbx : BitVec 64 := 0
  r9 : BitVec 64 := 0
  r8 : BitVec 64 := 0
  r10 : BitVec 64 := 0
  rdx : BitVec 64 := 0
  rsi : BitVec 64 := 0
  rdi : BitVec 64 := 0
  rax : BitVec 64 := 0
  rcx : BitVec 64 := 0
  r11 : BitVec 64 := 0
  rsp : BitVec 64 := 0
deriving DecidableEq

/-- The kernel as the handlers see it, with what the serial line has sent. -/
structure SyscallState where
  kernel : Kernel
  currentThread : Option Nat := none
  ticks : Nat := 0
  serial : List (BitVec 8) := []
  syscallCount : Nat := 0
  errorCount : Nat := 0

abbrev Handled := List UserAccess × Option (BitVec 64 × SyscallState)

/-- Functions the handlers call; `none` where the call does not return. -/
structure Services where
  yield : SyscallState → Option SyscallState
  /-- The wait for a character from the keyboard or the serial line. -/
  readChar : SyscallState → Option (BitVec 8 × SyscallState)
  consoleWrite : (buf count : Nat) → SyscallState → Option SyscallState
  vfsRead : (fd : BitVec 32) → (buf count : Nat) → SyscallState → Option (BitVec 64 × SyscallState)
  vfsWrite : (fd : BitVec 32) → (buf count : Nat) → SyscallState → Option (BitVec 64 × SyscallState)
  vfsOpen : (path : Nat) → (flags : BitVec 32) → SyscallState → Option (BitVec 32 × SyscallState)
  vfsClose : (fd : BitVec 32) → SyscallState → Option (BitVec 32 × SyscallState)
  vfsReaddir : (fd index : BitVec 32) → (entry : Nat) → SyscallState →
    Option (BitVec 32 × SyscallState)
  vfsStat : (path st : Nat) → SyscallState → Option (BitVec 32 × SyscallState)
  vfsMkdir : (path : Nat) → SyscallState → Option (BitVec 32 × SyscallState)
  vfsUnlink : (path : Nat) → SyscallState → Option (BitVec 32 × SyscallState)

namespace SyscallState

abbrev machine (k : SyscallState) : Machine := k.kernel.machine

def withMachine (k : SyscallState) (m : Machine) : SyscallState :=
  { k with kernel := { k.kernel with machine := m } }

/-- `s_error_count++; return code`. -/
def refuse (k : SyscallState) (code : Int) : Handled :=
  ([], some (BitVec.ofInt 64 code, { k with errorCount := (k.errorCount + 1) % 2 ^ 64 }))

def currentProcess (k : SyscallState) : Option Process :=
  k.currentThread.bind fun t =>
    ((List.range maxProcesses).map k.kernel.manager.processes).find? fun p =>
      p.active && p.thread == some t

/-- `SerialPort::put_char`; the line is taken to drain. -/
def putChar (k : SyscallState) (c : BitVec 8) : SyscallState :=
  { k with serial := k.serial ++ if c = 0x0A then [0x0D, c] else [c] }

/-- `SerialPort::write` for `left` more characters of a buffer. -/
def serialWrite (buf : Nat) : Nat → Nat → SyscallState → List UserAccess × Option SyscallState
  | 0, _, k => ([], some k)
  | left + 1, i, k =>
    match loadByte k.machine (add64 buf i) with
    | none => ([.read (add64 buf i)], none)
    | some c =>
      let (accesses, result) := serialWrite buf left (i + 1) (k.putChar c)
      (.read (add64 buf i) :: accesses, result)

/-- Stores by kernel code, in order. -/
def commit (k : SyscallState) (stores : List (Nat × BitVec 8)) : Option SyscallState := do
  let m ← stores.foldlM (fun m (va, b) => storeByte m va b) k.machine
  return k.withMachine m

end SyscallState

def after (accesses : List UserAccess) (h : Handled) : Handled := (accesses ++ h.1, h.2)

def writes (stores : List (Nat × BitVec 8)) : List UserAccess := stores.map fun s => .write s.1

/-- `static_cast<int64_t>` of an `int`. -/
def ofInt32 : Option (BitVec 32 × SyscallState) → Option (BitVec 64 × SyscallState) :=
  Option.map fun (r, k) => (r.signExtend 64, k)

/-- The pages below the kernel half, as the dispatcher tells a user return address. -/
def fromUser (frame : SyscallFrame) : Bool := frame.rcx.toNat < 0x0000800000000000

def validateObjectWrite (m : Machine) (ptr size : Nat) : Bool :=
  if ptr = 0 then false else validateWriteBuffer m ptr size

section Handlers

variable (S : Services) (frame : SyscallFrame) (k : SyscallState)

def sysWriteDebug : Handled :=
  let buf := frame.rdi.toNat
  let len := frame.rsi.toNat
  let emit : Handled :=
    let (accesses, result) := SyscallState.serialWrite buf len 0 k
    (accesses, result.map fun k => (BitVec.ofNat 64 len, k))
  if buf = 0 then k.refuse sysErrFault
  else if len = 0 ∨ len > syscallMaxDebugWriteLen then k.refuse sysErrInval
  else if fromUser frame then
    if !validateUserBuffer k.machine buf len false then k.refuse sysErrFault
    else after [.validated buf len] emit
  else emit

def sysGetPid : Handled :=
  let id :=
    match k.currentProcess with
    | some proc => proc.pid
    | none => (k.currentThread.map fun t => (k.kernel.scheduler.tcbPool t).id).getD 0
  ([], some (BitVec.ofNat 64 id, k))

def sysRead : Handled :=
  let fd := frame.rdi.setWidth 32
  let buf := frame.rsi.toNat
  let count := frame.rdx.toNat
  if buf = 0 then k.refuse sysErrFault
  else if count > 0 ∧ validateWriteBuffer k.machine buf count = false then k.refuse sysErrFault
  else
    let checked : List UserAccess := if count > 0 then [.validated buf count] else []
    if fd = 0 then
      if count = 0 then (checked, some (0, k))
      else
        match S.readChar k with
        | none => (checked, none)
        | some (ch, k) => (checked ++ [.write buf], (k.commit [(buf, ch)]).map fun k => (1, k))
    else (checked, S.vfsRead fd buf count k)

def sysWrite : Handled :=
  let fd := frame.rdi.setWidth 32
  let buf := frame.rsi.toNat
  let count := frame.rdx.toNat
  if buf = 0 then k.refuse sysErrFault
  else if count > 0 ∧ validateReadBuffer k.machine buf count = false then k.refuse sysErrFault
  else
    let checked : List UserAccess := if count > 0 then [.validated buf count] else []
    if fd = 1 ∨ fd = 2 then (checked, (S.consoleWrite buf count k).map fun k => (frame.rdx, k))
    else (checked, S.vfsWrite fd buf count k)

/-- The handlers that take a path name go on with `next` once it is validated. -/
def withPath (path : Nat) (next : Handled) : Handled :=
  if path = 0 then k.refuse sysErrFault
  else
    let (accesses, result) := validateString k.machine path maxPath
    match result with
    | .error _ => (accesses, none)
    | .ok none => after accesses (k.refuse sysErrFault)
    | .ok (some len) =>
      if len = 0 then after accesses (k.refuse sysErrFault) else after accesses next

def sysOpen : Handled :=
  withPath k frame.rdi.toNat ([], ofInt32 (S.vfsOpen frame.rdi.toNat (frame.rsi.setWidth 32) k))

def sysClose : Handled := ([], ofInt32 (S.vfsClose (frame.rdi.setWidth 32) k))

def sysReaddir : Handled :=
  let entry := frame.rdx.toNat
  if entry = 0 then k.refuse sysErrFault
  else if !validateObjectWrite k.machine entry dirEntrySize then k.refuse sysErrFault
  else ([.validated entry dirEntrySize],
    ofInt32 (S.vfsReaddir (frame.rdi.setWidth 32) (frame.rsi.setWidth 32) entry k))

def sysStat : Handled :=
  let path := frame.rdi.toNat
  let st := frame.rsi.toNat
  if path = 0 ∨ st = 0 then k.refuse sysErrFault
  else withPath k path
    (if !validateObjectWrite k.machine st fileStatSize then k.refuse sysErrFault
    else ([.validated st fileStatSize], ofInt32 (S.vfsStat path st k)))

def sysMkdir : Handled := withPath k frame.rdi.toNat ([], ofInt32 (S.vfsMkdir frame.rdi.toNat k))

def sysUnlink : Handled := withPath k frame.rdi.toNat ([], ofInt32 (S.vfsUnlink frame.rdi.toNat k))

/-- One of the two results of `SysMemInfo`, stored where the caller wants it. -/
def storeFrames (ptr value : Nat) (next : SyscallState → Handled) : Handled :=
  if ptr = 0 then next k
  else if !validateObjectWrite k.machine ptr 8 then k.refuse sysErrFault
  else
    let stores := ((List.range 8).map (add64 ptr)).zip (leBytes 8 value)
    match k.commit stores with
    | none => (.validated ptr 8 :: writes stores, none)
    | some k => after (.validated ptr 8 :: writes stores) (next k)

def sysMemInfo : Handled :=
  let total := frame.rdi.toNat
  let free := frame.rsi.toNat
  if total = 0 ∧ free = 0 then k.refuse sysErrFault
  else storeFrames k total k.machine.pmm.totalFrames fun k =>
    storeFrames k free k.machine.pmm.freeFrames fun k => ([], some (0, k))

def sysPs : Handled :=
  let list := frame.rdi.toNat
  let maxCount := frame.rsi.toNat
  let length := maxCount * telemetrySize % 2 ^ 64
  if list = 0 ∨ maxCount = 0 then k.refuse sysErrFault
  else if !validateWriteBuffer k.machine list length then k.refuse sysErrFault
  else
    let (count, stores) := k.kernel.manager.getProcesses k.ticks list maxCount
    (.validated list length :: writes stores,
      (k.commit stores).map fun k => (BitVec.ofNat 64 count, k))

/-- The `switch` of `dispatch`. A call that ends the thread or the machine does not return. -/
def handle : Handled :=
  match SyscallNumber.ofNat? frame.rax.toNat with
  | some .sysWriteDebug => sysWriteDebug frame k
  | some .sysYield => ([], (S.yield k).map fun k => (0, k))
  | some .sysGetPid => sysGetPid k
  | some .sysGetTicks => ([], some (BitVec.ofNat 64 k.ticks, k))
  | some .sysExit => ([], none)
  | some .sysRead => sysRead S frame k
  | some .sysWrite => sysWrite S frame k
  | some .sysOpen => sysOpen S frame k
  | some .sysClose => sysClose S frame k
  | some .sysReaddir => sysReaddir S frame k
  | some .sysStat => sysStat S frame k
  | some .sysMkdir => sysMkdir S frame k
  | some .sysUnlink => sysUnlink S frame k
  | some .sysReboot => ([], none)
  | some .sysPoweroff => ([], none)
  | some .sysMemInfo => sysMemInfo frame k
  | some .sysPs => sysPs frame k
  | none => k.refuse sysErrNosys

end Handlers

/-- A null pointer is `none`. A caller with a return address or stack pointer outside the user range
is terminated. -/
def dispatch (S : Services) (frame : Option SyscallFrame) (k : SyscallState) : Handled :=
  match frame with
  | none => k.refuse sysErrFault
  | some frame =>
    let k := { k with syscallCount := (k.syscallCount + 1) % 2 ^ 64 }
    if fromUser frame ∧ ¬ (isUserAddress frame.rcx.toNat ∧ isUserAddress frame.rsp.toNat) then
      ([], none)
    else handle S frame k

/-- Every access of the kind goes to a byte validated before, which is a user byte with the
flags. -/
def Covered (m : Machine) (required : List PageFlags) (access : Nat → UserAccess)
    (accesses : List UserAccess) : Prop :=
  ∀ before a after, accesses = before ++ access a :: after →
    (∃ start length, .validated start length ∈ before ∧ start ≤ a ∧ a < start + length) ∧
      (0x1000 ≤ a ∧ a < 2 ^ 47) ∧ PageGrants m required a

theorem Covered.nil (m : Machine) (required : List PageFlags) (access : Nat → UserAccess) :
    Covered m required access [] := by
  intro before a after h
  cases before with
  | nil => cases h
  | cons x before => cases h

theorem Covered.grants {m : Machine} {required : List PageFlags} {access : Nat → UserAccess}
    {accesses : List UserAccess} (h : Covered m required access accesses) {a : Nat}
    (ha : access a ∈ accesses) : PageGrants m required a := by
  obtain ⟨before, later, hsplit⟩ := List.append_of_mem ha
  exact (h before a later hsplit).2.2

theorem covered_validated_iff {access : Nat → UserAccess} (hinj : Function.Injective access)
    (hkind : ∀ a start length, access a ≠ .validated start length) (m : Machine)
    (required : List PageFlags) (start length : Nat) (addrs : List Nat) :
    Covered m required access (.validated start length :: addrs.map access) ↔
      ∀ a ∈ addrs, (start ≤ a ∧ a < start + length) ∧ (0x1000 ≤ a ∧ a < 2 ^ 47) ∧
        PageGrants m required a := by
  constructor
  · intro h a ha
    obtain ⟨earlier, later, hsplit⟩ := List.append_of_mem ha
    obtain ⟨⟨start', length', hmem, hin⟩, hrest⟩ :=
      h (.validated start length :: earlier.map access) a (later.map access)
        (by rw [hsplit, List.map_append, List.map_cons, List.cons_append])
    refine ⟨?_, hrest⟩
    rcases List.mem_cons.mp hmem with heq | hlater
    · cases heq
      exact hin
    · obtain ⟨b, _, hb⟩ := List.mem_map.mp hlater
      exact absurd hb (hkind b _ _)
  · intro h before a after hsplit
    cases before with
    | nil => exact absurd (List.cons.inj hsplit).1.symm (hkind a _ _)
    | cons x before =>
      obtain ⟨hfirst, hrest⟩ := List.cons.inj hsplit
      have hmem : access a ∈ addrs.map access := by
        rw [hrest]
        exact List.mem_append_right _ List.mem_cons_self
      obtain ⟨b, hb, heq⟩ := List.mem_map.mp hmem
      have hin := h a (hinj heq ▸ hb)
      exact ⟨⟨start, length, hfirst ▸ List.mem_cons_self, hin.1⟩, hin.2⟩

end LlamaOS.Syscall
