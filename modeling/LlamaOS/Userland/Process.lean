import LlamaOS.Shared.ByteBuffer
import LlamaOS.Threading.Scheduler
import LlamaOS.Userland.ElfLoader

/-!
# Creating a process

`ProcessManager::create_process` over the machine, the scheduler and the process table.
The descriptors that `install_user_descriptors` puts into the GDT are left out.
-/

namespace LlamaOS.Userland
open Memory VirtualMemoryManager Threading

abbrev maxProcesses : Nat := 16
abbrev processNameMax : Nat := 32

inductive ProcessState where
  | unused
  | created
  | running
  | terminated
deriving DecidableEq

structure Process where
  pid : Nat := 0
  name : List (BitVec 8) := List.replicate processNameMax 0
  state : ProcessState := .unused
  entryPoint : Nat := 0
  stackTop : Nat := 0
  cr3 : Nat := 0
  thread : Option Nat := none
  exitCode : Int := 0
  active : Bool := false
deriving DecidableEq

structure ProcessManager where
  processes : Nat → Process := fun _ => {}
  nextPid : Nat := 1
  initialized : Bool := false

namespace ProcessManager

def init : ProcessManager := { initialized := true }

def ready (pm : ProcessManager) : ProcessManager := if !pm.initialized then init else pm

def freeSlot (pm : ProcessManager) : Option Nat :=
  (List.range maxProcesses).find? fun i => !(pm.processes i).active

def setProcess (pm : ProcessManager) (i : Nat) (proc : Process) : ProcessManager :=
  { pm with processes := fun j => if j = i then proc else pm.processes j }

end ProcessManager

structure Kernel where
  machine : Machine
  scheduler : Scheduler := {}
  manager : ProcessManager := {}

def orFault {α : Type} : Option α → Except Fault α
  | some a => .ok a
  | none => .error .pageFault

namespace Kernel

def setProcess (k : Kernel) (i : Nat) (proc : Process) : Kernel :=
  { k with manager := k.manager.setProcess i proc }

/-- `destroy_user_address_space(slot->cr3)` on the ways out of `create_process`. -/
def discard (k : Kernel) (slot : Nat) (proc : Process) : Except Fault (Option Nat × Kernel) := do
  let machine ← orFault (destroyUserAddressSpace k.machine proc.cr3)
  return (none, { k with machine := machine }.setProcess slot
    { proc with cr3 := 0, active := false })

/-- The thread of a process whose image is loaded. -/
def startProcess (k : Kernel) (slot : Nat) (proc : Process) :
    Except Fault (Option Nat × Kernel) := do
  let (thread, scheduler, machine) ← orFault (k.scheduler.createThread (some proc.name) k.machine)
  let k := { k with scheduler := scheduler, machine := machine }
  let proc := { proc with thread := thread }
  match thread with
  | none => k.discard slot proc
  | some t =>
    let scheduler := k.scheduler.setTcb t { k.scheduler.tcbPool t with cr3 := proc.cr3 }
    return (some slot, { k with scheduler := scheduler }.setProcess slot proc)

/-- A process is its slot in the table. -/
def createProcess (k : Kernel) (name : Option (List (BitVec 8)))
    (elfData : Option (List (BitVec 8))) : Except Fault (Option Nat × Kernel) :=
  let k := { k with manager := k.manager.ready }
  match elfData with
  | none => .ok (none, k)
  | some [] => .ok (none, k)
  | some file =>
    match k.manager.freeSlot with
    | none => .ok (none, k)
    | some slot => do
      let (cr3, machine) ← orFault (createUserAddressSpace k.machine)
      let k := { k with machine := machine }
      let proc := { k.manager.processes slot with cr3 := cr3 }
      if cr3 = 0 then return (none, k.setProcess slot proc)
      let (res, machine) ← load (some file) cr3 k.machine
      let k := { k with machine := machine }
      if res.status ≠ .success then k.discard slot proc
      else
        let proc :=
          { proc with
            pid := k.manager.nextPid
            name := strncpy (name.getD (literal "user_proc")) processNameMax
            state := .created
            entryPoint := res.entryPoint
            stackTop := res.stackTop
            exitCode := 0
            active := true }
        let manager := { k.manager with nextPid := (k.manager.nextPid + 1) % 2 ^ 32 }
        { k with manager := manager }.startProcess slot proc

end Kernel

/-!
## The process list

`ProcessManager::get_processes` as the bytes it stores, in order, through the pointer of
its caller.
-/

open ByteBuffer

def ProcessState.toNat : ProcessState → Nat
  | .unused => 0
  | .created => 1
  | .running => 2
  | .terminated => 3

structure ProcessTelemetry where
  pid : Nat
  ppid : Nat
  state : Nat
  pad : Nat
  name : List (BitVec 8)
  nameLength : name.length = 32
  cpuTicks : Nat
  memoryBytes : Nat

abbrev telemetrySize : Nat := 64

/-- The packed structure in memory. -/
def ProcessTelemetry.bytes (t : ProcessTelemetry) : List (BitVec 8) :=
  leBytes 4 t.pid ++ leBytes 4 t.ppid ++ leBytes 4 t.state ++ leBytes 4 t.pad ++ t.name ++
    leBytes 8 t.cpuTicks ++ leBytes 8 t.memoryBytes

theorem ProcessTelemetry.bytes_length (t : ProcessTelemetry) : t.bytes.length = telemetrySize := by
  simp only [bytes, List.length_append, leBytes_length, t.nameLength]

def Process.telemetry (p : Process) (ticks : Nat) : ProcessTelemetry where
  pid := p.pid
  ppid := 0
  state := p.state.toNat
  pad := 0
  name := strncpy p.name 31 ++ [0]
  nameLength := by rw [List.length_append, strncpy_length]; rfl
  cpuTicks := ticks
  memoryBytes := 16 * 1024

namespace ProcessManager

def activeProcessCount (pm : ProcessManager) : Nat :=
  ((List.range maxProcesses).filter fun i => (pm.processes i).active).length

def entryStores (outList index : Nat) (t : ProcessTelemetry) : List (Nat × BitVec 8) :=
  (List.range' (index * telemetrySize) telemetrySize).map (add64 outList) |>.zip t.bytes

/-- The loop of `get_processes` over the remaining slots: the final count and the stores. -/
def listProcesses (pm : ProcessManager) (ticks outList maxCount : Nat) :
    List Nat → Nat → Nat × List (Nat × BitVec 8)
  | [], count => (count, [])
  | i :: rest, count =>
    if count < maxCount then
      if (pm.processes i).active then
        let (total, stores) := listProcesses pm ticks outList maxCount rest (count + 1)
        (total, entryStores outList count ((pm.processes i).telemetry ticks) ++ stores)
      else listProcesses pm ticks outList maxCount rest count
    else (count, [])

def getProcesses (pm : ProcessManager) (ticks outList maxCount : Nat) :
    Nat × List (Nat × BitVec 8) :=
  if outList = 0 ∨ maxCount = 0 then (0, [])
  else listProcesses pm ticks outList maxCount (List.range maxProcesses) 0

theorem entryStores_addresses (outList index : Nat) (t : ProcessTelemetry) :
    (entryStores outList index t).map Prod.fst =
      (List.range' (index * telemetrySize) telemetrySize).map (add64 outList) := by
  apply List.map_fst_zip
  rw [List.length_map, List.length_range', t.bytes_length]

theorem listProcesses_spec (pm : ProcessManager) (ticks outList maxCount : Nat) (slots : List Nat)
    (count) (hle : count ≤ maxCount) :
    (listProcesses pm ticks outList maxCount slots count).1 =
        min (count + (slots.filter fun i => (pm.processes i).active).length) maxCount ∧
      (listProcesses pm ticks outList maxCount slots count).2.map Prod.fst =
        (List.range' (count * telemetrySize)
          (((listProcesses pm ticks outList maxCount slots count).1 - count) * telemetrySize)).map
            (add64 outList) := by
  induction slots generalizing count with
  | nil => simp [listProcesses, hle]
  | cons i rest ih =>
    simp only [listProcesses]
    by_cases hlt : count < maxCount
    · rw [if_pos hlt]
      by_cases hactive : (pm.processes i).active = true
      · obtain ⟨htotal, hstores⟩ := ih (count + 1) hlt
        simp only [List.filter_cons, hactive, if_true, List.length_cons]
        refine ⟨htotal.trans (by omega), ?_⟩
        rw [List.map_append, entryStores_addresses, hstores, ← List.map_append, htotal]
        have hsplit :
            (min (count + 1 + (rest.filter fun i => (pm.processes i).active).length) maxCount -
              count) * telemetrySize =
            telemetrySize + (min (count + 1 + (rest.filter fun i => (pm.processes i).active).length)
              maxCount - (count + 1)) * telemetrySize := by
          simp only [telemetrySize]
          omega
        rw [hsplit, Nat.succ_mul, List.range'_append_1]
      · simp only [List.filter_cons, hactive, Bool.false_eq_true, if_false]
        exact ih count hle
    · rw [if_neg hlt]
      refine ⟨by simp only; omega, by simp⟩

theorem getProcesses_spec (pm : ProcessManager) (ticks : Nat) {outList maxCount : Nat}
    (hlist : outList ≠ 0) (hcount : maxCount ≠ 0) :
    (pm.getProcesses ticks outList maxCount).1 = min pm.activeProcessCount maxCount ∧
      (pm.getProcesses ticks outList maxCount).2.map Prod.fst =
        (List.range (min pm.activeProcessCount maxCount * telemetrySize)).map (add64 outList) := by
  have hspec :=
    listProcesses_spec pm ticks outList maxCount (List.range maxProcesses) 0 (Nat.zero_le _)
  have hget : pm.getProcesses ticks outList maxCount =
      listProcesses pm ticks outList maxCount (List.range maxProcesses) 0 :=
    if_neg fun h => h.elim hlist hcount
  rw [hget, activeProcessCount, List.range_eq_range' (n := _ * _)]
  obtain ⟨htotal, hstores⟩ := hspec
  rw [htotal] at hstores
  simpa only [Nat.zero_add, Nat.zero_mul, Nat.sub_zero] using And.intro htotal hstores

end ProcessManager

end LlamaOS.Userland
