import LlamaOS.Memory.Pmm
import LlamaOS.Memory.PageTable
import LlamaOS.Shared.RadixForest

/-!
# The virtual memory manager

Physical memory is seen as page frames of 512 entries. The kernel reaches a table
through `phys_to_virt`, so an operation has no result (`none`) when that address does
not lead to the frame: the access faults or hits another frame. The TLB is not
modelled.
-/

namespace LlamaOS.Memory
open PhysicalAddress

inductive VmmStatus where
  | success
  | notInitialized
  | invalidVirtualAddress
  | unalignedAddress
  | outOfMemory
  | alreadyMapped
  | notMapped
  | hugePageCollision
deriving DecidableEq

structure VirtualMemoryManager where
  rootPml4Paddr : Nat := 0
  initialized : Bool := false
deriving DecidableEq

/-- Contents of the page frame at a physical address. -/
abbrev Ram := Nat → Fin 512 → PageTableEntry

/-- The four-level walk of `translate` and `walk_live_cr3` from a given root. -/
def walk (ram : Ram) (root vaddr : Nat) : Option (Nat × PageFlags) :=
  let pml4e := ram root (VirtualAddress.pml4Index vaddr)
  if !pml4e.isPresent then none
  else
    let pdpte := ram pml4e.physicalAddress (VirtualAddress.pdptIndex vaddr)
    if !pdpte.isPresent then none
    else
      let pde := ram pdpte.physicalAddress (VirtualAddress.pdIndex vaddr)
      if !pde.isPresent then none
      else if pde.isHuge then
        some (add64 pde.physicalAddress (vaddr &&& 0x1FFFFF), pde.flags)
      else
        let pte := ram pde.physicalAddress (VirtualAddress.ptIndex vaddr)
        if !pte.isPresent then none
        else some (add64 pte.physicalAddress (VirtualAddress.pageOffset vaddr), pte.flags)

structure Machine where
  pmm : PhysicalMemoryManager
  ram : Ram
  vmm : VirtualMemoryManager
  cr3 : Nat

namespace Machine

def activeRoot (m : Machine) : Nat := m.cr3 &&& (2 ^ 64 - pageSize)

theorem activeRoot_congr {m m' : Machine} (h : m.cr3 = m'.cr3) : m.activeRoot = m'.activeRoot := by
  rw [activeRoot, h, activeRoot]

/-- `phys_to_virt` leads to the frame. The bootstrap tables, in use until a first `init` succeeds,
map the whole window of `is_direct_mapped`. -/
def canAccess (m : Machine) (pa : Nat) : Bool :=
  isDirectMapped pa &&
    (m.vmm.rootPml4Paddr == 0 || (walk m.ram m.activeRoot (physToVirt pa)).map Prod.fst == some pa)

def write (m : Machine) (table : Nat) (i : Fin 512) (e : PageTableEntry) : Machine :=
  { m with ram := RadixForest.write m.ram table i e }

def store (m : Machine) (table : Nat) (i : Fin 512) (e : PageTableEntry) : Option Machine :=
  if m.canAccess table then some (m.write table i e) else none

/-- `for (i = lo; i < hi; ++i) table->entries[i] = f(i)`. -/
def fill (m : Machine) (table lo hi : Nat) (f : Fin 512 → PageTableEntry) : Option Machine :=
  if m.canAccess table then
    some { m with ram := fun t i => if t = table ∧ lo ≤ i ∧ i < hi then f i else m.ram t i }
  else none

/-- `PhysicalMemoryManager::alloc_page` with its zero fill. Low memory is reserved, so address 0 is
the failure and not frame 0. -/
def allocPage (m : Machine) : Option (Nat × Machine) :=
  let (pa, pmm) := m.pmm.allocPage
  let m := { m with pmm := pmm }
  if pa = 0 then some (0, m)
  else if isDirectMapped pa then do
    let m ← m.fill pa 0 512 fun _ => .clear
    return (pa, m)
  else some (pa, m)

def zeroFrames (m : Machine) (pa count : Nat) : Option Machine :=
  (List.range count).foldlM (fun m i => m.fill (pa + i * pageSize) 0 512 fun _ => .clear) m

/-- `PhysicalMemoryManager::alloc_pages` with its zero fill. -/
def allocPages (m : Machine) (count : Nat) : Option (Nat × Machine) :=
  if count = 1 then m.allocPage
  else
    let (pa, pmm) := m.pmm.allocPages count
    let m := { m with pmm := pmm }
    if pa = 0 then some (0, m)
    else if isDirectMapped (add64 pa (pageCountToBytes count)) then do
      let m ← m.zeroFrames pa count
      return (pa, m)
    else some (pa, m)

def freePage (m : Machine) (pa : Nat) : Machine := { m with pmm := (m.pmm.freePage pa).2 }

def freePages (m : Machine) (pa count : Nat) : Machine :=
  { m with pmm := (m.pmm.freePages pa count).2 }

def setForceAllocFailure (m : Machine) (fail : Bool) : Machine :=
  { m with pmm := m.pmm.setForceAllocFailure fail }

end Machine

/-- Section boundary markers of the linker script, as virtual addresses. -/
structure Sections where
  textStart : Nat
  textEnd : Nat
  rodataStart : Nat
  rodataEnd : Nat
  dataStart : Nat
  dataEnd : Nat
  bssStart : Nat
  bssEnd : Nat

namespace VirtualMemoryManager
open PageFlags

def tablePointer (pa : Nat) : PageTableEntry := .set pa (present ||| writable)

/-- Flags of frame `f` in the first 2 MiB. -/
def sectionFlags (sec : Sections) (f : Nat) : PageFlags :=
  let paVal := f * 4096
  let vaVal := kernelVirtualBase + paVal
  if vaVal ≥ sec.textStart ∧ vaVal < sec.textEnd then present
  else if vaVal ≥ sec.rodataStart ∧ vaVal < sec.rodataEnd then present ||| noExecute
  else if vaVal ≥ sec.dataStart ∧ vaVal < sec.dataEnd then present ||| writable ||| noExecute
  else if vaVal ≥ sec.bssStart ∧ vaVal < sec.bssEnd then present ||| writable ||| noExecute
  else if paVal < 0x100000 then present ||| writable ||| noExecute
  else if paVal ≥ 0x100000 ∧ vaVal < sec.textStart then present ||| writable
  else present ||| writable ||| noExecute

def largePage (base i : Nat) : PageTableEntry :=
  .set (base + i * 2 * 1024 * 1024) (present ||| writable ||| hugePage ||| noExecute)

/-- `nxe` is bit 11 of `IA32_EFER`. -/
def init (m : Machine) (nxe : Bool) (sec : Sections) : Option (Bool × Machine) := do
  let m := { m with vmm := { m.vmm with initialized := false } }
  if !nxe then return (false, m)
  let (newPml4, m) ← m.allocPage
  if newPml4 = 0 then return (false, m)
  let (newPdpt, m) ← m.allocPage
  if newPdpt = 0 then return (false, m.freePage newPml4)
  let m ← m.store newPml4 511 (tablePointer newPdpt)
  let (newPd2, m) ← m.allocPage
  if newPd2 = 0 then return (false, (m.freePage newPdpt).freePage newPml4)
  let m ← m.store newPdpt 511 (tablePointer newPd2)
  let m ← m.fill newPd2 0 512 fun i => largePage 0x40000000 i
  let (newPd1, m) ← m.allocPage
  if newPd1 = 0 then return (false, ((m.freePage newPd2).freePage newPdpt).freePage newPml4)
  let m ← m.store newPdpt 510 (tablePointer newPd1)
  let (newPt0, m) ← m.allocPage
  if newPt0 = 0 then
    return (false, (((m.freePage newPd1).freePage newPd2).freePage newPdpt).freePage newPml4)
  let m ← m.store newPd1 0 (tablePointer newPt0)
  let m ← m.fill newPt0 0 512 fun f => .set (f * 4096) (sectionFlags sec f)
  let m ← m.fill newPd1 1 256 fun i => largePage 0 i
  return (true, { m with vmm := { rootPml4Paddr := newPml4, initialized := true }, cr3 := newPml4 })

def tableFlags (flags : PageFlags) : PageFlags :=
  if testFlag flags user then present ||| writable ||| user else present ||| writable

/-- Follow the pointer in an entry to its table. -/
def tableAt (m : Machine) (table : Nat) (i : Fin 512) : Option (Option Nat × Machine) :=
  let pa := (m.ram table i).physicalAddress
  if m.canAccess pa then some (some pa, m) else none

/-- One level of `map_page_in_table`: the table below entry `i`, allocated when the entry is not
present. The inner `none` is the out-of-memory return. -/
def ensureTable (m : Machine) (table : Nat) (i : Fin 512) (flags : PageFlags) :
    Option (Option Nat × Machine) :=
  let e := m.ram table i
  if !e.isPresent then do
    let (pa, m) ← m.allocPage
    if pa = 0 then return (none, m)
    tableAt (m.write table i (.set pa (tableFlags flags))) table i
  else if testFlag flags user && !e.isUser then
    tableAt (m.write table i (.set e.physicalAddress (e.flags ||| user))) table i
  else tableAt m table i

def mapPageInTable (m : Machine) (pml4Pa vaddr paddr : Nat) (flags : PageFlags) :
    Option (VmmStatus × Machine) := do
  if !m.vmm.initialized then return (.notInitialized, m)
  if !VirtualAddress.isCanonical vaddr then return (.invalidVirtualAddress, m)
  if !VirtualAddress.isPageAligned vaddr || !isPageAligned paddr then
    return (.unalignedAddress, m)
  let pml4 := if isNull pml4Pa then m.vmm.rootPml4Paddr else pml4Pa
  guard (m.canAccess pml4)
  match ← ensureTable m pml4 (VirtualAddress.pml4Index vaddr) flags with
  | (none, m) => return (.outOfMemory, m)
  | (some pdpt, m) =>
    match ← ensureTable m pdpt (VirtualAddress.pdptIndex vaddr) flags with
    | (none, m) => return (.outOfMemory, m)
    | (some pd, m) =>
      if (m.ram pd (VirtualAddress.pdIndex vaddr)).isHuge then return (.hugePageCollision, m)
      match ← ensureTable m pd (VirtualAddress.pdIndex vaddr) flags with
      | (none, m) => return (.outOfMemory, m)
      | (some pt, m) =>
        if (m.ram pt (VirtualAddress.ptIndex vaddr)).isPresent then return (.alreadyMapped, m)
        return (.success,
          m.write pt (VirtualAddress.ptIndex vaddr) (.set paddr (flags ||| present)))

def mapPage (m : Machine) (vaddr paddr : Nat) (flags : PageFlags) : Option (VmmStatus × Machine) :=
  mapPageInTable m m.vmm.rootPml4Paddr vaddr paddr flags

def unmapPage (m : Machine) (vaddr : Nat) : Option (VmmStatus × Machine) := do
  if !m.vmm.initialized then return (.notInitialized, m)
  if !VirtualAddress.isCanonical vaddr then return (.invalidVirtualAddress, m)
  if !VirtualAddress.isPageAligned vaddr then return (.unalignedAddress, m)
  let pml4 := m.vmm.rootPml4Paddr
  guard (m.canAccess pml4)
  let pml4e := m.ram pml4 (VirtualAddress.pml4Index vaddr)
  if !pml4e.isPresent then return (.notMapped, m)
  let pdpt := pml4e.physicalAddress
  guard (m.canAccess pdpt)
  let pdpte := m.ram pdpt (VirtualAddress.pdptIndex vaddr)
  if !pdpte.isPresent then return (.notMapped, m)
  let pd := pdpte.physicalAddress
  guard (m.canAccess pd)
  let pde := m.ram pd (VirtualAddress.pdIndex vaddr)
  if !pde.isPresent then return (.notMapped, m)
  if pde.isHuge then return (.hugePageCollision, m)
  let pt := pde.physicalAddress
  guard (m.canAccess pt)
  if !(m.ram pt (VirtualAddress.ptIndex vaddr)).isPresent then return (.notMapped, m)
  return (.success, m.write pt (VirtualAddress.ptIndex vaddr) .clear)

def createUserAddressSpace (m : Machine) : Option (Nat × Machine) := do
  if !m.vmm.initialized || isNull m.vmm.rootPml4Paddr then return (0, m)
  let root := m.vmm.rootPml4Paddr
  let (pml4, m) ← m.allocPage
  if pml4 = 0 then return (0, m)
  let m ← m.fill pml4 0 256 fun _ => .clear
  guard (m.canAccess root)
  let m ← m.fill pml4 256 512 fun i => m.ram root i
  return (pml4, m)

/-- The innermost loop of `destroy_user_address_space`. -/
def destroyPt (pt : Nat) (m : Machine) : Option Machine :=
  if !m.canAccess pt then none
  else
    (List.finRange 512).foldlM (fun m l =>
      if (m.ram pt l).isPresent then
        some ((m.freePage (m.ram pt l).physicalAddress).write pt l .clear)
      else some m) m

/-- One level further out: tear down what is below each table pointer, then free the table. -/
def destroyBelow (inner : Nat → Machine → Option Machine) (table : Nat) (m : Machine) :
    Option Machine :=
  if !m.canAccess table then none
  else
    (List.finRange 512).foldlM (fun m k =>
      if (m.ram table k).isPresent && !(m.ram table k).isHuge then do
        let m ← inner (m.ram table k).physicalAddress m
        return m.freePage (m.ram table k).physicalAddress
      else some m) m

def destroyPd : Nat → Machine → Option Machine := destroyBelow destroyPt

def destroyPdpt : Nat → Machine → Option Machine := destroyBelow destroyPd

def destroyUserAddressSpace (m : Machine) (pml4Pa : Nat) : Option Machine :=
  if isNull pml4Pa || pml4Pa == m.vmm.rootPml4Paddr then some m
  else if !m.canAccess pml4Pa then none
  else do
    let m ← ((List.finRange 512).take 256).foldlM (fun m i =>
      if (m.ram pml4Pa i).isPresent then do
        let m ← destroyPdpt (m.ram pml4Pa i).physicalAddress m
        return m.freePage (m.ram pml4Pa i).physicalAddress
      else some m) m
    return m.freePage pml4Pa

/-- `translate`, where every table it follows can be reached. -/
def translate (m : Machine) (vaddr : Nat) : Option (Nat × PageFlags) :=
  if !m.vmm.initialized || !VirtualAddress.isCanonical vaddr then none
  else
    let pml4Pa := if m.cr3 ≠ 0 then m.activeRoot else m.vmm.rootPml4Paddr
    walk m.ram pml4Pa vaddr

end VirtualMemoryManager

end LlamaOS.Memory
