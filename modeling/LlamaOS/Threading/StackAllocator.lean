import LlamaOS.Memory.Vmm

/-!
# Kernel thread stacks

`StackAllocator` with its 64 slots in the kernel half: four frames in a row are mapped
above an unmapped guard page. A result of `none` is a page fault.
-/

namespace LlamaOS.Threading
open Memory VirtualMemoryManager PageFlags

abbrev stackUsablePages : Nat := 4
abbrev guardPages : Nat := 1
abbrev pagesPerSlot : Nat := guardPages + stackUsablePages
abbrev slotSizeBytes : Nat := pagesPerSlot * pageSize
abbrev maxStackSlots : Nat := 64
abbrev threadStackBaseVirt : Nat := 0xFFFFFFFF72000000

structure ThreadStackInfo where
  guardPage : Nat := 0
  stackBottom : Nat := 0
  stackTop : Nat := 0
  physicalBase : Nat := 0
  usableBytes : Nat := 0
  pageCount : Nat := 0
  slotIndex : Int := -1
deriving DecidableEq

structure StackAllocator where
  slotInUse : Nat → Bool := fun _ => false
  pagesAllocated : Nat := 0
  pagesReclaimed : Nat := 0
  initialized : Bool := false

namespace StackAllocator

def init : StackAllocator := { initialized := true }

def stackPageFlags : PageFlags := present ||| writable ||| noExecute

/-- `for (p = 0; p < count; ++p) g_vmm.unmap_page(bottom_va + p * PAGE_SIZE)`; the statuses are
not looked at. -/
def unmapPages (bottomVa count : Nat) (m : Machine) : Option Machine :=
  (List.range count).foldlM (fun m p => do
    let (_, m) ← unmapPage m (add64 bottomVa (p * pageSize))
    return m) m

/-- The mapping loop of `allocate_stack` from page `p` on, with its rollback. -/
def mapPages (bottomVa pa : Nat) : List Nat → Machine → Option (Bool × Machine)
  | [], m => some (true, m)
  | p :: rest, m => do
    let (status, m) ← mapPage m (add64 bottomVa (p * pageSize)) (add64 pa (p * pageSize))
      stackPageFlags
    if status ≠ .success then
      let m ← unmapPages bottomVa p m
      return (false, m.freePages pa stackUsablePages)
    mapPages bottomVa pa rest m

def freeSlot (a : StackAllocator) : Option Nat :=
  (List.range maxStackSlots).find? fun i => !a.slotInUse i

def slotBase (slot : Nat) : Nat := add64 threadStackBaseVirt (slot * slotSizeBytes)

def slotBottom (slot : Nat) : Nat := add64 (slotBase slot) (guardPages * pageSize)

/-- The inner `none` stands for `false`. -/
def allocateStack (a : StackAllocator) (m : Machine) :
    Option (Option (ThreadStackInfo × StackAllocator) × Machine) :=
  if !a.initialized then some (none, m)
  else
    match a.freeSlot with
    | none => some (none, m)
    | some slot => do
      let (pa, m) ← m.allocPages stackUsablePages
      if pa = 0 then return (none, m)
      let (ok, m) ← mapPages (slotBottom slot) pa (List.range stackUsablePages) m
      if !ok then return (none, m)
      let info : ThreadStackInfo :=
        { guardPage := slotBase slot
          stackBottom := slotBottom slot
          stackTop := add64 (slotBase slot) slotSizeBytes
          physicalBase := pa
          usableBytes := stackUsablePages * pageSize
          pageCount := stackUsablePages
          slotIndex := slot }
      return (some (info,
        { a with
          slotInUse := fun i => if i = slot then true else a.slotInUse i
          pagesAllocated := a.pagesAllocated + stackUsablePages }), m)

def freeStack (a : StackAllocator) (info : ThreadStackInfo) (m : Machine) :
    Option (Bool × StackAllocator × Machine) :=
  if !a.initialized then some (false, a, m)
  else if info.slotIndex < 0 ∨ info.slotIndex ≥ maxStackSlots then some (false, a, m)
  else if !a.slotInUse info.slotIndex.toNat then some (false, a, m)
  else do
    let m ← unmapPages info.stackBottom info.pageCount m
    let m := if PhysicalAddress.isNull info.physicalBase then m
      else m.freePages info.physicalBase info.pageCount
    return (true,
      { a with
        slotInUse := fun i => if i = info.slotIndex.toNat then false else a.slotInUse i
        pagesReclaimed := a.pagesReclaimed + info.pageCount }, m)

end StackAllocator

end LlamaOS.Threading
