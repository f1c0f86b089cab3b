import LlamaOS.Memory.RangeFrees
import LlamaOS.Shared.ByteBuffer

/-!
# The kernel heap

`kalloc.cpp`: `kmalloc` and `kfree` with their slab bins, over the page allocator. Memory is the
kernel's view of it, bytes at virtual addresses; a pointer is such an address and 0 is the null
pointer. The links of the freelists and the headers of the blocks lie in this memory. The spinlock
and log messages are left out.
-/

namespace LlamaOS.Memory
open ByteBuffer WordBitset WordBitset.Bitset

namespace PhysicalMemoryManager

variable {p : PhysicalMemoryManager}

theorem allocPages_keeps (count : Nat) {f : Nat} (hf : p.bitmap.test f = true) :
    (p.allocPages count).2.bitmap.test f = true := by
  rcases allocPages_cases p count with hnone | ⟨s, htake, hsome⟩
  · rw [hnone]
    exact hf
  rw [hsome]
  unfold takeRun
  rw [test_setRange _ _ _ _ htake.inside, hf, Bool.or_true]

theorem freePage_keeps_zero (paddr : Nat) (hzero : p.bitmap.test 0 = true) :
    (p.freePage paddr).2.bitmap.test 0 = true := by
  rcases freePage_cases p paddr with ⟨hfree, heq⟩ | ⟨_, heq⟩
  · rw [heq]
    have haligned := hfree.aligned
    have hnull := hfree.nonnull
    exact (test_clearBit_of_ne _ (by omega)).trans hzero
  · rw [heq]
    exact hzero

theorem freePages_keeps_zero (paddr count : Nat) (hzero : p.bitmap.test 0 = true) :
    (p.freePages paddr count).2.bitmap.test 0 = true := by
  have hloop : ∀ (pages : List Nat) (allOk : Bool) (p : PhysicalMemoryManager),
      p.bitmap.test 0 = true → (freeLoop paddr pages allOk p).2.bitmap.test 0 = true := by
    intro pages
    induction pages with
    | nil => exact fun _ _ h => h
    | cons i pages ih =>
      intro allOk p h
      exact ih _ _ (freePage_keeps_zero _ h)
  unfold freePages
  split
  · exact hzero
  · exact hloop _ _ _ hzero

end PhysicalMemoryManager

def allocMagic : Nat := 0x4C4C414D

/-- `sizeof(AllocHeader)` -/
def headerBytes : Nat := 16

def slabSizes : List Nat := [64, 128, 256, 512, 1024, 2048]

def slabSize (bin : Nat) : Nat := slabSizes.getD bin 0

def findSlabBin (totalNeeded : Nat) : Option Nat := slabSizes.findIdx? (totalNeeded ≤ ·)

def pageCountFromBytes (bytes : Nat) : Nat :=
  bytes / pageSize + if bytes % pageSize ≠ 0 then 1 else 0

/-- `sizeof(AllocHeader)` and `size` bytes, added in 64 bits. -/
def totalNeeded (size : Nat) : Nat := add64 size headerBytes

/-- The length of the block that a request for `size` bytes is served from, with its header. -/
def blockLength (size : Nat) : Nat :=
  match findSlabBin (totalNeeded size) with
  | some bin => slabSize bin
  | none => pageCountFromBytes (totalNeeded size) * pageSize

/-- The allocator together with the pages under it. Frame 0 is in use from boot on, so address 0
from `alloc_pages` is the failure. -/
structure Heap where
  pmm : PhysicalMemoryManager
  mem : Buffer
  slabFreelists : Nat → Nat := fun _ => 0
  lowUsed : pmm.bitmap.test 0 = true

namespace Heap

def memset (mem : Buffer) (ptr len : Nat) : Buffer :=
  fun a => if ptr ≤ a ∧ a < ptr + len then 0 else mem a

def allocKernelPages (h : Heap) (count : Nat) : Nat × Heap :=
  if count = 0 then (0, h)
  else
    let pa := (h.pmm.allocPages count).1
    let h := { h with
      pmm := (h.pmm.allocPages count).2
      lowUsed := PhysicalMemoryManager.allocPages_keeps count h.lowUsed }
    if pa = 0 then (0, h)
    else
      let ptr := physToVirt pa
      (ptr, { h with mem := memset h.mem ptr (count * pageSize % 2 ^ 64) })

def freeKernelPages (h : Heap) (virtAddr count : Nat) : Bool × Heap :=
  if virtAddr = 0 ∨ count = 0 then (false, h)
  else
    let pa := sub64 virtAddr kernelVirtualBase
    ((h.pmm.freePages pa count).1,
      { h with
        pmm := (h.pmm.freePages pa count).2
        lowUsed := PhysicalMemoryManager.freePages_keeps_zero pa count h.lowUsed })

def pushNode (h : Heap) (bin node : Nat) : Heap :=
  { h with
    mem := patch h.mem node (leBytes 8 (h.slabFreelists bin))
    slabFreelists := Function.update h.slabFreelists bin node }

def replenish (h : Heap) (bin page : Nat) : Heap :=
  (List.range (pageSize / slabSize bin)).foldl
    (fun h b => h.pushNode bin (page + b * slabSize bin)) h

/-- The fields are 32 bits wide, the last one 8. -/
def writeHeader (h : Heap) (header size pageCount slabBin : Nat) : Heap :=
  { h with
    mem := patch h.mem header
      (leBytes 4 allocMagic ++ leBytes 4 size ++ leBytes 4 pageCount ++ leBytes 1 slabBin) }

def takeNode (h : Heap) (bin size : Nat) : Nat × Heap :=
  let node := h.slabFreelists bin
  let h := { h with slabFreelists := Function.update h.slabFreelists bin (loadLe h.mem node 8) }
  (node + headerBytes, h.writeHeader node size 0 bin)

def kmalloc (h : Heap) (size : Nat) : Nat × Heap :=
  if size = 0 then (0, h)
  else
    match findSlabBin (totalNeeded size) with
    | some bin =>
      if h.slabFreelists bin = 0 then
        let new := h.allocKernelPages 1
        if new.1 = 0 then (0, new.2) else (new.2.replenish bin new.1).takeNode bin size
      else h.takeNode bin size
    | none =>
      let pages := pageCountFromBytes (totalNeeded size)
      let new := h.allocKernelPages pages
      if new.1 = 0 then (0, new.2)
      else (new.1 + headerBytes, new.2.writeHeader new.1 size pages 0xFF)

def kfree (h : Heap) (ptr : Nat) : Heap :=
  if ptr = 0 then h
  else
    let header := sub64 ptr headerBytes
    if loadLe h.mem header 4 ≠ allocMagic then
      if VirtualAddress.isPageAligned ptr then (h.freeKernelPages ptr 1).2 else h
    else
      let h := { h with mem := patch h.mem header (leBytes 4 0) }
      let bin := loadLe h.mem (header + 12) 1
      if bin ≠ 0xFF ∧ bin < slabSizes.length then h.pushNode bin header
      else
        let pageCount := loadLe h.mem (header + 8) 4
        if pageCount > 0 then (h.freeKernelPages header pageCount).2 else h

end Heap

end LlamaOS.Memory
