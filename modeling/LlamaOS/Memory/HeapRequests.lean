import LlamaOS.Memory.Contiguous
import LlamaOS.Memory.Kalloc

/-!
# The page that `alloc_page` takes

`alloc_page` visits the words of the bitmap cyclically from the hint on and takes the first free
frame it sees.
-/

namespace LlamaOS.Memory
open WordBitset WordBitset.Bitset

namespace PhysicalMemoryManager

def searchRank (p : PhysicalMemoryManager) (f : Nat) : Nat :=
  visitRank (p.lastSearchFrame / 64) (p.totalFrames / 64) f

/-- The first free frame in the order of the search, in a state that can give one. -/
structure NextFree (p : PhysicalMemoryManager) (f : Nat) : Prop where
  initialized : p.initialized = true
  notForced : p.forceAllocFailure = false
  counted : p.freeFrames ≠ 0
  inside : f < 64 * (p.totalFrames / 64)
  clear : p.bitmap.test f = false
  first : ∀ g < 64 * (p.totalFrames / 64), p.bitmap.test g = false → p.searchRank f ≤ p.searchRank g

variable {p : PhysicalMemoryManager} {f : Nat}

theorem NextFree.unique {g : Nat} (hf : p.NextFree f) (hg : p.NextFree g) : f = g :=
  visitRank_injective hf.inside hg.inside
    (Nat.le_antisymm (hf.first g hg.inside hg.clear) (hg.first f hf.inside hf.clear))

theorem allocPage_nextFree (p : PhysicalMemoryManager) :
    (∃ f, p.NextFree f ∧ p.allocPage = p.takeRun f 1) ∨
      ((∀ f, ¬ p.NextFree f) ∧ p.allocPage = (0, p)) := by
  unfold allocPage
  split
  · rename_i hguard
    refine .inr ⟨fun f hf => ?_, rfl⟩
    simp [hf.initialized, hf.notForced, hf.counted] at hguard
  rename_i hguard
  simp only [Bool.or_eq_true, Bool.not_eq_true', beq_iff_eq, not_or, Bool.not_eq_false,
    Bool.not_eq_true] at hguard
  obtain ⟨⟨hinit, hfree⟩, hforce⟩ := hguard
  dsimp only
  split
  · rename_i f hfind
    obtain ⟨_, hclear, hin⟩ := findClear_spec hfind
    exact .inl ⟨f, ⟨hinit, hforce, hfree, hin, hclear,
      fun g hg hclear' => findClear_first hfind hg hclear'⟩, rfl⟩
  rename_i hnone
  refine .inr ⟨fun f hf => ?_, rfl⟩
  have htest := findClear_eq_none hnone f hf.inside
  rw [hf.clear] at htest
  cases htest

theorem NextFree.canTake (h : p.NextFree f) : p.CanTake f 1 := by
  have hin := h.inside
  refine ⟨Nat.one_pos, ?_, fun g hlo hhi => ?_⟩
  · change f + 1 ≤ p.totalFrames
    omega
  · rw [show g = f by omega]
    exact h.clear

end PhysicalMemoryManager

/-!
## The block behind a pointer

`kmalloc` adds the header to the request in 64 bits. Where the sum does not wrap around, the block
has room for the request; where it does, a request for almost the whole address space is served
from the smallest bin.
-/

open ByteBuffer

theorem slabSize_bounds {bin : Nat} (hbin : bin < 6) :
    64 ≤ slabSize bin ∧ slabSize bin ≤ 2048 ∧ slabSize bin % 64 = 0 ∧
      pageSize % slabSize bin = 0 := by
  have hsizes : ∀ b < 6, 64 ≤ slabSize b ∧ slabSize b ≤ 2048 ∧ slabSize b % 64 = 0 ∧
      pageSize % slabSize b = 0 := by
    decide
  exact hsizes bin hbin

theorem findSlabBin_some {total bin : Nat} (h : findSlabBin total = some bin) :
    bin < 6 ∧ total ≤ slabSize bin := by
  obtain ⟨hlt, hle, _⟩ := List.findIdx?_eq_some_iff_getElem.mp h
  have hle' : total ≤ slabSize bin := by
    unfold slabSize
    rw [List.getD_eq_getElem _ _ hlt]
    exact of_decide_eq_true hle
  exact ⟨hlt, hle'⟩

theorem findSlabBin_none {total : Nat} (h : findSlabBin total = none) : 2048 < total := by
  have hlast := List.findIdx?_eq_none_iff.mp h 2048 (by decide)
  exact Nat.lt_of_not_le (of_decide_eq_false hlast)

theorem pageCountFromBytes_le (bytes : Nat) : bytes ≤ pageCountFromBytes bytes * pageSize := by
  unfold pageCountFromBytes
  simp only [pageSize]
  split <;> omega

theorem pageCountFromBytes_pos {bytes : Nat} (h : 0 < bytes) : 0 < pageCountFromBytes bytes := by
  unfold pageCountFromBytes
  simp only [pageSize]
  split <;> omega

theorem blockLength_room {size : Nat} (h : size + 16 < 2 ^ 64) : size + 16 ≤ blockLength size := by
  have htotal : totalNeeded size = size + 16 := add64_eq h
  unfold blockLength
  rw [htotal]
  split
  · rename_i bin hbin
    exact (findSlabBin_some hbin).2
  · exact pageCountFromBytes_le _

theorem totalNeeded_wrapped {size : Nat} (hsize : size < 2 ^ 64) (h : 2 ^ 64 ≤ size + 16) :
    findSlabBin (totalNeeded size) = some 0 := by
  have htotal : totalNeeded size < 16 := by
    unfold totalNeeded add64 headerBytes
    omega
  refine List.findIdx?_eq_some_iff_getElem.mpr ⟨by decide, ?_, nofun⟩
  have hle : totalNeeded size ≤ 64 := by omega
  exact decide_eq_true hle

namespace Heap

/-- The page allocator can give a page whose pointer is not null. The pointer of the page at 2 GiB
wraps around to null. -/
def HasPage (h : Heap) : Prop := ∃ f, h.pmm.NextFree f ∧ f ≠ 0x80000

theorem allocKernelPages_fst (h : Heap) {count : Nat} (hcount : count ≠ 0) :
    (h.allocKernelPages count).1 =
    if (h.pmm.allocPages count).1 = 0 then 0 else physToVirt (h.pmm.allocPages count).1 := by
  unfold allocKernelPages
  rw [if_neg hcount]
  dsimp only
  split <;> rfl

theorem allocKernelPages_one (h : Heap) : (h.allocKernelPages 1).1 ≠ 0 ↔ h.HasPage := by
  rw [allocKernelPages_fst h Nat.one_ne_zero, PhysicalMemoryManager.allocPages_one]
  rcases h.pmm.allocPage_nextFree with ⟨f, hnext, htake⟩ | ⟨hnone, hfail⟩
  · have hf : f ≠ 0 := by
      intro hzero
      have hclear := hnext.clear
      rw [hzero, h.lowUsed] at hclear
      cases hclear
    have hbound := h.pmm.framesBound
    have hin : f < 2 ^ 52 := by
      have hlt := hnext.inside
      change f < 64 * (h.pmm.bitmap.size / 64) at hlt
      omega
    rw [htake, PhysicalMemoryManager.takeRun_fst hnext.canTake, if_neg (by omega)]
    have hptr : physToVirt (f * 4096) ≠ 0 ↔ f ≠ 0x80000 := by
      unfold physToVirt add64
      simp only [kernelVirtualBase]
      omega
    rw [hptr]
    exact ⟨fun hne => ⟨f, hnext, hne⟩, fun ⟨g, hg, hne⟩ => hnext.unique hg ▸ hne⟩
  · rw [hfail, if_pos rfl]
    exact ⟨fun hne => absurd rfl hne, fun ⟨f, hf, _⟩ => absurd hf (hnone f)⟩

/-- A request that wraps around gets a pointer whenever the smallest bin or the page allocator has
something to give. -/
theorem kmalloc_wrapped {h : Heap} {size : Nat} (hsize : size < 2 ^ 64)
    (hwrap : 2 ^ 64 ≤ size + 16) : (h.kmalloc size).1 ≠ 0 ↔ h.slabFreelists 0 ≠ 0 ∨ h.HasPage := by
  have hnode : ∀ (h : Heap) (bin size : Nat), (h.takeNode bin size).1 ≠ 0 :=
    fun _ _ _ => Nat.succ_ne_zero _
  unfold kmalloc
  rw [if_neg (by omega), totalNeeded_wrapped hsize hwrap]
  dsimp only
  by_cases hempty : h.slabFreelists 0 = 0
  · rw [if_pos hempty]
    by_cases hpage : (h.allocKernelPages 1).1 = 0
    · rw [if_pos hpage]
      have hno : ¬ h.HasPage := fun hhas => h.allocKernelPages_one.mpr hhas hpage
      exact ⟨fun hne => absurd rfl hne,
        fun hor => hor.elim (fun hne => absurd hempty hne) fun hhas => absurd hhas hno⟩
    · rw [if_neg hpage]
      exact ⟨fun _ => .inr (h.allocKernelPages_one.mp hpage), fun _ => hnode _ _ _⟩
  · rw [if_neg hempty]
    exact ⟨fun _ => .inl hempty, fun _ => hnode _ _ _⟩

/-- A fresh heap over two MiB of RAM. -/
def sampleHeap : Heap where
  pmm := samplePmm
  mem := fun _ => 0
  lowUsed := by decide +kernel

end Heap

end LlamaOS.Memory
