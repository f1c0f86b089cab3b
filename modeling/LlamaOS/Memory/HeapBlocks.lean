import LlamaOS.Memory.HeapRequests
import LlamaOS.Shared.LinkedStack
import LlamaOS.Shared.Regions

/-!
# Blocks of the heap

Every block is live, free or, within an operation, loose. All blocks lie apart from each other in
frames the heap holds; the headers of live blocks and the links of free ones are intact. One lemma
says how each kind of step moves a block from one kind to another.
-/

namespace LlamaOS.Memory
open ByteBuffer WordBitset WordBitset.Bitset LinkedStack Regions Regions.Region

/-- A pointer that `kmalloc` has returned, with the size that was asked for. -/
structure Allocation where
  ptr : Nat
  size : Nat
deriving DecidableEq

namespace Allocation

def header (a : Allocation) : Nat := a.ptr - 16

def block (a : Allocation) : Region := ⟨a.header, blockLength a.size⟩

end Allocation

namespace Heap

/-- The address lies in a frame that was free in `p₀` and has been taken since. -/
structure Owned (p₀ p : PhysicalMemoryManager) (a : Nat) : Prop where
  lower : kernelVirtualBase ≤ a
  upper : a < 2 ^ 64
  fresh : p₀.bitmap.test ((a - kernelVirtualBase) / 4096) = false
  taken : p.bitmap.test ((a - kernelVirtualBase) / 4096) = true

/-- What the header of a live block says. -/
structure Header (mem : Buffer) (a : Allocation) : Prop where
  magic : loadLe mem a.header 4 = allocMagic
  slab : ∀ bin, findSlabBin (totalNeeded a.size) = some bin →
    loadLe mem (a.header + 12) 1 = bin ∧ a.header % slabSize bin = 0
  pages : findSlabBin (totalNeeded a.size) = none → loadLe mem (a.header + 12) 1 = 0xFF ∧
    loadLe mem (a.header + 8) 4 = pageCountFromBytes (totalNeeded a.size) ∧ a.header % 4096 = 0

/-- All blocks: loose ones, live ones and those on the freelists. -/
def blocks (loose : List Region) (live : List Allocation) (lists : Nat → List Nat) : List Region :=
  loose ++ (live.map Allocation.block ++ binned slabSize lists 6)

structure Sound (p₀ : PhysicalMemoryManager) (h : Heap) (live : List Allocation)
    (lists : Nat → List Nat) (loose : List Region) : Prop where
  apart : AllApart (blocks loose live lists)
  owned : ∀ r ∈ blocks loose live lists, ∀ a, r.Has a → Owned p₀ h.pmm a
  aligned : ∀ r ∈ blocks loose live lists, r.start % 16 = 0 ∧ 16 ≤ r.length
  slabs : ∀ bin < 6, ∀ x ∈ lists bin, x % slabSize bin = 0
  links : ∀ bin < 6, Links (fun x => loadLe h.mem x 8) 0 (h.slabFreelists bin) (lists bin)
  headers : ∀ a ∈ live, Header h.mem a
  fits : ∀ a ∈ live, 16 ≤ a.ptr ∧ a.size + 16 ≤ blockLength a.size
  base : ∀ f, p₀.bitmap.test f = true → h.pmm.bitmap.test f = true

variable {loose : List Region} {live : List Allocation} {lists : Nat → List Nat} {r : Region}

theorem mem_blocks :
    r ∈ blocks loose live lists ↔
      r ∈ loose ∨ (∃ a ∈ live, r = a.block) ∨ ∃ bin < 6, ∃ x ∈ lists bin,
        r = ⟨x, slabSize bin⟩ := by
  unfold blocks
  simp only [List.mem_append, List.mem_map, mem_binned, eq_comm]

variable {bin node : Nat}

theorem mem_blocks_push
    (hr : r ∈ blocks loose live (Function.update lists bin (node :: lists bin))) :
    r ∈ blocks (⟨node, slabSize bin⟩ :: loose) live lists := by
  rw [mem_blocks] at hr ⊢
  rcases hr with hr | hr | ⟨b, hb, x, hx, rfl⟩
  · exact .inl (List.mem_cons_of_mem _ hr)
  · exact .inr (.inl hr)
  by_cases heq : b = bin
  · subst heq
    rw [Function.update_self] at hx
    rcases List.mem_cons.mp hx with rfl | hx
    · exact .inl List.mem_cons_self
    · exact .inr (.inr ⟨b, hb, x, hx, rfl⟩)
  · rw [Function.update_of_ne heq] at hx
    exact .inr (.inr ⟨b, hb, x, hx, rfl⟩)

variable {mem : Buffer} {a : Allocation}

theorem Header.congr {mem' : Buffer} (h : Header mem a)
    (hsame : ∀ i < 16, mem' (a.header + i) = mem (a.header + i)) : Header mem' a := by
  have hload : ∀ off width, off + width ≤ 16 →
      loadLe mem' (a.header + off) width = loadLe mem (a.header + off) width := by
    intro off width hle
    refine loadLe_congr fun i hi => ?_
    rw [Nat.add_assoc]
    exact hsame (off + i) (by omega)
  refine ⟨(hload 0 4 (by decide)).trans h.magic, fun bin hbin => ?_, fun hnone => ?_⟩
  · obtain ⟨hbyte, haligned⟩ := h.slab bin hbin
    exact ⟨(hload 12 1 (by decide)).trans hbyte, haligned⟩
  · obtain ⟨hbyte, hcount, haligned⟩ := h.pages hnone
    exact ⟨(hload 12 1 (by decide)).trans hbyte, (hload 8 4 (by decide)).trans hcount, haligned⟩

namespace Sound

variable {p₀ : PhysicalMemoryManager} {h : Heap} {live live' : List Allocation}
  {lists : Nat → List Nat}
variable {loose loose' : List Region} {r : Region}

section

variable (hs : Sound p₀ h live lists loose)
include hs

theorem regroup {lists' : Nat → List Nat} {h' : Heap}
    (hperm : (blocks loose live lists).Perm (blocks loose' live' lists')) (hpmm : h'.pmm = h.pmm)
    (hslabs : ∀ bin < 6, ∀ x ∈ lists' bin, x % slabSize bin = 0)
    (hlinks : ∀ bin < 6, Links (fun x => loadLe h'.mem x 8) 0 (h'.slabFreelists bin) (lists' bin))
    (hheaders : ∀ a ∈ live', Header h'.mem a)
    (hfits : ∀ a ∈ live', 16 ≤ a.ptr ∧ a.size + 16 ≤ blockLength a.size) :
    Sound p₀ h' live' lists' loose' where
  apart := hs.apart.perm hperm
  owned := fun r hr => by
    rw [hpmm]
    exact hs.owned r (hperm.mem_iff.mpr hr)
  aligned := fun r hr => hs.aligned r (hperm.mem_iff.mpr hr)
  slabs := hslabs
  links := hlinks
  headers := hheaders
  fits := hfits
  base := by
    rw [hpmm]
    exact hs.base

theorem loosen (ha : a ∈ live) : Sound p₀ h (live.erase a) lists (a.block :: loose) := by
  refine hs.regroup ?_ rfl hs.slabs hs.links (fun b hb => hs.headers b (List.mem_of_mem_erase hb))
    fun b hb => hs.fits b (List.mem_of_mem_erase hb)
  have hlive :=
    ((List.perm_cons_erase ha).map Allocation.block).append_right (binned slabSize lists 6)
  exact (hlive.append_left loose).trans List.perm_middle

omit hs in
theorem allot (hs : Sound p₀ h live lists (a.block :: loose)) (hheader : Header h.mem a)
    (hfits : 16 ≤ a.ptr ∧ a.size + 16 ≤ blockLength a.size) :
    Sound p₀ h (a :: live) lists loose := by
  refine hs.regroup List.perm_middle.symm rfl hs.slabs hs.links ?_ ?_
  · exact List.forall_mem_cons.mpr ⟨hheader, hs.headers⟩
  · exact List.forall_mem_cons.mpr ⟨hfits, hs.fits⟩

theorem perm_live (hperm : live.Perm live') : Sound p₀ h live' lists loose :=
  hs.regroup (((hperm.map _).append_right _).append_left _) rfl hs.slabs hs.links
    (fun a ha => hs.headers a (hperm.mem_iff.mpr ha)) fun a ha => hs.fits a (hperm.mem_iff.mpr ha)

omit hs in
theorem forget (hs : Sound p₀ h live lists (r :: loose)) : Sound p₀ h live lists loose where
  apart := (allApart_cons.mp hs.apart).2
  owned := fun s hs' => hs.owned s (List.mem_cons_of_mem _ hs')
  aligned := fun s hs' => hs.aligned s (List.mem_cons_of_mem _ hs')
  slabs := hs.slabs
  links := hs.links
  headers := hs.headers
  fits := hs.fits
  base := hs.base

omit hs in
theorem frame (hs : Sound p₀ h live lists (r :: loose)) (hmem : ∀ a, ¬ r.Has a → mem a = h.mem a) :
    Sound p₀ { h with mem } live lists (r :: loose) := by
  have hapart := (allApart_cons.mp hs.apart).1
  have hother : ∀ s ∈ blocks loose live lists, ∀ a, s.Has a → mem a = h.mem a :=
    fun s hs' a ha => hmem a ((hapart s hs').symm.not_has ha)
  refine hs.regroup (List.Perm.refl _) rfl hs.slabs (fun bin hbin => ?_) (fun a ha => ?_) hs.fits
  · refine (hs.links bin hbin).congr fun x hx => loadLe_congr fun i hi => ?_
    refine hother ⟨x, slabSize bin⟩ (mem_blocks.mpr (.inr (.inr ⟨bin, hbin, x, hx, rfl⟩))) _
      ⟨?_, ?_⟩
    · exact Nat.le_add_right _ _
    · have hsize := (slabSize_bounds hbin).1
      dsimp only
      omega
  · refine (hs.headers a ha).congr fun i hi => ?_
    refine hother a.block (mem_blocks.mpr (.inr (.inl ⟨a, ha, rfl⟩))) _ ⟨?_, ?_⟩
    · exact Nat.le_add_right _ _
    · have hroom := (hs.fits a ha).2
      show a.header + i < a.header + blockLength a.size
      omega

theorem pop {x : Nat} {xs : List Nat} (hbin : bin < 6)
    (hlist : lists bin = x :: xs) :
    Sound p₀ { h with slabFreelists := Function.update h.slabFreelists bin (loadLe h.mem x 8) } live
      (Function.update lists bin xs) (⟨x, slabSize bin⟩ :: loose) := by
  have hself : Function.update lists bin (x :: xs) = lists := by
    rw [← hlist, Function.update_eq_self]
  have hbins : (binned slabSize lists 6).Perm
      (⟨x, slabSize bin⟩ :: binned slabSize (Function.update lists bin xs) 6) := by
    have hpush := @binned_push slabSize lists 6 bin x xs hbin
    rwa [hself] at hpush
  refine hs.regroup ?_ rfl (fun b hb y hy => ?_) (fun b hb => ?_) hs.headers hs.fits
  · have hlive : (live.map Allocation.block ++ binned slabSize lists 6).Perm
        (⟨x, slabSize bin⟩ ::
          (live.map Allocation.block ++ binned slabSize (Function.update lists bin xs) 6)) :=
      (hbins.append_left _).trans List.perm_middle
    exact (hlive.append_left loose).trans List.perm_middle
  · refine hs.slabs b hb y ?_
    by_cases heq : b = bin
    · subst heq
      rw [Function.update_self] at hy
      rw [hlist]
      exact List.mem_cons_of_mem _ hy
    · rwa [Function.update_of_ne heq] at hy
  · have hold := hs.links b hb
    dsimp only
    by_cases heq : b = bin
    · subst heq
      rw [Function.update_self, Function.update_self]
      rw [hlist] at hold
      exact hold.2
    · rw [Function.update_of_ne heq, Function.update_of_ne heq]
      exact hold

end

theorem push (hs : Sound p₀ h live lists (⟨node, slabSize bin⟩ :: loose)) (hbin : bin < 6)
    (haligned : node % slabSize bin = 0) (hhead : h.slabFreelists bin < 2 ^ 64) :
    Sound p₀ (h.pushNode bin node) live (Function.update lists bin (node :: lists bin)) loose := by
  have hsize := (slabSize_bounds hbin).1
  have hframe :
      Sound p₀ { h with mem := patch h.mem node (leBytes 8 (h.slabFreelists bin)) } live lists
      (⟨node, slabSize bin⟩ :: loose) := hs.frame fun a ha => by
    refine patch_outside _ ?_
    rw [leBytes_length]
    unfold Has at ha
    dsimp only at ha
    omega
  have hbins := @binned_push slabSize lists 6 bin node (lists bin) hbin
  rw [Function.update_eq_self] at hbins
  have hlink : loadLe (patch h.mem node (leBytes 8 (h.slabFreelists bin))) node 8 =
      h.slabFreelists bin := by
    rw [loadLe_patch_self]
    exact Nat.mod_eq_of_lt hhead
  refine hframe.regroup ?_ rfl (fun b hb y hy => ?_) (fun b hb => ?_) hframe.headers hframe.fits
  · have hlive :
        (⟨node, slabSize bin⟩ :: (live.map Allocation.block ++ binned slabSize lists 6)).Perm
        (live.map Allocation.block ++ binned slabSize
          (Function.update lists bin (node :: lists bin)) 6) :=
      List.perm_middle.symm.trans (hbins.symm.append_left _)
    exact List.perm_middle.symm.trans (hlive.append_left loose)
  · by_cases heq : b = bin
    · subst heq
      rw [Function.update_self] at hy
      rcases List.mem_cons.mp hy with rfl | hy
      · exact haligned
      · exact hs.slabs b hb y hy
    · rw [Function.update_of_ne heq] at hy
      exact hs.slabs b hb y hy
  · have hold := hframe.links b hb
    unfold pushNode
    dsimp only
    by_cases heq : b = bin
    · subst heq
      rw [Function.update_self, Function.update_self]
      refine ⟨rfl, ?_⟩
      dsimp only
      rw [hlink]
      exact hold
    · rw [Function.update_of_ne heq, Function.update_of_ne heq]
      exact hold

end Sound

end Heap

end LlamaOS.Memory
