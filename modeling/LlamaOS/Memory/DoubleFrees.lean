import LlamaOS.Memory.HeapRuns

/-!
# Freeing a block twice

`kfree` clears the mark of a header, and a link may then lie in its place. Links are multiples of 64
and the mark is odd, so a freed block does not look like a live one until it is handed out again.
-/

namespace LlamaOS.Memory
open ByteBuffer WordBitset WordBitset.Bitset LinkedStack Regions Regions.Region

namespace Heap

variable {p₀ : PhysicalMemoryManager} {h : Heap} {live freed : List Allocation}
  {lists : Nat → List Nat}
variable {a b : Allocation}

/-- The frame in which the header lies. -/
def frameOf (a : Allocation) : Nat := (a.header - kernelVirtualBase) / 4096

/-- The step does not hand out the block again, nor the page that its header lies in. -/
structure Spares (h : Heap) (new : Nat × Heap) (a : Allocation) : Prop where
  block : new.1 ≠ a.ptr
  pages : h.pmm.bitmap.test (frameOf a) = false → new.2.pmm.bitmap.test (frameOf a) = false

/-- A heap with its live blocks, and blocks that were freed and have not been handed out since. -/
inductive History (p₀ : PhysicalMemoryManager) : Heap → List Allocation → List Allocation → Prop
  | start (h : Heap) (hpmm : h.pmm = p₀) (hempty : ∀ bin, h.slabFreelists bin = 0) :
      History p₀ h [] []
  | kmalloc {h : Heap} {live freed freed' : List Allocation} {size : Nat}
      (run : History p₀ h live freed)
      (hsize : size < 2 ^ 64) (hdirect : h.TakesDirect (h.kmalloc size).2)
      (hspares : ∀ a ∈ freed', a ∈ freed ∧ h.Spares (h.kmalloc size) a) :
      History p₀ (h.kmalloc size).2 (admitted live (h.kmalloc size).1 (granted size)) freed'
  | kfree {h : Heap} {live freed : List Allocation} {a : Allocation} (run : History p₀ h live freed)
      (ha : a ∈ live) : History p₀ (h.kfree a.ptr) (live.erase a) (a :: freed)
  | kfreeAgain {h : Heap} {live freed : List Allocation} {a : Allocation}
      (run : History p₀ h live freed) (ha : a ∈ freed) : History p₀ (h.kfree a.ptr) live freed
  | write {h : Heap} {live freed : List Allocation} {a : Allocation} {mem : Buffer}
      (run : History p₀ h live freed)
      (ha : a ∈ live) (hwrites : h.Writes a mem) : History p₀ { h with mem } live freed

structure Spent (h : Heap) (live : List Allocation) (lists : Nat → List Nat) (a : Allocation) :
    Prop where
  low : 16 ≤ a.ptr
  upper : a.ptr < 2 ^ 64
  aligned : a.header % 64 = 0
  unmarked : h.mem a.header ≠ markByte
  starts : ∀ r ∈ blocks [] live lists, r.Has a.header → r.start = a.header
  idle : ∀ b ∈ live, ¬ b.block.Has a.header

section

variable (hspent : Spent h live lists a)
include hspent

theorem Spent.kfree_eq : h.kfree a.ptr = h := by
  have hlow := hspent.low
  have haligned := hspent.aligned
  have hpage : VirtualAddress.isPageAligned a.ptr = false := by
    rw [Bool.eq_false_iff]
    intro htrue
    have hzero := (PhysicalAddress.isPageAligned_iff a.ptr).mp htrue
    unfold Allocation.header at haligned
    omega
  unfold Heap.kfree
  rw [if_neg (by omega), sub64_eq (show headerBytes ≤ a.ptr from hlow) hspent.upper]
  change (if loadLe h.mem a.header 4 ≠ allocMagic then _ else _ : Heap) = h
  rw [if_pos fun hmagic => hspent.unmarked (markByte_of_magic hmagic), hpage]
  rfl

theorem Spent.kmalloc {size : Nat} {lists' : Nat → List Nat} (hspares : h.Spares (h.kmalloc size) a)
    (hs' : Sound p₀ (h.kmalloc size).2 (admitted live (h.kmalloc size).1 (granted size)) lists' [])
    (hfrom : ∀ r ∈ blocks [] (admitted live (h.kmalloc size).1 (granted size)) lists',
      r ∈ blocks [] live lists ∨
        ∀ x, r.Has x → h.pmm.bitmap.test ((x - kernelVirtualBase) / 4096) = false)
    (hmarks : ∀ x, x % 64 = 0 → (h.kmalloc size).1 ≠ x + 16 → (h.kmalloc size).2.mem x = markByte →
      h.mem x = markByte) :
    Spent (h.kmalloc size).2 (admitted live (h.kmalloc size).1 (granted size)) lists' a := by
  have hlow := hspent.low
  have hstarts : ∀ r ∈ blocks [] (admitted live (h.kmalloc size).1 (granted size)) lists',
      r.Has a.header → r.start = a.header := by
    intro r hr hhas
    rcases hfrom r hr with hold | hnew
    · exact hspent.starts r hold hhas
    · have htaken := (hs'.owned r hr _ hhas).taken
      exact absurd ((hspares.pages (hnew _ hhas)).symm.trans htaken) Bool.false_ne_true
  refine ⟨hlow, hspent.upper, hspent.aligned, fun hmark => ?_, hstarts, fun b hb hhas => ?_⟩
  · refine hspent.unmarked (hmarks _ hspent.aligned (fun heq => hspares.block ?_) hmark)
    rw [heq]
    exact Nat.sub_add_cancel hlow
  · have hfits := (hs'.fits b hb).1
    have hstart : b.ptr - 16 = a.ptr - 16 :=
      hstarts _ (mem_blocks.mpr (.inr (.inl ⟨b, hb, rfl⟩))) hhas
    unfold admitted at hb
    split at hb
    · exact hspent.idle b hb hhas
    · rcases List.mem_cons.mp hb with rfl | hb
      · exact hspares.block (by dsimp only at hfits hstart; omega)
      · exact hspent.idle b hb hhas

theorem Spent.kfree (hb : b ∈ live) {lists' : Nat → List Nat}
    (hfrom : ∀ r ∈ blocks [] (live.erase b) lists', r ∈ blocks [b.block] (live.erase b) lists)
    (hmarks : ∀ x, x % 64 = 0 → (h.kfree b.ptr).mem x = markByte → h.mem x = markByte ∧
      x ≠ b.header) : Spent (h.kfree b.ptr) (live.erase b) lists' a := by
  refine ⟨hspent.low, hspent.upper, hspent.aligned, fun hmark => ?_, fun r hr hhas => ?_,
    fun c hc => ?_⟩
  · exact hspent.unmarked (hmarks _ hspent.aligned hmark).1
  · rcases List.mem_cons.mp (hfrom r hr) with rfl | hold
    · exact absurd hhas (hspent.idle b hb)
    · change r ∈ List.map Allocation.block (live.erase b) ++ binned slabSize lists 6 at hold
      refine hspent.starts r (List.mem_append_right [] (List.mem_append.mpr ?_)) hhas
      exact (List.mem_append.mp hold).imp_left fun hc =>
        List.map_subset Allocation.block List.erase_subset hc
  · exact hspent.idle c (List.mem_of_mem_erase hc)

omit hspent in
theorem Sound.spent (hs : Sound p₀ h live lists []) (ha : a ∈ live) {lists' : Nat → List Nat}
    (hfrom : ∀ r ∈ blocks [] (live.erase a) lists', r ∈ blocks [a.block] (live.erase a) lists)
    (hmarks : ∀ x, x % 64 = 0 → (h.kfree a.ptr).mem x = markByte → h.mem x = markByte ∧
      x ≠ a.header) : Spent (h.kfree a.ptr) (live.erase a) lists' a := by
  have hlength := blockLength_ge a.size
  have hself : a.block.Has a.header :=
    ⟨Nat.le_refl _, by change a.header < a.header + blockLength a.size; omega⟩
  have hapart : ∀ r ∈ blocks [] (live.erase a) lists, a.block.Apart r :=
    (allApart_cons.mp (hs.loosen ha).apart).1
  refine ⟨(hs.fits a ha).1, hs.ptr_lt ha, hs.header_aligned ha, fun hmark => ?_,
    fun r hr hhas => ?_, fun b hb => ?_⟩
  · exact (hmarks _ (hs.header_aligned ha) hmark).2 rfl
  · rcases List.mem_cons.mp (hfrom r hr) with rfl | hrest
    · rfl
    · exact absurd hhas ((hapart r hrest).not_has hself)
  · exact (hapart _ (mem_blocks.mpr (.inr (.inl ⟨b, hb, rfl⟩)))).not_has hself

theorem Spent.write {mem : Buffer} (hs : Sound p₀ h live lists []) (hb : b ∈ live)
    (hwrites : h.Writes b mem) : Spent { h with mem } live lists a := by
  refine { hspent with unmarked := ?_ }
  dsimp only
  rw [hwrites.outside]
  · exact hspent.unmarked
  · rintro ⟨hlo, hhi⟩
    obtain ⟨hlow, hroom⟩ := hs.fits b hb
    refine hspent.idle b hb ⟨?_, ?_⟩
    · exact Nat.le_trans (Nat.sub_le _ _) hlo
    · change a.header < b.ptr - 16 + blockLength b.size
      omega

end

theorem History.sound (run : History p₀ h live freed) :
    ∃ lists, Sound p₀ h live lists [] ∧ ∀ a ∈ freed, Spent h live lists a := by
  induction run with
  | start h hpmm hempty =>
    obtain ⟨lists, hs⟩ := (Run.start h hpmm hempty).sound
    exact ⟨lists, hs, fun a ha => absurd ha List.not_mem_nil⟩
  | kmalloc run hsize hdirect hspares ih =>
    obtain ⟨lists, hs, hspent⟩ := ih
    obtain ⟨lists', hs', hfrom, hmarks⟩ := hs.kmalloc hsize hdirect
    exact ⟨lists', hs', fun a ha => (hspent a (hspares a ha).1).kmalloc
      (hspares a ha).2 hs' hfrom hmarks⟩
  | kfree run ha ih =>
    obtain ⟨lists, hs, hspent⟩ := ih
    obtain ⟨lists', hs', hfrom, hmarks⟩ := hs.kfree ha
    exact ⟨lists', hs', List.forall_mem_cons.mpr
      ⟨hs.spent ha hfrom hmarks, fun b hb => (hspent b hb).kfree ha hfrom hmarks⟩⟩
  | kfreeAgain run ha ih =>
    obtain ⟨lists, hs, hspent⟩ := ih
    rw [(hspent _ ha).kfree_eq]
    exact ⟨lists, hs, hspent⟩
  | write run ha hwrites ih =>
    obtain ⟨lists, hs, hspent⟩ := ih
    exact ⟨lists, hs.write ha hwrites, fun b hb => (hspent b hb).write hs ha hwrites⟩

/-- Freeing a freed block again changes nothing, until the block or its page is handed out again. -/
theorem History.kfree_again (run : History p₀ h live freed) (ha : a ∈ freed) :
    h.kfree a.ptr = h := by
  obtain ⟨lists, _, hspent⟩ := run.sound
  exact (hspent a ha).kfree_eq

theorem sampleHeap_freed_twice :
    ∃ h live freed, History samplePmm h live freed ∧ ∃ a ∈ freed, h.kfree a.ptr = h := by
  have hmalloc : History samplePmm (sampleHeap.kmalloc 100).2 _ [] :=
    .kmalloc (.start sampleHeap rfl fun _ => rfl) (show 100 < 2 ^ 64 by decide)
      (takesDirect_of_length (by decide +kernel)) fun a ha => absurd ha List.not_mem_nil
  have hfree := @History.kfree _ _ _ _ ⟨(sampleHeap.kmalloc 100).1, 100⟩ hmalloc (by decide +kernel)
  exact ⟨_, _, _, hfree, _, List.mem_cons_self, History.kfree_again hfree List.mem_cons_self⟩

end Heap

end LlamaOS.Memory
