import LlamaOS.Memory.HandedOut

/-!
# The ledger and the counters

With the ends of all boot ranges below the last page, the frames `init` re-reserves
are exactly frames the tracker calls reserved. From then on a marked frame the
tracker calls available is a live allocation, and the counters tell the truth.
-/

namespace LlamaOS.Memory
open Boot WordBitset WordBitset.Bitset MemoryRegionRecord Intervals PhysicalMemoryManager
  PhysicalAddress ReservedMemoryTracker

/-- What the parser and the linker script promise, and ends that can be rounded up. -/
structure BootArgs.WellFormed (args : BootArgs) : Prop where
  ends : args.EndsBelow lastPage
  kernel : args.kernelStart < args.kernelEnd
  lengths : ∀ e ∈ args.entries, 0 < e.length

variable {r : MemoryRegionRecord} {s e : Nat}

theorem roundedReserved_of_touches (hfit : EndFits r) (hlen : r.length ≠ 0) {f : Nat}
    (hs : r.start / 4096 ≤ s / 4096) (he : e ≤ alignUp (r.start + r.length) pageSize)
    (hefit : e + 4095 < 2 ^ 64) (h : Touches s e f) : RoundedReserved r (f * 4096) := by
  have hup := alignUp_page hfit
  have heup := alignUp_page hefit
  have hdown := alignDown_page r.start
  obtain ⟨_, hlo, hhi⟩ := h
  exact ⟨hlen, by omega, by omega⟩

variable {paddr : Nat}

section Boot
variable {args : BootArgs} (husable : maxUsableAddr args.entries ≠ 0) {bitmapPaddr f : Nat}
include husable

theorem reserved_of_touches (hr : r ∈ args.rawTable bitmapPaddr) (hres : r.isReserved = true)
    (hfit : EndFits r) (hlen : r.length ≠ 0) (hs : r.start / 4096 ≤ s / 4096)
    (he : e ≤ alignUp (r.start + r.length) pageSize) (hefit : e + 4095 < 2 ^ 64)
    (h : Touches s e f) : (args.finalTracker bitmapPaddr).isReserved (f * 4096) = true := by
  by_contra hav
  have hround := roundedReserved_of_touches hfit hlen hs he hefit h
  have hpage := available_page husable (by simpa using hav) (a := f * 4096) (by omega) (by omega)
  exact hpage.2 ((covers_resTemp (args.rawTable_length bitmapPaddr) _).mpr
    ⟨r, hr, (reservedPart_holds_iff hfit _).mpr ⟨hres, hround⟩⟩)

theorem reserved_of_touches_aligned {size : Nat} {name : String}
    (hr : alignedRecord paddr size name ∈ args.rawTable bitmapPaddr) (hsize : 0 < size)
    (hend : paddr + size ≤ lastPage) (hs : paddr / 4096 ≤ s / 4096)
    (he : e ≤ alignUp (paddr + size) pageSize) (h : Touches s e f) :
    (args.finalTracker bitmapPaddr).isReserved (f * 4096) = true := by
  obtain ⟨hfit, hstart, hle, hmod⟩ := alignedRecord_spec name hend
  simp only [lastPage] at hend
  have hup := alignUp_page (a := paddr + size) (by omega)
  have hrup := alignUp_page hfit
  refine reserved_of_touches husable hr rfl hfit ?_ ?_ ?_ ?_ h
  · omega
  · omega
  · omega
  · omega

theorem reserved_of_reReserved (hargs : args.WellFormed)
    (hbitmap : bitmapPaddr + args.bitmapSize ≤ lastPage) (h : ReReserved args bitmapPaddr f) :
    (args.finalTracker bitmapPaddr).isReserved (f * 4096) = true := by
  have hsize := args.bitmapSize_pos husable
  rcases h with h | h | ⟨⟨hnull, hpos⟩, h⟩ | h | ⟨e, he, hres, h⟩
  · refine reserved_of_touches husable (lowMemory_mem args bitmapPaddr) rfl ?_ ?_ ?_ ?_ ?_ h
    all_goals first | (unfold EndFits; decide) | decide
  · have hend := kernelRecord_end hargs.kernel hargs.ends.kernel
    have hkernel := hargs.ends.kernel
    simp only [lastPage] at hkernel
    have hup := alignUp_page (a := args.kernelEnd) (by omega)
    have hdown := alignDown_page args.kernelStart
    refine reserved_of_touches husable (kernelRecord_mem hargs.kernel) rfl ?_ ?_ ?_ ?_ ?_ h
    · unfold EndFits
      omega
    · have hlt := hargs.kernel
      have hstart : (kernelRecord args.kernelStart args.kernelEnd).start = args.kernelStart := rfl
      omega
    · simp only [kernelRecord]
      omega
    · rw [hend]
    · omega
  · have hmb2 := hargs.ends.multiboot
    have hadd : add64 args.mb2Paddr args.mb2Size = args.mb2Paddr + args.mb2Size :=
      add64_eq (by simp only [lastPage] at hmb2; omega)
    have hdown := alignDown_page args.mb2Paddr
    rw [hadd] at h
    exact reserved_of_touches_aligned husable (multibootRecord_mem hnull hpos) hpos hmb2 (by omega)
      (Nat.le_refl _) h
  · change Touches bitmapPaddr (add64 bitmapPaddr args.bitmapSize) f at h
    rw [add64_eq (by simp only [lastPage] at hbitmap; omega)] at h
    have hlt : bitmapPaddr + args.bitmapSize < 2 ^ 64 := by
      simp only [lastPage] at hbitmap
      omega
    exact reserved_of_touches_aligned husable bitmapRecord_mem hsize hbitmap (Nat.le_refl _)
      (le_alignUp _ (by decide) hlt) h
  · have hlen := hargs.lengths e he
    have hend := hargs.ends.entries e he
    simp only [lastPage] at hend
    have hadd : add64 e.baseAddr e.length = e.baseAddr + e.length := add64_eq (by omega)
    have hup := alignUp_page (a := e.baseAddr + e.length) (by omega)
    have hdown := alignDown_page e.baseAddr
    rw [hadd] at h
    refine reserved_of_touches husable (firmwareRecord_mem he (by omega))
      (firmwareRecord_reserved hres) ?_ ?_ ?_ ?_ ?_ h
    · simp only [EndFits, firmwareRecord]
      omega
    · simp only [firmwareRecord]
      omega
    · simp only [firmwareRecord]
      omega
    · exact Nat.le_refl _
    · omega

end Boot

/-- The live frames are the marked frames the tracker calls available. -/
structure Ledger.Exact (args : BootArgs) (l : Ledger) : Prop where
  pmm : Consistent args l.pmm
  live : ∀ f, f ∈ l.live ↔ f < l.pmm.bitmap.size ∧ l.pmm.bitmap.test f = true ∧
    (args.finalTracker l.pmm.bitmapPaddr).isReserved (f * 4096) = false
  count : l.pmm.allocatedFrames = l.live.card

variable {p : PhysicalMemoryManager}

namespace Ledger.Exact
variable {args : BootArgs} {l : Ledger}

theorem of_booted (hargs : args.WellFormed) (h : Booted args p) : Exact args (Ledger.start p) := by
  have hcons := Consistent.of_booted h
  have hcap := args.rawTable_length p.bitmapPaddr
  have htable := (args.finalTracker_eq h.usable p.bitmapPaddr).2
  have hspan : ∀ r ∈ (args.finalTracker p.bitmapPaddr).regions, PageSpan r := by
    rw [htable]
    exact normalizeRegions_pageSpan hcap
  refine ⟨hcons, ?_, h.allocatedFrames⟩
  intro f
  simp only [Ledger.start, Finset.notMem_empty, false_iff]
  rintro ⟨hf, hset, hav⟩
  have hf' : f < managedLimit args.bootInfo.mmapEntries / 4096 := by
    rw [hcons.size] at hf
    exact hf
  rw [h.bitmap, test_initialBitmap args _ hspan hf'] at hset
  rcases hset with hnone | hre
  · exact hnone ((isReserved_eq_false_iff hcap htable _).mp hav)
  · have hres := reserved_of_reReserved h.usable hargs (hcons.bitmap_below hargs.ends) hre
    rw [hav] at hres
    exact Bool.noConfusion hres

section

variable (h : Exact args l)
include h

theorem disjoint_of_clear (fs : Finset Nat) (hclear : ∀ f ∈ fs, l.pmm.bitmap.test f = false) :
    Disjoint l.live fs := by
  rw [Finset.disjoint_left]
  intro f hf hmem
  have hset := ((h.live f).mp hf).2.1
  rw [hclear f hmem] at hset
  exact Bool.noConfusion hset

theorem take {count : Nat} (htake : l.pmm.CanTake s count) : Exact args (l.take s count) := by
  have hin := htake.inside
  refine ⟨h.pmm.takeRun htake, ?_, ?_⟩
  · intro f
    simp only [Ledger.take, PhysicalMemoryManager.takeRun, setRange_size, Finset.mem_union,
      Finset.mem_Ico, h.live f, test_setRange _ _ _ _ hin, Bool.or_eq_true, decide_eq_true_eq]
    constructor
    · rintro (⟨hf, hset, hav⟩ | hrange)
      · exact ⟨hf, Or.inr hset, hav⟩
      · have hf : f < l.pmm.bitmap.size := by omega
        exact ⟨hf, Or.inl hrange, h.pmm.clear f hf (htake.clear f hrange.1 hrange.2)⟩
    · rintro ⟨hf, hrange | hset, hav⟩
      · exact Or.inr hrange
      · exact Or.inl ⟨hf, hset, hav⟩
  · have hdisj := h.disjoint_of_clear (Finset.Ico s (s + count)) (by
      intro f hf
      rw [Finset.mem_Ico] at hf
      exact htake.clear f hf.1 hf.2)
    simp only [Ledger.take, PhysicalMemoryManager.takeRun, h.count]
    rw [Finset.card_union_of_disjoint hdisj, Nat.card_Ico, Nat.add_sub_cancel_left]

theorem mem_live_of_canFree (hfree : l.pmm.CanFree paddr) :
    paddr / 4096 ∈ l.live :=
  (h.live _).mpr ⟨h.pmm.lt_of_canFree hfree, hfree.set, h.pmm.available_of_canFree hfree⟩

theorem release (hfree : l.pmm.CanFree paddr) : Exact args (l.release paddr) := by
  have hlt := h.pmm.lt_of_canFree hfree
  refine ⟨h.pmm.release hfree, ?_, ?_⟩
  · intro f
    simp only [Ledger.release, PhysicalMemoryManager.release, clearBit_size, Finset.mem_sdiff,
      Finset.mem_singleton, h.live f, test_clearBit _ _ _ hlt, Bool.and_eq_true, decide_eq_true_eq]
    constructor
    · rintro ⟨⟨hf, hset, hav⟩, hne⟩
      exact ⟨hf, ⟨hne, hset⟩, hav⟩
    · rintro ⟨hf, ⟨hne, hset⟩, hav⟩
      exact ⟨⟨hf, hset, hav⟩, hne⟩
  · simp only [Ledger.release, PhysicalMemoryManager.release, h.count]
    rw [Finset.sdiff_singleton_eq_erase, Finset.card_erase_of_mem (h.mem_live_of_canFree hfree)]

end

end Ledger.Exact

theorem exact_kept (args : BootArgs) : Ledger.Kept (Ledger.Exact args) where
  zero := fun _ h => h.pmm.zero
  take := fun _ _ _ h htake => h.take htake
  release := fun _ _ h hfree => h.release hfree
  force := fun _ fail h => ⟨h.pmm.setForceAllocFailure fail, h.live, h.count⟩

theorem exact_run {args : BootArgs} (hargs : args.WellFormed) {p₀ : PhysicalMemoryManager}
    (h : p₀.init args args.tracker = some (true, p)) (ops : List PmmOp) :
    Ledger.Exact args ((Ledger.start p).run ops) :=
  (exact_kept args).run (.of_booted hargs (init_booted h)) ops

/-- In every run from a boot whose ranges end below the last page, the counters agree with
the bitmap and the ledger, and nothing is handed out twice. -/
theorem ledger_balanced {args : BootArgs} (hargs : args.WellFormed) {p₀ p : PhysicalMemoryManager}
    (hinit : p₀.init args args.tracker = some (true, p)) (ops : List PmmOp) :
    let l := (Ledger.start p).run ops
    l.pmm.freeFrames = l.pmm.bitmap.clearCount ∧
    l.pmm.freeFrames + l.pmm.allocatedFrames = l.pmm.usableFrames ∧
    l.pmm.usableFrames + l.pmm.reservedFrames = l.pmm.totalFrames ∧
    l.pmm.allocatedFrames = l.live.card ∧
    ∀ op, Disjoint l.live (l.pmm.handedOut op) := by
  intro l
  have h : Ledger.Exact args l := exact_run hargs hinit ops
  refine ⟨h.pmm.free, h.pmm.balance, h.pmm.total, h.count, ?_⟩
  intro op
  exact h.disjoint_of_clear _ fun f hf => ((exact_kept args).handedOut_clear h hf).2

theorem sampleBoot_wellFormed : sampleBoot.WellFormed :=
  ⟨sampleBoot_endsBelow, by decide, by decide⟩

theorem sampleBoot_balanced :
    ((Ledger.start samplePmm).run
      [.allocPages 3, .freePage 0x104000, .freePage 0x104000]).live.card = 2 ∧
      ((Ledger.start samplePmm).run
        [.allocPages 3, .freePage 0x104000, .freePage 0x104000]).pmm.allocatedFrames
        = ((Ledger.start samplePmm).run
          [.allocPages 3, .freePage 0x104000, .freePage 0x104000]).live.card :=
  ⟨by decide +kernel, (ledger_balanced sampleBoot_wellFormed sampleBoot_init _).2.2.2.1⟩

/-- A reserved entry that ends in the last page of the address space: the tracker's rounding
wraps to zero and drops it, while `init` saturates and marks its frames. -/
def wrapBoot : BootArgs where
  bootInfo := { mmapEntries := [⟨0, 0x200000, 1, 0⟩, ⟨0x180000, 2 ^ 64 - 1 - 0x180000, 2, 0⟩] }
  kernelStart := 0x100000
  kernelEnd := 0x101000
  mb2Paddr := 0
  mb2Size := 0

@[irreducible] def wrapPmm : PhysicalMemoryManager :=
  ((gPmm.init wrapBoot wrapBoot.tracker).getD (false, gPmm)).2

/-- After one allocation, freeing a frame that was never handed out succeeds. -/
theorem wrapBoot_counts_wrong :
    (∀ e ∈ wrapBoot.entries, 0 < e.length ∧ e.baseAddr + e.length < 2 ^ 64) ∧
      gPmm.init wrapBoot wrapBoot.tracker = some (true, wrapPmm) ∧
      (((Ledger.start wrapPmm).run [.allocPage]).pmm.freePage 0x180000).1 = true ∧
      ((Ledger.start wrapPmm).run [.allocPage, .freePage 0x180000]).pmm.allocatedFrames = 0 ∧
      ((Ledger.start wrapPmm).run [.allocPage, .freePage 0x180000]).live = {258} := by
  decide +kernel

/-- `free_page` accepts exactly the live frames; a rejected call changes nothing. -/
theorem freePage_iff_live {args : BootArgs} (hargs : args.WellFormed) {p₀ p : PhysicalMemoryManager}
    (hinit : p₀.init args args.tracker = some (true, p)) (ops : List PmmOp) (paddr : Nat) :
    let l := (Ledger.start p).run ops
    ((l.pmm.freePage paddr).1 = true ↔ ∃ f ∈ l.live, paddr = f * 4096) ∧
      ((l.pmm.freePage paddr).1 = false → (l.pmm.freePage paddr).2 = l.pmm) := by
  intro l
  have h : Ledger.Exact args l := exact_run hargs hinit ops
  constructor
  · rw [freePage_fst]
    constructor
    · intro hfree
      have hal := hfree.aligned
      exact ⟨paddr / 4096, h.mem_live_of_canFree hfree, by omega⟩
    · rintro ⟨f, hf, rfl⟩
      obtain ⟨hlt, hset, hav⟩ := (h.live f).mp hf
      have hcard := Finset.card_pos.mpr ⟨f, hf⟩
      have hcount := h.count
      have hsize := h.pmm.size
      have hdiv : f * 4096 / 4096 = f := Nat.mul_div_cancel _ (by decide)
      refine ⟨h.pmm.initialized, by omega, ?_, ?_, ?_, by rwa [hdiv], by omega⟩
      · intro hz
        have hpage := available_page_outside h.pmm.usable hav (a := f * 4096) (by omega) (by omega)
          (lowMemory_mem args _) rfl (by unfold EndFits; decide)
        rw [hz] at hpage
        exact hpage ⟨by decide, by decide⟩
      · rw [h.pmm.limit]
        omega
      · rw [h.pmm.tracker, Option.any_some]
        exact hav
  · intro hfalse
    by_cases hfree : l.pmm.CanFree paddr
    · rw [freePage_of_canFree hfree] at hfalse
      exact Bool.noConfusion hfalse
    · rw [freePage_of_not_canFree hfree]

theorem sampleBoot_free_live :
    (((Ledger.start samplePmm).run [.allocPages 2]).pmm.freePage 0x104000).1 = true ↔
      ∃ f ∈ ((Ledger.start samplePmm).run [.allocPages 2]).live, 0x104000 = f * 4096 :=
  (freePage_iff_live sampleBoot_wellFormed sampleBoot_init [.allocPages 2] 0x104000).1

/-- An empty reserved entry inside RAM: `populate` skips it, `init` marks its page. -/
def emptyEntryBoot : BootArgs where
  bootInfo := { mmapEntries := [⟨0, 0x200000, 1, 0⟩, ⟨0x180800, 0, 2, 0⟩] }
  kernelStart := 0x100000
  kernelEnd := 0x101000
  mb2Paddr := 0
  mb2Size := 0

@[irreducible] def emptyEntryPmm : PhysicalMemoryManager :=
  ((gPmm.init emptyEntryBoot emptyEntryBoot.tracker).getD (false, gPmm)).2

/-- After one allocation, a frame that was never handed out can be freed. -/
theorem emptyEntryBoot_frees_unheld :
    (∀ e ∈ emptyEntryBoot.entries, e.baseAddr + e.length < 2 ^ 52) ∧
      gPmm.init emptyEntryBoot emptyEntryBoot.tracker = some (true, emptyEntryPmm) ∧
      (((Ledger.start emptyEntryPmm).run [.allocPage]).pmm.freePage 0x180000).1 = true ∧
      ¬ ∃ f ∈ ((Ledger.start emptyEntryPmm).run [.allocPage]).live, 0x180000 = f * 4096 := by
  decide +kernel

end LlamaOS.Memory
