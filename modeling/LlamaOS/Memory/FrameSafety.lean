import LlamaOS.Memory.PmmRuns

/-!
# Free frames and the tracker

What the tracker's verdict on a page means in terms of the raw table, and the
invariant that ties counters, bitmap and verdict together. Both hold for every
firmware map, whatever its addresses.
-/

namespace LlamaOS.Memory
open Boot WordBitset WordBitset.Bitset MemoryRegionRecord Intervals PhysicalMemoryManager

theorem layoutRecords_reserved (args : BootArgs) :
    ∀ r ∈ args.layoutRecords, r.isReserved = true := by
  intro r hr
  simp only [BootArgs.layoutRecords, List.mem_append, List.mem_singleton] at hr
  rcases hr with (rfl | hr) | hr
  · rfl
  · split at hr
    · obtain rfl := List.mem_singleton.mp hr
      rfl
    · simp at hr
  split at hr
  · obtain rfl := List.mem_singleton.mp hr
    rfl
  · simp at hr

variable {r : MemoryRegionRecord}

theorem BootArgs.mem_rawTable_available (args : BootArgs) {bitmapPaddr : Nat}
    (hr : r ∈ args.rawTable bitmapPaddr) (hav : r.isAvailable = true) :
    ∃ e ∈ args.entries, ReservedMemoryTracker.firmwareRecord e = r := by
  simp only [BootArgs.rawTable, List.mem_append, List.mem_singleton] at hr
  rcases hr with (hr | hr) | rfl
  · have hres := layoutRecords_reserved args r hr
    simp [isReserved, hav] at hres
  · obtain ⟨e, he, rfl⟩ := List.mem_map.mp hr
    exact ⟨e, List.mem_of_mem_filter he, rfl⟩
  · simp [isAvailable, BootArgs.bitmapRecord, ReservedMemoryTracker.alignedRecord] at hav

section Verdict
variable {args : BootArgs} (husable : maxUsableAddr args.entries ≠ 0) {bitmapPaddr f : Nat}
variable (hav : (args.finalTracker bitmapPaddr).isReserved (f * 4096) = false)
include husable hav

variable {a : Nat}

theorem available_page (hlo : f * 4096 ≤ a) (hhi : a < f * 4096 + 4096) :
    Covers (availTemp (args.rawTable bitmapPaddr)) a ∧
      ¬ Covers (resTemp (args.rawTable bitmapPaddr)) a := by
  have hcap := args.rawTable_length bitmapPaddr
  have htable := (args.finalTracker_eq husable bitmapPaddr).2
  obtain ⟨r, hr, hravail, hcontains⟩ := (isReserved_eq_false_iff hcap htable _).mp hav
  rw [htable] at hr
  obtain ⟨hstart, hend⟩ := (contains_iff_holds r _).mp hcontains
  change r.start ≤ f * 4096 at hstart
  change f * 4096 < r.endAddr at hend
  have hal := (normalizeRegions_pageSpan hcap r hr).endAligned
  exact available_sound hcap hr hravail ⟨Nat.le_trans hstart hlo, by change a < r.endAddr; omega⟩

theorem available_page_lt : f * 4096 + 4096 < 2 ^ 64 := by
  have hcap := args.rawTable_length bitmapPaddr
  have hpage := available_page husable hav (a := f * 4096) (by omega) (by omega)
  obtain ⟨r, _, o, hpart, hold⟩ := (covers_availTemp hcap _).mp hpage.1
  obtain ⟨hspan, _, _, _, _, hlt⟩ := availablePart_spec hpart
  have hal := hspan.endAligned
  have hin : f * 4096 < o.endAddr := hold.2
  have hle : f * 4096 + 4096 ≤ o.endAddr := by omega
  exact Nat.lt_of_le_of_lt hle hlt

theorem available_page_outside (hlo : f * 4096 ≤ a) (hhi : a < f * 4096 + 4096)
    (hr : r ∈ args.rawTable bitmapPaddr) (hres : r.isReserved = true) (hfit : EndFits r) :
    ¬ (r.start ≤ a ∧ a < r.start + r.length) := by
  rintro ⟨hra, har⟩
  have hround := roundedReserved_of_byte hfit hra har
  apply (available_page husable hav hlo hhi).2
  exact (covers_resTemp (args.rawTable_length bitmapPaddr) a).mpr
    ⟨r, hr, (reservedPart_holds_iff hfit a).mpr ⟨hres, hround⟩⟩

theorem available_page_inside (hlo : f * 4096 ≤ a) (hhi : a < f * 4096 + 4096) :
    ∃ e ∈ args.entries, e.IsAvailable ∧ e.Contains a := by
  obtain ⟨r, hr, o, hpart, hold⟩ :=
    (covers_availTemp (args.rawTable_length bitmapPaddr) a).mp
      (available_page husable hav hlo hhi).1
  obtain ⟨_, _, hravail, hstart, hend, _⟩ := availablePart_spec hpart
  have hin : o.start ≤ a ∧ a < o.endAddr := hold
  obtain ⟨e, he, rfl⟩ := args.mem_rawTable_available hr hravail
  refine ⟨e, he, of_decide_eq_true hravail, ?_⟩
  change e.baseAddr ≤ o.start at hstart
  change o.endAddr ≤ e.baseAddr + e.length at hend
  exact ⟨by omega, by omega⟩

end Verdict

/-- The manager against its bitmap and the tracker. -/
structure Consistent (args : BootArgs) (p : PhysicalMemoryManager) : Prop where
  usable : maxUsableAddr args.entries ≠ 0
  placement : findPlacement args.tracker args.mb2Paddr args.mb2Size args.bitmapSize
    (PhysicalAddress.alignUp args.kernelEnd pageSize) args.entries = some (some p.bitmapPaddr)
  initialized : p.initialized = true
  tracker : p.tracker = some (args.finalTracker p.bitmapPaddr)
  limit : p.maxManagedPaddr = args.limit
  bitmapBytes : p.bitmapSizeBytes = args.bitmapSize
  size : p.bitmap.size = args.limit / 4096
  clear : ∀ f, f < p.bitmap.size → p.bitmap.test f = false →
    (args.finalTracker p.bitmapPaddr).isReserved (f * 4096) = false
  free : p.freeFrames = p.bitmap.clearCount
  balance : p.freeFrames + p.allocatedFrames = p.usableFrames
  total : p.usableFrames + p.reservedFrames = p.bitmap.size

theorem lowMemory_mem (args : BootArgs) (bitmapPaddr : Nat) :
    ReservedMemoryTracker.lowMemoryRecord ∈ args.rawTable bitmapPaddr := by
  simp [BootArgs.rawTable, BootArgs.layoutRecords]

namespace Consistent
variable {args : BootArgs} {p : PhysicalMemoryManager}

theorem of_booted (h : Booted args p) : Consistent args p := by
  have hcap := args.rawTable_length p.bitmapPaddr
  have htable := (args.finalTracker_eq h.usable p.bitmapPaddr).2
  have hsize : p.bitmap.size = args.limit / 4096 := by
    rw [h.bitmap]
    exact initialBitmap_size _ _ _
  have hcount : p.bitmap.clearCount ≤ p.bitmap.size := by
    unfold clearCount
    exact Nat.le_trans List.countP_le_length (Nat.le_of_eq List.length_range)
  refine ⟨h.usable, h.placement, h.initialized, h.tracker, h.limit, h.bitmapBytes, hsize, ?_,
    h.free, ?_, ?_⟩
  · intro f hf hclear
    by_contra hres
    have hnone := mt (isReserved_eq_false_iff hcap htable (f * 4096)).mpr hres
    have hspan : ∀ r ∈ (args.finalTracker p.bitmapPaddr).regions, PageSpan r := by
      rw [htable]
      exact normalizeRegions_pageSpan hcap
    have hset := (test_initialBitmap args p.bitmapPaddr hspan (by rw [hsize] at hf; exact hf)).mpr
      (Or.inl hnone)
    rw [← h.bitmap, hclear] at hset
    exact Bool.noConfusion hset
  · rw [h.free, h.allocatedFrames, h.usableFrames, Nat.add_zero]
  · rw [h.usableFrames, h.reservedFrames]
    omega

theorem zero (h : Consistent args p) (hpos : 0 < p.bitmap.size) : p.bitmap.test 0 = true := by
  by_contra hclear
  have hav := h.clear 0 hpos (by simpa using hclear)
  refine available_page_outside h.usable hav (a := 0) (by omega) (by omega)
    (lowMemory_mem args _) rfl ?_ ⟨Nat.le_refl _, ?_⟩
  · unfold EndFits
    decide
  · decide

theorem takeRun (h : Consistent args p) {s count : Nat} (htake : p.CanTake s count) :
    Consistent args (p.takeRun s count).2 := by
  have hcount := clearCount_setRange p.bitmap s count htake.inside htake.clear
  have hfree := h.free
  have hbal := h.balance
  refine { h with size := ?_, clear := ?_, free := ?_, balance := ?_, total := ?_ }
  · simpa [PhysicalMemoryManager.takeRun] using h.size
  · intro f hf hclear
    simp only [PhysicalMemoryManager.takeRun, setRange_size] at hf hclear
    rw [test_setRange _ _ _ _ htake.inside, Bool.or_eq_false_iff] at hclear
    exact h.clear f hf hclear.2
  · simp only [PhysicalMemoryManager.takeRun]
    omega
  · simp only [PhysicalMemoryManager.takeRun]
    omega
  · simpa [PhysicalMemoryManager.takeRun] using h.total

variable {paddr : Nat}

section

variable (h : Consistent args p)
include h

theorem available_of_canFree (hfree : p.CanFree paddr) :
    (args.finalTracker p.bitmapPaddr).isReserved (paddr / 4096 * 4096) = false := by
  have hav := hfree.available
  have hal := hfree.aligned
  rw [h.tracker, Option.any_some] at hav
  rwa [show paddr / 4096 * 4096 = paddr by omega]

theorem lt_of_available {f : Nat} (hlt : f * 4096 < p.maxManagedPaddr)
    (hav : (args.finalTracker p.bitmapPaddr).isReserved (f * 4096) = false) :
    f < p.bitmap.size := by
  have hpage := available_page_lt h.usable hav
  have hcases :=
    PhysicalAddress.alignUp_cases (maxUsableAddr args.entries) (2 * 1024 * 1024) (by decide)
  change args.limit % _ = 0 ∧ _ ∨ args.limit = _ ∧ _ at hcases
  rw [h.limit] at hlt
  rw [h.size]
  rcases hcases with ⟨hmod, _⟩ | ⟨hmax, _⟩
  · omega
  · rw [hmax]
    simp only [uint64Max]
    omega

theorem lt_of_canFree (hfree : p.CanFree paddr) : paddr / 4096 < p.bitmap.size := by
  have hlt := hfree.below
  exact h.lt_of_available (by omega) (h.available_of_canFree hfree)

theorem release (hfree : p.CanFree paddr) : Consistent args (p.release (paddr / 4096)) := by
  have hlt := h.lt_of_canFree hfree
  have hcount := clearCount_clearBit p.bitmap _ hlt hfree.set
  have hbal := h.balance
  have hne := hfree.counted
  refine { h with clear := ?_, free := ?_, balance := ?_ }
  · intro f hf hclear
    simp only [PhysicalMemoryManager.release, clearBit_size] at hf hclear
    rw [test_clearBit _ _ _ hlt, Bool.and_eq_false_iff, decide_eq_false_iff_not, not_not] at hclear
    rcases hclear with rfl | hclear
    · exact h.available_of_canFree hfree
    · exact h.clear f hf hclear
  · simp only [PhysicalMemoryManager.release, hcount, h.free]
  · simp only [PhysicalMemoryManager.release]
    omega

theorem setForceAllocFailure (fail : Bool) : Consistent args (p.setForceAllocFailure fail) :=
  { h with }

end

end Consistent

theorem consistent_kept (args : BootArgs) : Ledger.Kept fun l => Consistent args l.pmm where
  zero := fun _ h => h.zero
  take := fun _ _ _ h htake => h.takeRun htake
  release := fun _ _ h hfree => h.release hfree
  force := fun _ fail h => h.setForceAllocFailure fail

variable {args : BootArgs} {p : PhysicalMemoryManager}

theorem consistent_run {p₀ : PhysicalMemoryManager} (h : p₀.init args args.tracker = some (true, p))
    (ops : List PmmOp) :
    Consistent args (p.run ops) := by
  have hrun := (consistent_kept args).run (l := Ledger.start p) (.of_booted (init_booted h)) ops
  rwa [Ledger.run_pmm] at hrun

/-- A state of the allocator in some run from a successful boot. -/
def Running (args : BootArgs) (p : PhysicalMemoryManager) : Prop :=
  ∃ (p₀ p₁ : PhysicalMemoryManager) (ops : List PmmOp),
    p₀.init args args.tracker = some (true, p₁) ∧ p = p₁.run ops

theorem Running.consistent (h : Running args p) : Consistent args p := by
  obtain ⟨p₀, p₁, ops, hinit, rfl⟩ := h
  exact consistent_run hinit ops

end LlamaOS.Memory
