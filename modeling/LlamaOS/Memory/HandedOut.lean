import LlamaOS.Memory.FrameSafety

/-!
# Frames that are handed out

Where the ends of all boot ranges can be rounded up to a page, the raw table covers
the kernel's own ranges as well, and a frame is handed out only from RAM that
nothing else uses.
-/

namespace LlamaOS.Memory
open Boot WordBitset WordBitset.Bitset MemoryRegionRecord PhysicalMemoryManager PhysicalAddress

variable {tracker : ReservedMemoryTracker} {mb2Paddr mb2Size size paddr : Nat}

theorem placementLoop_spec {entryEnd : Nat} (left : Nat) {cur : Nat}
    (h : placementLoop tracker mb2Paddr mb2Size size entryEnd left cur = some (some paddr)) :
    add64 paddr size ≤ entryEnd ∧ tracker.overlapsReserved paddr size = false := by
  induction left generalizing cur with
  | zero => simp [placementLoop] at h
  | succ left ih =>
    simp only [placementLoop] at h
    split at h
    · rename_i hle
      split at h
      · rename_i hok
        obtain rfl := Option.some.inj (Option.some.inj h)
        simp only [Bool.and_eq_true, Bool.not_eq_true'] at hok
        exact ⟨hle, hok.2⟩
      · exact ih h
    · simp at h

/-- The place that is found comes from the search in one available entry. -/
theorem findPlacement_entry {searchStart : Nat} (entries : List MemoryMapEntry)
    (h : findPlacement tracker mb2Paddr mb2Size size searchStart entries = some (some paddr)) :
    ∃ e ∈ entries, e.IsAvailable ∧
      placementLoop tracker mb2Paddr mb2Size size (add64 e.baseAddr e.length) (2 ^ 52)
        (if e.baseAddr > searchStart then alignUp e.baseAddr pageSize else searchStart) =
          some (some paddr) := by
  induction entries with
  | nil => simp [findPlacement] at h
  | cons e entries ih =>
    have hlater := fun h => (ih h).imp fun e' he' => And.intro (List.mem_cons_of_mem e he'.1) he'.2
    simp only [findPlacement] at h
    split at h
    · exact hlater h
    rename_i hav
    split at h
    · simp at h
    · rename_i found hloop
      obtain rfl := Option.some.inj (Option.some.inj h)
      exact ⟨e, List.mem_cons_self, not_not.mp hav, hloop⟩
    · exact hlater h

/-- All ends of the boot arguments lie at or below `bound`. -/
structure BootArgs.EndsBelow (args : BootArgs) (bound : Nat) : Prop where
  entries : ∀ e ∈ args.entries, e.baseAddr + e.length ≤ bound
  kernel : args.kernelEnd ≤ bound
  multiboot : args.mb2Paddr + args.mb2Size ≤ bound

/-- Below this bound an end can be rounded up to a page without leaving 64 bits. -/
abbrev lastPage : Nat := 2 ^ 64 - 4096

variable {args : BootArgs}

theorem Consistent.bitmap_below {p : PhysicalMemoryManager} (h : Consistent args p)
    (hends : args.EndsBelow lastPage) : p.bitmapPaddr + args.bitmapSize ≤ lastPage := by
  obtain ⟨e, he, _, hloop⟩ := findPlacement_entry _ h.placement
  obtain ⟨hle, hfree⟩ := placementLoop_spec _ hloop
  have hend := hends.entries e he
  have hsize := args.bitmapSize_pos h.usable
  have hno : ¬ p.bitmapPaddr > uint64Max - args.bitmapSize := by
    intro hgt
    unfold ReservedMemoryTracker.overlapsReserved at hfree
    rw [if_neg (by omega), if_pos hgt] at hfree
    exact Bool.noConfusion hfree
  have hmask : args.bitmapSize ≤ 2 ^ 64 - 8 := Nat.and_le_right
  have hsum : p.bitmapPaddr + args.bitmapSize < 2 ^ 64 := by
    simp only [uint64Max] at hno
    omega
  rw [add64_eq hsum] at hle
  exact Nat.le_trans hle (Nat.le_trans (Nat.mod_le _ _) hend)

theorem alignedRecord_spec (name : String) (h : paddr + size ≤ lastPage) :
    EndFits (ReservedMemoryTracker.alignedRecord paddr size name) ∧
      (ReservedMemoryTracker.alignedRecord paddr size name).start = paddr - paddr % 4096 ∧
      paddr + size ≤ (ReservedMemoryTracker.alignedRecord paddr size name).start +
        (ReservedMemoryTracker.alignedRecord paddr size name).length ∧
      ((ReservedMemoryTracker.alignedRecord paddr size name).start +
        (ReservedMemoryTracker.alignedRecord paddr size name).length) % 4096 = 0 := by
  simp only [lastPage] at h
  have hadd : add64 paddr size = paddr + size := add64_eq (by omega)
  have hround := roundUpMask_spec (x := paddr + size) (by omega)
  have hdown := alignDown_page paddr
  have hsub :=
    sub64_eq (a := roundUpMask (paddr + size)) (b := alignDown paddr pageSize) (by omega) (by omega)
  simp only [EndFits, ReservedMemoryTracker.alignedRecord, hadd, hsub]
  omega

theorem kernelRecord_end {kernelStart kernelEnd : Nat} (hlt : kernelStart < kernelEnd)
    (h : kernelEnd ≤ lastPage) :
    (ReservedMemoryTracker.kernelRecord kernelStart kernelEnd).start +
      (ReservedMemoryTracker.kernelRecord kernelStart kernelEnd).length = kernelEnd := by
  simp only [lastPage] at h
  simp only [ReservedMemoryTracker.kernelRecord, sub64_eq (Nat.le_of_lt hlt) (by omega)]
  omega

variable {e : MemoryMapEntry}

section Members
variable {args : BootArgs} {bitmapPaddr : Nat}

theorem kernelRecord_mem (h : args.kernelStart < args.kernelEnd) :
    ReservedMemoryTracker.kernelRecord args.kernelStart args.kernelEnd ∈
      args.rawTable bitmapPaddr := by
  simp [BootArgs.rawTable, BootArgs.layoutRecords, h]

theorem multibootRecord_mem (hnull : args.mb2Paddr ≠ 0) (hsize : 0 < args.mb2Size) :
    ReservedMemoryTracker.alignedRecord args.mb2Paddr args.mb2Size "Multiboot2 Information Block" ∈
      args.rawTable bitmapPaddr := by
  simp [BootArgs.rawTable, BootArgs.layoutRecords, isNull, hnull, hsize]

theorem bitmapRecord_mem : args.bitmapRecord bitmapPaddr ∈ args.rawTable bitmapPaddr := by
  simp [BootArgs.rawTable]

theorem firmwareRecord_mem (he : e ∈ args.entries) (hlen : e.length ≠ 0) :
    ReservedMemoryTracker.firmwareRecord e ∈ args.rawTable bitmapPaddr := by
  have hmem : ReservedMemoryTracker.firmwareRecord e ∈ args.firmwareRecords :=
    List.mem_map_of_mem (List.mem_filter.mpr ⟨he, by simpa using hlen⟩)
  simp [BootArgs.rawTable, hmem]

theorem firmwareRecord_reserved (h : ¬ e.IsAvailable) :
    (ReservedMemoryTracker.firmwareRecord e).isReserved = true := by
  simp only [isReserved, Bool.not_eq_true']
  exact decide_eq_false h

end Members

/-- A page the tracker calls available avoids every non-available entry whose end can be
rounded up. -/
theorem available_page_entry (husable : maxUsableAddr args.entries ≠ 0) {bitmapPaddr f a : Nat}
    (hav : (args.finalTracker bitmapPaddr).isReserved (f * 4096) = false) (hlo : f * 4096 ≤ a)
    (hhi : a < f * 4096 + 4096) (he : e ∈ args.entries) (hres : ¬ e.IsAvailable)
    (hend : e.baseAddr + e.length ≤ lastPage) : ¬ e.Contains a := by
  intro hin
  have hlen : e.length ≠ 0 := by
    intro hz
    have := hin.1
    have := hin.2
    omega
  refine available_page_outside husable hav hlo hhi (firmwareRecord_mem he hlen)
    (firmwareRecord_reserved hres) ?_ hin
  simp only [lastPage] at hend
  simp only [EndFits, ReservedMemoryTracker.firmwareRecord]
  omega

/-- Two MiB of RAM reported out of order, with a hole and a reserved last page. -/
def sampleBoot : BootArgs where
  bootInfo :=
    { mmapEntries := [⟨0x1FF000, 0x1000, 2, 0⟩, ⟨0x100000, 0x100000, 1, 0⟩, ⟨0, 0x9FC00, 1, 0⟩] }
  kernelStart := 0x100000
  kernelEnd := 0x101000
  mb2Paddr := 0x101008
  mb2Size := 0x200

@[irreducible] def samplePmm : PhysicalMemoryManager :=
  ((gPmm.init sampleBoot sampleBoot.tracker).getD (false, gPmm)).2

theorem sampleBoot_init : gPmm.init sampleBoot sampleBoot.tracker = some (true, samplePmm) := by
  decide +kernel

theorem sampleBoot_endsBelow : sampleBoot.EndsBelow lastPage := ⟨by decide, by decide, by decide⟩

/-- Every byte of a frame ever handed out is firmware-available RAM outside all reservations.
A Multiboot2 block at address zero counts as absent. -/
theorem handedOut_frames_usable {args : BootArgs} (hends : args.EndsBelow lastPage)
    {p₀ p : PhysicalMemoryManager} (hinit : p₀.init args args.tracker = some (true, p))
    (ops : List PmmOp) (op : PmmOp) {f : Nat} (hf : f ∈ (p.run ops).handedOut op) {a : Nat}
    (hlo : f * 4096 ≤ a) (hhi : a < f * 4096 + 4096) :
    (∃ e ∈ args.entries, e.IsAvailable ∧ e.Contains a) ∧
    (∀ e ∈ args.entries, ¬ e.IsAvailable → ¬ e.Contains a) ∧
    0x100000 ≤ a ∧
    ¬ (args.kernelStart ≤ a ∧ a < args.kernelEnd) ∧
    (args.mb2Paddr ≠ 0 ∨ args.mb2Size ≤ 0x100000 →
      ¬ (args.mb2Paddr ≤ a ∧ a < args.mb2Paddr + args.mb2Size)) ∧
    ¬ (p.bitmapPaddr ≤ a ∧ a < p.bitmapPaddr + p.bitmapSizeBytes) := by
  have hboot := consistent_run hinit []
  have h := consistent_run hinit ops
  have hpaddr : (p.run ops).bitmapPaddr = p.bitmapPaddr :=
    Option.some.inj (Option.some.inj (h.placement.symm.trans hboot.placement))
  obtain ⟨hlt, hclear⟩ :=
    (consistent_kept args).handedOut_clear (l := Ledger.start (p.run ops)) h hf
  have hav := h.clear f hlt hclear
  have hbelow := h.bitmap_below hends
  have hbytes : p.bitmapSizeBytes = args.bitmapSize := hboot.bitmapBytes
  rw [hpaddr] at hav hbelow
  have hout := fun {r} => available_page_outside h.usable hav hlo hhi (r := r)
  have hlow : 0x100000 ≤ a := by
    by_contra hlt
    exact hout (lowMemory_mem args _) rfl (by unfold EndFits; decide) ⟨Nat.zero_le _, by
      simp only [ReservedMemoryTracker.lowMemoryRecord]
      omega⟩
  refine ⟨available_page_inside h.usable hav hlo hhi, ?_, hlow, ?_, ?_, ?_⟩
  · intro e he hres
    exact available_page_entry h.usable hav hlo hhi he hres (hends.entries e he)
  · intro hin
    have hlt : args.kernelStart < args.kernelEnd := by omega
    have hend := kernelRecord_end hlt hends.kernel
    have hkernel := hends.kernel
    simp only [lastPage] at hkernel
    refine hout (kernelRecord_mem hlt) rfl (by unfold EndFits; omega) ⟨hin.1, by omega⟩
  · intro hblock hin
    have hsize : 0 < args.mb2Size := by omega
    rcases Nat.eq_zero_or_pos args.mb2Paddr with hz | hpos
    · omega
    · have hspec := alignedRecord_spec "Multiboot2 Information Block" hends.multiboot
      exact hout (multibootRecord_mem (by omega) hsize) rfl hspec.1 ⟨by omega, by omega⟩
  · intro hin
    have hspec := alignedRecord_spec "PMM Allocation Bitmap" hbelow
    exact hout bitmapRecord_mem rfl hspec.1 ⟨by
      change (ReservedMemoryTracker.alignedRecord p.bitmapPaddr args.bitmapSize _).start ≤ a
      omega, by
      change a < (ReservedMemoryTracker.alignedRecord p.bitmapPaddr args.bitmapSize _).start +
        (ReservedMemoryTracker.alignedRecord p.bitmapPaddr args.bitmapSize _).length
      omega⟩

theorem sampleBoot_frame_usable :
    259 ∈ (samplePmm.run [.allocPage, .freePage 0x103000]).handedOut (.allocPages 2) ∧
      (∃ e ∈ sampleBoot.entries, e.IsAvailable ∧ e.Contains 0x103FFF) ∧
      ∀ e ∈ sampleBoot.entries, ¬ e.IsAvailable → ¬ e.Contains 0x103FFF := by
  have hf : 259 ∈ (samplePmm.run [.allocPage, .freePage 0x103000]).handedOut (.allocPages 2) := by
    decide +kernel
  have h := handedOut_frames_usable sampleBoot_endsBelow sampleBoot_init
    [.allocPage, .freePage 0x103000] (.allocPages 2) hf (a := 0x103FFF) (by decide) (by decide)
  exact ⟨hf, h.1, h.2.1⟩

/-- A Multiboot2 block of two MiB at address zero, which `populate` and `init` take for no block. -/
def nullBlockBoot : BootArgs where
  bootInfo := { mmapEntries := [⟨0x100000, 0x300000, 1, 0⟩] }
  kernelStart := 0x100000
  kernelEnd := 0x101000
  mb2Paddr := 0
  mb2Size := 0x200000

@[irreducible] def nullBlockPmm : PhysicalMemoryManager :=
  ((gPmm.init nullBlockBoot nullBlockBoot.tracker).getD (false, gPmm)).2

/-- The first frame handed out is part of the block. -/
theorem nullBlockBoot_frame_taken :
    (∀ e ∈ nullBlockBoot.entries, e.baseAddr + e.length < 2 ^ 52) ∧
      gPmm.init nullBlockBoot nullBlockBoot.tracker = some (true, nullBlockPmm) ∧
      257 ∈ nullBlockPmm.handedOut .allocPage ∧
      nullBlockBoot.mb2Paddr ≤ 257 * 4096 ∧
        257 * 4096 < nullBlockBoot.mb2Paddr + nullBlockBoot.mb2Size := by
  decide +kernel

end LlamaOS.Memory
