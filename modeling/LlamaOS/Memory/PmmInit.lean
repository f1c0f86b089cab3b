import LlamaOS.Memory.Pmm
import LlamaOS.Memory.Normalization

/-!
# What initialization leaves behind

The bitmap after `init`, frame by frame, and the tracker's table it was computed
from. Nothing here bounds the addresses of the firmware map: at the top of the
address space the tracker and the bitmap can disagree.
-/

namespace LlamaOS.Memory
open Boot WordBitset WordBitset.Bitset MemoryRegionRecord Intervals PhysicalAddress
  ReservedMemoryTracker

/-- `f` is one of the frames that `reserve_range` marks. -/
def Touches (start endAddr f : Nat) : Prop :=
  start < endAddr ∧ start / 4096 ≤ f ∧ f < alignUp endAddr pageSize / 4096

instance (start endAddr f : Nat) : Decidable (Touches start endAddr f) :=
  inferInstanceAs (Decidable (_ ∧ _ ∧ _))

section Bits
variable {limit : Nat} {b : Bitset} (hsize : b.size = limit / 4096) {f : Nat} (hf : f < b.size)
include hsize hf

theorem test_freeRegion {r : MemoryRegionRecord} (hspan : PageSpan r) :
    (freeRegion limit b r).test f = true ↔
      b.test f = true ∧ ¬ (r.isAvailable = true ∧ r.contains (f * 4096) = true) := by
  have hs := hspan.startAligned
  have he := hspan.endAligned
  have hcontains : r.contains (f * 4096) = true ↔ r.start ≤ f * 4096 ∧ f * 4096 < r.endAddr := by
    simp [contains]
  rw [hcontains]
  unfold freeRegion
  by_cases hav : r.isAvailable = true
  · simp only [hav, if_true, true_and, pageSize]
    generalize hend : (if r.endAddr > limit then limit else r.endAddr) = endAddr
    have hcut : endAddr = min r.endAddr limit := by
      rw [← hend]
      split <;> omega
    split
    · rw [test_clearRange_clipped, Bool.and_eq_true, decide_eq_true_eq, and_comm]
      have hiff : (r.start / 4096 ≤ f ∧ f < endAddr / 4096 ∧ f < b.size) ↔
          (r.start ≤ f * 4096 ∧ f * 4096 < r.endAddr) := by omega
      rw [hiff]
    · have hno : ¬ (r.start ≤ f * 4096 ∧ f * 4096 < r.endAddr) := by omega
      simp [hno]
  · simp [hav]

theorem test_reserveRange (start endAddr : Nat) :
    (reserveRange limit b start endAddr).test f = true ↔ b.test f = true ∨
      Touches start endAddr f := by
  have hdown := alignDown_page start
  unfold reserveRange Touches
  by_cases hle : endAddr ≤ start
  · have : ¬ start < endAddr := by omega
    simp [hle, this]
  simp only [hle, if_false, pageSize] at hdown ⊢
  generalize alignUp endAddr 4096 = e
  generalize hend : (if e > limit then limit else e) = eAligned
  have hcut : eAligned = min e limit := by
    rw [← hend]
    split <;> omega
  split
  · have hno : ¬ start / 4096 ≤ f := by omega
    simp [hno]
  rw [test_setRange_clipped, Bool.or_eq_true, decide_eq_true_eq, or_comm]
  have hiff : (alignDown start 4096 / 4096 ≤ f ∧ f < eAligned / 4096 ∧
      f < b.size) ↔ (start < endAddr ∧ start / 4096 ≤ f ∧ f < e / 4096) := by omega
  rw [hiff]

theorem test_reserveRange_if (c : Prop) [Decidable c] (start endAddr : Nat) :
    (if c then reserveRange limit b start endAddr else b).test f = true ↔
      b.test f = true ∨ (c ∧ Touches start endAddr f) := by
  split
  · rename_i hc
    rw [test_reserveRange hsize hf]
    simp [hc]
  · rename_i hc
    simp [hc]

theorem test_reserveEntry (e : MemoryMapEntry) :
    (reserveEntry limit b e).test f = true ↔ b.test f = true ∨
      (¬ e.IsAvailable ∧ Touches (alignDown e.baseAddr pageSize)
        (alignUp (add64 e.baseAddr e.length) pageSize) f) := by
  exact test_reserveRange_if hsize hf _ _ _

theorem test_freeRegions (l : List MemoryRegionRecord) (hspan : ∀ r ∈ l, PageSpan r) :
    (l.foldl (freeRegion limit) b).test f = true ↔
      b.test f = true ∧ ¬ ∃ r ∈ l, r.isAvailable = true ∧ r.contains (f * 4096) = true := by
  induction l generalizing b with
  | nil => simp
  | cons r l ih =>
    rw [List.foldl_cons, ih (b := freeRegion limit b r) (by simpa using hsize) (by simpa using hf)
      (fun s hs => hspan s (List.mem_cons_of_mem r hs)),
      test_freeRegion hsize hf (hspan r List.mem_cons_self)]
    simp only [List.mem_cons, exists_eq_or_imp, not_or]
    exact and_assoc

theorem test_reserveEntries (l : List MemoryMapEntry) :
    (l.foldl (reserveEntry limit) b).test f = true ↔ b.test f = true ∨
      ∃ e ∈ l, ¬ e.IsAvailable ∧ Touches (alignDown e.baseAddr pageSize)
        (alignUp (add64 e.baseAddr e.length) pageSize) f := by
  induction l generalizing b with
  | nil => simp
  | cons e l ih =>
    rw [List.foldl_cons, ih (b := reserveEntry limit b e) (by simpa using hsize)
      (by simpa using hf), test_reserveEntry hsize hf]
    simp only [List.mem_cons, exists_eq_or_imp]
    exact or_assoc

end Bits

theorem test_fullBitmap {frames f : Nat} (h : frames ≤ 2 ^ 52) (hf : f < frames) :
    (fullBitmap frames h).test f = true := by
  have hcov := (fullBitmap frames h).covers
  have hlen : f / 64 < bitmapBytes frames / 8 := by
    simp only [fullBitmap, List.length_replicate] at hcov
    omega
  rw [test_eq_getLsbD]
  simp only [fullBitmap, word, List.getD_eq_getElem?_getD, List.getElem?_replicate, hlen, if_true,
    Option.getD_some, BitVec.getLsbD_allOnes, decide_eq_true_eq]
  omega

def ReReserved (args : BootArgs) (bitmapPaddr f : Nat) : Prop :=
  Touches 0 0x100000 f ∨
  Touches (alignDown args.kernelStart pageSize)
    (alignUp args.kernelEnd pageSize) f ∨
  ((args.mb2Paddr ≠ 0 ∧ args.mb2Size > 0) ∧
    Touches (alignDown args.mb2Paddr pageSize)
      (alignUp (add64 args.mb2Paddr args.mb2Size) pageSize) f) ∨
  Touches bitmapPaddr
    (add64 bitmapPaddr (bitmapBytes (managedLimit args.bootInfo.mmapEntries / pageSize))) f ∨
  ∃ e ∈ args.bootInfo.mmapEntries, ¬ e.IsAvailable ∧
    Touches (alignDown e.baseAddr pageSize)
      (alignUp (add64 e.baseAddr e.length) pageSize) f

theorem test_initialBitmap (args : BootArgs) {tracker : ReservedMemoryTracker} (bitmapPaddr : Nat)
    {f : Nat} (hspan : ∀ r ∈ tracker.regions, PageSpan r)
    (hf : f < managedLimit args.bootInfo.mmapEntries / 4096) :
    (initialBitmap args tracker bitmapPaddr).test f = true ↔
      (¬ ∃ r ∈ tracker.regions, r.isAvailable = true ∧ r.contains (f * 4096) = true) ∨
        ReReserved args bitmapPaddr f := by
  have hmb2 : (!isNull args.mb2Paddr && decide (args.mb2Size > 0)) = true ↔
      (args.mb2Paddr ≠ 0 ∧ args.mb2Size > 0) := by
    simp [isNull]
  have hfull := test_fullBitmap (managedFrames_le args.bootInfo.mmapEntries) hf
  simp only [initialBitmap, hmb2]
  generalize hb₁ : tracker.regions.foldl (freeRegion _) _ = b₁
  have hs₁ : b₁.size = managedLimit args.bootInfo.mmapEntries / 4096 := by
    rw [← hb₁, foldl_size _ (freeRegion_size _)]
    rfl
  have ht₁ : b₁.test f = true ↔ ¬ ∃ r ∈ tracker.regions, r.isAvailable = true ∧
      r.contains (f * 4096) = true := by
    rw [← hb₁, test_freeRegions (by rfl) hf _ hspan, hfull]
    simp
  rw [test_reserveEntries, test_reserveRange, test_reserveRange_if, test_reserveRange,
    test_reserveRange, ht₁]
  · simp only [ReReserved, or_assoc]
  all_goals simp only [reserveRange_size, apply_ite Bitset.size, ite_self, hs₁]
  all_goals exact hf

theorem pushRaw_rawRegions {t : ReservedMemoryTracker} {r : MemoryRegionRecord}
    (h : t.rawRegions.length < maxRegions) : (t.pushRaw r).rawRegions = t.rawRegions ++ [r] := by
  simp only [pushRaw, h, dif_pos]

theorem importEntries_rawRegions (l : List MemoryMapEntry) (t : ReservedMemoryTracker)
    (raw : List MemoryRegionRecord) (ht : t.rawRegions = raw)
    (h : raw.length + l.length ≤ maxRegions) :
    (l.foldl importEntry t).rawRegions = raw ++ (l.filter (·.length ≠ 0)).map firmwareRecord := by
  induction l generalizing t raw with
  | nil => simp [ht]
  | cons e l ih =>
    rw [List.length_cons] at h
    rw [List.foldl_cons, importEntry]
    by_cases hz : e.length = 0
    · rw [if_pos hz, ih t raw ht (by omega)]
      simp [hz]
    have hpush := pushRaw_rawRegions (t := t) (r := firmwareRecord e) (by rw [ht]; omega)
    rw [ht] at hpush
    rw [if_neg hz, ih _ _ hpush (by rw [List.length_append, List.length_singleton]; omega)]
    simp [hz]

namespace BootArgs
variable (args : BootArgs)

def entries : List MemoryMapEntry := args.bootInfo.mmapEntries

/-- The tracker as `kernel_main` hands it to `init`. -/
def tracker : ReservedMemoryTracker :=
  populate args.bootInfo args.kernelStart args.kernelEnd args.mb2Paddr args.mb2Size

def limit : Nat := managedLimit args.entries

def bitmapSize : Nat := bitmapBytes (args.limit / pageSize)

def finalTracker (bitmapPaddr : Nat) : ReservedMemoryTracker :=
  (args.tracker.registerPmmBitmap bitmapPaddr args.bitmapSize).2

def layoutRecords : List MemoryRegionRecord :=
  [lowMemoryRecord] ++
  (if args.kernelEnd > args.kernelStart then
    [kernelRecord args.kernelStart args.kernelEnd] else []) ++
  (if !isNull args.mb2Paddr && args.mb2Size > 0 then
    [alignedRecord args.mb2Paddr args.mb2Size "Multiboot2 Information Block"]
    else [])

def firmwareRecords : List MemoryRegionRecord :=
  (args.entries.filter (·.length ≠ 0)).map firmwareRecord

def bitmapRecord (bitmapPaddr : Nat) : MemoryRegionRecord :=
  alignedRecord bitmapPaddr args.bitmapSize "PMM Allocation Bitmap"

def rawTable (bitmapPaddr : Nat) : List MemoryRegionRecord :=
  args.layoutRecords ++ args.firmwareRecords ++ [args.bitmapRecord bitmapPaddr]

theorem layoutRecords_length : args.layoutRecords.length ≤ 3 := by
  unfold layoutRecords
  split <;> split <;> simp

theorem firmwareRecords_length : args.firmwareRecords.length ≤ 64 := by
  have h := List.length_filter_le (fun e : MemoryMapEntry => decide (e.length ≠ 0)) args.entries
  have hcap := args.bootInfo.capacity
  rw [firmwareRecords, List.length_map]
  exact Nat.le_trans h hcap

theorem rawTable_length (bitmapPaddr : Nat) : (args.rawTable bitmapPaddr).length ≤ maxRegions := by
  have h₁ := args.layoutRecords_length
  have h₂ := args.firmwareRecords_length
  simp only [rawTable, List.length_append, List.length_singleton, maxRegions]
  omega

theorem tracker_rawRegions :
    args.tracker.rawRegions = args.layoutRecords ++ args.firmwareRecords := by
  have hcap := args.bootInfo.capacity
  simp only [maxMemoryRegions] at hcap
  have hlen := args.layoutRecords_length
  refine importEntries_rawRegions args.entries _ args.layoutRecords ?_ ?_
  · unfold layoutRecords
    split <;> split <;> rfl
  · simp only [maxRegions, entries]
    omega

section

variable (h : maxUsableAddr args.entries ≠ 0)
include h

theorem frames_pos : 0 < args.limit / 4096 := by
  have hcases := alignUp_cases (maxUsableAddr args.entries) (2 * 1024 * 1024) (by decide)
  change _ = 0 ∧ _ ≤ args.limit ∧ _ ∨ args.limit = _ ∧ _ at hcases
  change args.limit % _ = 0 ∧ _ ∨ _ at hcases
  rcases hcases with ⟨hmod, hle, _⟩ | ⟨hmax, _⟩
  · omega
  · simp only [hmax, uint64Max]
    omega

theorem bitmapSize_pos : 0 < args.bitmapSize := by
  have hpos := args.frames_pos h
  have hcov := (fullBitmap (args.limit / pageSize) (managedFrames_le _)).covers
  simp only [fullBitmap, List.length_replicate, pageSize] at hcov
  simp only [bitmapSize, pageSize]
  omega

theorem finalTracker_eq (bitmapPaddr : Nat) :
    (args.finalTracker bitmapPaddr).rawRegions = args.rawTable bitmapPaddr ∧
      (args.finalTracker bitmapPaddr).regions = normalizeRegions (args.rawTable bitmapPaddr) := by
  have hpos := args.bitmapSize_pos h
  have h₁ := args.layoutRecords_length
  have h₂ := args.firmwareRecords_length
  have hlen : args.tracker.rawRegions.length < maxRegions := by
    rw [args.tracker_rawRegions, List.length_append, maxRegions]
    omega
  have hno : ¬ (args.bitmapSize = 0 ∨ args.tracker.rawRegions.length ≥ maxRegions) := by omega
  have hraw := pushRaw_rawRegions (r := args.bitmapRecord bitmapPaddr) hlen
  rw [args.tracker_rawRegions] at hraw
  simp only [finalTracker, registerPmmBitmap, if_neg hno]
  exact ⟨hraw, congrArg normalizeRegions hraw⟩

end

end BootArgs

/-- What a successful `init` establishes. -/
structure Booted (args : BootArgs) (p : PhysicalMemoryManager) : Prop where
  usable : maxUsableAddr args.entries ≠ 0
  placement : findPlacement args.tracker args.mb2Paddr args.mb2Size args.bitmapSize
    (alignUp args.kernelEnd pageSize) args.entries = some (some p.bitmapPaddr)
  tracker : p.tracker = some (args.finalTracker p.bitmapPaddr)
  bitmap : p.bitmap = initialBitmap args (args.finalTracker p.bitmapPaddr) p.bitmapPaddr
  limit : p.maxManagedPaddr = args.limit
  bitmapBytes : p.bitmapSizeBytes = args.bitmapSize
  free : p.freeFrames = p.bitmap.clearCount
  usableFrames : p.usableFrames = p.bitmap.clearCount
  reservedFrames : p.reservedFrames = p.bitmap.size - p.bitmap.clearCount
  allocatedFrames : p.allocatedFrames = 0
  initialized : p.initialized = true

theorem init_booted {args : BootArgs} {p₀ p : PhysicalMemoryManager}
    (h : p₀.init args args.tracker = some (true, p)) : Booted args p := by
  simp only [PhysicalMemoryManager.init] at h
  split at h
  · simp at h
  rename_i husable
  split at h
  · simp at h
  · simp at h
  rename_i bitmapPaddr hplace
  simp only [Option.some.injEq, Prod.mk.injEq, true_and] at h
  subst h
  exact ⟨husable, hplace, rfl, rfl, rfl, rfl, rfl, rfl, rfl, rfl, rfl⟩

end LlamaOS.Memory
