import LlamaOS.Memory.ReservedRegions
import LlamaOS.Shared.WordBitset
import LlamaOS.Shared.RunSearch

/-!
# The physical memory manager

A bitmap allocator for 4 KiB frames; a set bit is a frame that may not be handed
out. `m_total_frames` is the size of the bitmap, and `m_tracker` is the tracker's
state as `init` leaves it. Zero-filling a frame needs the machine's memory and is
modelled where that memory is.
-/

namespace LlamaOS.Memory
open Boot WordBitset PhysicalAddress RunSearch

structure PhysicalMemoryManager where
  tracker : Option ReservedMemoryTracker := none
  bitmap : Bitset := ⟨0, [], by decide⟩
  bitmapPaddr : Nat := 0
  bitmapSizeBytes : Nat := 0
  maxManagedPaddr : Nat := 0
  usableFrames : Nat := 0
  reservedFrames : Nat := 0
  freeFrames : Nat := 0
  allocatedFrames : Nat := 0
  lastSearchFrame : Nat := 0
  forceAllocFailure : Bool := false
  initialized : Bool := false
  framesBound : bitmap.size ≤ 2 ^ 52 := by decide
deriving DecidableEq

def gPmm : PhysicalMemoryManager := {}

/-- Step 1: the largest end of an available entry. -/
def maxUsableAddr (entries : List MemoryMapEntry) : Nat :=
  entries.foldl (fun highest e =>
    if e.IsAvailable then
      let entryEnd := add64 e.baseAddr e.length
      if entryEnd > highest then entryEnd else highest
    else highest) 0

def managedLimit (entries : List MemoryMapEntry) : Nat :=
  alignUp (maxUsableAddr entries) (2 * 1024 * 1024)

/-- Bytes of a bitmap for `frames` frames, rounded up to whole words. -/
def bitmapBytes (frames : Nat) : Nat := ((frames + 7) / 8 + 7) &&& (2 ^ 64 - 8)

section Placement
variable (tracker : ReservedMemoryTracker) (mb2Paddr mb2Size size : Nat)

/-- The inner loop of step 2. `none` is a loop that never ends: after `2 ^ 52` pages the
cursor is back where it started. -/
def placementLoop (entryEnd : Nat) : Nat → Nat → Option (Option Nat)
  | 0, _ => none
  | left + 1, cur =>
    if add64 cur size ≤ entryEnd then
      let mb2End := add64 mb2Paddr mb2Size
      let mb2Collision := cur < mb2End && add64 cur size > mb2Paddr
      let reservedCollision := tracker.overlapsReserved cur size
      if !mb2Collision && !reservedCollision then some (some cur)
      else placementLoop entryEnd left (add64 cur pageSize)
    else some none

def findPlacement (searchStart : Nat) : List MemoryMapEntry → Option (Option Nat)
  | [] => some none
  | e :: entries =>
    if ¬ e.IsAvailable then findPlacement searchStart entries
    else
      let entryEnd := add64 e.baseAddr e.length
      let cur := if e.baseAddr > searchStart then alignUp e.baseAddr pageSize
        else searchStart
      match placementLoop tracker mb2Paddr mb2Size size entryEnd (2 ^ 52) cur with
      | none => none
      | some (some candidate) => some (some candidate)
      | some none => findPlacement searchStart entries

end Placement

section

variable (entries : List MemoryMapEntry)
include entries

theorem maxUsableAddr_lt : maxUsableAddr entries < 2 ^ 64 := by
  have hfold : ∀ (l : List MemoryMapEntry) (highest : Nat), highest < 2 ^ 64 →
      l.foldl (fun highest e =>
        if e.IsAvailable then
          let entryEnd := add64 e.baseAddr e.length
          if entryEnd > highest then entryEnd else highest
        else highest) highest < 2 ^ 64 := by
    intro l
    induction l with
    | nil => exact fun _ h => h
    | cons e l ih =>
      intro highest h
      apply ih
      dsimp only
      split
      · split
        · exact add64_lt _ _
        · exact h
      · exact h
  exact hfold entries 0 (by decide)

theorem managedLimit_lt : managedLimit entries < 2 ^ 64 :=
  alignUp_lt _ (by decide) (maxUsableAddr_lt entries)

theorem managedFrames_le : managedLimit entries / pageSize ≤ 2 ^ 52 := by
  have := managedLimit_lt entries
  simp only [pageSize]
  omega

end

/-- Step 3: every frame marked used. -/
def fullBitmap (frames : Nat) (h : frames ≤ 2 ^ 52) : Bitset where
  size := frames
  words := List.replicate (bitmapBytes frames / 8) (BitVec.allOnes 64)
  covers := by
    have hmask := land_highMask (x := (frames + 7) / 8 + 7) (k := 3) (by omega) (by decide)
    rw [List.length_replicate, bitmapBytes, show 2 ^ 64 - 8 = 2 ^ 64 - 2 ^ 3 from rfl, hmask]
    omega

section Ranges
variable (limit : Nat)

/-- Step 4 for one record of the tracker's table. -/
def freeRegion (bitmap : Bitset) (r : MemoryRegionRecord) : Bitset :=
  if r.isAvailable then
    let endAddr := if r.endAddr > limit then limit else r.endAddr
    if r.start < endAddr then
      let startFrame := r.start / pageSize
      let endFrame := endAddr / pageSize
      bitmap.clearRange startFrame (min endFrame bitmap.size - startFrame)
    else bitmap
  else bitmap

def reserveRange (bitmap : Bitset) (start endAddr : Nat) : Bitset :=
  if endAddr ≤ start then bitmap
  else
    let sAligned := alignDown start pageSize
    let eAligned := alignUp endAddr pageSize
    let eAligned := if eAligned > limit then limit else eAligned
    if sAligned ≥ limit then bitmap
    else
      let startFrame := sAligned / pageSize
      let endFrame := eAligned / pageSize
      bitmap.setRange startFrame (min endFrame bitmap.size - startFrame)

/-- Step 5 (E) for one entry of the firmware map. -/
def reserveEntry (bitmap : Bitset) (e : MemoryMapEntry) : Bitset :=
  if ¬ e.IsAvailable then
    reserveRange limit bitmap (alignDown e.baseAddr pageSize)
      (alignUp (add64 e.baseAddr e.length) pageSize)
  else bitmap

end Ranges

@[simp] theorem freeRegion_size (limit : Nat) (b : Bitset) (r : MemoryRegionRecord) :
    (freeRegion limit b r).size = b.size := by
  simp only [freeRegion, apply_ite Bitset.size, Bitset.clearRange_size, ite_self]

@[simp] theorem reserveRange_size (limit : Nat) (b : Bitset) (start endAddr : Nat) :
    (reserveRange limit b start endAddr).size = b.size := by
  simp only [reserveRange, apply_ite Bitset.size, Bitset.setRange_size, ite_self]

@[simp] theorem reserveEntry_size (limit : Nat) (b : Bitset) (e : MemoryMapEntry) :
    (reserveEntry limit b e).size = b.size := by
  simp only [reserveEntry, apply_ite Bitset.size, reserveRange_size, ite_self]

theorem foldl_size {α : Type} (f : Bitset → α → Bitset) (hf : ∀ b x, (f b x).size = b.size)
    (l : List α) (b : Bitset) : (l.foldl f b).size = b.size := by
  induction l generalizing b with
  | nil => rfl
  | cons x l ih => rw [List.foldl_cons, ih, hf]

/-- The arguments `populate` and `init` share. -/
structure BootArgs where
  bootInfo : BootInformation
  kernelStart : Nat
  kernelEnd : Nat
  mb2Paddr : Nat
  mb2Size : Nat

/-- Steps 3 to 5: the bitmap as a function of the placement and the tracker's table. -/
def initialBitmap (args : BootArgs) (tracker : ReservedMemoryTracker) (bitmapPaddr : Nat) :
    Bitset :=
  let entries := args.bootInfo.mmapEntries
  let limit := managedLimit entries
  let frames := limit / pageSize
  let bitmap := fullBitmap frames (managedFrames_le entries)
  let bitmap := tracker.regions.foldl (freeRegion limit) bitmap
  let bitmap := reserveRange limit bitmap 0 0x100000
  let bitmap := reserveRange limit bitmap (alignDown args.kernelStart pageSize)
    (alignUp args.kernelEnd pageSize)
  let bitmap := if !isNull args.mb2Paddr && args.mb2Size > 0 then
      reserveRange limit bitmap (alignDown args.mb2Paddr pageSize)
        (alignUp (add64 args.mb2Paddr args.mb2Size) pageSize)
    else bitmap
  let bitmap := reserveRange limit bitmap bitmapPaddr (add64 bitmapPaddr (bitmapBytes frames))
  entries.foldl (reserveEntry limit) bitmap

theorem initialBitmap_size (args : BootArgs) (tracker : ReservedMemoryTracker) (bitmapPaddr : Nat) :
    (initialBitmap args tracker bitmapPaddr).size =
      managedLimit args.bootInfo.mmapEntries / pageSize := by
  dsimp only [initialBitmap]
  rw [foldl_size _ (reserveEntry_size _), reserveRange_size]
  split
  all_goals
    simp only [reserveRange_size]
    rw [foldl_size _ (freeRegion_size _)]
    rfl

namespace PhysicalMemoryManager

def totalFrames (p : PhysicalMemoryManager) : Nat := p.bitmap.size

/-- `none` when the placement search of step 2 does not terminate. -/
def init (p : PhysicalMemoryManager) (args : BootArgs) (tracker : ReservedMemoryTracker) :
    Option (Bool × PhysicalMemoryManager) :=
  let p := { p with initialized := false, tracker := some tracker, forceAllocFailure := false }
  let entries := args.bootInfo.mmapEntries
  if maxUsableAddr entries = 0 then some (false, p)
  else
    let limit := managedLimit entries
    let sizeBytes := bitmapBytes (limit / pageSize)
    let p := { p with maxManagedPaddr := limit, bitmapSizeBytes := sizeBytes }
    let searchStart := alignUp args.kernelEnd pageSize
    match findPlacement tracker args.mb2Paddr args.mb2Size sizeBytes searchStart entries with
    | none => none
    | some none => some (false, p)
    | some (some bitmapPaddr) =>
      let tracker := (tracker.registerPmmBitmap bitmapPaddr sizeBytes).2
      let bitmap := initialBitmap args tracker bitmapPaddr
      let freeCount := bitmap.clearCount
      some (true,
        { p with
          tracker := some tracker
          bitmap := bitmap
          bitmapPaddr := bitmapPaddr
          freeFrames := freeCount
          usableFrames := freeCount
          reservedFrames := bitmap.size - freeCount
          allocatedFrames := 0
          lastSearchFrame := 0
          initialized := true
          framesBound := by
            rw [initialBitmap_size]
            exact managedFrames_le _ })

def allocPage (p : PhysicalMemoryManager) : Nat × PhysicalMemoryManager :=
  if !p.initialized || p.freeFrames == 0 || p.forceAllocFailure then (0, p)
  else
    let words := p.totalFrames / 64
    let startWord := p.lastSearchFrame / 64
    match p.bitmap.findClear startWord words with
    | some frame =>
      ((frame * pageSize) % 2 ^ 64,
        { p with
          bitmap := p.bitmap.setBit frame
          freeFrames := p.freeFrames - 1
          allocatedFrames := p.allocatedFrames + 1
          lastSearchFrame := frame + 1
          framesBound := p.framesBound })
    | none => (0, p)

/-- How both passes of `alloc_pages` end when they find a run. -/
def takeRun (p : PhysicalMemoryManager) (runStart needed : Nat) : Nat × PhysicalMemoryManager :=
  ((runStart * pageSize) % 2 ^ 64,
    { p with
      bitmap := p.bitmap.setRange runStart needed
      freeFrames := p.freeFrames - needed
      allocatedFrames := p.allocatedFrames + needed
      lastSearchFrame := runStart + needed
      framesBound := by simpa using p.framesBound })

def allocPages (p : PhysicalMemoryManager) (count : Nat) : Nat × PhysicalMemoryManager :=
  if !p.initialized || count == 0 || p.freeFrames < count || p.forceAllocFailure then (0, p)
  else if count = 1 then p.allocPage
  else if count > p.totalFrames then (0, p)
  else
    let free := fun f => !p.bitmap.test f
    -- from the hint to the end, then from the beginning up to the hint
    match search free count (p.totalFrames - p.lastSearchFrame) p.lastSearchFrame 0 0 with
    | some runStart => p.takeRun runStart count
    | none =>
      match search free count (min p.lastSearchFrame p.totalFrames) 0 0 0 with
      | some runStart => p.takeRun runStart count
      | none => (0, p)

def release (p : PhysicalMemoryManager) (frame : Nat) : PhysicalMemoryManager :=
  { p with
    bitmap := p.bitmap.clearBit frame
    freeFrames := p.freeFrames + 1
    allocatedFrames := p.allocatedFrames - 1
    lastSearchFrame := if frame < p.lastSearchFrame then frame else p.lastSearchFrame
    framesBound := p.framesBound }

def freePage (p : PhysicalMemoryManager) (paddr : Nat) : Bool × PhysicalMemoryManager :=
  if !p.initialized then (false, p)
  else if !isPageAligned paddr || isNull paddr ||
      paddr ≥ p.maxManagedPaddr then (false, p)
  else if p.tracker.any (·.isReserved paddr) then (false, p)
  else
    let frame := paddr / pageSize
    if !p.bitmap.test frame then (false, p)
    else if p.allocatedFrames = 0 then (false, p)
    else (true, p.release frame)

/-- The loop of `free_pages`; a failed page does not stop it. -/
def freeLoop (paddr : Nat) : List Nat → Bool → PhysicalMemoryManager → Bool × PhysicalMemoryManager
  | [], allOk, p => (allOk, p)
  | i :: rest, allOk, p =>
    let (ok, p) := p.freePage (add64 paddr (i * pageSize % 2 ^ 64))
    freeLoop paddr rest (allOk && ok) p

def rejectsRange (p : PhysicalMemoryManager) (paddr count : Nat) : Bool :=
  !p.initialized || count == 0 || !isPageAligned paddr ||
    isNull paddr || paddr > uint64Max - pageCountToBytes count

def freePages (p : PhysicalMemoryManager) (paddr count : Nat) : Bool × PhysicalMemoryManager :=
  if p.rejectsRange paddr count then (false, p)
  else freeLoop paddr (List.range count) true p

def setForceAllocFailure (p : PhysicalMemoryManager) (fail : Bool) : PhysicalMemoryManager :=
  { p with forceAllocFailure := fail, framesBound := p.framesBound }

def largestContiguousFreePages (p : PhysicalMemoryManager) : Nat :=
  if !p.initialized || p.freeFrames == 0 then 0
  else longest (fun f => !p.bitmap.test f) p.totalFrames 0 0 0

end PhysicalMemoryManager

end LlamaOS.Memory
