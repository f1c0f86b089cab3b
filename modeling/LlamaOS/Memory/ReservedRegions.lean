import LlamaOS.Boot.BootInfo
import LlamaOS.Shared.Intervals

/-!
# The reserved memory tracker

Raw regions come from the firmware map and the kernel's own layout; `normalize`
turns them into a table of disjoint page-aligned records in which reservations win
over available RAM. Both tables hold `maxRegions` records.
-/

namespace LlamaOS.Memory
open Boot PhysicalAddress

structure MemoryRegionRecord where
  start : Nat := 0
  endAddr : Nat := 0
  length : Nat := 0
  type : MemoryType := .reserved
  name : String := "Unknown"
deriving DecidableEq

namespace MemoryRegionRecord

def isAvailable (r : MemoryRegionRecord) : Bool := r.type = .available

def isReserved (r : MemoryRegionRecord) : Bool := !r.isAvailable

def contains (r : MemoryRegionRecord) (addr : Nat) : Bool := addr ≥ r.start && addr < r.endAddr

def overlaps (r : MemoryRegionRecord) (rangeStart rangeLen : Nat) : Bool :=
  if rangeLen = 0 ∨ r.length = 0 then false
  else
    let rangeEnd := add64 rangeStart rangeLen
    r.start < rangeEnd && r.endAddr > rangeStart

def resize (r : MemoryRegionRecord) (start endAddr : Nat) : MemoryRegionRecord :=
  { r with start, endAddr, length := sub64 endAddr start }

end MemoryRegionRecord

open MemoryRegionRecord

instance : Intervals.Span MemoryRegionRecord where
  lo := start
  hi := endAddr
  resize := resize
  lo_resize := fun _ _ _ => rfl
  hi_resize := fun _ _ _ => rfl

abbrev maxRegions : Nat := 128

/-- Step 1 for a reservation: rounded outwards. -/
def reservedPart (raw : MemoryRegionRecord) : Option MemoryRegionRecord :=
  if raw.length = 0 then none
  else if raw.start > uint64Max - raw.length then none
  else if raw.isReserved then
    let s := alignDown raw.start pageSize
    let endRaw := add64 raw.start raw.length
    let e := roundUpMask endRaw
    if e > s then
      some { start := s, endAddr := e, length := sub64 e s, type := raw.type, name := raw.name }
    else none
  else none

/-- Step 1 for available RAM: rounded inwards. -/
def availablePart (raw : MemoryRegionRecord) : Option MemoryRegionRecord :=
  if raw.length = 0 then none
  else if raw.start > uint64Max - raw.length then none
  else if raw.isReserved then none
  else
    let s := alignUp raw.start pageSize
    let e := alignDown (add64 raw.start raw.length) pageSize
    if e > s then
      some { start := s, endAddr := e, length := sub64 e s, type := raw.type, name := raw.name }
    else none

def resTemp (raw : List MemoryRegionRecord) : List MemoryRegionRecord :=
  (raw.filterMap reservedPart).take maxRegions

def availTemp (raw : List MemoryRegionRecord) : List MemoryRegionRecord :=
  (raw.filterMap availablePart).take maxRegions

def sortByStart : List MemoryRegionRecord → List MemoryRegionRecord :=
  BubbleSort.sort start

/-- Step 2. The accumulator is the merged table with its last record first. -/
def mergeReservedStep (acc : List MemoryRegionRecord) (cur : MemoryRegionRecord) :
    List MemoryRegionRecord :=
  match acc with
  | [] => [cur]
  | prev :: done =>
    if prev.endAddr > cur.start then
      (if cur.endAddr > prev.endAddr then prev.resize prev.start cur.endAddr else prev) :: done
    else if prev.endAddr = cur.start ∧ prev.type = cur.type ∧ prev.name = cur.name then
      prev.resize prev.start cur.endAddr :: done
    else if (prev :: done).length < maxRegions then cur :: prev :: done
    else prev :: done

/-- Step 3: available records merge also when they only touch, whatever their names. -/
def mergeAvailableStep (acc : List MemoryRegionRecord) (cur : MemoryRegionRecord) :
    List MemoryRegionRecord :=
  match acc with
  | [] => [cur]
  | prev :: done =>
    if prev.endAddr ≥ cur.start then
      (if cur.endAddr > prev.endAddr then prev.resize prev.start cur.endAddr else prev) :: done
    else if (prev :: done).length < maxRegions then cur :: prev :: done
    else prev :: done

def mergedReserved (raw : List MemoryRegionRecord) : List MemoryRegionRecord :=
  ((sortByStart (resTemp raw)).foldl mergeReservedStep []).reverse

def mergedAvailable (raw : List MemoryRegionRecord) : List MemoryRegionRecord :=
  ((sortByStart (availTemp raw)).foldl mergeAvailableStep []).reverse

/-- Step 4: what remains of `av` beside `res`. -/
def clip (res av : MemoryRegionRecord) : List MemoryRegionRecord :=
  if res.endAddr ≤ av.start ∨ res.start ≥ av.endAddr then [av]
  else
    (if av.start < res.start then [av.resize av.start res.start] else []) ++
      (if res.endAddr < av.endAddr then [av.resize res.endAddr av.endAddr] else [])

def subtractReserved (reserved available : List MemoryRegionRecord) : List MemoryRegionRecord :=
  reserved.foldl (fun current res => (current.flatMap (clip res)).take maxRegions) available

def remainingAvailable (raw : List MemoryRegionRecord) : List MemoryRegionRecord :=
  subtractReserved (mergedReserved raw) (mergedAvailable raw)

/-- Steps 5 and 6: reservations first, available records while there is room, then sort. -/
def normalizeRegions (raw : List MemoryRegionRecord) : List MemoryRegionRecord :=
  if raw.length = 0 then []
  else sortByStart ((mergedReserved raw ++ remainingAvailable raw).take maxRegions)

structure ReservedMemoryTracker where
  rawRegions : List MemoryRegionRecord := []
  regions : List MemoryRegionRecord := []
  rawCapacity : rawRegions.length ≤ maxRegions := by decide
deriving DecidableEq

namespace ReservedMemoryTracker

def normalize (t : ReservedMemoryTracker) : ReservedMemoryTracker :=
  { t with regions := normalizeRegions t.rawRegions }

def pushRaw (t : ReservedMemoryTracker) (r : MemoryRegionRecord) : ReservedMemoryTracker :=
  if h : t.rawRegions.length < maxRegions then
    { t with
      rawRegions := t.rawRegions ++ [r]
      rawCapacity := by simpa using Nat.succ_le_of_lt h }
  else t

def addRegion (t : ReservedMemoryTracker) (start length : Nat) (type : MemoryType)
    (name : Option String) : Bool × ReservedMemoryTracker :=
  if length = 0 ∨ t.rawRegions.length ≥ maxRegions then (false, t)
  else
    let r : MemoryRegionRecord :=
      { start, endAddr := add64 start length, length, type, name := name.getD "Unknown" }
    (true, (t.pushRaw r).normalize)

def lowMemoryRecord : MemoryRegionRecord :=
  { start := 0, endAddr := 0x100000, length := 0x100000, type := .reserved
    name := "Low Memory (IVT/BDA/EBDA/VRAM)" }

def kernelRecord (kernelStart kernelEnd : Nat) : MemoryRegionRecord :=
  { start := kernelStart, endAddr := kernelEnd, length := sub64 kernelEnd kernelStart
    type := .reserved, name := "Kernel Physical Image" }

/-- A page-aligned reservation around `[paddr, paddr + size)`. -/
def alignedRecord (paddr size : Nat) (name : String) : MemoryRegionRecord :=
  let startAligned := alignDown paddr pageSize
  let endAligned := roundUpMask (add64 paddr size)
  { start := startAligned, endAddr := endAligned, length := sub64 endAligned startAligned
    type := .reserved, name }

def firmwareDescription : MemoryType → String
  | .available => "Available Usable RAM"
  | .acpiReclaimable => "ACPI Reclaimable Memory"
  | .nvs => "ACPI Non-Volatile Storage (NVS)"
  | .badRam => "Defective BadRAM"
  | .reserved => "Firmware Reserved"
  | .other _ => "Firmware Reserved"

def firmwareRecord (e : MemoryMapEntry) : MemoryRegionRecord :=
  { start := e.baseAddr, endAddr := add64 e.baseAddr e.length, length := e.length
    type := e.memoryType, name := firmwareDescription e.memoryType }

def importEntry (t : ReservedMemoryTracker) (e : MemoryMapEntry) : ReservedMemoryTracker :=
  if e.length = 0 then t else t.pushRaw (firmwareRecord e)

def populate (bootInfo : BootInformation) (kernelStart kernelEnd mb2Paddr mb2Size : Nat) :
    ReservedMemoryTracker :=
  let t : ReservedMemoryTracker := { rawRegions := [lowMemoryRecord] }
  let t := if kernelEnd > kernelStart then t.pushRaw (kernelRecord kernelStart kernelEnd) else t
  let t := if !isNull mb2Paddr && mb2Size > 0 then
      t.pushRaw (alignedRecord mb2Paddr mb2Size "Multiboot2 Information Block")
    else t
  (bootInfo.mmapEntries.foldl importEntry t).normalize

def registerPmmBitmap (t : ReservedMemoryTracker) (bitmapStart bitmapSize : Nat) :
    Bool × ReservedMemoryTracker :=
  if bitmapSize = 0 ∨ t.rawRegions.length ≥ maxRegions then (false, t)
  else (true, (t.pushRaw (alignedRecord bitmapStart bitmapSize "PMM Allocation Bitmap")).normalize)

/-- Addresses outside all records count as reserved. -/
def isReserved (t : ReservedMemoryTracker) (addr : Nat) : Bool :=
  match t.regions.find? (·.contains addr) with
  | some r => r.isReserved
  | none => true

def overlapsReserved (t : ReservedMemoryTracker) (start length : Nat) : Bool :=
  if length = 0 then false
  else if start > uint64Max - length then true
  else t.regions.any fun r => r.isReserved && r.overlaps start length

def isRangeAvailable (t : ReservedMemoryTracker) (start length : Nat) : Bool :=
  if length = 0 then false
  else if start > uint64Max - length then false
  else
    let endAddr := add64 start length
    t.regions.any fun r => r.isAvailable && r.start ≤ start && r.endAddr ≥ endAddr

end ReservedMemoryTracker

end LlamaOS.Memory
