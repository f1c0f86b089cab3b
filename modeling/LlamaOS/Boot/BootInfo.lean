import LlamaOS.Memory.Types

/-!
# Boot information

What the kernel keeps of the bootloader's information block. The memory map holds
at most `maxMemoryRegions` entries; the bound is part of the structure.
-/

namespace LlamaOS.Boot

abbrev maxCmdlineLen : Nat := 256
abbrev maxLoaderNameLen : Nat := 64
abbrev maxMemoryRegions : Nat := 64

/-- The firmware may report any 32-bit type; the five named ones have a meaning. -/
inductive MemoryType where
  | available
  | reserved
  | acpiReclaimable
  | nvs
  | badRam
  | other (code : Nat)
deriving DecidableEq

def MemoryType.ofCode : Nat → MemoryType
  | 1 => .available
  | 2 => .reserved
  | 3 => .acpiReclaimable
  | 4 => .nvs
  | 5 => .badRam
  | code => .other code

structure MemoryMapEntry where
  baseAddr : Nat
  length : Nat
  type : Nat
  reserved : Nat
deriving DecidableEq

namespace MemoryMapEntry

def memoryType (e : MemoryMapEntry) : MemoryType := .ofCode e.type

def IsAvailable (e : MemoryMapEntry) : Prop := e.memoryType = .available

instance (e : MemoryMapEntry) : Decidable e.IsAvailable := inferInstanceAs (Decidable (_ = _))

/-- The bytes an entry describes. -/
def Contains (e : MemoryMapEntry) (a : Nat) : Prop := e.baseAddr ≤ a ∧ a < e.baseAddr + e.length

end MemoryMapEntry

inductive FramebufferType where
  | indexed
  | directRgb
  | egaText
  | unknown
deriving DecidableEq

structure FramebufferColorField where
  position : Nat := 0
  maskSize : Nat := 0
deriving DecidableEq

structure FramebufferInfo where
  valid : Bool := false
  address : Nat := 0
  pitch : Nat := 0
  width : Nat := 0
  height : Nat := 0
  bpp : Nat := 0
  type : FramebufferType := .unknown
  red : FramebufferColorField := {}
  green : FramebufferColorField := {}
  blue : FramebufferColorField := {}
  totalSizeBytes : Nat := 0
deriving DecidableEq

structure AcpiInfo where
  valid : Bool := false
  isV2 : Bool := false
  revision : Nat := 0
  oemId : List UInt8 := []
  mb2RsdpCopyAddr : Nat := 0
  length : Nat := 0
  rsdtPhysicalAddress : Nat := 0
  xsdtPhysicalAddress : Nat := 0
deriving DecidableEq

structure EfiInfo where
  present : Bool := false
  valid : Bool := false
  isPhysical : Bool := false
  isFirmwareOwned : Bool := false
  systemTablePaddr : Nat := 0
deriving DecidableEq

/-- `mmap_count` is the length of `mmapEntries`; character buffers hold the bytes
before their NUL. -/
structure BootInformation where
  valid : Bool := false
  mmapTruncated : Bool := false
  usableRamOverflow : Bool := false
  commandLine : List UInt8 := []
  bootloaderName : List UInt8 := []
  memLowerKb : Nat := 0
  memUpperKb : Nat := 0
  totalUsableRamBytes : Nat := 0
  totalMmapEntriesDetected : Nat := 0
  mmapEntries : List MemoryMapEntry := []
  framebuffer : FramebufferInfo := {}
  acpi : AcpiInfo := {}
  efi : EfiInfo := {}
  mb2InfoPaddr : Nat := 0
  mb2InfoTotalSize : Nat := 0
  capacity : mmapEntries.length ≤ maxMemoryRegions := by decide
deriving DecidableEq

def BootInformation.zeroed : BootInformation := {}

end LlamaOS.Boot
