import LlamaOS.Boot.BootInfo

/-!
# The Multiboot2 information parser

Memory is a partial function from addresses to bytes and the parser is a function
into `Option`: `none` means that it touched a byte it may not read. The tag loop and
the entry loop take the number of bytes left as fuel; each turn consumes at least
eight of them.
-/

namespace LlamaOS.Boot

abbrev multiboot2BootloaderMagic : Nat := 0x36d76289
abbrev maxReasonableInfoSize : Nat := 8 * 1024 * 1024
abbrev uint32Max : Nat := 0xFFFFFFFF

/-- Tag types the parser distinguishes; all others are skipped. -/
inductive TagType where
  | endTag
  | cmdline
  | bootLoaderName
  | basicMemInfo
  | mmap
  | framebuffer
  | efi64
  | acpiOld
  | acpiNew
  | other (code : Nat)
deriving DecidableEq

def TagType.ofCode : Nat → TagType
  | 0 => .endTag
  | 1 => .cmdline
  | 2 => .bootLoaderName
  | 4 => .basicMemInfo
  | 6 => .mmap
  | 8 => .framebuffer
  | 12 => .efi64
  | 14 => .acpiOld
  | 15 => .acpiNew
  | code => .other code

abbrev Memory := Nat → Option UInt8

section Reads
variable (mem : Memory)

def readU8 (a : Nat) : Option Nat := (mem a).map UInt8.toNat

def readU32 (a : Nat) : Option Nat := do
  let b0 ← readU8 mem a
  let b1 ← readU8 mem (a + 1)
  let b2 ← readU8 mem (a + 2)
  let b3 ← readU8 mem (a + 3)
  return b0 + 2 ^ 8 * b1 + 2 ^ 16 * b2 + 2 ^ 24 * b3

def readU64 (a : Nat) : Option Nat := do
  let low ← readU32 mem a
  let high ← readU32 mem (a + 4)
  return low + 2 ^ 32 * high

def readEntry (p : Nat) : Option MemoryMapEntry := do
  let baseAddr ← readU64 mem p
  let length ← readU64 mem (p + 8)
  let type ← readU32 mem (p + 16)
  let reserved ← readU32 mem (p + 20)
  return { baseAddr, length, type, reserved }

def copyBytes (destCapacity src : Nat) : Nat → Nat → Option (List UInt8)
  | 0, _ => some []
  | left + 1, copyLen => do
    let c ← mem (src + copyLen)
    if c = 0 then return []
    if copyLen + 1 < destCapacity then
      return c :: (← copyBytes destCapacity src left (copyLen + 1))
    return []

def safeCopyString (destCapacity src maxSrcLen : Nat) : Option (List UInt8) :=
  copyBytes mem destCapacity src maxSrcLen 0

def sumBytes (a : Nat) : Nat → Option Nat
  | 0 => some 0
  | left + 1 => do
    let b ← readU8 mem a
    let rest ← sumBytes (a + 1) left
    return b + rest

def validateAcpiChecksum (rsdp length : Nat) : Option Bool :=
  if length = 0 then some false
  else do
    let sum ← sumBytes mem rsdp length
    return ((sum % 2 ^ 32) &&& 0xFF) == 0

def memcmpEq (a : Nat) : List UInt8 → Option Bool
  | [] => some true
  | b :: bytes => do
    let c ← mem a
    if c = b then memcmpEq (a + 1) bytes else return false

/-- The bytes of `"RSD PTR "`. -/
def rsdpSignature : List UInt8 := [0x52, 0x53, 0x44, 0x20, 0x50, 0x54, 0x52, 0x20]

end Reads

/-- The parser's result so far and its duplicate-tag flags. -/
structure ParseState where
  info : BootInformation
  seenCmdline : Bool := false
  seenBootloaderName : Bool := false
  seenBasicMem : Bool := false
  seenMmap : Bool := false
  seenFramebuffer : Bool := false
  seenAcpiOld : Bool := false
  seenAcpiNew : Bool := false
  seenEfi64 : Bool := false

/-- Non-empty and not running past the 64-bit address space. -/
def MemoryMapEntry.Accepted (e : MemoryMapEntry) : Prop :=
  e.length > 0 ∧ uint64Max - e.baseAddr ≥ e.length

instance (e : MemoryMapEntry) : Decidable e.Accepted := inferInstanceAs (Decidable (_ ∧ _))

def countUsable (info : BootInformation) (e : MemoryMapEntry) : BootInformation :=
  if e.IsAvailable then
    if uint64Max - info.totalUsableRamBytes ≥ e.length then
      { info with totalUsableRamBytes := info.totalUsableRamBytes + e.length }
    else { info with totalUsableRamBytes := uint64Max, usableRamOverflow := true }
  else info

def storeEntry (info : BootInformation) (e : MemoryMapEntry) : BootInformation :=
  if h : info.mmapEntries.length < maxMemoryRegions then
    { info with
      mmapEntries := info.mmapEntries ++ [e]
      capacity := by simpa using Nat.succ_le_of_lt h }
  else { info with mmapTruncated := true }

def addEntry (info : BootInformation) (e : MemoryMapEntry) : BootInformation :=
  if e.Accepted then
    let info := { info with totalMmapEntriesDetected := info.totalMmapEntriesDetected + 1 }
    storeEntry (countUsable info e) e
  else info

section Tags
variable (mem : Memory)

def entryLoop (entrySize entriesEnd : Nat) : Nat → Nat → BootInformation → Option BootInformation
  | 0, _, info => some info
  | left + 1, p, info =>
    if p < entriesEnd ∧ entriesEnd - p ≥ entrySize then do
      let e ← readEntry mem p
      let info := addEntry info e
      if uint64Max - p < entrySize then return info
      entryLoop entrySize entriesEnd left (p + entrySize) info
    else some info

def handleCmdline (payload payloadLen : Nat) (st : ParseState) : Option ParseState := do
  if st.seenCmdline then return st
  let st := { st with seenCmdline := true }
  if payloadLen > 0 then
    let s ← safeCopyString mem maxCmdlineLen payload payloadLen
    return { st with info := { st.info with commandLine := s } }
  return st

def handleBootLoaderName (payload payloadLen : Nat) (st : ParseState) : Option ParseState := do
  if st.seenBootloaderName then return st
  let st := { st with seenBootloaderName := true }
  if payloadLen > 0 then
    let s ← safeCopyString mem maxLoaderNameLen payload payloadLen
    return { st with info := { st.info with bootloaderName := s } }
  return st

def handleBasicMemInfo (payload size : Nat) (st : ParseState) : Option ParseState := do
  if st.seenBasicMem then return st
  let st := { st with seenBasicMem := true }
  if size ≥ 16 then
    let lower ← readU32 mem payload
    let upper ← readU32 mem (payload + 4)
    return { st with info := { st.info with memLowerKb := lower, memUpperKb := upper } }
  return st

def handleMmap (curr size : Nat) (st : ParseState) : Option ParseState := do
  if st.seenMmap then return st
  let st := { st with seenMmap := true }
  if size ≥ 16 then
    let entrySize ← readU32 mem (curr + 8)
    let entryVersion ← readU32 mem (curr + 12)
    if entryVersion = 0 ∧ entrySize ≥ 24 ∧ entrySize ≤ 1024 then
      let truncated := st.info.mmapTruncated || (size - 16) % entrySize != 0
      let info := { st.info with mmapTruncated := truncated }
      let info ← entryLoop mem entrySize (curr + size) size (curr + 16) info
      return { st with info := info }
    return st
  return st

/-- The colour description of an accepted framebuffer; `none` when it is malformed. -/
def framebufferKind (payload size fbType : Nat) (fb : FramebufferInfo) :
    Option (Option FramebufferInfo) := do
  if fbType = 0 ∧ size ≥ 36 then
    let numColors ← readU32 mem (payload + 24)
    if numColors ≤ 256 ∧ 36 + numColors * 3 ≤ size then
      return some { fb with type := .indexed, valid := true }
    return none
  if fbType = 1 ∧ size ≥ 38 then
    let redPosition ← readU8 mem (payload + 24)
    let redMask ← readU8 mem (payload + 25)
    let greenPosition ← readU8 mem (payload + 26)
    let greenMask ← readU8 mem (payload + 27)
    let bluePosition ← readU8 mem (payload + 28)
    let blueMask ← readU8 mem (payload + 29)
    return some { fb with
      type := .directRgb
      red := ⟨redPosition, redMask⟩
      green := ⟨greenPosition, greenMask⟩
      blue := ⟨bluePosition, blueMask⟩
      valid := true }
  if fbType = 2 then return some { fb with type := .egaText, valid := true }
  return none

def handleFramebuffer (payload size : Nat) (st : ParseState) : Option ParseState := do
  if st.seenFramebuffer then return st
  let st := { st with seenFramebuffer := true }
  if size ≥ 32 then
    let address ← readU64 mem payload
    let pitch ← readU32 mem (payload + 8)
    let width ← readU32 mem (payload + 12)
    let height ← readU32 mem (payload + 16)
    let bpp ← readU8 mem (payload + 20)
    let fbType ← readU8 mem (payload + 21)
    if address ≠ 0 ∧ 0 < width ∧ width ≤ 7680 ∧ 0 < height ∧ height ≤ 4320 ∧
        (bpp = 8 ∨ bpp = 15 ∨ bpp = 16 ∨ bpp = 24 ∨ bpp = 32) then
      let minPitch := (width * bpp + 7) / 8
      let maxPitch := width * 64
      if pitch ≥ minPitch ∧ pitch ≤ maxPitch ∧ pitch ≤ uint64Max / height then
        let total := pitch * height
        if uint64Max - address ≥ total then
          let fb : FramebufferInfo :=
            { st.info.framebuffer with address, pitch, width, height, bpp, totalSizeBytes := total }
          match ← framebufferKind mem payload size fbType fb with
          | some fb => return { st with info := { st.info with framebuffer := fb } }
          | none => return st
        return st
      return st
    return st
  return st

def handleAcpiOld (payload size : Nat) (st : ParseState) : Option ParseState := do
  if st.seenAcpiNew || st.seenAcpiOld then return st
  let st := { st with seenAcpiOld := true }
  if size ≥ 8 + 20 then
    if ← memcmpEq mem payload rsdpSignature then
      if ← validateAcpiChecksum mem payload 20 then
        let revision ← readU8 mem (payload + 15)
        let oemId ← safeCopyString mem 7 (payload + 9) 6
        let rsdt ← readU32 mem (payload + 16)
        let acpi : AcpiInfo :=
          { valid := true, isV2 := false, revision, oemId, mb2RsdpCopyAddr := payload
            length := 20, rsdtPhysicalAddress := rsdt, xsdtPhysicalAddress := 0 }
        return { st with info := { st.info with acpi := acpi } }
      return st
    return st
  return st

def handleAcpiNew (payload payloadLen size : Nat) (st : ParseState) : Option ParseState := do
  if st.seenAcpiNew then return st
  let st := { st with seenAcpiNew := true }
  if size ≥ 8 + 36 then
    let declaredLen ← readU32 mem (payload + 20)
    if declaredLen ≥ 36 ∧ declaredLen ≤ payloadLen then
      if ← memcmpEq mem payload rsdpSignature then
        if ← validateAcpiChecksum mem payload 20 then
          if ← validateAcpiChecksum mem payload declaredLen then
            let revision ← readU8 mem (payload + 15)
            let oemId ← safeCopyString mem 7 (payload + 9) 6
            let rsdt ← readU32 mem (payload + 16)
            let xsdt ← readU64 mem (payload + 24)
            let acpi : AcpiInfo :=
              { valid := true, isV2 := true, revision, oemId, mb2RsdpCopyAddr := payload
                length := declaredLen, rsdtPhysicalAddress := rsdt, xsdtPhysicalAddress := xsdt }
            return { st with info := { st.info with acpi := acpi } }
          return st
        return st
      return st
    return st
  return st

def handleEfi64 (payload size : Nat) (st : ParseState) : Option ParseState := do
  if st.seenEfi64 then return st
  let st := { st with seenEfi64 := true }
  if size ≥ 16 then
    let sysTab ← readU64 mem payload
    if sysTab ≠ 0 then
      let efi : EfiInfo :=
        { present := true, valid := true, isPhysical := true, isFirmwareOwned := true
          systemTablePaddr := sysTab }
      return { st with info := { st.info with efi := efi } }
    return st
  return st

def handleTag (type : TagType) (curr size : Nat) (st : ParseState) : Option ParseState :=
  let payload := curr + 8
  let payloadLen := size - 8
  match type with
  | .cmdline => handleCmdline mem payload payloadLen st
  | .bootLoaderName => handleBootLoaderName mem payload payloadLen st
  | .basicMemInfo => handleBasicMemInfo mem payload size st
  | .mmap => handleMmap mem curr size st
  | .framebuffer => handleFramebuffer mem payload size st
  | .acpiOld => handleAcpiOld mem payload size st
  | .acpiNew => handleAcpiNew mem payload payloadLen size st
  | .efi64 => handleEfi64 mem payload size st
  | .endTag => some st
  | .other _ => some st

/-- A tag occupies its size rounded up to eight bytes. -/
def alignedTagSize (size : Nat) : Nat := (size + 7) &&& 0xFFFFFFF8

/-- The flag says whether a well-formed terminator was found. -/
def tagLoop (endAddr : Nat) : Nat → Nat → ParseState → Option (Bool × ParseState)
  | 0, _, st => some (false, st)
  | left + 1, curr, st =>
    if curr < endAddr then
      if endAddr - curr < 8 then some (false, st)
      else do
        let type ← readU32 mem curr
        let size ← readU32 mem (curr + 4)
        if TagType.ofCode type = .endTag then return (size == 8 && endAddr - curr ≥ 8, st)
        if size < 8 ∨ size > (endAddr - curr) % 2 ^ 32 then return (false, st)
        let st ← handleTag mem (TagType.ofCode type) curr size st
        if size > uint32Max - 7 then return (false, st)
        if uint64Max - curr < alignedTagSize size then return (false, st)
        tagLoop endAddr left (curr + alignedTagSize size) st
    else some (false, st)

/-- `BootInformation::parse`: the return value is the `valid` field of the result. -/
def parse (magic infoAddr : Nat) : Option BootInformation := do
  if magic ≠ multiboot2BootloaderMagic then return .zeroed
  if infoAddr = 0 ∨ infoAddr &&& 0x07 ≠ 0 then return .zeroed
  let totalSize ← readU32 mem infoAddr
  if totalSize < 16 ∨ totalSize > maxReasonableInfoSize then return .zeroed
  if uint64Max - infoAddr < totalSize then return .zeroed
  let paddr := if infoAddr ≥ kernelVirtualBase then infoAddr - kernelVirtualBase else infoAddr
  let info := { BootInformation.zeroed with mb2InfoPaddr := paddr, mb2InfoTotalSize := totalSize }
  let (found, st) ← tagLoop mem (infoAddr + totalSize) totalSize (infoAddr + 8) { info := info }
  return { st.info with valid := found }

end Tags

end LlamaOS.Boot
