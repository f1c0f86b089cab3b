import LlamaOS.Memory.PagePlacement

/-!
# The ELF loader

`ElfLoader::load` with its validation. A file is a byte string; a read outside it and
an access to a frame the direct map does not reach are faults, which end the run
without a result. Fields of the two headers that the loader never reads are left out.
-/

namespace LlamaOS.Userland
open Memory VirtualMemoryManager PageFlags

inductive ElfLoadStatus where
  | success
  | nullPointer
  | bufferTooSmall
  | invalidMagic
  | invalidClass
  | invalidDataEncoding
  | invalidMachine
  | invalidType
  | invalidVersion
  | invalidHeaderSize
  | invalidPhSize
  | phTableOutOfBounds
  | segmentOutOfBounds
  | integerOverflow
  | kernelAddressOverlap
  | nonCanonicalAddress
  | noLoadableSegments
  | entryNotExecutable
  | allocationFailed
  | mappingFailed
deriving DecidableEq

inductive Fault where
  | pageFault
  | outOfBounds (index : Nat)
deriving DecidableEq

abbrev elfHeaderSize : Nat := 64
abbrev programHeaderSize : Nat := 56
abbrev ptLoad : Nat := 1
abbrev pfX : Nat := 1
abbrev pfW : Nat := 2
abbrev userStackTopVa : Nat := 0x00007FFFFFFFE000
abbrev userStackPages : Nat := 4
abbrev userStackBottomVa : Nat := userStackTopVa - userStackPages * 4096
abbrev userStackGuardVa : Nat := userStackBottomVa - 4096

def fileByte (file : List (BitVec 8)) (index : Nat) : Except Fault (BitVec 8) :=
  match file[index]? with
  | some b => .ok b
  | none => .error (.outOfBounds index)

def readLe (file : List (BitVec 8)) (offset : Nat) : Nat → Except Fault Nat
  | 0 => .ok 0
  | width + 1 => do
    let low ← fileByte file offset
    let high ← readLe file (offset + 1) width
    return low.toNat + 256 * high

structure Elf64Header where
  ident : List Nat
  type : Nat
  machine : Nat
  version : Nat
  entry : Nat
  phoff : Nat
  ehsize : Nat
  phentsize : Nat
  phnum : Nat
deriving DecidableEq

structure Elf64ProgramHeader where
  type : Nat
  flags : Nat
  offset : Nat
  vaddr : Nat
  filesz : Nat
  memsz : Nat
deriving DecidableEq

def readHeader (file : List (BitVec 8)) : Except Fault Elf64Header := do
  let ident ← (List.range 7).mapM fun i => readLe file i 1
  let type ← readLe file 16 2
  let machine ← readLe file 18 2
  let version ← readLe file 20 4
  let entry ← readLe file 24 8
  let phoff ← readLe file 32 8
  let ehsize ← readLe file 52 2
  let phentsize ← readLe file 54 2
  let phnum ← readLe file 56 2
  return { ident, type, machine, version, entry, phoff, ehsize, phentsize, phnum }

def readProgramHeader (file : List (BitVec 8)) (header : Elf64Header) (i : Nat) :
    Except Fault Elf64ProgramHeader := do
  let base := header.phoff + i * programHeaderSize
  let type ← readLe file base 4
  let flags ← readLe file (base + 4) 4
  let offset ← readLe file (base + 8) 8
  let vaddr ← readLe file (base + 16) 8
  let filesz ← readLe file (base + 32) 8
  let memsz ← readLe file (base + 40) 8
  return { type, flags, offset, vaddr, filesz, memsz }

/-- The checks of `validate_header` on the header's fields. -/
def checkHeader (header : Elf64Header) (fileSize : Nat) : ElfLoadStatus :=
  if header.ident.take 4 ≠ [0x7F, 0x45, 0x4C, 0x46] then .invalidMagic
  else if header.ident[4]? ≠ some 2 then .invalidClass
  else if header.ident[5]? ≠ some 1 then .invalidDataEncoding
  else if header.ident[6]? ≠ some 1 ∨ header.version ≠ 1 then .invalidVersion
  else if header.machine ≠ 0x3E then .invalidMachine
  else if header.type ≠ 2 then .invalidType
  else if header.ehsize ≠ elfHeaderSize then .invalidHeaderSize
  else if header.phentsize ≠ programHeaderSize then .invalidPhSize
  else if header.phnum = 0 then .noLoadableSegments
  else
    let phTableSize := header.phnum * programHeaderSize
    let phTableEnd := add64 header.phoff phTableSize
    if phTableEnd < header.phoff ∨ phTableEnd > fileSize then .phTableOutOfBounds else .success

def validateHeader (file : List (BitVec 8)) : Except Fault ElfLoadStatus := do
  if file.length < elfHeaderSize then return .bufferTooSmall
  let header ← readHeader file
  return checkHeader header file.length

/-- The checks of `validate_segments` on one loadable header. -/
def checkSegment (ph : Elf64ProgramHeader) (fileSize : Nat) : ElfLoadStatus :=
  let fileEnd := add64 ph.offset ph.filesz
  let memEnd := add64 ph.vaddr ph.memsz
  if fileEnd < ph.offset ∨ fileEnd > fileSize then .segmentOutOfBounds
  else if ph.memsz < ph.filesz then .integerOverflow
  else if memEnd < ph.vaddr then .integerOverflow
  else if ph.vaddr < 0x1000 ∨ memEnd > 0x0000800000000000 then .kernelAddressOverlap
  else .success

/-- The entry point falls into the executable segment. -/
def entersAt (ph : Elf64ProgramHeader) (entry : Nat) : Bool :=
  ph.flags &&& pfX != 0 && ph.vaddr ≤ entry && entry < add64 ph.vaddr ph.memsz

/-- The loop of `validate_segments` over the remaining header indices. -/
def scanSegments (file : List (BitVec 8)) (header : Elf64Header) :
    List Nat → Nat → Bool → Except Fault ElfLoadStatus
  | [], loadCount, entryFound =>
    if loadCount = 0 then .ok .noLoadableSegments
    else if !entryFound then .ok .entryNotExecutable
    else .ok .success
  | i :: rest, loadCount, entryFound => do
    let ph ← readProgramHeader file header i
    if ph.type ≠ ptLoad then scanSegments file header rest loadCount entryFound
    else
      let status := checkSegment ph file.length
      if status ≠ .success then return status
      scanSegments file header rest (loadCount + 1) (entryFound || entersAt ph header.entry)

def validateSegments (file : List (BitVec 8)) : Except Fault ElfLoadStatus := do
  let status ← validateHeader file
  if status ≠ .success then return status
  let header ← readHeader file
  scanSegments file header (List.range header.phnum) 0 false

structure ElfLoadResult where
  status : ElfLoadStatus := .nullPointer
  entryPoint : Nat := 0
  stackTop : Nat := 0
  pagesMapped : Nat := 0
deriving DecidableEq

/-- What ends a loop of `load` early: a fault, or a return with a status. -/
inductive Stop where
  | fault (f : Fault)
  | failed (status : ElfLoadStatus) (m : Machine)

/-- An access through the direct map. -/
def reach {α : Type} : Option α → Except Stop α
  | some a => .ok a
  | none => .error (.fault .pageFault)

def reading {α : Type} : Except Fault α → Except Stop α
  | .ok a => .ok a
  | .error f => .error (.fault f)

/-- What both loops of `load` do for a page: a zeroed frame is mapped at `va`. -/
def mapFreshPage (root va : Nat) (flags : PageFlags) (m : Machine) :
    Except Stop (Nat × Machine) := do
  let (pa, m) ← reach m.allocPage
  if pa = 0 then throw (.failed .allocationFailed m)
  let m ← reach (m.fill pa 0 512 fun _ => .clear)
  let (status, m) ← reach (mapPageInTable m root va pa flags)
  if status ≠ .success then throw (.failed .mappingFailed m)
  return (pa, m)

/-- `memcpy` from the file to the frame at `pa`. -/
def copyBytes (file : List (BitVec 8)) (pa pageOffset fileOffset copyLen : Nat) (m : Machine) :
    Except Stop Machine := do
  if copyLen ≠ 0 ∧ m.canAccess pa = false then throw (.fault .pageFault)
  (List.range copyLen).foldlM (fun m i => do
    let b ← reading (fileByte file (fileOffset + i))
    return m.storeByte (pa + pageOffset + i) b) m

/-- The file-backed part of the page at `va`. -/
def copyPayload (file : List (BitVec 8)) (ph : Elf64ProgramHeader) (va pa : Nat) (m : Machine) :
    Except Stop Machine :=
  let pageMin := va
  let pageMax := add64 va pageSize
  let fileStart := ph.vaddr
  let fileEnd := add64 ph.vaddr ph.filesz
  if pageMax > fileStart ∧ pageMin < fileEnd then
    let copyStart := if pageMin < fileStart then fileStart else pageMin
    let copyEnd := if pageMax > fileEnd then fileEnd else pageMax
    copyBytes file pa (copyStart - pageMin) (add64 ph.offset (copyStart - fileStart))
      (copyEnd - copyStart) m
  else .ok m

def segmentFlags (ph : Elf64ProgramHeader) : PageFlags :=
  present ||| user |||
    (if ph.flags &&& pfW ≠ 0 then writable else 0) |||
    (if ph.flags &&& pfX = 0 then noExecute else 0)

def stackFlags : PageFlags :=
  present ||| user ||| writable ||| noExecute

/-- `for (va_val = page_start; va_val < page_end; va_val += PAGE_SIZE)`. -/
def segmentPages (ph : Elf64ProgramHeader) : List Nat :=
  let pageStart := ph.vaddr &&& (2 ^ 64 - pageSize)
  let pageEnd := roundUpMask (add64 ph.vaddr ph.memsz)
  (List.range ((pageEnd - pageStart) / pageSize)).map fun k => pageStart + k * pageSize

def loadSegment (file : List (BitVec 8)) (root : Nat) (ph : Elf64ProgramHeader)
    (acc : Nat × Machine) : Except Stop (Nat × Machine) :=
  (segmentPages ph).foldlM (fun (total, m) va => do
    let (pa, m) ← mapFreshPage root va (segmentFlags ph) m
    let m ← copyPayload file ph va pa m
    return (total + 1, m)) acc

def loadStack (root : Nat) (acc : Nat × Machine) : Except Stop (Nat × Machine) :=
  (List.range userStackPages).foldlM (fun (total, m) p => do
    let (_, m) ← mapFreshPage root (userStackBottomVa + p * pageSize) stackFlags m
    return (total + 1, m)) acc

/-- `load` once the file is accepted. -/
def loadImage (file : List (BitVec 8)) (root : Nat) (m : Machine) :
    Except Stop (ElfLoadResult × Machine) := do
  let header ← reading (readHeader file)
  let (total, m) ← (List.range header.phnum).foldlM (fun acc i => do
    let ph ← reading (readProgramHeader file header i)
    if ph.type ≠ ptLoad then return acc
    loadSegment file root ph acc) (0, m)
  let (total, m) ← loadStack root (total, m)
  return (⟨.success, header.entry, userStackTopVa, total⟩, m)

/-- A null pointer is `none`. -/
def load (elfData : Option (List (BitVec 8))) (pml4Pa : Nat) (m : Machine) :
    Except Fault (ElfLoadResult × Machine) :=
  match elfData with
  | none => .ok ({ status := .nullPointer }, m)
  | some file => do
    let target := if PhysicalAddress.isNull pml4Pa then m.vmm.rootPml4Paddr else pml4Pa
    let status ← validateSegments file
    if status ≠ .success then return ({ status := status }, m)
    match loadImage file target m with
    | .ok result => return result
    | .error (.failed status m) => return ({ status := status }, m)
    | .error (.fault f) => throw f

end LlamaOS.Userland
