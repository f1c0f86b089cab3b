import LlamaOS.Shared.Logged
import LlamaOS.Shared.PackedFields
import LlamaOS.Storage.BlockDevice

/-!
# The GUID partition table

`storage/gpt.cpp`: the check of a header with its entry array, and the registration of the
partitions of a disk. An array in memory is a buffer without an end; each access to it is
recorded with the place the code reads. Names and log messages are left out.
-/

namespace LlamaOS.Storage
open ByteBuffer PackedFields

def crcBit (crc : BitVec 32) : BitVec 32 :=
  if crc &&& 1 ≠ 0 then (crc >>> 1) ^^^ 0xEDB88320#32 else crc >>> 1

def crcByte (crc : BitVec 32) (b : BitVec 8) : BitVec 32 :=
  Nat.repeat crcBit 8 (crc ^^^ b.setWidth 32)

/-- `k x`, with `x` computed before `k` is entered. -/
def strictly {w : Nat} {α : Type} (x : BitVec w) (k : BitVec w → α) : α :=
  match x.toNat with
  | 0 => k 0
  | n + 1 => k (.ofNat w (n + 1))

def crcLoop : List (BitVec 8) → BitVec 32 → BitVec 32
  | [], crc => crc
  | b :: data, crc => strictly (crcByte crc b) (crcLoop data)

def calculateCrc32 (data : List (BitVec 8)) (seed : BitVec 32) : BitVec 32 :=
  ~~~(crcLoop data (~~~seed))

structure GptHeader where
  signature : BitVec 64
  revision : BitVec 32
  headerSize : BitVec 32
  headerCrc32 : BitVec 32
  reserved0 : BitVec 32
  myLba : BitVec 64
  alternateLba : BitVec 64
  firstUsableLba : BitVec 64
  lastUsableLba : BitVec 64
  diskGuid : PartitionGuid
  partitionEntryLba : BitVec 64
  numberOfPartitionEntries : BitVec 32
  sizeOfPartitionEntry : BitVec 32
  partitionEntryArrayCrc32 : BitVec 32
  deriving DecidableEq

namespace GptHeader

def widths : List Nat := [8, 4, 4, 4, 4, 8, 8, 8, 8, 16, 8, 4, 4, 4]

def fields (h : GptHeader) : List Nat :=
  [h.signature.toNat, h.revision.toNat, h.headerSize.toNat, h.headerCrc32.toNat, h.reserved0.toNat,
    h.myLba.toNat,
    h.alternateLba.toNat, h.firstUsableLba.toNat, h.lastUsableLba.toNat, h.diskGuid.toNat,
      h.partitionEntryLba.toNat,
    h.numberOfPartitionEntries.toNat, h.sizeOfPartitionEntry.toNat,
      h.partitionEntryArrayCrc32.toNat]

def bytes (h : GptHeader) : List (BitVec 8) := pack widths h.fields

def load (buf : Buffer) (pos : Nat) : GptHeader where
  signature := .ofNat 64 (loadLe buf pos 8)
  revision := .ofNat 32 (loadLe buf (pos + 8) 4)
  headerSize := .ofNat 32 (loadLe buf (pos + 12) 4)
  headerCrc32 := .ofNat 32 (loadLe buf (pos + 16) 4)
  reserved0 := .ofNat 32 (loadLe buf (pos + 20) 4)
  myLba := .ofNat 64 (loadLe buf (pos + 24) 8)
  alternateLba := .ofNat 64 (loadLe buf (pos + 32) 8)
  firstUsableLba := .ofNat 64 (loadLe buf (pos + 40) 8)
  lastUsableLba := .ofNat 64 (loadLe buf (pos + 48) 8)
  diskGuid := .ofNat 128 (loadLe buf (pos + 56) 16)
  partitionEntryLba := .ofNat 64 (loadLe buf (pos + 72) 8)
  numberOfPartitionEntries := .ofNat 32 (loadLe buf (pos + 80) 4)
  sizeOfPartitionEntry := .ofNat 32 (loadLe buf (pos + 84) 4)
  partitionEntryArrayCrc32 := .ofNat 32 (loadLe buf (pos + 88) 4)

end GptHeader

structure GptEntry where
  typeGuid : PartitionGuid
  uniquePartitionGuid : PartitionGuid
  startingLba : BitVec 64
  endingLba : BitVec 64
  attributes : BitVec 64
  partitionName : BitVec (8 * 72)
  deriving DecidableEq

namespace GptEntry

def size : Nat := 128

def widths : List Nat := [16, 16, 8, 8, 8, 72]

def fields (e : GptEntry) : List Nat :=
  [e.typeGuid.toNat, e.uniquePartitionGuid.toNat, e.startingLba.toNat, e.endingLba.toNat,
    e.attributes.toNat, e.partitionName.toNat]

def bytes (e : GptEntry) : List (BitVec 8) := pack widths e.fields

def load (buf : Buffer) (pos : Nat) : GptEntry where
  typeGuid := .ofNat 128 (loadLe buf pos 16)
  uniquePartitionGuid := .ofNat 128 (loadLe buf (pos + 16) 16)
  startingLba := .ofNat 64 (loadLe buf (pos + 32) 8)
  endingLba := .ofNat 64 (loadLe buf (pos + 40) 8)
  attributes := .ofNat 64 (loadLe buf (pos + 48) 8)
  partitionName := .ofNat (8 * 72) (loadLe buf (pos + 56) 72)

def isUsed (e : GptEntry) : Bool := !e.typeGuid.isNull

end GptEntry

inductive GptStatus where
  | success
  | ioError
  | invalidSignature
  | invalidHeaderCrc
  | invalidArrayCrc
  | invalidUsableRange
  | invalidEntrySize
  | overlappingPartitions
  | partitionOutOfBounds
  | noPartitionsFound
  deriving DecidableEq, Repr

namespace GptParser

/-- "EFI PART" -/
def signature : BitVec 64 := 0x5452415020494645

def maxParsedPartitions : Nat := 16

/-- An access to the entry array: the checksum over its first bytes, or the structure taken for
the entry of an index. -/
inductive Access where
  | crc (length : Nat)
  | entry (index offset : Nat)
  deriving DecidableEq, Repr

/-- `entries[i]` of a `GptEntry*` -/
def entryAt (entries : Buffer) (i : Nat) : GptEntry := .load entries (GptEntry.size * i)

def readEntry (entries : Buffer) (i : Nat) : Logged Access GptEntry :=
  .record (.entry i (GptEntry.size * i)) (entryAt entries i)

/-- The inner loop of `validate_gpt` from index `j` on. -/
def overlapsEarlier (entries : Buffer) (e1 : GptEntry) : Nat → Nat → Logged Access Bool
  | _, 0 => pure false
  | j, left + 1 => do
    let e2 ← readEntry entries j
    if e2.typeGuid.isNull then overlapsEarlier entries e1 (j + 1) left
    else if !(e1.endingLba < e2.startingLba || e2.endingLba < e1.startingLba) then pure true
    else overlapsEarlier entries e1 (j + 1) left

/-- The loop of `validate_gpt` over the entries from index `i` on. -/
def checkEntries (header : GptHeader) (entries : Buffer) : Nat → Nat → Logged Access GptStatus
  | _, 0 => pure .success
  | i, left + 1 => do
    let e1 ← readEntry entries i
    if e1.typeGuid.isNull then checkEntries header entries (i + 1) left
    else if e1.endingLba < e1.startingLba then pure .partitionOutOfBounds
    else if e1.startingLba < header.firstUsableLba || header.lastUsableLba < e1.endingLba then
      pure .partitionOutOfBounds
    else do
      let overlap ← overlapsEarlier entries e1 0 i
      if overlap then pure .overlappingPartitions else checkEntries header entries (i + 1) left

/-- The checksum of a header. The code takes it over `header_size` bytes from a copy of 92 bytes
on; what follows the copy in memory is `stack`. -/
def headerCrc (stack : Buffer) (header : GptHeader) : BitVec 32 :=
  calculateCrc32
    ({ header with headerCrc32 := 0 }.bytes ++ slice stack 0 (header.headerSize.toNat - 92)) 0

def validateGpt (stack : Buffer) (header : GptHeader) (entries : Option Buffer) (entryCount : Nat)
    (diskTotalSectors : BitVec 64) : Logged Access GptStatus :=
  if header.signature ≠ signature then pure .invalidSignature
  else if header.headerSize < 92 || 512 < header.headerSize then pure .invalidHeaderCrc
  else if headerCrc stack header ≠ header.headerCrc32 then pure .invalidHeaderCrc
  else if header.lastUsableLba < header.firstUsableLba ||
      (0 < diskTotalSectors && diskTotalSectors ≤ header.lastUsableLba) then
        pure .invalidUsableRange
  else if header.sizeOfPartitionEntry < 128 || 1024 < header.numberOfPartitionEntries then
    pure .invalidEntrySize
  else match entries with
    | none => pure .success
    | some entries =>
      if entryCount < header.numberOfPartitionEntries.toNat then pure .success
      else do
        let arrayBytes := (header.numberOfPartitionEntries * header.sizeOfPartitionEntry).toNat
        let computed ← Logged.record (.crc arrayBytes)
          (calculateCrc32 (slice entries 0 arrayBytes) 0)
        if computed ≠ header.partitionEntryArrayCrc32 then pure .invalidArrayCrc
        else checkEntries header entries 0 header.numberOfPartitionEntries.toNat

def partitionOf (disk : BlockDevice) (i : Nat) (entry : GptEntry) : Partition :=
  ⟨some disk, i + 1, entry.startingLba, entry.endingLba - entry.startingLba + 1, entry.typeGuid,
    entry.uniquePartitionGuid⟩

/-- The registration loop from index `i` on, with `partitionCount` partitions in the table. -/
def registerEntries (disk : BlockDevice) (entries : Buffer) :
    Nat → Nat → Nat → Logged Access (List Partition)
  | _, _, 0 => pure []
  | partitionCount, i, left + 1 =>
    if maxParsedPartitions ≤ partitionCount then pure []
    else do
      let entry ← readEntry entries i
      if entry.typeGuid.isNull then registerEntries disk entries partitionCount (i + 1) left
      else do
        let rest ← registerEntries disk entries (partitionCount + 1) (i + 1) left
        pure (partitionOf disk i entry :: rest)

/-- `kmalloc` of an allocator that otherwise answers `alloc`. -/
def kmalloc (alloc : Nat → Option Buffer) (size : Nat) : Option Buffer :=
  if size = 0 then none else alloc size

/-- The sectors `parse_and_register` reads for the entry array, in 32-bit arithmetic. -/
def entrySectors (header : GptHeader) : BitVec 32 :=
  .ofNat 32 (((header.numberOfPartitionEntries * header.sizeOfPartitionEntry).toNat + 511) / 512)

/-- The memory from the array's buffer on, after the read. -/
def arrayMemory (header : GptHeader) (data heap : Buffer) : Buffer :=
  fun i => if i < (entrySectors header).toNat * 512 then data i else heap i

/-- The status and the partitions that were added to a table with `partitionCount` of them. -/
def parseAndRegister (stack : Buffer) (alloc : Nat → Option Buffer) (disk : BlockDevice)
    (partitionCount : Nat) : Logged Access (GptStatus × List Partition) :=
  match disk.readSectors 1 1 with
  | .error _ => pure (.ioError, [])
  | .ok sectorBuf =>
    let header := GptHeader.load sectorBuf 0
    if header.signature ≠ signature then pure (.invalidSignature, [])
    else if header.numberOfPartitionEntries = 0 || header.sizeOfPartitionEntry < 128 ||
        256 < header.numberOfPartitionEntries then pure (.invalidEntrySize, [])
    else match kmalloc alloc (entrySectors header * 512).toNat with
      | none => pure (.ioError, [])
      | some heap => match disk.readSectors header.partitionEntryLba (entrySectors header) with
        | .error _ => pure (.ioError, [])
        | .ok data => do
          let entries := arrayMemory header data heap
          let status ← validateGpt stack header (some entries) header.numberOfPartitionEntries.toNat
            disk.totalSectors
          if status ≠ .success then pure (status, [])
          else do
            let registered ← registerEntries disk entries partitionCount 0
              header.numberOfPartitionEntries.toNat
            pure (if 0 < registered.length then .success else .noPartitionsFound, registered)

end GptParser

namespace GptEntry

theorem record : Record 128 widths fields load := by
  refine ⟨rfl, fun {e e'} heq => ?_, fun e => ?_, fun buf pos => ?_⟩
  · cases e
    cases e'
    simp only [fields, List.cons.injEq, BitVec.toNat_inj, and_true] at heq
    simp only [mk.injEq]
    exact heq
  · simp only [Fits, widths, fields, and_true]
    exact ⟨e.typeGuid.isLt, e.uniquePartitionGuid.isLt, e.startingLba.isLt, e.endingLba.isLt,
      e.attributes.isLt, toNat_lt_byte_pow e.partitionName⟩
  · simp only [fields, load, widths, unpack, BitVec.toNat_ofNat, Nat.add_assoc,
      Nat.reduceAdd, loadLe_mod]

end GptEntry

end LlamaOS.Storage
