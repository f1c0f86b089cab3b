import LlamaOS.Memory.Types
import LlamaOS.Storage.BlockDevice

/-!
# The FAT32 driver

Clusters, the file allocation table and the reading and writing of files. A block device
and the kernel heap may refuse any of their calls. The lock of the file system is left out.
-/

namespace LlamaOS.Fs
open ByteBuffer

inductive DeviceOp where
  | read (lba count : Nat)
  | write (lba count : Nat)
  | flush
deriving DecidableEq

/-- What a device refuses: transfers that `validate_bounds` rejects, and operation `n` if
`fails n`. -/
structure DeviceLimits where
  totalSectors : BitVec 64
  isReadOnly : Bool := false
  fails : Nat → Bool := fun _ => false

/-- The contents by byte address and the operations that were asked for so far. -/
structure BlockDevice extends DeviceLimits where
  bytes : Buffer
  log : List DeviceOp := []

namespace BlockDevice

def record (d : BlockDevice) (op : DeviceOp) : BlockDevice := { d with log := d.log ++ [op] }

def refuses (d : BlockDevice) (lba count : Nat) (write : Bool) : Bool :=
  !Storage.validateBounds d.totalSectors d.isReadOnly (BitVec.ofNat 64 lba)
    (BitVec.ofNat 32 count) true write || d.fails d.log.length

def readSectors (d : BlockDevice) (lba count : Nat) : Option Buffer × BlockDevice :=
  (if d.refuses lba count false then none else some fun i => d.bytes (lba * 512 + i),
    d.record (.read lba count))

def writeSectors (d : BlockDevice) (lba count : Nat) (src : Buffer) : Bool × BlockDevice :=
  let d' := d.record (.write lba count)
  if d.refuses lba count true then (false, d')
  else (true, { d' with
    bytes := fun a => if lba * 512 ≤ a ∧ a < (lba + count) * 512 then src (a - lba * 512)
    else d.bytes a })

def flush (d : BlockDevice) : BlockDevice := d.record .flush

section Bounds

variable {d : BlockDevice} {lba count : Nat} {write : Bool}

theorem refuses_of_inside (hio : ∀ n, d.fails n = false)
    (hallowed : (write && d.isReadOnly) = false) (hcount : count < 2 ^ 32)
    (hinside : lba + count ≤ d.totalSectors.toNat) : d.refuses lba count write = false := by
  have hlba : lba < 2 ^ 64 := by omega
  rw [refuses, hio, Bool.or_false, Bool.not_eq_false']
  by_cases hzero : BitVec.ofNat 32 count = 0
  · rw [hzero]
    rfl
  · rw [Storage.validateBounds_iff _ _ _ hzero, BitVec.toNat_ofNat, BitVec.toNat_ofNat,
      Nat.mod_eq_of_lt hlba, Nat.mod_eq_of_lt hcount]
    exact ⟨hallowed, hinside⟩

theorem refuses_of_beyond (hpos : 0 < count) (hcount : count < 2 ^ 32) (hlba : lba < 2 ^ 64)
    (hbeyond : d.totalSectors.toNat < lba + count) : d.refuses lba count write = true := by
  have hnonzero : BitVec.ofNat 32 count ≠ 0 := by
    intro hzero
    have hnat := congrArg BitVec.toNat hzero
    rw [BitVec.toNat_ofNat, Nat.mod_eq_of_lt hcount] at hnat
    exact absurd hnat (Nat.ne_of_gt hpos)
  have hrejected : ¬ Storage.validateBounds d.totalSectors d.isReadOnly (BitVec.ofNat 64 lba)
      (BitVec.ofNat 32 count) true write = true := by
    rw [Storage.validateBounds_iff _ _ _ hnonzero, BitVec.toNat_ofNat, BitVec.toNat_ofNat,
      Nat.mod_eq_of_lt hlba, Nat.mod_eq_of_lt hcount]
    exact fun h => absurd h.2 (Nat.not_le_of_lt hbeyond)
  rw [refuses, Bool.eq_false_of_not_eq_true hrejected]
  rfl

end Bounds

end BlockDevice

/-- What `kmalloc` returns: nothing, or a block with arbitrary contents. -/
structure KernelHeap where
  grants : Nat → Option Buffer := fun _ => some fun _ => 0
  calls : Nat := 0

abbrev fat32EocMin : Nat := 0x0FFFFFF8
abbrev fat32BadCluster : Nat := 0x0FFFFFF7

/-- The fields of the BPB that the driver uses after `mount`, and what `mount` derives from them. -/
structure Geometry where
  bytesPerSector : Nat
  sectorsPerCluster : Nat
  numFats : Nat
  tableSize32 : Nat
  fatBeginLba : Nat
  clusterBeginLba : Nat
  totalClusters : Nat
deriving DecidableEq

def Geometry.bytesPerCluster (g : Geometry) : Nat := g.sectorsPerCluster * g.bytesPerSector

def Geometry.clusterToLba (g : Geometry) (cluster : Nat) : Nat :=
  if cluster < 2 then g.clusterBeginLba else g.clusterBeginLba + (cluster - 2) * g.sectorsPerCluster

inductive NodeType where
  | unknown
  | file
  | directory
  | blockDevice
  | characterDevice
deriving DecidableEq

/-- A vnode that belongs to the file system at hand. -/
structure Fat32VNode where
  type : NodeType
  firstCluster : Nat
  fileSize : Nat
  dirCluster : Nat := 0
  dirOffset : Nat := 0
deriving DecidableEq

structure Fat32Filesystem where
  geo : Geometry
  mounted : Bool
  dev : BlockDevice
  heap : KernelHeap := {}

namespace Fat32Filesystem

def kmalloc (fs : Fat32Filesystem) : Option Buffer × Fat32Filesystem :=
  (fs.heap.grants fs.heap.calls, { fs with heap := { fs.heap with calls := fs.heap.calls + 1 } })

def readFatEntry (fs : Fat32Filesystem) (cluster : Nat) : Nat × Fat32Filesystem :=
  if !fs.mounted then (fat32BadCluster, fs)
  else
    let fatOffset := cluster * 4
    let fatSector := fs.geo.fatBeginLba + fatOffset / 512
    let entOffset := fatOffset % 512
    match fs.dev.readSectors fatSector 1 with
    | (none, dev) => (fat32BadCluster, { fs with dev })
    | (some buf, dev) => (loadLe buf entOffset 4 &&& 0x0FFFFFFF, { fs with dev })

/-- The loop of `write_fat_entry` over the remaining copies of the table. -/
def writeFatCopies (sectorOffset entOffset value : Nat) :
    List Nat → Fat32Filesystem → Int × Fat32Filesystem
  | [], fs => (0, fs)
  | f :: rest, fs =>
    let fatSector := fs.geo.fatBeginLba + f * fs.geo.tableSize32 + sectorOffset
    match fs.dev.readSectors fatSector 1 with
    | (none, dev) => (-2, { fs with dev })
    | (some buf, dev) =>
      let orig := loadLe buf entOffset 4
      let orig := (orig &&& 0xF0000000) ||| (value &&& 0x0FFFFFFF)
      match dev.writeSectors fatSector 1 (patch buf entOffset (leBytes 4 orig)) with
      | (false, dev) => (-3, { fs with dev })
      | (true, dev) => writeFatCopies sectorOffset entOffset value rest { fs with dev }

def writeFatEntry (fs : Fat32Filesystem) (cluster value : Nat) : Int × Fat32Filesystem :=
  if !fs.mounted then (-1, fs)
  else
    let fatOffset := cluster * 4
    writeFatCopies (fatOffset / 512) (fatOffset % 512) value (List.range fs.geo.numFats) fs

def readCluster (fs : Fat32Filesystem) (cluster : Nat) : Option Buffer × Fat32Filesystem :=
  if !fs.mounted ∨ cluster < 2 then (none, fs)
  else
    let (buf, dev) := fs.dev.readSectors (fs.geo.clusterToLba cluster) fs.geo.sectorsPerCluster
    (buf, { fs with dev })

/-- `false` stands for -1. -/
def writeCluster (fs : Fat32Filesystem) (cluster : Nat) (src : Buffer) : Bool × Fat32Filesystem :=
  if !fs.mounted ∨ cluster < 2 then (false, fs)
  else
    let (done, dev) :=
      fs.dev.writeSectors (fs.geo.clusterToLba cluster) fs.geo.sectorsPerCluster src
    (done, { fs with dev })

/-- What `alloc_cluster` does with the free cluster it has found. -/
def claimCluster (fs : Fat32Filesystem) (prevCluster c : Nat) : Fat32Filesystem :=
  let fs := (fs.writeFatEntry c 0x0FFFFFFF).2
  let fs := if prevCluster ≥ 2 then (fs.writeFatEntry prevCluster c).2 else fs
  match fs.kmalloc with
  | (none, fs) => fs
  | (some _, fs) => (fs.writeCluster c fun _ => 0).2

/-- The search of `alloc_cluster` over the `left` clusters from `c` on. -/
def allocScan (prevCluster : Nat) : Nat → Nat → Fat32Filesystem → Nat × Fat32Filesystem
  | 0, _, fs => (0, fs)
  | left + 1, c, fs =>
    let (entry, fs) := fs.readFatEntry c
    if entry = 0 then (c, fs.claimCluster prevCluster c) else allocScan prevCluster left (c + 1) fs

def allocCluster (fs : Fat32Filesystem) (prevCluster : Nat) : Nat × Fat32Filesystem :=
  allocScan prevCluster ((fs.geo.totalClusters + 2) % 2 ^ 32 - 2) 2 fs

/-- Stores the size and the first cluster of a file in its directory entry. -/
def updateDirEntry (fs : Fat32Filesystem) (node : Fat32VNode) (newSize newFirstCluster : Nat) :
    Fat32VNode × Fat32Filesystem :=
  if node.dirCluster < 2 then (node, fs)
  else
    let node := { node with fileSize := newSize, firstCluster := newFirstCluster }
    match fs.kmalloc with
    | (none, fs) => (node, fs)
    | (some _, fs) =>
      match fs.readCluster node.dirCluster with
      | (none, fs) => (node, fs)
      | (some buf, fs) =>
        let buf := patch buf (node.dirOffset + 28) (leBytes 4 newSize)
        let buf := patch buf (node.dirOffset + 26) (leBytes 2 (newFirstCluster % 2 ^ 16))
        let buf := patch buf (node.dirOffset + 20) (leBytes 2 (newFirstCluster / 2 ^ 16 % 2 ^ 16))
        let fs := (fs.writeCluster node.dirCluster buf).2
        (node, { fs with dev := fs.dev.flush })

/-- The walk of `read` to the cluster of the offset. -/
def readSeek : Nat → Nat → Nat → Fat32Filesystem → Nat × Nat × Fat32Filesystem
  | 0, curr, hops, fs => (curr, hops, fs)
  | left + 1, curr, hops, fs =>
    if curr ≥ 2 ∧ curr < fat32EocMin then
      if hops + 1 > fs.geo.totalClusters then (fat32EocMin, hops + 1, fs)
      else
        let (next, fs) := fs.readFatEntry curr
        readSeek left next (hops + 1) fs
    else (curr, hops, fs)

/-- The reading loop; every turn takes at least one byte, so `fuel` is the number of bytes. -/
def readLoop : (fuel curr bytesToRead offsetInCluster hops : Nat) → Fat32Filesystem →
    List (BitVec 8) × Fat32Filesystem
  | 0, _, _, _, _, fs => ([], fs)
  | fuel + 1, curr, bytesToRead, offsetInCluster, hops, fs =>
    if bytesToRead > 0 ∧ curr ≥ 2 ∧ curr < fat32EocMin then
      match fs.readCluster curr with
      | (none, fs) => ([], fs)
      | (some buf, fs) =>
        let chunk := fs.geo.bytesPerCluster - offsetInCluster
        let chunk := if chunk > bytesToRead then bytesToRead else chunk
        let bytes := slice buf offsetInCluster chunk
        if hops + 1 > fs.geo.totalClusters then (bytes, fs)
        else
          let (next, fs) := fs.readFatEntry curr
          let (rest, fs) := readLoop fuel next (bytesToRead - chunk) 0 (hops + 1) fs
          (bytes ++ rest, fs)
    else ([], fs)

/-- The result and the bytes stored at `dst`. -/
def read (fs : Fat32Filesystem) (node : Fat32VNode) (offset count : Nat) :
    Int × List (BitVec 8) × Fat32Filesystem :=
  if node.type ≠ .file then (-1, [], fs)
  else if offset ≥ node.fileSize ∨ count = 0 then (0, [], fs)
  else
    let bpc := fs.geo.bytesPerCluster
    match fs.kmalloc with
    | (none, fs) => (-1, [], fs)
    | (some _, fs) =>
      let bytesToRead := if add64 offset count > node.fileSize then node.fileSize - offset
      else count
      let (curr, hops, fs) := readSeek (offset / bpc % 2 ^ 32) node.firstCluster 0 fs
      let (bytes, fs) := readLoop bytesToRead curr bytesToRead (offset % bpc) hops fs
      (bytes.length, bytes, fs)

/-- The cluster after `curr`, allocated if there is none; below 2 where that fails. -/
def nextOrAlloc (fs : Fat32Filesystem) (curr : Nat) : Nat × Fat32Filesystem :=
  let (next, fs) := fs.readFatEntry curr
  if next ≥ fat32EocMin ∨ next < 2 then fs.allocCluster curr else (next, fs)

/-- The walk of `write` to the cluster of the offset; `none` where it fails. -/
def writeSeek : Nat → Nat → Nat → Fat32Filesystem → Option Nat × Fat32Filesystem
  | 0, curr, _, fs => (some curr, fs)
  | left + 1, curr, hops, fs =>
    if hops + 1 > fs.geo.totalClusters then (none, fs)
    else
      let (next, fs) := fs.nextOrAlloc curr
      if next < 2 then (none, fs) else writeSeek left next (hops + 1) fs

/-- The cluster buffer before a partial write. -/
def fillBuffer (fs : Fat32Filesystem) (curr offsetInCluster bytesToWrite : Nat) (buf : Buffer) :
    Buffer × Fat32Filesystem :=
  if offsetInCluster > 0 ∨ bytesToWrite < fs.geo.bytesPerCluster then
    match fs.readCluster curr with
    | (none, fs) => (buf, fs)
    | (some buf, fs) => (buf, fs)
  else (buf, fs)

/-- The writing loop and the number of bytes it has written; every turn takes at least one byte, so
`fuel` is the number of bytes. -/
def writeLoop : (fuel curr : Nat) → List (BitVec 8) → (offsetInCluster : Nat) → Buffer →
    Fat32Filesystem → Nat × Fat32Filesystem
  | 0, _, _, _, _, fs => (0, fs)
  | fuel + 1, curr, src, offsetInCluster, buf, fs =>
    if src.length > 0 ∧ curr ≥ 2 ∧ curr < fat32EocMin then
      let (buf, fs) := fs.fillBuffer curr offsetInCluster src.length buf
      let chunk := fs.geo.bytesPerCluster - offsetInCluster
      let chunk := if chunk > src.length then src.length else chunk
      let buf := patch buf offsetInCluster (src.take chunk)
      match fs.writeCluster curr buf with
      | (false, fs) => (0, fs)
      | (true, fs) =>
        if src.length - chunk > 0 then
          let (next, fs) := fs.nextOrAlloc curr
          if next < 2 then (chunk, fs)
          else
            let (written, fs) := writeLoop fuel next (src.drop chunk) 0 buf fs
            (chunk + written, fs)
        else (chunk, fs)
    else (0, fs)

def writeChain (fs : Fat32Filesystem) (node : Fat32VNode) (offset : Nat) (src : List (BitVec 8))
    (buf : Buffer) : Int × Fat32VNode × Fat32Filesystem :=
  let bpc := fs.geo.bytesPerCluster
  match writeSeek (offset / bpc % 2 ^ 32) node.firstCluster 0 fs with
  | (none, fs) => (-1, node, fs)
  | (some curr, fs) =>
    let (totalWritten, fs) := writeLoop src.length curr src (offset % bpc) buf fs
    let newSize :=
      if add64 offset totalWritten > node.fileSize then add64 offset totalWritten % 2 ^ 32
      else node.fileSize
    let (node, fs) := fs.updateDirEntry node newSize node.firstCluster
    (totalWritten, node, fs)

/-- A null pointer is `none`; the count is the length of the source. -/
def write (fs : Fat32Filesystem) (node : Fat32VNode) (offset : Nat)
    (src : Option (List (BitVec 8))) : Int × Fat32VNode × Fat32Filesystem :=
  match src with
  | none => (-1, node, fs)
  | some src =>
    if node.type ≠ .file then (-1, node, fs)
    else if src.length = 0 then (0, node, fs)
    else
      match fs.kmalloc with
      | (none, fs) => (-1, node, fs)
      | (some buf, fs) =>
        if node.firstCluster < 2 then
          let (c, fs) := fs.allocCluster 0
          let node := { node with firstCluster := c }
          if c < 2 then (-1, node, fs) else fs.writeChain node offset src buf
        else fs.writeChain node offset src buf

end Fat32Filesystem

end LlamaOS.Fs
