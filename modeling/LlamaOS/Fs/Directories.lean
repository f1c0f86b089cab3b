import LlamaOS.Fs.Fat32
import LlamaOS.Fs.Paths

/-!
# Directories

The directory operations of `Fat32VNode`, the pool of vnodes and `mount`. The loops over the
clusters of a directory have no hop limit; they run on fuel and `none` stands for a call that
has not returned.
-/

namespace LlamaOS.Fs
open ByteBuffer

abbrev fatAttrVolumeId : BitVec 8 := 0x08
abbrev fatAttrDirectory : BitVec 8 := 0x10
abbrev fatAttrArchive : BitVec 8 := 0x20
abbrev fatAttrLfn : BitVec 8 := 0x0F
abbrev maxCachedVnodes : Nat := 64

def entryFileSize (dir : Buffer) (off : Nat) : Nat := loadLe dir (off + 28) 4

/-- The first cluster, from its two halves. -/
def entryFirstCluster (dir : Buffer) (off : Nat) : Nat :=
  loadLe dir (off + 20) 2 * 2 ^ 16 + loadLe dir (off + 26) 2

def entryName (dir : Buffer) (off : Nat) : List (BitVec 8) := slice dir off 11

def entryAttr (dir : Buffer) (off : Nat) : BitVec 8 := dir (off + 11)

def entryType (dir : Buffer) (off : Nat) : NodeType :=
  if entryAttr dir off &&& fatAttrDirectory ≠ 0 then .directory else .file

/-- What `lookup` and `readdir` take an entry for. -/
inductive EntryKind where
  | endMark
  | deleted
  | longName
  | volumeId
  | live
deriving DecidableEq

def entryKind (dir : Buffer) (off : Nat) : EntryKind :=
  if dir off = 0x00 then .endMark
  else if dir off = 0xE5 then .deleted
  else if entryAttr dir off &&& fatAttrLfn = fatAttrLfn then .longName
  else if entryAttr dir off &&& fatAttrVolumeId ≠ 0 then .volumeId
  else .live

def newEntry (dir : Buffer) (off : Nat) (name83 : List (BitVec 8)) (attr : BitVec 8) (first : Nat) :
    Buffer :=
  let dir := patch dir off name83
  let dir := patch dir (off + 11) [attr]
  let dir := patch dir (off + 28) (leBytes 4 0)
  let dir := patch dir (off + 26) (leBytes 2 (first % 2 ^ 16))
  patch dir (off + 20) (leBytes 2 (first / 2 ^ 16 % 2 ^ 16))

/-- The first cluster of a new directory, with `.` and `..`. -/
def dirInit (newCluster parent : Nat) : Buffer :=
  newEntry (newEntry (fun _ => 0) 0 (formatTo83 [dot]) fatAttrDirectory newCluster) dirEntrySize
    (formatTo83 [dot, dot]) fatAttrDirectory parent

/-- How the scan of a cluster ends. -/
inductive Scan (α σ : Type) where
  | endOfDirectory
  | found (a : α)
  | exhausted (lfnBuf : Buffer) (s : σ)

section Scanner

variable {α σ : Type} (visit : Buffer → σ → Nat → Buffer → α ⊕ σ)

/-- The entries from `i` on; `visit` decides about the live ones. -/
def scanEntries (dir : Buffer) : Nat → Nat → Buffer → σ → Scan α σ
  | 0, _, lfnBuf, s => .exhausted lfnBuf s
  | left + 1, i, lfnBuf, s =>
    match entryKind dir (i * dirEntrySize) with
    | .endMark => .endOfDirectory
    | .deleted => scanEntries dir left (i + 1) (patch lfnBuf 0 [0]) s
    | .longName => scanEntries dir left (i + 1) (extractLfnChars dir (i * dirEntrySize) lfnBuf) s
    | .volumeId => scanEntries dir left (i + 1) (patch lfnBuf 0 [0]) s
    | .live =>
      match visit dir s i lfnBuf with
      | .inl a => .found a
      | .inr s => scanEntries dir left (i + 1) (patch lfnBuf 0 [0]) s

/-- The clusters of the directory; the cluster of the entry comes with what was found. -/
def scanClusters :
    Nat → Nat → Buffer → σ → Fat32Filesystem → Option (Option (Nat × α) × Fat32Filesystem)
  | 0, _, _, _, _ => none
  | fuel + 1, curr, lfnBuf, s, fs =>
    if curr ≥ 2 ∧ curr < fat32EocMin then
      match fs.readCluster curr with
      | (none, fs) => some (none, fs)
      | (some dir, fs) =>
        match scanEntries visit dir (fs.geo.bytesPerCluster / dirEntrySize) 0 lfnBuf s with
        | .endOfDirectory => some (none, fs)
        | .found a => some (some (curr, a), fs)
        | .exhausted lfnBuf s =>
          let (next, fs) := fs.readFatEntry curr
          scanClusters fuel next lfnBuf s fs
    else some (none, fs)

end Scanner

structure FoundEntry where
  type : NodeType
  firstCluster : Nat
  fileSize : Nat
  dirOffset : Nat
deriving DecidableEq

/-- The long name if there is one, or the short name. -/
def entryMatches (name : CString) (dir : Buffer) (off : Nat) (lfnBuf : Buffer) : Bool :=
  (lfnBuf 0 != 0 && strcasecmpMatch name lfnBuf 0) || entryName dir off == formatTo83 name

def foundEntry (dir : Buffer) (off : Nat) : FoundEntry :=
  ⟨entryType dir off, entryFirstCluster dir off, entryFileSize dir off, off⟩

def lookupVisit (name : CString) (dir : Buffer) (_ : Unit) (i : Nat) (lfnBuf : Buffer) :
    FoundEntry ⊕ Unit :=
  if entryMatches name dir (i * dirEntrySize) lfnBuf then .inl (foundEntry dir (i * dirEntrySize))
  else .inr ()

structure DirEntry where
  name : CString
  type : NodeType
  size : Nat
  inode : Nat
deriving DecidableEq

def readdirVisit (index : Nat) (dir : Buffer) (validCount : Nat) (i : Nat) (lfnBuf : Buffer) :
    DirEntry ⊕ Nat :=
  let off := i * dirEntrySize
  if validCount = index then
    .inl {
      name := if lfnBuf 0 ≠ 0 then bufString lfnBuf 63 else formatFrom83 (entryName dir off)
      type := entryType dir off
      size := entryFileSize dir off
      inode := entryFirstCluster dir off }
  else .inr (validCount + 1)

namespace Fat32Filesystem

/-- `left` is what remains of the hop limit. -/
def freeLoop : Nat → Nat → Fat32Filesystem → Fat32Filesystem
  | 0, _, fs => fs
  | left + 1, curr, fs =>
    if curr ≥ 2 ∧ curr < fat32EocMin then
      let (next, fs) := fs.readFatEntry curr
      let fs := (fs.writeFatEntry curr 0).2
      freeLoop left next fs
    else fs

def freeClusterChain (fs : Fat32Filesystem) (startCluster : Nat) : Fat32Filesystem :=
  if startCluster < 2 then fs else freeLoop fs.geo.totalClusters startCluster fs

def truncate (fs : Fat32Filesystem) (node : Fat32VNode) (newSize : Nat) :
    Int × Fat32VNode × Fat32Filesystem :=
  if node.type ≠ .file then (-1, node, fs)
  else if newSize = 0 ∧ node.firstCluster ≥ 2 then
    let fs := fs.freeClusterChain node.firstCluster
    let node := { node with firstCluster := 0 }
    let (node, fs) := fs.updateDirEntry node (newSize % 2 ^ 32) node.firstCluster
    (0, node, fs)
  else
    let (node, fs) := fs.updateDirEntry node (newSize % 2 ^ 32) node.firstCluster
    (0, node, fs)

/-- The entry `unlink` takes in a cluster; the end mark only ends the cluster. -/
def unlinkEntries (target83 : List (BitVec 8)) (dir : Buffer) : Nat → Nat → Option Nat
  | 0, _ => none
  | left + 1, i =>
    let off := i * dirEntrySize
    if dir off = 0x00 then none
    else if dir off = 0xE5 then unlinkEntries target83 dir left (i + 1)
    else if entryAttr dir off &&& fatAttrLfn = fatAttrLfn then
      unlinkEntries target83 dir left (i + 1)
    else if entryName dir off = target83 then some i
    else unlinkEntries target83 dir left (i + 1)

def unlinkLoop (target83 : List (BitVec 8)) :
    Nat → Nat → Fat32Filesystem → Option (Int × Fat32Filesystem)
  | 0, _, _ => none
  | fuel + 1, curr, fs =>
    if curr ≥ 2 ∧ curr < fat32EocMin then
      match fs.readCluster curr with
      | (none, fs) => some (-2, fs)
      | (some dir, fs) =>
        match unlinkEntries target83 dir (fs.geo.bytesPerCluster / dirEntrySize) 0 with
        | some i =>
          let clusterToFree := entryFirstCluster dir (i * dirEntrySize)
          let fs := (fs.writeCluster curr (patch dir (i * dirEntrySize) [0xE5])).2
          let fs := { fs with dev := fs.dev.flush }
          some (0, if clusterToFree ≥ 2 then fs.freeClusterChain clusterToFree else fs)
        | none =>
          let (next, fs) := fs.readFatEntry curr
          unlinkLoop target83 fuel next fs
    else some (-2, fs)

def unlink (fuel : Nat) (fs : Fat32Filesystem) (node : Fat32VNode) (name : CString) :
    Option (Int × Fat32Filesystem) :=
  if node.type ≠ .directory then some (-1, fs)
  else
    match fs.kmalloc with
    | (none, fs) => some (-1, fs)
    | (some _, fs) => unlinkLoop (formatTo83 name) fuel node.firstCluster fs

def readdir (fuel : Nat) (fs : Fat32Filesystem) (node : Fat32VNode) (index : Nat) :
    Option (Int × Option DirEntry × Fat32Filesystem) :=
  if node.type ≠ .directory then some (-1, none, fs)
  else
    match fs.kmalloc with
    | (none, fs) => some (-1, none, fs)
    | (some _, fs) =>
      match scanClusters (readdirVisit index) fuel node.firstCluster (fun _ => 0) 0 fs with
      | none => none
      | some (none, fs) => some (-2, none, fs)
      | some (some (_, entry), fs) => some (0, some entry, fs)

end Fat32Filesystem

/-- A mounted file system with its vnodes. -/
structure Fat32Volume where
  fs : Fat32Filesystem
  vnodePool : Nat → Fat32VNode := fun _ => ⟨.unknown, 0, 0, 0, 0⟩
  vnodeInUse : Nat → Bool := fun _ => false
  vnodeCount : Nat := 0

namespace Fat32Volume

def allocVnode (v : Fat32Volume) (node : Fat32VNode) : Option Nat × Fat32Volume :=
  match (List.range maxCachedVnodes).find? fun i => !v.vnodeInUse i with
  | none => (none, v)
  | some slot =>
    (some slot, { v with
      vnodePool := fun i => if i = slot then node else v.vnodePool i
      vnodeInUse := fun i => if i = slot then true else v.vnodeInUse i
      vnodeCount := v.vnodeCount + 1 })

def lookup (fuel : Nat) (v : Fat32Volume) (node : Fat32VNode) (name : CString) :
    Option (Int × Option Nat × Fat32Volume) :=
  if node.type ≠ .directory then some (-1, none, v)
  else
    match v.fs.kmalloc with
    | (none, fs) => some (-1, none, { v with fs })
    | (some _, fs) =>
      match scanClusters (lookupVisit name) fuel node.firstCluster (fun _ => 0) () fs with
      | none => none
      | some (none, fs) => some (-2, none, { v with fs })
      | some (some (curr, e), fs) =>
        match { v with fs }.allocVnode ⟨e.type, e.firstCluster, e.fileSize, curr, e.dirOffset⟩ with
        | (none, v) => some (-3, none, v)
        | (some child, v) => some (0, some child, v)

def freeEntry (dir : Buffer) : Nat → Nat → Option Nat
  | 0, _ => none
  | left + 1, i =>
    if dir (i * dirEntrySize) = 0x00 ∨ dir (i * dirEntrySize) = 0xE5 then some i
    else freeEntry dir left (i + 1)

/-- The free entry with its cluster, or the last cluster of the directory that was read. -/
def freeSlotLoop : Nat → Nat → Nat → Fat32Filesystem →
    Option (((Nat × Nat × Buffer) ⊕ Nat) × Fat32Filesystem)
  | 0, _, _, _ => none
  | fuel + 1, curr, prev, fs =>
    if curr ≥ 2 ∧ curr < fat32EocMin then
      match fs.readCluster curr with
      | (none, fs) => some (.inr prev, fs)
      | (some dir, fs) =>
        match freeEntry dir (fs.geo.bytesPerCluster / dirEntrySize) 0 with
        | some i => some (.inl (curr, i, dir), fs)
        | none =>
          let (next, fs) := fs.readFatEntry curr
          freeSlotLoop fuel next curr fs
    else some (.inr prev, fs)

def createdAttr (type : NodeType) : BitVec 8 :=
  if type = .directory then fatAttrDirectory else fatAttrArchive

/-- The cluster of a new directory; 0 where there is none. -/
def newDirectory (fs : Fat32Filesystem) (parent : Nat) : Nat × Fat32Filesystem :=
  let (newCluster, fs) := fs.allocCluster 0
  match fs.kmalloc with
  | (none, fs) => (newCluster, fs)
  | (some _, fs) => (newCluster, (fs.writeCluster newCluster (dirInit newCluster parent)).2)

/-- The branch of `create` that has found a free entry. -/
def createAt (v : Fat32Volume) (node : Fat32VNode) (target83 : List (BitVec 8)) (type : NodeType)
    (curr i : Nat) (dir : Buffer) : Int × Option Nat × Fat32Volume :=
  let (newCluster, fs) := if type = .directory then newDirectory v.fs node.firstCluster
  else (0, v.fs)
  let fs := (fs.writeCluster curr
    (newEntry dir (i * dirEntrySize) target83 (createdAttr type) newCluster)).2
  let fs := { fs with dev := fs.dev.flush }
  let (created, v) := { v with fs }.allocVnode ⟨type, newCluster, 0, curr, i * dirEntrySize⟩
  (0, created, v)

/-- The branch of `create` that appends a cluster to the directory. -/
def createAppended (v : Fat32Volume) (target83 : List (BitVec 8)) (type : NodeType) (prev : Nat) :
    Int × Option Nat × Fat32Volume :=
  if prev ≥ 2 then
    let (newDirCluster, fs) := v.fs.allocCluster prev
    if newDirCluster ≥ 2 then
      let fs :=
        (fs.writeCluster newDirCluster (newEntry (fun _ => 0) 0 target83 (createdAttr type) 0)).2
      let fs := { fs with dev := fs.dev.flush }
      let (created, v) := { v with fs }.allocVnode ⟨type, 0, 0, newDirCluster, 0⟩
      (0, created, v)
    else (-1, none, { v with fs })
  else (-1, none, v)

def create (fuel : Nat) (v : Fat32Volume) (node : Fat32VNode) (name : CString) (type : NodeType) :
    Option (Int × Option Nat × Fat32Volume) :=
  if node.type ≠ .directory then some (-1, none, v)
  else
    match v.fs.kmalloc with
    | (none, fs) => some (-1, none, { v with fs })
    | (some _, fs) =>
      match freeSlotLoop fuel node.firstCluster 0 fs with
      | none => none
      | some (.inl (curr, i, dir), fs) =>
        some (createAt { v with fs } node (formatTo83 name) type curr i dir)
      | some (.inr prev, fs) => some (createAppended { v with fs } (formatTo83 name) type prev)

def mkdir (fuel : Nat) (v : Fat32Volume) (node : Fat32VNode) (name : CString) :
    Option (Int × Option Nat × Fat32Volume) := create fuel v node name .directory

/-- The volume and the slot of its root; `none` with the code of the failure. -/
def mount (dev : BlockDevice) (heap : KernelHeap) : Int × Option (Nat × Fat32Volume) :=
  match dev.readSectors 0 1 with
  | (none, _) => (-2, none)
  | (some sector, dev) =>
    let bytesPerSector := loadLe sector 11 2
    let sectorsPerCluster := loadLe sector 13 1
    let reservedSectorCount := loadLe sector 14 2
    let numFats := loadLe sector 16 1
    let totalSectors32 := loadLe sector 32 4
    let tableSize32 := loadLe sector 36 4
    let rootCluster := loadLe sector 44 4
    if sector 510 ≠ 0x55 ∨ sector 511 ≠ 0xAA then (-3, none)
    else if bytesPerSector ≠ 512 then (-4, none)
    else if sectorsPerCluster = 0 ∨ numFats = 0 ∨ tableSize32 = 0 ∨ rootCluster < 2 then (-5, none)
    else
      let clusterBeginLba := reservedSectorCount + numFats * tableSize32
      let dataSectors := sub64
        (if totalSectors32 > 0 then totalSectors32 else dev.totalSectors.toNat) clusterBeginLba
      let geo : Geometry :=
        ⟨bytesPerSector, sectorsPerCluster, numFats, tableSize32, reservedSectorCount,
          clusterBeginLba, dataSectors / sectorsPerCluster % 2 ^ 32⟩
      match { fs := { geo, mounted := true, dev, heap } : Fat32Volume }.allocVnode
          ⟨.directory, rootCluster, 0, 0, 0⟩ with
      | (none, _) => (-5, none)
      | (some root, v) => (0, some (root, v))

end Fat32Volume

end LlamaOS.Fs
