import LlamaOS.Fs.Directories

/-!
# The virtual file system

Path resolution, file descriptors and the calls on them, over the volume that is mounted at
`/`. Resolution never leaves that mount, so the other mounts and the lock are left out.
-/

namespace LlamaOS.Fs

abbrev maxFileDescriptors : Nat := 64
abbrev oCreat : Nat := 0x0040
abbrev oTrunc : Nat := 0x0200
abbrev oAppend : Nat := 0x0400

structure FileDescriptor where
  vnode : Option Nat := none
  flags : Nat := 0
  offset : Nat := 0
  inUse : Bool := false
deriving DecidableEq

/-- Vnodes are given by their slots in the pool; `root` is the one of the mount. -/
structure Vfs where
  vol : Fat32Volume
  root : Option Nat
  fds : Nat → FileDescriptor := fun _ => {}

structure FileStat where
  type : NodeType
  size : Nat
  inode : Nat
  blockSize : Nat
  blocks : Nat
deriving DecidableEq

inductive SeekOrigin where
  | set
  | current
  | endOfFile
deriving DecidableEq

/-- The result of `resolve_path` with its out parameters. -/
structure Resolution where
  code : Int
  vnode : Option Nat := none
  parent : Option Nat := none
  basename : CString := []

/-- The walk of `resolve_path` along the segments from the directory `curr` on. -/
def walkSegments (fuel : Nat) : List CString → Nat → Fat32Volume → Option (Resolution × Fat32Volume)
  | [], _, vol => some ({ code := -1 }, vol)
  | [leaf], curr, vol =>
    match vol.lookup fuel (vol.vnodePool curr) leaf with
    | none => none
    | some (res, child, vol) =>
      some (⟨if res = 0 ∧ child.isSome then 0 else 1, child, some curr, leaf⟩, vol)
  | segment :: rest, curr, vol =>
    match vol.lookup fuel (vol.vnodePool curr) segment with
    | none => none
    | some (res, child, vol) =>
      match child with
      | none => some ({ code := -3 }, vol)
      | some child =>
        if res ≠ 0 then some ({ code := -3 }, vol) else walkSegments fuel rest child vol

namespace Vfs

def resolvePath (fuel : Nat) (s : Vfs) (path : CString) : Option (Resolution × Vfs) :=
  match normalizePath path pathMax with
  | none => some ({ code := -1 }, s)
  | some norm =>
    match s.root with
    | none => some ({ code := -2 }, s)
    | some root =>
      if norm = [slash] then some (⟨0, some root, none, [slash]⟩, s)
      else
        match walkSegments fuel ((norm.drop 1).splitOn slash) root s.vol with
        | none => none
        | some (r, vol) => some (r, { s with vol })

def setVnode (s : Vfs) (slot : Nat) (node : Fat32VNode) (fs : Fat32Filesystem) : Vfs :=
  { s with vol := { s.vol with
    fs
    vnodePool := fun i => if i = slot then node else s.vol.vnodePool i } }

def setFd (s : Vfs) (fd : Nat) (d : FileDescriptor) : Vfs :=
  { s with fds := fun i => if i = fd then d else s.fds i }

/-- The first free descriptor behind those of the standard streams. -/
def freeFd (s : Vfs) : Option Nat :=
  (List.range' 3 (maxFileDescriptors - 3)).find? fun i => !(s.fds i).inUse

def truncateVnode (s : Vfs) (slot : Nat) : Vfs :=
  let (_, node, fs) := s.vol.fs.truncate (s.vol.vnodePool slot) 0
  s.setVnode slot node fs

def openVnode (s : Vfs) (slot flags : Nat) : Int × Vfs :=
  let s := if flags &&& oTrunc ≠ 0 then s.truncateVnode slot else s
  match s.freeFd with
  | none => (-5, s)
  | some fd =>
    let offset := if flags &&& oAppend ≠ 0 then (s.vol.vnodePool slot).fileSize else 0
    (fd, s.setFd fd ⟨some slot, flags, offset, true⟩)

end Vfs

def Vfs.open (fuel : Nat) (s : Vfs) (path : CString) (flags : Nat) : Option (Int × Vfs) :=
  match s.resolvePath fuel path with
  | none => none
  | some (r, s) =>
    if r.code = 1 ∧ flags &&& oCreat ≠ 0 then
      match r.parent with
      | none => some (-2, s)
      | some parent =>
        match s.vol.create fuel (s.vol.vnodePool parent) r.basename .file with
        | none => none
        | some (cres, node, vol) =>
          match node with
          | none => some (-3, { s with vol })
          | some slot =>
            if cres ≠ 0 then some (-3, { s with vol })
            else some ({ s with vol }.openVnode slot flags)
    else
      match r.vnode with
      | none => some (-4, s)
      | some slot => if r.code ≠ 0 then some (-4, s) else some (s.openVnode slot flags)

namespace Vfs

/-- The descriptor and its vnode, where the number is good and the descriptor is in use. -/
def descriptor (s : Vfs) (fd : Int) : Option (Nat × Nat) :=
  if fd < 0 ∨ fd ≥ maxFileDescriptors then none
  else if (s.fds fd.toNat).inUse = false then none
  else (s.fds fd.toNat).vnode.map fun slot => (fd.toNat, slot)

def close (s : Vfs) (fd : Int) : Int × Vfs :=
  if fd < 0 ∨ fd ≥ maxFileDescriptors then (-1, s)
  else if (s.fds fd.toNat).inUse = false then (-1, s)
  else (0, s.setFd fd.toNat {})

def advance (s : Vfs) (fd : Nat) (bytes : Int) : Vfs :=
  if bytes > 0 then s.setFd fd { s.fds fd with offset := add64 (s.fds fd).offset bytes.toNat }
  else s

def read (s : Vfs) (fd : Int) (count : Nat) : Int × List (BitVec 8) × Vfs :=
  match s.descriptor fd with
  | none => (-1, [], s)
  | some (fd, slot) =>
    let (bytes, dst, fs) := s.vol.fs.read (s.vol.vnodePool slot) (s.fds fd).offset count
    (bytes, dst, { s with vol := { s.vol with fs } }.advance fd bytes)

def write (s : Vfs) (fd : Int) (src : List (BitVec 8)) : Int × Vfs :=
  match s.descriptor fd with
  | none => (-1, s)
  | some (fd, slot) =>
    let (bytes, node, fs) := s.vol.fs.write (s.vol.vnodePool slot) (s.fds fd).offset (some src)
    (bytes, (s.setVnode slot node fs).advance fd bytes)

/-- The sum is one of `int64_t` numbers and wraps around where it overflows. -/
def seek (s : Vfs) (fd : Int) (offset : BitVec 64) (origin : SeekOrigin) : Int × Vfs :=
  match s.descriptor fd with
  | none => (-1, s)
  | some (fd, slot) =>
    let newOffset : BitVec 64 := match origin with
      | .set => offset
      | .current => BitVec.ofNat 64 (s.fds fd).offset + offset
      | .endOfFile => BitVec.ofNat 64 (s.vol.vnodePool slot).fileSize + offset
    if newOffset.toInt < 0 then (-2, s)
    else (newOffset.toInt, s.setFd fd { s.fds fd with offset := newOffset.toNat })

def statVnode (s : Vfs) (slot : Nat) : FileStat :=
  let node := s.vol.vnodePool slot
  let blockSize := s.vol.fs.geo.bytesPerCluster
  ⟨node.type, node.fileSize, node.firstCluster, blockSize,
    (node.fileSize + blockSize - 1) % 2 ^ 32 / blockSize⟩

def stat (fuel : Nat) (s : Vfs) (path : CString) : Option (Int × Option FileStat × Vfs) :=
  match s.resolvePath fuel path with
  | none => none
  | some (r, s) =>
    match r.vnode with
    | none => some (-2, none, s)
    | some slot => if r.code ≠ 0 then some (-2, none, s) else some (0, some (s.statVnode slot), s)

def mkdir (fuel : Nat) (s : Vfs) (path : CString) : Option (Int × Vfs) :=
  match s.resolvePath fuel path with
  | none => none
  | some (r, s) =>
    if r.code = 0 ∧ r.vnode.isSome then some (-2, s)
    else
      match r.parent with
      | none => some (-3, s)
      | some parent =>
        match s.vol.mkdir fuel (s.vol.vnodePool parent) r.basename with
        | none => none
        | some (res, _, vol) => some (res, { s with vol })

def readdir (fuel : Nat) (s : Vfs) (fd : Int) (index : Nat) :
    Option (Int × Option DirEntry × Vfs) :=
  match s.descriptor fd with
  | none => some (-1, none, s)
  | some (_, slot) =>
    match s.vol.fs.readdir fuel (s.vol.vnodePool slot) index with
    | none => none
    | some (res, entry, fs) => some (res, entry, { s with vol := { s.vol with fs } })

def unlink (fuel : Nat) (s : Vfs) (path : CString) : Option (Int × Vfs) :=
  match s.resolvePath fuel path with
  | none => none
  | some (r, s) =>
    match r.parent with
    | none => some (-2, s)
    | some parent =>
      if r.code ≠ 0 ∨ r.vnode = none then some (-2, s)
      else
        match s.vol.fs.unlink fuel (s.vol.vnodePool parent) r.basename with
        | none => none
        | some (res, fs) => some (res, { s with vol := { s.vol with fs } })

end Vfs

end LlamaOS.Fs
