import LlamaOS.Shared.ByteBuffer

/-!
# Block devices and partitions

`storage/block_device.cpp` and `storage/partition.cpp`: the bounds check of a transfer and a
partition that hands its transfers to the disk it lies on. Device names and ids are left out.
-/

namespace LlamaOS.Storage
open ByteBuffer

inductive BlockStatus where
  | success
  | pending
  | ioError
  | invalidParameter
  | outOfBounds
  | readOnly
  | deviceFault
  | timeout
  | unsupported
  deriving DecidableEq, Repr

inductive BlockRequestType where
  | read
  | write
  | flush
  deriving DecidableEq, Repr

/-- A buffer argument only matters as null or not null. -/
structure BlockRequest where
  type : BlockRequestType
  lba : BitVec 64
  sectorCount : BitVec 32
  buffer : Bool

/-- `BlockDevice::validate_bounds` of a device with `totalSectors` sectors. -/
def validateBounds (totalSectors : BitVec 64) (isReadOnly : Bool) (lba : BitVec 64)
    (count : BitVec 32) (buffer write : Bool) : Bool :=
  if !buffer then false
  else if count = 0 then true
  else if write && isReadOnly then false
  else if BitVec.allOnes 64 - count.setWidth 64 < lba then false
  else if totalSectors < lba + count.setWidth 64 then false
  else true

/-- A disk as a partition and the partition table's reader use it. Reads with a destination that
is not null give data only inside the disk. -/
structure BlockDevice where
  totalSectors : BitVec 64
  isReadOnly : Bool
  readSectors : BitVec 64 → BitVec 32 → Except BlockStatus Buffer
  writeSectors : BitVec 64 → BitVec 32 → BlockStatus
  flush : BlockStatus
  read_bounds : ∀ {lba count data}, readSectors lba count = .ok data →
    validateBounds totalSectors isReadOnly lba count true false = true

/-- A disk with the given contents that performs every transfer inside it. -/
def BlockDevice.ofContents (totalSectors : BitVec 64) (contents : Buffer) : BlockDevice where
  totalSectors := totalSectors
  isReadOnly := false
  readSectors lba count :=
    if validateBounds totalSectors false lba count true false then .ok fun i =>
      contents (lba.toNat * 512 + i)
    else .error .outOfBounds
  writeSectors lba count := if validateBounds totalSectors false lba count true true then .success
  else .outOfBounds
  flush := .success
  read_bounds := by
    intro lba count data h
    split at h
    · assumption
    · cases h

structure Transfer where
  write : Bool
  lba : BitVec 64
  count : BitVec 32
  deriving DecidableEq, Repr

def Transfer.Touches (t : Transfer) (sector : Nat) : Prop :=
  t.lba.toNat ≤ sector ∧ sector < t.lba.toNat + t.count.toNat

def BlockDevice.perform (disk : BlockDevice) (t : Transfer) : BlockStatus :=
  if t.write then disk.writeSectors t.lba t.count
  else match disk.readSectors t.lba t.count with
    | .ok _ => .success
    | .error status => status

abbrev PartitionGuid := BitVec 128

def PartitionGuid.isNull (guid : PartitionGuid) : Bool := guid = 0

structure Partition where
  parent : Option BlockDevice
  partitionIndex : Nat
  startLba : BitVec 64
  sectorCount : BitVec 64
  typeGuid : PartitionGuid
  uniqueGuid : PartitionGuid

namespace Partition

def isReadOnly (p : Partition) : Bool := match p.parent with
  | some disk => disk.isReadOnly
  | none => true

/-- A call's status and the transfers that reached the disk below. -/
abbrev Answer := BlockStatus × List Transfer

def readSectors (p : Partition) (lba : BitVec 64) (count : BitVec 32) (dst : Bool) : Answer :=
  match p.parent with
  | none => (.deviceFault, [])
  | some disk =>
    if !validateBounds p.sectorCount p.isReadOnly lba count dst false then (.outOfBounds, [])
    else
      let t : Transfer := ⟨false, p.startLba + lba, count⟩
      (disk.perform t, [t])

def writeSectors (p : Partition) (lba : BitVec 64) (count : BitVec 32) (src : Bool) : Answer :=
  match p.parent with
  | none => (.deviceFault, [])
  | some disk =>
    if !validateBounds p.sectorCount p.isReadOnly lba count src true then
      (if p.isReadOnly then .readOnly else .outOfBounds, [])
    else
      let t : Transfer := ⟨true, p.startLba + lba, count⟩
      (disk.perform t, [t])

def flush (p : Partition) : Answer := match p.parent with
  | none => (.deviceFault, [])
  | some disk => (disk.flush, [])

/-- `BlockDevice::submit_request` on a partition. -/
def submitRequest (p : Partition) (req : BlockRequest) : Answer :=
  if req.sectorCount = 0 ∧ req.type ≠ .flush then (.success, [])
  else match req.type with
    | .read =>
      if !validateBounds p.sectorCount p.isReadOnly req.lba req.sectorCount req.buffer false then
        (.outOfBounds, [])
      else p.readSectors req.lba req.sectorCount req.buffer
    | .write =>
      if !validateBounds p.sectorCount p.isReadOnly req.lba req.sectorCount req.buffer true then
        (if p.isReadOnly then .readOnly else .outOfBounds, [])
      else p.writeSectors req.lba req.sectorCount req.buffer
    | .flush => p.flush

/-- The ways to transfer sectors of a partition. -/
inductive Call where
  | read (lba : BitVec 64) (count : BitVec 32) (dst : Bool)
  | write (lba : BitVec 64) (count : BitVec 32) (src : Bool)
  | submit (req : BlockRequest)

namespace Call

def run (p : Partition) : Call → Answer
  | .read lba count dst => p.readSectors lba count dst
  | .write lba count src => p.writeSectors lba count src
  | .submit req => p.submitRequest req

def lba : Call → BitVec 64
  | .read lba _ _ => lba
  | .write lba _ _ => lba
  | .submit req => req.lba

def count : Call → BitVec 32
  | .read _ count _ => count
  | .write _ count _ => count
  | .submit req => req.sectorCount

end Call

end Partition

/-- The sum of the sector and the count is only computed where it does not overflow. -/
theorem validateBounds_iff (total : BitVec 64) (ro : Bool) (lba : BitVec 64) {count : BitVec 32}
    (hcount : count ≠ 0) (write : Bool) :
    validateBounds total ro lba count true write = true ↔
      (write && ro) = false ∧ lba.toNat + count.toNat ≤ total.toNat := by
  have hwide : (count.setWidth 64).toNat = count.toNat := by
    rw [BitVec.toNat_setWidth, Nat.mod_eq_of_lt (by omega)]
  have hroom : (BitVec.allOnes 64 - count.setWidth 64).toNat = 2 ^ 64 - 1 - count.toNat := by
    rw [BitVec.toNat_sub_of_le (by rw [BitVec.le_def, hwide, BitVec.toNat_allOnes]; omega), hwide,
      BitVec.toNat_allOnes]
  unfold validateBounds
  rw [if_neg (by decide), if_neg hcount]
  split
  · rename_i hrefused
    rw [hrefused]
    exact ⟨nofun, fun h => absurd h.1 (by decide)⟩
  rename_i hallowed
  rw [Bool.not_eq_true] at hallowed
  split
  · rename_i hwrap
    rw [BitVec.lt_def, hroom] at hwrap
    refine ⟨nofun, ?_⟩
    rintro ⟨_, hle⟩
    omega
  rename_i hwrap
  rw [BitVec.lt_def, hroom] at hwrap
  have hsum : (lba + count.setWidth 64).toNat = lba.toNat + count.toNat := by
    rw [BitVec.toNat_add, hwide, Nat.mod_eq_of_lt (by omega)]
  split
  · rename_i hbeyond
    rw [BitVec.lt_def, hsum] at hbeyond
    refine ⟨nofun, ?_⟩
    rintro ⟨_, hle⟩
    omega
  · rename_i hinside
    rw [BitVec.lt_def, hsum] at hinside
    exact ⟨fun _ => ⟨hallowed, by omega⟩, fun _ => rfl⟩

theorem validateBounds_count {total : BitVec 64} {ro : Bool} {lba : BitVec 64} {count : BitVec 32}
    {buffer write : Bool} (h : validateBounds total ro lba count buffer write = true) :
    count = 0 ∨ lba.toNat + count.toNat ≤ total.toNat := by
  cases buffer with
  | false => cases h
  | true =>
    by_cases hcount : count = 0
    · exact .inl hcount
    · exact .inr ((validateBounds_iff total ro lba hcount write).mp h).2

theorem BlockDevice.read_inside (disk : BlockDevice) {lba : BitVec 64} {count : BitVec 32}
    {data : Buffer} (h : disk.readSectors lba count = .ok data) (hcount : count ≠ 0) :
    lba.toNat + count.toNat ≤ disk.totalSectors.toNat := by
  rcases validateBounds_count (disk.read_bounds h) with hzero | hle
  · exact absurd hzero hcount
  · exact hle

namespace Partition

/-- The transfers a call may cause: none, or the one of the call moved to the partition's start. -/
def Forwards (p : Partition) (lba : BitVec 64) (count : BitVec 32) (ts : List Transfer) : Prop :=
  ts = [] ∨ (count = 0 ∨ lba.toNat + count.toNat ≤ p.sectorCount.toNat) ∧
    ∃ write, ts = [⟨write, p.startLba + lba, count⟩]

theorem readSectors_forwards (p : Partition) (lba : BitVec 64) (count : BitVec 32) (dst : Bool) :
    p.Forwards lba count (p.readSectors lba count dst).2 := by
  unfold readSectors
  split
  · exact .inl rfl
  split
  · exact .inl rfl
  rename_i hvalid
  rw [Bool.not_eq_true, Bool.not_eq_false'] at hvalid
  exact .inr ⟨validateBounds_count hvalid, false, rfl⟩

theorem writeSectors_forwards (p : Partition) (lba : BitVec 64) (count : BitVec 32) (src : Bool) :
    p.Forwards lba count (p.writeSectors lba count src).2 := by
  unfold writeSectors
  split
  · exact .inl rfl
  split
  · exact .inl rfl
  rename_i hvalid
  rw [Bool.not_eq_true, Bool.not_eq_false'] at hvalid
  exact .inr ⟨validateBounds_count hvalid, true, rfl⟩

theorem submitRequest_forwards (p : Partition) (req : BlockRequest) :
    p.Forwards req.lba req.sectorCount (p.submitRequest req).2 := by
  unfold submitRequest
  split
  · exact .inl rfl
  split
  · split
    · exact .inl rfl
    · exact p.readSectors_forwards _ _ _
  · split
    · exact .inl rfl
    · exact p.writeSectors_forwards _ _ _
  · unfold flush
    split <;> exact .inl rfl

theorem Call.forwards (p : Partition) (call : Call) :
    p.Forwards call.lba call.count (call.run p).2 := by
  cases call with
  | read lba count dst => exact p.readSectors_forwards lba count dst
  | write lba count src => exact p.writeSectors_forwards lba count src
  | submit req => exact p.submitRequest_forwards req

/-- The sectors of a partition on its disk. -/
def Holds (p : Partition) (sector : Nat) : Prop :=
  p.startLba.toNat ≤ sector ∧ sector < p.startLba.toNat + p.sectorCount.toNat

/-- A partition that ends inside the address range hands on nothing but its own sectors. -/
theorem Call.confined {p : Partition} (hend : p.startLba.toNat + p.sectorCount.toNat ≤ 2 ^ 64)
    (call : Call) {t : Transfer} (ht : t ∈ (call.run p).2) {sector : Nat}
    (hsector : t.Touches sector) :
    (p.startLba.toNat + call.lba.toNat ≤ sector ∧
      sector < p.startLba.toNat + call.lba.toNat + call.count.toNat) ∧ p.Holds sector := by
  rcases Call.forwards p call with hnone | ⟨hcount, write, hone⟩
  · rw [hnone] at ht
    cases ht
  rw [hone, List.mem_singleton] at ht
  subst ht
  obtain ⟨hlo, hhi⟩ := hsector
  change (p.startLba + call.lba).toNat ≤ sector at hlo
  change sector < (p.startLba + call.lba).toNat + call.count.toNat at hhi
  rcases hcount with hzero | hle
  · have hempty : call.count.toNat = 0 := by rw [hzero]; rfl
    rw [hempty] at hhi
    omega
  have hcountPos : 0 < call.count.toNat := by omega
  have hsum : (p.startLba + call.lba).toNat = p.startLba.toNat + call.lba.toNat := by
    rw [BitVec.toNat_add, Nat.mod_eq_of_lt (by omega)]
  rw [hsum] at hlo hhi
  refine ⟨⟨hlo, hhi⟩, ?_, ?_⟩
  · omega
  · omega

end Partition

end LlamaOS.Storage
