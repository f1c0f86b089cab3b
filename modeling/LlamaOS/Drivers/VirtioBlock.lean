import LlamaOS.Drivers.Virtqueue
import LlamaOS.Storage.BlockDevice

/-!
# The virtio block driver and its device

`virtio_block.cpp`, together with the device that works on the chains it submits. The device
reads the descriptors and the header of a chain when it is submitted. It completes a chain at any
later time: it moves the data, writes the status byte and enters the chain in the ring of used
ones. A schedule says what the device completes each time the driver gives it the chance, that is
before every access of the driver to the shared memory and in every round of its waiting loop.

The lock, the interrupt flag, the I/O ports and log messages are left out.
-/

namespace LlamaOS.Drivers
open ByteBuffer
open Storage (BlockStatus validateBounds)

def virtioBlkTIn : Nat := 0

def virtioBlkTOut : Nat := 1

def virtioBlkTFlush : Nat := 4

def virtioBlkSOk : BitVec 8 := 0

def virtioBlkSUnsupp : BitVec 8 := 2

/-- A submitted chain as the device has read it. -/
structure DeviceRequest where
  head : Nat
  type : Nat
  sector : Nat
  /-- address and length of the data -/
  data : Option (Nat × Nat)
  /-- address of the status byte -/
  status : Nat
  deriving DecidableEq, Repr

/-- The device completes the outstanding chain with the given position. -/
structure Completion where
  which : Nat
  status : BitVec 8
  deriving DecidableEq, Repr

/-- A driver instance, the memory it shares with its device, and the device. -/
structure Machine where
  initialized : Bool
  readOnly : Bool
  supportsFlush : Bool
  totalSectors : BitVec 64
  dmaPhys : Nat
  requestq : Virtqueue
  mem : Buffer
  disk : Buffer
  pending : List DeviceRequest
  schedule : List (List Completion)

namespace Machine

def transfer (m : Machine) (r : DeviceRequest) : Machine :=
  match r.data with
  | none => m
  | some (addr, len) =>
    if r.type = virtioBlkTIn then
      { m with mem := patch m.mem addr (slice m.disk (r.sector * 512) len) }
    else if r.type = virtioBlkTOut then
      { m with disk := patch m.disk (r.sector * 512) (slice m.mem addr len) }
    else m

/-- Only a request that succeeds moves its data. -/
def serve (m : Machine) (r : DeviceRequest) (status : BitVec 8) : Machine :=
  let m := if status = virtioBlkSOk then m.transfer r else m
  { m with mem := patch m.mem r.status [status], requestq := m.requestq.pushUsed r.head }

def complete (m : Machine) (c : Completion) : Machine :=
  match m.pending[c.which]? with
  | none => m
  | some r => { m.serve r c.status with pending := m.pending.eraseIdx c.which }

def settle (m : Machine) (cs : List Completion) : Machine := cs.foldl complete m

def tick (m : Machine) : Machine :=
  match m.schedule with
  | [] => m
  | cs :: schedule => { m with schedule }.settle cs

/-- The device takes the chain that a slot of the ring names. -/
def accept (m : Machine) (slot : Nat) : Machine :=
  let head := m.requestq.availRing slot
  let take (hdr : VirtqDesc) (data : Option (Nat × Nat)) (status : VirtqDesc) : Machine :=
    { m with
      pending := m.pending ++
        [⟨head, loadLe m.mem hdr.addr 4, loadLe m.mem (hdr.addr + 8) 8, data, status.addr⟩] }
  match m.requestq.walk head m.requestq.queueSize with
  | [hdr, data, status] => take hdr (some (data.addr, data.len)) status
  | [hdr, status] => take hdr none status
  | _ => m

/-- `VirtioBlockDevice::init`, where the device offers its features, its queue size and its
capacity, and `alloc_pages` gives the pages at `dmaPhys`, or none (the null address). -/
def init (hostFeatures : BitVec 32) (qsize : BitVec 16) (dmaPhys : Nat) (capLow capHigh : BitVec 32)
    (mem disk : Buffer) : Option Machine :=
  if qsize = 0 then none
  else match Virtqueue.init qsize with
    | none => none
    | some requestq =>
      if dmaPhys = 0 then none
      else some {
        initialized := true
        readOnly := hostFeatures &&& 0x20 != 0
        supportsFlush := hostFeatures &&& 0x200 != 0
        totalSectors := capHigh.setWidth 64 <<< 32 ||| capLow.setWidth 64
        dmaPhys
        requestq
        mem := fun i => if dmaPhys ≤ i ∧ i < dmaPhys + 36864 then 0 else mem i
        disk
        pending := []
        schedule := [] }

/-- `submit_descriptor_chain`; the device is notified and takes the chain. -/
def submitDescriptorChain (m : Machine) (head : Nat) : Machine :=
  let q := m.requestq
  if !q.initialized || q.queueSize ≤ head then m
  else
    { m with requestq := q.makeAvailable head }.accept (q.availIdx.toNat % q.queueSize)

def waitRounds (m : Machine) (head polls : Nat) : Bool × Machine :=
  Virtqueue.waitRounds requestq (fun q m => { m with requestq := q }) tick head polls m

def maxPolls : Nat := 100000000

def waitForCompletion (m : Machine) (head : Nat) : Bool × Machine :=
  if !m.requestq.initialized then (false, m) else m.waitRounds head maxPolls

def statusAddr (m : Machine) : Nat := m.dmaPhys + 64

def bounceAddr (m : Machine) : Nat := m.dmaPhys + 4096

def dmaBounceSectors : Nat := 64

/-- The header of a request and its status byte, which is preset. -/
def prepare (m : Machine) (type sector : Nat) : Machine :=
  { m with
    mem := patch (patch m.mem m.dmaPhys (leBytes 4 type ++ leBytes 4 0 ++ leBytes 8 sector))
      m.statusAddr [0xFF] }

def freeDescriptorChain (m : Machine) (head : Nat) : Machine :=
  { m with requestq := m.requestq.freeDescriptorChain head }

/-- The descriptors that could be allocated are freed again. -/
def giveBack (q : Virtqueue) (ds : List (Option Nat)) : Virtqueue :=
  ds.foldl (fun q d => match d with
    | some d => q.freeDescriptorChain d
    | none => q) q

/-- The chain is waited for and freed. -/
def await (m : Machine) (head : Nat) : Bool × Machine :=
  let waited := m.waitForCompletion head
  (waited.1, waited.2.freeDescriptorChain head)

/-- What a read or write does with the status byte; `none` is success. -/
def checkStatus (m : Machine) : Option BlockStatus × Machine :=
  let m := m.tick
  if m.mem m.statusAddr ≠ virtioBlkSOk then
    let m := m.tick
    (some (if m.mem m.statusAddr = virtioBlkSUnsupp then .unsupported else .ioError), m)
  else (none, m)

/-- The three descriptors of a transfer are set and submitted. -/
def submitTransfer (m : Machine) (d0 d1 d2 : Nat) (flags : BitVec 16) (len : Nat) : Machine :=
  { m with
    requestq := ((m.requestq.setDescriptor d0 m.dmaPhys 16 virtqDescFNext d1).setDescriptor d1
      m.bounceAddr len
      (flags ||| virtqDescFNext) d2).setDescriptor d2 m.statusAddr 1 virtqDescFWrite
        0 }.submitDescriptorChain d0

/-- The part that a round of `read_sectors` and one of `write_sectors` have in common: a request
over the bounce buffer. -/
def exchange (m : Machine) (type sector : Nat) (flags : BitVec 16) (len : Nat) :
    Option BlockStatus × Machine :=
  let m := (m.tick.prepare type sector).tick
  let a0 := m.requestq.allocDescriptor
  let a1 := a0.2.allocDescriptor
  let a2 := a1.2.allocDescriptor
  match a0.1, a1.1, a2.1 with
  | some d0, some d1, some d2 =>
    let awaited := ({ m with requestq := a2.2 }.submitTransfer d0 d1 d2 flags len).await d0
    if !awaited.1 then (some .timeout, awaited.2) else awaited.2.checkStatus
  | e0, e1, e2 => (some .deviceFault, { m with requestq := giveBack a2.2 [e0, e1, e2] })

structure ReadResult where
  status : BlockStatus
  data : List (BitVec 8)
  machine : Machine

structure WriteResult where
  status : BlockStatus
  machine : Machine

/-- The loop of `read_sectors` with `remaining` sectors to go. -/
def readLoop : Nat → Nat → Nat → Machine → ReadResult
  | 0, _, _, m => ⟨.success, [], m⟩
  | rounds + 1, curLba, remaining, m =>
    if remaining = 0 then ⟨.success, [], m⟩
    else
      let chunk := if dmaBounceSectors < remaining then dmaBounceSectors else remaining
      match m.exchange virtioBlkTIn curLba virtqDescFWrite (chunk * 512) with
      | (some status, m) => ⟨status, [], m⟩
      | (none, m) =>
        let m := m.tick
        let rest := readLoop rounds (curLba + chunk) (remaining - chunk) m
        ⟨rest.status, slice m.mem m.bounceAddr (chunk * 512) ++ rest.data, rest.machine⟩

/-- `VirtioBlockDevice::read_sectors`; the data is what has been copied to `dst`. -/
def readSectors (m : Machine) (lba : BitVec 64) (count : BitVec 32) (dst : Bool) : ReadResult :=
  if !m.initialized then ⟨.deviceFault, [], m⟩
  else if count = 0 then ⟨.success, [], m⟩
  else if !validateBounds m.totalSectors m.readOnly lba count dst false then ⟨.outOfBounds, [], m⟩
  else readLoop count.toNat lba.toNat count.toNat m

/-- The loop of `write_sectors`, where the source goes on at `pos`. -/
def writeLoop (src : Buffer) : Nat → Nat → Nat → Nat → Machine → WriteResult
  | 0, _, _, _, m => ⟨.success, m⟩
  | rounds + 1, pos, curLba, remaining, m =>
    if remaining = 0 then ⟨.success, m⟩
    else
      let chunk := if dmaBounceSectors < remaining then dmaBounceSectors else remaining
      let m := m.tick
      let m := { m with mem := patch m.mem m.bounceAddr (slice src pos (chunk * 512)) }
      match m.exchange virtioBlkTOut curLba 0 (chunk * 512) with
      | (some status, m) => ⟨status, m⟩
      | (none, m) => writeLoop src rounds (pos + chunk * 512) (curLba + chunk) (remaining - chunk) m

/-- `VirtioBlockDevice::write_sectors`; `none` is a null source. -/
def writeSectors (m : Machine) (lba : BitVec 64) (count : BitVec 32) (src : Option Buffer) :
    WriteResult :=
  if !m.initialized then ⟨.deviceFault, m⟩
  else if m.readOnly then ⟨.readOnly, m⟩
  else if count = 0 then ⟨.success, m⟩
  else if !validateBounds m.totalSectors m.readOnly lba count src.isSome true then ⟨.outOfBounds, m⟩
  else writeLoop (src.getD fun _ => 0) count.toNat 0 lba.toNat count.toNat m

def flush (m : Machine) : BlockStatus × Machine :=
  if !m.initialized then (.deviceFault, m)
  else if !m.supportsFlush then (.success, m)
  else
    let m := (m.tick.prepare virtioBlkTFlush 0).tick
    let a0 := m.requestq.allocDescriptor
    let a1 := a0.2.allocDescriptor
    match a0.1, a1.1 with
    | some d0, some d1 =>
      let awaited := ({ m with
        requestq := (a1.2.setDescriptor d0 m.dmaPhys 16 virtqDescFNext d1).setDescriptor d1
          m.statusAddr 1 virtqDescFWrite 0 }.submitDescriptorChain d0).await d0
      if !awaited.1 then (.timeout, awaited.2)
      else
        let m := awaited.2.tick
        (if m.mem m.statusAddr = virtioBlkSOk then .success else .ioError, m)
    | e0, e1 => (.deviceFault, { m with requestq := giveBack a1.2 [e0, e1] })

end Machine

/-- A call of the driver, with what the device completes meanwhile, or a completion between
calls. -/
inductive Call where
  | read (lba : BitVec 64) (count : BitVec 32) (dst : Bool) (schedule : List (List Completion))
  | write (lba : BitVec 64) (count : BitVec 32) (src : Option Buffer)
      (schedule : List (List Completion))
  | flush (schedule : List (List Completion))
  | complete (c : Completion)

namespace Machine

def perform (m : Machine) : Call → Machine
  | .read lba count dst schedule => ({ m with schedule }.readSectors lba count dst).machine
  | .write lba count src schedule => ({ m with schedule }.writeSectors lba count src).machine
  | .flush schedule => { m with schedule }.flush.2
  | .complete c => m.complete c

end Machine

inductive Reaches (m₀ : Machine) : Machine → Prop where
  | start : Reaches m₀ m₀
  | step {m : Machine} (call : Call) (h : Reaches m₀ m) : Reaches m₀ (m.perform call)

end LlamaOS.Drivers
