import LlamaOS.Drivers.RequestChains

/-!
# The transmit path of the virtio network driver

`VirtioNetDevice::transmit` of `virtio_net.cpp`, together with the device that works on the chains
it submits. The device puts the frame of a chain on the wire at any time after it was submitted,
reading the buffer at that time, and enters the chain in the ring of used ones at any time after
that. A schedule says what the device does each time it gets the chance, that is before every
access of the driver to the buffer and the queue and in every round of its waiting loop.

The receive queue, the lock, the I/O ports and log messages are left out.
-/

namespace LlamaOS.Drivers
open ByteBuffer

/-- `sizeof(VirtioNetHdr)` -/
def virtioNetHdrSize : Nat := 10

/-- A chain of the transmit queue as the device has taken it. -/
structure TxChain where
  head : Nat
  addr : Nat
  len : Nat
  /-- Its frame is on the wire. -/
  sent : Bool
  deriving DecidableEq, Repr

/-- The device sends the frame of the outstanding chain with the given position, or gives back a
chain whose frame it has sent. -/
inductive TxStep where
  | send (which : Nat)
  | complete (which : Nat)
  deriving DecidableEq, Repr

/-- A driver instance, the memory it shares with its device, the device and the wire. -/
structure VirtioNetDevice where
  mac : BitVec 48
  initialized : Bool
  txQueue : Virtqueue
  txBufferPa : Nat
  mem : Buffer
  pending : List TxChain
  wire : List (List (BitVec 8))
  schedule : List (List TxStep)

namespace VirtioNetDevice

def bufferSize : Nat := 2048

/-- The frame of a chain as it lies in memory now. -/
def frameOf (d : VirtioNetDevice) (c : TxChain) : List (BitVec 8) :=
  slice d.mem (c.addr + virtioNetHdrSize) (c.len - virtioNetHdrSize)

def step (d : VirtioNetDevice) : TxStep → VirtioNetDevice
  | .send which =>
    match d.pending[which]? with
    | none => d
    | some c =>
      if c.sent then d
      else { d with
        wire := d.wire ++ [d.frameOf c], pending := d.pending.set which { c with sent := true } }
  | .complete which =>
    match d.pending[which]? with
    | none => d
    | some c =>
      if c.sent then
        { d with txQueue := d.txQueue.pushUsed c.head, pending := d.pending.eraseIdx which }
      else d

def settle (d : VirtioNetDevice) (steps : List TxStep) : VirtioNetDevice := steps.foldl step d

def tick (d : VirtioNetDevice) : VirtioNetDevice :=
  match d.schedule with
  | [] => d
  | steps :: schedule => { d with schedule }.settle steps

/-- The device takes the chain that a slot of the ring names; the driver submits single
descriptors. -/
def accept (d : VirtioNetDevice) (slot : Nat) : VirtioNetDevice :=
  let head := d.txQueue.availRing slot
  match d.txQueue.walk head d.txQueue.queueSize with
  | [desc] => { d with pending := d.pending ++ [⟨head, desc.addr, desc.len, false⟩] }
  | _ => d

/-- `submit_descriptor_chain`; the device is notified and takes the chain. -/
def submitDescriptorChain (d : VirtioNetDevice) (head : Nat) : VirtioNetDevice :=
  let q := d.txQueue
  if !q.initialized || q.queueSize ≤ head then d
  else { d with txQueue := q.makeAvailable head }.accept (q.availIdx.toNat % q.queueSize)

/-- The limit that `transmit` gives to `wait_for_completion`. -/
def txPolls : Nat := 1000000

def waitRounds (d : VirtioNetDevice) (head polls : Nat) : Bool × VirtioNetDevice :=
  Virtqueue.waitRounds txQueue (fun q d => { d with txQueue := q }) tick head polls d

def waitForCompletion (d : VirtioNetDevice) (head : Nat) : Bool × VirtioNetDevice :=
  if !d.txQueue.initialized then (false, d) else d.waitRounds head txPolls

/-- The header, which is zero, and the frame behind it are copied to the buffer. -/
def fillBuffer (d : VirtioNetDevice) (frame : List (BitVec 8)) : VirtioNetDevice :=
  { d with mem := patch d.mem d.txBufferPa (List.replicate virtioNetHdrSize 0 ++ frame) }

def submitFrame (d : VirtioNetDevice) (desc len : Nat) : VirtioNetDevice :=
  let q := d.txQueue.setDescriptor desc d.txBufferPa (virtioNetHdrSize + len) 0 0
  { d with txQueue := q }.submitDescriptorChain desc

/-- The chain is waited for and freed, whether it was completed or not. -/
def await (d : VirtioNetDevice) (desc : Nat) : Bool × VirtioNetDevice :=
  let waited := d.waitForCompletion desc
  (waited.1, { waited.2 with txQueue := waited.2.txQueue.freeDescriptorChain desc })

def transmit (d : VirtioNetDevice) (frame : List (BitVec 8)) : Bool × VirtioNetDevice :=
  if !d.initialized || frame.isEmpty || bufferSize - virtioNetHdrSize < frame.length then (false, d)
  else
    let d := (d.tick.fillBuffer frame).tick
    let a := d.txQueue.allocDescriptor
    match a.1 with
    | none => (false, { d with txQueue := a.2 })
    | some desc => ({ d with txQueue := a.2 }.submitFrame desc frame.length).await desc


theorem tick_eq (d : VirtioNetDevice) :
    d.tick = { d with schedule := d.schedule.tail }.settle (d.schedule.headD []) := by
  unfold tick
  split
  · rename_i hschedule
    have hsame : { d with schedule := [] } = d := by rw [← hschedule]
    rw [hschedule, List.tail_nil, List.headD_nil, hsame]
    rfl
  · rename_i steps schedule hschedule
    rw [hschedule]
    rfl

section Kept

variable {d : VirtioNetDevice} {up : Bool}

theorem step_kept (h : d.initialized = up) (st : TxStep) : (d.step st).initialized = up := by
  cases st <;>
    unfold step <;>
    dsimp only <;>
    split <;>
    first | exact h | (split <;> exact h)

theorem tick_kept (h : d.initialized = up) : d.tick.initialized = up := by
  have hsettle : ∀ (steps : List TxStep) (d : VirtioNetDevice), d.initialized = up →
      (d.settle steps).initialized = up := by
    intro steps
    induction steps with
    | nil => exact fun _ h => h
    | cons st steps ih => exact fun d h => ih (d.step st) (step_kept h st)
  rw [tick_eq]
  exact hsettle _ _ h

theorem submit_kept (h : d.initialized = up) (head : Nat) :
    (d.submitDescriptorChain head).initialized = up := by
  unfold submitDescriptorChain
  dsimp only
  split
  · exact h
  · unfold accept
    dsimp only
    split
    · exact h
    · exact h

theorem await_kept (h : d.initialized = up) (desc : Nat) : (d.await desc).2.initialized = up := by
  unfold await waitForCompletion
  split
  · exact h
  · exact Virtqueue.waitRounds_keeps (P := fun d : VirtioNetDevice => d.initialized = up)
      (fun _ => tick_kept) txPolls h

/-- A device stays set up, whatever becomes of a frame. -/
theorem transmit_kept (d : VirtioNetDevice) (frame : List (BitVec 8)) :
    (d.transmit frame).2.initialized = d.initialized := by
  have hfilled : (d.tick.fillBuffer frame).tick.initialized = d.initialized :=
    tick_kept (d := d.tick.fillBuffer frame) (tick_kept rfl)
  unfold transmit
  split
  · rfl
  dsimp only
  split
  · exact hfilled
  · apply await_kept
    apply submit_kept
    exact hfilled

end Kept

end VirtioNetDevice

/-- A device with four descriptors and its buffer at address 0x1000. -/
def sampleDevice (mac : BitVec 48) (schedule : List (List TxStep)) : VirtioNetDevice where
  mac
  initialized := true
  txQueue := {
    queueSize := 4
    desc := fun i => ⟨0, 0, 0, if i + 1 < 4 then i + 1 else if i + 1 = 4 then noDescriptor else 0⟩
    availIdx := 0
    availRing := fun _ => 0
    usedIdx := 0
    usedRing := fun _ => 0
    freeHead := 0
    numFree := 4
    lastUsedIdx := 0
    initialized := true }
  txBufferPa := 0x1000
  mem := fun _ => 0
  pending := []
  wire := []
  schedule

/-- What a device does that answers the next frame at once. -/
def answeringSchedule : List (List TxStep) := [[], [], [.send 0, .complete 0]]

end LlamaOS.Drivers
