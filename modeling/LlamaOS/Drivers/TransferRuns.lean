import LlamaOS.Drivers.BlockTransfers

/-!
# Transfers in every run

The free list is intact in every state a run reaches, whatever requests have been given up. A
transfer that starts with nothing outstanding at the device is then right whenever it reports
success. A request that was given up and is completed during a later one answers for it.
-/

namespace LlamaOS.Drivers
open ByteBuffer LinkedStack Machine
open Storage (BlockStatus validateBounds)

variable {lba : BitVec 64} {count : BitVec 32}

namespace Machine

variable {m m₀ : Machine}

theorem readSectors_ready (h : m.Ready) (lba : BitVec 64) (count : BitVec 32) (dst : Bool) :
    (m.readSectors lba count dst).machine.Ready := by
  unfold readSectors
  split
  · exact h
  split
  · exact h
  split
  · exact h
  exact readLoop_ready _ h

theorem writeSectors_ready (h : m.Ready) (lba : BitVec 64) (count : BitVec 32)
    (src : Option Buffer) : (m.writeSectors lba count src).machine.Ready := by
  unfold writeSectors
  split
  · exact h
  split
  · exact h
  split
  · exact h
  split
  · exact h
  exact writeLoop_ready _ _ h

theorem flush_ready (h : m.Ready) : m.flush.2.Ready := by
  unfold flush
  split
  · exact h
  split
  · exact h
  have hready' : (m.tick.prepare virtioBlkTFlush 0).Ready := m.alike_tick.ready h
  obtain ⟨free₀, h₀⟩ := (alike_tick _).ready hready'
  obtain ⟨free₁, h₁⟩ := h₀.alloc
  obtain ⟨free₂, h₂⟩ := h₁.alloc
  dsimp only
  split
  · rename_i a b ha hb
    rw [ha, hb] at h₂
    have hawait := submitFlush_ready (m := { (m.tick.prepare virtioBlkTFlush 0).tick with
      requestq :=
        (m.tick.prepare virtioBlkTFlush 0).tick.requestq.allocDescriptor.2.allocDescriptor.2 }) h₂
    split
    · exact hawait
    · exact (alike_tick _).ready hawait
  · rename_i e₀ e₁ _
    have htaken : ∀ x y : Option Nat, [] ++ x.toList ++ y.toList = [x, y].filterMap id := by
      intro x y
      cases x <;> cases y <;> rfl
    rw [htaken] at h₂
    exact h₂.giveBack

theorem perform_ready (h : m.Ready) (call : Call) : (m.perform call).Ready := by
  cases call with
  | read lba count dst schedule =>
    exact readSectors_ready (m := { m with schedule }) h lba count dst
  | write lba count src schedule =>
    exact writeSectors_ready (m := { m with schedule }) h lba count src
  | flush schedule => exact flush_ready (m := { m with schedule }) h
  | complete c => exact (m.alike_complete c).ready h

theorem reaches_ready (h₀ : m₀.Ready) (h : Reaches m₀ m) : m.Ready := by
  induction h with
  | start => exact h₀
  | step call _ ih => exact perform_ready ih call

theorem init_ready {hostFeatures : BitVec 32} {qsize : BitVec 16} {dmaPhys : Nat}
    {capLow capHigh : BitVec 32} {mem disk : Buffer}
    (h : init hostFeatures qsize dmaPhys capLow capHigh mem disk = some m) : m.Ready := by
  unfold init at h
  split at h
  · cases h
  split at h
  · cases h
  rename_i q hq
  split at h
  · cases h
  · cases h
    exact ⟨_, Virtqueue.init_claimed hq⟩

theorem validateBounds_lt {totalSectors : BitVec 64} {ro buffer write : Bool} (hcount : count ≠ 0)
    (h : validateBounds totalSectors ro lba count buffer write = true) :
    lba.toNat + count.toNat < 256 ^ 8 := by
  rcases Storage.validateBounds_count h with hzero | hle
  · exact absurd hzero hcount
  · exact Nat.lt_of_le_of_lt hle totalSectors.isLt

end Machine

/-- Nothing is outstanding at the device when the driver first writes to the shared memory. -/
def Call.Quiet (m : Machine) : Call → Prop
  | .read _ _ _ schedule => { m with schedule }.tick.pending = []
  | .write _ _ _ schedule => { m with schedule }.tick.pending = []
  | .flush _ => True
  | .complete _ => True

/-- A read that succeeds gives the contents of its sectors; after a write that succeeds the
sectors hold the source. -/
def Call.Correct (m : Machine) : Call → Prop
  | .read lba count dst schedule =>
    let result := { m with schedule }.readSectors lba count dst
    result.status = .success → result.data = slice result.machine.disk (lba.toNat * 512)
      (count.toNat * 512)
  | .write lba count src schedule =>
    let result := { m with schedule }.writeSectors lba count src
    result.status = .success →
      slice result.machine.disk (lba.toNat * 512) (count.toNat * 512) =
        slice (src.getD fun _ => 0) 0 (count.toNat * 512)
  | .flush _ => True
  | .complete _ => True

variable {m m₀ : Machine}

theorem Machine.read_correct (h : m.Ready) {dst : Bool} (hquiet : m.tick.pending = [])
    (hsuccess : (m.readSectors lba count dst).status = .success) :
    (m.readSectors lba count dst).data =
      slice (m.readSectors lba count dst).machine.disk (lba.toNat * 512) (count.toNat * 512) := by
  unfold readSectors at hsuccess ⊢
  split at hsuccess
  · cases hsuccess
  rename_i hinit
  rw [if_neg hinit]
  split at hsuccess
  · rename_i hzero
    rw [if_pos hzero, hzero]
    rfl
  rename_i hcount
  rw [if_neg hcount]
  split at hsuccess
  · cases hsuccess
  rename_i hbounds
  rw [if_neg hbounds]
  rw [Bool.not_eq_true', Bool.not_eq_false] at hbounds
  exact (readLoop_success _ h hquiet (validateBounds_lt hcount hbounds) (Nat.le_refl _) hsuccess).1

theorem Machine.write_correct (h : m.Ready) {src : Option Buffer} (hquiet : m.tick.pending = [])
    (hsuccess : (m.writeSectors lba count src).status = .success) :
    slice (m.writeSectors lba count src).machine.disk (lba.toNat * 512) (count.toNat * 512) =
      slice (src.getD fun _ => 0) 0 (count.toNat * 512) := by
  unfold writeSectors at hsuccess ⊢
  split at hsuccess
  · cases hsuccess
  rename_i hinit
  rw [if_neg hinit]
  split at hsuccess
  · cases hsuccess
  rename_i hro
  rw [if_neg hro]
  split at hsuccess
  · rename_i hzero
    rw [if_pos hzero, hzero]
    rfl
  rename_i hcount
  rw [if_neg hcount]
  split at hsuccess
  · cases hsuccess
  rename_i hbounds
  rw [if_neg hbounds]
  rw [Bool.not_eq_true', Bool.not_eq_false] at hbounds
  rw [slice_eq_iff]
  exact (writeLoop_success _ _ h hquiet (validateBounds_lt hcount hbounds)
    (Nat.le_refl _) hsuccess).1

/-- In every run, a transfer that starts with nothing outstanding is right when it succeeds. -/
theorem quiet_transfer_correct {hostFeatures : BitVec 32} {qsize : BitVec 16} {dmaPhys : Nat}
    {capLow capHigh : BitVec 32} {mem disk : Buffer}
    (hinit : Machine.init hostFeatures qsize dmaPhys capLow capHigh mem disk = some m₀)
    (hreaches : Reaches m₀ m) (call : Call) (hquiet : call.Quiet m) : call.Correct m := by
  have hready := reaches_ready (init_ready hinit) hreaches
  cases call with
  | read lba count dst schedule =>
    intro hsuccess
    exact read_correct (m := { m with schedule }) hready hquiet hsuccess
  | write lba count src schedule =>
    intro hsuccess
    exact write_correct (m := { m with schedule }) hready hquiet hsuccess
  | flush _ => trivial
  | complete _ => trivial

/-- Sector 0 holds the letter A, sector 1 the letter B. -/
def lettersDisk : Buffer := fun i => if i < 512 then 0x41 else 0x42

def lettersMachine : Machine where
  initialized := true
  readOnly := false
  supportsFlush := false
  totalSectors := 2
  dmaPhys := 0x1000
  requestq := {
    queueSize := 4
    desc := fun i => ⟨0, 0, 0, if i + 1 < 4 then i + 1 else if i + 1 = 4 then noDescriptor else 0⟩
    availIdx := 0
    availRing := fun _ => 0
    usedIdx := 0
    usedRing := fun _ => 0
    freeHead := 0
    numFree := 4
    lastUsedIdx := 0
    initialized := true }
  mem := fun i => if 0x1000 ≤ i ∧ i < 0x1000 + 36864 then 0 else 0
  disk := lettersDisk
  pending := []
  schedule := []

theorem lettersMachine_init : init 0 4 0x1000 2 0 (fun _ => 0) lettersDisk = some lettersMachine :=
  rfl

theorem lettersMachine_read :
    Machine.init 0 4 0x1000 2 0 (fun _ => 0) lettersDisk = some lettersMachine ∧
    (Call.read 1 1 true [[], [], [⟨0, 0⟩]]).Quiet lettersMachine ∧
    (Call.read 1 1 true [[], [], [⟨0, 0⟩]]).Correct lettersMachine :=
  ⟨lettersMachine_init, rfl, quiet_transfer_correct lettersMachine_init .start _ rfl⟩

/-- With a device that completes nothing a request is given up, and its descriptors are freed. -/
theorem Machine.exchange_silent {a b c type sector len : Nat} {flags : BitVec 16}
    {submitted : Machine} (hschedule : m.schedule = []) (ha : m.requestq.allocDescriptor.1 = some a)
    (hb : m.requestq.allocDescriptor.2.allocDescriptor.1 = some b)
    (hc : m.requestq.allocDescriptor.2.allocDescriptor.2.allocDescriptor.1 = some c)
    (hsubmit : { m.prepare type sector with
      requestq := m.requestq.allocDescriptor.2.allocDescriptor.2.allocDescriptor.2 }.submitTransfer
      a b c flags len = submitted)
    (hstill : submitted.schedule = [] ∧ submitted.requestq.lastUsedIdx =
      submitted.requestq.usedIdx) :
    m.exchange type sector flags len = (some .timeout, submitted.freeDescriptorChain a) := by
  have htick : ∀ m : Machine, m.schedule = [] → m.tick = m := by
    intro m h
    unfold tick
    rw [h]
  have hwait : submitted.waitForCompletion a = (false, submitted) := by
    unfold waitForCompletion
    split
    · rfl
    · exact waitRounds_silent hstill.1 hstill.2
  unfold exchange
  rw [htick m hschedule, htick (m.prepare type sector) hschedule]
  have hqueue : (m.prepare type sector).requestq = m.requestq := rfl
  dsimp only
  rw [hqueue, ha, hb, hc]
  dsimp only
  rw [hsubmit]
  unfold await
  rw [hwait]
  rfl

/-- A read of sector 0 has been given up; its descriptors are free again and the device still has
it. -/
def abandonedMachine : Machine :=
  ({ lettersMachine.prepare virtioBlkTIn 0 with
    requestq :=
      lettersMachine.requestq.allocDescriptor.2.allocDescriptor.2.allocDescriptor.2 }.submitTransfer
      0 1 2 virtqDescFWrite 512).freeDescriptorChain 0

theorem lettersMachine_gives_up :
    lettersMachine.exchange virtioBlkTIn (0 : BitVec 64).toNat virtqDescFWrite 512 =
      (some .timeout, abandonedMachine) :=
  exchange_silent rfl (by decide +kernel) (by decide +kernel) (by decide +kernel) rfl
    (by decide +kernel)

variable {status : BlockStatus} {m' : Machine}

theorem Machine.read_one_failure (hinit : m.initialized = true)
    (hbounds : validateBounds m.totalSectors m.readOnly lba 1 true false = true)
    (h : m.exchange virtioBlkTIn lba.toNat virtqDescFWrite 512 = (some status, m')) :
    (m.readSectors lba 1 true).machine = m' := by
  unfold readSectors
  rw [hinit, if_neg (by decide), if_neg (by decide), hbounds, if_neg (by decide)]
  show (readLoop (0 + 1) lba.toNat 1 m).machine = m'
  rw [readLoop, if_neg Nat.one_ne_zero, if_neg (by decide)]
  dsimp only
  rw [h]

theorem Machine.perform_read_one_failure (hinit : m.initialized = true)
    (hschedule : m.schedule = [])
    (hbounds : validateBounds m.totalSectors m.readOnly lba 1 true false = true)
    (h : m.exchange virtioBlkTIn lba.toNat virtqDescFWrite 512 = (some status, m')) :
    m.perform (.read lba 1 true []) = m' := by
  have hsame : { m with schedule := [] } = m := by rw [← hschedule]
  have hread := read_one_failure hinit hbounds h
  rw [← hsame] at hread
  exact hread

theorem abandonedMachine_reached : lettersMachine.perform (.read 0 1 true []) = abandonedMachine :=
  perform_read_one_failure rfl rfl (by decide) lettersMachine_gives_up

/-- In every run, whatever requests fail or are given up, the free list holds distinct descriptors,
counted by `num_free`. -/
theorem free_list_intact {hostFeatures : BitVec 32} {qsize : BitVec 16} {dmaPhys : Nat}
    {capLow capHigh : BitVec 32} {mem disk : Buffer}
    (hinit : Machine.init hostFeatures qsize dmaPhys capLow capHigh mem disk = some m₀)
    (h : Reaches m₀ m) : ∃ free, m.requestq.Free free := by
  obtain ⟨free, hfree⟩ := reaches_ready (init_ready hinit) h
  exact ⟨free, hfree.list⟩

/-- The device still has the chain that was given up. -/
theorem abandonedMachine_free_list : abandonedMachine.pending.length = 1 ∧
    ∃ free, abandonedMachine.requestq.Free free := by
  have hreaches : Reaches lettersMachine abandonedMachine := by
    rw [← abandonedMachine_reached]
    exact .step _ .start
  exact ⟨by decide +kernel, free_list_intact lettersMachine_init hreaches⟩

/-- The read that was given up answers the next one: it succeeds with the wrong sector. -/
theorem abandoned_read_answers :
    Machine.init 0 4 0x1000 2 0 (fun _ => 0) lettersDisk = some lettersMachine ∧
    ¬ (Call.read 1 1 true [[], [], [⟨1, 0⟩, ⟨0, 0⟩]]).Correct
      (lettersMachine.perform (.read 0 1 true [])) := by
  refine ⟨lettersMachine_init, ?_⟩
  rw [abandonedMachine_reached]
  unfold Call.Correct
  decide +kernel

end LlamaOS.Drivers
