import LlamaOS.Drivers.VirtioBlock

/-!
# What the device does between two steps of the driver

Completions never touch the driver's own part of the queue. With nothing outstanding they change
nothing, and with one chain outstanding they do nothing but serve it.
-/

namespace LlamaOS.Drivers
open ByteBuffer

namespace Machine

structure Alike (m m' : Machine) : Prop where
  initialized : m'.initialized = m.initialized
  readOnly : m'.readOnly = m.readOnly
  totalSectors : m'.totalSectors = m.totalSectors
  dmaPhys : m'.dmaPhys = m.dmaPhys
  queueInit : m'.requestq.initialized = m.requestq.initialized
  queueSize : m'.requestq.queueSize = m.requestq.queueSize
  desc : m'.requestq.desc = m.requestq.desc
  freeHead : m'.requestq.freeHead = m.requestq.freeHead
  numFree : m'.requestq.numFree = m.requestq.numFree

variable {m m' m'' : Machine}

theorem Alike.refl (m : Machine) : Alike m m := ⟨rfl, rfl, rfl, rfl, rfl, rfl, rfl, rfl, rfl⟩

theorem Alike.trans (h : Alike m m') (h' : Alike m' m'') : Alike m m'' :=
  ⟨h'.initialized.trans h.initialized, h'.readOnly.trans h.readOnly,
    h'.totalSectors.trans h.totalSectors,
    h'.dmaPhys.trans h.dmaPhys, h'.queueInit.trans h.queueInit, h'.queueSize.trans h.queueSize,
      h'.desc.trans h.desc,
    h'.freeHead.trans h.freeHead, h'.numFree.trans h.numFree⟩

theorem Alike.free (h : Alike m m') {free : List Nat} (hfree : m.requestq.Free free) :
    m'.requestq.Free free := by
  refine ⟨?_, hfree.nodup, ?_, ?_, ?_⟩
  · rw [h.desc, h.freeHead]
    exact hfree.links
  · rw [h.queueSize]
    exact hfree.bound
  · rw [h.numFree]
    exact hfree.count
  · rw [h.queueSize]
    exact hfree.size

theorem alike_transfer (m : Machine) (r : DeviceRequest) : Alike m (m.transfer r) := by
  unfold transfer
  split
  · exact .refl m
  split
  · exact ⟨rfl, rfl, rfl, rfl, rfl, rfl, rfl, rfl, rfl⟩
  · split
    · exact ⟨rfl, rfl, rfl, rfl, rfl, rfl, rfl, rfl, rfl⟩
    · exact .refl m

theorem alike_serve (m : Machine) (r : DeviceRequest) (status : BitVec 8) :
    Alike m (m.serve r status) := by
  have hpush : ∀ m : Machine, Alike m
      { m with mem := patch m.mem r.status [status], requestq := m.requestq.pushUsed r.head } :=
    fun m => ⟨rfl, rfl, rfl, rfl, rfl, rfl, rfl, rfl, rfl⟩
  unfold serve
  split
  · exact (m.alike_transfer r).trans (hpush _)
  · exact hpush m

theorem alike_complete (m : Machine) (c : Completion) : Alike m (m.complete c) := by
  unfold complete
  split
  · exact .refl m
  · have hserve := m.alike_serve (by assumption) c.status
    exact hserve.trans ⟨rfl, rfl, rfl, rfl, rfl, rfl, rfl, rfl, rfl⟩

theorem alike_settle (cs : List Completion) : ∀ m : Machine, Alike m (m.settle cs) := by
  induction cs with
  | nil => exact fun m => .refl m
  | cons c cs ih => exact fun m => (m.alike_complete c).trans (ih _)

theorem alike_tick (m : Machine) : Alike m m.tick := by
  unfold tick
  split
  · exact .refl m
  rename_i cs schedule _
  have hrest : Alike m { m with schedule } := ⟨rfl, rfl, rfl, rfl, rfl, rfl, rfl, rfl, rfl⟩
  exact hrest.trans (alike_settle cs _)

theorem alike_poll (m : Machine) (head : Nat) :
    Alike m { m with requestq := (m.requestq.poll head).2 } := by
  unfold Virtqueue.poll
  split
  · exact ⟨rfl, rfl, rfl, rfl, rfl, rfl, rfl, rfl, rfl⟩
  · exact .refl m

/-- The chain `r` is served or still waits; `m₀` is the machine it was submitted in. -/
inductive Serving (r : DeviceRequest) (m₀ m : Machine) : Prop where
  | waiting (hpending : m.pending = [r]) (hmem : m.mem = m₀.mem) (hdisk : m.disk = m₀.disk)
  | served (status : BitVec 8) (hpending : m.pending = []) (hmem : m.mem = (m₀.serve r status).mem)
      (hdisk : m.disk = (m₀.serve r status).disk)

variable {r : DeviceRequest} {m₀ : Machine}

theorem complete_idle (h : m.pending = []) (c : Completion) : m.complete c = m := by
  unfold complete
  rw [h]
  rfl

theorem settle_idle (h : m.pending = []) (cs : List Completion) : m.settle cs = m := by
  induction cs with
  | nil => rfl
  | cons c cs ih =>
    show (m.complete c).settle cs = m
    rw [complete_idle h]
    exact ih

theorem tick_idle (h : m.pending = []) : m.tick = { m with schedule := m.schedule.tail } := by
  unfold tick
  split
  · rename_i hschedule
    rw [hschedule, List.tail_nil, ← hschedule]
  rename_i cs schedule hschedule
  have hrest : { m with schedule }.pending = [] := h
  rw [settle_idle hrest, hschedule]
  rfl

theorem tick_pending (h : m.pending = []) : m.tick.pending = [] := by
  rw [tick_idle h]
  exact h

theorem serve_congr (hmem : m.mem = m₀.mem) (hdisk : m.disk = m₀.disk) (r : DeviceRequest)
    (status : BitVec 8) :
    (m.serve r status).mem = (m₀.serve r status).mem ∧ (m.serve r status).disk =
      (m₀.serve r status).disk := by
  have htransfer : (m.transfer r).mem = (m₀.transfer r).mem ∧
      (m.transfer r).disk = (m₀.transfer r).disk := by
    unfold transfer
    split
    · exact ⟨hmem, hdisk⟩
    split
    · exact ⟨by rw [hmem, hdisk], hdisk⟩
    · split
      · exact ⟨hmem, by rw [hmem, hdisk]⟩
      · exact ⟨hmem, hdisk⟩
  unfold serve
  dsimp only
  split
  · exact ⟨by rw [htransfer.1], htransfer.2⟩
  · exact ⟨by rw [hmem], hdisk⟩

theorem Serving.complete (h : Serving r m₀ m) (c : Completion) : Serving r m₀ (m.complete c) := by
  cases h with
  | waiting hpending hmem hdisk =>
    cases hwhich : c.which with
    | zero =>
      obtain ⟨hmem', hdisk'⟩ := serve_congr hmem hdisk r c.status
      have hone : m.complete c = { m.serve r c.status with pending := [] } := by
        unfold Machine.complete
        rw [hwhich, hpending]
        rfl
      rw [hone]
      exact .served c.status rfl hmem' hdisk'
    | succ n =>
      have hnone : m.complete c = m := by
        unfold Machine.complete
        rw [hwhich, hpending]
        rfl
      rw [hnone]
      exact .waiting hpending hmem hdisk
  | served status hpending hmem hdisk =>
    rw [complete_idle hpending]
    exact .served status hpending hmem hdisk

theorem Serving.settle (cs : List Completion) :
    ∀ {m : Machine}, Serving r m₀ m → Serving r m₀ (m.settle cs) := by
  induction cs with
  | nil => exact fun h => h
  | cons c cs ih => exact fun h => ih (h.complete c)

/-- The memory, the disk and the chains of the device are the same. -/
structure Still (m m' : Machine) : Prop where
  mem : m'.mem = m.mem
  disk : m'.disk = m.disk
  pending : m'.pending = m.pending

theorem Serving.still (h : Serving r m₀ m) (hstill : Still m m') : Serving r m₀ m' := by
  cases h with
  | waiting hpending hmem hdisk =>
    exact .waiting (hstill.pending.trans hpending) (hstill.mem.trans hmem) (hstill.disk.trans hdisk)
  | served status hpending hmem hdisk =>
    exact .served status (hstill.pending.trans hpending) (hstill.mem.trans hmem)
      (hstill.disk.trans hdisk)

theorem Serving.tick (h : Serving r m₀ m) : Serving r m₀ m.tick := by
  unfold Machine.tick
  split
  · exact h
  · rename_i cs schedule _
    have hsame : Still m { m with schedule } := ⟨rfl, rfl, rfl⟩
    exact (h.still hsame).settle cs

theorem waitRounds_spec (head polls : Nat) (m : Machine) : Alike m (m.waitRounds head polls).2 ∧
    (Serving r m₀ m → Serving r m₀ (m.waitRounds head polls).2) := by
  constructor
  · apply Virtqueue.waitRounds_keeps (P := Alike m) _ polls (.refl m)
    exact fun m' h => (h.trans m'.alike_tick).trans (m'.tick.alike_poll head)
  · apply Virtqueue.waitRounds_keeps
    exact fun m' h => h.tick.still ⟨rfl, rfl, rfl⟩

theorem waitForCompletion_spec (m : Machine) (head : Nat) : Alike m (m.waitForCompletion head).2 ∧
    (Serving r m₀ m → Serving r m₀ (m.waitForCompletion head).2) := by
  unfold waitForCompletion
  split
  · exact ⟨.refl m, id⟩
  · exact waitRounds_spec head maxPolls m

theorem waitRounds_silent {head polls : Nat} (hschedule : m.schedule = [])
    (hused : m.requestq.lastUsedIdx = m.requestq.usedIdx) :
    m.waitRounds head polls = (false, m) := by
  apply Virtqueue.waitRounds_silent _ rfl hused
  unfold Machine.tick
  rw [hschedule]

end Machine

end LlamaOS.Drivers
