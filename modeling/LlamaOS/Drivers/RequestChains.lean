import LlamaOS.Drivers.DeviceSteps

/-!
# Chains of descriptors between calls

Whatever the device does, every call of the driver leaves the free list of the queue intact: the
descriptors it takes are given back as one chain, or one by one when there are too few of them.
-/

namespace LlamaOS.Drivers
open ByteBuffer LinkedStack Virtqueue

variable {chain : List Nat} {head : Nat} {desc : Nat → VirtqDesc}

namespace Virtqueue

/-- The descriptors of `taken` are allocated and cleared, those of `free` are on the free list. -/
structure Claimed (q : Virtqueue) (taken free : List Nat) : Prop where
  list : q.Free free
  nodup : (taken ++ free).Nodup
  bound : ∀ x ∈ taken, x < q.queueSize
  cleared : ∀ x ∈ taken, q.desc x = ⟨0, 0, 0, 0⟩
  ready : q.initialized = true

variable {q : Virtqueue} {taken free : List Nat}

theorem Claimed.of_free (h : q.Free free) (hready : q.initialized = true) : q.Claimed [] free :=
  ⟨h, h.nodup, nofun, nofun, hready⟩

variable {size : BitVec 16}

theorem queueSize_le (h : size &&& (size - 1) = 0) : size.toNat ≤ 0x8000 := by
  have hmsb : size.msb = false ∨ (size - 1).msb = false := by
    have hand : (size &&& (size - 1)).msb = false := by rw [h]; decide
    rwa [BitVec.msb_and, Bool.and_eq_false_iff] at hand
  rcases hmsb with hmsb | hmsb
  · have hlt := BitVec.toNat_lt_of_msb_false hmsb
    omega
  have hlt := BitVec.toNat_lt_of_msb_false hmsb
  by_cases hzero : size.toNat = 0
  · omega
  rw [BitVec.toNat_sub_of_le] at hlt
  · have hone : (1 : BitVec 16).toNat = 1 := rfl
    omega
  · rw [BitVec.le_def]
    have hone : (1 : BitVec 16).toNat = 1 := rfl
    omega

theorem init_claimed {q : Virtqueue} (h : Virtqueue.init size = some q) :
    q.Claimed [] (List.range' 0 size.toNat) := by
  unfold Virtqueue.init at h
  split at h
  · cases h
  rename_i hsize
  simp only [Bool.or_eq_true, decide_eq_true_eq, bne_iff_ne, not_or, not_not] at hsize
  have hpos : 0 < size.toNat := by
    rcases Nat.eq_zero_or_pos size.toNat with hzero | hpos
    · exact absurd (BitVec.eq_of_toNat_eq hzero) hsize.1
    · exact hpos
  cases h
  refine .of_free ⟨links_range (fun i _ hi => ?_) (fun _ => ?_) hpos, List.nodup_range',
    fun x hx => ?_, ?_, ?_⟩ rfl
  · dsimp only at hi ⊢
    rw [Nat.zero_add] at hi
    rw [if_pos hi]
  · dsimp only
    rw [if_neg (by omega), if_pos (by omega)]
  · have hx' := List.mem_range'_1.mp hx
    dsimp only
    omega
  · rw [List.length_range']
  · exact queueSize_le hsize.2

theorem Claimed.alloc (h : q.Claimed taken free) :
    ∃ free', q.allocDescriptor.2.Claimed (taken ++ q.allocDescriptor.1.toList) free' := by
  cases free with
  | nil =>
    rw [h.list.alloc_nil, Option.toList_none, List.append_nil]
    exact ⟨[], h⟩
  | cons x free =>
    have halloc := h.list.alloc_cons
    have hsize : q.allocDescriptor.2.queueSize = q.queueSize := by rw [halloc]
    have hsome : q.allocDescriptor.1.toList = [x] := by rw [halloc, Option.toList_some]
    have hx : x ∉ taken := fun hmem =>
      (List.nodup_append.mp h.nodup).2.2 x hmem x List.mem_cons_self rfl
    rw [hsome]
    refine ⟨free, h.list.alloc_rest, ?_, ?_, ?_, ?_⟩
    · rw [List.append_assoc]
      exact h.nodup
    · intro y hy
      rw [hsize]
      rcases List.mem_append.mp hy with hy | hy
      · exact h.bound y hy
      · rw [List.mem_singleton.mp hy]
        exact h.list.cons_bounds.1
    · intro y hy
      rw [halloc]
      dsimp only
      rcases List.mem_append.mp hy with hy | hy
      · have hne : y ≠ x := fun heq => hx (heq ▸ hy)
        rw [Function.update_of_ne hne]
        exact h.cleared y hy
      · rw [List.mem_singleton.mp hy, Function.update_self]
    · rw [halloc]
      exact h.ready

/-- Freeing a chain touches nothing but the descriptors and the free list. -/
theorem releaseFrom_rest (q : Virtqueue) (cur rounds : Nat) :
    ∃ desc freeHead numFree, q.releaseFrom cur rounds = { q with desc, freeHead, numFree } := by
  induction rounds generalizing q cur with
  | zero => exact ⟨q.desc, q.freeHead, q.numFree, rfl⟩
  | succ rounds ih =>
    rw [releaseFrom]
    split
    · exact ⟨_, _, _, rfl⟩
    · obtain ⟨desc, freeHead, numFree, hrest⟩ := ih (q.release cur) (q.desc cur).next
      exact ⟨desc, freeHead, numFree, hrest⟩

theorem freeDescriptorChain_rest (q : Virtqueue) (head : Nat) :
    ∃ desc freeHead numFree, q.freeDescriptorChain head = { q with desc, freeHead, numFree } := by
  unfold freeDescriptorChain
  split
  · exact ⟨q.desc, q.freeHead, q.numFree, rfl⟩
  · exact q.releaseFrom_rest head _

theorem freeDescriptorChain_ready (q : Virtqueue) (head : Nat) :
    (q.freeDescriptorChain head).initialized = q.initialized := by
  obtain ⟨desc, freeHead, numFree, hrest⟩ := q.freeDescriptorChain_rest head
  rw [hrest]

theorem Free.freeChain (h : q.Free free) (hchain : q.Chained head chain)
    (hnodup : (chain ++ free).Nodup) (hbound : ∀ y ∈ chain, y < q.queueSize) :
    (q.freeDescriptorChain head).Free (chain.reverse ++ free) := by
  have hhead : head ∈ chain := by
    cases chain with
    | nil => exact hchain.elim
    | cons x chain => cases chain with
      | nil => exact hchain.1 ▸ List.mem_cons_self
      | cons y chain => exact hchain.1 ▸ List.mem_cons_self
  have hlength : chain.length ≤ q.queueSize := by
    have hsub : chain ⊆ List.range q.queueSize := fun y hy => List.mem_range.mpr (hbound y hy)
    have hle := ((List.nodup_append.mp hnodup).1.subperm hsub).length_le
    rwa [List.length_range] at hle
  unfold freeDescriptorChain
  rw [if_neg (Nat.not_le.mpr (hbound head hhead))]
  exact h.releaseFrom hchain hnodup hbound (Nat.le_succ_of_le hlength)

theorem Claimed.giveBack {ds : List (Option Nat)} : ∀ {q : Virtqueue} {free : List Nat},
    q.Claimed (ds.filterMap id) free → ∃ free', (Machine.giveBack q ds).Claimed [] free' := by
  induction ds with
  | nil => exact fun h => ⟨_, h⟩
  | cons d ds ih =>
    intro q free h
    cases d with
    | none => exact ih h
    | some d =>
      have hcleared := h.cleared d List.mem_cons_self
      have hsplit := List.nodup_cons.mp h.nodup
      have hchain : q.Chained d [d] := ⟨rfl, by rw [hcleared]; decide⟩
      have hnodup : ([d] ++ free).Nodup :=
        List.nodup_cons.mpr ⟨fun hmem => hsplit.1 (List.mem_append_right _ hmem),
          (List.nodup_append.mp hsplit.2).2.1⟩
      have hd := h.bound d List.mem_cons_self
      have hbound : ∀ y ∈ [d], y < q.queueSize :=
        fun y hy => by rw [List.mem_singleton.mp hy]; exact hd
      have hone : q.freeDescriptorChain d = q.release d := by
        have hlast : ((q.desc d).hasNext) = false := by rw [hcleared]; rfl
        unfold freeDescriptorChain
        rw [if_neg (Nat.not_le.mpr hd), releaseFrom, if_pos]
        rw [hlast, Bool.not_false, Bool.true_or]
      have hfree := h.list.freeChain hchain hnodup hbound
      refine @ih (q.freeDescriptorChain d) (d :: free) ⟨hfree, ?_, ?_, ?_, ?_⟩
      · exact List.nodup_middle.mpr (List.nodup_cons.mpr hsplit)
      · intro y hy
        rw [hone]
        exact h.bound y (List.mem_cons_of_mem _ hy)
      · intro y hy
        have hne : y ≠ d := fun heq => hsplit.1 (List.mem_append_left _ (heq ▸ hy))
        rw [hone]
        unfold release
        dsimp only
        rw [Function.update_of_ne hne]
        exact h.cleared y (List.mem_cons_of_mem _ hy)
      · rw [freeDescriptorChain_ready]
        exact h.ready

theorem setDescriptor_of_lt {index : Nat} (h : index < q.queueSize) (paddr len : Nat)
    (flags : BitVec 16) (next : Nat) :
    q.setDescriptor index paddr len flags next =
      { q with desc := Function.update q.desc index ⟨paddr, len, flags, next⟩ } :=
        if_neg (Nat.not_le.mpr h)

theorem setDescriptor_size (q : Virtqueue) (index paddr len : Nat) (flags : BitVec 16)
    (next : Nat) : (q.setDescriptor index paddr len flags next).queueSize = q.queueSize := by
  unfold setDescriptor
  split <;> rfl

theorem Claimed.set (h : q.Claimed taken free) (hother : ∀ y, y ∉ taken → desc y = q.desc y) :
    { q with desc }.Free free := by
  refine ⟨h.list.links.congr fun y hy => ?_, h.list.nodup, h.list.bound, h.list.count, h.list.size⟩
  have hy' : y ∉ taken := fun hmem => (List.nodup_append.mp h.nodup).2.2 y hmem y hy rfl
  dsimp only
  rw [hother y hy']

theorem hasNext_or_next (flags : BitVec 16) (addr len next : Nat) :
    VirtqDesc.hasNext ⟨addr, len, flags ||| virtqDescFNext, next⟩ = true := by
  have hbit : (flags ||| virtqDescFNext) &&& virtqDescFNext = virtqDescFNext := by
    rw [BitVec.and_or_distrib_right, BitVec.and_self]
    ext i
    simp
  unfold VirtqDesc.hasNext
  rw [hbit]
  decide

theorem hasNext_next (addr len next : Nat) :
    VirtqDesc.hasNext ⟨addr, len, virtqDescFNext, next⟩ = true := by
  have hbit : (virtqDescFNext &&& virtqDescFNext != 0) = true := by decide
  exact hbit

theorem not_hasNext_write (addr len next : Nat) :
    ¬ VirtqDesc.hasNext ⟨addr, len, virtqDescFWrite, next⟩ = true := by
  have hbit : ¬ (virtqDescFWrite &&& virtqDescFNext != 0) = true := by decide
  exact hbit

theorem walk_congr {q' : Virtqueue} (h : q'.desc = q.desc) (rounds : Nat) :
    ∀ head, q'.walk head rounds = q.walk head rounds := by
  induction rounds with
  | zero => exact fun _ => rfl
  | succ rounds ih =>
    intro head
    rw [walk, walk, h, ih]

/-- The descriptors of a transfer: header, data and status byte. -/
def transferChain (q : Virtqueue) (a b c hdr data len status : Nat) (flags : BitVec 16) :
    Virtqueue :=
  { q with desc := Function.update (Function.update
      (Function.update q.desc a ⟨hdr, 16, virtqDescFNext, b⟩) b
      ⟨data, len, flags ||| virtqDescFNext, c⟩) c ⟨status, 1, virtqDescFWrite, 0⟩ }

section
variable {a b c : Nat} (h : q.Claimed [a, b, c] free) (hdr data len status : Nat)
  (flags : BitVec 16)
include h

theorem Claimed.distinct : a ≠ b ∧ a ≠ c ∧ b ≠ c := by
  have htaken := (List.nodup_append.mp h.nodup).1
  simp only [List.nodup_cons, List.mem_cons, List.not_mem_nil, or_false, not_or] at htaken
  exact ⟨htaken.1.1, htaken.1.2, htaken.2.1⟩

theorem Claimed.three_lt : a < q.queueSize ∧ b < q.queueSize ∧ c < q.queueSize :=
  ⟨h.bound a (by simp), h.bound b (by simp), h.bound c (by simp)⟩

theorem transferChain_free : (q.transferChain a b c hdr data len status flags).Free free := by
  refine h.set fun y hy => ?_
  simp only [List.mem_cons, List.not_mem_nil, or_false, not_or] at hy
  rw [Function.update_of_ne hy.2.2, Function.update_of_ne hy.2.1, Function.update_of_ne hy.1]

theorem transferChain_desc :
    (q.transferChain a b c hdr data len status flags).desc a = ⟨hdr, 16, virtqDescFNext, b⟩ ∧
    (q.transferChain a b c hdr data len status flags).desc b =
      ⟨data, len, flags ||| virtqDescFNext, c⟩ ∧
    (q.transferChain a b c hdr data len status flags).desc c = ⟨status, 1, virtqDescFWrite, 0⟩ := by
  obtain ⟨hab, hac, hbc⟩ := h.distinct
  unfold transferChain
  dsimp only
  refine ⟨?_, ?_, ?_⟩
  · rw [Function.update_of_ne hac, Function.update_of_ne hab, Function.update_self]
  · rw [Function.update_of_ne hbc, Function.update_self]
  · rw [Function.update_self]

theorem transferChain_chained :
    (q.transferChain a b c hdr data len status flags).Chained a [a, b, c] := by
  obtain ⟨ha, hb, hc⟩ := transferChain_desc h hdr data len status flags
  refine ⟨rfl, ?_, ?_, rfl, ?_, ?_, rfl, ?_⟩
  · rw [ha]
    exact hasNext_next _ _ _
  · rw [ha]
  · rw [hb]
    exact hasNext_or_next _ _ _ _
  · rw [hb]
  · rw [hc]
    exact not_hasNext_write _ _ _

theorem transferChain_walk : (q.transferChain a b c hdr data len status flags).walk a q.queueSize =
    [⟨hdr, 16, virtqDescFNext, b⟩, ⟨data, len, flags ||| virtqDescFNext, c⟩,
      ⟨status, 1, virtqDescFWrite, 0⟩] := by
  obtain ⟨ha, hb, hc⟩ := transferChain_desc h hdr data len status flags
  obtain ⟨hab, hac, hbc⟩ := h.distinct
  obtain ⟨hla, hlb, hlc⟩ := h.three_lt
  obtain ⟨n, hn⟩ : ∃ n, q.queueSize = n + 3 := ⟨q.queueSize - 3, by omega⟩
  rw [hn, walk, ha, if_pos (hasNext_next _ _ _), walk, hb, if_pos (hasNext_or_next _ _ _ _),
    walk, hc, if_neg (not_hasNext_write _ _ _)]

end

end Virtqueue

namespace Machine

variable {m m' : Machine}

/-- The queue is set up and its free list is in order. -/
def Ready (m : Machine) : Prop := ∃ free, m.requestq.Claimed [] free

theorem Alike.ready (h : Alike m m') (hready : m.Ready) : m'.Ready := by
  obtain ⟨free, hfree⟩ := hready
  exact ⟨free, .of_free (h.free hfree.list) (h.queueInit.trans hfree.ready)⟩

theorem alike_accept (m : Machine) (slot : Nat) : Alike m (m.accept slot) := by
  unfold accept
  dsimp only
  split
  · exact ⟨rfl, rfl, rfl, rfl, rfl, rfl, rfl, rfl, rfl⟩
  · exact ⟨rfl, rfl, rfl, rfl, rfl, rfl, rfl, rfl, rfl⟩
  · exact .refl m

theorem alike_submit (m : Machine) (head : Nat) : Alike m (m.submitDescriptorChain head) := by
  unfold submitDescriptorChain
  dsimp only
  split
  · exact .refl m
  refine Alike.trans ?_ (alike_accept _ _)
  exact ⟨rfl, rfl, rfl, rfl, rfl, rfl, rfl, rfl, rfl⟩

structure Configured (m m' : Machine) : Prop where
  initialized : m'.initialized = m.initialized
  dmaPhys : m'.dmaPhys = m.dmaPhys

theorem Configured.trans {m'' : Machine} (h : Configured m m') (h' : Configured m' m'') :
    Configured m m'' :=
  ⟨h'.initialized.trans h.initialized, h'.dmaPhys.trans h.dmaPhys⟩

theorem Alike.configured (h : Alike m m') : Configured m m' := ⟨h.initialized, h.dmaPhys⟩

variable {free : List Nat}

theorem await_ready (hfree : m.requestq.Free free) (hinit : m.requestq.initialized = true)
    (hchain : m.requestq.Chained head chain) (hnodup : (chain ++ free).Nodup)
    (hbound : ∀ y ∈ chain, y < m.requestq.queueSize) :
    (m.await head).2.Ready ∧ Configured m (m.await head).2 := by
  have halike : Alike m (m.waitForCompletion head).2 :=
    (@waitForCompletion_spec ⟨0, 0, 0, none, 0⟩ m m head).1
  unfold await freeDescriptorChain
  refine ⟨⟨_, .of_free ((halike.free hfree).freeChain (hchain.congr fun y _ => ?_) hnodup ?_) ?_⟩,
    halike.initialized, halike.dmaPhys⟩
  · rw [halike.desc]
  · rw [halike.queueSize]
    exact hbound
  · rw [freeDescriptorChain_ready, halike.queueInit]
    exact hinit

theorem submit_three {head : Nat} {hdr data status : VirtqDesc}
    (hinit : m.requestq.initialized = true) (hhead : head < m.requestq.queueSize)
    (hwalk : m.requestq.walk head m.requestq.queueSize = [hdr, data, status]) :
    (m.submitDescriptorChain head).pending = m.pending ++
        [⟨head, loadLe m.mem hdr.addr 4, loadLe m.mem (hdr.addr + 8) 8, some (data.addr, data.len),
          status.addr⟩] ∧
      (m.submitDescriptorChain head).mem = m.mem ∧ (m.submitDescriptorChain head).disk =
        m.disk := by
  have hwalk' : ∀ q : Virtqueue, q.desc = m.requestq.desc →
      q.walk head m.requestq.queueSize = [hdr, data, status] := by
    intro q hdesc
    rw [walk_congr hdesc, hwalk]
  unfold submitDescriptorChain
  rw [if_neg]
  · unfold accept makeAvailable
    dsimp only
    rw [Function.update_self, hwalk']
    · exact ⟨rfl, rfl, rfl⟩
    · rfl
  · rw [hinit]
    simp only [Bool.not_true, Bool.false_or, decide_eq_true_eq, Nat.not_le]
    exact hhead

/-- The descriptors that were taken become a chain; it is submitted, waited for and given back. -/
theorem submit_ready {taken : List Nat} (h : m.requestq.Claimed taken free)
    (hfree : { m.requestq with desc }.Free free)
    (hchain : { m.requestq with desc }.Chained head taken) :
    (({ m with requestq := { m.requestq with desc } }.submitDescriptorChain head).await
      head).2.Ready ∧
      Configured m (({ m with requestq := { m.requestq with desc } }.submitDescriptorChain
        head).await head).2 := by
  have halike := alike_submit { m with requestq := { m.requestq with desc } } head
  obtain ⟨hready, hconf⟩ := await_ready (halike.free hfree) (halike.queueInit.trans h.ready)
    (hchain.congr fun y _ => congrFun halike.desc y) h.nodup
      (by rw [halike.queueSize]; exact h.bound)
  exact ⟨hready, hconf.initialized.trans halike.initialized, hconf.dmaPhys.trans halike.dmaPhys⟩

/-- The request of a transfer as the device reads it from the header. -/
def request (m : Machine) (head len : Nat) : DeviceRequest :=
  ⟨head, loadLe m.mem m.dmaPhys 4, loadLe m.mem (m.dmaPhys + 8) 8, some (m.bounceAddr, len),
    m.statusAddr⟩

section
variable {a b c : Nat} {free : List Nat} (h : m.requestq.Claimed [a, b, c] free) (flags : BitVec 16)
  (len : Nat)
include h

theorem submitTransfer_chain : m.submitTransfer a b c flags len = { m with
    requestq := m.requestq.transferChain a b c m.dmaPhys m.bounceAddr len
      m.statusAddr flags }.submitDescriptorChain a := by
  obtain ⟨ha, hb, hc⟩ := h.three_lt
  unfold submitTransfer
  rw [setDescriptor_of_lt ha, setDescriptor_of_lt, setDescriptor_of_lt]
  · rfl
  · exact hb
  · rw [setDescriptor_size]
    exact hc

/-- The device takes the request; nothing else is changed outside the queue. -/
theorem submitTransfer_pending :
    (m.submitTransfer a b c flags len).pending = m.pending ++ [m.request a len] ∧
    (m.submitTransfer a b c flags len).mem = m.mem ∧ (m.submitTransfer a b c flags len).disk =
      m.disk := by
  have hwalk := transferChain_walk h m.dmaPhys m.bounceAddr len m.statusAddr flags
  rw [submitTransfer_chain h]
  exact @submit_three { m with
    requestq := m.requestq.transferChain a b c m.dmaPhys m.bounceAddr len m.statusAddr flags } _ _
      _ _ h.ready h.three_lt.1 hwalk

theorem submitTransfer_ready : ((m.submitTransfer a b c flags len).await a).2.Ready ∧
    Configured m ((m.submitTransfer a b c flags len).await a).2 := by
  rw [submitTransfer_chain h]
  exact submit_ready h (transferChain_free h m.dmaPhys m.bounceAddr len m.statusAddr flags)
    (transferChain_chained h m.dmaPhys m.bounceAddr len m.statusAddr flags)

end

theorem submitFlush_ready {a b : Nat} (h : m.requestq.Claimed [a, b] free) :
    (({ m with
      requestq := (m.requestq.setDescriptor a m.dmaPhys 16 virtqDescFNext b).setDescriptor b
        m.statusAddr 1 virtqDescFWrite 0 }.submitDescriptorChain a).await a).2.Ready := by
  have hab : a ≠ b := by
    have htaken := (List.nodup_append.mp h.nodup).1
    exact fun heq => (List.nodup_cons.mp htaken).1 (heq ▸ List.mem_cons_self)
  rw [setDescriptor_of_lt (h.bound a (by simp)), setDescriptor_of_lt]
  · refine (submit_ready h (h.set fun y hy => ?_) ⟨rfl, ?_, ?_, rfl, ?_⟩).1
    · simp only [List.mem_cons, List.not_mem_nil, or_false, not_or] at hy
      rw [Function.update_of_ne hy.2]
      exact Function.update_of_ne hy.1 _ _
    · dsimp only
      rw [Function.update_of_ne hab, Function.update_self]
      exact hasNext_next _ _ _
    · dsimp only
      rw [Function.update_of_ne hab, Function.update_self]
    · dsimp only
      rw [Function.update_self]
      exact not_hasNext_write _ _ _
  · exact h.bound b (by simp)

end Machine

end LlamaOS.Drivers
