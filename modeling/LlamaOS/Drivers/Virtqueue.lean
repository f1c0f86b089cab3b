import LlamaOS.Shared.LinkedStack
import Mathlib.Data.BitVec

/-!
# Virtqueues

`virtio_queue.cpp`: the descriptor table with its free list and the two rings. The device reads
descriptors and the ring of available chains, and writes the ring of used ones. Addresses,
lengths and descriptor numbers are natural numbers; the ring indices wrap at 16 bits.
-/

namespace LlamaOS.Drivers
open LinkedStack

def virtqDescFNext : BitVec 16 := 1

def virtqDescFWrite : BitVec 16 := 2

structure VirtqDesc where
  addr : Nat
  len : Nat
  flags : BitVec 16
  next : Nat
  deriving DecidableEq, Repr

def VirtqDesc.hasNext (d : VirtqDesc) : Bool := d.flags &&& virtqDescFNext != 0

/-- The end of the free list. -/
def noDescriptor : Nat := 0xFFFF

structure Virtqueue where
  queueSize : Nat
  desc : Nat → VirtqDesc
  availIdx : BitVec 16
  availRing : Nat → Nat
  usedIdx : BitVec 16
  usedRing : Nat → Nat
  freeHead : Nat
  numFree : Nat
  lastUsedIdx : BitVec 16
  initialized : Bool

namespace Virtqueue

/-- `Virtqueue::init` with memory for the queue: the free list runs through all descriptors. -/
def init (queueSize : BitVec 16) : Option Virtqueue :=
  if queueSize = 0 || queueSize &&& (queueSize - 1) != 0 then none
  else some {
    queueSize := queueSize.toNat
    desc := fun i => ⟨0, 0, 0, if i + 1 < queueSize.toNat then i + 1 else if i + 1 =
      queueSize.toNat then noDescriptor else 0⟩
    availIdx := 0
    availRing := fun _ => 0
    usedIdx := 0
    usedRing := fun _ => 0
    freeHead := 0
    numFree := queueSize.toNat
    lastUsedIdx := 0
    initialized := true }

/-- The number comes back as a signed 16-bit one; a negative one is no descriptor. -/
def allocDescriptor (q : Virtqueue) : Option Nat × Virtqueue :=
  if q.numFree = 0 || q.freeHead = noDescriptor then (none, q)
  else
    (if q.freeHead < 0x8000 then some q.freeHead else none,
      { q with
        freeHead := (q.desc q.freeHead).next
        numFree := q.numFree - 1
        desc := Function.update q.desc q.freeHead ⟨0, 0, 0, 0⟩ })

def release (q : Virtqueue) (cur : Nat) : Virtqueue :=
  { q with
    desc := Function.update q.desc cur ⟨0, 0, 0, q.freeHead⟩
    freeHead := cur
    numFree := q.numFree + 1 }

/-- The loop of `free_descriptor_chain`. A released descriptor has no next one, so the loop ends
after at most one round for each descriptor and one more. -/
def releaseFrom (q : Virtqueue) (cur : Nat) : Nat → Virtqueue
  | 0 => q
  | rounds + 1 =>
    if !(q.desc cur).hasNext || q.queueSize ≤ (q.desc cur).next then q.release cur
    else (q.release cur).releaseFrom (q.desc cur).next rounds

def freeDescriptorChain (q : Virtqueue) (head : Nat) : Virtqueue :=
  if q.queueSize ≤ head then q else q.releaseFrom head (q.queueSize + 1)

def setDescriptor (q : Virtqueue) (index paddr len : Nat) (flags : BitVec 16) (next : Nat) :
    Virtqueue :=
  if q.queueSize ≤ index then q
  else { q with desc := Function.update q.desc index ⟨paddr, len, flags, next⟩ }

/-- The chain of descriptors from `head` on, as the device reads it. -/
def walk (q : Virtqueue) (head : Nat) : Nat → List VirtqDesc
  | 0 => []
  | rounds + 1 =>
    q.desc head :: if (q.desc head).hasNext then q.walk (q.desc head).next rounds else []

/-- The device puts a chain into the ring of used ones. -/
def pushUsed (q : Virtqueue) (id : Nat) : Virtqueue :=
  { q with usedRing := Function.update q.usedRing (q.usedIdx.toNat % q.queueSize) id, usedIdx :=
    q.usedIdx + 1 }

/-- The driver's part of `submit_descriptor_chain`: the chain is in the ring of available ones. -/
def makeAvailable (q : Virtqueue) (head : Nat) : Virtqueue :=
  { q with
    availRing := Function.update q.availRing (q.availIdx.toNat % q.queueSize) head
    availIdx := q.availIdx + 1 }

/-- One look at the ring of used chains in `wait_for_completion`. -/
def poll (q : Virtqueue) (head : Nat) : Bool × Virtqueue :=
  if q.lastUsedIdx ≠ q.usedIdx then
    (q.usedRing (q.lastUsedIdx.toNat % q.queueSize) = head,
      { q with lastUsedIdx := q.lastUsedIdx + 1 })
  else (false, q)

section Waiting

variable {σ : Type} (queue : σ → Virtqueue) (setQueue : Virtqueue → σ → σ) (tick : σ → σ)
  (head : Nat)

/-- The loop of `wait_for_completion` for a queue that is part of a machine. In each round the
device gets the chance to work before the driver looks at the ring. -/
def waitRounds : Nat → σ → Bool × σ
  | 0, s => (false, s)
  | polls + 1, s =>
    let s := tick s
    let polled := (queue s).poll head
    let s := setQueue polled.2 s
    if polled.1 then (true, s) else waitRounds polls s

variable {queue setQueue tick head}

/-- What every round keeps, the whole wait keeps. -/
theorem waitRounds_keeps {P : σ → Prop}
    (hround : ∀ s, P s → P (setQueue ((queue (tick s)).poll head).2 (tick s))) (polls : Nat) {s : σ}
    (h : P s) : P (waitRounds queue setQueue tick head polls s).2 := by
  induction polls generalizing s with
  | zero => exact h
  | succ polls ih =>
    rw [waitRounds]
    split
    · exact hround s h
    · exact ih (hround s h)

/-- A device that does nothing more is waited for in vain. -/
theorem waitRounds_silent {s : σ} (htick : tick s = s) (hset : setQueue (queue s) s = s)
    (hused : (queue s).lastUsedIdx = (queue s).usedIdx) (polls : Nat) :
    waitRounds queue setQueue tick head polls s = (false, s) := by
  induction polls with
  | zero => rfl
  | succ polls ih =>
    have hpoll : (queue s).poll head = (false, queue s) := by
      unfold poll
      rw [if_neg (not_not.mpr hused)]
    rw [waitRounds, htick, hpoll, hset, if_neg Bool.false_ne_true]
    exact ih

end Waiting

/-- The free list holds the given descriptors, each once. -/
structure Free (q : Virtqueue) (free : List Nat) : Prop where
  links : Links (fun i => (q.desc i).next) noDescriptor q.freeHead free
  nodup : free.Nodup
  bound : ∀ x ∈ free, x < q.queueSize
  count : q.numFree = free.length
  size : q.queueSize ≤ 0x8000

variable {q : Virtqueue} {free : List Nat} {x : Nat}

section

variable (h : q.Free (x :: free))
include h

theorem Free.cons_bounds : x < q.queueSize ∧ x < 0x8000 := by
  have hx := h.bound x List.mem_cons_self
  exact ⟨hx, Nat.lt_of_lt_of_le hx h.size⟩

theorem Free.alloc_cons :
    q.allocDescriptor = (some x, { q with
      freeHead := (q.desc x).next
      numFree := free.length
      desc := Function.update q.desc x ⟨0, 0, 0, 0⟩ }) := by
  have hhead : q.freeHead = x := h.links.1
  have hx := h.cons_bounds.2
  have hcount : q.numFree = free.length + 1 := h.count
  unfold allocDescriptor
  rw [if_neg, hhead, if_pos hx, hcount, Nat.add_sub_cancel]
  simp only [Bool.or_eq_true, decide_eq_true_eq, not_or]
  refine ⟨by omega, ?_⟩
  rw [hhead, noDescriptor]
  omega

theorem Free.alloc_rest : q.allocDescriptor.2.Free free := by
  have hx := List.nodup_cons.mp h.nodup
  rw [h.alloc_cons]
  refine ⟨h.links.2.congr fun y hy => ?_, hx.2, fun y hy => h.bound y (List.mem_cons_of_mem _ hy),
    rfl, h.size⟩
  have hne : y ≠ x := fun heq => hx.1 (heq ▸ hy)
  dsimp only
  rw [Function.update_of_ne hne]

end

theorem Free.alloc_nil (h : q.Free []) : q.allocDescriptor = (none, q) := by
  unfold allocDescriptor
  rw [if_pos]
  simp only [Bool.or_eq_true, decide_eq_true_eq]
  exact .inl h.count

theorem Free.release (h : q.Free free) (hnew : x ∉ free) (hx : x < q.queueSize) :
    (q.release x).Free (x :: free) := by
  refine ⟨h.links.push ?_ fun y hy => ?_, List.nodup_cons.mpr ⟨hnew, h.nodup⟩, ?_, ?_, h.size⟩
  · dsimp only [Virtqueue.release]
    rw [Function.update_self]
  · have hne : y ≠ x := fun heq => hnew (heq ▸ hy)
    dsimp only [Virtqueue.release]
    rw [Function.update_of_ne hne]
  · exact List.forall_mem_cons.mpr ⟨hx, h.bound⟩
  · show q.numFree + 1 = _
    rw [h.count, List.length_cons]

/-- The descriptors of a chain: each but the last names the next one. -/
def Chained (q : Virtqueue) : Nat → List Nat → Prop
  | _, [] => False
  | head, [x] => head = x ∧ ¬ (q.desc x).hasNext
  | head, x :: y :: xs =>
    head = x ∧ (q.desc x).hasNext ∧ (q.desc x).next = y ∧ Chained q y (y :: xs)

theorem Chained.congr {q' : Virtqueue} {chain : List Nat} {head} (h : Chained q head chain)
    (hsame : ∀ y ∈ chain, q'.desc y = q.desc y) : Chained q' head chain := by
  induction chain generalizing head with
  | nil => exact h
  | cons x chain ih =>
    have hx := hsame x List.mem_cons_self
    cases chain with
    | nil => exact ⟨h.1, by rw [hx]; exact h.2⟩
    | cons y chain =>
      obtain ⟨hhead, hnext, hy, hrest⟩ := h
      refine ⟨hhead, ?_, ?_, ih hrest fun z hz => hsame z (List.mem_cons_of_mem _ hz)⟩
      · rw [hx]
        exact hnext
      · rw [hx]
        exact hy

/-- A chain goes back on the free list as a whole, its last descriptor first. -/
theorem Free.releaseFrom {chain : List Nat} {q : Virtqueue} {free : List Nat} {head rounds : Nat}
    (h : q.Free free) (hchain : q.Chained head chain) :
    (chain ++ free).Nodup → (∀ y ∈ chain, y < q.queueSize) → chain.length ≤ rounds →
      (q.releaseFrom head rounds).Free (chain.reverse ++ free) := by
  induction chain generalizing q free head rounds with
  | nil => exact hchain.elim
  | cons x chain ih =>
    intro hnodup hbound hrounds
    obtain ⟨rounds, rfl⟩ : ∃ r, rounds = r + 1 :=
      ⟨rounds - 1, by rw [List.length_cons] at hrounds; omega⟩
    obtain ⟨hx, hrest⟩ := List.nodup_cons.mp hnodup
    have hxChain : x ∉ chain := fun hmem => hx (List.mem_append_left _ hmem)
    have hxFree : x ∉ free := fun hmem => hx (List.mem_append_right _ hmem)
    have hone := h.release hxFree (hbound x List.mem_cons_self)
    cases chain with
    | nil =>
      obtain ⟨rfl, hlast⟩ := hchain
      rw [Virtqueue.releaseFrom, if_pos]
      · exact hone
      · simp only [Bool.or_eq_true, Bool.not_eq_true', decide_eq_true_eq]
        exact .inl (Bool.not_eq_true _ ▸ hlast)
    | cons y chain =>
      obtain ⟨rfl, hnext, hy, htail⟩ := hchain
      have hylt := hbound y (List.mem_cons_of_mem _ List.mem_cons_self)
      rw [Virtqueue.releaseFrom, if_neg, hy]
      · have hmiddle : (y :: chain ++ head :: free).Nodup :=
          List.nodup_middle.mpr (List.nodup_cons.mpr ⟨hx, hrest⟩)
        have hsame : ∀ z ∈ y :: chain, (q.release head).desc z = q.desc z := by
          intro z hz
          have hne : z ≠ head := fun heq => hxChain (heq ▸ hz)
          exact Function.update_of_ne hne _ _
        have hrounds' : (y :: chain).length ≤ rounds := Nat.le_of_succ_le_succ hrounds
        have hall := ih hone (htail.congr hsame) hmiddle
          (fun z hz => hbound z (List.mem_cons_of_mem _ hz)) hrounds'
        rw [List.reverse_cons (a := head), List.append_assoc]
        exact hall
      · simp only [Bool.or_eq_true, Bool.not_eq_true', decide_eq_true_eq, not_or]
        exact ⟨by rw [hnext]; exact nofun, by omega⟩

end Virtqueue

end LlamaOS.Drivers
