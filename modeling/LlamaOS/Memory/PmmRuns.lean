import LlamaOS.Memory.PmmInit
import Mathlib.Order.Interval.Finset.Nat

/-!
# Runs of the physical memory manager

Every operation is a sequence of two moves: taking a run of free frames, and
releasing one frame. The ledger records beside the manager which frames were handed
out and not freed since. What both moves preserve holds in every run.
-/

namespace LlamaOS.Memory
open Boot WordBitset WordBitset.Bitset MemoryRegionRecord Intervals PhysicalAddress RunSearch

inductive PmmOp where
  | allocPage
  | allocPages (count : Nat)
  | freePage (paddr : Nat)
  | freePages (paddr count : Nat)
  | setForceAllocFailure (fail : Bool)
deriving DecidableEq

variable {paddr count s : Nat}

namespace PhysicalMemoryManager

def step (p : PhysicalMemoryManager) : PmmOp → PhysicalMemoryManager
  | .allocPage => p.allocPage.2
  | .allocPages count => (p.allocPages count).2
  | .freePage paddr => (p.freePage paddr).2
  | .freePages paddr count => (p.freePages paddr count).2
  | .setForceAllocFailure fail => p.setForceAllocFailure fail

def run (p : PhysicalMemoryManager) (ops : List PmmOp) : PhysicalMemoryManager := ops.foldl step p

/-- The frames behind a returned address; null is no frame. -/
def framesAt (paddr count : Nat) : Finset Nat :=
  if paddr = 0 then ∅ else Finset.Ico (paddr / 4096) (paddr / 4096 + count)

def handedOut (p : PhysicalMemoryManager) : PmmOp → Finset Nat
  | .allocPage => framesAt p.allocPage.1 1
  | .allocPages count => framesAt (p.allocPages count).1 count
  | _ => ∅

/-- Frames whose `free_page` call succeeds inside the loop of `free_pages`. -/
def freedInLoop (paddr : Nat) : List Nat → PhysicalMemoryManager → Finset Nat
  | [], _ => ∅
  | i :: rest, p =>
    let cur := add64 paddr (i * pageSize % 2 ^ 64)
    (if (p.freePage cur).1 then {cur / 4096} else ∅) ∪ freedInLoop paddr rest (p.freePage cur).2

def freed (p : PhysicalMemoryManager) : PmmOp → Finset Nat
  | .freePage paddr => if (p.freePage paddr).1 then {paddr / 4096} else ∅
  | .freePages paddr count =>
    if p.rejectsRange paddr count then ∅ else freedInLoop paddr (List.range count) p
  | _ => ∅

/-- A run of free frames that an allocation may take. -/
structure CanTake (p : PhysicalMemoryManager) (start count : Nat) : Prop where
  nonempty : 0 < count
  inside : start + count ≤ p.bitmap.size
  clear : ∀ f, start ≤ f → f < start + count → p.bitmap.test f = false

/-- The checks of `free_page`, in its order. -/
structure CanFree (p : PhysicalMemoryManager) (paddr : Nat) : Prop where
  initialized : p.initialized = true
  aligned : paddr % 4096 = 0
  nonnull : paddr ≠ 0
  below : paddr < p.maxManagedPaddr
  available : p.tracker.any (·.isReserved paddr) = false
  set : p.bitmap.test (paddr / 4096) = true
  counted : p.allocatedFrames ≠ 0

variable {p : PhysicalMemoryManager}

theorem freePage_of_canFree (h : p.CanFree paddr) :
    p.freePage paddr = (true, p.release (paddr / 4096)) := by
  have hal := (isPageAligned_iff paddr).mpr h.aligned
  have hnull : isNull paddr = false := by simpa [isNull] using h.nonnull
  have hlt : ¬ paddr ≥ p.maxManagedPaddr := Nat.not_le_of_lt h.below
  simp [freePage, h.initialized, hal, hnull, hlt, h.available, h.set, h.counted]

theorem freePage_of_not_canFree (h : ¬ p.CanFree paddr) : p.freePage paddr = (false, p) := by
  unfold freePage
  split
  · rfl
  rename_i hinit
  split
  · rfl
  rename_i harg
  split
  · rfl
  rename_i hres
  simp only
  split
  · rfl
  rename_i hset
  split
  · rfl
  rename_i hcount
  exfalso
  apply h
  simp only [Bool.or_eq_true, Bool.not_eq_true', decide_eq_true_eq, not_or, Bool.not_eq_false]
    at harg
  refine ⟨by simpa using hinit, (isPageAligned_iff paddr).mp harg.1.1, ?_,
    by omega, by simpa using hres, by simpa using hset, hcount⟩
  simpa [isNull] using harg.1.2

theorem freePage_fst (p : PhysicalMemoryManager) (paddr : Nat) :
    (p.freePage paddr).1 = true ↔ p.CanFree paddr := by
  by_cases h : p.CanFree paddr
  · simp [freePage_of_canFree h, h]
  · simp [freePage_of_not_canFree h, h]

theorem allocPage_cases (p : PhysicalMemoryManager) :
    p.allocPage = (0, p) ∨ ∃ f, p.CanTake f 1 ∧ p.allocPage = p.takeRun f 1 := by
  unfold allocPage
  split
  · exact Or.inl rfl
  simp only
  split
  · rename_i f hfind
    obtain ⟨hlt, hclear, _⟩ := findClear_spec hfind
    refine Or.inr ⟨f, ⟨Nat.one_pos, hlt, ?_⟩, rfl⟩
    intro j hlo hhi
    rwa [show j = f by omega]
  · exact Or.inl rfl

theorem canTake_of_search {left from' : Nat} (hcount : 0 < count)
    (hleft : from' + left ≤ p.bitmap.size)
    (h : search (fun f => !p.bitmap.test f) count left from' 0 0 = some s) :
    p.CanTake s count := by
  obtain ⟨_, hin, hrun, _⟩ := search_eq_some (Nat.zero_le _) hcount (fun hz => absurd rfl hz)
    (fun j hlo hhi => by omega) h
  exact ⟨hcount, by omega, fun f hlo hhi => by simpa using hrun f hlo hhi⟩

theorem allocPages_cases (p : PhysicalMemoryManager) (count : Nat) :
    p.allocPages count = (0, p) ∨ ∃ s, p.CanTake s count ∧
      p.allocPages count = p.takeRun s count := by
  unfold allocPages
  split
  · exact Or.inl rfl
  rename_i hguard
  simp only [Bool.or_eq_true, beq_iff_eq, decide_eq_true_eq, not_or] at hguard
  split
  · rename_i hone
    subst hone
    exact allocPage_cases p
  split
  · exact Or.inl rfl
  have hcount : 0 < count := Nat.pos_of_ne_zero hguard.1.1.2
  simp only
  split
  · rename_i s hs
    by_cases hle : p.lastSearchFrame ≤ p.totalFrames
    · exact Or.inr ⟨s, canTake_of_search hcount (by simp only [totalFrames] at *; omega) hs, rfl⟩
    · rw [Nat.sub_eq_zero_of_le (by omega)] at hs
      simp [search] at hs
  split
  · rename_i s hs
    exact Or.inr ⟨s, canTake_of_search hcount (by simp only [totalFrames]; omega) hs, rfl⟩
  · exact Or.inl rfl

theorem takeRun_fst (h : p.CanTake s count) : (p.takeRun s count).1 = s * 4096 := by
  have hb := p.framesBound
  have hin := h.inside
  have hpos := h.nonempty
  exact Nat.mod_eq_of_lt (by simp only [pageSize]; omega)

end PhysicalMemoryManager

open PhysicalMemoryManager

/-- The manager with the frames handed out and not successfully freed since. -/
structure Ledger where
  pmm : PhysicalMemoryManager
  live : Finset Nat

namespace Ledger

def start (p : PhysicalMemoryManager) : Ledger := ⟨p, ∅⟩

def step (l : Ledger) (op : PmmOp) : Ledger where
  pmm := l.pmm.step op
  live := (l.live ∪ l.pmm.handedOut op) \ l.pmm.freed op

def run (l : Ledger) (ops : List PmmOp) : Ledger := ops.foldl step l

theorem run_pmm (l : Ledger) (ops : List PmmOp) : (l.run ops).pmm = l.pmm.run ops := by
  induction ops generalizing l with
  | nil => rfl
  | cons op ops ih => exact ih (l.step op)

def take (l : Ledger) (s count : Nat) : Ledger where
  pmm := (l.pmm.takeRun s count).2
  live := l.live ∪ Finset.Ico s (s + count)

def release (l : Ledger) (paddr : Nat) : Ledger where
  pmm := l.pmm.release (paddr / 4096)
  live := l.live \ {paddr / 4096}

def force (l : Ledger) (fail : Bool) : Ledger := { l with pmm := l.pmm.setForceAllocFailure fail }

/-- A property of ledgers that every move keeps. The null frame must stay marked, or an
allocation could report failure and take frames all the same. -/
structure Kept (P : Ledger → Prop) : Prop where
  zero : ∀ l, P l → 0 < l.pmm.bitmap.size → l.pmm.bitmap.test 0 = true
  take : ∀ l s count, P l → l.pmm.CanTake s count → P (l.take s count)
  release : ∀ l paddr, P l → l.pmm.CanFree paddr → P (l.release paddr)
  force : ∀ l fail, P l → P (l.force fail)

section Runs
variable {P : Ledger → Prop} (hP : Kept P)
include hP

variable {l : Ledger}

theorem Kept.start_ne_zero (hl : P l) (h : l.pmm.CanTake s count) : s ≠ 0 := by
  intro hs
  have hin := h.inside
  have hpos := h.nonempty
  have hset := hP.zero l hl (by omega)
  have hclear := h.clear 0 (by omega) (by omega)
  rw [hset] at hclear
  exact Bool.noConfusion hclear

theorem Kept.framesAt_takeRun (hl : P l) (h : l.pmm.CanTake s count) :
    framesAt (l.pmm.takeRun s count).1 count = Finset.Ico s (s + count) := by
  have hs := hP.start_ne_zero hl h
  have hne : s * 4096 ≠ 0 := by omega
  rw [takeRun_fst h, framesAt, if_neg hne, Nat.mul_div_cancel _ (by decide)]

theorem Kept.freeLoop (pages : List Nat) (hl : P l) (allOk : Bool) :
    P ⟨(freeLoop paddr pages allOk l.pmm).2, l.live \ freedInLoop paddr pages l.pmm⟩ := by
  induction pages generalizing l allOk with
  | nil =>
    simp only [PhysicalMemoryManager.freeLoop, freedInLoop, Finset.sdiff_empty]
    exact hl
  | cons i pages ih =>
    simp only [PhysicalMemoryManager.freeLoop, freedInLoop]
    by_cases h : l.pmm.CanFree (add64 paddr (i * pageSize % 2 ^ 64))
    · rw [freePage_of_canFree h, if_pos rfl, Finset.sdiff_union_distrib, ← Finset.sdiff_sdiff_left']
      exact ih (hP.release l _ hl h) _
    · rw [freePage_of_not_canFree h, if_neg (by simp), Finset.empty_union]
      exact ih hl _

theorem Kept.step {l : Ledger} (hl : P l) (op : PmmOp) : P (l.step op) := by
  cases op with
  | allocPage =>
    simp only [Ledger.step, PhysicalMemoryManager.step, handedOut, freed, Finset.sdiff_empty]
    rcases allocPage_cases l.pmm with h | ⟨f, htake, h⟩
    · simpa only [h, framesAt, if_true, Finset.union_empty] using hl
    · rw [h, hP.framesAt_takeRun hl htake]
      exact hP.take l f 1 hl htake
  | allocPages count =>
    simp only [Ledger.step, PhysicalMemoryManager.step, handedOut, freed, Finset.sdiff_empty]
    rcases allocPages_cases l.pmm count with h | ⟨s, htake, h⟩
    · simpa only [h, framesAt, if_true, Finset.union_empty] using hl
    · rw [h, hP.framesAt_takeRun hl htake]
      exact hP.take l s count hl htake
  | freePage paddr =>
    simp only [Ledger.step, PhysicalMemoryManager.step, handedOut, freed, Finset.union_empty]
    by_cases h : l.pmm.CanFree paddr
    · rw [freePage_of_canFree h, if_pos rfl]
      exact hP.release l paddr hl h
    · rw [freePage_of_not_canFree h, if_neg (by simp), Finset.sdiff_empty]
      exact hl
  | freePages paddr count =>
    simp only [Ledger.step, PhysicalMemoryManager.step, handedOut, freed,
      Finset.union_empty, freePages]
    split
    · rw [Finset.sdiff_empty]
      exact hl
    · exact hP.freeLoop _ hl true
  | setForceAllocFailure fail =>
    simp only [Ledger.step, PhysicalMemoryManager.step, handedOut, freed, Finset.union_empty,
      Finset.sdiff_empty]
    exact hP.force l fail hl

theorem Kept.run (hl : P l) (ops : List PmmOp) : P (l.run ops) := by
  induction ops generalizing l with
  | nil => exact hl
  | cons op ops ih => exact ih (hP.step hl op)

theorem Kept.handedOut_clear (hl : P l) {op : PmmOp} {f : Nat} (h : f ∈ l.pmm.handedOut op) :
    f < l.pmm.bitmap.size ∧ l.pmm.bitmap.test f = false := by
  have hrun : ∀ {s count}, l.pmm.CanTake s count → f ∈ Finset.Ico s (s + count) →
      f < l.pmm.bitmap.size ∧ l.pmm.bitmap.test f = false := by
    intro s count htake hmem
    rw [Finset.mem_Ico] at hmem
    have hin := htake.inside
    exact ⟨by omega, htake.clear f hmem.1 hmem.2⟩
  cases op with
  | allocPage =>
    rcases allocPage_cases l.pmm with hcase | ⟨s, htake, hcase⟩
    · simp [handedOut, hcase, framesAt] at h
    · rw [handedOut, hcase, hP.framesAt_takeRun hl htake] at h
      exact hrun htake h
  | allocPages count =>
    rcases allocPages_cases l.pmm count with hcase | ⟨s, htake, hcase⟩
    · simp [handedOut, hcase, framesAt] at h
    · rw [handedOut, hcase, hP.framesAt_takeRun hl htake] at h
      exact hrun htake h
  | freePage paddr => simp [handedOut] at h
  | freePages paddr count => simp [handedOut] at h
  | setForceAllocFailure fail => simp [handedOut] at h

end Runs

end Ledger

end LlamaOS.Memory
