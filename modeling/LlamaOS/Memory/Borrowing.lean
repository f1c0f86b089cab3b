import LlamaOS.Memory.FrameSafety

/-!
# Frames borrowed from the allocator

The frames taken since some earlier state and not given back. Each of them was free
then, so `free_page` takes it back, and once all are back the same frames are free.
-/

namespace LlamaOS.Memory
open WordBitset WordBitset.Bitset PhysicalMemoryManager

/-- Since `p₀` exactly the frames at the addresses in `borrowed` were taken. -/
structure Borrowed (args : BootArgs) (p₀ p : PhysicalMemoryManager) (borrowed : Finset Nat) :
    Prop where
  base : Consistent args p₀
  now : Consistent args p
  place : p.bitmapPaddr = p₀.bitmapPaddr
  usable : p.usableFrames = p₀.usableFrames
  force : p.forceAllocFailure = p₀.forceAllocFailure
  bits : ∀ f, p.bitmap.test f = (decide (f * 4096 ∈ borrowed) || p₀.bitmap.test f)
  fresh : ∀ a ∈ borrowed, a % 4096 = 0 ∧ a / 4096 < p₀.bitmap.size ∧
    p₀.bitmap.test (a / 4096) = false
  count : p.allocatedFrames = p₀.allocatedFrames + borrowed.card

namespace Borrowed
variable {args : BootArgs} {p₀ p : PhysicalMemoryManager} {borrowed : Finset Nat}

theorem start (h : Consistent args p₀) : Borrowed args p₀ p₀ ∅ :=
  ⟨h, h, rfl, rfl, rfl, fun f => by simp, fun a ha => absurd ha (Finset.notMem_empty a), rfl⟩

theorem size (h : Borrowed args p₀ p borrowed) : p.bitmap.size = p₀.bitmap.size :=
  h.now.size.trans h.base.size.symm

theorem freeFrames (h : Borrowed args p₀ p borrowed) :
    p.freeFrames + borrowed.card = p₀.freeFrames := by
  have hbase := h.base.balance
  have hnow := h.now.balance
  have husable := h.usable
  have hcount := h.count
  omega

variable {a : Nat}

section

variable (h : Borrowed args p₀ p borrowed)
include h

theorem bit_of_mem (ha : a ∈ borrowed) : p.bitmap.test (a / 4096) = true := by
  have hal := (h.fresh a ha).1
  rw [h.bits, show a / 4096 * 4096 = a by omega, decide_eq_true ha, Bool.true_or]

theorem canFree (ha : a ∈ borrowed) : p.CanFree a := by
  obtain ⟨hal, hlt, hclear⟩ := h.fresh a ha
  have hav := h.base.clear (a / 4096) hlt hclear
  rw [show a / 4096 * 4096 = a by omega] at hav
  have hsize := h.base.size
  have hcard := Finset.card_pos.mpr ⟨a, ha⟩
  have hcount := h.count
  refine ⟨h.now.initialized, hal, ?_, ?_, ?_, h.bit_of_mem ha, by omega⟩
  · intro hzero
    subst hzero
    have hset := h.base.zero (by omega)
    rw [hclear] at hset
    cases hset
  · rw [h.now.limit]
    omega
  · rw [h.now.tracker, Option.any_some, h.place]
    exact hav

theorem release (ha : a ∈ borrowed) : Borrowed args p₀ (p.freePage a).2 (borrowed.erase a) := by
  have hfree := h.canFree ha
  have hlt := h.now.lt_of_canFree hfree
  rw [freePage_of_canFree hfree]
  refine ⟨h.base, h.now.release hfree, h.place, h.usable, h.force, ?_, ?_, ?_⟩
  · intro f
    have hal := hfree.aligned
    have hclear := (h.fresh a ha).2.2
    have hbit := test_clearBit p.bitmap (a / 4096) f hlt
    change (p.bitmap.clearBit (a / 4096)).test f = _
    rw [hbit, h.bits]
    by_cases hf : f = a / 4096
    · subst hf
      rw [show a / 4096 * 4096 = a by omega, hclear]
      simp
    · have hne : f * 4096 ≠ a := by omega
      simp [hf, hne]
  · intro b hb
    exact h.fresh b (Finset.mem_of_mem_erase hb)
  · have hcard := Finset.card_pos.mpr ⟨a, ha⟩
    have hcount := h.count
    change p.allocatedFrames - 1 = _
    rw [Finset.card_erase_of_mem ha]
    omega

end

def runAt (pa count : Nat) : Finset Nat := (Finset.range count).image fun i => pa + i * 4096

variable {pa count : Nat}

theorem mem_runAt : a ∈ runAt pa count ↔ ∃ i < count, a = pa + i * 4096 := by
  simp only [runAt, Finset.mem_image, Finset.mem_range]
  constructor
  · rintro ⟨i, hi, rfl⟩
    exact ⟨i, hi, rfl⟩
  · rintro ⟨i, hi, rfl⟩
    exact ⟨i, hi, rfl⟩

theorem card_runAt (pa count : Nat) : (runAt pa count).card = count := by
  have hinj : Function.Injective fun i => pa + i * 4096 := by
    intro i j hij
    dsimp only at hij
    omega
  rw [runAt, Finset.card_image_of_injective _ hinj, Finset.card_range]

variable {f : Nat}

theorem takeRun (h : Borrowed args p₀ p borrowed) (htake : p.CanTake f count) :
    Borrowed args p₀ (p.takeRun f count).2 (borrowed ∪ runAt (f * 4096) count) := by
  have hin := htake.inside
  -- a free frame is neither borrowed nor was it taken before
  have hfree : ∀ g, f ≤ g → g < f + count → g * 4096 ∉ borrowed ∧ p₀.bitmap.test g = false := by
    intro g hlo hhi
    have hclear := htake.clear g hlo hhi
    rw [h.bits, Bool.or_eq_false_iff, decide_eq_false_iff_not] at hclear
    exact hclear
  refine ⟨h.base, h.now.takeRun htake, h.place, h.usable, h.force, ?_, ?_, ?_⟩
  · intro g
    have hbit := test_setRange p.bitmap f count g hin
    change (p.bitmap.setRange f count).test g = _
    rw [hbit, h.bits, ← Bool.or_assoc]
    congr 1
    rw [Bool.eq_iff_iff, Bool.or_eq_true, decide_eq_true_eq, decide_eq_true_eq, decide_eq_true_eq,
      Finset.mem_union, mem_runAt, or_comm]
    have hrun : (f ≤ g ∧ g < f + count) ↔ ∃ i < count, g * 4096 = f * 4096 + i * 4096 := by
      constructor
      · rintro ⟨hlo, hhi⟩
        exact ⟨g - f, by omega, by omega⟩
      · rintro ⟨i, hi, heq⟩
        omega
    rw [hrun]
  · intro a ha
    rcases Finset.mem_union.mp ha with ha | ha
    · exact h.fresh a ha
    obtain ⟨i, hi, rfl⟩ := mem_runAt.mp ha
    have hdiv : (f * 4096 + i * 4096) / 4096 = f + i := by omega
    have hsize := h.size
    exact ⟨by omega, by omega, hdiv ▸ (hfree (f + i) (by omega) (by omega)).2⟩
  · have hdisj : Disjoint borrowed (runAt (f * 4096) count) := by
      rw [Finset.disjoint_left]
      intro a ha hrun
      obtain ⟨i, hi, rfl⟩ := mem_runAt.mp hrun
      rw [show f * 4096 + i * 4096 = (f + i) * 4096 by omega] at ha
      exact (hfree (f + i) (by omega) (by omega)).1 ha
    have hcount := h.count
    change p.allocatedFrames + count = _
    rw [Finset.card_union_of_disjoint hdisj, card_runAt]
    omega

variable {p' : PhysicalMemoryManager}

section

variable (h : Borrowed args p₀ p borrowed)
include h

theorem grant (htake : p.CanTake f count) (heq : p.takeRun f count = (pa, p')) :
    pa ≠ 0 ∧ Disjoint borrowed (runAt pa count) ∧
      Borrowed args p₀ p' (borrowed ∪ runAt pa count) := by
  have hrun := h.takeRun htake
  have hfst := takeRun_fst htake
  rw [heq] at hrun hfst
  obtain rfl : pa = f * 4096 := hfst
  have hin := htake.inside
  have hpos := htake.nonempty
  refine ⟨?_, ?_, hrun⟩
  · intro hzero
    have hset := h.now.zero (by omega)
    rw [htake.clear 0 (by omega) (by omega)] at hset
    cases hset
  · rw [Finset.disjoint_right]
    intro a ha hmem
    obtain ⟨i, hi, rfl⟩ := mem_runAt.mp ha
    have hset := h.bit_of_mem hmem
    rw [show (f * 4096 + i * 4096) / 4096 =
      f + i by omega, htake.clear (f + i) (by omega) (by omega)] at hset
    cases hset

theorem allocPage (halloc : p.allocPage = (pa, p')) :
    (pa = 0 ∧ p' = p) ∨ (pa ≠ 0 ∧ pa ∉ borrowed ∧ Borrowed args p₀ p' (insert pa borrowed)) := by
  rcases allocPage_cases p with hnone | ⟨f, htake, hsome⟩
  · cases hnone.symm.trans halloc
    exact Or.inl ⟨rfl, rfl⟩
  obtain ⟨hpa, hdisj, hb⟩ := h.grant htake (hsome.symm.trans halloc)
  have hone : runAt pa 1 = {pa} := by simp [runAt]
  rw [hone, Finset.union_comm, ← Finset.insert_eq] at hb
  rw [hone, Finset.disjoint_singleton_right] at hdisj
  exact Or.inr ⟨hpa, hdisj, hb⟩

theorem allocPages (halloc : p.allocPages count = (pa, p')) :
    (pa = 0 ∧ p' = p) ∨
      (pa ≠ 0 ∧ Disjoint borrowed (runAt pa count) ∧
        Borrowed args p₀ p' (borrowed ∪ runAt pa count)) := by
  rcases allocPages_cases p count with hnone | ⟨f, htake, hsome⟩
  · cases hnone.symm.trans halloc
    exact Or.inl ⟨rfl, rfl⟩
  · exact Or.inr (h.grant htake (hsome.symm.trans halloc))

theorem bits_eq : (∀ f, p.bitmap.test f = p₀.bitmap.test f) ↔ borrowed = ∅ := by
  constructor
  · intro hsame
    rw [Finset.eq_empty_iff_forall_notMem]
    intro a ha
    have hset := h.bit_of_mem ha
    rw [hsame, (h.fresh a ha).2.2] at hset
    cases hset
  · rintro rfl f
    rw [h.bits]
    simp

end

end Borrowed

end LlamaOS.Memory
