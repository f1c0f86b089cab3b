import LlamaOS.Memory.HandedOut

/-!
# Freeing a range of pages

The guard of `free_pages` computes the length of the range in 64 bits. From `2 ^ 52` pages on the
length wraps around, the guard no longer sees the overflow, and the loop visits every page of the
address space.
-/

namespace LlamaOS.Memory
open WordBitset WordBitset.Bitset

namespace PhysicalMemoryManager

/-- The page that round `i` of the loop of `free_pages` frees. -/
def loopPage (paddr i : Nat) : Nat := add64 paddr (i * pageSize % 2 ^ 64)

variable {p : PhysicalMemoryManager} {paddr count : Nat}

theorem freePage_cases (p : PhysicalMemoryManager) (paddr : Nat) :
    (p.CanFree paddr ∧ p.freePage paddr = (true, p.release (paddr / 4096))) ∨
      (¬ p.CanFree paddr ∧ p.freePage paddr = (false, p)) := by
  by_cases h : p.CanFree paddr
  · exact .inl ⟨h, freePage_of_canFree h⟩
  · exact .inr ⟨h, freePage_of_not_canFree h⟩

theorem freeLoop_free_le (pages : List Nat) : ∀ (allOk : Bool) (p : PhysicalMemoryManager),
    p.freeFrames ≤ (freeLoop paddr pages allOk p).2.freeFrames := by
  induction pages with
  | nil => exact fun _ _ => Nat.le_refl _
  | cons i pages ih =>
    intro allOk p
    rw [freeLoop]
    rcases freePage_cases p (loopPage paddr i) with ⟨_, heq⟩ | ⟨_, heq⟩
    · rw [loopPage] at heq
      rw [heq]
      exact Nat.le_trans (Nat.le_succ _) (ih _ (p.release _))
    · rw [loopPage] at heq
      rw [heq]
      exact ih _ p

theorem freeLoop_unchanged (pages : List Nat) :
    ∀ {allOk : Bool}, (freeLoop paddr pages allOk p).2 = p →
    ∀ i ∈ pages, ¬ p.CanFree (loopPage paddr i) := by
  induction pages with
  | nil => exact fun _ _ hi => absurd hi List.not_mem_nil
  | cons i pages ih =>
    intro allOk h
    rw [freeLoop] at h
    rcases freePage_cases p (loopPage paddr i) with ⟨_, heq⟩ | ⟨hnot, heq⟩
    · rw [loopPage] at heq
      rw [heq] at h
      have hle := @freeLoop_free_le paddr pages (allOk && true)
        (p.release (add64 paddr (i * pageSize % 2 ^ 64) / 4096))
      rw [h] at hle
      exact absurd hle (Nat.not_succ_le_self _)
    rw [loopPage] at heq
    rw [heq] at h
    exact List.forall_mem_cons.mpr ⟨hnot, ih h⟩

/-- When no page can be freed, the loop reports failure and changes nothing. -/
theorem freeLoop_none (h : ∀ a < 2 ^ 64, ¬ p.CanFree a) (pages : List Nat) : ∀ allOk : Bool,
    freeLoop paddr pages allOk p = (allOk && pages.isEmpty, p) := by
  induction pages with
  | nil => exact fun allOk => by rw [freeLoop, List.isEmpty_nil, Bool.and_true]
  | cons i pages ih =>
    intro allOk
    rw [freeLoop, freePage_of_not_canFree (h _ (add64_lt _ _))]
    dsimp only
    rw [ih, Bool.and_false, Bool.false_and, List.isEmpty_cons, Bool.and_false]

theorem freeLoop_test (pages : List Nat) {f : Nat} (hf : ∀ i ∈ pages, loopPage paddr i / 4096 ≠ f) :
    ∀ {allOk : Bool} {p : PhysicalMemoryManager}, (freeLoop paddr pages allOk p).2.bitmap.test f =
      p.bitmap.test f := by
  induction pages with
  | nil => exact rfl
  | cons i pages ih =>
    intro allOk p
    have hrest := @ih fun j hj => hf j (List.mem_cons_of_mem _ hj)
    rw [freeLoop]
    rcases freePage_cases p (loopPage paddr i) with ⟨_, heq⟩ | ⟨_, heq⟩
    · rw [loopPage] at heq
      rw [heq]
      rw [hrest]
      exact test_clearBit_of_ne _ fun hne => hf i List.mem_cons_self hne.symm
    · rw [loopPage] at heq
      rw [heq]
      exact hrest

theorem exists_loopPage (hpaddr : paddr < 2 ^ 64) (haligned : paddr % 4096 = 0) {a : Nat}
    (ha : a < 2 ^ 64) (ha' : a % 4096 = 0) : ∃ i < 2 ^ 52, loopPage paddr i = a := by
  refine ⟨(a + 2 ^ 64 - paddr) % 2 ^ 64 / 4096, by omega, ?_⟩
  unfold loopPage add64
  simp only [pageSize]
  omega

theorem rejectsRange_eq_false (haligned : paddr % 4096 = 0) :
    p.rejectsRange paddr count = false ↔
      p.initialized = true ∧ count ≠ 0 ∧ paddr ≠ 0 ∧ paddr + count * 4096 % 2 ^ 64 < 2 ^ 64 := by
  have hal := (PhysicalAddress.isPageAligned_iff paddr).mpr haligned
  have hbytes : pageCountToBytes count = count * 4096 % 2 ^ 64 := rfl
  have hmax : uint64Max = 2 ^ 64 - 1 := rfl
  have hover : ¬ paddr > uint64Max - pageCountToBytes count ↔
      paddr + count * 4096 % 2 ^ 64 < 2 ^ 64 := by
    omega
  simp only [rejectsRange, hal, PhysicalAddress.isNull, Bool.not_true, Bool.or_false,
    Bool.or_eq_false_iff,
    Bool.not_eq_false', beq_eq_false_iff_ne, decide_eq_false_iff_not, hover, and_assoc]

theorem freePages_only (p : PhysicalMemoryManager) (haligned : paddr % 4096 = 0)
    (hcount : count < 2 ^ 52) (hpaddr : paddr < 2 ^ 64) (f : Nat)
    (hf : (p.freePages paddr count).2.bitmap.test f ≠ p.bitmap.test f) :
    paddr ≤ f * 4096 ∧ f * 4096 < paddr + 4096 * count := by
  by_cases haccept : p.rejectsRange paddr count = true
  · have hnone : p.freePages paddr count = (false, p) := if_pos haccept
    rw [hnone] at hf
    exact absurd rfl hf
  obtain ⟨_, _, _, hfits⟩ := (rejectsRange_eq_false haligned).mp (Bool.not_eq_true _ ▸ haccept)
  have hloop : p.freePages paddr count = freeLoop paddr (List.range count) true p := if_neg haccept
  rw [hloop] at hf
  have hlength : count * 4096 % 2 ^ 64 = count * 4096 := Nat.mod_eq_of_lt (by omega)
  by_contra hout
  refine hf (freeLoop_test _ fun i hi => ?_)
  have hi' := List.mem_range.mp hi
  unfold loopPage add64
  simp only [pageSize]
  omega

/-- `free_pages` keeps to its range and refuses a range that overflows, unless the page count wraps
around and some page can be freed. -/
theorem freePages_confined_iff (p : PhysicalMemoryManager) (hpaddr : paddr < 2 ^ 64)
    (hcount : count < 2 ^ 64) (haligned : paddr % 4096 = 0) :
    ((∀ f, (p.freePages paddr count).2.bitmap.test f ≠ p.bitmap.test f →
        paddr ≤ f * 4096 ∧ f * 4096 < paddr + 4096 * count) ∧
      (2 ^ 64 < paddr + 4096 * count → p.freePages paddr count = (false, p))) ↔
    ¬ (2 ^ 52 ≤ count ∧ paddr ≠ 0 ∧ paddr + count * 4096 % 2 ^ 64 < 2 ^ 64 ∧ ∃ a < 2 ^ 64,
      p.CanFree a) := by
  have hreject := @rejectsRange_eq_false p paddr count haligned
  constructor
  · rintro ⟨_, hnothing⟩ ⟨hmany, hnull, hfits, a, ha, hfree⟩
    have haccept := hreject.mpr ⟨hfree.initialized, by omega, hnull, hfits⟩
    have hsame := congrArg Prod.snd (hnothing (by omega))
    unfold freePages at hsame
    rw [haccept, if_neg Bool.false_ne_true] at hsame
    obtain ⟨i, hi, hpage⟩ := exists_loopPage hpaddr haligned ha hfree.aligned
    exact freeLoop_unchanged (List.range count) hsame i (List.mem_range.mpr (by omega))
      (hpage ▸ hfree)
  · intro hgood
    by_cases haccept : p.rejectsRange paddr count = true
    · have hnone : p.freePages paddr count = (false, p) := if_pos haccept
      rw [hnone]
      exact ⟨fun f hf => absurd rfl hf, fun _ => rfl⟩
    obtain ⟨hinit, hzero, hnull, hfits⟩ := hreject.mp (Bool.not_eq_true _ ▸ haccept)
    have hloop : p.freePages paddr count = freeLoop paddr (List.range count) true p :=
      if_neg haccept
    rw [hloop]
    by_cases hmany : 2 ^ 52 ≤ count
    · have hnone : ∀ a < 2 ^ 64, ¬ p.CanFree a :=
        fun a ha hfree => hgood ⟨hmany, hnull, hfits, a, ha, hfree⟩
      obtain ⟨k, rfl⟩ : ∃ k, count = k + 1 := ⟨count - 1, by omega⟩
      rw [freeLoop_none hnone, List.range_succ_eq_map, List.isEmpty_cons]
      exact ⟨fun f hf => absurd rfl hf, fun _ => rfl⟩
    · rw [← hloop]
      exact ⟨p.freePages_only haligned (by omega) hpaddr, fun hover => by omega⟩

theorem samplePmm_refuses_overflow :
    samplePmm.freePages 0x104000 (2 ^ 52 - 1) = (false, samplePmm) :=
  ((freePages_confined_iff samplePmm (by decide) (by decide) (by decide)).mpr (by omega)).2
    (by decide)

/-- One page is allocated, and the next `2 ^ 52` pages are freed: the length of this range is 0 in
64 bits, and the loop comes around to the allocated page below it. -/
theorem wrapped_range_frees : (samplePmm.run [.allocPage]).CanFree 0x103000 ∧
    2 ^ 64 < 0x104000 + 4096 * 2 ^ 52 ∧
    (samplePmm.run [.allocPage]).freePages 0x104000 (2 ^ 52) ≠
      (false, samplePmm.run [.allocPage]) := by
  have hfree : (samplePmm.run [.allocPage]).CanFree 0x103000 :=
    ⟨by decide +kernel, by decide, by decide, by decide +kernel, by decide +kernel,
      by decide +kernel, by decide +kernel⟩
  refine ⟨hfree, by decide, fun hsame => ?_⟩
  have haccept : (samplePmm.run [.allocPage]).rejectsRange 0x104000 (2 ^ 52) = false :=
    (rejectsRange_eq_false (by decide)).mpr ⟨hfree.initialized, by decide, by decide, by decide⟩
  have hloop := congrArg Prod.snd hsame
  unfold freePages at hloop
  rw [haccept, if_neg Bool.false_ne_true] at hloop
  obtain ⟨i, hi, hpage⟩ :=
    @exists_loopPage 0x104000 (by decide) (by decide) 0x103000 (by decide) (by decide)
  exact freeLoop_unchanged _ hloop i (List.mem_range.mpr hi) (hpage ▸ hfree)

end PhysicalMemoryManager

end LlamaOS.Memory
