import LlamaOS.Memory.Vmm
import LlamaOS.Memory.PmmRuns

/-!
# Frames for page tables

What the page-table code may rely on when it takes a frame from the allocator, gives
one back, or writes through a table pointer.
-/

namespace LlamaOS.Memory
open WordBitset WordBitset.Bitset PhysicalMemoryManager

namespace Machine

def taken (m : Machine) (pa : Nat) : Bool := m.pmm.bitmap.test (pa / 4096)

structure Fresh (m : Machine) (pa : Nat) : Prop where
  nonnull : pa ≠ 0
  aligned : pa % 4096 = 0
  inside : pa / 4096 < m.pmm.bitmap.size
  clear : m.taken pa = false

/-- What `alloc_page` may do when it returns `pa`. -/
structure Allocates (m : Machine) (pa : Nat) (m' : Machine) : Prop where
  vmm : m'.vmm = m.vmm
  cr3 : m'.cr3 = m.cr3
  size : m'.pmm.bitmap.size = m.pmm.bitmap.size
  keeps : ∀ b, m.taken b = true → m'.taken b = true
  unchanged : ∀ t, pa = 0 ∨ t ≠ pa → m'.ram t = m.ram t
  fresh : pa ≠ 0 → m.Fresh pa
  taken : pa ≠ 0 → m'.taken pa = true
  zeroed : pa ≠ 0 → PhysicalAddress.isDirectMapped pa = true → ∀ i, m'.ram pa i = .clear

/-- What an allocation of the frames `N` may do. -/
structure Takes (m : Machine) (N : Nat → Prop) (m' : Machine) : Prop where
  vmm : m'.vmm = m.vmm
  cr3 : m'.cr3 = m.cr3
  size : m'.pmm.bitmap.size = m.pmm.bitmap.size
  keeps : ∀ b, m.taken b = true → m'.taken b = true
  unchanged : ∀ t, ¬ N t → m'.ram t = m.ram t
  fresh : ∀ a, N a → m.Fresh a
  taken : ∀ a, N a → m'.taken a = true

variable {m m' : Machine} {pa : Nat}

theorem Allocates.takes (h : m.Allocates pa m') : m.Takes (fun a => a = pa ∧ pa ≠ 0) m' := by
  refine ⟨h.vmm, h.cr3, h.size, h.keeps, ?_, ?_, ?_⟩
  · intro t ht
    apply h.unchanged
    by_cases hpa : pa = 0
    · exact Or.inl hpa
    · exact Or.inr fun heq => ht ⟨heq, hpa⟩
  · rintro a ⟨rfl, hpa⟩
    exact h.fresh hpa
  · rintro a ⟨rfl, hpa⟩
    exact h.taken hpa

variable {b : Nat}

theorem Allocates.ne_of_taken (h : m.Allocates pa m') (hpa : pa ≠ 0) (hb : m.taken b = true) :
    b ≠ pa := by
  intro heq
  have hclear := (h.fresh hpa).clear
  rw [← heq, hb] at hclear
  cases hclear

theorem isDirectMapped_of_canAccess (h : m.canAccess pa = true) :
    PhysicalAddress.isDirectMapped pa = true := (Bool.and_eq_true_iff.mp h).1

variable {table : Nat}

theorem of_store {i : Fin 512} {e : PageTableEntry} (h : m.store table i e = some m') :
    m.canAccess table = true ∧ m'.pmm = m.pmm ∧ ∀ t j, m'.ram t j = if t = table ∧ j = i then e
    else m.ram t j := by
  unfold store at h
  split at h
  · rename_i hacc
    cases h
    exact ⟨hacc, rfl, fun _ _ => rfl⟩
  · cases h

variable {lo hi : Nat} {f : Fin 512 → PageTableEntry}

theorem fill_eq_some :
    m.fill table lo hi f = some m' ↔ m.canAccess table = true ∧
      { m with ram := fun t i => if t = table ∧ lo ≤ i ∧ i < hi then f i else m.ram t i } = m' := by
  unfold fill
  split
  · rename_i hacc
    simp [hacc]
  · rename_i hacc
    simp [hacc]

theorem of_fill (h : m.fill table lo hi f = some m') :
    m.canAccess table = true ∧ m'.pmm = m.pmm ∧
      ∀ t j, m'.ram t j = if t = table ∧ lo ≤ j.val ∧ j.val < hi then f j else m.ram t j := by
  obtain ⟨hacc, rfl⟩ := fill_eq_some.mp h
  exact ⟨hacc, rfl, fun _ _ => rfl⟩

theorem fill_registers (h : m.fill table lo hi f = some m') : m'.vmm = m.vmm ∧ m'.cr3 = m.cr3 := by
  obtain ⟨_, rfl⟩ := fill_eq_some.mp h
  exact ⟨rfl, rfl⟩

theorem taken_allocPage {f : Nat} (h : m.pmm.CanTake f 1) (b : Nat) :
    (m.pmm.takeRun f 1).2.bitmap.test (b / 4096) = (decide (b / 4096 = f) || m.taken b) := by
  have hrange := test_setRange m.pmm.bitmap f 1 (b / 4096) h.inside
  have hiff : (f ≤ b / 4096 ∧ b / 4096 < f + 1) ↔ b / 4096 = f := by omega
  rw [taken, ← decide_eq_decide.mpr hiff]
  exact hrange

theorem allocPage_allocates (h : m.allocPage = some (pa, m')) : m.Allocates pa m' := by
  unfold allocPage at h
  rcases allocPage_cases m.pmm with hnone | ⟨f, htake, hsome⟩
  · rw [hnone] at h
    obtain ⟨rfl, rfl⟩ := h
    exact ⟨rfl, rfl, rfl, fun _ hb => hb, fun _ _ => rfl, fun hne => absurd rfl hne,
      fun hne => absurd rfl hne, fun hne => absurd rfl hne⟩
  have hfst := takeRun_fst htake
  have hbits := taken_allocPage htake
  have hsize : (m.pmm.takeRun f 1).2.bitmap.size = m.pmm.bitmap.size := setRange_size _ _ _
  rw [hsome] at h
  generalize m.pmm.takeRun f 1 = taken at h hfst hbits hsize
  obtain ⟨a, p⟩ := taken
  simp only at h hfst hbits hsize
  subst hfst
  have hkeeps : ∀ b, m.taken b = true → p.bitmap.test (b / 4096) = true := by
    intro b hb
    rw [hbits, hb, Bool.or_true]
  have hself : p.bitmap.test (f * 4096 / 4096) = true := by
    rw [hbits, decide_eq_true (Nat.mul_div_cancel f (by decide)), Bool.true_or]
  have hfresh : f * 4096 ≠ 0 → m.Fresh (f * 4096) := by
    intro hne
    have hdiv : f * 4096 / 4096 = f := Nat.mul_div_cancel f (by decide)
    refine ⟨hne, Nat.mul_mod_left f 4096, ?_, ?_⟩
    · rw [hdiv]
      exact htake.inside
    · rw [taken, hdiv]
      exact htake.clear f (Nat.le_refl f) (Nat.lt_succ_self f)
  split at h
  · rename_i hzero
    obtain ⟨rfl, rfl⟩ := h
    exact ⟨rfl, rfl, hsize, hkeeps, fun _ _ => rfl, fun hne => absurd rfl hne,
      fun hne => absurd rfl hne, fun hne => absurd rfl hne⟩
  split at h
  · simp only [Option.bind_eq_bind, Option.bind_eq_some_iff, fill_eq_some, Option.pure_def,
      Option.some.injEq, Prod.mk.injEq] at h
    obtain ⟨_, ⟨_, rfl⟩, rfl, rfl⟩ := h
    refine ⟨rfl, rfl, hsize, hkeeps, ?_, hfresh, fun _ => hself, ?_⟩
    · intro t ht
      funext i
      have hne : t ≠ f * 4096 := by
        rcases ht with hz | hne
        · contradiction
        · exact hne
      exact if_neg (fun hin => hne hin.1)
    · intro _ _ i
      exact if_pos ⟨rfl, Nat.zero_le _, i.isLt⟩
  · rename_i hdirect
    obtain ⟨rfl, rfl⟩ := h
    exact ⟨rfl, rfl, hsize, hkeeps, fun _ _ => rfl, hfresh, fun _ => hself,
      fun _ hd => absurd hd hdirect⟩

variable {count : Nat}

theorem of_zeroFrames (h : m.zeroFrames pa count = some m') :
    m'.vmm = m.vmm ∧ m'.cr3 = m.cr3 ∧ m'.pmm = m.pmm ∧ ∀ t, (∀ i < count, t ≠ pa + i * 4096) →
      m'.ram t = m.ram t := by
  induction count generalizing m' with
  | zero =>
    cases h
    exact ⟨rfl, rfl, rfl, fun _ _ => rfl⟩
  | succ count ih =>
    rw [zeroFrames, List.range_succ, List.foldlM_append] at h
    obtain ⟨m₁, h₁, h⟩ := Option.bind_eq_some_iff.mp h
    obtain ⟨hvmm, hcr3, hpmm, hram⟩ := ih h₁
    obtain ⟨m₂, h₂, h⟩ := Option.bind_eq_some_iff.mp h
    cases h
    obtain ⟨v₂, c₂⟩ := fill_registers h₂
    obtain ⟨_, p₂, r₂⟩ := of_fill h₂
    refine ⟨v₂.trans hvmm, c₂.trans hcr3, p₂.trans hpmm, ?_⟩
    intro t ht
    rw [← hram t fun i hi => ht i (by omega)]
    funext j
    rw [r₂, if_neg fun hat => ht count (by omega) hat.1]

theorem takeRun_takes {f : Nat} (h : m.pmm.CanTake f count) (hne : f ≠ 0)
    (hpmm : m'.pmm = (m.pmm.takeRun f count).2) (hvmm : m'.vmm = m.vmm) (hcr3 : m'.cr3 = m.cr3)
    (hram : ∀ t, (∀ i < count, t ≠ f * 4096 + i * 4096) → m'.ram t = m.ram t) :
    m.Takes (fun a => ∃ i < count, a = f * 4096 + i * 4096) m' := by
  have hin := h.inside
  have hbits : ∀ b, m'.taken b = (decide (f ≤ b / 4096 ∧ b / 4096 < f + count) || m.taken b) := by
    intro b
    rw [taken, hpmm]
    exact test_setRange m.pmm.bitmap f count (b / 4096) h.inside
  refine ⟨hvmm, hcr3, hpmm ▸ setRange_size _ _ _, ?_, ?_, ?_, ?_⟩
  · intro b hb
    rw [hbits, hb, Bool.or_true]
  · intro t ht
    exact hram t fun i hi heq => ht ⟨i, hi, heq⟩
  · rintro a ⟨i, hi, rfl⟩
    have hdiv : (f * 4096 + i * 4096) / 4096 = f + i := by omega
    refine ⟨by omega, by omega, by omega, ?_⟩
    rw [taken, hdiv]
    exact h.clear (f + i) (by omega) (by omega)
  · rintro a ⟨i, hi, rfl⟩
    rw [hbits, decide_eq_true (by omega), Bool.true_or]

theorem Takes.of_pmm (hvmm : m'.vmm = m.vmm) (hcr3 : m'.cr3 = m.cr3) (hram : m'.ram = m.ram)
    (hsize : m'.pmm.bitmap.size = m.pmm.bitmap.size)
    (hkeeps : ∀ b, m.taken b = true → m'.taken b = true) : m.Takes (fun _ => False) m' :=
  ⟨hvmm, hcr3, hsize, hkeeps, fun _ _ => hram ▸ rfl, fun _ h => h.elim, fun _ h => h.elim⟩

theorem allocPages_takes (h : m.allocPages count = some (pa, m')) :
    m.Takes (fun a => pa ≠ 0 ∧ ∃ i < count, a = pa + i * 4096) m' := by
  unfold allocPages at h
  split at h
  · rename_i hone
    have hA := (allocPage_allocates h).takes
    have hiff : (fun a => pa ≠ 0 ∧ ∃ i < count, a = pa + i * 4096) = fun a => a = pa ∧ pa ≠ 0 := by
      funext a
      rw [hone, and_comm]
      simp
    rw [hiff]
    exact hA
  · dsimp only at h
    rcases allocPages_cases m.pmm count with hnone | ⟨f, htake, hsome⟩
    · rw [hnone] at h
      cases h
      have hT : m.Takes (fun _ => False) m := .of_pmm rfl rfl rfl rfl fun _ hb => hb
      simpa using hT
    have hfst := takeRun_fst htake
    rw [hsome, hfst] at h
    split at h
    · rename_i hzero
      cases h
      have hT : m.Takes (fun _ => False) { m with pmm := (m.pmm.takeRun f count).2 } := by
        refine .of_pmm rfl rfl rfl (setRange_size _ _ _) fun b hb => ?_
        have hbit := test_setRange m.pmm.bitmap f count (b / 4096) htake.inside
        exact hbit.trans (by rw [taken] at hb; rw [hb, Bool.or_true])
      simpa using hT
    · rename_i hne
      have hf : f ≠ 0 := by omega
      have hpred : (fun a => f * 4096 ≠ 0 ∧ ∃ i < count, a = f * 4096 + i * 4096) =
          fun a => ∃ i < count, a = f * 4096 + i * 4096 := by
        funext a
        simp only [ne_eq, hne, not_false_eq_true, true_and]
      split at h
      · obtain ⟨m₁, hzero, h⟩ := Option.bind_eq_some_iff.mp h
        cases h
        obtain ⟨hvmm, hcr3, hpmm, hram⟩ := of_zeroFrames hzero
        rw [hpred]
        exact takeRun_takes htake hf hpmm hvmm hcr3 hram
      · cases h
        rw [hpred]
        exact takeRun_takes htake hf rfl rfl rfl fun _ _ => rfl

theorem allocPage_pmm (h : m.allocPage = some (pa, m')) : m.pmm.allocPage = (pa, m'.pmm) := by
  unfold allocPage at h
  dsimp only at h
  split at h
  · rename_i hzero
    cases h
    exact Prod.ext hzero rfl
  split at h
  · obtain ⟨m₁, hfill, h⟩ := Option.bind_eq_some_iff.mp h
    cases h
    exact Prod.ext rfl (of_fill hfill).2.1.symm
  · cases h
    rfl

theorem allocPages_pmm (hcount : count ≠ 1) (h : m.allocPages count = some (pa, m')) :
    m.pmm.allocPages count = (pa, m'.pmm) := by
  unfold allocPages at h
  rw [if_neg hcount] at h
  dsimp only at h
  split at h
  · rename_i hzero
    cases h
    exact Prod.ext hzero rfl
  split at h
  · obtain ⟨m₁, hzero, h⟩ := Option.bind_eq_some_iff.mp h
    cases h
    exact Prod.ext rfl (of_zeroFrames hzero).2.2.1.symm
  · cases h
    rfl

theorem allocPage_failed (hzero : 0 < m.pmm.bitmap.size → m.pmm.bitmap.test 0 = true)
    (h : m.allocPage = some (0, m')) : m' = m := by
  have hpmm := allocPage_pmm h
  rcases allocPage_cases m.pmm with hnone | ⟨f, htake, hsome⟩
  · unfold allocPage at h
    rw [hnone] at h
    cases h
    rfl
  have hf : f * 4096 = 0 := by rw [← takeRun_fst htake, ← hsome, hpmm]
  have hin := htake.inside
  have hset := hzero (by omega)
  rw [htake.clear 0 (by omega) (by omega)] at hset
  cases hset

theorem allocPages_failed (hcount : count ≠ 1)
    (hzero : 0 < m.pmm.bitmap.size → m.pmm.bitmap.test 0 = true)
    (h : m.allocPages count = some (0, m')) : m' = m := by
  have hpmm := allocPages_pmm hcount h
  rcases allocPages_cases m.pmm count with hnone | ⟨f, htake, hsome⟩
  · unfold allocPages at h
    rw [if_neg hcount, hnone] at h
    cases h
    rfl
  have hf : f * 4096 = 0 := by rw [← takeRun_fst htake, ← hsome, hpmm]
  have hin := htake.inside
  have hpos := htake.nonempty
  have hset := hzero (by omega)
  rw [htake.clear 0 (by omega) (by omega)] at hset
  cases hset

theorem taken_freePage_of_ne (m : Machine) (hne : b / 4096 ≠ pa / 4096) :
    (m.freePage pa).taken b = m.taken b := by
  by_cases h : m.pmm.CanFree pa
  · simp only [taken, freePage, freePage_of_canFree h]
    exact test_clearBit_of_ne _ hne
  · simp only [taken, freePage, freePage_of_not_canFree h]

theorem freePage_size (m : Machine) (pa : Nat) :
    (m.freePage pa).pmm.bitmap.size = m.pmm.bitmap.size := by
  by_cases h : m.pmm.CanFree pa
  · simp only [freePage, freePage_of_canFree h]
    rfl
  · simp only [freePage, freePage_of_not_canFree h]

end Machine

end LlamaOS.Memory
