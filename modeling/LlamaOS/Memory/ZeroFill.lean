import LlamaOS.Memory.Contiguous
import LlamaOS.Memory.Vmm

/-!
# Pages of a run that are not cleared

`alloc_page` clears its page when the page lies in the direct map. `alloc_pages` clears its run only
when the address after the run still lies in the direct map, so a run that reaches the limit of the
window or crosses it keeps its old contents.
-/

namespace LlamaOS.Memory
open WordBitset WordBitset.Bitset PhysicalAddress RunSearch

namespace PhysicalMemoryManager

/-- The run that `alloc_pages` takes: the first one from the hint on, otherwise the first one
below the hint. -/
structure FirstFit (p : PhysicalMemoryManager) (count s : Nat) : Prop where
  initialized : p.initialized = true
  notForced : p.forceAllocFailure = false
  counted : count ≤ p.freeFrames
  run : p.FreeRun s count
  first : (p.lastSearchFrame ≤ s ∧ ∀ s', p.lastSearchFrame ≤ s' → p.FreeRun s' count → s ≤ s') ∨
    (s + count ≤ p.lastSearchFrame ∧ (∀ s', p.lastSearchFrame ≤ s' → ¬ p.FreeRun s' count) ∧
      ∀ s', p.FreeRun s' count → s ≤ s')

variable {p : PhysicalMemoryManager} {count s : Nat}

theorem FirstFit.unique {s' : Nat} (h : p.FirstFit count s) (h' : p.FirstFit count s') :
    s = s' := by
  rcases h.first with ⟨hhint, hleast⟩ | ⟨_, hnone, hleast⟩ <;> rcases h'.first with
    ⟨hhint', hleast'⟩ | ⟨_, hnone', hleast'⟩
  · exact Nat.le_antisymm (hleast s' hhint' h'.run) (hleast' s hhint h.run)
  · exact absurd h.run (hnone' s hhint)
  · exact absurd h'.run (hnone s' hhint')
  · exact Nat.le_antisymm (hleast s' h'.run) (hleast' s h.run)

theorem freeRun_iff_run : p.FreeRun s count ↔
    s + count ≤ p.totalFrames ∧ RunSearch.Run (fun f => !p.bitmap.test f) s count := by
  unfold FreeRun RunSearch.Run
  simp only [Bool.not_eq_true']

theorem pass_some {first left : Nat} (hcount : 0 < count)
    (hin : first + left ≤ p.totalFrames ∨ left = 0)
    (h : search (fun f => !p.bitmap.test f) count left first 0 0 = some s) :
    p.FreeRun s count ∧ first ≤ s ∧ s + count ≤ first + left ∧ ∀ s', first ≤ s' →
      p.FreeRun s' count → s ≤ s' := by
  have hempty : RunSearch.Run (fun f => !p.bitmap.test f) (first - 0) 0 := fun j hlo hhi => by omega
  obtain ⟨hlo, hhi, hrun, hleast⟩ :=
    search_eq_some (Nat.zero_le _) hcount (fun hz => absurd rfl hz) hempty h
  refine ⟨freeRun_iff_run.mpr ⟨by omega, hrun⟩, by omega, hhi, fun s' hs' hrun' => ?_⟩
  exact hleast s' hs' (freeRun_iff_run.mp hrun').2

theorem pass_none {first left : Nat} (hcount : 0 < count)
    (h : search (fun f => !p.bitmap.test f) count left first 0 0 = none) (s' : Nat)
    (hlo : first ≤ s') (hhi : s' + count ≤ first + left) : ¬ p.FreeRun s' count := by
  intro hrun
  exact search_eq_none (Nat.zero_le _) hcount (fun j hlo hhi => by omega) h s' hlo hhi
    (freeRun_iff_run.mp hrun).2

/-- A request for more than one page either takes the first fit or fails, and then there is none. -/
theorem allocPages_firstFit (p : PhysicalMemoryManager) (hcount : 2 ≤ count) :
    (∃ s, p.FirstFit count s ∧ p.allocPages count = p.takeRun s count) ∨
      ((∀ s, ¬ p.FirstFit count s) ∧ p.allocPages count = (0, p)) := by
  unfold allocPages
  split
  · rename_i hguard
    refine .inr ⟨fun s hfit => ?_, rfl⟩
    have hcounted := hfit.counted
    simp only [hfit.initialized, hfit.notForced, Bool.not_true, Bool.false_or, Bool.or_false,
      Bool.or_eq_true, beq_iff_eq, decide_eq_true_eq] at hguard
    omega
  rename_i hguard
  simp only [Bool.or_eq_true, Bool.not_eq_true', beq_iff_eq, decide_eq_true_eq, not_or,
    Bool.not_eq_false, Bool.not_eq_true, Nat.not_lt] at hguard
  obtain ⟨⟨⟨hinit, _⟩, hfree⟩, hforce⟩ := hguard
  rw [if_neg (show ¬ count = 1 by omega)]
  split
  · rename_i hroom
    refine .inr ⟨fun s hfit => ?_, rfl⟩
    have hin := hfit.run.1
    omega
  dsimp only
  split
  · rename_i s hs
    obtain ⟨hrun, hlo, _, hleast⟩ := pass_some (by omega) (by omega) hs
    exact .inl ⟨s, ⟨hinit, hforce, hfree, hrun, .inl ⟨hlo, hleast⟩⟩, rfl⟩
  rename_i hnone
  have habove : ∀ s', p.lastSearchFrame ≤ s' → ¬ p.FreeRun s' count := by
    intro s' hs' hrun
    have hin := hrun.1
    exact pass_none (by omega) hnone s' hs' (by omega) hrun
  split
  · rename_i s hs
    obtain ⟨hrun, _, hhi, hleast⟩ := pass_some (by omega) (by omega) hs
    exact .inl ⟨s, ⟨hinit, hforce, hfree, hrun,
      .inr ⟨by omega, habove, fun s' hrun' => hleast s' (Nat.zero_le _) hrun'⟩⟩, rfl⟩
  rename_i hnone'
  refine .inr ⟨fun s hfit => ?_, rfl⟩
  rcases hfit.first with ⟨hhint, _⟩ | ⟨hbelow, _⟩
  · exact habove s hhint hfit.run
  · have hin := hfit.run.1
    exact pass_none (by omega) hnone' s (Nat.zero_le _) (by omega) hfit.run

end PhysicalMemoryManager

namespace Machine

def Cleared (m : Machine) (pa : Nat) : Prop := ∀ i, m.ram pa i = .clear

variable {m m' : Machine} {pa count : Nat}

theorem fill_cleared (h : m.fill pa 0 512 (fun _ => .clear) = some m') :
    m'.Cleared pa ∧ ∀ a, m.Cleared a → m'.Cleared a := by
  unfold fill at h
  split at h
  · cases h
    refine ⟨fun i => if_pos ⟨rfl, Nat.zero_le _, i.isLt⟩, fun a ha i => ?_⟩
    dsimp only
    split
    · rfl
    · exact ha i
  · cases h

theorem zeroFrames_cleared :
    ∀ {m' : Machine}, m.zeroFrames pa count = some m' →
      ∀ i < count, m'.Cleared (pa + i * 4096) := by
  induction count with
  | zero => exact fun _ i hi => absurd hi (Nat.not_lt_zero i)
  | succ count ih =>
    intro m' h i hi
    unfold zeroFrames at h
    rw [List.range_succ, List.foldlM_append] at h
    obtain ⟨m₁, h₁, hlast⟩ := Option.bind_eq_some_iff.mp h
    obtain ⟨m₂, hfill, heq⟩ := Option.bind_eq_some_iff.mp hlast
    obtain rfl := Option.some.inj heq
    obtain ⟨hnew, hkeep⟩ := fill_cleared hfill
    rcases Nat.lt_succ_iff_lt_or_eq.mp hi with hlt | rfl
    · exact hkeep _ (ih h₁ i hlt)
    · exact hnew

theorem allocPage_cleared (h : m.allocPage = some (pa, m')) (hpa : pa ≠ 0)
    (hdirect : isDirectMapped pa = true) : m'.Cleared pa := by
  unfold allocPage at h
  dsimp only at h
  split at h
  · cases h
    exact absurd rfl hpa
  split at h
  · obtain ⟨m₁, hfill, heq⟩ := Option.bind_eq_some_iff.mp h
    cases heq
    exact (fill_cleared hfill).1
  · rename_i hnot
    cases h
    exact absurd hdirect hnot

/-- The pages of a run that lie in the direct map are cleared exactly when the request is for one
page, the address after the run lies in the direct map, or they were cleared before. -/
theorem allocPages_cleared_iff (m : Machine) (hcount : 1 ≤ count) :
    (∀ pa m', m.allocPages count = some (pa, m') → pa ≠ 0 →
      ∀ i < count, PhysicalAddress.isDirectMapped (pa + i * 4096) = true →
        m'.Cleared (pa + i * 4096)) ↔
    (count = 1 ∨ ∀ s, m.pmm.FirstFit count s → s ≠ 0 →
      PhysicalAddress.isDirectMapped (add64 (s * 4096) (pageCountToBytes count)) = true ∨
      ∀ i < count, PhysicalAddress.isDirectMapped (s * 4096 + i * 4096) = true →
        m.Cleared (s * 4096 + i * 4096)) := by
  by_cases hone : count = 1
  · subst hone
    refine ⟨fun _ => .inl rfl, fun _ pa m' h hpa i hi hdirect => ?_⟩
    obtain rfl := Nat.lt_one_iff.mp hi
    unfold allocPages at h
    exact allocPage_cleared h hpa hdirect
  · have hmany : 2 ≤ count := by omega
    rcases m.pmm.allocPages_firstFit hmany with ⟨s, hfit, htake⟩ | ⟨hnone, hfail⟩
    · have hfst : (m.pmm.allocPages count).1 = s * 4096 := by
        rw [htake]
        exact PhysicalMemoryManager.takeRun_fst ⟨by omega, hfit.run.1, hfit.run.2⟩
      have halloc : m.allocPages count =
          if s * 4096 = 0 then some (0, { m with pmm := (m.pmm.allocPages count).2 })
          else if isDirectMapped (add64 (s * 4096) (pageCountToBytes count)) then
            ({ m with pmm := (m.pmm.allocPages count).2 }.zeroFrames (s * 4096) count).bind fun m =>
              some (s * 4096, m)
          else some (s * 4096, { m with pmm := (m.pmm.allocPages count).2 }) := by
        unfold allocPages
        rw [if_neg hone]
        dsimp only
        rw [hfst]
        rfl
      rw [halloc]
      constructor
      · intro hall
        refine .inr fun s' hfit' hs' => ?_
        obtain rfl := hfit.unique hfit'
        by_cases hend : isDirectMapped (add64 (s * 4096) (pageCountToBytes count)) = true
        · exact .inl hend
        · refine .inr fun i hi hdirect => ?_
          rw [if_neg (by omega), if_neg hend] at hall
          exact hall _ _ rfl (by omega) i hi hdirect
      · intro hgood pa m' h hpa i hi hdirect
        rcases hgood with hone' | hgood
        · exact absurd hone' hone
        split at h
        · cases h
          exact absurd rfl hpa
        rename_i hs
        split at h
        · obtain ⟨m₁, hzero, heq⟩ := Option.bind_eq_some_iff.mp h
          cases heq
          exact zeroFrames_cleared hzero i hi
        rename_i hend
        cases h
        rcases hgood s hfit (by omega) with hend' | hclear
        · exact absurd hend' hend
        · exact hclear i hi hdirect
    · refine ⟨fun _ => .inr fun s hfit => absurd hfit (hnone s), fun _ pa m' h hpa => ?_⟩
      unfold allocPages at h
      rw [if_neg hone, hfail] at h
      cases h
      exact absurd rfl hpa

def usedMachine : Machine := ⟨samplePmm, fun _ _ => .set 0x1000 .present, ⟨0, false⟩, 0⟩

theorem usedMachine_run_cleared :
    ∃ m', usedMachine.allocPages 2 = some (0x103000, m') ∧ m'.Cleared 0x104000 := by
  have hresult : (usedMachine.allocPages 2).map Prod.fst = some 0x103000 := by decide +kernel
  have hsize : samplePmm.totalFrames = 512 := by decide +kernel
  obtain ⟨⟨pa, m'⟩, halloc, rfl⟩ := Option.map_eq_some_iff.mp hresult
  refine ⟨m', halloc, (allocPages_cleared_iff usedMachine (by decide)).mpr
    (.inr fun s hfit _ => .inl ?_) _ m' halloc (by decide) 1 (by decide) (by decide)⟩
  have hin : s + 2 ≤ samplePmm.totalFrames := hfit.run.1
  have hend : s * 4096 + 2 * 4096 < 0x80000000 := by omega
  have hbytes : pageCountToBytes 2 = 2 * 4096 := rfl
  rw [hbytes, add64_eq (by omega)]
  exact decide_eq_true hend

/-- Two GiB of RAM of which only the last two frames are free. -/
def fullPmm : PhysicalMemoryManager where
  bitmap := ⟨0x80000, List.replicate 0x1FFF (BitVec.allOnes 64) ++ [0x3FFFFFFFFFFFFFFF], by
    rw [List.length_append, List.length_replicate]
    decide⟩
  maxManagedPaddr := 0x80000000
  usableFrames := 0x7FE00
  freeFrames := 2
  allocatedFrames := 0x7FDFE
  lastSearchFrame := 0x7FFFE
  initialized := true

def fullMachine : Machine := ⟨fullPmm, fun _ _ => .set 0x1000 .present, ⟨0, false⟩, 0⟩

/-- Both pages lie in the direct map, and neither is cleared. -/
theorem last_run_not_cleared : ∃ m', fullMachine.allocPages 2 = some (0x7FFFE000, m') ∧
    PhysicalAddress.isDirectMapped 0x7FFFE000 = true ∧ ¬ m'.Cleared 0x7FFFE000 := by
  have hresult : (fullMachine.allocPages 2).map (fun r => (r.1, r.2.ram 0x7FFFE000 0)) =
      some (0x7FFFE000, .set 0x1000 .present) := by decide +kernel
  obtain ⟨⟨pa, m'⟩, halloc, heq⟩ := Option.map_eq_some_iff.mp hresult
  obtain ⟨rfl, hword⟩ := Prod.mk.inj heq
  refine ⟨m', halloc, by decide, fun hclear => ?_⟩
  rw [hclear 0] at hword
  exact absurd hword (by decide)

end Machine

end LlamaOS.Memory
