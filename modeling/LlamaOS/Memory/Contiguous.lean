import LlamaOS.Memory.HandedOut

/-!
# Contiguous allocation

`alloc_pages` searches from its hint to the end and then from the beginning to the
hint, each time with a fresh run counter. It therefore finds a run exactly when some
free run does not straddle the hint, while `largest_contiguous_free_pages` counts
every run.
-/

namespace LlamaOS.Memory
open Boot WordBitset WordBitset.Bitset PhysicalMemoryManager RunSearch

namespace PhysicalMemoryManager

/-- `count` consecutive free frames from `s` on. -/
def FreeRun (p : PhysicalMemoryManager) (s count : Nat) : Prop :=
  s + count ≤ p.totalFrames ∧ ∀ f, s ≤ f → f < s + count → p.bitmap.test f = false

/-- Where the search of `alloc_pages` looks: single frames in whole bitmap words, longer runs
on one side of the hint. -/
def Searched (p : PhysicalMemoryManager) (s count : Nat) : Prop :=
  if count = 1 then s < 64 * (p.totalFrames / 64)
  else s + count ≤ p.lastSearchFrame ∨ p.lastSearchFrame ≤ s

instance (p : PhysicalMemoryManager) (s count : Nat) : Decidable (p.FreeRun s count) :=
  inferInstanceAs (Decidable (_ ∧ ∀ f, s ≤ f → f < s + count → _))

instance (p : PhysicalMemoryManager) (s count : Nat) : Decidable (p.Searched s count) :=
  inferInstanceAs (Decidable (if count = 1 then s < 64 * (p.totalFrames / 64)
    else s + count ≤ p.lastSearchFrame ∨ p.lastSearchFrame ≤ s))

theorem allocPages_one (p : PhysicalMemoryManager) : p.allocPages 1 = p.allocPage := by
  have hfree : decide (p.freeFrames < 1) = (p.freeFrames == 0) := by
    cases p.freeFrames <;> simp
  unfold allocPages
  rw [if_pos rfl, hfree, show ((1 : Nat) == 0) = false from rfl, Bool.or_false]
  split
  · rename_i hguard
    rw [allocPage, if_pos hguard]
  · rfl

def Exhausted (p : PhysicalMemoryManager) : Prop := p.freeFrames = 0 ∨ p.forceAllocFailure = true

theorem allocPage_of_exhausted {p : PhysicalMemoryManager} (h : p.Exhausted) :
    p.allocPage = (0, p) := by
  rcases h with hfree | hforce
  · simp [allocPage, hfree]
  · simp [allocPage, hforce]

end PhysicalMemoryManager

section Search
variable {args : BootArgs} {p : PhysicalMemoryManager} (h : Consistent args p)
include h

variable {s count : Nat}

theorem freeRun_le_free (hrun : p.FreeRun s count) : count ≤ p.freeFrames := by
  rw [h.free]
  exact le_clearCount_of_run _ _ _ hrun.1 hrun.2

theorem le_largestContiguous_iff (hcount : 1 ≤ count) :
    count ≤ p.largestContiguousFreePages ↔ ∃ s, p.FreeRun s count := by
  have hrun : ∀ s, RunSearch.Run (fun f => !p.bitmap.test f) s count ↔
      ∀ f, s ≤ f → f < s + count → p.bitmap.test f = false := by
    intro s
    simp [RunSearch.Run]
  unfold largestContiguousFreePages
  split
  · rename_i hguard
    simp only [h.initialized, Bool.not_true, Bool.false_or, beq_iff_eq] at hguard
    constructor
    · intro hle
      omega
    · rintro ⟨s, hs⟩
      have := freeRun_le_free h hs
      omega
  · rw [le_longest_iff (Nat.le_refl _) (Nat.le_refl _) (fun j hlo hhi => by omega)]
    constructor
    · rintro (hle | ⟨s, _, hin, hs⟩)
      · omega
      · exact ⟨s, by omega, (hrun s).mp hs⟩
    · rintro ⟨s, hin, hs⟩
      exact Or.inr ⟨s, by omega, by omega, (hrun s).mpr hs⟩

theorem takeRun_ne_zero (htake : p.CanTake s count) : (p.takeRun s count).1 ≠ 0 := by
  have hs := (consistent_kept args).start_ne_zero (l := Ledger.start p) h htake
  rw [takeRun_fst htake]
  omega

/-- A single page is found wherever a whole word of the bitmap has a clear bit. -/
theorem allocPage_ne_zero_iff (hforce : p.forceAllocFailure = false) :
    p.allocPage.1 ≠ 0 ↔ ∃ s, p.FreeRun s 1 ∧ s < 64 * (p.totalFrames / 64) := by
  constructor
  · intro hne
    unfold allocPage at hne
    split at hne
    · exact absurd rfl hne
    simp only at hne
    split at hne
    · rename_i f hfind
      obtain ⟨hlt, hclear, hword⟩ := findClear_spec hfind
      refine ⟨f, ⟨hlt, ?_⟩, hword⟩
      intro j hlo hhi
      rwa [show j = f by omega]
    · exact absurd rfl hne
  · rintro ⟨s, hrun, hword⟩
    have hfree := freeRun_le_free h hrun
    have hguard : (!p.initialized || p.freeFrames == 0 || p.forceAllocFailure) = false := by
      simp only [h.initialized, hforce, Bool.not_true, Bool.false_or, Bool.or_false,
        beq_eq_false_iff_ne]
      omega
    rcases allocPage_cases p with hzero | ⟨f, htake, htaken⟩
    · exfalso
      unfold allocPage at hzero
      simp only [hguard, Bool.false_eq_true, if_false] at hzero
      split at hzero
      · -- a found frame changes the hint, so the result is not the failure value
        rename_i f hfind
        obtain ⟨hlt, hclear, _⟩ := findClear_spec hfind
        have hset := congrArg (fun r => r.2.bitmap.test f) hzero
        simp [test_setBit _ _ _ hlt, hclear] at hset
      rename_i hfind
      have hset := findClear_eq_none hfind s hword
      rw [hrun.2 s (Nat.le_refl _) (by omega)] at hset
      exact Bool.noConfusion hset
    · rw [htaken]
      exact takeRun_ne_zero h htake

theorem allocPage_eq_zero_iff (hsize : p.bitmap.size ≤ 2 ^ 40) :
    p.allocPage.1 = 0 ↔ p.Exhausted := by
  constructor
  · intro hzero
    by_contra hsome
    obtain ⟨hfree, hforce⟩ := not_or.mp hsome
    rw [h.free] at hfree
    obtain ⟨f, hf, hclear⟩ := List.countP_pos_iff.mp (Nat.pos_of_ne_zero hfree)
    rw [List.mem_range] at hf
    rw [Bool.not_eq_true'] at hclear
    have hcases :=
      PhysicalAddress.alignUp_cases (maxUsableAddr args.entries) (2 * 1024 * 1024) (by decide)
    change args.limit % _ = 0 ∧ _ ∨ args.limit = _ ∧ _ at hcases
    have hlimit := h.size
    have hword : f < 64 * (p.totalFrames / 64) := by
      change f < 64 * (p.bitmap.size / 64)
      rcases hcases with ⟨hmod, _⟩ | ⟨hmax, _⟩
      · omega
      · rw [hmax] at hlimit
        simp only [uint64Max] at hlimit
        omega
    refine (allocPage_ne_zero_iff h (Bool.eq_false_iff.mpr hforce)).mpr ⟨f, ⟨hf, ?_⟩, hword⟩ hzero
    intro j hlo hhi
    rwa [show j = f by omega]
  · intro hnone
    rw [allocPage_of_exhausted hnone]

omit h in
theorem pass_isSome_iff (p : PhysicalMemoryManager) {left first : Nat} (hcount : 1 ≤ count)
    (hin : first + left ≤ p.totalFrames ∨ left = 0) :
    (search (fun f => !p.bitmap.test f) count left first 0 0).isSome ↔
      ∃ s, p.FreeRun s count ∧ first ≤ s ∧ s + count ≤ first + left := by
  rw [search_isSome_iff hcount]
  constructor
  · rintro ⟨s, hlo, hhi, hrun⟩
    exact ⟨s, ⟨by omega, fun f h₁ h₂ => by simpa using hrun f h₁ h₂⟩, hlo, hhi⟩
  · rintro ⟨s, hrun, hlo, hhi⟩
    exact ⟨s, hlo, hhi, fun f h₁ h₂ => by simpa using hrun.2 f h₁ h₂⟩

/-- Without enough frames there is no run, and the request is turned down at once. -/
theorem no_run_of_no_room (hroom : p.freeFrames < count ∨ count > p.totalFrames) (s : Nat) :
    ¬ p.FreeRun s count := by
  intro hrun
  have hfree := freeRun_le_free h hrun
  have hin := hrun.1
  omega

omit h in
theorem allocPages_no_room (p : PhysicalMemoryManager) (hcount : 2 ≤ count)
    (hroom : p.freeFrames < count ∨ count > p.totalFrames) : p.allocPages count = (0, p) := by
  unfold allocPages
  rcases hroom with hfree | htotal
  · simp [hfree]
  split
  · rfl
  · rw [if_neg (by omega)]

theorem allocPages_ne_zero_of_two_le (hcount : 2 ≤ count) (hforce : p.forceAllocFailure = false) :
    (p.allocPages count).1 ≠ 0 ↔ ∃ s, p.FreeRun s count ∧
      (s + count ≤ p.lastSearchFrame ∨ p.lastSearchFrame ≤ s) := by
  by_cases hroom : p.freeFrames < count ∨ count > p.totalFrames
  · have hnone := no_run_of_no_room h hroom
    simp [allocPages_no_room p hcount hroom, hnone]
  have hguard : (!p.initialized || count == 0 || decide (p.freeFrames < count) ||
      p.forceAllocFailure) = false := by
    simp only [h.initialized, hforce, Bool.not_true, Bool.false_or, Bool.or_false,
      Bool.or_eq_false_iff, beq_eq_false_iff_ne, decide_eq_false_iff_not]
    omega
  have hcount₁ : 1 ≤ count := by omega
  have hfirst := pass_isSome_iff p hcount₁
    (by omega : p.lastSearchFrame + (p.totalFrames - p.lastSearchFrame) ≤ p.totalFrames ∨
      p.totalFrames - p.lastSearchFrame = 0)
  have hsecond := pass_isSome_iff p hcount₁
    (by omega : 0 + min p.lastSearchFrame p.totalFrames ≤ p.totalFrames ∨
      min p.lastSearchFrame p.totalFrames = 0)
  unfold allocPages
  simp only [hguard, Bool.false_eq_true, if_false, if_neg (show ¬ count = 1 by omega),
    if_neg (show ¬ count > p.totalFrames by omega)]
  split
  · rename_i s hs
    obtain ⟨s', hrun, hlo, _⟩ := hfirst.mp (by simp [hs])
    have htake : p.CanTake s count := by
      by_cases hle : p.lastSearchFrame ≤ p.totalFrames
      · exact canTake_of_search (by omega) (by simp only [totalFrames] at *; omega) hs
      · rw [Nat.sub_eq_zero_of_le (by omega)] at hs
        simp [search] at hs
    exact ⟨fun _ => ⟨s', hrun, Or.inr hlo⟩, fun _ => takeRun_ne_zero h htake⟩
  · rename_i hnone
    have hright : ¬ ∃ s, p.FreeRun s count ∧ p.lastSearchFrame ≤ s := by
      rintro ⟨s, hrun, hlo⟩
      have hin := hrun.1
      have hsome := hfirst.mpr ⟨s, hrun, hlo, by omega⟩
      simp [hnone] at hsome
    split
    · rename_i s hs
      obtain ⟨s', hrun, _, hhi⟩ := hsecond.mp (by simp [hs])
      have htake : p.CanTake s count :=
        canTake_of_search (by omega) (by simp only [totalFrames]; omega) hs
      exact ⟨fun _ => ⟨s', hrun, Or.inl (by omega)⟩, fun _ => takeRun_ne_zero h htake⟩
    rename_i hnone₂
    constructor
    · intro hne
      exact absurd rfl hne
    · rintro ⟨s, hrun, hhi | hlo⟩
      · have hin := hrun.1
        have hsome := hsecond.mpr ⟨s, hrun, Nat.zero_le _, by omega⟩
        simp [hnone₂] at hsome
      · exact absurd ⟨s, hrun, hlo⟩ hright

theorem allocPages_ne_zero_iff (hcount : 1 ≤ count) (hforce : p.forceAllocFailure = false) :
    (p.allocPages count).1 ≠ 0 ↔ ∃ s, p.FreeRun s count ∧ p.Searched s count := by
  unfold Searched
  by_cases hone : count = 1
  · subst hone
    simp only [if_true]
    rw [allocPages_one, allocPage_ne_zero_iff h hforce]
  · simp only [if_neg hone]
    exact allocPages_ne_zero_of_two_le h (by omega) hforce

end Search

/-- Two free frames on both sides of the hint. -/
def straddleOps : List PmmOp :=
  [.allocPages 252, .freePage (300 * 4096), .freePage (302 * 4096), .freePage (303 * 4096),
    .allocPages 2, .freePage (301 * 4096)]

/-- In every reachable state the largest run is counted correctly, and `alloc_pages` agrees with
it exactly when a free run, if there is one, also lies where the search looks. -/
theorem allocPages_complete_iff {args : BootArgs} {p₀ p : PhysicalMemoryManager}
    (hinit : p₀.init args args.tracker = some (true, p)) (ops : List PmmOp) {count : Nat}
    (hcount : 1 ≤ count) (hforce : (p.run ops).forceAllocFailure = false) :
    (count ≤ (p.run ops).largestContiguousFreePages ↔ ∃ s, (p.run ops).FreeRun s count) ∧
    ((((p.run ops).allocPages count).1 ≠ 0 ↔ count ≤ (p.run ops).largestContiguousFreePages) ↔
      ((∃ s, (p.run ops).FreeRun s count) →
        ∃ s, (p.run ops).FreeRun s count ∧ (p.run ops).Searched s count)) := by
  have h := consistent_run hinit ops
  rw [allocPages_ne_zero_iff h hcount hforce, le_largestContiguous_iff h hcount]
  refine ⟨Iff.rfl, ⟨fun hiff => hiff.mpr, fun himp => ⟨?_, himp⟩⟩⟩
  rintro ⟨s, hrun, _⟩
  exact ⟨s, hrun⟩

/-- Two frames are free side by side, yet a request for two fails. -/
theorem straddled_run_missed :
    gPmm.init sampleBoot sampleBoot.tracker = some (true, samplePmm) ∧
      (samplePmm.run straddleOps).forceAllocFailure = false ∧
      (samplePmm.run straddleOps).largestContiguousFreePages = 2 ∧
      ((samplePmm.run straddleOps).allocPages 2).1 = 0 := by
  decide +kernel

theorem sampleBoot_complete :
    ((samplePmm.run []).allocPages 3).1 ≠ 0 ↔
      3 ≤ (samplePmm.run []).largestContiguousFreePages := by
  have h := allocPages_complete_iff sampleBoot_init [] (by decide : 1 ≤ 3) (by decide +kernel)
  exact h.2.mpr fun _ => ⟨259, by decide +kernel⟩

end LlamaOS.Memory
