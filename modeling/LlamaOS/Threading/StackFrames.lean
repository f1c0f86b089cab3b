import LlamaOS.Threading.Scheduler
import LlamaOS.Memory.KernelPages

/-!
# The frames of a thread stack

A stack that cannot be set up gives back its four frames, but not the page tables that
mapping its first page has added: all slots lie below one page table, so they are added
when the window is used for the first time.
-/

namespace LlamaOS.Threading
open Memory VirtualAddress VirtualMemoryManager RadixForest StackAllocator Machine Borrowed

variable {pa : Nat}

section Window
variable {slot p : Nat} (hslot : slot < maxStackSlots) (hp : p < stackUsablePages)
include hslot hp

theorem stackPage_eq :
    add64 (slotBottom slot) (p * pageSize) = 0xFFFFFFFF72001000 + slot * 20480 + p * 4096 := by
  simp only [maxStackSlots, stackUsablePages] at hslot hp
  rw [slotBottom, slotBase, add64_eq (a := threadStackBaseVirt),
    add64_eq (a := threadStackBaseVirt + _), add64_eq]
  all_goals
    simp only [threadStackBaseVirt, slotSizeBytes, pagesPerSlot, guardPages,
      stackUsablePages, pageSize]
    omega

theorem ptPath_stackPage :
    ptPath (add64 (slotBottom slot) (p * pageSize)) = ptPath threadStackBaseVirt := by
  rw [stackPage_eq hslot hp]
  simp only [maxStackSlots, stackUsablePages] at hslot hp
  have hsame : ∀ shift, 21 ≤ shift → shift ≤ 39 →
      tableIndex shift (0xFFFFFFFF72001000 + slot * 20480 + p * 4096) =
        tableIndex shift threadStackBaseVirt := by
    intro shift hlo hhi
    apply Fin.ext
    rw [tableIndex_val, tableIndex_val]
    have hwhole : ∀ a : Nat, a / 2 ^ shift = a / 2 ^ 21 / 2 ^ (shift - 21) := by
      intro a
      rw [Nat.div_div_eq_div_mul, ← Nat.pow_add, show 21 + (shift - 21) = shift by omega]
    rw [hwhole, hwhole threadStackBaseVirt]
    have hregion : (0xFFFFFFFF72001000 + slot * 20480 + p * 4096) / 2 ^ 21 =
        threadStackBaseVirt / 2 ^ 21 := by
      simp only [threadStackBaseVirt]
      omega
    rw [hregion]
  simp only [ptPath, pml4Index, pdptIndex, pdIndex]
  rw [hsame 39 (by decide) (by decide), hsame 30 (by decide) (by decide),
    hsame 21 (by decide) (by decide)]

theorem window_stackPage : KernelWindow (add64 (slotBottom slot) (p * pageSize)) := by
  have hpath := ptPath_stackPage hslot hp
  constructor
  · have hfirst := (List.cons.inj hpath).1
    rw [hfirst]
    decide
  · intro a ha heq
    rw [hpath] at heq
    have hsecond := congrArg Fin.val (List.cons.inj (List.cons.inj heq).2).1
    simp only [PhysicalAddress.isDirectMapped, decide_eq_true_eq] at ha
    rw [pdptIndex, pdptIndex, tableIndex_val, tableIndex_val, physToVirt,
      add64_eq (by simp only [kernelVirtualBase]; omega)] at hsecond
    simp only [kernelVirtualBase, threadStackBaseVirt] at hsecond
    omega

theorem validArgs_stackPage (hpa : pa % 4096 = 0) (hlt : pa < 2 ^ 52) :
    System.ValidArgs (add64 (slotBottom slot) (p * pageSize)) (add64 pa (p * pageSize)) := by
  rw [stackPage_eq hslot hp, System.ValidArgs, isCanonical_iff]
  simp only [maxStackSlots, stackUsablePages] at hslot hp
  rw [add64_eq (by simp only [pageSize]; omega)]
  simp only [pageSize]
  omega

end Window

section Stack
variable {args : BootArgs} {p₀ : PhysicalMemoryManager} {base : Finset Nat} {root : Nat}

variable {s : System} {extra : Finset Nat} {slot : Nat} {m : Machine}

theorem unmapPages_tenancy {count : Nat} (h : s.Tenancy args p₀ base extra root)
    (hslot : slot < maxStackSlots) (hcount : count ≤ stackUsablePages)
    (hrun : unmapPages (slotBottom slot) count s.machine = some m) :
    (s.withMachine m).Tenancy args p₀ base extra root := by
  apply MonadicFold.invariant (P := fun m => (s.withMachine m).Tenancy args p₀ base extra root)
    _ h hrun
  intro m p m' hp hm hstep
  obtain ⟨⟨status, m₁⟩, hunmap, heq⟩ := Option.bind_eq_some_iff.mp hstep
  cases heq
  have hlt := List.mem_range.mp hp
  exact hm.unmapKernel (window_stackPage hslot (by omega)) hunmap

/-- The page table of the stack window is missing, and there are frames for one. -/
def MissesTable (s : System) : Prop :=
  LacksTable s.ram s.kernelRoot (ptPath threadStackBaseVirt) ∧ ¬ s.machine.pmm.Exhausted

variable {ok : Bool}

/-- The mapping loop: on a failure the frames are free again, and only tables can be left. -/
theorem mapPages_tenancy (hslot : slot < maxStackSlots) (pages : List Nat)
    (hpages : ∀ p ∈ pages, p < stackUsablePages) (h : s.Tenancy args p₀ base extra root)
    (hheld : ∀ i < stackUsablePages, pa + i * 4096 ∈ s.held ∧ pa + i * 4096 ∉ base)
    (hrun : mapPages (slotBottom slot) pa pages s.machine = some (ok, m)) :
    ∃ extra', (extra' = ∅ ↔ extra = ∅ ∧ ¬ (pages ≠ [] ∧ MissesTable s)) ∧
      if ok then (s.withMachine m).Tenancy args p₀ base extra' root
      else System.Tenancy args p₀ base extra' root
        { s with machine := m, held := s.held \ runAt pa stackUsablePages } := by
  induction pages generalizing s extra with
  | nil =>
    cases hrun
    exact ⟨extra, by simp, h⟩
  | cons p rest ih =>
    have hown := h.inv.heldOwned (hheld 0 (by decide)).1
    have hp := hpages p List.mem_cons_self
    have hpath := ptPath_stackPage hslot hp
    obtain ⟨⟨status, m₁⟩, hmap, hrun⟩ := Option.bind_eq_some_iff.mp hrun
    have hflags : testFlag stackPageFlags PageFlags.user = false := by decide
    obtain ⟨⟨extra₁, hsub, h₁, hadded⟩, hthere⟩ := h.mapKernel (window_stackPage hslot hp) hflags
      (validArgs_stackPage hslot hp hown.aligned hown.below) hmap
    rw [hpath] at hadded hthere
    have hempty : extra₁ = ∅ ↔ extra = ∅ ∧ ¬ (p :: rest ≠ [] ∧ MissesTable s) := by
      constructor
      · rintro rfl
        obtain rfl := Finset.subset_empty.mp hsub
        exact ⟨rfl, fun hboth => hadded.mp rfl hboth.2⟩
      · rintro ⟨rfl, hnot⟩
        exact hadded.mpr fun hmiss => hnot ⟨List.cons_ne_nil p rest, hmiss⟩
    dsimp only at hrun
    split at hrun
    · obtain ⟨m₂, hunmap, heq⟩ := Option.bind_eq_some_iff.mp hrun
      cases heq
      have h₂ := unmapPages_tenancy h₁ hslot (by omega) hunmap
      have hfreed := h₂.freeRun pa (by decide) (by decide) hheld
      exact ⟨extra₁, hempty, hfreed⟩
    rename_i hok
    rw [Decidable.not_not] at hok
    obtain ⟨extra', hempty', hend⟩ :=
      ih (fun q hq => hpages q (List.mem_cons_of_mem p hq)) h₁ hheld hrun
    refine ⟨extra', hempty'.trans ⟨fun hboth => hempty.mp hboth.1, fun hboth => ?_⟩, hend⟩
    exact ⟨hempty.mpr hboth, fun hmiss => hthere hok hmiss.2.1⟩

/-- `allocate_stack` gets as far as mapping, and a table is missing then. -/
def AddsTables (a : StackAllocator) (m : Machine) : Prop :=
  a.initialized = true ∧ a.freeSlot ≠ none ∧ (m.pmm.allocPages stackUsablePages).1 ≠ 0 ∧
    stackUsablePages < m.pmm.freeFrames ∧
    LacksTable m.ram m.vmm.rootPml4Paddr (ptPath threadStackBaseVirt)

variable {a : StackAllocator}

theorem freeSlot_lt (h : a.freeSlot = some slot) : slot < maxStackSlots :=
  List.mem_range.mp (List.mem_of_find?_eq_some h)

section

variable (h : s.Tenancy args p₀ base ∅ root)
include h

theorem missesTable_after (halloc : s.machine.allocPages stackUsablePages = some (pa, m))
    (hpa : pa ≠ 0) :
    MissesTable { s with machine := m, held := s.held ∪ runAt pa stackUsablePages } ↔
      stackUsablePages < s.machine.pmm.freeFrames ∧
        LacksTable s.machine.ram s.machine.vmm.rootPml4Paddr (ptPath threadStackBaseVirt) := by
  have hT := allocPages_takes halloc
  have hpmm := allocPages_pmm (by decide) halloc
  have hroot : s.machine.vmm.rootPml4Paddr = s.kernelRoot := by rw [h.inv.vmm]
  have hforce : s.machine.pmm.forceAllocFailure = false := by
    by_contra hforce
    rw [Bool.not_eq_false] at hforce
    rw [PhysicalMemoryManager.allocPages, hforce, Bool.or_true] at hpmm
    exact hpa (congrArg Prod.fst hpmm).symm
  obtain ⟨frames, hb, _⟩ := h.account
  obtain ⟨_, hdisj, hb'⟩ := (hb.allocPages hpmm).resolve_left fun hnone => hpa hnone.1
  have hbefore := hb.freeFrames
  have hafter := hb'.freeFrames
  rw [Finset.card_union_of_disjoint hdisj, card_runAt] at hafter
  have henough : stackUsablePages ≤ s.machine.pmm.freeFrames := by omega
  have hexhausted : m.pmm.Exhausted ↔ s.machine.pmm.freeFrames = stackUsablePages := by
    have hsame : m.pmm.forceAllocFailure = false := hb'.force.trans (hb.force.symm.trans hforce)
    rw [PhysicalMemoryManager.Exhausted, hsame]
    simp only [Bool.false_eq_true, or_false]
    omega
  have htables : LacksTable m.ram s.kernelRoot (ptPath threadStackBaseVirt) ↔
      LacksTable s.ram s.kernelRoot (ptPath threadStackBaseVirt) := by
    apply lacksTable_congr (Nat.le_of_eq (System.ptPath_length _))
    intro q l hq hl
    exact h.inv.take_ram hT ⟨System.tracked_of_root (Or.inl rfl) hq, hl⟩
  rw [hroot, MissesTable]
  change LacksTable m.ram s.kernelRoot _ ∧ ¬ m.pmm.Exhausted ↔ _
  rw [htables, hexhausted, and_comm]
  apply and_congr_left
  intro _
  omega

/-- A stack that is set up: its slot is marked, and its frames are held beside those in `base`. -/
structure StackReady (args : BootArgs) (p₀ : PhysicalMemoryManager) (base extra : Finset Nat)
    (root : Nat) (s : System) (info : ThreadStackInfo) (a : StackAllocator) (m : Machine) :
    Prop where
  initialized : a.initialized = true
  slot : ∃ slot < maxStackSlots, info.slotIndex = slot ∧ a.slotInUse slot = true ∧
    info.stackBottom = slotBottom slot
  nonnull : info.physicalBase ≠ 0
  count : info.pageCount = stackUsablePages
  apart : ∀ i < stackUsablePages, info.physicalBase + i * 4096 ∉ base
  tenancy : System.Tenancy args p₀ base extra root
    { s with machine := m, held := s.held ∪ runAt info.physicalBase stackUsablePages }

omit h in
theorem union_run_sdiff (held : Finset Nat)
    (hfresh : ∀ i < stackUsablePages, pa + i * 4096 ∉ held) :
    (held ∪ runAt pa stackUsablePages) \ runAt pa stackUsablePages = held := by
  rw [Finset.union_sdiff_right, Finset.sdiff_eq_self_iff_disjoint, Finset.disjoint_right]
  intro a ha
  obtain ⟨i, hi, rfl⟩ := mem_runAt.mp ha
  exact hfresh i hi

omit h in
theorem StackReady.freed {info : ThreadStackInfo} {a' : StackAllocator} {m' : Machine}
    (h : StackReady args p₀ base extra root s info a m) (hheld : s.held = base)
    (hfree : a.freeStack info m = some (ok, a', m')) :
    (s.withMachine m').Tenancy args p₀ base extra root := by
  obtain ⟨slot, hslot, hindex, hused, hbottom⟩ := h.slot
  unfold freeStack at hfree
  have hrange : ¬ (info.slotIndex < 0 ∨ info.slotIndex ≥ maxStackSlots) := by
    omega
  have hnull : PhysicalAddress.isNull info.physicalBase = false := beq_false_of_ne h.nonnull
  rw [if_neg (by rw [h.initialized]; decide), if_neg hrange,
    if_neg (by rw [hindex, Int.toNat_natCast, hused]; decide)] at hfree
  obtain ⟨m₁, hunmap, hfree⟩ := Option.bind_eq_some_iff.mp hfree
  rw [hnull, h.count] at hfree
  cases hfree
  rw [hbottom, h.count] at hunmap
  have h₁ := unmapPages_tenancy h.tenancy hslot (Nat.le_refl _) hunmap
  have hfreed := h₁.freeRun info.physicalBase (by decide) (by decide)
    fun j hj => ⟨Finset.mem_union_right _ (mem_runAt.mpr ⟨j, hj, rfl⟩), h.apart j hj⟩
  have hback := union_run_sdiff s.held fun j hj => hheld ▸ h.apart j hj
  have hheld' : (System.withMachine
      { s with machine := m, held := s.held ∪ runAt info.physicalBase stackUsablePages } m₁).held \
      runAt info.physicalBase stackUsablePages = s.held := hback
  rw [hheld'] at hfreed
  exact hfreed

/-- What `allocate_stack` did, seen from a state in which nothing is held for the space. -/
theorem allocateStack_tenancy {res : Option (ThreadStackInfo × StackAllocator)}
    (hheld : s.held = base) (hrun : a.allocateStack s.machine = some (res, m)) :
    ∃ extra, (extra = ∅ ↔ ¬ AddsTables a s.machine) ∧
      ((res = none ∧ (s.withMachine m).Tenancy args p₀ base extra root) ∨
        ∃ info a', res = some (info, a') ∧ StackReady args p₀ base extra root s info a' m) := by
  unfold allocateStack at hrun
  split at hrun
  · rename_i hinit
    cases hrun
    refine ⟨∅, ⟨fun _ hadds => ?_, fun _ => rfl⟩, Or.inl ⟨rfl, h⟩⟩
    rw [hadds.1] at hinit
    cases hinit
  rename_i hinit
  rw [Bool.not_eq_true, Bool.not_eq_false'] at hinit
  split at hrun
  · rename_i hslot
    cases hrun
    exact ⟨∅, ⟨fun _ hadds => hadds.2.1 hslot, fun _ => rfl⟩, Or.inl ⟨rfl, h⟩⟩
  rename_i slot hslot
  have hlt := freeSlot_lt hslot
  obtain ⟨⟨pa, m₁⟩, halloc, hrun⟩ := Option.bind_eq_some_iff.mp hrun
  have hpmm := allocPages_pmm (by decide) halloc
  dsimp only at hrun
  split at hrun
  · rename_i hpa
    subst hpa
    cases hrun
    obtain ⟨_, hb, _⟩ := h.account
    obtain rfl := allocPages_failed (by decide) hb.now.zero halloc
    exact ⟨∅, ⟨fun _ hadds => hadds.2.2.1 (congrArg Prod.fst hpmm), fun _ => rfl⟩, Or.inl ⟨rfl, h⟩⟩
  rename_i hpa
  have hfresh : ∀ i < stackUsablePages, pa + i * 4096 ∉ s.held := by
    intro i hi
    exact (h.inv.take_fresh (allocPages_takes halloc) ⟨hpa, i, hi, rfl⟩).2.2
  have h₁ := h.takeRun (by decide) halloc hpa
  obtain ⟨⟨ok, m₂⟩, hmap, hrun⟩ := Option.bind_eq_some_iff.mp hrun
  obtain ⟨extra, hempty, hend⟩ := mapPages_tenancy hlt (List.range stackUsablePages)
    (fun p hp => List.mem_range.mp hp) h₁
    (fun i hi => ⟨Finset.mem_union_right _ (mem_runAt.mpr ⟨i, hi, rfl⟩), hheld ▸ hfresh i hi⟩) hmap
  have hadds : extra = ∅ ↔ ¬ AddsTables a s.machine := by
    rw [hempty, missesTable_after h halloc hpa]
    have hnonempty : List.range stackUsablePages ≠ [] := by decide
    have hgranted : (s.machine.pmm.allocPages stackUsablePages).1 ≠ 0 := hpmm ▸ hpa
    simp only [AddsTables, hinit, hslot, hgranted, hnonempty, true_and, ne_eq, reduceCtorEq,
      not_false_eq_true]
  refine ⟨extra, hadds, ?_⟩
  dsimp only at hrun
  split at hrun
  · rename_i hok
    cases hrun
    rw [Bool.not_eq_true'] at hok
    rw [hok, if_neg (by decide)] at hend
    have hback : (s.held ∪ runAt pa stackUsablePages) \ runAt pa stackUsablePages = s.held :=
      union_run_sdiff s.held hfresh
    rw [hback] at hend
    exact Or.inl ⟨rfl, hend⟩
  · rename_i hok
    cases hrun
    rw [Bool.not_eq_true', Bool.not_eq_false] at hok
    rw [hok, if_pos rfl] at hend
    exact Or.inr ⟨_, _, rfl, hinit, ⟨slot, hlt, rfl, if_pos rfl, rfl⟩, hpa, rfl,
      hheld ▸ hfresh, hend⟩

/-- `create_thread` without a thread: all that can be lost are tables of the stack window. -/
theorem createThread_tenancy {sch sch' : Scheduler} {name : Option (List (BitVec 8))}
    (hheld : s.held = base) (hrun : sch.createThread name s.machine = some (none, sch', m)) :
    ∃ extra, (extra = ∅ ↔ ¬ (sch.freeTcb ≠ none ∧ AddsTables sch.stackAllocator s.machine)) ∧
      (s.withMachine m).Tenancy args p₀ base extra root := by
  unfold Scheduler.createThread at hrun
  split at hrun
  · rename_i htcb
    cases hrun
    exact ⟨∅, ⟨fun _ hboth => hboth.1 htcb, fun _ => rfl⟩, h⟩
  rename_i i htcb
  obtain ⟨⟨res, m₁⟩, halloc, hrun⟩ := Option.bind_eq_some_iff.mp hrun
  obtain ⟨extra, hempty, hcases⟩ := allocateStack_tenancy (a := sch.stackAllocator) h hheld halloc
  refine ⟨extra, ?_, ?_⟩
  · rw [hempty, htcb]
    simp
  rcases hcases with ⟨rfl, hend⟩ | ⟨info, a', rfl, hready⟩
  · cases hrun
    exact hend
  dsimp only at hrun
  split at hrun
  · obtain ⟨⟨ok, a'', m₂⟩, hfree, hrun⟩ := Option.bind_eq_some_iff.mp hrun
    cases hrun
    have hfree' : a'.freeStack info m₁ = some (ok, a'', m₂) := hfree
    exact hready.freed hheld hfree'
  · cases hrun

end

end Stack

end LlamaOS.Threading
