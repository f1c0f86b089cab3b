import LlamaOS.Userland.LoadedImage
import LlamaOS.Userland.Process
import LlamaOS.Threading.StackFrames

/-!
# A process that cannot be created

When `create_process` gives up after it has a new address space, it destroys the space,
which frees everything that is mapped in it. A frame taken for a page whose mapping then
fails is not among that, and neither are page tables added for the kernel stack of the
thread. Whether a failed call comes to that can be told from the image and the state
before.
-/

namespace LlamaOS.Userland
open Memory VirtualAddress VirtualMemoryManager RadixForest Threading Machine System

/-- The pages an image asks for, in the order of the loops. -/
def plannedPages (file : List (BitVec 8)) : List Nat := (plan file).map PlannedPage.va

variable {file : List (BitVec 8)}

theorem plannedPages_valid (h : Accepted file) :
    ∀ va ∈ plannedPages file, va % 4096 = 0 ∧ va < 2 ^ 47 := by
  intro va hva
  obtain ⟨pg, hpg, rfl⟩ := List.mem_map.mp hva
  exact ⟨(plan_valid h pg hpg).aligned, (plan_valid h pg hpg).below⟩

variable {m' m : Machine}

/-- The space `root` has just been created. -/
structure NewSpace (args : BootArgs) (s : System) (root : Nat) (m₀ : Machine) : Prop where
  inv : s.Inv
  pmm : Consistent args s.machine.pmm
  created : createUserAddressSpace s.machine = some (root, m₀)
  nonnull : root ≠ 0

section Space
variable {args : BootArgs} {s : System} {root : Nat} {m₀ : Machine} (hnew : NewSpace args s root m₀)
include hnew

theorem NewSpace.creates : s.Creates root m₀ := by
  rcases create_cases hnew.inv hnew.created with ⟨hzero, _⟩ | ⟨_, hc⟩
  · exact absurd hzero hnew.nonnull
  · exact hc

theorem NewSpace.tenancy : (s.withSpace root m₀).Tenancy args s.machine.pmm s.held ∅ root :=
  System.Tenancy.created hnew.inv hnew.pmm hnew.created hnew.nonnull

theorem NewSpace.not_forced : s.machine.pmm.forceAllocFailure = false := by
  by_contra hforce
  have halloc := hnew.creates.alloc
  rw [PhysicalMemoryManager.allocPage_of_exhausted (Or.inr (Bool.not_eq_false _ ▸ hforce))]
    at halloc
  exact hnew.nonnull (congrArg Prod.fst halloc).symm

section Pages
variable {file : List (BitVec 8)} {done : List PlannedPage} {m : Machine}
variable (hm : Placed file (s.withSpace root m₀) root done m)
include hm

theorem Placed.mem_positions (p : List (Fin 512)) :
    p ∈ spacePositions (done.map PlannedPage.va) ↔
      (p = [] ∨ Lower p) ∧ ∃ l, ((s.withSpace root m₀).withMachine m).Occupied root p l := by
  have hlive : root ∈ (s.withSpace root m₀).spaces := Finset.mem_insert_self root s.spaces
  rw [mem_spacePositions]
  constructor
  · rintro (rfl | ⟨va, hva, hpath⟩)
    · exact ⟨Or.inl rfl, root, occupied_root (Or.inr hlive)⟩
    · obtain ⟨pg, hpg, rfl⟩ := List.mem_map.mp hva
      obtain ⟨a, _, hocc, _⟩ := hm.pages pg hpg
      obtain ⟨l, hl⟩ := follow_of_le hocc.follows hpath
      refine ⟨nil_or_lower_of_le (hm.valid pg hpg).below hpath, l, ?_, hl⟩
      obtain ⟨u, hu⟩ := hpath
      exact prefixClosed _ (hu.symm ▸ hocc.tracked)
  · rintro ⟨hlow, l, hocc⟩
    rcases hm.positions hocc with hold | ⟨pg, hpg, hpath⟩
    · exact Or.inl (hnew.creates.own hnew.inv hlow hold).1
    · exact Or.inr ⟨pg.va, List.mem_map_of_mem hpg, hpath⟩

theorem Placed.tenancy :
    ((s.withSpace root m₀).withMachine m).Tenancy args s.machine.pmm s.held ∅ root :=
  hnew.tenancy.uses hm.uses

theorem Placed.charge :
    m.pmm.freeFrames + framesFor (done.map PlannedPage.va) = s.machine.pmm.freeFrames := by
  have hten := Placed.tenancy hnew hm
  have hcharge := hten.charge (Placed.mem_positions hnew hm)
  have hheld : ((s.withSpace root m₀).withMachine m).held \ s.held = ∅ := Finset.sdiff_self s.held
  rw [hheld, Finset.union_empty, Finset.card_empty, Nat.add_zero] at hcharge
  exact hcharge

theorem Placed.drawn : s.machine.pmm.Drew m.pmm := by
  have hfirst :=
    (PhysicalMemoryManager.Drew.refl s.machine.pmm).alloc hnew.creates.alloc hnew.nonnull
  exact hfirst.trans hm.drew

theorem Placed.pmm_eq : m.pmm = s.machine.pmm.takePages (framesFor (done.map PlannedPage.va)) := by
  obtain ⟨n, hn, hcount⟩ := Placed.drawn hnew hm
  have hcharge := Placed.charge hnew hm
  rw [hn, show n = framesFor (done.map PlannedPage.va) by omega]

/-- The allocator gives nothing any more exactly when the demand so far has reached the supply. -/
theorem Placed.exhausted_iff :
    m.pmm.Exhausted ↔ framesFor (done.map PlannedPage.va) = s.machine.pmm.freeFrames := by
  have hcharge := Placed.charge hnew hm
  obtain ⟨_, hb, _⟩ := (Placed.tenancy hnew hm).account
  have hforce : m.pmm.forceAllocFailure = false := hb.force.trans hnew.not_forced
  rw [PhysicalMemoryManager.Exhausted, hforce]
  simp only [Bool.false_eq_true, or_false]
  omega

theorem Placed.out_of_frames (halloc : m.allocPage = some (0, m')) :
    m' = m ∧ framesFor (done.map PlannedPage.va) = s.machine.pmm.freeFrames := by
  have hten := Placed.tenancy hnew hm
  obtain ⟨_, hb, _⟩ := hten.account
  refine ⟨allocPage_failed hb.now.zero halloc, ?_⟩
  apply (Placed.exhausted_iff hnew hm).mp
  exact (allocPage_eq_zero_iff hb.now hten.inv.size).mp (congrArg Prod.fst (allocPage_pmm halloc))

theorem Placed.refused {pg : PlannedPage} (hpg : pg.Valid file) {pa : Nat} {m₁ : Machine}
    {status : VmmStatus} (halloc : m.allocPage = some (pa, m₁)) (hpa : pa ≠ 0)
    (hmap : mapPageInTable m₁ root pg.va pa pg.flags = some (status, m'))
    (hne : status ≠ .success) :
    framesFor (done.map PlannedPage.va) < s.machine.pmm.freeFrames ∧
      (pg.va ∈ done.map PlannedPage.va ∨
        s.machine.pmm.freeFrames < framesFor (done.map PlannedPage.va ++ [pg.va])) ∧
      pa ∉ s.held ∧ System.Tenancy args s.machine.pmm s.held ∅ root
        { s.withSpace root m₀ with machine := m', held := insert pa s.held } := by
  have hten := Placed.tenancy hnew hm
  obtain ⟨hown, _, hnot⟩ := hten.inv.alloc_fresh (allocPage_allocates halloc) hpa
  have hnot : pa ∉ s.held := hnot
  have htaken := hten.take halloc hpa
  obtain ⟨hend, hcases⟩ := htaken.refused hpg.below hpg.aligned hown.aligned hmap hne
  have hpages : ∀ va ∈ done.map PlannedPage.va, va % 4096 = 0 ∧ va < 2 ^ 47 := by
    intro va hva
    obtain ⟨pg', hpg', rfl⟩ := List.mem_map.mp hva
    exact ⟨(hm.valid pg' hpg').aligned, (hm.valid pg' hpg').below⟩
  -- the positions before the mapping are those of the pages that are done
  have hback : ∀ {r p l},
      System.Occupied { s.withSpace root m₀ with machine := m₁, held := insert pa s.held } r p l →
      ((s.withSpace root m₀).withMachine m).Occupied r p l :=
    (hten.inv.take_follow (allocPage_allocates halloc).takes).occupied.mp
  refine ⟨?_, ?_, hnot, hend⟩
  · have hcharge := Placed.charge hnew hm
    have hroom : ¬ m.pmm.Exhausted := by
      intro hnone
      have hzero := allocPage_pmm halloc
      rw [PhysicalMemoryManager.allocPage_of_exhausted hnone] at hzero
      exact hpa (congrArg Prod.fst hzero).symm
    rw [Placed.exhausted_iff hnew hm] at hroom
    omega
  by_cases hdup : pg.va ∈ done.map PlannedPage.va
  · exact Or.inl hdup
  have hunmapped :
      ∀ l, ¬ ((s.withSpace root m₀).withMachine m).Occupied root (pagePath pg.va) l := by
    intro l hocc
    apply hdup
    apply mem_of_pagePath hpages ⟨hpg.aligned, hpg.below⟩
    exact (Placed.mem_positions hnew hm _).mpr ⟨Or.inr (lower_pagePath hpg.below), l, hocc⟩
  rcases hcases with ⟨l, hocc⟩ | ⟨p, i, hpath, htrace, hnone, hmissing⟩
  · exact absurd (hback hocc) (hunmapped l)
  right
  have hbefore : p ++ [i] <+: pagePath pg.va := hpath.trans (List.prefix_append _ _)
  have hplanned : ∀ {q}, q <+: pagePath pg.va →
      q ∈ spacePositions (done.map PlannedPage.va ++ [pg.va]) :=
    fun hq =>
      mem_spacePositions.mpr (Or.inr ⟨pg.va, List.mem_append_right _ List.mem_cons_self, hq⟩)
  -- the table that was to be added and the page itself are still missing
  have hshort : (p ++ [i]).length ≤ 3 := hpath.length_le
  have hle :=
    hend.charge_le (done.map PlannedPage.va ++ [pg.va]) ?_ {p ++ [i], pagePath pg.va} ?_ ?_
  · have htwo : ({p ++ [i], pagePath pg.va} : Finset (List (Fin 512))).card = 2 := by
      apply Finset.card_pair
      intro heq
      rw [heq, pagePath_length] at hshort
      omega
    have hone : ((insert pa s.held) \ s.held ∪ ∅).card = 1 := by
      rw [Finset.union_empty, Finset.insert_sdiff_of_notMem _ hnot, Finset.sdiff_self]
      rfl
    obtain ⟨_, hb, _⟩ := hend.account
    have hforce : m'.pmm.forceAllocFailure = false := hb.force.trans hnew.not_forced
    have hzero : m'.pmm.freeFrames = 0 := by
      rcases hnone with hzero | hforced
      · exact hzero
      · exact absurd (hforce.symm.trans hforced) (by decide)
    change s.machine.pmm.freeFrames + _ ≤ m'.pmm.freeFrames + _ +
      ((insert pa s.held) \ s.held ∪ ∅).card at hle
    omega
  · intro q l hlow hocc
    rcases htrace.positions hocc with hold | ⟨hq, _⟩
    · rcases mem_spacePositions.mp ((Placed.mem_positions hnew hm q).mpr
        ⟨hlow, l, hback hold⟩) with hnil | ⟨va, hva, hq⟩
      · exact mem_spacePositions.mpr (Or.inl hnil)
      · exact mem_spacePositions.mpr (Or.inr ⟨va, List.mem_append_left _ hva, hq⟩)
    · exact hplanned (hq.trans ((List.prefix_append p [i]).trans hbefore))
  · intro q hq
    rcases Finset.mem_insert.mp hq with rfl | hq
    · exact hplanned hbefore
    · exact hplanned (Finset.mem_singleton.mp hq ▸ List.prefix_refl _)
  · intro q hq l hocc
    rcases Finset.mem_insert.mp hq with rfl | hq
    · exact hmissing l hocc
    rw [Finset.mem_singleton.mp hq] at hocc
    rcases htrace.positions hocc with hold | ⟨hpage, _⟩
    · exact hunmapped l (hback hold)
    have hlong := hpage.length_le
    rw [pagePath_length] at hlong
    rw [List.length_append, List.length_singleton] at hshort
    omega

end Pages

/-- How `load` ends in a new space, with what can be said about it beforehand. -/
inductive LoadOutcome (args : BootArgs) (s : System) (root : Nat) (m₀ : Machine)
    (file : List (BitVec 8)) :
    ElfLoadResult → Machine → Prop where
  | rejected {res : ElfLoadResult} (h : ¬ Accepted file) (hne : res.status ≠ .success) :
      LoadOutcome args s root m₀ file res m₀
  | dry {res : ElfLoadResult} {m : Machine} (h : Accepted file)
      (hdry : RunsDry (plannedPages file) s.machine.pmm.freeFrames) (hne : res.status ≠ .success)
      (hten : ((s.withSpace root m₀).withMachine m).Tenancy args s.machine.pmm s.held ∅ root) :
      LoadOutcome args s root m₀ file res m
  | stuck {res : ElfLoadResult} {m : Machine} {pa : Nat} (h : Accepted file)
      (hafford : ¬ Affordable (plannedPages file) s.machine.pmm.freeFrames)
      (hdry : ¬ RunsDry (plannedPages file) s.machine.pmm.freeFrames) (hne : res.status ≠ .success)
      (hpa : pa ∉ s.held)
      (hten : System.Tenancy args s.machine.pmm s.held ∅ root
        { s.withSpace root m₀ with machine := m, held := insert pa s.held }) :
      LoadOutcome args s root m₀ file res m
  | loaded {res : ElfLoadResult} {m : Machine} (h : Accepted file) (hok : res.status = .success)
      (hafford : Affordable (plannedPages file) s.machine.pmm.freeFrames)
      (hm : Placed file (s.withSpace root m₀) root (plan file) m) :
          LoadOutcome args s root m₀ file res m

theorem load_outcome {res : ElfLoadResult} (h : load (some file) root m₀ = .ok (res, m)) :
    LoadOutcome args s root m₀ file res m := by
  have hlive : root ∈ (s.withSpace root m₀).spaces := Finset.mem_insert_self root s.spaces
  have hcases := load_cases (hnew.creates.inv hnew.inv) hlive file
  have hrun : load (some file) root (s.withSpace root m₀).machine = .ok (res, m) := h
  rw [hrun] at hcases
  cases hcases with
  | rejected hstatus hne =>
    refine .rejected (fun haccepted => ?_) hne
    obtain rfl := Except.ok.inj (hstatus.symm.trans haccepted)
    exact hne rfl
  | @stopped done pg m₁ m' status haccepted hpre hm hpage =>
    obtain ⟨rest, hplan⟩ := hpre
    have hpg : pg ∈ plan file := by
      rw [← hplan]
      simp
    have hpages :
        plannedPages file = done.map PlannedPage.va ++ pg.va :: rest.map PlannedPage.va := by
      rw [plannedPages, ← hplan]
      simp
    cases hpage with
    | exhausted halloc =>
      obtain ⟨rfl, hdry⟩ := Placed.out_of_frames hnew hm halloc
      refine .dry haccepted ?_ (by decide) (Placed.tenancy hnew hm)
      rw [hpages]
      exact .of_append hm.nodup hdry
    | refused halloc hpa hne hmap =>
      obtain ⟨hroom, hstuck, hnot, hten⟩ :=
        Placed.refused hnew hm (plan_valid haccepted pg hpg) halloc hpa hmap hne
      obtain ⟨hafford, hdry⟩ := not_clean_of_stuck (rest.map PlannedPage.va) hroom hstuck
      rw [← hpages] at hafford hdry
      exact .stuck haccepted hafford hdry (by decide) hnot hten
  | loaded haccepted hm =>
    have hcharge := Placed.charge hnew hm
    refine .loaded haccepted rfl ⟨hm.nodup, ?_⟩ hm
    rw [plannedPages]
    omega

/-- Whether the stack of the thread will need tables can be seen before the image is loaded. -/
theorem addsTables_iff (hm : Placed file (s.withSpace root m₀) root (plan file) m)
    (a : StackAllocator) :
    AddsTables a m ↔ AddsTables a
      { s.machine with pmm := s.machine.pmm.takePages (framesFor (plannedPages file)) } := by
  have hc := hnew.creates
  have hs := hnew.inv
  have hvmm : m.vmm = s.machine.vmm := hm.inv.vmm.trans hs.vmm.symm
  have hroot' : s.machine.vmm.rootPml4Paddr = s.kernelRoot := by rw [hs.vmm]
  have htables : LacksTable m.ram s.kernelRoot (ptPath threadStackBaseVirt) ↔
      LacksTable s.machine.ram s.kernelRoot (ptPath threadStackBaseVirt) := by
    apply lacksTable_congr (Nat.le_of_eq (ptPath_length _))
    intro p l hp hl
    have hocc : s.Occupied s.kernelRoot p l := ⟨tracked_of_root (Or.inl rfl) hp, hl⟩
    have hocc' : (s.withSpace root m₀).Occupied s.kernelRoot p l :=
      ⟨tracked_of_root (Or.inl rfl) hp, (hc.follow_eq hs _ p hocc.tracked).trans hl⟩
    exact (hm.kernel hocc').trans (hc.ram_eq hs hocc)
  unfold AddsTables
  rw [Placed.pmm_eq hnew hm, hvmm, hroot', htables]
  rfl

end Space

/-- The thread cannot be created after page tables for its stack were added. -/
def LosesTables (k : Kernel) (pages : List Nat) : Prop :=
  k.scheduler.freeTcb ≠ none ∧ AddsTables k.scheduler.stackAllocator
    { k.machine with pmm := k.machine.pmm.takePages (framesFor pages) }

variable {args : BootArgs}

theorem taken_eq_iff {borrowed : Finset Nat} (h : Borrowed args m.pmm m'.pmm borrowed) :
    (∀ a, m'.taken a = m.taken a) ↔ borrowed = ∅ := by
  rw [← h.bits_eq]
  constructor
  · intro hsame f
    have hbit := hsame (f * 4096)
    rw [taken, taken, Nat.mul_div_cancel f (by decide)] at hbit
    exact hbit
  · intro hsame a
    exact hsame (a / 4096)

variable {s : System} {base : Finset Nat} {k k' : Kernel} {slot : Nat} {proc : Process}

theorem discard_restores {extra : Finset Nat} {res : Option Nat}
    (hrun : k.discard slot proc = .ok (res, k')) (hk : k.machine = s.machine)
    (h : s.Tenancy args m.pmm base extra proc.cr3) :
    (∀ a, k'.machine.taken a = m.taken a) ↔ (s.held \ base) ∪ extra = ∅ := by
  obtain ⟨m', hdestroy, hb⟩ := h.destroyed
  unfold Kernel.discard at hrun
  rw [hk, hdestroy] at hrun
  obtain ⟨_, rfl⟩ := Prod.mk.inj (Except.ok.inj hrun)
  exact taken_eq_iff hb

theorem startProcess_restores (hk : k.machine = s.machine)
    (h : s.Tenancy args m.pmm base ∅ proc.cr3) (hheld : s.held = base)
    (hrun : k.startProcess slot proc = .ok (none, k')) :
    (∀ a, k'.machine.taken a = m.taken a) ↔
      ¬ (k.scheduler.freeTcb ≠ none ∧ AddsTables k.scheduler.stackAllocator s.machine) := by
  unfold Kernel.startProcess at hrun
  rw [hk] at hrun
  cases hthread : k.scheduler.createThread (some proc.name) s.machine with
  | none =>
    rw [hthread] at hrun
    cases hrun
  | some result =>
    obtain ⟨thread, scheduler, machine⟩ := result
    rw [hthread] at hrun
    cases thread with
    | some t => cases (Prod.mk.inj (Except.ok.inj hrun)).1
    | none =>
      obtain ⟨extra, hempty, hend⟩ := createThread_tenancy h hheld hthread
      rw [← hempty]
      have hdiscard : Kernel.discard { k with machine := machine, scheduler := scheduler } slot
          { proc with thread := none } = .ok (none, k') := hrun
      have hback := discard_restores (s := s.withMachine machine) hdiscard rfl hend
      have hnothing : (s.withMachine machine).held \ base = ∅ := by
        rw [← hheld]
        exact Finset.sdiff_self s.held
      rw [hnothing, Finset.empty_union] at hback
      exact hback

/-- A failed call restores the free frames exactly when the image is rejected, when the frames are
used up just as a new page begins, or when all pages can be mapped and no table was added for the
stack of the thread. -/
theorem failed_creation_restores_iff {args : BootArgs} {s : System} (hlive : s.Live args)
    {k k' : Kernel} (hk : k.machine = s.machine) {slot : Nat}
    (hslot : k.manager.ready.freeSlot = some slot) {root : Nat} {m₀ : Machine}
    (hcreate : createUserAddressSpace k.machine = some (root, m₀)) (hroot : root ≠ 0)
    {name : Option (List (BitVec 8))} {file : List (BitVec 8)}
    (hfail : k.createProcess name (some file) = .ok (none, k')) :
    (∀ a, k'.machine.taken a = k.machine.taken a) ↔
      ¬ Accepted file ∨ RunsDry (plannedPages file) k.machine.pmm.freeFrames ∨
        (Affordable (plannedPages file) k.machine.pmm.freeFrames ∧
          ¬ LosesTables k (plannedPages file)) := by
  obtain ⟨machine, scheduler, manager⟩ := k
  obtain rfl : machine = s.machine := hk
  cases file with
  | nil =>
    obtain ⟨_, rfl⟩ := Prod.mk.inj (Except.ok.inj hfail)
    refine ⟨fun _ => Or.inl fun haccepted => ?_, fun _ _ => rfl⟩
    cases Except.ok.inj haccepted
  | cons b file =>
    unfold Kernel.createProcess at hfail
    dsimp only at hfail hslot hcreate
    rw [hslot] at hfail
    rw [hcreate] at hfail
    change (if root = 0 then _ else _) = _ at hfail
    rw [if_neg hroot] at hfail
    cases hload : load (some (b :: file)) root m₀ with
    | error e =>
      rw [hload] at hfail
      cases hfail
    | ok result =>
      obtain ⟨res, m⟩ := result
      rw [hload] at hfail
      have hnew : NewSpace args s root m₀ :=
        ⟨inv_reachable hlive.reachable, hlive.pmm.consistent, hcreate, hroot⟩
      have houtcome := load_outcome hnew hload
      change (if res.status ≠ .success then _ else _) = _ at hfail
      cases houtcome with
      | rejected haccepted hne =>
        rw [if_pos hne] at hfail
        rw [discard_restores hfail rfl hnew.tenancy]
        refine ⟨fun _ => Or.inl haccepted, fun _ => ?_⟩
        rw [Finset.union_empty]
        exact Finset.sdiff_self s.held
      | dry haccepted hdry hne hten =>
        rw [if_pos hne] at hfail
        rw [discard_restores hfail rfl hten]
        refine ⟨fun _ => Or.inr (Or.inl hdry), fun _ => ?_⟩
        rw [Finset.union_empty]
        exact Finset.sdiff_self s.held
      | stuck haccepted hafford hdry hne hpa hten =>
        rename_i pa
        rw [if_pos hne] at hfail
        rw [discard_restores hfail rfl hten]
        constructor
        · intro hempty
          have hmem : pa ∈ (insert pa s.held \ s.held) ∪ ∅ := by simp [hpa]
          exact absurd (hempty ▸ hmem) (Finset.notMem_empty pa)
        · rintro (hno | hyes | ⟨hyes, _⟩)
          · exact absurd haccepted hno
          · exact absurd hyes hdry
          · exact absurd hyes hafford
      | loaded haccepted hok hafford hm =>
        rw [if_neg (by rw [hok]; decide)] at hfail
        have hten := Placed.tenancy hnew hm
        rw [startProcess_restores (s := (s.withSpace root m₀).withMachine m) rfl hten rfl hfail]
        have hno : ¬ RunsDry (plannedPages (b :: file)) s.machine.pmm.freeFrames :=
          hafford.not_runsDry (plannedPages_valid haccepted)
        have hadds := addsTables_iff hnew hm scheduler.stackAllocator
        constructor
        · intro hnone
          exact Or.inr (Or.inr ⟨hafford, fun hlose => hnone ⟨hlose.1, hadds.mpr hlose.2⟩⟩)
        · rintro (hnot | hyes | ⟨_, hkeep⟩) hlose
          · exact hnot haccepted
          · exact hno hyes
          · exact hkeep ⟨hlose.1, hadds.mp hlose.2⟩

/-! The sample machine with no process and no thread yet, with and without its stack allocator. -/

def sampleCaller (allocator : StackAllocator) : Kernel :=
  { machine := sampleKernel, scheduler := { stackAllocator := allocator }, manager := .init }

theorem sampleFailure {allocator : StackAllocator} {a : Nat} {b : Bool}
    (h : (match (sampleCaller allocator).createProcess none (some file) with
      | .ok (none, k') => some (k'.machine.taken a)
      | _ => none) = some b) :
    ∃ k', (sampleCaller allocator).createProcess none (some file) = .ok (none, k') ∧
      k'.machine.taken a = b := by
  cases hrun : (sampleCaller allocator).createProcess none (some file) with
  | error f =>
    rw [hrun] at h
    cases h
  | ok result =>
    obtain ⟨proc, k'⟩ := result
    rw [hrun] at h
    cases proc with
    | none => exact ⟨k', rfl, Option.some.inj h⟩
    | some slot => cases h

/-- The image is loaded, but there is no stack for its thread. -/
theorem sampleCaller_restored :
    ∃ k', (sampleCaller {}).createProcess none (some (sampleFile 5 0x400000)) = .ok (none, k') ∧
      ∀ a, k'.machine.taken a = sampleKernel.taken a := by
  obtain ⟨k', hrun, _⟩ : ∃ k', (sampleCaller {}).createProcess none (some (sampleFile 5 0x400000)) =
      .ok (none, k') ∧ k'.machine.taken 0 = true := sampleFailure (by decide +kernel)
  refine ⟨k', hrun, (failed_creation_restores_iff sampleKernel_live rfl rfl sampleSpace_created
    (by decide) hrun).mpr (Or.inr (Or.inr ⟨⟨by decide +kernel, by decide +kernel⟩, ?_⟩))⟩
  rintro ⟨_, hinit, _⟩
  cases hinit

def sharedPageFile : List (BitVec 8) :=
  elfBytes 0x400000 [⟨ptLoad, 5, 176, 0x400000, 1, 2⟩, ⟨ptLoad, 6, 176, 0x400800, 1, 2⟩] [0xF4]

/-- The second segment finds its page mapped, and the frame taken for it stays taken. -/
theorem shared_page_frame_lost :
    (System.boot sampleKernel).Live sampleBoot ∧
      createUserAddressSpace sampleKernel = some (0x108000, System.sampleSpace) ∧
      sampleKernel.taken 0x10D000 = false ∧
      ∃ k', (sampleCaller .init).createProcess none (some sharedPageFile) = .ok (none, k') ∧
        k'.machine.taken 0x10D000 = true :=
  ⟨System.sampleKernel_live,
    System.sampleSpace_created, by decide +kernel, sampleFailure (by decide +kernel)⟩

end LlamaOS.Userland
