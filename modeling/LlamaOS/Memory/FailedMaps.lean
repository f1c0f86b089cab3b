import LlamaOS.Memory.ReachableStates
import LlamaOS.Memory.Contiguous

/-!
# Mappings that fail

`map_page_in_table` undoes nothing: a table it has added or an entry it has opened to
the user stays when a later level fails. A failed call leaves the tables and the free
frames alone exactly when it got through without such a change.
-/

namespace LlamaOS.Memory
open RadixForest VirtualAddress PageTableEntry VirtualMemoryManager PageFlags Machine

theorem mapPageInTable_null (m : Machine) (vaddr paddr : Nat) (flags : PageFlags) :
    mapPageInTable m 0 vaddr paddr flags = mapPageInTable m m.vmm.rootPml4Paddr vaddr
      paddr flags := by
  have hnull : PhysicalAddress.isNull 0 = true := rfl
  simp only [mapPageInTable, hnull, if_true, ite_self]

theorem isUser_addUser (e : PageTableEntry) : (addUser e).isUser = true := by
  rw [isUser, addUser, bit_set _ _ (by decide), BitVec.getLsbD_or, Bool.or_eq_true]
  right
  decide

theorem isPresent_addUser {e : PageTableEntry} (hp : e.isPresent = true) :
    (addUser e).isPresent = true := by
  have hnext := (System.next_addUser hp 0).trans (next_of_present (by decide) hp)
  exact (isPresent_of_next hnext).1

namespace System
variable {s : System}

/-- A reachable system whose allocator was booted with `args`. -/
structure Live (args : BootArgs) (s : System) : Prop where
  reachable : Reachable s
  pmm : Running args s.machine.pmm

/-- The entries of all tables and the set of free frames are as in `s`. -/
def Unchanged (s : System) (m : Machine) : Prop :=
  (∀ r p t, s.Occupied r p t → p.length ≤ 3 → m.ram t = s.ram t) ∧ ∀ a,
    m.taken a = s.machine.taken a

/-- The root that a call of `map_page_in_table` works on. -/
def target (s : System) (pml4Pa : Nat) : Nat := if pml4Pa = 0 then s.kernelRoot else pml4Pa

/-- Every table pointer on the way down is there and open enough, or is missing while there is no
frame to be had. -/
def Settled (s : System) (root vaddr : Nat) (flags : PageFlags) : Prop :=
  ∀ p i t, p ++ [i] <+: ptPath vaddr → follow next s.ram root p = some t →
    (p.length = 2 → (s.ram t i).isHuge = false) →
    if (s.ram t i).isPresent then needsUser flags (s.ram t i) = false
    else s.machine.pmm.Exhausted

/-- A trace that no later level removes: a frame that was free, or an opened entry. -/
def Differs (s : System) (m : Machine) : Prop :=
  (∃ a, s.machine.taken a = false ∧ m.taken a = true) ∨
    ∃ r p t i, s.Occupied r p t ∧ p.length ≤ 2 ∧ (s.ram t i).isUser = false ∧
      (m.ram t i).isPresent = true ∧ (m.ram t i).isUser = true

variable {m : Machine}

theorem Differs.not_unchanged (h : s.Differs m) : ¬ s.Unchanged m := by
  intro hsame
  rcases h with ⟨a, hold, hnew⟩ | ⟨r, p, t, i, hocc, hlen, hold, _, hnew⟩
  · rw [hsame.2 a, hold] at hnew
    cases hnew
  · rw [hsame.1 r p t hocc (by omega), hold] at hnew
    cases hnew

variable {t : Nat} {i : Fin 512}

theorem Differs.raise (h : s.Differs m) (hp : (m.ram t i).isPresent = true) :
    s.Differs (m.write t i (addUser (m.ram t i))) := by
  rcases h with ⟨a, hold, hnew⟩ | ⟨r, p, t', j, hocc, hlen, hold, hpres, hnew⟩
  · exact Or.inl ⟨a, hold, hnew⟩
  refine Or.inr ⟨r, p, t', j, hocc, hlen, hold, ?_⟩
  by_cases hat : t' = t ∧ j = i
  · obtain ⟨rfl, rfl⟩ := hat
    have hentry : (m.write t' j (addUser (m.ram t' j))).ram t' j = addUser (m.ram t' j) :=
      write_self t' j _
    rw [hentry]
    exact ⟨isPresent_addUser hp, isUser_addUser _⟩
  · have hentry : (m.write t i (addUser (m.ram t i))).ram t' j = m.ram t' j := write_of_ne _ hat
    rw [hentry]
    exact ⟨hpres, hnew⟩

theorem Differs.alloc {m₁ : Machine} {pa : Nat} (h : s.Differs m) (hg : Grows s m)
    (hA : m.Allocates pa m₁) : s.Differs m₁ := by
  rcases h with ⟨a, hold, hnew⟩ | ⟨r, p, t, i, hocc, hlen, hold, hnew⟩
  · exact Or.inl ⟨a, hold, hA.keeps a hnew⟩
  refine Or.inr ⟨r, p, t, i, hocc, hlen, hold, ?_⟩
  have hram : m₁.ram t = m.ram t := hg.inv.alloc_ram hA (hg.occupied hocc)
  rw [hram]
  exact hnew

theorem Differs.link (h : s.Differs m) (e : PageTableEntry) (hp : (m.ram t i).isPresent = false) :
    s.Differs (m.write t i e) := by
  rcases h with ⟨a, hold, hnew⟩ | ⟨r, p, t', j, hocc, hlen, hold, hpres, hnew⟩
  · exact Or.inl ⟨a, hold, hnew⟩
  refine Or.inr ⟨r, p, t', j, hocc, hlen, hold, ?_⟩
  have hat : ¬ (t' = t ∧ j = i) := by
    intro hat
    rw [hat.1, hat.2, hp] at hpres
    cases hpres
  have hentry : (m.write t i e).ram t' j = m.ram t' j := write_of_ne e hat
  rw [hentry]
  exact ⟨hpres, hnew⟩

/-- All pointers along `p` were there and open enough. -/
def Quiet (s : System) (root : Nat) (flags : PageFlags) (p : List (Fin 512)) : Prop :=
  ∀ q i t, q ++ [i] <+: p → follow next s.ram root q = some t →
    (s.ram t i).isPresent = true ∧ needsUser flags (s.ram t i) = false

theorem prefix_snoc_cases {α : Type} {q p : List α} {j i : α} (h : q ++ [j] <+: p ++ [i]) :
    q ++ [j] <+: p ∨ (q = p ∧ j = i) := by
  rcases List.prefix_concat_iff.mp h with heq | hp
  · obtain ⟨h₁, h₂⟩ := List.append_inj' heq rfl
    exact Or.inr ⟨h₁, List.head_eq_of_cons_eq h₂⟩
  · exact Or.inl hp

variable {root : Nat} {flags : PageFlags} {p : List (Fin 512)}

theorem Quiet.snoc (h : s.Quiet root flags p) (ht : follow next s.ram root p = some t)
    (hp : (s.ram t i).isPresent = true) (hu : needsUser flags (s.ram t i) = false) :
    s.Quiet root flags (p ++ [i]) := by
  intro q j t' hq ht'
  rcases prefix_snoc_cases hq with hq | ⟨rfl, rfl⟩
  · exact h q j t' hq ht'
  · cases ht.symm.trans ht'
    exact ⟨hp, hu⟩

/-- Either nothing happened so far, or the call is not settled and a trace stays. -/
def Progress (s : System) (root vaddr : Nat) (flags : PageFlags) (p : List (Fin 512))
    (m : Machine) : Prop :=
  (m = s.machine ∧ s.Quiet root flags p) ∨ (¬ s.Settled root vaddr flags ∧ s.Differs m)

theorem progress_keeps (hroot : s.IsRoot root) (vaddr : Nat) (flags : PageFlags) :
    Keeps s root vaddr flags (s.Progress root vaddr flags) where
  found := by
    intro p i m t hb hm hp hu
    rcases hm with ⟨rfl, hq⟩ | hdone
    · exact Or.inl ⟨rfl, hq.snoc hb.tableAt hp hu⟩
    · exact Or.inr hdone
  raised := by
    intro p i m t hb hm hp hu
    right
    rcases hm with ⟨rfl, hq⟩ | ⟨hno, hd⟩
    · constructor
      · intro hset
        have h := hset p i t hb.onPath hb.tableAt hb.small
        rw [if_pos hp, hu] at h
        cases h
      · simp only [needsUser, Bool.and_eq_true, Bool.not_eq_true'] at hu
        refine Or.inr ⟨root, p, t, i, hb.occupied hroot, hb.length_le, hu.2, ?_⟩
        have hentry : (s.machine.write t i (addUser (s.machine.ram t i))).ram t i =
          addUser (s.machine.ram t i) := write_self t i _
        rw [hentry]
        exact ⟨isPresent_addUser hp, isUser_addUser _⟩
    · exact ⟨hno, hd.raise hp⟩
  added := by
    intro p i m t pa m₁ hb hm hp halloc hpa _
    have hA := allocPage_allocates halloc
    right
    rcases hm with ⟨rfl, hq⟩ | ⟨hno, hd⟩
    · constructor
      · intro hset
        have h := hset p i t hb.onPath hb.tableAt hb.small
        have hno : ¬ (s.ram t i).isPresent = true := by
          rw [Bool.not_eq_true]
          exact hp
        rw [if_neg hno] at h
        have hnone := PhysicalMemoryManager.allocPage_of_exhausted h
        rw [allocPage_pmm halloc] at hnone
        exact hpa (congrArg Prod.fst hnone)
      · exact Or.inl ⟨pa, (hA.fresh hpa).clear, hA.taken hpa⟩
    · have habsent : (m₁.ram t i).isPresent = false := by
        rw [hb.grows.inv.alloc_ram hA (hb.occupied hroot)]
        exact hp
      exact ⟨hno, (hd.alloc hb.grows hA).link _ habsent⟩

theorem Quiet.settled_of_absent {vaddr : Nat} (h : s.Quiet root flags p)
    (hpath : p ++ [i] <+: ptPath vaddr) (ht : follow next s.ram root p = some t)
    (hp : (s.ram t i).isPresent = false) (hnone : s.machine.pmm.Exhausted) :
    s.Settled root vaddr flags := by
  have hstop : follow next s.ram root (p ++ [i]) = none := by
    rw [follow_snoc ht i, next_of_not_present hp]
  intro q j t' hq ht' _
  rcases List.prefix_or_prefix_of_prefix hq hpath with hle | hle
  · rcases prefix_snoc_cases hle with hle | ⟨rfl, rfl⟩
    · obtain ⟨hpres, hu⟩ := h q j t' hle ht'
      rw [if_pos hpres]
      exact hu
    · cases ht.symm.trans ht'
      rw [if_neg (by rw [hp]; decide)]
      exact hnone
  · rcases prefix_snoc_cases hle with hle | ⟨rfl, rfl⟩
    · obtain ⟨u, rfl⟩ := hle
      rw [follow_append, hstop] at ht'
      cases ht'
    · cases ht.symm.trans ht'
      rw [if_neg (by rw [hp]; decide)]
      exact hnone

/-- A failed call leaves all tables and the free frames alone exactly when its arguments are
rejected or every table pointer it met was settled. -/
theorem failed_map_unchanged_iff {args : BootArgs} (hlive : s.Live args) {pml4Pa vaddr paddr : Nat}
    {flags : PageFlags} {status : VmmStatus} {m : Machine} (hroot : pml4Pa = 0 ∨ s.IsRoot pml4Pa)
    (hstatus : status ≠ .success)
    (h : mapPageInTable s.machine pml4Pa vaddr paddr flags = some (status, m)) :
    s.Unchanged m ↔ (ValidArgs vaddr paddr → s.Settled (s.target pml4Pa) vaddr flags) := by
  have hs := inv_reachable hlive.reachable
  have hzero := hlive.pmm.consistent.zero
  have htarget : s.IsRoot (s.target pml4Pa) := by
    unfold target
    split
    · exact Or.inl rfl
    · exact hroot.resolve_left (by assumption)
  have hcall : mapPageInTable s.machine (s.target pml4Pa) vaddr paddr flags = some (status, m) := by
    unfold target
    split
    · rename_i hnull
      rw [hnull, mapPageInTable_null, hs.vmm] at h
      exact h
    · exact h
  have hsame : s.Unchanged s.machine := ⟨fun _ _ _ _ _ => rfl, fun _ => rfl⟩
  have hstart : s.Progress (s.target pml4Pa) vaddr flags [] s.machine := by
    refine Or.inl ⟨rfl, ?_⟩
    intro q i t hq
    simp at hq
  have hdone : ∀ {m}, ¬ s.Settled (s.target pml4Pa) vaddr flags → s.Differs m →
      ValidArgs vaddr paddr →
      (s.Unchanged m ↔ (ValidArgs vaddr paddr → s.Settled (s.target pml4Pa) vaddr flags)) := by
    intro m hno hd hvalid
    exact ⟨fun hun => absurd hun hd.not_unchanged, fun hset => absurd (hset hvalid) hno⟩
  rcases map_exit hs htarget (progress_keeps htarget vaddr flags) hstart hcall with
    ⟨hbad, _, rfl⟩ | ⟨hvalid, hexit⟩
  · exact ⟨fun _ hvalid => absurd hvalid hbad, fun _ => hsame⟩
  cases hexit with
  | exhausted hb hm hp halloc =>
    rcases hm with ⟨rfl, hq⟩ | ⟨hno, hd⟩
    · obtain rfl := allocPage_failed hzero halloc
      have hnone : s.machine.pmm.Exhausted := by
        apply (allocPage_eq_zero_iff hlive.pmm.consistent hs.size).mp
        rw [allocPage_pmm halloc]
      exact ⟨fun _ _ => hq.settled_of_absent hb.onPath hb.tableAt hp hnone, fun _ => hsame⟩
    · exact hdone hno (hd.alloc hb.grows (allocPage_allocates halloc)) hvalid
  | huge hd hm hh =>
    rcases hm with ⟨rfl, hq⟩ | ⟨hno, hd⟩
    · refine ⟨fun _ _ => ?_, fun _ => hsame⟩
      intro q j t hpath ht hsmall
      rcases prefix_snoc_cases (p := pdPath vaddr) hpath with hle | ⟨rfl, rfl⟩
      · obtain ⟨hpres, hu⟩ := hq q j t hle ht
        rw [if_pos hpres]
        exact hu
      cases hd.tableAt.symm.trans ht
      have hno := hsmall rfl
      rw [hh] at hno
      cases hno
    · exact hdone hno hd hvalid
  | mapped hd hm hp =>
    rcases hm with ⟨rfl, hq⟩ | ⟨hno, hd⟩
    · refine ⟨fun _ _ => ?_, fun _ => hsame⟩
      intro q j t hpath ht _
      obtain ⟨hpres, hu⟩ := hq q j t hpath ht
      rw [if_pos hpres]
      exact hu
    · exact hdone hno hd hvalid
  | success hi hm => exact absurd rfl hstatus

theorem sampleKernel_live : (boot sampleKernel).Live sampleBoot where
  reachable := sampleKernel_reachable
  pmm := ⟨gPmm, samplePmm, List.replicate 5 .allocPage, sampleBoot_init, by decide +kernel⟩

/-- The large page that holds the frames from 2 MiB on refuses a mapping for the user. -/
@[irreducible] def sampleCollision : Machine :=
  ((mapPageInTable sampleKernel 0 0xFFFFFFFF80200000 0x1F0000
    (present ||| user)).getD (.hugePageCollision, sampleKernel)).2

theorem sampleCollision_unchanged_iff :
    mapPageInTable sampleKernel 0 0xFFFFFFFF80200000 0x1F0000
        (PageFlags.present ||| PageFlags.user) = some (.hugePageCollision, sampleCollision) ∧
      ((boot sampleKernel).Unchanged sampleCollision ↔
        (ValidArgs 0xFFFFFFFF80200000 0x1F0000 →
          (boot sampleKernel).Settled ((boot sampleKernel).target 0) 0xFFFFFFFF80200000
            (PageFlags.present ||| PageFlags.user))) := by
  have hcall : mapPageInTable sampleKernel 0 0xFFFFFFFF80200000 0x1F0000
      (present ||| user) = some (.hugePageCollision, sampleCollision) := by
    rw [sampleCollision]
    exact completed sampleKernel (by decide +kernel)
  exact ⟨hcall, failed_map_unchanged_iff sampleKernel_live (Or.inl rfl) (by decide) hcall⟩

/-! A machine with a single free frame after `init`, and the page that the VMM self-test maps to see
that no partial table is installed. -/

def tightMachine : Machine := ⟨samplePmm.run [.allocPages 246], fun _ _ => .clear, ⟨0, false⟩, 0⟩

@[irreducible] def tightKernel : Machine :=
  ((VirtualMemoryManager.init tightMachine true sampleSections).getD (true, tightMachine)).2

theorem tightKernel_live : (boot tightKernel).Live sampleBoot where
  reachable := by
    have hinit : VirtualMemoryManager.init tightMachine true sampleSections =
        some (true, tightKernel) := by
      rw [tightKernel]
      exact completed tightMachine (by decide +kernel)
    exact .booted (by decide +kernel) hinit
  pmm := ⟨gPmm, samplePmm, .allocPages 246 :: List.replicate 5 .allocPage,
    sampleBoot_init, by decide +kernel⟩

@[irreducible] def tightFailure : Machine :=
  ((mapPageInTable tightKernel 0 0xFFFFFA0000000000 0x100000 present).getD
    (.outOfMemory, tightKernel)).2

theorem tightKernel_partial_table :
    (boot tightKernel).Live sampleBoot ∧
      mapPageInTable tightKernel 0 0xFFFFFA0000000000 0x100000 PageFlags.present =
        some (.outOfMemory, tightFailure) ∧
      (tightKernel.ram tightKernel.vmm.rootPml4Paddr 500).isPresent = false ∧
      (tightFailure.ram tightKernel.vmm.rootPml4Paddr 500).isPresent = true ∧
      ¬ (boot tightKernel).Unchanged tightFailure := by
  have hbefore : (tightKernel.ram tightKernel.vmm.rootPml4Paddr 500).isPresent = false := by
    decide +kernel
  have hafter : (tightFailure.ram tightKernel.vmm.rootPml4Paddr 500).isPresent = true := by
    decide +kernel
  refine ⟨tightKernel_live, ?_, hbefore, hafter, ?_⟩
  · rw [tightFailure]
    exact completed tightKernel (by decide +kernel)
  · intro hsame
    have hroot :=
      hsame.1 _ [] _ (occupied_root (s := boot tightKernel) (Or.inl rfl)) (Nat.zero_le 3)
    have hentry : tightFailure.ram tightKernel.vmm.rootPml4Paddr 500 =
      tightKernel.ram tightKernel.vmm.rootPml4Paddr 500 := congrFun hroot 500
    rw [hentry, hbefore] at hafter
    cases hafter

end System

end LlamaOS.Memory
