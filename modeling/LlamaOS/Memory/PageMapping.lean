import LlamaOS.Memory.ReachableStates

/-!
# What a mapping changes

A successful `map_page_in_table` gives one page its translation and leaves every other
page of the root alone; unmapping it again restores all translations.
-/

namespace LlamaOS.Memory
open RadixForest VirtualAddress PageTableEntry VirtualMemoryManager PageFlags

namespace System

variable {s : System}

section Leaf
variable (hs : s.Inv) {r : Nat} {p : List (Fin 512)} {l : Nat} (hl : s.Occupied r p l)
variable (hlen : p.length = 3) (i : Fin 512) (e : PageTableEntry)
include hs hl hlen

theorem walk_writeLeaf {r' : Nat} (hr' : s.IsRoot r') {vaddr : Nat}
    (hother : ¬ (ptPath vaddr = p ∧ ptIndex vaddr = i ∧ follow next s.ram r' p = some l)) :
    walk (write s.ram l i e) r' vaddr = walk s.ram r' vaddr := by
  have hpd : leafAt (write s.ram l i e) r' (pdPath vaddr) (pdIndex vaddr) =
      leafAt s.ram r' (pdPath vaddr) (pdIndex vaddr) := by
    rcases leafAt_writeLeaf hs hl hlen i e (pdIndex vaddr) hr' (Or.inl (pdPath_length vaddr)) with
      heq | ⟨rfl, _⟩
    · exact heq
    · cases hlen
  have hpt : leafAt (write s.ram l i e) r' (ptPath vaddr) (ptIndex vaddr) =
      leafAt s.ram r' (ptPath vaddr) (ptIndex vaddr) := by
    rcases leafAt_writeLeaf hs hl hlen i e (ptIndex vaddr) hr' (Or.inr (ptPath_length vaddr)) with
      heq | ⟨hpath, hidx, hf, _⟩
    · exact heq
    · exact absurd ⟨hpath, hidx, hf⟩ hother
  rw [walk_eq_leaves, walk_eq_leaves, hpd, hpt]

theorem walk_writeLeaf_some (habsent : (s.ram l i).isPresent = false) {r' : Nat} (hr' : s.IsRoot r')
    {vaddr : Nat} {target : Nat × PageFlags} (hw : walk s.ram r' vaddr = some target) :
    walk (write s.ram l i e) r' vaddr = some target := by
  by_cases hat : ptPath vaddr = p ∧ ptIndex vaddr = i ∧ follow next s.ram r' p = some l
  · obtain ⟨hpath, hidx, hf⟩ := hat
    rw [walk_of_pt (hpath ▸ hf), hidx, habsent] at hw
    cases hw
  · rw [walk_writeLeaf hs hl hlen i e hr' hat, hw]

end Leaf

namespace MapsInto
variable {root vaddr paddr pt : Nat} {m : Machine} (h : MapsInto s root vaddr paddr m pt)
variable (hroot : s.IsRoot root) (e : PageTableEntry)
include h hroot

theorem follow_written {r : Nat} (hr : s.IsRoot r) (q : List (Fin 512)) (hq : q.length ≤ 3) :
    follow next (m.write pt (ptIndex vaddr) e).ram r q = follow next m.ram r q :=
  follow_writeLeaf h.grows.inv (h.occupied hroot) rfl _ e hr hq

theorem canAccess_written {a : Nat} (ha : m.canAccess a = true) :
    (m.write pt (ptIndex vaddr) e).canAccess a = true := by
  rw [Machine.canAccess, Bool.and_eq_true, Bool.or_eq_true, beq_iff_eq] at ha ⊢
  refine ⟨ha.1, ?_⟩
  rcases ha.2 with hboot | hw
  · exact Or.inl hboot
  right
  obtain ⟨target, hw, htarget⟩ := Option.map_eq_some_iff.mp (beq_iff_eq.mp hw)
  have hnew := walk_writeLeaf_some h.grows.inv (h.occupied hroot) rfl (ptIndex vaddr) e h.absent
    h.grows.inv.active hw
  have hnew' : walk (m.write pt (ptIndex vaddr) e).ram (m.write pt (ptIndex vaddr) e).activeRoot
      (physToVirt a) = some target := hnew
  rw [hnew', Option.map_some, htarget, beq_self_eq_true]

theorem walk_page (hp : e.isPresent = true) {o : Nat} (ho : o < 4096) :
    walk (m.write pt (ptIndex vaddr) e).ram root (vaddr + o) =
      some (smallTarget (vaddr + o) e) := by
  have hal := h.pageAligned
  have hidx : ∀ {shift}, 12 ≤ shift → tableIndex shift (vaddr + o) = tableIndex shift vaddr :=
    fun hs => tableIndex_add_offset hal ho hs
  have hpath : ptPath (vaddr + o) = ptPath vaddr := by
    simp only [ptPath, pml4Index, pdptIndex, pdIndex, hidx (show 12 ≤ 39 by decide),
      hidx (show 12 ≤ 30 by decide), hidx (show 12 ≤ 21 by decide)]
  have hpt : ptIndex (vaddr + o) = ptIndex vaddr := hidx (Nat.le_refl 12)
  have hf : follow next (m.write pt (ptIndex vaddr) e).ram root (ptPath (vaddr + o)) = some pt := by
    rw [hpath, h.follow_written hroot e hroot (ptPath vaddr) (Nat.le_refl 3)]
    exact h.follow_pt
  have hentry : (m.write pt (ptIndex vaddr) e).ram pt (ptIndex vaddr) = e := write_self _ _ _
  rw [walk_of_pt hf, hpt, hentry, if_pos hp]

theorem walk_other {vaddr' : Nat} (hcanon : isCanonical vaddr' = true)
    (hne : vaddr' / 4096 ≠ vaddr / 4096) :
    walk (m.write pt (ptIndex vaddr) e).ram root vaddr' = walk s.ram root vaddr' := by
  rw [← h.grows.walk_eq hroot]
  apply walk_writeLeaf h.grows.inv (h.occupied hroot) rfl _ e hroot
  rintro ⟨hpath, hidx, _⟩
  exact hne (page_eq_of_indices hcanon h.canonical hpath hidx)

theorem walk_cleared {r : Nat} (hr : s.IsRoot r) (vaddr' : Nat) :
    walk (m.write pt (ptIndex vaddr) .clear).ram r vaddr' = walk s.ram r vaddr' := by
  rw [← h.grows.walk_eq hr]
  by_cases hat : ptPath vaddr' = ptPath vaddr ∧ ptIndex vaddr' = ptIndex vaddr ∧
      follow next m.ram r (ptPath vaddr) = some pt
  · obtain ⟨hpath, hidx, hf⟩ := hat
    have hf' := (h.follow_written hroot .clear hr (ptPath vaddr) (Nat.le_refl 3)).trans hf
    have hentry : (m.write pt (ptIndex vaddr) .clear).ram pt (ptIndex vaddr) = .clear :=
      write_self _ _ _
    rw [← hpath] at hf hf'
    rw [walk_of_pt hf', walk_of_pt hf, hidx, hentry, h.absent, isPresent_clear]
    rfl
  · exact walk_writeLeaf h.grows.inv (h.occupied hroot) rfl _ _ hr hat

end MapsInto

/-- A successful mapping translates its page and nothing else; unmapping it in the kernel root
restores every translation of every root. -/
theorem map_translates (hreach : Reachable s) {root vaddr paddr : Nat} {flags : PageFlags}
    {m : Machine} (hroot : s.IsRoot root) (hpaddr : paddr < 2 ^ 52)
    (hall : flags &&& PageFlags.all = flags)
    (h : mapPageInTable s.machine root vaddr paddr flags = some (.success, m)) :
    (∀ o < 4096, walk m.ram root (vaddr + o) = some (paddr + o, flags ||| PageFlags.present)) ∧
      (∀ vaddr', isCanonical vaddr' = true → vaddr' / 4096 ≠ vaddr / 4096 →
        walk m.ram root vaddr' = walk s.ram root vaddr') ∧
      (root = s.kernelRoot → ∃ m', unmapPage m vaddr = some (.success, m') ∧
        ∀ r, s.IsRoot r → ∀ vaddr', walk m'.ram r vaddr' = walk s.ram r vaddr') := by
  have hs := inv_reachable hreach
  rcases map_cases hs hroot h with ⟨hne, _⟩ | ⟨_, m₃, pt, hm, rfl⟩
  · exact absurd rfl hne
  have hpresent := isPresent_leaf paddr flags
  refine ⟨?_, fun vaddr' hcanon hne => hm.walk_other hroot _ hcanon hne, ?_⟩
  · intro o ho
    have hal := hm.pageAligned
    have htarget := hm.targetAligned
    have hflags : (flags ||| present) &&& all = flags ||| present := by
      rw [BitVec.and_comm, BitVec.and_or_distrib_left, BitVec.and_comm, hall]
      congr 1
    rw [hm.walk_page hroot _ hpresent ho, smallTarget, physicalAddress_set _ htarget hpaddr,
      flags_set, hflags, pageOffset_eq, show (vaddr + o) % 4096 = o by omega, add64_eq (by omega)]
  · rintro rfl
    obtain ⟨pdpt, pd, ht⟩ := hm.tables
    refine ⟨_, unmapPage_present hm.grows.inv.vmm hm.canonical hm.pageAligned
      ⟨(hm.follow_written hroot _ hroot _ (by simp)).trans ht.pdptAt,
        (hm.follow_written hroot _ hroot _ (by simp [pdPath])).trans ht.pdAt,
        (hm.follow_written hroot _ hroot (ptPath vaddr) (Nat.le_refl 3)).trans ht.ptAt,
        fun a ha => hm.canAccess_written hroot _ (ht.access a ha)⟩ ?_, ?_⟩
    · exact (congrArg isPresent (write_self _ _ _)).trans hpresent
    · intro r hr vaddr'
      have hram :=
        write_write (h := m₃.ram) pt (ptIndex vaddr) (set paddr (flags ||| present)) .clear
      exact (congrArg (walk · r vaddr') hram).trans (hm.walk_cleared hroot hr vaddr')

theorem sampleKernel_page_mapped :
    walk (samplePage sampleKernel sampleKernel.vmm.rootPml4Paddr).ram sampleKernel.vmm.rootPml4Paddr
        0xFFFFFFFF00000010 =
      some (0x1F0010, PageFlags.present ||| PageFlags.writable ||| PageFlags.noExecute) ∧
    ∃ m, unmapPage (samplePage sampleKernel sampleKernel.vmm.rootPml4Paddr) 0xFFFFFFFF00000000 =
        some (.success, m) ∧
      walk m.ram sampleKernel.vmm.rootPml4Paddr 0xFFFFFFFF00000000 =
        walk sampleKernel.ram sampleKernel.vmm.rootPml4Paddr 0xFFFFFFFF00000000 := by
  have hmap : mapPageInTable sampleKernel sampleKernel.vmm.rootPml4Paddr 0xFFFFFFFF00000000 0x1F0000
      (present ||| writable ||| noExecute) =
      some (.success, samplePage sampleKernel sampleKernel.vmm.rootPml4Paddr) := by
    rw [samplePage]
    exact completed sampleKernel (by decide +kernel)
  obtain ⟨hpage, _, hunmap⟩ := map_translates sampleKernel_reachable (Or.inl rfl)
    (by decide) (by decide) hmap
  obtain ⟨m, hm, hsame⟩ := hunmap rfl
  exact ⟨hpage 0x10 (by decide), m, hm, hsame _ (Or.inl rfl) _⟩

end System

/-!
## Translations that stand

A translation of the kernel root stays until its page is unmapped, whatever else happens. The direct
map of the first 512 MiB is such a translation, made by `init`.
-/

open Machine

/-- The operation does not unmap the page of `vaddr`. -/
def VmOp.Spares (vaddr : Nat) : VmOp → Prop
  | .unmap unmapped => unmapped / 4096 ≠ vaddr / 4096
  | _ => True

namespace System
variable {s s' : System}

variable {op : VmOp}

theorem step_kernelRoot (h : Step s op s') : s'.kernelRoot = s.kernelRoot := by
  cases h <;> rfl

theorem step_isRoot (h : Step s op s') {r : Nat} (hr : s.IsRoot r) (hop : op ≠ .destroy r) :
    s'.IsRoot r := by
  cases h with
  | created => exact isRoot_withSpace hr
  | @destroyed root m hroot hidle h =>
    rcases hr with hk | hmem
    · exact Or.inl hk
    · exact Or.inr
        (Finset.mem_erase_of_ne_of_mem (fun heq => hop (congrArg VmOp.destroy heq.symm)) hmem)
  | _ => exact hr

/-- A step changes no translation, or it is a call of `map_page_in_table` or `unmap_page`. -/
theorem step_walk (hs : s.Inv) (h : Step s op s') :
    (∀ r vaddr, s.IsRoot r → s'.IsRoot r → walk s'.ram r vaddr = walk s.ram r vaddr) ∨
    (∃ root vaddr paddr flags status, op = .map root vaddr paddr flags ∧ s.IsRoot root ∧
      mapPageInTable s.machine root vaddr paddr flags = some (status, s'.machine)) ∨
    ∃ vaddr status, op = .unmap vaddr ∧ unmapPage s.machine vaddr = some (status, s'.machine) := by
  cases h with
  | created h hroot =>
    rcases create_cases hs h with ⟨hzero, _⟩ | ⟨_, hc⟩
    · exact absurd hzero hroot
    · exact Or.inl fun r vaddr hr _ => hc.walk_eq hs hr vaddr
  | createFailed h =>
    rcases create_cases hs h with ⟨_, hg⟩ | ⟨hne, _⟩
    · exact Or.inl fun r vaddr hr _ => hg.walk_eq hr vaddr
    · exact absurd rfl hne
  | destroyed hroot hidle h =>
    exact Or.inl fun r vaddr _ hr' => (torn_destroy hs hroot h).walk_eq hs hroot hr' vaddr
  | mappedUser huser hheld h => exact Or.inr (Or.inl ⟨_, _, _, _, _, rfl, Or.inr huser.1, h⟩)
  | mappedOther hroot hother h => exact Or.inr (Or.inl ⟨_, _, _, _, _, rfl, hroot, h⟩)
  | mapFailed hroot hstatus h => exact Or.inr (Or.inl ⟨_, _, _, _, _, rfl, hroot, h⟩)
  | unmapped h => exact Or.inr (Or.inr ⟨_, _, rfl, h⟩)
  | activated | failureForced | frameFreed => exact Or.inl fun _ _ _ _ => rfl
  | frameTaken h | takeFailed h =>
    exact Or.inl fun r vaddr hr _ => (hs.alloc (allocPage_allocates h)).walk_eq hr vaddr
  | framesTaken h | takeFramesFailed h =>
    exact Or.inl fun r vaddr hr _ => (hs.take (allocPages_takes h)).walk_eq hr vaddr
  | stored hpage => exact Or.inl fun r vaddr hr _ => (hs.storePage _ _ hpage).walk_eq hr vaddr

variable {vaddr r vaddr' : Nat} {status : VmmStatus} {m : Machine} {target : Nat × PageFlags}

theorem walk_mapped_some (hs : s.Inv) {root paddr : Nat} {flags : PageFlags} (hroot : s.IsRoot root)
    (h : mapPageInTable s.machine root vaddr paddr flags = some (status, m)) (hr : s.IsRoot r)
    (hw : walk s.ram r vaddr' = some target) :
    walk m.ram r vaddr' = some target := by
  rcases map_cases hs hroot h with ⟨_, hg⟩ | ⟨_, m₃, pt, hm, rfl⟩
  · rw [hg.walk_eq hr, hw]
  · refine walk_writeLeaf_some hm.grows.inv (hm.occupied hroot) rfl _ _ hm.absent hr ?_
    exact (hm.grows.walk_eq hr vaddr').trans hw

theorem walk_mapped_page (hs : s.Inv) {root paddr o : Nat} {flags : PageFlags}
    (hroot : s.IsRoot root) (hpaddr : paddr < 2 ^ 52)
    (h : mapPageInTable s.machine root vaddr paddr flags = some (.success, m)) (ho : o < 4096) :
    ∃ flags', walk m.ram root (vaddr + o) = some (paddr + o, flags') := by
  rcases map_cases hs hroot h with ⟨hne, _⟩ | ⟨_, m₃, pt, hm, rfl⟩
  · exact absurd rfl hne
  have hal := hm.pageAligned
  have htarget := hm.targetAligned
  rw [hm.walk_page hroot _ (isPresent_leaf paddr flags) ho, smallTarget,
    physicalAddress_set _ htarget hpaddr, pageOffset_eq,
    show (vaddr + o) % 4096 = o by omega, add64_eq (by omega)]
  exact ⟨_, rfl⟩

theorem walk_unmapped_other (hs : s.Inv) (h : unmapPage s.machine vaddr = some (status, m))
    (hr : s.IsRoot r) (hcanon : isCanonical vaddr' = true) (hne : vaddr / 4096 ≠ vaddr' / 4096) :
    walk m.ram r vaddr' = walk s.ram r vaddr' := by
  by_cases hvaddr : isCanonical vaddr = true
  · rcases unmap_cases hs h with rfl | ⟨pt, hpt, rfl⟩
    · rfl
    have hocc : s.Occupied s.kernelRoot (ptPath vaddr) pt :=
      ⟨tracked_of_root (Or.inl rfl) (Nat.le_refl 3), hpt⟩
    refine walk_writeLeaf hs hocc rfl _ _ hr ?_
    rintro ⟨hpath, hidx, _⟩
    exact hne (page_eq_of_indices hcanon hvaddr hpath hidx).symm
  unfold unmapPage at h
  have hinit : s.machine.vmm.initialized = true := by rw [hs.vmm]
  rw [hinit, Bool.eq_false_iff.mpr hvaddr] at h
  cases h
  rfl

section
variable (hs : s.Inv) (h : Step s op s') (hcanon : isCanonical vaddr = true) (hop : op.Spares vaddr)
include hs h hcanon hop

/-- One step keeps a translation unless it unmaps the page or destroys the space. -/
theorem step_keeps (hr : s.IsRoot r) (hr' : s'.IsRoot r) (hw : walk s.ram r vaddr = some target) :
    walk s'.ram r vaddr = some target := by
  rcases step_walk hs h with hsame | ⟨_, _, _, _, _, _, hroot, hmap⟩ | ⟨_, _, rfl, hunmap⟩
  · exact (hsame r vaddr hr hr').trans hw
  · exact walk_mapped_some hs hroot hmap hr hw
  · exact (walk_unmapped_other hs hunmap hr hcanon hop).trans hw

theorem step_stands (hw : walk s.ram s.kernelRoot vaddr = some target) :
    walk s'.ram s.kernelRoot vaddr = some target :=
  step_keeps hs h hcanon hop (Or.inl rfl) (Or.inl (step_kernelRoot h).symm) hw

end

/-- A mapping stands through every run of calls that neither unmap its page nor destroy its
space. -/
theorem mapping_stands (hreach : Reachable s) (hr : s.IsRoot r) (hcanon : isCanonical vaddr = true)
    (hw : walk s.ram r vaddr = some target)
    (hrun : Relation.ReflTransGen (fun s s' => ∃ op, Step s op s' ∧ op ≠ .destroy r ∧
      op.Spares vaddr) s s') : s'.IsRoot r ∧ walk s'.ram r vaddr = some target := by
  suffices hall : Reachable s' ∧ s'.IsRoot r ∧ walk s'.ram r vaddr = some target from hall.2
  induction hrun with
  | refl => exact ⟨hreach, hr, hw⟩
  | tail _ hstep ih =>
    obtain ⟨hreach, hr, hw⟩ := ih
    obtain ⟨op, hstep, hkeep, hspares⟩ := hstep
    have hr' := step_isRoot hstep hr hkeep
    exact ⟨.step hreach hstep, hr',
      step_keeps (inv_reachable hreach) hstep hcanon hspares hr hr' hw⟩

theorem sampleKernel_mapping_stands :
    (walk sampleSpace.ram sampleKernel.vmm.rootPml4Paddr 0xFFFFFFFF80100000).isSome = true := by
  have hmapped : (walk sampleKernel.ram sampleKernel.vmm.rootPml4Paddr 0xFFFFFFFF80100000).isSome =
      true := by
    decide +kernel
  obtain ⟨target, hw⟩ := Option.isSome_iff_exists.mp hmapped
  have hstep := Step.created sampleSpace_created (s := boot sampleKernel) (by decide)
  have hrun := mapping_stands sampleKernel_reachable (Or.inl rfl) (by decide) hw
    (.single ⟨_, hstep, nofun, trivial⟩)
  exact congrArg Option.isSome hrun.2

theorem isCanonical_window {q : Nat} (hq : q < 0x80000000) :
    isCanonical (0xFFFFFFFF80000000 + q) = true := by
  rw [isCanonical_iff]
  omega

/-- States after `init` where no page of the direct map has been unmapped. -/
inductive Standing : System → Prop where
  | booted {m m' : Machine} {nxe : Bool} {sec : Sections} (hsize : m.pmm.bitmap.size ≤ 2 ^ 40)
      (h : VirtualMemoryManager.init m nxe sec = some (true, m')) : Standing (boot m')
  | step {s s' : System} {op : VmOp} (hs : Standing s) (h : Step s op s')
      (hop : ∀ a < 0x20000000, op.Spares (physToVirt a)) : Standing s'

theorem Standing.reachable (h : Standing s) : Reachable s := by
  induction h with
  | booted hsize h => exact .booted hsize h
  | step _ h _ ih => exact .step ih h

theorem Standing.direct (h : Standing s) {a : Nat} (ha : a < 0x20000000) :
    ∃ flags, walk s.ram s.kernelRoot (physToVirt a) = some (a, flags) := by
  induction h with
  | @booted m m' nxe sec hsize h =>
    obtain ⟨⟨pdpt, pd2, pd1, pt0, k⟩, _⟩ := init_tables h
    have hpage := @KernelTables.walk_page m' sec pdpt pd2 pd1 pt0 k (a / 4096 * 4096) (a % 4096)
      (by omega) (by omega) (by omega)
    rw [physToVirt_eq (by omega), Nat.add_assoc, show a / 4096 * 4096 + a % 4096 = a by omega]
      at hpage
    rw [physToVirt_eq (by omega)]
    rcases hpage with ⟨_, flags, hwalk, _⟩ | ⟨hout, _⟩
    · exact ⟨flags, hwalk⟩
    · omega
  | step hs h hop ih =>
    obtain ⟨flags, hw⟩ := ih
    refine ⟨flags, ?_⟩
    rw [step_kernelRoot h]
    refine step_stands (inv_reachable hs.reachable) h ?_ (hop a ha) hw
    rw [physToVirt_eq (by omega)]
    exact isCanonical_window (by omega)

theorem walk_window (h : Reachable s) {r : Nat} (hr : s.IsRoot r) {q : Nat} (hq : q < 0x80000000) :
    walk s.ram r (0xFFFFFFFF80000000 + q) = walk s.ram s.kernelRoot (0xFFFFFFFF80000000 + q) := by
  rcases hr with rfl | hmem
  · rfl
  have hs := inv_reachable h
  have hindex := (window_indices hq).1
  have hupper : Upper (pml4Index (0xFFFFFFFF80000000 + q)) := by
    rw [hindex]
    decide
  have htop : s.inherited r (pml4Index (0xFFFFFFFF80000000 + q)) = true :=
    hindex ▸ hs.topInherited hmem
  rw [walk_eq_leaves, walk_eq_leaves, pdPath, ptPath, hs.leafAt_shared hmem hupper htop,
    hs.leafAt_shared hmem hupper htop]

/-- Under every address space the kernel finds a frame of the first 512 MiB at its direct-map
address. -/
theorem direct_map_shared (h : Standing s) {r : Nat} (hr : s.IsRoot r) {a : Nat}
    (ha : a < 0x20000000) : ∃ flags, walk s.ram r (physToVirt a) = some (a, flags) := by
  obtain ⟨flags, hw⟩ := h.direct ha
  rw [physToVirt_eq (by omega)] at hw ⊢
  exact ⟨flags, (walk_window h.reachable hr (by omega)).trans hw⟩

theorem sampleSpace_direct :
    ∃ flags, walk sampleSpace.ram 0x108000 (physToVirt 0x1F0000) = some (0x1F0000, flags) :=
  direct_map_shared (.step (.booted (by decide +kernel) sampleKernel_init)
    (.created sampleSpace_created (by decide))
    fun _ _ => trivial) (Or.inr (Finset.mem_insert_self _ _)) (by decide)

end System

end LlamaOS.Memory
