import LlamaOS.Memory.FrameDemand

/-!
# Kernel pages beside a user space

The kernel maps and unmaps pages of its own half, over frames in a row, while a user
space is being set up. Page tables that such a mapping adds stay with the kernel; they
are counted here as frames that belong to nobody in the account of the space.
-/

namespace LlamaOS.Memory
open RadixForest VirtualAddress PageTableEntry VirtualMemoryManager PageFlags Machine Borrowed

/-- A page of the kernel half whose page table is not one of the direct map. -/
structure KernelWindow (vaddr : Nat) : Prop where
  upper : Upper (pml4Index vaddr)
  apart : ∀ a, PhysicalAddress.isDirectMapped a = true → ptPath (physToVirt a) ≠ ptPath vaddr

/-- The way along `path` ends at an entry that is not present. -/
def LacksTable (ram : Ram) (root : Nat) (path : List (Fin 512)) : Prop :=
  ∃ p i t, p ++ [i] <+: path ∧ follow next ram root p = some t ∧
    (p.length = 2 → (ram t i).isHuge = false) ∧ (ram t i).isPresent = false

variable {ram : Ram} {root : Nat} {path : List (Fin 512)}

theorem not_lacksTable {l : Nat} (h : follow next ram root path = some l) :
    ¬ LacksTable ram root path := by
  rintro ⟨p, i, t, hp, ht, _, habsent⟩
  obtain ⟨l', hl'⟩ := follow_of_le h hp
  rw [follow_snoc ht i, next_of_not_present habsent] at hl'
  cases hl'

theorem lacksTable_congr {ram' : Ram} (hlen : path.length ≤ 3)
    (h : ∀ p l, p.length ≤ 3 → follow next ram root p = some l → ram' l = ram l) :
    LacksTable ram' root path ↔ LacksTable ram root path := by
  have hfollow : ∀ p : List (Fin 512), p.length ≤ 3 →
      follow next ram' root p = follow next ram root p := by
    intro p hp
    have hclosed : PrefixClosed fun (r : Nat) (q : List (Fin 512)) => r = root ∧ q.length ≤ 3 := by
      intro r q u hq
      rw [List.length_append] at hq
      exact ⟨hq.1, by omega⟩
    apply follow_eq_of_agree hclosed _ ⟨rfl, hp⟩
    rintro r q i l ⟨rfl, hq⟩ hl
    rw [List.length_append, List.length_singleton] at hq
    rw [h q l (by omega) hl]
  have hshort : ∀ {p : List (Fin 512)} {i : Fin 512}, p ++ [i] <+: path → p.length ≤ 3 := by
    intro p i hp
    have hle := hp.length_le
    rw [List.length_append, List.length_singleton] at hle
    omega
  constructor
  · rintro ⟨p, i, t, hp, ht, hhuge, habsent⟩
    rw [hfollow p (hshort hp)] at ht
    rw [h p t (hshort hp) ht] at hhuge habsent
    exact ⟨p, i, t, hp, ht, hhuge, habsent⟩
  · rintro ⟨p, i, t, hp, ht, hhuge, habsent⟩
    rw [← h p t (hshort hp) ht] at hhuge habsent
    rw [← hfollow p (hshort hp)] at ht
    exact ⟨p, i, t, hp, ht, hhuge, habsent⟩

namespace System

/-- A table on the way is missing, and there is a frame for one. -/
def NeedsTable (s : System) (path : List (Fin 512)) : Prop :=
  LacksTable s.ram s.kernelRoot path ∧ ¬ s.machine.pmm.Exhausted

/-- The account of a space, with frames added exactly when `adds` holds. -/
def Accounted (args : BootArgs) (p₀ : PhysicalMemoryManager) (base extra : Finset Nat) (root : Nat)
    (adds : Prop) (s : System) : Prop :=
  ∃ extra', extra ⊆ extra' ∧ Tenancy args p₀ base extra' root s ∧ (extra' = extra ↔ ¬ adds)

variable {s : System}

namespace Tenancy
variable {args : BootArgs} {p₀ : PhysicalMemoryManager} {base extra : Finset Nat} {root : Nat}
variable (h : Tenancy args p₀ base extra root s)
include h

variable {vaddr : Nat}

theorem writeKernelLeaf {pt : Nat} (hw : KernelWindow vaddr)
    (hpt : s.Occupied s.kernelRoot (ptPath vaddr) pt) (e : PageTableEntry) :
    Tenancy args p₀ base extra root (s.withMachine (s.machine.write pt (ptIndex vaddr) e)) := by
  have hkernel : ¬ (s.kernelRoot ∈ s.spaces ∧ Lower (ptPath vaddr)) :=
    fun hmem => h.inv.kernel hmem.1
  have hwrite := h.inv.writeLeaf hpt (ptPath_length vaddr) (ptIndex vaddr) e hkernel
  refine h.of_tables hwrite rfl rfl ?_ ?_ ?_
  · intro r p hp
    apply follow_write_off s.prefixClosed h.inv.separated hpt _ e hp
    intro u hu hf
    rcases hp with ⟨_, hlen⟩ | ⟨_, _, hlower⟩
    · rw [hu, List.length_append, ptPath_length, List.length_cons] at hlen
      omega
    · obtain ⟨i, q, hpath, hi⟩ := hlower
      rw [hu] at hpath
      exact hi ((List.cons.inj hpath).1 ▸ hw.upper)
  · intro a ha
    rw [canAccess, Bool.and_eq_true, Bool.or_eq_true, beq_iff_eq] at ha ⊢
    refine ⟨ha.1, ha.2.imp_right fun hwalk => ?_⟩
    have hother : ¬ (ptPath (physToVirt a) = ptPath vaddr ∧ ptIndex (physToVirt a) = ptIndex vaddr ∧
        follow next s.ram s.machine.activeRoot (ptPath vaddr) = some pt) :=
      fun hat => hw.apart a ha.1 hat.1
    have hsame :=
      walk_writeLeaf h.inv hpt (ptPath_length vaddr) (ptIndex vaddr) e h.inv.active hother
    have hsame' : walk (s.machine.write pt (ptIndex vaddr) e).ram
        (s.machine.write pt (ptIndex vaddr) e).activeRoot (physToVirt a) =
        walk s.machine.ram s.machine.activeRoot (physToVirt a) := hsame
    rw [hsame']
    exact hwalk
  · intro p t ht hlen i
    have hne : ¬ (t = pt ∧ i = ptIndex vaddr) := by
      rintro ⟨rfl, _⟩
      obtain ⟨rfl, _⟩ := h.inv.separated ht hpt
      rw [ptPath_length] at hlen
      omega
    exact congrArg isHuge (write_of_ne e hne)

variable {status : VmmStatus} {m : Machine}

theorem unmapKernel (hw : KernelWindow vaddr)
    (hunmap : unmapPage s.machine vaddr = some (status, m)) :
    Tenancy args p₀ base extra root (s.withMachine m) := by
  rcases unmap_cases h.inv hunmap with rfl | ⟨pt, hpt, rfl⟩
  · exact h
  · exact h.writeKernelLeaf hw ⟨tracked_of_root (Or.inl rfl) (Nat.le_refl 3), hpt⟩ .clear

variable {flags : PageFlags}

/-- The levels above a kernel page: nothing has changed, or tables were missing and were added. -/
theorem kernelKeeps (hw : KernelWindow vaddr) (hflags : testFlag flags user = false) :
    Keeps s s.kernelRoot vaddr flags fun _ m => m = s.machine ∨
      (LacksTable s.ram s.kernelRoot (ptPath vaddr) ∧ ¬ s.machine.pmm.Exhausted ∧
        ∃ extra', extra ⊂ extra' ∧ Tenancy args p₀ base extra' root (s.withMachine m)) where
  found := fun _ hm _ _ => hm
  raised := by
    intro p i m t _ _ _ hu
    rw [needsUser, hflags] at hu
    cases hu
  added := by
    intro p i m t pa m₁ hb hm hp halloc hpa hacc
    have hlen := hb.length_le
    have ht := hb.occupied (Or.inl rfl)
    have hupper : ¬ Lower (p ++ [i]) := by
      rintro ⟨j, q, hpath, hj⟩
      obtain ⟨u, hu⟩ := hb.onPath
      rw [hpath] at hu
      exact hj ((List.cons.inj hu).1 ▸ hw.upper)
    have hnew : ∀ {extra'}, Tenancy args p₀ base extra' root (s.withMachine m) →
        extra' ⊂ insert pa extra' := by
      intro extra' hten
      exact Finset.ssubset_insert (hten.fresh_notMem halloc hpa)
    right
    rcases hm with rfl | ⟨hlacks, hfree, extra', hsub, hten⟩
    · refine ⟨⟨p, i, t, hb.onPath, hb.tableAt, hb.small, hp⟩, ?_, insert pa extra, hnew h,
        h.addOther ht hlen hp halloc hpa flags hacc hupper⟩
      intro hnone
      have hzero := allocPage_pmm halloc
      rw [PhysicalMemoryManager.allocPage_of_exhausted hnone] at hzero
      exact hpa (congrArg Prod.fst hzero).symm
    · exact ⟨hlacks, hfree, insert pa extra', hsub.trans (hnew hten),
        hten.addOther ht hlen hp halloc hpa flags hacc hupper⟩

/-- A kernel page is mapped: tables are added exactly when one is missing and a frame is free. -/
theorem mapKernel {paddr : Nat} (hw : KernelWindow vaddr) (hflags : testFlag flags user = false)
    (hvalid : ValidArgs vaddr paddr)
    (hmap : mapPage s.machine vaddr paddr flags = some (status, m)) :
    Accounted args p₀ base extra root (s.NeedsTable (ptPath vaddr)) (s.withMachine m) ∧
      (status = .success → ¬ LacksTable m.ram s.kernelRoot (ptPath vaddr)) := by
  have hroot : s.IsRoot s.kernelRoot := Or.inl rfl
  rw [h.inv.mapPage_eq] at hmap
  -- what an exit with the property of the levels comes to
  have hkept : ∀ {m}, (LacksTable s.ram s.kernelRoot (ptPath vaddr) ∧ ¬ s.machine.pmm.Exhausted ∧
      ∃ extra', extra ⊂ extra' ∧ Tenancy args p₀ base extra' root (s.withMachine m)) →
      Accounted args p₀ base extra root (s.NeedsTable (ptPath vaddr)) (s.withMachine m) := by
    rintro m ⟨hlacks, hfree, extra', hsub, hten⟩
    exact ⟨extra', hsub.subset, hten, fun heq => absurd heq hsub.ne',
      fun hnot => absurd ⟨hlacks, hfree⟩ hnot⟩
  have hsame : ¬ s.NeedsTable (ptPath vaddr) →
      Accounted args p₀ base extra root (s.NeedsTable (ptPath vaddr)) (s.withMachine s.machine) :=
    fun hnot => ⟨extra, Finset.Subset.refl _, h, fun _ => hnot, fun _ => rfl⟩
  rcases map_exit h.inv hroot (h.kernelKeeps hw hflags) (Or.inl rfl) hmap with
    ⟨hinvalid, _⟩ | ⟨_, hexit⟩
  · exact absurd hvalid hinvalid
  cases hexit with
  | @exhausted p i m m' t hb hm hp halloc =>
    refine ⟨?_, fun hok => by cases hok⟩
    rcases hm with rfl | hadded
    · obtain ⟨_, hb', _⟩ := h.account
      have hnone : s.machine.pmm.Exhausted := (allocPage_eq_zero_iff hb'.now h.inv.size).mp
        (congrArg Prod.fst (allocPage_pmm halloc))
      obtain rfl := allocPage_failed hb'.now.zero halloc
      exact hsame fun hboth => hboth.2 hnone
    · obtain ⟨extra', hsub, hten, hiff⟩ := hkept hadded
      exact ⟨extra', hsub, hten.exhausted halloc, hiff⟩
  | @huge m t hd hm hh =>
    refine ⟨?_, fun hok => by cases hok⟩
    rcases hm with rfl | hadded
    · have hnot : ¬ LacksTable s.ram s.kernelRoot (ptPath vaddr) := by
        rintro ⟨p, i, t', hp, ht', hsmall, habsent⟩
        rcases prefix_snoc_cases (p := pdPath vaddr) (i := pdIndex vaddr) hp with hp | ⟨rfl, rfl⟩
        · exact not_lacksTable hd.tableAt ⟨p, i, t', hp, ht', hsmall, habsent⟩
        · cases hd.tableAt.symm.trans ht'
          exact absurd ((hsmall (pdPath_length vaddr)).symm.trans hh) (by decide)
      exact hsame fun hboth => hnot hboth.1
    · exact hkept hadded
  | @mapped m t hd hm hp =>
    refine ⟨?_, fun hok => by cases hok⟩
    rcases hm with rfl | hadded
    · exact hsame fun hboth => not_lacksTable hd.tableAt hboth.1
    · exact hkept hadded
  | @success m pt hi hm =>
    have htable :=
      hi.follow_written hroot (set paddr (flags ||| present)) hroot (ptPath vaddr) (Nat.le_refl 3)
    have hthere := not_lacksTable (htable.trans hi.follow_pt)
    have hbefore :
        Accounted args p₀ base extra root (s.NeedsTable (ptPath vaddr)) (s.withMachine m) := by
      rcases hm with rfl | hadded
      · exact hsame fun hboth => not_lacksTable hi.follow_pt hboth.1
      · exact hkept hadded
    obtain ⟨extra', hsub, hten, hiff⟩ := hbefore
    exact ⟨⟨extra', hsub, hten.writeKernelLeaf hw (hi.occupied hroot) _, hiff⟩, fun _ => hthere⟩

variable {count pa : Nat}

theorem takeRun (hcount : count ≠ 1) (halloc : s.machine.allocPages count = some (pa, m))
    (hpa : pa ≠ 0) :
    Tenancy args p₀ base extra root { s with machine := m, held := s.held ∪ runAt pa count } := by
  refine h.of_taken (allocPages_takes halloc) ?_ (inv_step h.inv (.framesTaken halloc hpa))
    fun frames hb => ?_
  · intro a ha
    exact ⟨hpa, mem_runAt.mp ha⟩
  · rcases hb.allocPages (allocPages_pmm hcount halloc) with ⟨hzero, _⟩ | ⟨_, hdisj, hb'⟩
    · exact absurd hzero hpa
    · exact ⟨hdisj, hb'⟩

omit h in
theorem freeLoop (hpa : pa < 2 ^ 52) (pages : List Nat) (allOk : Bool) (s : System)
    (h : Tenancy args p₀ base extra root s) (hnodup : pages.Nodup)
    (hsmall : ∀ i ∈ pages, i < 2 ^ 40)
    (hheld : ∀ i ∈ pages, pa + i * 4096 ∈ s.held ∧ pa + i * 4096 ∉ base) :
    Tenancy args p₀ base extra root
      { s with
        machine := { s.machine with
          pmm := (PhysicalMemoryManager.freeLoop pa pages allOk s.machine.pmm).2 }
        held := s.held.filter fun a => ∀ i ∈ pages, a ≠ pa + i * 4096 } := by
  induction pages generalizing allOk s with
  | nil =>
    have hall : (s.held.filter fun a => ∀ i ∈ ([] : List Nat), a ≠ pa + i * 4096) = s.held := by
      simp
    rw [hall]
    exact h
  | cons i rest ih =>
    obtain ⟨hi, hrest⟩ := List.nodup_cons.mp hnodup
    obtain ⟨hmem, hbase⟩ := hheld i List.mem_cons_self
    have hlt := hsmall i List.mem_cons_self
    have haddr : add64 pa (i * pageSize % 2 ^ 64) = pa + i * 4096 := by
      rw [Nat.mod_eq_of_lt (by simp only [pageSize]; omega),
        add64_eq (by simp only [pageSize]; omega)]
    have hnext := ih (allOk && (s.machine.pmm.freePage (pa + i * 4096)).1) _
      (h.free hmem hbase) hrest (fun j hj => hsmall j (List.mem_cons_of_mem i hj)) ?_
    · have hsets : ((s.held.erase (pa + i * 4096)).filter fun a => ∀ j ∈ rest, a ≠ pa + j * 4096) =
          s.held.filter fun a => ∀ j ∈ i :: rest, a ≠ pa + j * 4096 := by
        ext a
        simp only [Finset.mem_filter, Finset.mem_erase, List.forall_mem_cons]
        tauto
      rw [hsets] at hnext
      unfold PhysicalMemoryManager.freeLoop
      rw [haddr]
      exact hnext
    · intro j hj
      obtain ⟨hmem', hbase'⟩ := hheld j (List.mem_cons_of_mem i hj)
      refine ⟨Finset.mem_erase.mpr ⟨?_, hmem'⟩, hbase'⟩
      intro heq
      have hij : j = i := by omega
      exact hi (hij ▸ hj)

theorem freeRun (pa : Nat) (hcount : 0 < count) (hsmall : count < 2 ^ 40)
    (hheld : ∀ i < count, pa + i * 4096 ∈ s.held ∧ pa + i * 4096 ∉ base) :
    Tenancy args p₀ base extra root
      { s with machine := s.machine.freePages pa count, held := s.held \ runAt pa count } := by
  obtain ⟨hfirst, _⟩ := hheld 0 hcount
  rw [Nat.zero_mul, Nat.add_zero] at hfirst
  have hown := h.inv.heldOwned hfirst
  have hlt := hown.below
  obtain ⟨_, hb, _⟩ := h.account
  have hbytes : pageCountToBytes count = count * 4096 := by
    simp only [pageCountToBytes, pageSize]
    omega
  have haccept : s.machine.pmm.rejectsRange pa count = false := by
    have haligned := (PhysicalAddress.isPageAligned_iff pa).mpr hown.aligned
    have hnull : PhysicalAddress.isNull pa = false := beq_false_of_ne hown.nonnull
    simp only [PhysicalMemoryManager.rejectsRange, hb.now.initialized, haligned, hnull,
      hbytes, uint64Max,
      Bool.not_true, Bool.false_or, Bool.or_false, Bool.or_eq_false_iff, beq_eq_false_iff_ne,
      decide_eq_false_iff_not]
    omega
  have hloop := freeLoop hlt (List.range count) true s h List.nodup_range
    (fun i hi => Nat.lt_trans (List.mem_range.mp hi) hsmall)
      (fun i hi => hheld i (List.mem_range.mp hi))
  have hsets : (s.held.filter fun a => ∀ i ∈ List.range count, a ≠ pa + i * 4096) =
      s.held \ runAt pa count := by
    ext a
    rw [Finset.mem_filter, Finset.mem_sdiff, mem_runAt]
    simp only [List.mem_range, not_exists, not_and, ne_eq]
  rw [hsets] at hloop
  have hrun : s.machine.freePages pa count =
      { s.machine with
        pmm := (PhysicalMemoryManager.freeLoop pa (List.range count) true s.machine.pmm).2 } := by
    rw [freePages, PhysicalMemoryManager.freePages, haccept]
    rfl
  rw [hrun]
  exact hloop

end Tenancy

end System

end LlamaOS.Memory
