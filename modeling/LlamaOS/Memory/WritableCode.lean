import LlamaOS.Memory.Mapping

/-!
# Writable code

`init` gives each page of the kernel the rights of its section. The pages of the boot sections, from
1 MiB up to `.text`, stay writable and executable.
-/

namespace LlamaOS.Memory
open RadixForest VirtualAddress PageTableEntry VirtualMemoryManager PageFlags

/-- The entries that the processor reads for an address, if they are all present. -/
def walkEntries (ram : Ram) (root vaddr : Nat) : Option (List PageTableEntry) :=
  let pml4e := ram root (pml4Index vaddr)
  if !pml4e.isPresent then none
  else
    let pdpte := ram pml4e.physicalAddress (pdptIndex vaddr)
    if !pdpte.isPresent then none
    else
      let pde := ram pdpte.physicalAddress (pdIndex vaddr)
      if !pde.isPresent then none
      else if pde.isHuge then some [pml4e, pdpte, pde]
      else
        let pte := ram pde.physicalAddress (ptIndex vaddr)
        if !pte.isPresent then none else some [pml4e, pdpte, pde, pte]

/-- The processor may write to the address and fetch code from it. -/
def writableCode (ram : Ram) (root vaddr : Nat) : Bool :=
  (walkEntries ram root vaddr).any fun es => es.all isWritable && !es.any isNoExecute

/-- Page-aligned sections in the order of the linker script, after the boot sections at 1 MiB. -/
structure Sections.Ordered (sec : Sections) : Prop where
  aligned : ∀ a ∈ [sec.textStart, sec.textEnd, sec.rodataStart, sec.rodataEnd, sec.dataStart,
    sec.dataEnd, sec.bssStart, sec.bssEnd], a % 4096 = 0
  increasing : [kernelVirtualBase + 0x100000, sec.textStart, sec.textEnd, sec.rodataStart,
    sec.rodataEnd, sec.dataStart, sec.dataEnd, sec.bssStart, sec.bssEnd].IsChain (· ≤ ·)

variable {ram : Ram} {root vaddr : Nat}

/-- The last entry that the processor reads is an entry of a page directory or of a page table. -/
theorem walkEntries_leaf {es : List PageTableEntry} (h : walkEntries ram root vaddr = some es) :
    (∃ pd, follow next ram root (pdPath vaddr) = some pd ∧ (ram pd (pdIndex vaddr)).isHuge = true ∧
      ram pd (pdIndex vaddr) ∈ es) ∨
    ∃ pt, follow next ram root (ptPath vaddr) = some pt ∧ ram pt (ptIndex vaddr) ∈ es := by
  unfold walkEntries at h
  simp only [Option.ite_none_left_eq_some, Bool.not_eq_true', Bool.not_eq_false] at h
  obtain ⟨hp₄, hp₃, hp₂, h⟩ := h
  have hf₄ := (System.follow_one ram root (pml4Index vaddr)).trans (next_of_present (by decide) hp₄)
  have hf₃ := (follow_snoc hf₄ (pdptIndex vaddr)).trans (next_of_present (by simp) hp₃)
  split at h
  · rename_i hhuge
    cases h
    exact Or.inl ⟨_, hf₃, hhuge, by simp⟩
  rename_i hhuge
  have hf₂ :=
    (follow_snoc hf₃ (pdIndex vaddr)).trans (next_eq_some hp₂ fun _ => Bool.not_eq_true _ ▸ hhuge)
  simp only [Option.ite_none_left_eq_some] at h
  cases h.2
  exact Or.inr ⟨_, hf₂, by simp⟩

theorem isWritable_set (pa : Nat) (f : PageFlags) : (set pa f).isWritable = f.getLsbD 1 :=
  bit_set pa f (by decide)

theorem isNoExecute_set (pa : Nat) (f : PageFlags) : (set pa f).isNoExecute = f.getLsbD 63 :=
  bit_set pa f (by decide)

theorem writableCode_iff :
    writableCode ram root vaddr = true ↔ ∃ es, walkEntries ram root vaddr = some es ∧
    ∀ e ∈ es, e.isWritable = true ∧ e.isNoExecute = false := by
  unfold writableCode
  cases walkEntries ram root vaddr with
  | none => simp
  | some es => simp [forall_and]

/-- Among the seven kinds of pages only the boot pages are writable and executable. -/
theorem sectionFlags_writableCode (sec : Sections) (f : Nat) :
    (sectionFlags sec f).getLsbD 1 = true ∧ (sectionFlags sec f).getLsbD 63 = false →
      0x100000 ≤ f * 4096 ∧ kernelVirtualBase + f * 4096 < sec.textStart := by
  simp only [sectionFlags]
  iterate 5
    split
    · exact fun hrights => absurd hrights (by decide)
  split
  · rename_i hboot
    exact fun _ => hboot
  · exact fun hrights => absurd hrights (by decide)

namespace KernelTables
variable {m : Machine} {sec : Sections} {pdpt pd2 pd1 pt0 : Nat}
variable (k : KernelTables m sec pdpt pd2 pd1 pt0)
include k

theorem pd_cases {p : List (Fin 512)} {l : Nat} (hlen : p.length = 2)
    (h : follow next m.ram m.vmm.rootPml4Paddr p = some l) : l = pd2 ∨ l = pd1 := by
  rcases k.follow_cases (by omega) h with ⟨rfl, _⟩ | ⟨rfl, _⟩ | ⟨_, hl⟩ | ⟨_, hl⟩ | ⟨rfl, _⟩
  · cases hlen
  · cases hlen
  · exact Or.inl hl
  · exact Or.inr hl
  · cases hlen

theorem pt_eq {p : List (Fin 512)} {l : Nat} (hlen : p.length = 3)
    (h : follow next m.ram m.vmm.rootPml4Paddr p = some l) : l = pt0 := by
  rcases k.follow_cases (by omega) h with ⟨rfl, _⟩ | ⟨rfl, _⟩ | ⟨rfl, _⟩ | ⟨rfl, _⟩ | ⟨_, hl⟩
  · cases hlen
  · cases hlen
  · cases hlen
  · cases hlen
  · exact hl

theorem boot_of_writableCode (h : writableCode m.ram m.vmm.rootPml4Paddr vaddr = true) :
    kernelVirtualBase + 0x100000 < sec.textStart := by
  obtain ⟨es, hes, hrights⟩ := writableCode_iff.mp h
  have hlarge : ∀ base i, (largePage base i).isNoExecute = true :=
    fun base i => (isNoExecute_set _ _).trans (by decide)
  rcases walkEntries_leaf hes with ⟨pd, hpd, hhuge, hmem⟩ | ⟨pt, hpt, hmem⟩
  · -- large pages are not executable
    have hexecute := (hrights _ hmem).2
    rcases k.pd_cases (System.pdPath_length vaddr) hpd with rfl | rfl
    · rw [k.pd2Entry, hlarge] at hexecute
      cases hexecute
    rw [k.pd1Entry] at hhuge hexecute
    split at hhuge
    · rw [tablePointer, isHuge_set] at hhuge
      exact absurd hhuge (by decide)
    rename_i hne
    rw [if_neg hne] at hexecute
    split at hexecute
    · rw [hlarge] at hexecute
      cases hexecute
    · rename_i hge
      rw [if_neg hge] at hhuge
      exact absurd hhuge (by decide)
  · have hleaf := hrights _ hmem
    rw [k.pt_eq (System.ptPath_length vaddr) hpt, k.pt0Entry, isWritable_set, isNoExecute_set]
      at hleaf
    obtain ⟨hlow, hboot⟩ := sectionFlags_writableCode sec _ hleaf
    omega

theorem boot_writableCode (hlayout : sec.Ordered)
    (hboot : kernelVirtualBase + 0x100000 < sec.textStart) :
    writableCode m.ram m.vmm.rootPml4Paddr (kernelVirtualBase + 0x100000) = true := by
  have hflags : sectionFlags sec 256 = present ||| writable := by
    have horder := hlayout.increasing
    simp only [List.isChain_cons_cons, List.isChain_singleton, and_true] at horder
    unfold sectionFlags
    rw [if_neg (by omega), if_neg (by omega), if_neg (by omega), if_neg (by omega),
      if_neg (by decide), if_pos ⟨by decide, hboot⟩]
  have e₄ : m.ram m.vmm.rootPml4Paddr 511 = tablePointer pdpt :=
    (k.pml4Entry 511).trans (if_pos rfl)
  have e₃ : m.ram pdpt 510 = tablePointer pd1 :=
    (k.pdptEntry 510).trans ((if_neg (by decide)).trans (if_pos rfl))
  have e₂ : m.ram pd1 0 = tablePointer pt0 := (k.pd1Entry 0).trans (if_pos rfl)
  have e₁ : m.ram pt0 256 = set 0x100000 (present ||| writable) :=
    hflags ▸ k.pt0Entry 256
  have h₄ : pml4Index (kernelVirtualBase + 0x100000) = 511 := by decide
  have h₃ : pdptIndex (kernelVirtualBase + 0x100000) = 510 := by decide
  have h₂ : pdIndex (kernelVirtualBase + 0x100000) = 0 := by decide
  have h₁ : ptIndex (kernelVirtualBase + 0x100000) = 256 := by decide
  obtain ⟨p₄, _, a₄⟩ := isPresent_of_next (k.pointer_next (a := pdpt) (by simp) 0)
  obtain ⟨p₃, _, a₃⟩ := isPresent_of_next (k.pointer_next (a := pd1) (by simp) 1)
  obtain ⟨p₂, hsmall, a₂⟩ := isPresent_of_next (k.pointer_next (a := pt0) (by simp) 2)
  have p₁ : (set 0x100000 (present ||| writable)).isPresent = true := by decide
  refine writableCode_iff.mpr
    ⟨[tablePointer pdpt, tablePointer pd1, tablePointer pt0, m.ram pt0 256], ?_, ?_⟩
  · unfold walkEntries
    simp only [h₄, h₃, h₂, h₁, e₄, e₃, e₂, e₁, a₄, a₃, a₂, p₄, p₃, p₂, p₁, hsmall rfl,
      Bool.not_true, Bool.false_eq_true, if_false]
  · simp only [List.forall_mem_cons, e₁, isWritable_set, isNoExecute_set, tablePointer]
    exact ⟨by decide, by decide, by decide, by decide, List.forall_mem_nil _⟩

end KernelTables

/-- `init` leaves no writable code exactly when the boot sections are empty. -/
theorem init_writableCode_iff {m m' : Machine} {nxe : Bool} {sec : Sections} (hlayout : sec.Ordered)
    (hinit : VirtualMemoryManager.init m nxe sec = some (true, m')) :
    (∀ vaddr, writableCode m'.ram m'.vmm.rootPml4Paddr vaddr = false) ↔
      sec.textStart = kernelVirtualBase + 0x100000 := by
  obtain ⟨⟨pdpt, pd2, pd1, pt0, k⟩, _⟩ := init_tables hinit
  have hfirst := (List.isChain_cons_cons.mp hlayout.increasing).1
  constructor
  · intro hnone
    by_contra hne
    have hcode := k.boot_writableCode hlayout (by omega)
    rw [hnone] at hcode
    cases hcode
  · intro htext vaddr
    rw [Bool.eq_false_iff]
    intro hcode
    have hboot := k.boot_of_writableCode hcode
    omega

theorem sampleKernel_no_writableCode : sampleSections.Ordered ∧
    ∀ vaddr, writableCode sampleKernel.ram sampleKernel.vmm.rootPml4Paddr vaddr = false := by
  have hlayout : sampleSections.Ordered := ⟨by decide, by decide⟩
  exact ⟨hlayout, (init_writableCode_iff hlayout sampleKernel_init).mpr rfl⟩

/-- The sample's sections behind eight pages of boot code. -/
def bootSections : Sections := { sampleSections with textStart := 0xFFFFFFFF80108000 }

theorem bootSections_writableCode : bootSections.Ordered ∧ ∃ m',
    VirtualMemoryManager.init sampleMachine true bootSections = some (true, m') ∧
      writableCode m'.ram m'.vmm.rootPml4Paddr 0xFFFFFFFF80100000 = true :=
  ⟨⟨by decide, by decide⟩, _, completed sampleMachine (by decide +kernel), by decide +kernel⟩

end LlamaOS.Memory
