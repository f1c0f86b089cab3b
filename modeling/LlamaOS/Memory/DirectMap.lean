import LlamaOS.Memory.Translation
import LlamaOS.Memory.TableFrames
import LlamaOS.Memory.HandedOut

/-!
# The direct map after initialization

Three definitions of the window meet here: the predicate `is_direct_mapped`, the offset
of `phys_to_virt`, and the tables that `init` fills. They agree except on the second
512 MiB, where `init` leaves the page directory empty.
-/

namespace LlamaOS.Memory
open RadixForest VirtualAddress PageTableEntry VirtualMemoryManager PageFlags Machine
  PhysicalAddress

/-- The five tables `init` builds, with all their entries. -/
structure KernelTables (m : Machine) (sec : Sections) (pdpt pd2 pd1 pt0 : Nat) : Prop where
  pml4Entry : ∀ i, m.ram m.vmm.rootPml4Paddr i = if i = 511 then tablePointer pdpt else .clear
  pdptEntry : ∀ i, m.ram pdpt i =
    if i = 511 then tablePointer pd2 else if i = 510 then tablePointer pd1 else .clear
  pd2Entry : ∀ i, m.ram pd2 i = largePage 0x40000000 i
  pd1Entry : ∀ i, m.ram pd1 i =
    if i = 0 then tablePointer pt0 else if i.val < 256 then largePage 0 i else .clear
  pt0Entry : ∀ i, m.ram pt0 i = .set (i * 4096) (sectionFlags sec i)
  distinct : [m.vmm.rootPml4Paddr, pdpt, pd2, pd1, pt0].Nodup
  frames : ∀ a ∈ [m.vmm.rootPml4Paddr, pdpt, pd2, pd1, pt0],
    a ≠ 0 ∧ a % 4096 = 0 ∧ a < 0x80000000 ∧ m.taken a = true
  active : m.cr3 = m.vmm.rootPml4Paddr
  initialized : m.vmm.initialized = true

variable {α : Type}

theorem bind_eq_some {β : Type} {x : Option α} {f : α → Option β} {b : β} :
    (x >>= f) = some b ↔ ∃ a, x = some a ∧ f a = some b := Option.bind_eq_some_iff

variable {m' : Machine}

theorem alloc_of_success {x : Option (Nat × Machine)} {fail : Nat × Machine → Machine}
    {rest : Nat × Machine → Option (Bool × Machine)}
    (h : (x >>= fun q => if q.1 = 0 then pure (false, fail q) else rest q) = some (true, m')) :
    ∃ pa m, x = some (pa, m) ∧ pa ≠ 0 ∧ rest (pa, m) = some (true, m') := by
  obtain ⟨⟨pa, m⟩, hx, hrest⟩ := bind_eq_some.mp h
  split at hrest
  · cases hrest
  · rename_i hpa
    exact ⟨pa, m, hx, hpa, hrest⟩

structure TakenFrames (m : Machine) (frames : List Nat) : Prop where
  distinct : frames.Nodup
  taken : ∀ a ∈ frames, a ≠ 0 ∧ a % 4096 = 0 ∧ m.taken a = true

variable {m : Machine} {frames : List Nat}

theorem TakenFrames.of_pmm (hm : TakenFrames m frames) (h : m'.pmm = m.pmm) :
    TakenFrames m' frames := by
  refine ⟨hm.distinct, ?_⟩
  intro a ha
  rw [Machine.taken, h]
  exact hm.taken a ha

variable {pa : Nat}

theorem TakenFrames.alloc (hm : TakenFrames m frames) (h : m.Allocates pa m') (hpa : pa ≠ 0) :
    TakenFrames m' (pa :: frames) := by
  refine ⟨List.nodup_cons.mpr ⟨?_, hm.distinct⟩, ?_⟩
  · intro hmem
    exact h.ne_of_taken hpa (hm.taken pa hmem).2.2 rfl
  · intro a ha
    rcases List.mem_cons.mp ha with rfl | ha
    · exact ⟨hpa, (h.fresh hpa).aligned, h.taken hpa⟩
    · obtain ⟨hne, hal, ht⟩ := hm.taken a ha
      exact ⟨hne, hal, h.keeps a ht⟩

theorem Machine.Allocates.ram_eq (h : m.Allocates pa m') (hpa : pa ≠ 0)
    (hacc : PhysicalAddress.isDirectMapped pa = true) (t : Nat) (i : Fin 512) :
    m'.ram t i = if t = pa then .clear else m.ram t i := by
  by_cases ht : t = pa
  · rw [if_pos ht, ht]
    exact h.zeroed hpa hacc i
  · rw [if_neg ht, h.unchanged t (Or.inr ht)]

/-- What a successful `init` has done: five frames taken, and memory changed step by step. -/
structure InitRun (m m' : Machine) (sec : Sections) (pml4 pdpt pd2 pd1 pt0 : Nat) : Prop where
  vmm : m'.vmm = ⟨pml4, true⟩
  cr3 : m'.cr3 = pml4
  size : m'.pmm.bitmap.size = m.pmm.bitmap.size
  frames : TakenFrames m' [pt0, pd1, pd2, pdpt, pml4]
  direct : ∀ a ∈ [pt0, pd1, pd2, pdpt, pml4], PhysicalAddress.isDirectMapped a = true
  ram : ∀ t i, m'.ram t i =
    if t = pd1 ∧ 1 ≤ i.val ∧ i.val < 256 then largePage 0 i
    else if t = pt0 ∧ 0 ≤ i.val ∧ i.val < 512 then .set (i * 4096) (sectionFlags sec i)
    else if t = pd1 ∧ i = 0 then tablePointer pt0
    else if t = pt0 then .clear
    else if t = pdpt ∧ i = 510 then tablePointer pd1
    else if t = pd1 then .clear
    else if t = pd2 ∧ 0 ≤ i.val ∧ i.val < 512 then largePage 0x40000000 i
    else if t = pdpt ∧ i = 511 then tablePointer pd2
    else if t = pd2 then .clear
    else if t = pml4 ∧ i = 511 then tablePointer pdpt
    else if t = pdpt then .clear
    else if t = pml4 then .clear
    else m.ram t i

variable {nxe : Bool} {sec : Sections}

theorem init_run (h : init m nxe sec = some (true, m')) :
    ∃ pml4 pdpt pd2 pd1 pt0, InitRun m m' sec pml4 pdpt pd2 pd1 pt0 := by
  unfold init at h
  split at h
  · cases h
  obtain ⟨pml4, m₁, h₁, hpml4, h⟩ := alloc_of_success h
  obtain ⟨pdpt, m₂, h₂, hpdpt, h⟩ := alloc_of_success h
  obtain ⟨m₃, h₃, h⟩ := bind_eq_some.mp h
  obtain ⟨pd2, m₄, h₄, hpd2, h⟩ := alloc_of_success h
  obtain ⟨m₅, h₅, h⟩ := bind_eq_some.mp h
  obtain ⟨m₆, h₆, h⟩ := bind_eq_some.mp h
  obtain ⟨pd1, m₇, h₇, hpd1, h⟩ := alloc_of_success h
  obtain ⟨m₈, h₈, h⟩ := bind_eq_some.mp h
  obtain ⟨pt0, m₉, h₉, hpt0, h⟩ := alloc_of_success h
  obtain ⟨m₁₀, h₁₀, h⟩ := bind_eq_some.mp h
  obtain ⟨m₁₁, h₁₁, h⟩ := bind_eq_some.mp h
  obtain ⟨m₁₂, h₁₂, h⟩ := bind_eq_some.mp h
  cases h
  have a₁ := allocPage_allocates h₁
  have a₂ := allocPage_allocates h₂
  obtain ⟨acc₁, p₃, r₃⟩ := of_store h₃
  have a₄ := allocPage_allocates h₄
  obtain ⟨acc₂, p₅, r₅⟩ := of_store h₅
  obtain ⟨acc₃, p₆, r₆⟩ := of_fill h₆
  have a₇ := allocPage_allocates h₇
  obtain ⟨_, p₈, r₈⟩ := of_store h₈
  have a₉ := allocPage_allocates h₉
  obtain ⟨acc₄, p₁₀, r₁₀⟩ := of_store h₁₀
  obtain ⟨acc₅, p₁₁, r₁₁⟩ := of_fill h₁₁
  obtain ⟨_, p₁₂, r₁₂⟩ := of_fill h₁₂
  -- the allocator's view: five frames, all different
  have t₁ : TakenFrames m₁ [pml4] :=
    TakenFrames.alloc ⟨List.nodup_nil, List.forall_mem_nil _⟩ a₁ hpml4
  have t₂ := t₁.alloc a₂ hpdpt
  have t₄ := (t₂.of_pmm p₃).alloc a₄ hpd2
  have t₇ := (t₄.of_pmm (p₆.trans p₅)).alloc a₇ hpd1
  have t₉ := (t₇.of_pmm p₈).alloc a₉ hpt0
  have t₁₂ := t₉.of_pmm (p₁₂.trans (p₁₁.trans p₁₀))
  have d₁ := isDirectMapped_of_canAccess acc₁
  have d₂ := isDirectMapped_of_canAccess acc₂
  have d₃ := isDirectMapped_of_canAccess acc₃
  have d₄ := isDirectMapped_of_canAccess acc₄
  have d₅ := isDirectMapped_of_canAccess acc₅
  have hdirect : ∀ a ∈ [pt0, pd1, pd2, pdpt, pml4], isDirectMapped a = true := by
    simp only [List.forall_mem_cons]
    exact ⟨d₅, d₄, d₃, d₂, d₁, List.forall_mem_nil _⟩
  -- the memory's view: each step changes one table
  have r₁ := a₁.ram_eq hpml4 d₁
  have r₂ := a₂.ram_eq hpdpt d₂
  have r₄ := a₄.ram_eq hpd2 d₃
  have r₇ := a₇.ram_eq hpd1 d₄
  have r₉ := a₉.ram_eq hpt0 d₅
  refine ⟨pml4, pdpt, pd2, pd1, pt0, rfl, rfl, ?_, t₁₂.of_pmm rfl, hdirect, ?_⟩
  · calc m₁₂.pmm.bitmap.size = m₉.pmm.bitmap.size := by rw [p₁₂, p₁₁, p₁₀]
      _ = m₇.pmm.bitmap.size := by rw [a₉.size, p₈]
      _ = m₄.pmm.bitmap.size := by rw [a₇.size, p₆, p₅]
      _ = m.pmm.bitmap.size := by rw [a₄.size, p₃, a₂.size, a₁.size]
  · intro t i
    rw [r₁₂, r₁₁, r₁₀, r₉, r₈, r₇, r₆, r₅, r₄, r₃, r₂, r₁]

theorem InitRun.tables {pml4 pdpt pd2 pd1 pt0 : Nat} (h : InitRun m m' sec pml4 pdpt pd2 pd1 pt0) :
    KernelTables m' sec pdpt pd2 pd1 pt0 := by
  have hroot : m'.vmm.rootPml4Paddr = pml4 := by rw [h.vmm]
  have hperm : [pml4, pdpt, pd2, pd1, pt0].Perm [pt0, pd1, pd2, pdpt, pml4] :=
    (List.reverse_perm [pml4, pdpt, pd2, pd1, pt0]).symm
  have hfwd := h.frames.distinct
  have hbwd := hperm.symm.nodup h.frames.distinct
  simp only [List.nodup_cons, List.mem_cons, List.not_mem_nil, not_or, or_false, List.nodup_nil,
    not_false_eq_true, and_true] at hfwd hbwd
  refine ⟨?_, ?_, ?_, ?_, ?_, ?_, ?_, h.cr3.trans hroot.symm, by rw [h.vmm]⟩
  · intro i
    rw [hroot, h.ram]
    simp [hbwd]
  · intro i
    have hlast : (510 : Fin 512) ≠ 511 := by decide
    rw [h.ram]
    simp only [hfwd, hbwd, false_and, true_and, if_false, if_true]
    by_cases h510 : i = 510
    · rw [if_pos h510, if_neg (h510 ▸ hlast), if_pos h510]
    · rw [if_neg h510, if_neg h510]
  · intro i
    rw [h.ram]
    simp [hfwd, hbwd]
  · intro i
    rw [h.ram]
    simp only [hfwd, hbwd, false_and, true_and, if_false, if_true]
    by_cases hzero : i = 0
    · rw [if_neg (by rw [hzero]; decide), if_pos hzero, if_pos hzero]
    · have hpos : 1 ≤ i.val := Nat.one_le_iff_ne_zero.mpr fun hv => hzero (Fin.ext hv)
      simp only [hpos, hzero, true_and, if_false]
  · intro i
    rw [h.ram]
    simp [hfwd]
  · rw [hroot]
    exact hperm.symm.nodup h.frames.distinct
  · intro a ha
    rw [hroot] at ha
    have hmem := hperm.mem_iff.mp ha
    obtain ⟨hnull, hal, ht⟩ := h.frames.taken a hmem
    exact ⟨hnull, hal, by simpa [isDirectMapped] using h.direct a hmem, ht⟩

theorem init_tables (h : init m nxe sec = some (true, m')) :
    (∃ pdpt pd2 pd1 pt0, KernelTables m' sec pdpt pd2 pd1 pt0) ∧
      m'.pmm.bitmap.size = m.pmm.bitmap.size := by
  obtain ⟨_, pdpt, pd2, pd1, pt0, hrun⟩ := init_run h
  exact ⟨⟨pdpt, pd2, pd1, pt0, hrun.tables⟩, hrun.size⟩

variable {a : Nat}

theorem tablePointer_next (hal : a % 4096 = 0) (hlt : a < 0x80000000) (depth : Nat) :
    (tablePointer a).next depth = some a :=
  next_set hal (by omega) (by decide) fun _ => by decide

theorem isHuge_largePage (base i : Nat) : (largePage base i).isHuge = true :=
  (isHuge_set _ _).trans (by decide)

theorem isPresent_largePage (base i : Nat) : (largePage base i).isPresent = true :=
  (isPresent_set _ _).trans (by decide)

theorem largeTarget_largePage {base i vaddr : Nat} (hbase : base % 4096 = 0)
    (hlt : base + i * 2 * 1024 * 1024 < 0x80000000) :
    largeTarget vaddr (largePage base i) =
      (base + i * 2 * 1024 * 1024 + vaddr % 0x200000,
        present ||| writable ||| hugePage ||| noExecute) := by
  have hoff : vaddr &&& 0x1FFFFF = vaddr % 0x200000 := Nat.and_two_pow_sub_one_eq_mod vaddr 21
  have hpa : (largePage base i).physicalAddress = base + i * 2 * 1024 * 1024 :=
    physicalAddress_set _ (by omega) (by omega)
  have hflags : (largePage base i).flags = _ := flags_set _ _
  have hall : (present ||| writable ||| hugePage ||| noExecute) &&&
      all = present ||| writable ||| hugePage ||| noExecute := by decide
  rw [largeTarget, hpa, hoff, hflags, add64_eq (by omega), hall]

theorem physToVirt_eq {p : Nat} (hp : p < 0x80000000) : physToVirt p = 0xFFFFFFFF80000000 + p := by
  rw [physToVirt, add64_eq (by simp only [kernelVirtualBase]; omega), Nat.add_comm]

/-- Writable, or read-only because the page belongs to `.text` or `.rodata`. -/
def Protected (sec : Sections) (p : Nat) (flags : PageFlags) : Prop :=
  testFlag flags writable = true ∨
    (sec.textStart ≤ physToVirt p ∧ physToVirt p < sec.textEnd ∧ flags = present) ∨
    (sec.rodataStart ≤ physToVirt p ∧ physToVirt p < sec.rodataEnd ∧
      flags = present ||| noExecute)

theorem sectionFlags_spec (sec : Sections) {f : Nat} (hf : f < 512) :
    Protected sec (f * 4096) (sectionFlags sec f) ∧
      sectionFlags sec f &&& all = sectionFlags sec f ∧
      (sectionFlags sec f).getLsbD 0 = true ∧ (sectionFlags sec f).getLsbD 7 = false := by
  have hva : kernelVirtualBase + f * 4096 = physToVirt (f * 4096) := (physToVirt_eq (by omega)).symm
  have hwritable : ∀ {g : PageFlags}, testFlag g writable = true → Protected sec (f * 4096) g :=
    fun h => Or.inl h
  simp only [sectionFlags, hva]
  split
  · rename_i htext
    exact ⟨Or.inr (Or.inl ⟨htext.1, htext.2, rfl⟩), by decide, by decide, by decide⟩
  split
  · rename_i hrodata
    exact ⟨Or.inr (Or.inr ⟨hrodata.1, hrodata.2, rfl⟩), by decide, by decide, by decide⟩
  all_goals
    repeat' split
    all_goals exact ⟨hwritable (by decide), by decide, by decide, by decide⟩

namespace KernelTables
variable {m : Machine} {sec : Sections} {pdpt pd2 pd1 pt0 : Nat}
variable (k : KernelTables m sec pdpt pd2 pd1 pt0)
include k

theorem pointer_next (ha : a ∈ [m.vmm.rootPml4Paddr, pdpt, pd2, pd1, pt0]) (depth : Nat) :
    (tablePointer a).next depth = some a :=
  tablePointer_next (k.frames a ha).2.1 (k.frames a ha).2.2.1 depth

theorem pml4_next (i : Fin 512) :
    (m.ram m.vmm.rootPml4Paddr i).next 0 = if i = 511 then some pdpt else none := by
  rw [k.pml4Entry i]
  split
  · exact k.pointer_next (by simp) _
  · exact next_clear _

theorem pdpt_next (i : Fin 512) :
    (m.ram pdpt i).next 1 = if i = 511 then some pd2 else if i = 510 then some pd1 else none := by
  rw [k.pdptEntry i]
  split
  · exact k.pointer_next (by simp) _
  · split
    · exact k.pointer_next (by simp) _
    · exact next_clear _

theorem pd2_next (i : Fin 512) : (m.ram pd2 i).next 2 = none := by
  rw [k.pd2Entry i]
  exact next_of_huge (isHuge_largePage _ _)

theorem pd1_next (i : Fin 512) : (m.ram pd1 i).next 2 = if i = 0 then some pt0 else none := by
  rw [k.pd1Entry i]
  split
  · exact k.pointer_next (by simp) _
  · split
    · exact next_of_huge (isHuge_largePage _ _)
    · exact next_clear _

variable {p : List (Fin 512)} {l : Nat}

section

variable (hlen : p.length ≤ 3)
include hlen

section

variable (h : follow next m.ram m.vmm.rootPml4Paddr p = some l)
include h

theorem follow_cases :
    (p = [] ∧ l = m.vmm.rootPml4Paddr) ∨ (p = [511] ∧ l = pdpt) ∨ (p = [511, 511] ∧ l = pd2) ∨
      (p = [511, 510] ∧ l = pd1) ∨ (p = [511, 510, 0] ∧ l = pt0) := by
  cases p with
  | nil => exact Or.inl ⟨rfl, (Option.some.inj h).symm⟩
  | cons i₄ p =>
    rw [follow_cons, k.pml4_next] at h
    split at h
    · rename_i h₄
      subst h₄
      cases p with
      | nil => exact Or.inr (Or.inl ⟨rfl, (Option.some.inj h).symm⟩)
      | cons i₃ p =>
        rw [Option.bind_some, followFrom_cons, k.pdpt_next] at h
        split at h
        · rename_i h₃
          subst h₃
          cases p with
          | nil => exact Or.inr (Or.inr (Or.inl ⟨rfl, (Option.some.inj h).symm⟩))
          | cons i₂ p =>
            rw [Option.bind_some, followFrom_cons, k.pd2_next] at h
            cases h
        · split at h
          · rename_i h₃
            subst h₃
            cases p with
            | nil => exact Or.inr (Or.inr (Or.inr (Or.inl ⟨rfl, (Option.some.inj h).symm⟩)))
            | cons i₂ p =>
              rw [Option.bind_some, followFrom_cons, k.pd1_next] at h
              split at h
              · rename_i h₂
                subst h₂
                cases p with
                | nil => exact Or.inr (Or.inr (Or.inr (Or.inr ⟨rfl, (Option.some.inj h).symm⟩)))
                | cons i₁ p => simp only [List.length_cons] at hlen; omega
              · cases h
          · cases h
    · cases h

theorem follow_mem :
    (p, l) ∈ [([], m.vmm.rootPml4Paddr), ([511], pdpt), ([511, 511], pd2), ([511, 510], pd1),
      ([511, 510, 0], pt0)] := by
  rcases k.follow_cases hlen h with ⟨rfl, rfl⟩ | ⟨rfl, rfl⟩ | ⟨rfl, rfl⟩ | ⟨rfl, rfl⟩ | ⟨rfl, rfl⟩
  all_goals simp

omit h in
theorem follow_inj {p' : List (Fin 512)} (hlen' : p'.length ≤ 3)
    (h : follow next m.ram m.vmm.rootPml4Paddr p = some l)
    (h' : follow next m.ram m.vmm.rootPml4Paddr p' = some l) : p = p' := by
  have hmem := k.follow_mem hlen h
  have hmem' := k.follow_mem hlen' h'
  exact congrArg Prod.fst
    (List.inj_on_of_nodup_map (f := Prod.snd) (by exact k.distinct) hmem hmem' rfl)

theorem frame_of_follow :
    l ≠ 0 ∧ l % 4096 = 0 ∧ l < 0x80000000 ∧ m.taken l = true :=
  k.frames l (List.mem_map_of_mem (f := Prod.snd) (k.follow_mem hlen h))

end

end

end KernelTables

variable {q : Nat}

theorem window_indices (hq : q < 0x80000000) :
    pml4Index (0xFFFFFFFF80000000 + q) = 511 ∧
      (pdptIndex (0xFFFFFFFF80000000 + q)).val = 510 + q / 0x40000000 ∧
      (pdIndex (0xFFFFFFFF80000000 + q)).val = q / 0x200000 % 512 ∧
      (ptIndex (0xFFFFFFFF80000000 + q)).val = q / 4096 % 512 := by
  refine ⟨Fin.ext ?_, ?_, ?_, ?_⟩
  · rw [pml4Index, tableIndex_val]
    omega
  · rw [pdptIndex, tableIndex_val]
    omega
  · rw [pdIndex, tableIndex_val]
    omega
  · rw [ptIndex, tableIndex_val]
    omega

namespace KernelTables
variable {m : Machine} {sec : Sections} {pdpt pd2 pd1 pt0 : Nat}
variable (k : KernelTables m sec pdpt pd2 pd1 pt0)
include k

theorem walk_upper (hlo : 0x40000000 ≤ q) (hq : q < 0x80000000) :
    walk m.ram m.vmm.rootPml4Paddr (0xFFFFFFFF80000000 + q) =
      some (q, present ||| writable ||| hugePage ||| noExecute) := by
  obtain ⟨h₄, h₃, h₂, _⟩ := window_indices hq
  have h₃' : pdptIndex (0xFFFFFFFF80000000 + q) = 511 := Fin.ext (by rw [h₃]; change _ = 511; omega)
  have hpd : follow next m.ram m.vmm.rootPml4Paddr (pdPath (0xFFFFFFFF80000000 + q)) =
      some pd2 := by
    rw [pdPath, h₄, h₃', follow_cons, k.pml4_next, if_pos rfl, Option.bind_some, followFrom_cons,
      k.pdpt_next, if_pos rfl]
    rfl
  rw [walk_eq_walkPd, hpd, Option.bind_some]
  simp only [walkPd, k.pd2Entry, isPresent_largePage, isHuge_largePage, Bool.not_true, if_true]
  rw [if_neg Bool.false_ne_true, largeTarget_largePage (by decide) (by omega), h₂]
  congr 2
  omega

theorem follow_pd1 (hq : q < 0x40000000) :
    follow next m.ram m.vmm.rootPml4Paddr (pdPath (0xFFFFFFFF80000000 + q)) = some pd1 := by
  obtain ⟨h₄, h₃, _, _⟩ := window_indices (q := q) (by omega)
  have h₃' : pdptIndex (0xFFFFFFFF80000000 + q) = 510 := Fin.ext (by rw [h₃]; change _ = 510; omega)
  rw [pdPath, h₄, h₃', follow_cons, k.pml4_next, if_pos rfl, Option.bind_some, followFrom_cons,
    k.pdpt_next, if_neg (by decide), if_pos rfl]
  rfl

omit k in
theorem pdIndex_ne_zero (hlo : 0x200000 ≤ q) (hq : q < 0x40000000) :
    pdIndex (0xFFFFFFFF80000000 + q) ≠ 0 := by
  obtain ⟨_, _, h₂, _⟩ := window_indices (q := q) (by omega)
  intro heq
  have hval : (pdIndex (0xFFFFFFFF80000000 + q)).val = 0 := congrArg Fin.val heq
  omega

theorem walk_middle (hlo : 0x200000 ≤ q) (hq : q < 0x20000000) :
    walk m.ram m.vmm.rootPml4Paddr (0xFFFFFFFF80000000 + q) =
      some (q, present ||| writable ||| hugePage ||| noExecute) := by
  obtain ⟨_, _, h₂, _⟩ := window_indices (q := q) (by omega)
  have hne := pdIndex_ne_zero hlo (by omega)
  have hlt : (pdIndex (0xFFFFFFFF80000000 + q)).val < 256 := by omega
  rw [walk_eq_walkPd, k.follow_pd1 (by omega), Option.bind_some]
  simp only [walkPd, k.pd1Entry, if_neg hne, if_pos hlt, isPresent_largePage, isHuge_largePage,
    Bool.not_true, if_true]
  rw [if_neg Bool.false_ne_true, largeTarget_largePage (by decide) (by omega), h₂]
  congr 2
  omega

theorem walk_hole (hlo : 0x20000000 ≤ q) (hq : q < 0x40000000) :
    walk m.ram m.vmm.rootPml4Paddr (0xFFFFFFFF80000000 + q) = none := by
  obtain ⟨_, _, h₂, _⟩ := window_indices (q := q) (by omega)
  have hne := pdIndex_ne_zero (Nat.le_trans (by decide) hlo) hq
  have hge : ¬ (pdIndex (0xFFFFFFFF80000000 + q)).val < 256 := by omega
  rw [walk_eq_walkPd, k.follow_pd1 hq, Option.bind_some]
  simp only [walkPd, k.pd1Entry, if_neg hne, if_neg hge, isPresent_clear, Bool.not_false, if_true]

theorem walk_sections (hq : q < 0x200000) :
    walk m.ram m.vmm.rootPml4Paddr (0xFFFFFFFF80000000 + q) =
      some (q, sectionFlags sec (q / 4096)) := by
  obtain ⟨_, _, h₂, h₁⟩ := window_indices (q := q) (by omega)
  have hzero : pdIndex (0xFFFFFFFF80000000 + q) = 0 := Fin.ext (by rw [h₂]; change _ = 0; omega)
  have hpt : (ptIndex (0xFFFFFFFF80000000 + q)).val = q / 4096 := by omega
  obtain ⟨_, hall, hp, _⟩ := sectionFlags_spec sec (f := q / 4096) (by omega)
  obtain ⟨hpres, hhuge, hpa⟩ := isPresent_of_next (k.pointer_next (a := pt0) (by simp) 2)
  rw [walk_eq_walkPd, k.follow_pd1 (by omega), Option.bind_some]
  simp only [walkPd, k.pd1Entry, if_pos hzero, hpres, hhuge rfl, hpa, k.pt0Entry, hpt,
    isPresent_set, hp, Bool.not_true, if_false, Bool.false_eq_true]
  rw [smallTarget, physicalAddress_set _ (by omega) (by omega), flags_set, hall, pageOffset_eq,
    add64_eq (by omega)]
  congr 2
  omega

theorem activeRoot_eq : m.activeRoot = m.vmm.rootPml4Paddr := by
  obtain ⟨_, hal, hlt, _⟩ := k.frames m.vmm.rootPml4Paddr (by simp)
  rw [activeRoot, k.active, land_pageMask (by omega)]
  omega

theorem canAccess_iff (p : Nat) : m.canAccess p = true ↔ p < 0x80000000 ∧
    (walk m.ram m.vmm.rootPml4Paddr (physToVirt p)).map Prod.fst = some p := by
  have hroot : (m.vmm.rootPml4Paddr == 0) = false :=
    beq_false_of_ne (k.frames m.vmm.rootPml4Paddr (by simp)).1
  rw [canAccess, k.activeRoot_eq, hroot, Bool.false_or, Bool.and_eq_true, beq_iff_eq,
    isDirectMapped, decide_eq_true_eq]

theorem walk_page {p o : Nat} (hal : p % 4096 = 0) (hp : p < 0x80000000) (ho : o < 4096) :
    ((p < 0x20000000 ∨ 0x40000000 ≤ p) ∧ ∃ flags,
      walk m.ram m.vmm.rootPml4Paddr (physToVirt p + o) = some (p + o, flags) ∧
        Protected sec p flags) ∨
    (¬ (p < 0x20000000 ∨ 0x40000000 ≤ p) ∧ walk m.ram m.vmm.rootPml4Paddr (physToVirt p + o) =
      none) := by
  rw [physToVirt_eq hp, Nat.add_assoc]
  by_cases hupper : 0x40000000 ≤ p
  · exact Or.inl ⟨Or.inr hupper, _, k.walk_upper (by omega) (by omega), Or.inl (by decide)⟩
  by_cases hhole : 0x20000000 ≤ p
  · exact Or.inr ⟨by omega, k.walk_hole (by omega) (by omega)⟩
  by_cases hmiddle : 0x200000 ≤ p
  · exact Or.inl ⟨Or.inl (by omega), _, k.walk_middle (by omega) (by omega), Or.inl (by decide)⟩
  · refine Or.inl ⟨Or.inl (by omega), _, k.walk_sections (by omega), ?_⟩
    have hspec := (sectionFlags_spec sec (f := (p + o) / 4096) (by omega)).1
    rwa [show (p + o) / 4096 * 4096 = p by omega] at hspec

theorem canAccess_page {p : Nat} (hal : p % 4096 = 0) (hp : p < 0x80000000) :
    m.canAccess p = true ↔ (p < 0x20000000 ∨ 0x40000000 ≤ p) := by
  rw [k.canAccess_iff]
  rcases k.walk_page (o := 0) hal hp (by decide) with ⟨hin, flags, hwalk, _⟩ | ⟨hout, hnone⟩
  · rw [Nat.add_zero] at hwalk
    simp [hwalk, hp, hin]
  · rw [Nat.add_zero] at hnone
    simp only [hnone, Option.map_none, reduceCtorEq, and_false, false_iff]
    exact hout

end KernelTables

/-- After `init`, the tables map a direct-mapped frame to itself, and the zero fill of `alloc_page`
reaches it, exactly outside the second 512 MiB. -/
theorem directMap_iff {m m' : Machine} {nxe : Bool} {sec : Sections}
    (hinit : VirtualMemoryManager.init m nxe sec = some (true, m')) {p : Nat}
    (hal : PhysicalAddress.isPageAligned p = true) (hp : PhysicalAddress.isDirectMapped p = true) :
    ((∀ o < 4096, ∃ flags, walk m'.ram m'.vmm.rootPml4Paddr (physToVirt p + o) =
        some (p + o, flags) ∧ Protected sec p flags) ↔ (p < 0x20000000 ∨ 0x40000000 ≤ p)) ∧
      (m'.canAccess p = true ↔ (p < 0x20000000 ∨ 0x40000000 ≤ p)) := by
  obtain ⟨⟨pdpt, pd2, pd1, pt0, k⟩, _⟩ := init_tables hinit
  rw [PhysicalAddress.isPageAligned_iff] at hal
  rw [PhysicalAddress.isDirectMapped, decide_eq_true_eq] at hp
  have hpage := fun {o} (ho : o < 4096) => k.walk_page hal hp ho
  constructor
  · constructor
    · intro h
      obtain ⟨flags, hwalk, _⟩ := h 0 (by decide)
      rcases hpage (o := 0) (by decide) with ⟨hin, _⟩ | ⟨_, hnone⟩
      · exact hin
      · rw [hwalk] at hnone
        cases hnone
    · intro hin o ho
      rcases hpage ho with ⟨_, hwalk⟩ | ⟨hout, _⟩
      · exact hwalk
      · exact absurd hin hout
  · exact k.canAccess_page hal hp

def sampleSections : Sections where
  textStart := 0xFFFFFFFF80100000
  textEnd := 0xFFFFFFFF80140000
  rodataStart := 0xFFFFFFFF80140000
  rodataEnd := 0xFFFFFFFF80160000
  dataStart := 0xFFFFFFFF80160000
  dataEnd := 0xFFFFFFFF80180000
  bssStart := 0xFFFFFFFF80180000
  bssEnd := 0xFFFFFFFF801A0000

/-- The sample boot's machine: empty memory and the bootstrap tables. -/
def sampleMachine : Machine := ⟨samplePmm, fun _ _ => .clear, ⟨0, false⟩, 0⟩

@[irreducible] def sampleKernel : Machine :=
  ((init sampleMachine true sampleSections).getD (true, sampleMachine)).2

theorem completed {x : Option (α × Machine)} {a : α} (m : Machine) (h : x.map Prod.fst = some a) :
    x = some (a, (x.getD (a, m)).2) := by
  cases x with
  | none => cases h
  | some result =>
    rw [Option.map_some, Option.some.injEq] at h
    rw [Option.getD_some, ← h]

theorem sampleKernel_init : init sampleMachine true sampleSections = some (true, sampleKernel) := by
  have hok : (init sampleMachine true sampleSections).map Prod.fst = some true := by
    decide +kernel
  rw [sampleKernel]
  exact completed sampleMachine hok

theorem sampleKernel_maps_frame : sampleKernel.canAccess 0x103000 = true ∧
    ∃ flags, walk sampleKernel.ram sampleKernel.vmm.rootPml4Paddr (physToVirt 0x103000 + 0xFFF) =
      some (0x103FFF, flags) ∧ Protected sampleSections 0x103000 flags := by
  have h := directMap_iff sampleKernel_init (p := 0x103000) (by decide) (by decide)
  exact ⟨h.2.mpr (by decide), h.1.mpr (by decide) 0xFFF (by decide)⟩

theorem sampleKernel_hole :
    VirtualMemoryManager.init sampleMachine true sampleSections = some (true, sampleKernel) ∧
      PhysicalAddress.isPageAligned 0x20000000 = true ∧
      PhysicalAddress.isDirectMapped 0x20000000 = true ∧
      walk sampleKernel.ram sampleKernel.vmm.rootPml4Paddr (physToVirt 0x20000000) = none ∧
      sampleKernel.canAccess 0x20000000 = false :=
  ⟨sampleKernel_init, by decide, by decide, by decide +kernel, by decide +kernel⟩

end LlamaOS.Memory
