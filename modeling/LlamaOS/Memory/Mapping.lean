import LlamaOS.Memory.Descent

/-!
# Mapping and unmapping a page

A successful `map_page_in_table` ends by writing one leaf, and `unmap_page` clears one.
A leaf write changes the translation of one page, in the roots that share its table.
-/

namespace LlamaOS.Memory
open RadixForest VirtualAddress PageTableEntry VirtualMemoryManager PageFlags

variable {m : Machine} {vaddr : Nat} {status : VmmStatus}

theorem unmapPage_cases {m' : Machine} (h : unmapPage m vaddr = some (status, m')) :
    m' = m ∨ ∃ pt, follow next m.ram m.vmm.rootPml4Paddr (ptPath vaddr) = some pt ∧
      m' = m.write pt (ptIndex vaddr) .clear := by
  unfold unmapPage at h
  split at h
  · cases h
    exact Or.inl rfl
  split at h
  · cases h
    exact Or.inl rfl
  split at h
  · cases h
    exact Or.inl rfl
  dsimp only at h
  obtain ⟨_, _, h⟩ := bind_eq_some.mp h
  split at h
  · cases h
    exact Or.inl rfl
  rename_i hp₄
  rw [Bool.not_eq_true, Bool.not_eq_false'] at hp₄
  have hf₄ := (System.follow_one m.ram m.vmm.rootPml4Paddr (pml4Index vaddr)).trans
    (next_of_present (by decide) hp₄)
  obtain ⟨_, _, h⟩ := bind_eq_some.mp h
  split at h
  · cases h
    exact Or.inl rfl
  rename_i hp₃
  rw [Bool.not_eq_true, Bool.not_eq_false'] at hp₃
  have hf₃ := (follow_snoc hf₄ (pdptIndex vaddr)).trans (next_of_present (by simp) hp₃)
  obtain ⟨_, _, h⟩ := bind_eq_some.mp h
  split at h
  · cases h
    exact Or.inl rfl
  rename_i hp₂
  rw [Bool.not_eq_true, Bool.not_eq_false'] at hp₂
  split at h
  · cases h
    exact Or.inl rfl
  rename_i hh₂
  rw [Bool.not_eq_true] at hh₂
  have hf₂ := (follow_snoc hf₃ (pdIndex vaddr)).trans (next_eq_some hp₂ fun _ => hh₂)
  obtain ⟨_, _, h⟩ := bind_eq_some.mp h
  split at h
  · cases h
    exact Or.inl rfl
  · cases h
    exact Or.inr ⟨_, hf₂, rfl⟩

namespace System
variable {s : System}

section Leaf
variable (hs : s.Inv) {r : Nat} {p : List (Fin 512)} {l : Nat} (hl : s.Occupied r p l)
variable (hlen : p.length = 3) (i : Fin 512) (e : PageTableEntry)
include hs hl hlen

variable {r' : Nat} {q : List (Fin 512)}

theorem follow_writeLeaf (hr' : s.IsRoot r') (hq : q.length ≤ 3) :
    follow next (write s.ram l i e) r' q = follow next s.ram r' q := by
  apply follow_write_off s.prefixClosed hs.separated hl i e (tracked_of_root hr' hq)
  intro t ht
  rw [ht, List.length_append, List.length_cons] at hq
  omega

theorem leafAt_writeLeaf (j : Fin 512) (hr' : s.IsRoot r') (hq : q.length = 2 ∨ q.length = 3) :
    leafAt (write s.ram l i e) r' q j = leafAt s.ram r' q j ∨
      (q = p ∧ j = i ∧ follow next s.ram r' p = some l ∧
        leafAt (write s.ram l i e) r' q j = if e.isPresent then some e else none) := by
  have hsame := follow_writeLeaf hs hl hlen i e hr' (q := q) (by omega)
  rcases entryAt_write hs.separated hl i e (tracked_of_root hr' (by omega)) j hsame with
    heq | ⟨hqp, hji, hf, heq⟩
  · left
    rw [leafAt, leafAt, heq]
  · refine Or.inr ⟨hqp, hji, hf, ?_⟩
    rw [leafAt, heq, Option.filter_some]
    simp [isLeaf, hqp, hlen]

theorem Inv.writeLeaf (hother : ¬ (r ∈ s.spaces ∧ Lower p)) :
    (s.withMachine (s.machine.write l i e)).Inv := by
  apply hs.writeEntry
  intro r' q hq
  apply follow_write_off s.prefixClosed hs.separated hl i e hq
  intro t hpath hf
  rcases hq with ⟨_, hle⟩ | ⟨hr', _, j, t', hpath', hj⟩
  · rw [hpath, List.length_append, List.length_cons] at hle
    omega
  cases p with
  | nil => cases hlen
  | cons k p =>
    rw [hpath, List.cons_append, List.cons.injEq] at hpath'
    have hlower : Lower (k :: p) := ⟨k, p, rfl, hpath'.1 ▸ hj⟩
    have hocc : s.Occupied r' (k :: p) l := ⟨tracked_of_root (Or.inr hr') (by omega), hf⟩
    obtain ⟨rfl, _⟩ := hs.root_eq hocc hl (Or.inr hlower)
    exact hother ⟨hr', hlower⟩

end Leaf

theorem ptPath_length (vaddr : Nat) : (ptPath vaddr).length = 3 := rfl

theorem pdPath_length (vaddr : Nat) : (pdPath vaddr).length = 2 := rfl

theorem lower_ptPath (vaddr : Nat) : Lower (ptPath vaddr) ↔ ¬ Upper (pml4Index vaddr) := by
  constructor
  · rintro ⟨i, q, hpath, hi⟩
    cases hpath
    exact hi
  · intro h
    exact ⟨_, _, rfl, h⟩

/-- The leaf that `map_page_in_table` writes is present, with whatever other flags. -/
theorem isPresent_leaf (paddr : Nat) (flags : PageFlags) :
    (set paddr (flags ||| present)).isPresent = true := by
  rw [isPresent_set, BitVec.getLsbD_or, Bool.or_eq_true]
  right
  decide

namespace MapsInto
variable {root vaddr paddr pt : Nat} {m : Machine} (h : MapsInto s root vaddr paddr m pt)
include h

theorem follow_pt : follow next m.ram root (ptPath vaddr) = some pt := by
  obtain ⟨_, _, htables⟩ := h.tables
  exact htables.ptAt

theorem occupied (hroot : s.IsRoot root) : (s.withMachine m).Occupied root (ptPath vaddr) pt :=
  ⟨tracked_of_root hroot (Nat.le_refl 3), h.follow_pt⟩

theorem inv_other (hroot : s.IsRoot root) (hother : ¬ s.IsUserPage root vaddr) (flags : PageFlags) :
    (s.withMachine (m.write pt (ptIndex vaddr) (set paddr (flags ||| present)))).Inv := by
  apply h.grows.inv.writeLeaf (h.occupied hroot) rfl
  rw [lower_ptPath]
  exact hother

/-- The frame of the page is linked into its page table. -/
theorem leafLink (hroot : s.IsRoot root) (hheld : paddr ∈ s.held) (flags : PageFlags) :
    Link (s.withMachine m) root (ptPath vaddr) pt (ptIndex vaddr)
      (set paddr (flags ||| present)) paddr := by
  have hown : Owned m paddr := h.grows.inv.heldOwned hheld
  refine ⟨h.occupied hroot, h.absent, ?_, h.grows.inv.heldFree hheld,
    fun hshort => absurd hshort ?_⟩
  · rw [ptPath_length, next_of_present (by decide) (isPresent_leaf paddr flags),
      physicalAddress_set _ hown.aligned hown.below]
  · rw [ptPath_length]
    decide

theorem inv_user (huser : s.IsUserPage root vaddr) (hheld : paddr ∈ s.held) (flags : PageFlags) :
    Inv { s with
      machine := m.write pt (ptIndex vaddr) (set paddr (flags ||| present))
      held := s.held.erase paddr } := by
  have hlink := h.leafLink (Or.inr huser.1) hheld flags
  exact (h.grows.inv.eraseHeld paddr).link { hlink with } (h.grows.inv.heldOwned hheld)
    (Finset.notMem_erase paddr s.held)

end MapsInto

theorem unmap_cases (hs : s.Inv) (h : unmapPage s.machine vaddr = some (status, m)) :
    m = s.machine ∨ ∃ pt, follow next s.ram s.kernelRoot (ptPath vaddr) = some pt ∧
      m = s.machine.write pt (ptIndex vaddr) .clear := by
  have hroot : s.machine.vmm.rootPml4Paddr = s.kernelRoot := by rw [hs.vmm]
  exact hroot ▸ unmapPage_cases h

theorem inv_unmap (hs : s.Inv) (h : unmapPage s.machine vaddr = some (status, m)) :
    (s.withMachine m).Inv := by
  rcases unmap_cases hs h with rfl | ⟨pt, hpt, rfl⟩
  · exact hs
  · have hocc : s.Occupied s.kernelRoot (ptPath vaddr) pt :=
      ⟨tracked_of_root (Or.inl rfl) (Nat.le_refl 3), hpt⟩
    exact hs.writeLeaf hocc rfl _ _ (fun hmem => hs.kernel hmem.1)

theorem unmapPage_present {k pdpt pd pt : Nat} (hvmm : m.vmm = ⟨k, true⟩)
    (hcanon : isCanonical vaddr = true) (hal : vaddr % 4096 = 0)
    (ht : TablesAbove m k vaddr pdpt pd pt) (hp : (m.ram pt (ptIndex vaddr)).isPresent = true) :
    unmapPage m vaddr = some (.success, m.write pt (ptIndex vaddr) .clear) := by
  obtain ⟨hp₄, _, ha₄⟩ :=
    isPresent_of_next ((follow_one m.ram k (pml4Index vaddr)).symm.trans ht.pdptAt)
  obtain ⟨hp₃, _, ha₃⟩ :=
    isPresent_of_next ((follow_snoc ht.pdptAt (pdptIndex vaddr)).symm.trans ht.pdAt)
  obtain ⟨hp₂, hh₂, ha₂⟩ :=
    isPresent_of_next ((follow_snoc ht.pdAt (pdIndex vaddr)).symm.trans ht.ptAt)
  have hacc := ht.access
  simp only [List.forall_mem_cons] at hacc
  obtain ⟨c₀, c₁, c₂, c₃, _⟩ := hacc
  have hal' := (isPageAligned_iff vaddr).mpr hal
  simp [unmapPage, hvmm, hcanon, hal', c₀, hp₄, ha₄, c₁, hp₃, ha₃, c₂, hp₂, hh₂ rfl, ha₂, c₃, hp]

end System

end LlamaOS.Memory
