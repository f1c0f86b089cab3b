import LlamaOS.Memory.Mapping

/-!
# Creating address spaces

A new space shares the kernel half with the kernel root and has an empty user half, so
every table below the new root is a table of the kernel root.
-/

namespace LlamaOS.Memory
open RadixForest VirtualAddress PageTableEntry VirtualMemoryManager Machine

namespace System
variable {s : System}

/-- A new top-level table: an empty user half and a copy of the kernel half. -/
structure Creates (s : System) (root : Nat) (m : Machine) : Prop where
  fresh : s.machine.Fresh root
  alloc : s.machine.pmm.allocPage = (root, m.pmm)
  access : s.machine.canAccess root = true
  vmm : m.vmm = s.machine.vmm
  cr3 : m.cr3 = s.machine.cr3
  size : m.pmm.bitmap.size = s.machine.pmm.bitmap.size
  keeps : ∀ b, s.machine.taken b = true → m.taken b = true
  taken : m.taken root = true
  others : ∀ t, t ≠ root → m.ram t = s.ram t
  upper : ∀ i, Upper i → m.ram root i = s.ram s.kernelRoot i
  lower : ∀ i, ¬ Upper i → m.ram root i = .clear

theorem create_cases (hs : s.Inv) {root : Nat} {m : Machine}
    (h : createUserAddressSpace s.machine = some (root, m)) :
    (root = 0 ∧ Grows s m) ∨ (root ≠ 0 ∧ Creates s root m) := by
  have hroot : s.machine.vmm.rootPml4Paddr = s.kernelRoot := by rw [hs.vmm]
  unfold createUserAddressSpace at h
  split at h
  · cases h
    exact Or.inl ⟨rfl, Grows.refl hs⟩
  rw [hroot] at h
  obtain ⟨⟨pml4, m₁⟩, halloc, h⟩ := bind_eq_some.mp h
  have hA := allocPage_allocates halloc
  dsimp only at h
  split at h
  · cases h
    exact Or.inl ⟨rfl, hs.alloc hA⟩
  rename_i hpml4
  obtain ⟨m₂, hfill, h⟩ := bind_eq_some.mp h
  obtain ⟨_, _, h⟩ := bind_eq_some.mp h
  obtain ⟨m₃, hcopy, h⟩ := bind_eq_some.mp h
  cases h
  obtain ⟨hacc, p₂, r₂⟩ := of_fill hfill
  obtain ⟨_, p₃, r₃⟩ := of_fill hcopy
  obtain ⟨v₂, c₂⟩ := fill_registers hfill
  obtain ⟨v₃, c₃⟩ := fill_registers hcopy
  have hpmm : m.pmm = m₁.pmm := p₃.trans p₂
  have hbits : m.taken = m₁.taken := by
    funext b
    rw [taken, taken, hpmm]
  refine Or.inr ⟨hpml4, hA.fresh hpml4, hpmm ▸ allocPage_pmm halloc,
    (hs.alloc hA).canAccess_eq hs _ ▸ hacc, v₃.trans (v₂.trans hA.vmm),
    c₃.trans (c₂.trans hA.cr3), hpmm ▸ hA.size, hbits ▸ hA.keeps, hbits ▸ hA.taken hpml4,
      ?_, ?_, ?_⟩
  · intro t ht
    funext i
    rw [r₃, if_neg (fun hat => ht hat.1), r₂, if_neg (fun hat => ht hat.1),
      hA.unchanged t (Or.inr ht)]
  · intro i hi
    rw [r₃, if_pos ⟨rfl, hi, i.isLt⟩, r₂, if_neg (fun hat => Nat.not_le_of_lt hat.2.2 hi),
      hs.alloc_ram hA (occupied_root (Or.inl rfl))]
  · intro i hi
    rw [r₃, if_neg (fun hat => hi hat.2.1), r₂, if_pos ⟨rfl, Nat.zero_le _, Nat.lt_of_not_le hi⟩]

section Created
variable {root : Nat} {m : Machine}

theorem isRoot_withSpace {r : Nat} (hr : s.IsRoot r) : (s.withSpace root m).IsRoot r := by
  rcases hr with hk | hmem
  · exact Or.inl hk
  · exact Or.inr (Finset.mem_insert_of_mem hmem)

theorem tracked_of_withSpace {r : Nat} {p : List (Fin 512)} (ht : (s.withSpace root m).Tracked r p)
    (hr : r ≠ root) : s.Tracked r p := by
  rcases ht with ⟨hr' | hr', hlen⟩ | ⟨hr', hlen⟩
  · exact Or.inl ⟨Or.inl hr', hlen⟩
  · exact Or.inl ⟨Or.inr (Finset.mem_of_mem_insert_of_ne hr' hr), hlen⟩
  · exact Or.inr ⟨Finset.mem_of_mem_insert_of_ne hr' hr, hlen⟩

theorem tracked_shared {i : Fin 512} {q : List (Fin 512)}
    (ht : (s.withSpace root m).Tracked root (i :: q)) (hi : Upper i) :
    s.Tracked s.kernelRoot (i :: q) := by
  rcases ht with ⟨_, hlen⟩ | ⟨_, _, j, t, hpath, hj⟩
  · exact tracked_of_root (Or.inl rfl) hlen
  · cases hpath
    exact absurd hi hj

variable (hs : s.Inv) (h : Creates s root m)
include hs h

theorem Creates.ram_eq {r l : Nat} {p : List (Fin 512)} (hl : s.Occupied r p l) :
    m.ram l = s.ram l :=
  h.others l ((hs.owned hl).ne_of_clear h.fresh.clear)

theorem Creates.follow_eq (r : Nat) (p : List (Fin 512)) (hp : s.Tracked r p) :
    follow next m.ram r p = follow next s.ram r p := by
  apply follow_eq_of_agree s.prefixClosed _ hp
  intro r' q i l ht hl
  rw [h.ram_eq hs ⟨s.prefixClosed ht, hl⟩]

/-- A position of the new system is one of the old system, or the new root itself. -/
theorem Creates.occupied_cases {r l : Nat} {p : List (Fin 512)}
    (hl : (s.withSpace root m).Occupied r p l) :
    (r ≠ root ∧ s.Occupied r p l) ∨ (r = root ∧ p = [] ∧ l = root) ∨
      (r = root ∧ ¬ Lower p ∧ s.Occupied s.kernelRoot p l) := by
  by_cases hr : r = root
  · subst hr
    right
    cases p with
    | nil => exact Or.inl ⟨rfl, rfl, (Option.some.inj hl.follows).symm⟩
    | cons i q =>
      obtain ⟨hi, hk⟩ := Occupies.of_newRoot (S := Upper) (h.follow_eq hs)
        (fun i q => tracked_shared) (fun i hi => by rw [h.upper i hi])
        (fun i hi => by rw [h.lower i hi]; exact next_clear 0)
        (fun i _ => by rw [h.ram_eq hs (occupied_root (Or.inl rfl))]) hl
      refine Or.inr ⟨rfl, ?_, hk⟩
      rintro ⟨j, t, hpath, hj⟩
      cases hpath
      exact hj hi
  · exact Or.inl ⟨hr, Occupies.of_oldRoot (fun r p => tracked_of_withSpace) (h.follow_eq hs) hr hl⟩

theorem Creates.inv : (s.withSpace root m).Inv := by
  have hcases := @Creates.occupied_cases s root m hs h
  have hkernel : m.ram s.kernelRoot = s.ram s.kernelRoot := h.ram_eq hs (occupied_root (Or.inl rfl))
  have hfree := hs.not_occupied_of_clear h.fresh.clear
  have hroot : s.kernelRoot ≠ root := fun heq => hfree _ _ (heq ▸ occupied_root (Or.inl rfl))
  have hactive := activeRoot_congr h.cr3
  have hbelow : root < 2 ^ 52 := by
    have hin := h.fresh.inside
    have hsize := hs.size
    omega
  refine ⟨h.vmm.trans hs.vmm, ?_, ?_, h.size ▸ hs.size, ?_, ?_, ?_, ?_, ?_, ?_, ?_⟩
  · change (s.withSpace root m).IsRoot m.activeRoot
    rw [hactive]
    exact isRoot_withSpace hs.active
  · intro hmem
    exact hs.kernel (Finset.mem_of_mem_insert_of_ne hmem hroot)
  · change Separated next (s.withSpace root m).Tracked Upper m.ram
    exact Separated.addRoot (fun r p => tracked_of_withSpace) (h.follow_eq hs)
      (fun i q => tracked_shared) (fun i hi => by rw [h.upper i hi])
      (fun i hi => by rw [h.lower i hi]; exact next_clear 0) hs.separated hfree
      (fun i _ => by rw [hkernel])
  · intro r p l hl
    rcases hcases hl with ⟨_, hold⟩ | ⟨_, _, rfl⟩ | ⟨_, _, hold⟩
    · exact (hs.owned hold).of_taken (h.keeps l (hs.owned hold).taken)
    · exact ⟨h.fresh.nonnull, h.fresh.aligned, hbelow, h.taken⟩
    · exact (hs.owned hold).of_taken (h.keeps l (hs.owned hold).taken)
  · intro a ha
    exact (hs.heldOwned ha).of_taken (h.keeps a (hs.heldOwned ha).taken)
  · intro a ha r p hl
    rcases hcases hl with ⟨_, hold⟩ | ⟨_, _, rfl⟩ | ⟨_, _, hold⟩
    · exact hs.heldFree ha r p hold
    · exact (hs.heldOwned ha).ne_of_clear h.fresh.clear rfl
    · exact hs.heldFree ha _ p hold
  · intro u i hu hi hinh
    change ∃ l, (m.ram u i).next 0 = some l ∧ (m.ram s.kernelRoot i).next 0 = some l
    rw [hkernel]
    by_cases hu' : u = root
    · subst hu'
      have hpresent : (s.ram s.kernelRoot i).isPresent = true := (if_pos rfl).symm.trans hinh
      have hnext : (s.ram s.kernelRoot i).next 0 = some _ := next_of_present (by decide) hpresent
      rw [h.upper i hi]
      exact ⟨_, hnext, hnext⟩
    · have hold : u ∈ s.spaces := Finset.mem_of_mem_insert_of_ne hu hu'
      rw [h.ram_eq hs (occupied_root (Or.inr hold))]
      exact hs.copied hold hi ((if_neg hu').symm.trans hinh)
  · change ∃ l, (m.ram s.kernelRoot 511).next 0 = some l
    rw [hkernel]
    exact hs.top
  · intro u hu
    change (if u = root then (s.ram s.kernelRoot 511).isPresent else s.inherited u 511) = true
    by_cases hu' : u = root
    · obtain ⟨l, hl⟩ := hs.top
      rw [if_pos hu']
      exact (isPresent_of_next hl).1
    · rw [if_neg hu']
      exact hs.topInherited (Finset.mem_of_mem_insert_of_ne hu hu')

theorem Creates.walk_eq {r : Nat} (hr : s.IsRoot r) (vaddr : Nat) :
    walk m.ram r vaddr = walk s.ram r vaddr := by
  have hleaves : SameLeaves s.ram m.ram r := by
    apply sameLeaves_of_tables
    intro p l hlen hl
    exact h.ram_eq hs ⟨tracked_of_root hr hlen, hl⟩
  exact hleaves.walk_eq vaddr

theorem Creates.canAccess_eq (a : Nat) : m.canAccess a = s.machine.canAccess a := by
  have hactive := activeRoot_congr h.cr3
  rw [canAccess, canAccess, h.vmm, hactive, h.walk_eq hs hs.active]

end Created

end System

end LlamaOS.Memory
