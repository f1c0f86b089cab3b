import LlamaOS.Memory.Teardown

/-!
# The invariant of every run

Every operation keeps the invariant, so it holds in every reachable state. The kernel
half of a user space is then the kernel's own, for every slot that was present in the
kernel root when the space was created.
-/

namespace LlamaOS.Memory
open RadixForest VirtualAddress PageTableEntry VirtualMemoryManager PageFlags Machine

namespace System
variable {s s' : System}

theorem Inv.activate (hs : s.Inv) {root : Nat} (hroot : s.IsRoot root) :
    (s.withMachine { s.machine with cr3 := root }).Inv := by
  have hown := hs.owned (occupied_root hroot)
  have hal := hown.aligned
  have hlt := hown.below
  have hactive : root &&& (2 ^ 64 - pageSize) = root := by
    rw [land_pageMask (by omega)]
    omega
  refine hs.of_same (m := { s.machine with cr3 := root }) rfl ?_ rfl (fun a => hs.taken_of_used)
    (fun _ _ _ => rfl)
  change s.IsRoot (root &&& (2 ^ 64 - pageSize))
  rw [hactive]
  exact hroot

variable {paddr : Nat}

theorem Inv.freeFrame (hs : s.Inv) (hheld : paddr ∈ s.held) :
    Inv { s with machine := s.machine.freePage paddr, held := s.held.erase paddr } := by
  have hpaddr := hs.heldOwned hheld
  have hs' := hs.eraseHeld paddr
  refine hs'.of_same (m := s.machine.freePage paddr) rfl hs.active (s.machine.freePage_size paddr)
    ?_ (fun _ _ _ => rfl)
  intro a ha
  have hne : Owned s.machine a ∧ a ≠ paddr := by
    rcases ha with ha | ⟨r, p, ha⟩
    · exact ⟨hs'.heldOwned ha, Finset.ne_of_mem_erase ha⟩
    · exact ⟨hs.owned ha, fun heq => hs.heldFree hheld r p (heq ▸ ha)⟩
  rw [s.machine.taken_freePage_of_ne (hne.1.div_ne hpaddr hne.2)]
  exact hne.1.taken

theorem Inv.hold (hs : s.Inv) {N : Nat → Prop} {m : Machine} (h : s.machine.Takes N m)
    {held : Finset Nat} (hheld : ∀ a ∈ held, a ∈ s.held ∨ N a) :
    Inv { s with machine := m, held := held } := by
  have hg := hs.take h
  apply hg.inv.withHeld
  intro a ha
  rcases hheld a ha with ha | ha
  · exact ⟨hg.inv.heldOwned ha, hg.inv.heldFree ha⟩
  · obtain ⟨hown, hfree, _⟩ := hs.take_fresh h ha
    exact ⟨hown, hfree⟩

theorem Inv.forceFailure (hs : s.Inv) (fail : Bool) :
    Grows s (s.machine.setForceAllocFailure fail) :=
  hs.take (.of_pmm rfl rfl rfl rfl fun _ hb => hb)

variable {r l : Nat} {p : List (Fin 512)}

theorem Inv.table_ne_page (hs : s.Inv)
    (hpage : paddr ∈ s.held ∨ ∃ r p, p.length = 4 ∧ s.Occupied r p paddr) (hl : s.Occupied r p l)
    (hlen : p.length ≤ 3) : l ≠ paddr := by
  rintro rfl
  rcases hpage with hheld | ⟨r', p', hlen', hl'⟩
  · exact hs.heldFree hheld r p hl
  · obtain ⟨rfl, _⟩ := hs.separated hl hl'
    omega

section

variable (hs : s.Inv) (i : Fin 512) (e : PageTableEntry)
  (hpage : paddr ∈ s.held ∨ ∃ r p, p.length = 4 ∧ s.Occupied r p paddr)
include hs i e hpage

theorem Inv.store_ram (hl : s.Occupied r p l)
    (hlen : p.length ≤ 3) :
    (s.machine.write paddr i e).ram l = s.ram l := by
  funext j
  exact write_of_ne e fun hat => hs.table_ne_page hpage hl hlen hat.1

theorem Inv.store_follow : SameTables s (s.machine.write paddr i e) := by
  intro r p hp
  apply follow_eq_of_agree s.prefixClosed _ hp
  intro r' q j l ht hl
  have hshort : q.length ≤ 3 := by
    rcases ht with ⟨_, hlen⟩ | ⟨_, hlen, _⟩
    · rw [List.length_append, List.length_singleton] at hlen
      omega
    · rw [List.length_append, List.length_singleton] at hlen
      omega
  rw [hs.store_ram i e hpage ⟨s.prefixClosed ht, hl⟩ hshort]

theorem Inv.storePage : Grows s (s.machine.write paddr i e) := by
  have hfollow := hs.store_follow i e hpage
  refine ⟨hs.writeEntry hfollow, rfl, ?_, fun ht hf => (hfollow _ _ ht).trans hf⟩
  intro r hr
  apply sameLeaves_of_tables
  intro p l hlen hl
  exact hs.store_ram i e hpage ⟨tracked_of_root hr hlen, hl⟩ hlen

end

theorem inv_step (hs : s.Inv) {op : VmOp} (h : Step s op s') : s'.Inv := by
  cases h with
  | created h hroot =>
    rcases create_cases hs h with ⟨hzero, _⟩ | ⟨_, hc⟩
    · exact absurd hzero hroot
    · exact hc.inv hs
  | createFailed h =>
    rcases create_cases hs h with ⟨_, hg⟩ | ⟨hne, _⟩
    · exact hg.inv
    · exact absurd rfl hne
  | destroyed hroot hidle h => exact (torn_destroy hs hroot h).inv hs hroot hidle
  | mappedUser huser hheld h =>
    rcases map_cases hs (Or.inr huser.1) h with ⟨hne, _⟩ | ⟨_, m₃, pt, hm, rfl⟩
    · exact absurd rfl hne
    · exact hm.inv_user huser hheld _
  | mappedOther hroot hother h =>
    rcases map_cases hs hroot h with ⟨hne, _⟩ | ⟨_, m₃, pt, hm, rfl⟩
    · exact absurd rfl hne
    · exact hm.inv_other hroot hother _
  | mapFailed hroot hstatus h =>
    rcases map_cases hs hroot h with ⟨_, hg⟩ | ⟨hok, _⟩
    · exact hg.inv
    · exact absurd hok hstatus
  | unmapped h => exact inv_unmap hs h
  | activated hroot => exact hs.activate hroot
  | frameTaken h hpaddr =>
    apply hs.hold (allocPage_allocates h).takes
    intro a ha
    rcases Finset.mem_insert.mp ha with rfl | ha
    · exact Or.inr ⟨rfl, hpaddr⟩
    · exact Or.inl ha
  | takeFailed h => exact (hs.alloc (allocPage_allocates h)).inv
  | framesTaken h hpaddr =>
    apply hs.hold (allocPages_takes h)
    intro a ha
    rcases Finset.mem_union.mp ha with ha | ha
    · exact Or.inl ha
    · obtain ⟨i, hi, rfl⟩ := Finset.mem_image.mp ha
      exact Or.inr ⟨hpaddr, i, Finset.mem_range.mp hi, rfl⟩
  | takeFramesFailed h => exact (hs.take (allocPages_takes h)).inv
  | failureForced => exact (hs.forceFailure _).inv
  | frameFreed hheld => exact hs.freeFrame hheld
  | stored hpage => exact (hs.storePage _ _ hpage).inv

theorem inv_reachable (h : Reachable s) : s.Inv := by
  induction h with
  | booted hsize h =>
    obtain ⟨⟨pdpt, pd2, pd1, pt0, k⟩, heq⟩ := init_tables h
    exact inv_boot k (heq ▸ hsize)
  | step _ h ih => exact inv_step ih h

theorem Inv.leafAt_shared (hs : s.Inv) {u : Nat} (hu : u ∈ s.spaces) {i : Fin 512} (hi : Upper i)
    (hinh : s.inherited u i = true) (q : List (Fin 512)) (j : Fin 512) :
    leafAt s.ram u (i :: q) j = leafAt s.ram s.kernelRoot (i :: q) j := by
  obtain ⟨l, hl, hl'⟩ := hs.copied hu hi hinh
  rw [leafAt, leafAt, entryAt, entryAt, follow_cons, follow_cons, hl, hl']

/-- A user space translates the kernel half as the kernel root does. -/
theorem kernel_half_shared (h : Reachable s) {u : Nat} (hu : u ∈ s.spaces) :
    s.inherited u 511 = true ∧
      ∀ vaddr, Upper (pml4Index vaddr) → s.inherited u (pml4Index vaddr) = true →
        walk s.ram u vaddr = walk s.ram s.kernelRoot vaddr := by
  have hs := inv_reachable h
  refine ⟨hs.topInherited hu, ?_⟩
  intro vaddr hi hinh
  rw [walk_eq_leaves, walk_eq_leaves, pdPath, ptPath, hs.leafAt_shared hu hi hinh,
    hs.leafAt_shared hu hi hinh]

/-! A run of the sample machine: a space is created, then the kernel maps a page. -/

theorem sampleKernel_reachable : Reachable (boot sampleKernel) :=
  .booted (by decide +kernel) sampleKernel_init

@[irreducible] def sampleSpace : Machine :=
  ((createUserAddressSpace sampleKernel).getD (0x108000, sampleKernel)).2

theorem sampleSpace_created :
    createUserAddressSpace sampleKernel = some (0x108000, sampleSpace) := by
  rw [sampleSpace]
  exact completed sampleKernel (by decide +kernel)

theorem sampleSpace_reachable : Reachable ((boot sampleKernel).withSpace 0x108000 sampleSpace) :=
  .step sampleKernel_reachable (.created sampleSpace_created (by decide))

/-- The first page the VMM self-test maps, writable and not executable. -/
@[irreducible] def samplePage (m : Machine) (root : Nat) : Machine :=
  ((mapPageInTable m root 0xFFFFFFFF00000000 0x1F0000 (present ||| writable ||| noExecute)).getD
    (.success, m)).2

theorem sampleSpace_shares_kernel_page :
    (walk (samplePage sampleSpace sampleKernel.vmm.rootPml4Paddr).ram 0x108000 0xFFFFFFFF00000000 =
      walk (samplePage sampleSpace sampleKernel.vmm.rootPml4Paddr).ram
        sampleKernel.vmm.rootPml4Paddr 0xFFFFFFFF00000000) ∧
      (walk (samplePage sampleSpace sampleKernel.vmm.rootPml4Paddr).ram
        sampleKernel.vmm.rootPml4Paddr 0xFFFFFFFF00000000).isSome = true := by
  have hmap : mapPageInTable sampleSpace sampleKernel.vmm.rootPml4Paddr 0xFFFFFFFF00000000 0x1F0000
      (present ||| writable ||| noExecute) =
      some (.success, samplePage sampleSpace sampleKernel.vmm.rootPml4Paddr) := by
    rw [samplePage]
    exact completed sampleSpace (by decide +kernel)
  have hreach := Reachable.step sampleSpace_reachable
    (.mappedOther (Or.inl rfl) (fun h => h.2 (by decide)) hmap)
  have h := kernel_half_shared hreach (u := 0x108000) (Finset.mem_insert_self _ _)
  have hslot : pml4Index 0xFFFFFFFF00000000 = 511 := by decide
  exact ⟨h.2 0xFFFFFFFF00000000 (by decide) (hslot ▸ h.1), by decide +kernel⟩

end System

end LlamaOS.Memory
