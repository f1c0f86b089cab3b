import LlamaOS.Memory.PageMapping

/-!
# Isolation of address spaces

An operation on one space leaves the user half of every other root alone, and no table
is reachable from two user halves.
-/

namespace LlamaOS.Memory
open RadixForest VirtualAddress PageTableEntry VirtualMemoryManager PageFlags Machine

/-- The root whose tables an operation works on; a new space has no root before it is created. -/
def VmOp.ActsOn (s : System) : VmOp → Nat → Prop
  | .destroy root, r => r = root
  | .map root _ _ _, r => r = root
  | .unmap _, r => r = s.kernelRoot
  | _, _ => False

namespace System
variable {s s' : System}

variable {root vaddr r vaddr' : Nat}

theorem walk_writeLeaf_lower (hs : s.Inv) {pt : Nat} (hpt : s.Occupied root (ptPath vaddr) pt)
    (e : PageTableEntry) (hr : s.IsRoot r) (hne : r ≠ root) (hlower : ¬ Upper (pml4Index vaddr')) :
    walk (RadixForest.write s.ram pt (ptIndex vaddr) e) r vaddr' = walk s.ram r vaddr' := by
  apply walk_writeLeaf hs hpt rfl _ e hr
  rintro ⟨hpath, _, hf⟩
  have hocc : s.Occupied r (ptPath vaddr) pt := ⟨tracked_of_root hr (Nat.le_refl 3), hf⟩
  have hlow : Lower (ptPath vaddr) := hpath ▸ (lower_ptPath vaddr').mpr hlower
  exact hne (hs.root_eq hocc hpt (Or.inr hlow)).1

variable {status : VmmStatus} {m : Machine}

theorem walk_mapped_lower (hs : s.Inv) {paddr : Nat} {flags : PageFlags} (hroot : s.IsRoot root)
    (h : mapPageInTable s.machine root vaddr paddr flags = some (status, m)) (hr : s.IsRoot r)
    (hne : r ≠ root) (hlower : ¬ Upper (pml4Index vaddr')) :
    walk m.ram r vaddr' = walk s.ram r vaddr' := by
  rcases map_cases hs hroot h with ⟨_, hg⟩ | ⟨_, m₃, pt, hm, rfl⟩
  · exact hg.walk_eq hr vaddr'
  · rw [← hm.grows.walk_eq hr]
    exact walk_writeLeaf_lower hm.grows.inv (hm.occupied hroot) _ hr hne hlower

theorem walk_unmapped_lower (hs : s.Inv) (h : unmapPage s.machine vaddr = some (status, m))
    (hr : s.IsRoot r) (hne : r ≠ s.kernelRoot) (hlower : ¬ Upper (pml4Index vaddr')) :
    walk m.ram r vaddr' = walk s.ram r vaddr' := by
  rcases unmap_cases hs h with rfl | ⟨pt, hpt, rfl⟩
  · rfl
  · have hocc : s.Occupied s.kernelRoot (ptPath vaddr) pt :=
      ⟨tracked_of_root (Or.inl rfl) (Nat.le_refl 3), hpt⟩
    exact walk_writeLeaf_lower hs hocc _ hr hne hlower

theorem step_lower (hs : s.Inv) {op : VmOp} (h : Step s op s') (hr : s.IsRoot r)
    (hop : ¬ op.ActsOn s r) :
    s'.IsRoot r ∧ ∀ vaddr, ¬ Upper (pml4Index vaddr) →
      walk s'.ram r vaddr = walk s.ram r vaddr := by
  have hr' := step_isRoot h hr fun heq => hop (heq ▸ rfl)
  refine ⟨hr', fun vaddr hlow => ?_⟩
  rcases step_walk hs h with
    hsame | ⟨root, _, paddr, flags, status, rfl, hroot, hmap⟩ | ⟨_, status, rfl, hunmap⟩
  · exact hsame r vaddr hr hr'
  · exact walk_mapped_lower hs hroot hmap hr hop hlow
  · exact walk_unmapped_lower hs hunmap hr hop hlow

/-- Table `l` is reached from the user half of `r`. -/
def LowerTable (ram : Ram) (r l : Nat) : Prop :=
  ∃ p, p.length ≤ 3 ∧ (p = [] ∨ Lower p) ∧ follow next ram r p = some l

/-- An operation changes no user-half translation of a root it does not act on, and afterwards no
table is reachable from the user halves of two roots. -/
theorem spaces_isolated (hreach : Reachable s) {op : VmOp} (h : Step s op s') :
    (∀ r, s.IsRoot r → ¬ op.ActsOn s r → s'.IsRoot r ∧
      ∀ vaddr, ¬ Upper (pml4Index vaddr) → walk s'.ram r vaddr = walk s.ram r vaddr) ∧
    (∀ r r', s'.IsRoot r → s'.IsRoot r' → r ≠ r' → ∀ l,
      LowerTable s'.ram r l → ¬ LowerTable s'.ram r' l) := by
  have hs := inv_reachable hreach
  have hs' := inv_step hs h
  refine ⟨fun r hr hop => step_lower hs h hr hop, ?_⟩
  rintro r r' hr hr' hne l ⟨p, hlen, hp, hf⟩ ⟨p', hlen', _, hf'⟩
  have hocc : s'.Occupied r p l := ⟨tracked_of_root hr hlen, hf⟩
  have hocc' : s'.Occupied r' p' l := ⟨tracked_of_root hr' hlen', hf'⟩
  exact hne (hs'.root_eq hocc hocc' hp).1

/-! A second space is created and a page is mapped into the first one. -/

@[irreducible] def sampleSecond : Machine :=
  ((createUserAddressSpace sampleSpace).getD (0x109000, sampleSpace)).2

@[irreducible] def sampleFrame : Machine := (sampleSecond.allocPage.getD (0x10A000, sampleSecond)).2

@[irreducible] def sampleUserPage : Machine :=
  ((mapPageInTable sampleFrame 0x108000 0x400000 0x10A000
    (present ||| writable ||| user)).getD (.success, sampleFrame)).2

theorem sampleSpaces_isolated :
    walk sampleUserPage.ram 0x109000 0x400000 = walk sampleFrame.ram 0x109000 0x400000 ∧
      walk sampleUserPage.ram 0x108000 0x400000 ≠ walk sampleFrame.ram 0x108000 0x400000 := by
  have hcreate : createUserAddressSpace sampleSpace = some (0x109000, sampleSecond) := by
    rw [sampleSecond]
    exact completed sampleSpace (by decide +kernel)
  have htake : sampleSecond.allocPage = some (0x10A000, sampleFrame) := by
    rw [sampleFrame]
    exact completed sampleSecond (by decide +kernel)
  have hmap : mapPageInTable sampleFrame 0x108000 0x400000 0x10A000
      (present ||| writable ||| user) = some (.success, sampleUserPage) := by
    rw [sampleUserPage]
    exact completed sampleFrame (by decide +kernel)
  have hreach :=
    Reachable.step (Reachable.step sampleSpace_reachable (.created hcreate (by decide)))
    (.frameTaken htake (by decide))
  have hfirst : 0x108000 ∈ insert 0x109000 (insert 0x108000 (∅ : Finset Nat)) := by decide
  have hstep :=
      Step.mappedUser (s := { ((boot sampleKernel).withSpace 0x108000 sampleSpace).withSpace
      0x109000 sampleSecond with machine := sampleFrame, held := insert 0x10A000 ∅ })
    ⟨hfirst, by decide⟩ (Finset.mem_insert_self _ _) hmap
  obtain ⟨hother, _⟩ := spaces_isolated hreach hstep
  refine ⟨(hother 0x109000 (Or.inr (Finset.mem_insert_self _ _)) ?_).2 0x400000 (by decide), ?_⟩
  · change ¬ (0x109000 = 0x108000)
    decide
  · decide +kernel

end System

end LlamaOS.Memory
