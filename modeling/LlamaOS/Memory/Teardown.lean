import LlamaOS.Memory.SpaceCreation
import LlamaOS.Shared.MonadicFold

/-!
# Destroying address spaces

The nested loops of `destroy_user_address_space` clear leaves in the page tables of
the space's own user half and free frames of that half and the root. No other root
sees any of them, so what the others see stays as it was.
-/

namespace LlamaOS.Memory
open RadixForest VirtualAddress PageTableEntry VirtualMemoryManager Machine

namespace System
variable {s : System}

/-- A frame of the root's own: the root, or a table or page of its user half. -/
def Private (s : System) (r l : Nat) : Prop := ∃ p, (p = [] ∨ Lower p) ∧ s.Occupied r p l

/-- How far the teardown of `r` may have gone. -/
structure Torn (s : System) (r : Nat) (m : Machine) : Prop where
  vmm : m.vmm = s.machine.vmm
  cr3 : m.cr3 = s.machine.cr3
  size : m.pmm.bitmap.size = s.machine.pmm.bitmap.size
  ram : ∀ l i, m.ram l i = s.ram l i ∨
    (m.ram l i = .clear ∧ ∃ p, p.length = 3 ∧ Lower p ∧ s.Occupied r p l)
  bits : ∀ a, m.taken a = s.machine.taken a ∨ ∃ l, s.Private r l ∧ a / 4096 = l / 4096

theorem Torn.refl (s : System) (r : Nat) : Torn s r s.machine :=
  ⟨rfl, rfl, rfl, fun _ _ => Or.inl rfl, fun _ => Or.inl rfl⟩

variable {r l : Nat} {m : Machine}

theorem Torn.free (h : Torn s r m) (hl : s.Private r l) : Torn s r (m.freePage l) := by
  refine ⟨h.vmm, h.cr3, (m.freePage_size l).trans h.size, h.ram, ?_⟩
  intro a
  by_cases ha : a / 4096 = l / 4096
  · exact Or.inr ⟨l, hl, ha⟩
  · rw [m.taken_freePage_of_ne ha]
    exact h.bits a

variable {p : List (Fin 512)}

theorem Torn.clearLeaf (h : Torn s r m) (hl : s.Occupied r p l) (hlen : p.length = 3) (hp : Lower p)
    (i : Fin 512) :
    Torn s r (m.write l i .clear) := by
  refine { h with ram := ?_ }
  intro l' j
  by_cases hat : l' = l ∧ j = i
  · obtain ⟨rfl, rfl⟩ := hat
    exact Or.inr ⟨write_self _ _ _, p, hlen, hp, hl⟩
  · have heq : (m.write l i .clear).ram l' j = m.ram l' j := write_of_ne _ hat
    rw [heq]
    exact h.ram l' j

theorem Torn.ram_eq (hs : s.Inv) (h : Torn s r m) (hl : s.Occupied r p l) (hlen : p.length ≤ 2)
    (i : Fin 512) :
    m.ram l i = s.ram l i := by
  rcases h.ram l i with heq | ⟨_, p', hlen', _, hl'⟩
  · exact heq
  · obtain ⟨rfl, _⟩ := hs.separated hl hl'
    omega

section Loops
variable (hs : s.Inv) {r : Nat} (hr : r ∈ s.spaces)
include hr

theorem occupied_below (hl : s.Occupied r p l) (hlen : p.length ≤ 3) {i : Fin 512}
    (hlower : Lower (p ++ [i])) (hpresent : (s.ram l i).isPresent = true)
    (hhuge : p.length = 2 → (s.ram l i).isHuge = false) :
    s.Occupied r (p ++ [i]) (s.ram l i).physicalAddress := by
  refine ⟨?_, ?_⟩
  · by_cases hshort : p.length ≤ 2
    · exact tracked_of_root (Or.inr hr) (by rw [List.length_append, List.length_singleton]; omega)
    · exact Or.inr ⟨hr, by rw [List.length_append, List.length_singleton]; omega, hlower⟩
  · rw [follow_snoc hl.follows i]
    exact next_eq_some hpresent hhuge

omit hr in
theorem lower_snoc (hp : Lower p) (i : Fin 512) : Lower (p ++ [i]) := by
  obtain ⟨j, q, rfl, hj⟩ := hp
  exact ⟨j, q ++ [i], rfl, hj⟩

variable {m' : Machine}

theorem torn_destroyPt {pt : Nat} (hpt : s.Occupied r p pt) (hlen : p.length = 3) (hp : Lower p)
    (hm : Torn s r m) (h : destroyPt pt m = some m') : Torn s r m' := by
  unfold destroyPt at h
  split at h
  · cases h
  refine MonadicFold.invariant ?_ hm h
  intro b l b' _ hb hstep
  split at hstep
  · rename_i hpresent
    cases hstep
    rcases hb.ram pt l with heq | ⟨hclear, _⟩
    · rw [heq] at hpresent ⊢
      have hpage := occupied_below hr hpt (by omega) (lower_snoc hp l) hpresent (by omega)
      exact (hb.free ⟨_, Or.inr (lower_snoc hp l), hpage⟩).clearLeaf hpt hlen hp l
    · rw [hclear] at hpresent
      cases hpresent
  · cases hstep
    exact hb

include hs

theorem torn_destroyBelow {inner : Nat → Machine → Option Machine} {depth : Nat}
    (hdepth : depth ≤ 2)
    (hinner : ∀ {p t m m'}, s.Occupied r p t → p.length = depth + 1 → Lower p → Torn s r m →
      inner t m = some m' → Torn s r m')
    {t : Nat} (ht : s.Occupied r p t) (hlen : p.length = depth) (hp : Lower p) (hm : Torn s r m)
    (h : destroyBelow inner t m = some m') : Torn s r m' := by
  unfold destroyBelow at h
  split at h
  · cases h
  refine MonadicFold.invariant ?_ hm h
  intro b k b' _ hb hstep
  split at hstep
  · rename_i hcond
    rw [Bool.and_eq_true, Bool.not_eq_true'] at hcond
    obtain ⟨b₁, h₁, hstep⟩ := bind_eq_some.mp hstep
    cases hstep
    have heq := hb.ram_eq hs ht (by omega) k
    rw [heq] at hcond h₁
    have hbelow := occupied_below hr ht (by omega) (lower_snoc hp k) hcond.1 fun _ => hcond.2
    have hb₁ := hinner hbelow (by rw [List.length_append, hlen]; rfl) (lower_snoc hp k) hb h₁
    rw [hb₁.ram_eq hs ht (by omega) k]
    exact hb₁.free ⟨_, Or.inr (lower_snoc hp k), hbelow⟩
  · cases hstep
    exact hb

theorem torn_destroyPd {pd : Nat} (hpd : s.Occupied r p pd) (hlen : p.length = 2) (hp : Lower p)
    (hm : Torn s r m) (h : destroyPd pd m = some m') : Torn s r m' :=
  torn_destroyBelow hs hr (by decide) (fun hpt hlen hp => torn_destroyPt hr hpt hlen hp)
    hpd hlen hp hm h

theorem torn_destroyPdpt {pdpt : Nat} (hpdpt : s.Occupied r p pdpt) (hlen : p.length = 1)
    (hp : Lower p) (hm : Torn s r m) (h : destroyPdpt pdpt m = some m') : Torn s r m' :=
  torn_destroyBelow hs hr (by decide) (fun hpd hlen hp => torn_destroyPd hs hr hpd hlen hp)
    hpdpt hlen hp hm h

theorem torn_destroy (h : destroyUserAddressSpace s.machine r = some m) : Torn s r m := by
  have hroot := occupied_root (s := s) (Or.inr hr)
  unfold destroyUserAddressSpace at h
  split at h
  · cases h
    exact Torn.refl s r
  split at h
  · cases h
  obtain ⟨m₁, hloop, h⟩ := bind_eq_some.mp h
  cases h
  have hm₁ : Torn s r m₁ := by
    refine MonadicFold.invariant ?_ (Torn.refl s r) hloop
    intro b i b' hi hb hstep
    have hlower : Lower ([] ++ [i]) := by
      obtain ⟨j, hj, rfl⟩ := List.mem_take_iff_getElem.mp hi
      refine ⟨_, [], rfl, ?_⟩
      simp only [Upper, List.getElem_finRange, Fin.val_cast]
      omega
    split at hstep
    · rename_i hpresent
      obtain ⟨b₁, h₁, hstep⟩ := bind_eq_some.mp hstep
      cases hstep
      have heq := hb.ram_eq hs hroot (Nat.zero_le 2) i
      rw [heq] at hpresent h₁
      have hbelow := occupied_below hr hroot (Nat.zero_le 3) hlower hpresent fun hd => by cases hd
      have hb₁ := torn_destroyPdpt hs hr hbelow rfl hlower hb h₁
      rw [hb₁.ram_eq hs hroot (Nat.zero_le 2) i]
      exact hb₁.free ⟨_, Or.inr hlower, hbelow⟩
    · cases hstep
      exact hb
  exact hm₁.free ⟨[], Or.inl rfl, hroot⟩

end Loops

section Destroyed
variable {root : Nat} {m : Machine}

theorem isRoot_of_withoutSpace (hr : (s.withoutSpace root m).IsRoot r) : s.IsRoot r := by
  rcases hr with hk | hmem
  · exact Or.inl hk
  · exact Or.inr (Finset.mem_of_mem_erase hmem)

theorem tracked_of_withoutSpace (ht : (s.withoutSpace root m).Tracked r p) : s.Tracked r p := by
  rcases ht with ⟨hr, hlen⟩ | ⟨hr, hlen⟩
  · exact Or.inl ⟨isRoot_of_withoutSpace hr, hlen⟩
  · exact Or.inr ⟨Finset.mem_of_mem_erase hr, hlen⟩

variable (hs : s.Inv) (hroot : root ∈ s.spaces) (h : Torn s root m)
include hs hroot

theorem ne_of_withoutSpace (hr : (s.withoutSpace root m).IsRoot r) : r ≠ root := by
  rcases hr with hk | hmem
  · intro heq
    exact hs.kernel (hk.symm.trans heq ▸ hroot)
  · exact Finset.ne_of_mem_erase hmem

include h

theorem Torn.ram_other {r l : Nat} {p : List (Fin 512)} (hr : (s.withoutSpace root m).IsRoot r)
    (hl : s.Occupied r p l) : m.ram l = s.ram l := by
  funext i
  rcases h.ram l i with heq | ⟨_, q, _, hlower, hq⟩
  · exact heq
  · obtain ⟨heq, _⟩ := hs.root_eq hq hl (Or.inr hlower)
    exact absurd heq.symm (ne_of_withoutSpace hs hroot hr)

theorem Torn.follow_other (r : Nat) (p : List (Fin 512))
    (hp : (s.withoutSpace root m).Tracked r p) : follow next m.ram r p = follow next s.ram r p := by
  apply follow_eq_of_agree (s.withoutSpace root m).prefixClosed _ hp
  intro r' q i l ht hl
  rw [h.ram_other hs hroot (isRoot_of_tracked ht) ⟨s.prefixClosed (tracked_of_withoutSpace ht), hl⟩]

theorem Torn.occupied_other {r l : Nat} {p : List (Fin 512)}
    (hl : (s.withoutSpace root m).Occupied r p l) : s.Occupied r p l :=
  ⟨tracked_of_withoutSpace hl.tracked,
    (h.follow_other hs hroot r p hl.tracked).symm.trans hl.follows⟩

omit hroot in
theorem Torn.keeps {a : Nat} (ha : Owned s.machine a) (hother : ¬ s.Private root a) :
    Owned m a := by
  apply ha.of_taken
  rcases h.bits a with heq | ⟨l, ⟨p, hp, hl⟩, hdiv⟩
  · exact heq.trans ha.taken
  · by_cases hal : a = l
    · exact absurd ⟨p, hp, hal ▸ hl⟩ hother
    · exact absurd hdiv (ha.div_ne (hs.owned hl) hal)

theorem Torn.inv (hidle : root ≠ s.machine.activeRoot) : (s.withoutSpace root m).Inv := by
  have hfollow := h.follow_other hs hroot
  have hram := @Torn.ram_other s root m hs hroot h
  have hocc := @Torn.occupied_other s root m hs hroot h
  have hkernel : m.ram s.kernelRoot = s.ram s.kernelRoot :=
    hram (Or.inl rfl) (occupied_root (Or.inl rfl))
  have hactive := activeRoot_congr h.cr3
  refine ⟨h.vmm.trans hs.vmm, ?_, ?_, h.size ▸ hs.size,
    hs.separated.mono (fun r p => tracked_of_withoutSpace) hfollow, ?_, ?_, ?_, ?_, ?_, ?_⟩
  · change (s.withoutSpace root m).IsRoot m.activeRoot
    rw [hactive]
    rcases hs.active with hk | hmem
    · exact Or.inl hk
    · exact Or.inr (Finset.mem_erase_of_ne_of_mem hidle.symm hmem)
  · intro hmem
    exact hs.kernel (Finset.mem_of_mem_erase hmem)
  · intro r p l hl
    apply h.keeps hs (hs.owned (hocc hl))
    rintro ⟨q, hq, hlq⟩
    obtain ⟨heq, _⟩ := hs.root_eq hlq (hocc hl) hq
    exact ne_of_withoutSpace hs hroot (isRoot_of_tracked hl.tracked) heq.symm
  · intro a ha
    apply h.keeps hs (hs.heldOwned ha)
    rintro ⟨q, _, hq⟩
    exact hs.heldFree ha root q hq
  · intro a ha r p hl
    exact hs.heldFree ha r p (hocc hl)
  · intro u i hu hi hinh
    change ∃ l, (m.ram u i).next 0 = some l ∧ (m.ram s.kernelRoot i).next 0 = some l
    have hmem : u ∈ s.spaces := Finset.mem_of_mem_erase hu
    rw [hkernel, hram (Or.inr hu) (occupied_root (Or.inr hmem))]
    exact hs.copied hmem hi hinh
  · change ∃ l, (m.ram s.kernelRoot 511).next 0 = some l
    rw [hkernel]
    exact hs.top
  · intro u hu
    exact hs.topInherited (Finset.mem_of_mem_erase hu)

theorem Torn.walk_eq (hr : (s.withoutSpace root m).IsRoot r) (vaddr : Nat) :
    walk m.ram r vaddr = walk s.ram r vaddr := by
  have hleaves : SameLeaves s.ram m.ram r := by
    apply sameLeaves_of_tables
    intro p l hlen hl
    exact h.ram_other hs hroot hr ⟨tracked_of_root (isRoot_of_withoutSpace hr) hlen, hl⟩
  exact hleaves.walk_eq vaddr

theorem Torn.canAccess_eq (hidle : s.machine.activeRoot ≠ root) (a : Nat) :
    m.canAccess a = s.machine.canAccess a := by
  have hactive := activeRoot_congr h.cr3
  have hroot' : (s.withoutSpace root m).IsRoot s.machine.activeRoot := by
    rcases hs.active with hk | hmem
    · exact Or.inl hk
    · exact Or.inr (Finset.mem_erase_of_ne_of_mem hidle hmem)
  rw [canAccess, canAccess, h.vmm, hactive, h.walk_eq hs hroot hroot']

end Destroyed

end System

end LlamaOS.Memory
