import LlamaOS.Memory.AddressSpaces

/-!
# Changes to the page tables

The moves that `map_page_in_table` makes above the leaf: taking a frame, giving an
entry more rights, linking an empty table. Each keeps the invariant and changes no
translation of any root.
-/

namespace LlamaOS.Memory
open RadixForest VirtualAddress PageTableEntry VirtualMemoryManager PageFlags Machine

namespace System
variable {s : System}

/-- Every tracked path leads where it led. -/
def SameTables (s : System) (m : Machine) : Prop :=
  ∀ r p, s.Tracked r p → follow next m.ram r p = follow next s.ram r p

variable {m : Machine}

theorem SameTables.occupied (hsame : SameTables s m) {r l : Nat} {p : List (Fin 512)} :
    (s.withMachine m).Occupied r p l ↔ s.Occupied r p l := by
  constructor
  · intro h
    exact ⟨h.tracked, (hsame r p h.tracked).symm.trans h.follows⟩
  · intro h
    exact ⟨h.tracked, (hsame r p h.tracked).trans h.follows⟩

theorem Inv.of_same (hs : s.Inv) (hvmm : m.vmm = s.machine.vmm) (hactive : s.IsRoot m.activeRoot)
    (hsize : m.pmm.bitmap.size = s.machine.pmm.bitmap.size)
    (htaken : ∀ a, (a ∈ s.held ∨ ∃ r p, s.Occupied r p a) → m.taken a = true)
    (hfollow : SameTables s m) : (s.withMachine m).Inv := by
  have hocc := fun {r l p} => (@SameTables.occupied s m hfollow r l p).mp
  have htop : ∀ r i, s.IsRoot r → (m.ram r i).next 0 = (s.ram r i).next 0 := by
    intro r i hr
    rw [← follow_one, ← follow_one]
    exact hfollow r [i] (tracked_of_root hr (by simp))
  refine ⟨hvmm.trans hs.vmm, hactive, hs.kernel, hsize ▸ hs.size,
    hs.separated.mono (fun _ _ h => h) hfollow, ?_, ?_, ?_, ?_, ?_, hs.topInherited⟩
  · intro r p l h
    exact (hs.owned (hocc h)).of_taken (htaken l (Or.inr ⟨r, p, hocc h⟩))
  · intro a ha
    exact (hs.heldOwned ha).of_taken (htaken a (Or.inl ha))
  · intro a ha r p h
    exact hs.heldFree ha r p (hocc h)
  · intro u i hu hi hinh
    obtain ⟨l, hl, hl'⟩ := hs.copied hu hi hinh
    exact ⟨l, (htop u i (Or.inr hu)).trans hl, (htop _ i (Or.inl rfl)).trans hl'⟩
  · obtain ⟨l, hl⟩ := hs.top
    exact ⟨l, (htop _ 511 (Or.inl rfl)).trans hl⟩

theorem Inv.withHeld (hs : s.Inv) {held : Finset Nat}
    (hheld : ∀ a ∈ held, Owned s.machine a ∧ ∀ r p, ¬ s.Occupied r p a) :
    Inv { s with held := held } :=
  { hs with heldOwned := fun ha => (hheld _ ha).1, heldFree := fun ha => (hheld _ ha).2 }

theorem Inv.eraseHeld (hs : s.Inv) (a : Nat) : Inv { s with held := s.held.erase a } := by
  apply hs.withHeld
  intro b hb
  have hmem := Finset.mem_of_mem_erase hb
  exact ⟨hs.heldOwned hmem, hs.heldFree hmem⟩

/-- Tables may be added, but every translation stays. -/
structure Grows (s : System) (m : Machine) : Prop where
  inv : (s.withMachine m).Inv
  cr3 : m.cr3 = s.machine.cr3
  leaves : ∀ {r}, s.IsRoot r → SameLeaves s.ram m.ram r
  follows : ∀ {r p l}, s.Tracked r p → follow next s.ram r p = some l →
    follow next m.ram r p = some l

theorem Grows.refl (hs : s.Inv) : Grows s s.machine := ⟨hs, rfl, fun _ _ _ _ => rfl, fun _ h => h⟩

theorem Grows.trans {m' : Machine} (h : Grows s m) (h' : Grows (s.withMachine m) m') : Grows s m' :=
  ⟨h'.inv, h'.cr3.trans h.cr3, fun hr => (h.leaves hr).trans (h'.leaves hr),
    fun ht hf => h'.follows ht (h.follows ht hf)⟩

variable {r : Nat}

theorem Grows.walk_eq (h : Grows s m) (hr : s.IsRoot r) (vaddr : Nat) :
    walk m.ram r vaddr = walk s.ram r vaddr :=
  (h.leaves hr).walk_eq vaddr

theorem Grows.canAccess_eq (hs : s.Inv) (h : Grows s m) (a : Nat) :
    m.canAccess a = s.machine.canAccess a := by
  have hroot := activeRoot_congr h.cr3
  have hvmm : m.vmm = s.machine.vmm := h.inv.vmm.trans hs.vmm.symm
  rw [canAccess, canAccess, hvmm, hroot, h.walk_eq hs.active]

variable {l : Nat} {p : List (Fin 512)}

theorem Grows.occupied (h : Grows s m) (hl : s.Occupied r p l) : (s.withMachine m).Occupied r p l :=
  ⟨hl.tracked, h.follows hl.tracked hl.follows⟩

variable {a : Nat}

theorem Inv.taken_of_used (hs : s.Inv) (h : a ∈ s.held ∨ ∃ r p, s.Occupied r p a) :
    s.machine.taken a = true := by
  rcases h with h | ⟨r, p, h⟩
  · exact (hs.heldOwned h).taken
  · exact (hs.owned h).taken

theorem Inv.not_occupied_of_clear (hs : s.Inv) (ha : s.machine.taken a = false) (r : Nat)
    (p : List (Fin 512)) : ¬ s.Occupied r p a :=
  fun h => (hs.owned h).ne_of_clear ha rfl

section Take
variable (hs : s.Inv) {N : Nat → Prop} {m : Machine} (h : s.machine.Takes N m)
include hs h

theorem Inv.take_ram (hl : s.Occupied r p l) : m.ram l = s.ram l :=
  h.unchanged l fun hN => (hs.owned hl).ne_of_clear (h.fresh l hN).clear rfl

theorem Inv.take_follow : SameTables s m := by
  intro r p hp
  apply follow_eq_of_agree s.prefixClosed _ hp
  intro r' q i l ht hl
  rw [hs.take_ram h ⟨s.prefixClosed ht, hl⟩]

theorem Inv.take : Grows s m := by
  have hfollow := hs.take_follow h
  have hroot := activeRoot_congr h.cr3
  refine ⟨?_, h.cr3, ?_, fun ht hf => (hfollow _ _ ht).trans hf⟩
  · apply hs.of_same h.vmm (hroot ▸ hs.active) h.size _ hfollow
    intro a ha
    exact h.keeps a (hs.taken_of_used ha)
  · intro r hr
    apply sameLeaves_of_tables
    intro p l hlen hl
    exact hs.take_ram h ⟨tracked_of_root hr hlen, hl⟩

theorem Inv.take_fresh {pa : Nat} (hpa : N pa) :
    Owned m pa ∧ (∀ r p, ¬ (s.withMachine m).Occupied r p pa) ∧ pa ∉ s.held := by
  have hfresh := h.fresh pa hpa
  refine ⟨⟨hfresh.nonnull, hfresh.aligned, ?_, h.taken pa hpa⟩, ?_, ?_⟩
  · have hin := hfresh.inside
    have hsize := hs.size
    omega
  · intro r p hocc
    exact hs.not_occupied_of_clear hfresh.clear r p ((hs.take_follow h).occupied.mp hocc)
  · intro hmem
    exact (hs.heldOwned hmem).ne_of_clear hfresh.clear rfl

end Take

section Alloc
variable (hs : s.Inv) {pa : Nat} {m : Machine} (h : s.machine.Allocates pa m)
include hs h

theorem Inv.alloc_ram (hl : s.Occupied r p l) : m.ram l = s.ram l :=
  hs.take_ram h.takes hl

theorem Inv.alloc : Grows s m := hs.take h.takes

theorem Inv.alloc_fresh (hpa : pa ≠ 0) :
    Owned m pa ∧ (∀ r p, ¬ (s.withMachine m).Occupied r p pa) ∧ pa ∉ s.held :=
  hs.take_fresh h.takes ⟨rfl, hpa⟩

end Alloc

variable {e : PageTableEntry}

theorem Inv.writeEntry (hs : s.Inv) {i : Fin 512} (hfollow : SameTables s (s.machine.write l i e)) :
    (s.withMachine (s.machine.write l i e)).Inv :=
  hs.of_same rfl hs.active rfl (fun _ => hs.taken_of_used) hfollow

section Entry
variable (hs : s.Inv) {r : Nat} {p : List (Fin 512)} {l : Nat} (hl : s.Occupied r p l)
variable (hlen : p.length ≤ 2) (i : Fin 512) {e : PageTableEntry} {n : Nat}
variable (hnew : e.next p.length = some n)
include hs hl hlen hnew

theorem sameLeaves_at (hleaf : p.length = 2 → isLeaf 2 (s.ram l i) = false) {r' : Nat}
    {q : List (Fin 512)} (j : Fin 512) (hr' : s.IsRoot r') (hq : q.length = 2 ∨ q.length = 3)
    (hsame : follow next (write s.ram l i e) r' q = follow next s.ram r' q) :
    leafAt (write s.ram l i e) r' q j = leafAt s.ram r' q j := by
  have ht : s.Tracked r' q := tracked_of_root hr' (by omega)
  rcases entryAt_write hs.separated hl i e ht j hsame with heq | ⟨rfl, rfl, hf, heq⟩
  · rw [leafAt, leafAt, heq]
  have htwo : q.length = 2 := by omega
  obtain ⟨_, hnot, _⟩ := isPresent_of_next hnew
  rw [leafAt, leafAt, heq, entryAt_of_follow hf, Option.filter_some, Option.filter_some,
    htwo, hleaf htwo]
  simp [isLeaf, hnot htwo]

theorem Inv.relabel (hsame : ∀ d, e.next d = (s.ram l i).next d) :
    Grows s (s.machine.write l i e) := by
  have hfollow : SameTables s (s.machine.write l i e) := fun r' q _ => follow_write_same hsame r' q
  refine ⟨hs.writeEntry hfollow, rfl, ?_, fun ht hf => (hfollow _ _ ht).trans hf⟩
  have hleaf : p.length = 2 → isLeaf 2 (s.ram l i) = false := by
    intro htwo
    obtain ⟨_, hnot, _⟩ := isPresent_of_next ((hsame _).symm.trans hnew)
    simp [isLeaf, hnot htwo]
  intro r' hr' q j hq
  exact sameLeaves_at hs hl hlen i hnew hleaf j hr' hq
    (hfollow r' q (tracked_of_root hr' (by omega)))

end Entry

/-- With `e` for its entry `i`, the table `l` at `p` leads to the new table or page `n`. -/
structure Link (s : System) (r : Nat) (p : List (Fin 512)) (l : Nat) (i : Fin 512)
    (e : PageTableEntry) (n : Nat) :
    Prop where
  table : s.Occupied r p l
  absent : (s.ram l i).isPresent = false
  target : e.next p.length = some n
  fresh : ∀ r' q, ¬ s.Occupied r' q n
  empty : p.length ≤ 2 → ∀ j, s.ram n j = .clear

section Link
variable (hs : s.Inv) {r l n : Nat} {p : List (Fin 512)} {i : Fin 512} {e : PageTableEntry}
  (h : Link s r p l i e n)
include h

theorem Link.below (r' : Nat) (j : Fin 512) (t : List (Fin 512))
    (ht : s.Tracked r' (p ++ i :: j :: t)) : (s.ram n j).next (p.length + 1) = none := by
  have hshort : p.length ≤ 2 := by
    rcases ht with ⟨_, hle⟩ | ⟨_, heq, _⟩
    · simp only [List.length_append, List.length_cons] at hle
      omega
    · simp only [List.length_append, List.length_cons] at heq
      omega
  rw [h.empty hshort j]
  exact next_clear _

include hs

theorem Inv.follow_linked {r' : Nat} {q : List (Fin 512)} (hq : s.Tracked r' q) :
    follow next (write s.ram l i e) r' q = follow next s.ram r' q ∨
      (q = p ++ [i] ∧ follow next s.ram r' p = some l ∧
        follow next (write s.ram l i e) r' q = some n) :=
  follow_link s.prefixClosed hs.separated h.table i e (next_of_not_present h.absent) h.target
    h.fresh h.below hq

theorem Inv.occupied_linked {r' l' : Nat} {q : List (Fin 512)}
    (hocc : (s.withMachine (s.machine.write l i e)).Occupied r' q l') :
    s.Occupied r' q l' ∨ (l' = n ∧ q = p ++ [i]) := by
  rcases hs.follow_linked h hocc.tracked with heq | ⟨hq, _, heq⟩
  · exact Or.inl ⟨hocc.tracked, heq.symm.trans hocc.follows⟩
  · exact Or.inr ⟨Option.some.inj (hocc.follows.symm.trans heq), hq⟩

theorem Inv.occupied_of_linked {r' l' : Nat} {q : List (Fin 512)} (hocc : s.Occupied r' q l') :
    (s.withMachine (s.machine.write l i e)).Occupied r' q l' := by
  rcases hs.follow_linked h hocc.tracked with heq | ⟨rfl, hf, _⟩
  · exact ⟨hocc.tracked, heq.trans hocc.follows⟩
  · have hnone := hocc.follows
    rw [follow_snoc hf i, next_of_not_present h.absent] at hnone
    cases hnone

variable (hn : Owned s.machine n) (hheld : n ∉ s.held)
include hn hheld

theorem Inv.link : (s.withMachine (s.machine.write l i e)).Inv := by
  have hocc := fun {r' l' q} => @Inv.occupied_linked s hs r l n p i e h r' l' q
  have hkeep : ∀ {r' j l'}, (s.ram r' j).next 0 = some l' →
      ((s.machine.write l i e).ram r' j).next 0 = some l' := by
    intro r' j l' hnext
    have hat : ¬ (r' = l ∧ j = i) := by
      intro hat
      rw [hat.1, hat.2, next_of_not_present h.absent] at hnext
      cases hnext
    exact (congrArg (next 0) (write_of_ne e hat)).trans hnext
  refine ⟨hs.vmm, hs.active, hs.kernel, hs.size,
    Separated.link s.prefixClosed hs.separated h.table i e (next_of_not_present h.absent) h.target
      h.fresh h.below,
    ?_, fun ha => (hs.heldOwned ha).of_taken (hs.heldOwned ha).taken, ?_, ?_,
    ?_, hs.topInherited⟩
  · intro r' q l' h
    rcases hocc h with h | ⟨rfl, _⟩
    · exact (hs.owned h).of_taken (hs.owned h).taken
    · exact hn.of_taken hn.taken
  · intro a ha r' q h
    rcases hocc h with h | ⟨rfl, _⟩
    · exact hs.heldFree ha r' q h
    · exact hheld ha
  · intro u j hu hj hinh
    obtain ⟨l', hl', hl''⟩ := hs.copied hu hj hinh
    exact ⟨l', hkeep hl', hkeep hl''⟩
  · obtain ⟨l', hl'⟩ := hs.top
    exact ⟨l', hkeep hl'⟩

theorem Inv.linkTable (hshort : p.length ≤ 2) : Grows s (s.machine.write l i e) := by
  have hleaf : p.length = 2 → isLeaf 2 (s.ram l i) = false := by
    intro _
    simp [isLeaf, h.absent]
  have hold : (s.ram l i).next p.length = none := next_of_not_present h.absent
  refine ⟨hs.link h hn hheld, rfl, ?_, ?_⟩
  · intro r' hr' q j hq
    have ht : s.Tracked r' q := tracked_of_root hr' (by omega)
    rcases hs.follow_linked h ht with heq | ⟨rfl, hf, heq⟩
    · exact sameLeaves_at hs h.table hshort i h.target hleaf j hr' hq heq
    have hnone : follow next s.ram r' (p ++ [i]) = none := (follow_snoc hf i).trans hold
    have hne : ¬ (n = l ∧ j = i) := fun hat => h.fresh r p (hat.1 ▸ h.table)
    have hclear : (s.machine.write l i e).ram n j = .clear :=
      (write_of_ne e hne).trans (h.empty hshort j)
    have hlinked : follow next (s.machine.write l i e).ram r' (p ++ [i]) = some n := heq
    rw [leafAt_of_none hnone, leafAt_of_follow hlinked, hclear]
    simp [isLeaf]
  · intro r' q l' ht hf
    exact (hs.occupied_of_linked h ⟨ht, hf⟩).follows

end Link

theorem tableFlags_bits (flags : PageFlags) :
    (tableFlags flags).getLsbD 0 = true ∧ (tableFlags flags).getLsbD 7 = false := by
  unfold tableFlags
  split
  · exact ⟨by decide, by decide⟩
  · exact ⟨by decide, by decide⟩

theorem next_addUser (hp : e.isPresent = true) (depth : Nat) :
    (set e.physicalAddress (e.flags ||| user)).next depth = e.next depth := by
  obtain ⟨hal, hlt⟩ := physicalAddress_spec e
  have hpresent : (set e.physicalAddress (e.flags ||| user)).isPresent = true := by
    rw [isPresent, bit_eq e (by decide)] at hp
    rw [isPresent_set, BitVec.getLsbD_or, flags_eq, BitVec.getLsbD_and, hp]
    decide
  have hhuge : (set e.physicalAddress (e.flags ||| user)).isHuge = e.isHuge := by
    rw [isHuge_set, BitVec.getLsbD_or, flags_eq, BitVec.getLsbD_and, isHuge, bit_eq e (by decide),
      all_getLsbD, user, one_shiftLeft_getLsbD (by decide)]
    simp
  rw [next, next, hpresent, hp, hhuge, physicalAddress_set _ hal hlt]

end System

end LlamaOS.Memory
