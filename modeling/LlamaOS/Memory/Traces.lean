import LlamaOS.Memory.Reclaim

/-!
# What a mapping leaves behind

A call of `map_page_in_table` writes only to the tables on the way to its page, adds
tables only there, and takes its frames one by one with `alloc_page`.
-/

namespace LlamaOS.Memory
open RadixForest VirtualAddress PageTableEntry VirtualMemoryManager

namespace PhysicalMemoryManager

/-- The allocator after `n` calls of `alloc_page`. -/
def takePages (p : PhysicalMemoryManager) (n : Nat) : PhysicalMemoryManager :=
  p.run (List.replicate n .allocPage)

theorem takePages_succ (p : PhysicalMemoryManager) (n : Nat) :
    p.takePages (n + 1) = (p.takePages n).allocPage.2 := by
  rw [takePages, takePages, List.replicate_succ', run, List.foldl_append]
  rfl

/-- Some calls of `alloc_page`, all of them granted, lead from `p` to `p'`. -/
def Drew (p p' : PhysicalMemoryManager) : Prop :=
  ∃ n, p' = p.takePages n ∧ p'.freeFrames + n = p.freeFrames

theorem Drew.refl (p : PhysicalMemoryManager) : p.Drew p := ⟨0, rfl, rfl⟩

theorem Drew.alloc {p p' q : PhysicalMemoryManager} {pa : Nat} (h : p.Drew p')
    (halloc : p'.allocPage = (pa, q)) (hpa : pa ≠ 0) : p.Drew q := by
  obtain ⟨n, rfl, hcount⟩ := h
  refine ⟨n + 1, ?_, ?_⟩
  · rw [takePages_succ, halloc]
  · have hfree : (p.takePages n).freeFrames ≠ 0 := by
      intro hzero
      rw [allocPage_of_exhausted (Or.inl hzero)] at halloc
      exact hpa (congrArg Prod.fst halloc).symm
    rcases allocPage_cases (p.takePages n) with hnone | ⟨f, _, hsome⟩
    · rw [hnone] at halloc
      exact absurd (congrArg Prod.fst halloc).symm hpa
    · have hq : q.freeFrames = (p.takePages n).freeFrames - 1 :=
        congrArg freeFrames (congrArg Prod.snd (halloc.symm.trans hsome))
      omega

theorem Drew.trans {p p' q : PhysicalMemoryManager} (h : p.Drew p') (h' : p'.Drew q) :
    p.Drew q := by
  obtain ⟨n, rfl, hn⟩ := h
  obtain ⟨k, rfl, hk⟩ := h'
  refine ⟨n + k, ?_, by omega⟩
  rw [takePages, takePages, takePages, List.replicate_add, run, run, run, List.foldl_append]

end PhysicalMemoryManager

namespace System
variable {s : System}

/-- Only the tables of `root` along `p` were written, and every new table stands there. -/
structure Traced (s : System) (root : Nat) (p : List (Fin 512)) (m : Machine) : Prop where
  taken : ∀ a, s.machine.taken a = true → m.taken a = true
  positions : ∀ {r q l}, (s.withMachine m).Occupied r q l →
    s.Occupied r q l ∨ (q <+: p ∧ s.machine.taken l = false)
  untouched : ∀ {a}, s.machine.taken a = true → (∀ q, q <+: p → ¬ s.Occupied root q a) →
    m.ram a = s.ram a
  drew : s.machine.pmm.Drew m.pmm

namespace Traced

theorem refl (s : System) (root : Nat) (p : List (Fin 512)) : Traced s root p s.machine :=
  ⟨fun _ ha => ha, Or.inl, fun _ _ => rfl, .refl _⟩

theorem mono {root : Nat} {p p' : List (Fin 512)} {m : Machine} (h : Traced s root p m)
    (hp : p <+: p') : Traced s root p' m where
  taken := h.taken
  positions := fun hocc => (h.positions hocc).imp_right fun hq => ⟨hq.1.trans hp, hq.2⟩
  untouched := fun ha hfree => h.untouched ha fun q hq => hfree q (hq.trans hp)
  drew := h.drew

theorem write_ram {root t : Nat} {p : List (Fin 512)} {m : Machine} (h : Traced s root p m)
    (ht : (s.withMachine m).Occupied root p t) (i : Fin 512) (e : PageTableEntry) {a : Nat}
    (ha : s.machine.taken a = true) (hfree : ∀ q, q <+: p → ¬ s.Occupied root q a) :
    (m.write t i e).ram a = s.ram a := by
  have hne : a ≠ t := by
    rintro rfl
    rcases h.positions ht with hold | ⟨_, hclear⟩
    · exact hfree p (List.prefix_refl p) hold
    · rw [ha] at hclear
      cases hclear
  rw [← h.untouched ha hfree]
  funext j
  exact write_of_ne e fun hat => hne hat.1

end Traced

theorem traced_keeps (root : Nat) (hroot : s.IsRoot root) (vaddr : Nat) (flags : PageFlags) :
    Keeps s root vaddr flags (Traced s root) where
  found := fun _ hm _ _ => hm.mono (List.prefix_append _ _)
  raised := by
    intro p i m t hb hm hp _
    have ht := hb.occupied hroot
    refine ⟨hm.taken, ?_, fun ha hfree => hm.write_ram ht i _ ha fun q hq =>
      hfree q (hq.trans (List.prefix_append p [i])), hm.drew⟩
    intro r q l hocc
    have hold : (s.withMachine m).Occupied r q l :=
      SameTables.occupied (s := s.withMachine m)
        (fun r' q' _ => follow_write_same (next_addUser hp) r' q') |>.mp hocc
    exact (hm.mono (List.prefix_append p [i])).positions hold
  added := by
    intro p i m t pa m₁ hb hm hp halloc hpa hacc
    have hA := Machine.allocPage_allocates halloc
    have ht := hb.occupied hroot
    have hlink :=
      hb.grows.inv.allocLink ht hp halloc hpa flags (Machine.isDirectMapped_of_canAccess hacc)
    have hclear : s.machine.taken pa = false := by
      have hfresh := (hA.fresh hpa).clear
      by_contra htaken
      rw [hm.taken pa (Bool.not_eq_false _ ▸ htaken)] at hfresh
      cases hfresh
    have hm₁ : Traced s root p m₁ := by
      refine ⟨fun a ha => hA.keeps a (hm.taken a ha), ?_, ?_,
        hm.drew.alloc (Machine.allocPage_pmm halloc) hpa⟩
      · intro r q l hocc
        exact hm.positions ((hb.grows.inv.take_follow hA.takes).occupied.mp hocc)
      · intro a ha hnot
        rw [← hm.untouched ha hnot]
        apply hA.takes.unchanged
        rintro ⟨rfl, _⟩
        rw [ha] at hclear
        cases hclear
    refine ⟨hm₁.taken, ?_, fun ha hnot => hm₁.write_ram hlink.table i _ ha fun q hq =>
      hnot q (hq.trans (List.prefix_append p [i])), hm₁.drew⟩
    intro r q l hocc
    rcases (hb.grows.inv.alloc hA).inv.occupied_linked hlink hocc with hold | ⟨rfl, rfl⟩
    · exact (hm₁.mono (List.prefix_append p [i])).positions hold
    · exact Or.inr ⟨List.prefix_refl _, hclear⟩

end System

end LlamaOS.Memory
