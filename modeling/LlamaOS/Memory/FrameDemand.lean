import LlamaOS.Memory.PagePlacement

/-!
# How many frames a space takes

A space with given pages occupies one frame for every prefix of the way to one of its
pages, the empty one being the root. Together with what is held this is what the
allocator has lost since the creation, also in the middle of a mapping that fails.
-/

namespace LlamaOS.Memory
open RadixForest VirtualAddress PageTableEntry VirtualMemoryManager

/-- The positions of the tables and pages of a space with these pages. -/
def spacePositions (pages : List Nat) : Finset (List (Fin 512)) :=
  insert [] (pages.toFinset.biUnion fun va => (pagePath va).inits.toFinset)

variable {pages : List Nat}

theorem mem_spacePositions {p : List (Fin 512)} :
    p ∈ spacePositions pages ↔ p = [] ∨ ∃ va ∈ pages, p <+: pagePath va := by
  simp only [spacePositions, Finset.mem_insert, Finset.mem_biUnion, List.mem_toFinset,
    List.mem_inits]

def framesFor (pages : List Nat) : Nat := (spacePositions pages).card

theorem framesFor_mono {pages' : List Nat} (h : pages ⊆ pages') :
    framesFor pages ≤ framesFor pages' := by
  apply Finset.card_le_card
  intro p hp
  rcases mem_spacePositions.mp hp with hnil | ⟨va, hva, hpath⟩
  · exact mem_spacePositions.mpr (Or.inl hnil)
  · exact mem_spacePositions.mpr (Or.inr ⟨va, h hva, hpath⟩)

/-- The pages can be mapped one after the other with `free` frames. -/
def Affordable (pages : List Nat) (free : Nat) : Prop := pages.Nodup ∧ framesFor pages ≤ free

/-- The frames are used up just when a new page begins. -/
def RunsDry (pages : List Nat) (free : Nat) : Prop :=
  ∃ k < pages.length, (pages.take k).Nodup ∧ framesFor (pages.take k) = free

variable {va : Nat}

theorem mem_of_pagePath (hpages : ∀ va ∈ pages, va % 4096 = 0 ∧ va < 2 ^ 47)
    (hva : va % 4096 = 0 ∧ va < 2 ^ 47) (h : pagePath va ∈ spacePositions pages) : va ∈ pages := by
  rcases mem_spacePositions.mp h with hnil | ⟨va', hva', hpath⟩
  · cases hnil
  have heq := hpath.eq_of_length (by rw [pagePath_length, pagePath_length])
  obtain ⟨hpt, hindex⟩ := List.append_inj' heq rfl
  have hpage := page_eq_of_indices (isCanonical_of_lt hva.2)
    (isCanonical_of_lt (hpages va' hva').2) hpt (List.head_eq_of_cons_eq hindex)
  have hal := (hpages va' hva').1
  rwa [show va = va' by omega]

variable {done : List Nat} {free : Nat}

theorem RunsDry.of_append {rest : List Nat} (hnodup : done.Nodup) (h : framesFor done = free) :
    RunsDry (done ++ va :: rest) free := by
  refine ⟨done.length, by simp, ?_⟩
  rw [List.take_left]
  exact ⟨hnodup, h⟩

theorem Affordable.not_runsDry (h : Affordable pages free)
    (hpages : ∀ va ∈ pages, va % 4096 = 0 ∧ va < 2 ^ 47) : ¬ RunsDry pages free := by
  rintro ⟨k, hk, _, hdry⟩
  have hsplit : pages.take k ++ pages[k] :: pages.drop (k + 1) = pages := by
    rw [List.cons_getElem_drop_succ, List.take_append_drop]
  have hmem : pages[k] ∈ pages := List.getElem_mem hk
  have hnew : pages[k] ∉ pages.take k := by
    have hnodup := h.1
    rw [← hsplit, List.nodup_append] at hnodup
    exact fun hin => hnodup.2.2 _ hin _ List.mem_cons_self rfl
  have hsub : spacePositions (pages.take k) ⊂ spacePositions pages := by
    refine ⟨?_, ?_⟩
    · intro p hp
      rcases mem_spacePositions.mp hp with hnil | ⟨va, hva, hpath⟩
      · exact mem_spacePositions.mpr (Or.inl hnil)
      · exact mem_spacePositions.mpr (Or.inr ⟨va, List.take_subset k pages hva, hpath⟩)
    · intro hback
      have hlast : pagePath pages[k] ∈ spacePositions pages :=
        mem_spacePositions.mpr (Or.inr ⟨_, hmem, List.prefix_refl _⟩)
      exact hnew (mem_of_pagePath (fun va hva => hpages va (List.take_subset k pages hva))
        (hpages _ hmem) (hback hlast))
  have hlt := Finset.card_lt_card hsub
  have hfit := h.2
  simp only [framesFor] at hdry hfit
  omega

/-- A page that is there already, or one whose tables cost too much, is in the way. -/
theorem not_clean_of_stuck (rest : List Nat) (hroom : framesFor done < free)
    (hstuck : va ∈ done ∨ free < framesFor (done ++ [va])) :
    ¬ Affordable (done ++ va :: rest) free ∧ ¬ RunsDry (done ++ va :: rest) free := by
  have hover : ∀ {pages : List Nat}, done ++ [va] <+: pages → pages.Nodup →
      free < framesFor pages := by
    intro pages hpre hnodup
    rcases hstuck with hmem | hcost
    · have hsub := hnodup.sublist hpre.sublist
      exact absurd rfl ((List.nodup_append.mp hsub).2.2 va hmem va List.mem_cons_self)
    · exact Nat.lt_of_lt_of_le hcost (framesFor_mono hpre.subset)
  constructor
  · rintro ⟨hnodup, hfit⟩
    have hlt := hover ⟨rest, by simp⟩ hnodup
    omega
  · rintro ⟨k, _, hnodup, hdry⟩
    by_cases hk : k ≤ done.length
    · have hle : framesFor ((done ++ va :: rest).take k) ≤ framesFor done := by
        apply framesFor_mono
        rw [List.take_append_of_le_length hk]
        exact List.take_subset k done
      omega
    have hpre : done ++ [va] <+: (done ++ va :: rest).take k := by
      apply List.prefix_take_iff.mpr
      exact ⟨⟨rest, by simp⟩, by rw [List.length_append, List.length_singleton]; omega⟩
    have hlt := hover hpre hnodup
    omega

namespace System
variable {s : System}

namespace Tenancy
variable {args : BootArgs} {p₀ : PhysicalMemoryManager} {base extra : Finset Nat} {root : Nat}
variable (h : Tenancy args p₀ base extra root s)
include h

theorem charge {positions : Finset (List (Fin 512))}
    (hpos : ∀ p, p ∈ positions ↔ (p = [] ∨ Lower p) ∧ ∃ l, s.Occupied root p l) :
    s.machine.pmm.freeFrames + (positions.card + ((s.held \ base) ∪ extra).card) =
      p₀.freeFrames := by
  obtain ⟨frames, hb, hmem⟩ := h.account
  have hframe : ∀ {p l}, s.Occupied root p l → (follow next s.ram root p).getD 0 = l := by
    intro p l hocc
    rw [hocc.follows]
    rfl
  have hinj : Set.InjOn (fun p => (follow next s.ram root p).getD 0) positions := by
    intro p hp q hq heq
    obtain ⟨hlow, l, hl⟩ := (hpos p).mp hp
    obtain ⟨_, l', hl'⟩ := (hpos q).mp hq
    dsimp only at heq
    rw [hframe hl, hframe hl'] at heq
    exact (h.inv.root_eq hl (heq ▸ hl') hlow).2
  have hprivate : ∀ a, a ∈ positions.image (fun p => (follow next s.ram root p).getD 0) ↔
      s.Private root a := by
    intro a
    rw [Finset.mem_image]
    constructor
    · rintro ⟨p, hp, rfl⟩
      obtain ⟨hlow, l, hl⟩ := (hpos p).mp hp
      exact ⟨p, hlow, (hframe hl).symm ▸ hl⟩
    · rintro ⟨p, hlow, hl⟩
      exact ⟨p, (hpos p).mpr ⟨hlow, a, hl⟩, hframe hl⟩
  have heq : frames = positions.image (fun p => (follow next s.ram root p).getD 0) ∪
      ((s.held \ base) ∪ extra) := by
    ext a
    rw [hmem a, Finset.mem_union, Finset.mem_union, Finset.mem_sdiff, hprivate a]
  have hdisj : Disjoint (positions.image fun p => (follow next s.ram root p).getD 0)
      ((s.held \ base) ∪ extra) := by
    rw [Finset.disjoint_left]
    intro a ha hrest
    obtain ⟨p, hlow, hl⟩ := (hprivate a).mp ha
    rcases Finset.mem_union.mp hrest with hheld | hextra
    · exact h.inv.heldFree (Finset.mem_sdiff.mp hheld).1 root p hl
    · exact (h.apart a hextra).1 ⟨p, hlow, hl⟩
  have hcard := hb.freeFrames
  rw [heq, Finset.card_union_of_disjoint hdisj, Finset.card_image_of_injOn hinj] at hcard
  exact hcard

theorem charge_le (pages : List Nat)
    (hbound : ∀ p l, (p = [] ∨ Lower p) → s.Occupied root p l → p ∈ spacePositions pages)
    (missing : Finset (List (Fin 512))) (hsub : missing ⊆ spacePositions pages)
    (hmissing : ∀ p ∈ missing, ∀ l, ¬ s.Occupied root p l) :
    p₀.freeFrames + missing.card ≤ s.machine.pmm.freeFrames + framesFor pages +
      ((s.held \ base) ∪ extra).card := by
  classical
  obtain ⟨positions, hpos, hin⟩ : ∃ positions : Finset (List (Fin 512)),
      (∀ p, p ∈ positions ↔ (p = [] ∨ Lower p) ∧ ∃ l, s.Occupied root p l) ∧
        positions ⊆ spacePositions pages := by
    refine ⟨(spacePositions pages).filter fun p => (p = [] ∨ Lower p) ∧ ∃ l,
      s.Occupied root p l, ?_, Finset.filter_subset _ _⟩
    intro p
    rw [Finset.mem_filter, and_iff_right_iff_imp]
    rintro ⟨hlow, l, hocc⟩
    exact hbound p l hlow hocc
  have hdisj : Disjoint positions missing := by
    rw [Finset.disjoint_left]
    intro p hp hmiss
    obtain ⟨_, l, hocc⟩ := (hpos p).mp hp
    exact hmissing p hmiss l hocc
  have hcharge := h.charge hpos
  have hle := Finset.card_le_card (Finset.union_subset hin hsub)
  rw [Finset.card_union_of_disjoint hdisj] at hle
  simp only [framesFor]
  omega

/-- A mapping in the user half that fails found its page mapped, or it ran out of frames before a
table on the way. -/
theorem refused {vaddr paddr : Nat} {flags : PageFlags} {status : VmmStatus} {m : Machine}
    (hlow : vaddr < 2 ^ 47) (hal : vaddr % 4096 = 0) (hpal : paddr % 4096 = 0)
    (hmap : mapPageInTable s.machine root vaddr paddr flags = some (status, m))
    (hne : status ≠ .success) :
    Tenancy args p₀ base extra root (s.withMachine m) ∧
      ((∃ l, s.Occupied root (pagePath vaddr) l) ∨
        ∃ p i, p ++ [i] <+: ptPath vaddr ∧ Traced s root p m ∧ m.pmm.Exhausted ∧
          ∀ l, ¬ (s.withMachine m).Occupied root (p ++ [i]) l) := by
  have hroot : s.IsRoot root := Or.inr h.live
  have hupper := not_upper_of_lt hlow
  have hkeeps := (h.keeps hupper flags).and (traced_keeps root hroot vaddr flags)
  rcases map_exit h.inv hroot hkeeps ⟨h, .refl s root []⟩ hmap with ⟨hinvalid, _⟩ | ⟨_, hexit⟩
  · exact absurd ⟨isCanonical_of_lt hlow, hal, hpal⟩ hinvalid
  cases hexit with
  | @exhausted p i m m' t hb hm hp halloc =>
    obtain ⟨hten, htrace⟩ := hm
    obtain ⟨_, hb', _⟩ := hten.account
    have hsize : m.pmm.bitmap.size ≤ 2 ^ 40 := hten.inv.size
    have hnone : m.pmm.Exhausted := (allocPage_eq_zero_iff hb'.now hsize).mp
      (congrArg Prod.fst (Machine.allocPage_pmm halloc))
    obtain rfl := Machine.allocPage_failed hb'.now.zero halloc
    refine ⟨hten, Or.inr ⟨p, i, hb.onPath, htrace, hnone, ?_⟩⟩
    intro l hocc
    have hf : follow next m.ram root (p ++ [i]) = some l := hocc.follows
    rw [follow_snoc hb.tableAt i, next_of_not_present hp] at hf
    cases hf
  | @huge m t hd hm hh =>
    have hocc : (s.withMachine m).Occupied root (pdPath vaddr) t :=
      ⟨tracked_of_root hroot (by rw [pdPath_length]; decide), hd.tableAt⟩
    have hplain := hm.1.plain hocc (by rw [pdPath_length])
      (lower_of_le (p := pdPath vaddr) (i := pdIndex vaddr) (List.prefix_refl _) hupper)
    exact absurd (hh.symm.trans hplain) (by decide)
  | @mapped m t hd hm hp =>
    refine ⟨hm.1, Or.inl ⟨(m.ram t (ptIndex vaddr)).physicalAddress, ?_⟩⟩
    have hocc : (s.withMachine m).Occupied root (pagePath vaddr)
        (m.ram t (ptIndex vaddr)).physicalAddress := by
      refine ⟨Or.inr ⟨h.live, pagePath_length vaddr, lower_pagePath hlow⟩, ?_⟩
      exact (follow_snoc hd.tableAt (ptIndex vaddr)).trans
        (next_of_present (by rw [ptPath_length]; decide) hp)
    rcases hm.2.positions hocc with hold | ⟨hbefore, _⟩
    · exact hold
    · have hle := hbefore.length_le
      rw [pagePath_length, ptPath_length] at hle
      omega
  | success => exact absurd rfl hne

end Tenancy

end System

end LlamaOS.Memory
