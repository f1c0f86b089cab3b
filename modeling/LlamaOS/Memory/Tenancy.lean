import LlamaOS.Memory.PageMapping
import LlamaOS.Memory.Borrowing

/-!
# What a user space owns

From its creation on, the frames borrowed for a space are its root, the tables and
pages of its user half, and the frames still held for it. Taking and freeing frames and
mapping pages keep this account exact, also when a mapping fails half-way.
-/

namespace LlamaOS.Memory
open RadixForest VirtualAddress PageTableEntry VirtualMemoryManager PageFlags Machine

theorem isHuge_addUser (e : PageTableEntry) : (addUser e).isHuge = e.isHuge := by
  have huser : user.getLsbD 7 = false := by decide
  rw [addUser, isHuge_set, BitVec.getLsbD_or, huser, Bool.or_false, flags_eq, BitVec.getLsbD_and,
    isHuge, bit_eq e (by decide), all_getLsbD]
  simp

namespace System
variable {s : System}

/-- The account of the space `root`: since `p₀` the frames taken are the space's own, those held
beyond `base`, and the frames in `extra` that belong to nobody here. -/
structure Tenancy (args : BootArgs) (p₀ : PhysicalMemoryManager) (base extra : Finset Nat)
    (root : Nat) (s : System) : Prop where
  inv : s.Inv
  live : root ∈ s.spaces
  idle : s.machine.activeRoot ≠ root
  account : ∃ frames, Borrowed args p₀ s.machine.pmm frames ∧
    ∀ a, a ∈ frames ↔ s.Private root a ∨ (a ∈ s.held ∧ a ∉ base) ∨ a ∈ extra
  plain : ∀ {p t i}, s.Occupied root p t → p.length ≤ 2 → Lower (p ++ [i]) →
    (s.ram t i).isHuge = false
  access : ∀ {p t}, s.Occupied root p t → p.length ≤ 3 → (p = [] ∨ Lower p) →
    s.machine.canAccess t = true
  kept : base ⊆ s.held
  apart : ∀ a ∈ extra, ¬ s.Private root a ∧ a ∉ s.held

variable {m : Machine}

theorem SameTables.owns (hsame : SameTables s m) {r l : Nat} :
    (s.withMachine m).Private r l ↔ s.Private r l := by
  unfold Private
  simp only [hsame.occupied]

theorem Grows.activeRoot (h : Grows s m) : m.activeRoot = s.machine.activeRoot :=
  activeRoot_congr h.cr3

variable {root : Nat}

section Linked
variable (hs : s.Inv) {r l n : Nat} {p : List (Fin 512)} {i : Fin 512} {e : PageTableEntry}
  (h : Link s r p l i e n)
include hs h

variable {a : Nat}

theorem Inv.private_linked_upper (hupper : ¬ Lower (p ++ [i])) :
    (s.withMachine (s.machine.write l i e)).Private root a ↔ s.Private root a := by
  constructor
  · rintro ⟨q, hq, hocc⟩
    rcases hs.occupied_linked h hocc with hold | ⟨_, rfl⟩
    · exact ⟨q, hq, hold⟩
    · rcases hq with hq | hq
      · simp at hq
      · exact absurd hq hupper
  · rintro ⟨q, hq, hocc⟩
    exact ⟨q, hq, hs.occupied_of_linked h hocc⟩

theorem Inv.private_linked (ht : s.Tracked r (p ++ [i])) (hlower : Lower (p ++ [i])) :
    (s.withMachine (s.machine.write l i e)).Private r a ↔ s.Private r a ∨ a = n := by
  constructor
  · rintro ⟨q, hq, hocc⟩
    rcases hs.occupied_linked h hocc with hold | ⟨rfl, _⟩
    · exact Or.inl ⟨q, hq, hold⟩
    · exact Or.inr rfl
  · rintro (⟨q, hq, hocc⟩ | rfl)
    · exact ⟨q, hq, hs.occupied_of_linked h hocc⟩
    · refine ⟨p ++ [i], Or.inr hlower, ht, ?_⟩
      have htable : follow next (s.machine.write l i e).ram r p = some l :=
        (follow_write_table s.prefixClosed hs.separated h.table i e h.table.tracked).trans
          h.table.follows
      have hentry : ((s.machine.write l i e).ram l i).next p.length = e.next p.length :=
        congrArg (next p.length) (write_self l i e)
      exact (follow_snoc htable i).trans (hentry.trans h.target)

end Linked

variable {r t pa : Nat} {p : List (Fin 512)} {i : Fin 512}

variable {vaddr : Nat}

theorem lower_of_le (h : p ++ [i] <+: ptPath vaddr) (hlower : ¬ Upper (pml4Index vaddr)) :
    Lower (p ++ [i]) := by
  obtain ⟨u, hu⟩ := h
  cases p with
  | nil =>
    cases hu
    exact ⟨_, [], rfl, hlower⟩
  | cons j p =>
    obtain ⟨rfl, _⟩ := List.cons.inj hu
    exact ⟨_, p ++ [i], rfl, hlower⟩

theorem Creates.own (hs : s.Inv) (hc : Creates s root m) (hp : p = [] ∨ Lower p)
    (ht : (s.withSpace root m).Occupied root p t) : p = [] ∧ t = root := by
  rcases hc.occupied_cases hs ht with ⟨hne, _⟩ | ⟨_, rfl, rfl⟩ | ⟨_, hupper, hk⟩
  · exact absurd rfl hne
  · exact ⟨rfl, rfl⟩
  · rcases hp with rfl | hlower
    · exact ⟨rfl, (Option.some.inj ht.follows).symm⟩
    · exact absurd hlower hupper

namespace Tenancy
variable {args : BootArgs} {p₀ : PhysicalMemoryManager} {base extra : Finset Nat} {root : Nat}
variable (h : Tenancy args p₀ base extra root s)
include h

theorem of_tables (hinv : (s.withMachine m).Inv) (hactive : m.activeRoot = s.machine.activeRoot)
    (hpmm : m.pmm = s.machine.pmm) (hsame : SameTables s m)
    (hacc : ∀ a, s.machine.canAccess a = true → m.canAccess a = true)
    (hhuge : ∀ {p t}, s.Occupied root p t → p.length ≤ 2 →
      ∀ i, (m.ram t i).isHuge = (s.ram t i).isHuge) :
    Tenancy args p₀ base extra root (s.withMachine m) := by
  refine ⟨hinv, h.live, hactive.trans_ne h.idle, ?_, ?_, ?_, h.kept, ?_⟩
  · obtain ⟨frames, hb, hmem⟩ := h.account
    refine ⟨frames, hpmm ▸ hb, fun a => ?_⟩
    rw [hsame.owns]
    exact hmem a
  · intro p t i ht hlen hlow
    rw [hsame.occupied] at ht
    exact (hhuge ht hlen i).trans (h.plain ht hlen hlow)
  · intro p t ht hlen hp
    exact hacc t (h.access (hsame.occupied.mp ht) hlen hp)
  · intro a ha
    rw [hsame.owns]
    exact h.apart a ha

theorem of_same (hg : Grows s m) (hpmm : m.pmm = s.machine.pmm) (hsame : SameTables s m)
    (hhuge : ∀ {p t}, s.Occupied root p t → p.length ≤ 2 →
      ∀ i, (m.ram t i).isHuge = (s.ram t i).isHuge) :
    Tenancy args p₀ base extra root (s.withMachine m) :=
  h.of_tables hg.inv hg.activeRoot hpmm hsame (fun a ha => (hg.canAccess_eq h.inv a).trans ha) hhuge

theorem raise (ht : s.Occupied r p t) (hlen : p.length ≤ 2)
    (hhuge : p.length = 2 → (s.ram t i).isHuge = false) (hp : (s.ram t i).isPresent = true) :
    Tenancy args p₀ base extra root
      (s.withMachine (s.machine.write t i (addUser (s.ram t i)))) := by
  refine h.of_same (h.inv.raise ht hlen hhuge hp) rfl
    (fun r' q _ => follow_write_same (next_addUser hp) r' q) ?_
  intro q t' _ _ j
  by_cases hat : t' = t ∧ j = i
  · obtain ⟨rfl, rfl⟩ := hat
    have hentry : (s.machine.write t' j (addUser (s.ram t' j))).ram t' j = addUser (s.ram t' j) :=
      write_self t' j _
    rw [hentry, isHuge_addUser]
  · exact congrArg isHuge (write_of_ne _ hat)

variable {paddr : Nat}

theorem store (i : Fin 512) (e : PageTableEntry)
    (hpage : paddr ∈ s.held ∨ ∃ r p, p.length = 4 ∧ s.Occupied r p paddr) :
    Tenancy args p₀ base extra root (s.withMachine (s.machine.write paddr i e)) := by
  refine h.of_same (h.inv.storePage i e hpage) rfl (h.inv.store_follow i e hpage) ?_
  intro p t ht hlen j
  rw [h.inv.store_ram i e hpage ht (by omega)]

theorem fresh_notMem (halloc : s.machine.allocPage = some (pa, m)) (hpa : pa ≠ 0) : pa ∉ extra := by
  obtain ⟨frames, hb, hmem⟩ := h.account
  rcases hb.allocPage (allocPage_pmm halloc) with ⟨hzero, _⟩ | ⟨_, hnot, _⟩
  · exact absurd hzero hpa
  · exact fun ha => hnot ((hmem pa).mpr (Or.inr (Or.inr ha)))

/-- New frames that the space holds are accounted for. -/
theorem of_taken {N : Nat → Prop} {fresh : Finset Nat} (hT : s.machine.Takes N m)
    (hN : ∀ a ∈ fresh, N a) (hinv : Inv { s with machine := m, held := s.held ∪ fresh })
    (hb : ∀ frames, Borrowed args p₀ s.machine.pmm frames → Disjoint frames fresh ∧
      Borrowed args p₀ m.pmm (frames ∪ fresh)) :
    Tenancy args p₀ base extra root { s with machine := m, held := s.held ∪ fresh } := by
  have hg := h.inv.take hT
  have hsame := h.inv.take_follow hT
  obtain ⟨frames, hframes, hmem⟩ := h.account
  obtain ⟨hdisj, hb'⟩ := hb frames hframes
  refine ⟨hinv, h.live, hg.activeRoot.trans_ne h.idle, ?_, ?_, ?_,
    h.kept.trans Finset.subset_union_left, ?_⟩
  · refine ⟨frames ∪ fresh, hb', fun a => ?_⟩
    change _ ↔ (s.withMachine m).Private root a ∨ (a ∈ s.held ∪ fresh ∧ a ∉ base) ∨ a ∈ extra
    rw [hsame.owns, Finset.mem_union, Finset.mem_union, hmem a]
    by_cases ha : a ∈ fresh
    · have hbase : a ∉ base := fun hin => (h.inv.take_fresh hT (hN a ha)).2.2 (h.kept hin)
      simp [ha, hbase]
    · simp [ha]
  · intro p t i ht hlen hlow
    change (m.ram t i).isHuge = false
    rw [h.inv.take_ram hT (hsame.occupied.mp ht)]
    exact h.plain (hsame.occupied.mp ht) hlen hlow
  · intro p t ht hlen hp
    exact (hg.canAccess_eq h.inv t).trans (h.access (hsame.occupied.mp ht) hlen hp)
  · intro a ha
    refine ⟨fun hprivate => (h.apart a ha).1 (hsame.owns.mp hprivate), ?_⟩
    rw [Finset.mem_union]
    rintro (hheld | hrun)
    · exact (h.apart a ha).2 hheld
    · exact Finset.disjoint_left.mp hdisj ((hmem a).mpr (Or.inr (Or.inr ha))) hrun

theorem take (halloc : s.machine.allocPage = some (pa, m)) (hpa : pa ≠ 0) :
    Tenancy args p₀ base extra root { s with machine := m, held := insert pa s.held } := by
  have hunion : ∀ held : Finset Nat, insert pa held = held ∪ {pa} :=
    fun held => Finset.union_comm {pa} held
  have hinv := inv_step h.inv (.frameTaken halloc hpa)
  rw [hunion] at hinv ⊢
  refine h.of_taken (allocPage_allocates halloc).takes ?_ hinv fun frames hb => ?_
  · intro a ha
    exact ⟨Finset.mem_singleton.mp ha, hpa⟩
  · rcases hb.allocPage (allocPage_pmm halloc) with ⟨hzero, _⟩ | ⟨_, hnot, hb'⟩
    · exact absurd hzero hpa
    · exact ⟨Finset.disjoint_singleton_right.mpr hnot, hunion frames ▸ hb'⟩

theorem free (hheld : pa ∈ s.held) (hbase : pa ∉ base) :
    Tenancy args p₀ base extra root
      { s with machine := s.machine.freePage pa, held := s.held.erase pa } := by
  have hprivate : ¬ s.Private root pa := by
    rintro ⟨p, _, hocc⟩
    exact h.inv.heldFree hheld root p hocc
  have hextra : pa ∉ extra := fun ha => (h.apart pa ha).2 hheld
  refine ⟨inv_step h.inv (.frameFreed hheld), h.live, h.idle, ?_, h.plain, h.access, ?_,
    fun a ha => ⟨(h.apart a ha).1, fun hmem => (h.apart a ha).2 (Finset.mem_of_mem_erase hmem)⟩⟩
  · obtain ⟨frames, hb, hmem⟩ := h.account
    have hpa : pa ∈ frames := (hmem pa).mpr (Or.inr (Or.inl ⟨hheld, hbase⟩))
    refine ⟨frames.erase pa, hb.release hpa, fun a => ?_⟩
    change a ∈ frames.erase pa ↔ s.Private root a ∨ (a ∈ s.held.erase pa ∧ a ∉ base) ∨ a ∈ extra
    rw [Finset.mem_erase, Finset.mem_erase, hmem a]
    by_cases ha : a = pa
    · simp [ha, hprivate, hextra]
    · simp [ha]
  · intro a ha
    exact Finset.mem_erase.mpr ⟨fun heq => hbase (heq ▸ ha), h.kept ha⟩

theorem exhausted {m : Machine} (halloc : s.machine.allocPage = some (0, m)) :
    Tenancy args p₀ base extra root (s.withMachine m) := by
  obtain ⟨frames, hb, _⟩ := h.account
  obtain rfl := allocPage_failed hb.now.zero halloc
  exact h

section Added
variable {r t : Nat} {p : List (Fin 512)} (ht : s.Occupied r p t) (hlen : p.length ≤ 2)
  {i : Fin 512}
variable (hp : (s.ram t i).isPresent = false) {pa : Nat} {m₁ : Machine}
variable (halloc : s.machine.allocPage = some (pa, m₁)) (hpa : pa ≠ 0) (flags : PageFlags)
variable (hacc : (m₁.write t i (set pa (tableFlags flags))).canAccess pa = true)
include ht hlen hp halloc hpa hacc

/-- A new table, wherever it is linked; `extra'` and the private frames say who owns it. -/
theorem addTable {extra' : Finset Nat}
    (hmember : ∀ a, (s.withMachine (m₁.write t i (set pa (tableFlags flags)))).Private root a ∨
      a ∈ extra' ↔ s.Private root a ∨ a = pa ∨ a ∈ extra)
    (hapart : ∀ a ∈ extra',
      ¬ (s.withMachine (m₁.write t i (set pa (tableFlags flags)))).Private root a ∧ a ∉ s.held) :
    Tenancy args p₀ base extra' root
      (s.withMachine (m₁.write t i (set pa (tableFlags flags)))) := by
  have hA := allocPage_allocates halloc
  have hg := h.inv.addTable ht hlen hp halloc hpa flags (isDirectMapped_of_canAccess hacc)
  have hlink := h.inv.allocLink ht hp halloc hpa flags (isDirectMapped_of_canAccess hacc)
  have hcases :
      ∀ {q t'}, (s.withMachine (m₁.write t i (set pa (tableFlags flags)))).Occupied root q t' →
      s.Occupied root q t' ∨ t' = pa := by
    intro q t' hq
    rcases (h.inv.alloc hA).inv.occupied_linked hlink hq with hold | ⟨heq, _⟩
    · exact Or.inl ((h.inv.take_follow hA.takes).occupied.mp hold)
    · exact Or.inr heq
  refine ⟨hg.inv, h.live, hg.activeRoot.trans_ne h.idle, ?_, ?_, ?_, h.kept, hapart⟩
  · obtain ⟨frames, hb, hmem⟩ := h.account
    rcases hb.allocPage (allocPage_pmm halloc) with ⟨hz, _⟩ | ⟨_, _, hb'⟩
    · exact absurd hz hpa
    refine ⟨insert pa frames, hb', fun a => ?_⟩
    have hiff := hmember a
    rw [Finset.mem_insert, hmem a]
    change _ ↔ _ ∨ (a ∈ s.held ∧ a ∉ base) ∨ a ∈ extra'
    tauto
  · intro q t' j hq hqlen hlow
    by_cases hat : t' = t ∧ j = i
    · obtain ⟨rfl, rfl⟩ := hat
      have hentry :
          (m₁.write t' j (set pa (tableFlags flags))).ram t' j = set pa (tableFlags flags) :=
        write_self t' j _
      change ((m₁.write t' j (set pa (tableFlags flags))).ram t' j).isHuge = false
      rw [hentry, isHuge_set]
      exact (tableFlags_bits flags).2
    have hentry : (m₁.write t i (set pa (tableFlags flags))).ram t' j = m₁.ram t' j :=
      write_of_ne _ hat
    change ((m₁.write t i (set pa (tableFlags flags))).ram t' j).isHuge = false
    rw [hentry]
    rcases hcases hq with hold | rfl
    · rw [h.inv.alloc_ram hA hold]
      exact h.plain hold hqlen hlow
    · rw [hA.zeroed hpa (isDirectMapped_of_canAccess hacc) j, isHuge_clear]
  · intro q t' hq hqlen hlow
    rcases hcases hq with hold | rfl
    · exact (hg.canAccess_eq h.inv t').trans (h.access hold hqlen hlow)
    · exact hacc

theorem addOwn (hr : r = root) (hlower : Lower (p ++ [i])) :
    Tenancy args p₀ base extra root (s.withMachine (m₁.write t i (set pa (tableFlags flags)))) := by
  subst hr
  have hA := allocPage_allocates halloc
  have hsame := h.inv.take_follow hA.takes
  have hlink := h.inv.allocLink ht hp halloc hpa flags (isDirectMapped_of_canAccess hacc)
  have htracked : (s.withMachine m₁).Tracked r (p ++ [i]) :=
    tracked_of_root (Or.inr h.live) (by rw [List.length_append, List.length_singleton]; omega)
  have hpriv := fun {a} => (h.inv.alloc hA).inv.private_linked hlink htracked hlower (a := a)
  apply h.addTable ht hlen hp halloc hpa flags hacc
  · intro a
    have hiff := (hpriv (a := a)).trans (or_congr_left hsame.owns)
    rw [← or_assoc]
    exact or_congr_left hiff
  · intro a ha
    refine ⟨fun hmem => ?_, (h.apart a ha).2⟩
    rcases hpriv.mp hmem with hold | rfl
    · exact (h.apart a ha).1 (hsame.owns.mp hold)
    · exact h.fresh_notMem halloc hpa ha

theorem addOther (hupper : ¬ Lower (p ++ [i])) :
    Tenancy args p₀ base (insert pa extra) root
      (s.withMachine (m₁.write t i (set pa (tableFlags flags)))) := by
  have hA := allocPage_allocates halloc
  have hsame := h.inv.take_follow hA.takes
  have hlink := h.inv.allocLink ht hp halloc hpa flags (isDirectMapped_of_canAccess hacc)
  have hpriv : ∀ {a}, (s.withMachine (m₁.write t i (set pa (tableFlags flags)))).Private root a ↔
      s.Private root a :=
    ((h.inv.alloc hA).inv.private_linked_upper hlink hupper).trans hsame.owns
  apply h.addTable ht hlen hp halloc hpa flags hacc
  · intro a
    rw [Finset.mem_insert]
    exact or_congr_left hpriv
  · intro a ha
    rcases Finset.mem_insert.mp ha with rfl | ha
    · refine ⟨fun hmem => ?_, (h.inv.alloc_fresh hA hpa).2.2⟩
      obtain ⟨q, hq, hold⟩ := hsame.owns.mpr (hpriv.mp hmem)
      exact hlink.fresh root q hold
    · exact ⟨fun hmem => (h.apart a ha).1 (hpriv.mp hmem), (h.apart a ha).2⟩

end Added

omit h in
theorem writeLeaf {pt : Nat} (hm : MapsInto s root vaddr paddr m pt)
    (h : Tenancy args p₀ base extra root (s.withMachine m)) (hlower : ¬ Upper (pml4Index vaddr))
    (hheld : paddr ∈ s.held) (hbase : paddr ∉ base) (flags : PageFlags) :
    Tenancy args p₀ base extra root
      { s with
        machine := m.write pt (ptIndex vaddr) (set paddr (flags ||| present))
        held := s.held.erase paddr } := by
  have hroot : s.IsRoot root := Or.inr h.live
  have hpt := hm.occupied hroot
  have hlow := (lower_ptPath vaddr).mpr hlower
  have hlink := hm.leafLink hroot hheld flags
  have hpriv := fun {a} => h.inv.private_linked hlink
    (Or.inr ⟨h.live, rfl, lower_snoc hlow (ptIndex vaddr)⟩) (lower_snoc hlow (ptIndex vaddr))
      (a := a)
  have hcases := fun {q t} => @Inv.occupied_linked _ h.inv _ _ _ _ _ _ hlink root t q
  refine ⟨hm.inv_user ⟨h.live, hlower⟩ hheld flags, h.live, h.idle, ?_, ?_, ?_, ?_, ?_⟩
  · obtain ⟨frames, hb, hmem⟩ := h.account
    refine ⟨frames, hb, fun a => (hmem a).trans ?_⟩
    change _ ↔ (s.withMachine (m.write pt (ptIndex vaddr) _)).Private root a ∨
      (a ∈ s.held.erase paddr ∧ a ∉ base) ∨ a ∈ extra
    have hiff := hpriv (a := a)
    change (s.withMachine (m.write pt (ptIndex vaddr) _)).Private root a ↔ _ at hiff
    rw [hiff, Finset.mem_erase]
    change _ ∨ (a ∈ s.held ∧ _) ∨ _ ↔ _
    by_cases ha : a = paddr
    · simp [ha, hheld, hbase]
    · simp [ha]
  · intro q t j hq hqlen hqlow
    rcases hcases hq with hold | ⟨_, rfl⟩
    · have hne : ¬ (t = pt ∧ j = ptIndex vaddr) := by
        rintro ⟨rfl, _⟩
        obtain ⟨rfl, _⟩ := h.inv.separated hold hpt
        simp [ptPath] at hqlen
      have hentry : (m.write pt (ptIndex vaddr) (set paddr (flags ||| present))).ram t j =
        m.ram t j := write_of_ne _ hne
      exact (congrArg isHuge hentry).trans (h.plain hold hqlen hqlow)
    · simp [ptPath] at hqlen
  · intro q t hq hqlen hqlow
    rcases hcases hq with hold | ⟨_, rfl⟩
    · exact hm.canAccess_written hroot _ (h.access hold hqlen hqlow)
    · simp [ptPath] at hqlen
  · intro a ha
    exact Finset.mem_erase.mpr ⟨fun heq => hbase (heq ▸ ha), h.kept ha⟩
  · intro a ha
    refine ⟨fun hmem => ?_, fun hmem => (h.apart a ha).2 (Finset.mem_of_mem_erase hmem)⟩
    rcases hpriv.mp hmem with hold | rfl
    · exact (h.apart a ha).1 hold
    · exact (h.apart a ha).2 hheld

theorem keeps (hlower : ¬ Upper (pml4Index vaddr)) (flags : PageFlags) :
    Keeps s root vaddr flags fun _ m => Tenancy args p₀ base extra root (s.withMachine m) where
  found := fun _ hm _ _ => hm
  raised := by
    intro p i m t hb hm hp _
    exact hm.raise (hb.occupied (Or.inr h.live)) hb.length_le hb.small hp
  added := by
    intro p i m t pa m₁ hb hm hp halloc hpa hacc
    refine hm.addOwn (hb.occupied (Or.inr h.live)) hb.length_le hp halloc hpa flags hacc rfl ?_
    exact lower_of_le hb.onPath hlower

theorem map {flags : PageFlags} {status : VmmStatus} (hlower : ¬ Upper (pml4Index vaddr))
    (hheld : paddr ∈ s.held) (hbase : paddr ∉ base)
    (hmap : mapPageInTable s.machine root vaddr paddr flags = some (status, m)) :
    (status ≠ .success ∧ Tenancy args p₀ base extra root (s.withMachine m)) ∨
      (status = .success ∧
        Tenancy args p₀ base extra root { s with machine := m, held := s.held.erase paddr }) := by
  rcases map_exit h.inv (Or.inr h.live) (h.keeps hlower flags) h hmap with
    ⟨_, hne, rfl⟩ | ⟨_, hexit⟩
  · exact Or.inl ⟨hne, h⟩
  cases hexit with
  | exhausted hb hm _ halloc => exact Or.inl ⟨by decide, hm.exhausted halloc⟩
  | huge _ hm _ => exact Or.inl ⟨by decide, hm⟩
  | mapped _ hm _ => exact Or.inl ⟨by decide, hm⟩
  | success hi hm => exact Or.inr ⟨rfl, writeLeaf hi hm hlower hheld hbase flags⟩

omit h in
theorem created (hs : s.Inv) (hpmm : Consistent args s.machine.pmm)
    (hcreate : createUserAddressSpace s.machine = some (root, m)) (hroot : root ≠ 0) :
    Tenancy args s.machine.pmm s.held ∅ root (s.withSpace root m) := by
  rcases create_cases hs hcreate with ⟨hzero, _⟩ | ⟨_, hc⟩
  · exact absurd hzero hroot
  have hown := fun {p t} => hc.own hs (p := p) (t := t)
  have hfirst : (s.withSpace root m).Occupied root [] root :=
    occupied_root (Or.inr (Finset.mem_insert_self root s.spaces))
  refine ⟨hc.inv hs, Finset.mem_insert_self root s.spaces, ?_, ?_, ?_, ?_, Finset.Subset.refl _,
    fun a ha => absurd ha (Finset.notMem_empty a)⟩
  · intro heq
    have hactive := activeRoot_congr hc.cr3
    exact hs.not_occupied_of_clear hc.fresh.clear _ []
      (hactive.symm.trans heq ▸ occupied_root hs.active)
  · rcases (Borrowed.start hpmm).allocPage hc.alloc with ⟨hzero, _⟩ | ⟨_, _, hb⟩
    · exact absurd hzero hroot
    refine ⟨{root}, hb, fun a => ?_⟩
    rw [Finset.mem_singleton]
    constructor
    · rintro rfl
      exact Or.inl ⟨[], Or.inl rfl, hfirst⟩
    · rintro (⟨p, hp, ha⟩ | ⟨hheld, hbase⟩ | hnone)
      · exact (hown hp ha).2
      · exact absurd hheld hbase
      · exact absurd hnone (Finset.notMem_empty a)
  · intro p t i ht hlen hlower
    cases p with
    | nil =>
      obtain ⟨_, rfl⟩ := hown (Or.inl rfl) ht
      obtain ⟨j, q, hpath, hj⟩ := hlower
      cases hpath
      exact (congrArg isHuge (hc.lower i hj)).trans isHuge_clear
    | cons j p =>
      obtain ⟨k, q, hpath, hk⟩ := hlower
      cases hpath
      obtain ⟨hnil, _⟩ := hown (Or.inr ⟨j, p, rfl, hk⟩) ht
      cases hnil
  · intro p t ht hlen hp
    obtain ⟨_, rfl⟩ := hown hp ht
    exact (hc.canAccess_eq hs t).trans hc.access

end Tenancy

end System

end LlamaOS.Memory
