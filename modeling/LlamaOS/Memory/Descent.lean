import LlamaOS.Memory.TableUpdates

/-!
# The way down to a page table

`map_page_in_table` goes through three entries before it reaches the page table. What
each entry makes of the machine is said once, and the exits of the whole call are
stated for any property that these changes keep.
-/

namespace LlamaOS.Memory
open RadixForest VirtualAddress PageTableEntry VirtualMemoryManager PageFlags Machine

/-- The mapping is for the user and the entry keeps the user out. -/
def needsUser (flags : PageFlags) (e : PageTableEntry) : Bool :=
  testFlag flags user && !e.isUser

def addUser (e : PageTableEntry) : PageTableEntry := .set e.physicalAddress (e.flags ||| user)

/-- What one level makes of the machine, and the table it leads to. -/
inductive Ensured (m : Machine) (table : Nat) (i : Fin 512) (flags : PageFlags) :
    Option Nat → Machine → Prop where
  | found (hp : (m.ram table i).isPresent = true) (hu : needsUser flags (m.ram table i) = false) :
      Ensured m table i flags (some (m.ram table i).physicalAddress) m
  | raised (hp : (m.ram table i).isPresent = true) (hu : needsUser flags (m.ram table i) = true) :
      Ensured m table i flags (some (addUser (m.ram table i)).physicalAddress)
        (m.write table i (addUser (m.ram table i)))
  | exhausted {m' : Machine} (hp : (m.ram table i).isPresent = false)
      (h : m.allocPage = some (0, m')) : Ensured m table i flags none m'
  | added {pa : Nat} {m₁ : Machine} (hp : (m.ram table i).isPresent = false)
      (h : m.allocPage = some (pa, m₁)) (hpa : pa ≠ 0) :
      Ensured m table i flags (some (set pa (tableFlags flags)).physicalAddress)
        (m₁.write table i (.set pa (tableFlags flags)))

variable {m m' : Machine} {table : Nat} {i : Fin 512} {res : Option Nat}

theorem of_tableAt (h : tableAt m table i = some (res, m')) :
    m' = m ∧ res = some (m.ram table i).physicalAddress ∧
      m.canAccess (m.ram table i).physicalAddress = true := by
  unfold tableAt at h
  dsimp only at h
  split at h
  · rename_i hacc
    cases h
    exact ⟨rfl, rfl, hacc⟩
  · cases h

theorem of_tableAt_write {e : PageTableEntry}
    (h : tableAt (m.write table i e) table i = some (res, m')) :
    m' = m.write table i e ∧ res = some e.physicalAddress ∧
      m'.canAccess e.physicalAddress = true := by
  obtain ⟨rfl, rfl, hacc⟩ := of_tableAt h
  have hentry : (m.write table i e).ram table i = e := write_self table i e
  rw [hentry] at hacc ⊢
  exact ⟨rfl, rfl, hacc⟩

variable {flags : PageFlags}

theorem ensureTable_cases (h : ensureTable m table i flags = some (res, m')) :
    Ensured m table i flags res m' ∧ ∀ n, res = some n → m'.canAccess n = true := by
  unfold ensureTable at h
  by_cases hp : (m.ram table i).isPresent = true
  · rw [if_neg (by simp [hp])] at h
    split at h
    · rename_i hu
      obtain ⟨rfl, rfl, hacc⟩ := of_tableAt_write h
      exact ⟨.raised hp hu, fun n hn => Option.some.inj hn ▸ hacc⟩
    · rename_i hu
      obtain ⟨rfl, rfl, hacc⟩ := of_tableAt h
      exact ⟨.found hp (Bool.not_eq_true _ ▸ hu), fun n hn => Option.some.inj hn ▸ hacc⟩
  · rw [Bool.not_eq_true] at hp
    rw [if_pos (by simp [hp]), bind_eq_some] at h
    obtain ⟨⟨pa, m₁⟩, halloc, h⟩ := h
    dsimp only at h
    split at h
    · rename_i hpa
      cases h
      exact ⟨.exhausted hp (hpa ▸ halloc), fun n hn => by cases hn⟩
    · rename_i hpa
      obtain ⟨rfl, rfl, hacc⟩ := of_tableAt_write h
      exact ⟨.added hp halloc hpa, fun n hn => Option.some.inj hn ▸ hacc⟩

theorem physicalAddress_addUser (e : PageTableEntry) :
    (addUser e).physicalAddress = e.physicalAddress :=
  physicalAddress_set _ (physicalAddress_spec e).1 (physicalAddress_spec e).2

namespace System
variable {s : System}

theorem of_guard {p : Prop} [Decidable p] {u : Unit} (h : (guard p : Option Unit) = some u) :
    p := by
  unfold guard at h
  split at h
  · assumption
  · cases h

section Level
variable (hs : s.Inv) {r table : Nat} {p : List (Fin 512)} (hocc : s.Occupied r p table)
variable (hlen : p.length ≤ 2) {i : Fin 512}
include hs hocc hlen

theorem Inv.raise (hhuge : p.length = 2 → (s.ram table i).isHuge = false)
    (hp : (s.ram table i).isPresent = true) :
    Grows s (s.machine.write table i (addUser (s.ram table i))) := by
  have hnew := (next_addUser hp p.length).trans (next_eq_some hp hhuge)
  exact hs.relabel hocc hlen i hnew (next_addUser hp)

omit hlen in
theorem Inv.allocLink (hp : (s.ram table i).isPresent = false) {pa : Nat} {m₁ : Machine}
    (halloc : s.machine.allocPage = some (pa, m₁)) (hpa : pa ≠ 0) (flags : PageFlags)
    (hdirect : PhysicalAddress.isDirectMapped pa = true) :
    Link (s.withMachine m₁) r p table i (set pa (tableFlags flags)) pa := by
  have hA := allocPage_allocates halloc
  obtain ⟨hown, hfree, _⟩ := hs.alloc_fresh hA hpa
  obtain ⟨hbit, hnot⟩ := tableFlags_bits flags
  refine ⟨(hs.alloc hA).occupied hocc, ?_, next_set hown.aligned hown.below hbit fun _ => hnot,
    hfree, fun _ => hA.zeroed hpa hdirect⟩
  rw [← hp, ← hs.alloc_ram hA hocc]
  rfl

theorem Inv.addTable (hp : (s.ram table i).isPresent = false) {pa : Nat} {m₁ : Machine}
    (halloc : s.machine.allocPage = some (pa, m₁)) (hpa : pa ≠ 0) (flags : PageFlags)
    (hdirect : PhysicalAddress.isDirectMapped pa = true) :
    Grows s (m₁.write table i (set pa (tableFlags flags))) := by
  have hg := hs.alloc (allocPage_allocates halloc)
  obtain ⟨hown, _, hheld⟩ := hs.alloc_fresh (allocPage_allocates halloc) hpa
  have hlink := hs.allocLink hocc hp halloc hpa flags hdirect
  exact hg.trans (hg.inv.linkTable hlink hown hheld hlen)

theorem ensureTable_grows (hhuge : p.length = 2 → (s.ram table i).isHuge = false)
    (h : ensureTable s.machine table i flags = some (res, m)) :
    Grows s m ∧ ∀ n, res = some n → follow next m.ram r (p ++ [i]) = some n ∧
      m.canAccess n = true := by
  obtain ⟨hcase, hacc⟩ := ensureTable_cases h
  -- where the entry leads once the tables above it are known to stay
  have hfound : ∀ {n}, Grows s m → (m.ram table i).next p.length = some n →
      follow next m.ram r (p ++ [i]) = some n := by
    intro n hg hn
    have hf : follow next m.ram r p = some table := (hg.occupied hocc).follows
    rw [follow_snoc hf i, hn]
  cases hcase with
  | found hp hu =>
    have hg := Grows.refl hs
    refine ⟨hg, fun n hn => ⟨?_, hacc n hn⟩⟩
    exact hn ▸ hfound hg (next_eq_some hp hhuge)
  | raised hp hu =>
    have hg := hs.raise hocc hlen hhuge hp
    refine ⟨hg, fun n hn => ⟨?_, hacc n hn⟩⟩
    have hnext := (next_addUser hp p.length).trans (next_eq_some hp hhuge)
    rw [physicalAddress_addUser] at hn
    exact hn ▸ hfound hg ((congrArg (next p.length) (write_self table i _)).trans hnext)
  | exhausted hp halloc => exact ⟨hs.alloc (allocPage_allocates halloc), fun n hn => by cases hn⟩
  | @added pa m₁ hp halloc hpa =>
    obtain ⟨hown, _, _⟩ := hs.alloc_fresh (allocPage_allocates halloc) hpa
    have hpaeq : (set pa (tableFlags flags)).physicalAddress = pa :=
      physicalAddress_set _ hown.aligned hown.below
    -- the new table can be reached, so `alloc_page` has zeroed it
    have hdirect := isDirectMapped_of_canAccess (hpaeq ▸ hacc _ rfl)
    have hg := hs.addTable hocc hlen hp halloc hpa flags hdirect
    obtain ⟨hbit, hnot⟩ := tableFlags_bits flags
    refine ⟨hg, fun n hn => ⟨?_, hacc n hn⟩⟩
    rw [hpaeq] at hn
    exact hn ▸ hfound hg ((congrArg (next p.length) (write_self table i _)).trans
      (next_set hown.aligned hown.below hbit fun _ => hnot))

end Level

/-- The descent has reached table `t` below `root`. -/
structure Descended (s : System) (root : Nat) (p : List (Fin 512)) (m : Machine) (t : Nat) :
    Prop where
  grows : Grows s m
  tableAt : follow next m.ram root p = some t
  access : m.canAccess t = true

/-- The descent stands before entry `i` of table `t`, which is a table pointer or nothing. -/
structure Before (s : System) (root vaddr : Nat) (p : List (Fin 512)) (i : Fin 512) (m : Machine)
    (t : Nat) : Prop extends Descended s root p m t where
  onPath : p ++ [i] <+: ptPath vaddr
  small : p.length = 2 → (m.ram t i).isHuge = false

variable {p : List (Fin 512)} {root vaddr t : Nat}

theorem Before.length_le (h : Before s root vaddr p i m t) : p.length ≤ 2 := by
  have hlen := h.onPath.length_le
  rw [List.length_append, List.length_singleton] at hlen
  exact Nat.le_of_succ_le_succ hlen

theorem Before.occupied (h : Before s root vaddr p i m t) (hroot : s.IsRoot root) :
    (s.withMachine m).Occupied root p t := by
  have hlen := h.length_le
  exact ⟨tracked_of_root hroot (by omega), h.tableAt⟩

theorem Descended.top (hs : s.Inv) (hacc : s.machine.canAccess root = true) :
    Descended s root [] s.machine root := ⟨Grows.refl hs, rfl, hacc⟩

theorem Descended.mono (h : Descended s root p m t) (hroot : s.IsRoot root) (hlen : p.length ≤ 3)
    (hg : Grows (s.withMachine m) m') : Descended s root p m' t :=
  ⟨h.grows.trans hg, hg.follows (tracked_of_root hroot hlen) h.tableAt,
    (hg.canAccess_eq h.grows.inv t).trans h.access⟩

/-- A property, indexed by the way gone so far, that every level keeps. -/
structure Keeps (s : System) (root vaddr : Nat) (flags : PageFlags)
    (P : List (Fin 512) → Machine → Prop) : Prop where
  found : ∀ {p i m t}, Before s root vaddr p i m t → P p m → (m.ram t i).isPresent = true →
    needsUser flags (m.ram t i) = false → P (p ++ [i]) m
  raised : ∀ {p i m t}, Before s root vaddr p i m t → P p m → (m.ram t i).isPresent = true →
    needsUser flags (m.ram t i) = true → P (p ++ [i]) (m.write t i (addUser (m.ram t i)))
  added : ∀ {p i m t pa m₁}, Before s root vaddr p i m t → P p m → (m.ram t i).isPresent = false →
    m.allocPage = some (pa, m₁) → pa ≠ 0 →
    (m₁.write t i (.set pa (tableFlags flags))).canAccess pa = true →
    P (p ++ [i]) (m₁.write t i (.set pa (tableFlags flags)))

theorem Keeps.and {root vaddr : Nat} {flags : PageFlags} {P Q : List (Fin 512) → Machine → Prop}
    (hP : Keeps s root vaddr flags P) (hQ : Keeps s root vaddr flags Q) :
    Keeps s root vaddr flags fun p m => P p m ∧ Q p m where
  found := fun hb hm hp hu => ⟨hP.found hb hm.1 hp hu, hQ.found hb hm.2 hp hu⟩
  raised := fun hb hm hp hu => ⟨hP.raised hb hm.1 hp hu, hQ.raised hb hm.2 hp hu⟩
  added := fun hb hm hp halloc hpa hacc =>
    ⟨hP.added hb hm.1 hp halloc hpa hacc, hQ.added hb hm.2 hp halloc hpa hacc⟩

section Exits
variable {root vaddr : Nat} {flags : PageFlags} {P : List (Fin 512) → Machine → Prop}

theorem Keeps.level (hP : Keeps s root vaddr flags P) (hroot : s.IsRoot root)
    (hb : Before s root vaddr p i m t) (hm : P p m) (h : ensureTable m t i flags = some (res, m')) :
    (res = none ∧ (m.ram t i).isPresent = false ∧ m.allocPage = some (0, m')) ∨
      ∃ n, res = some n ∧ Grows (s.withMachine m) m' ∧ Descended s root (p ++ [i]) m' n ∧
        P (p ++ [i]) m' := by
  obtain ⟨hg, hres⟩ := ensureTable_grows hb.grows.inv (hb.occupied hroot) hb.length_le hb.small h
  have hgoto : ∀ n, res = some n → P (p ++ [i]) m' → ∃ n, res = some n ∧
      Grows (s.withMachine m) m' ∧ Descended s root (p ++ [i]) m' n ∧ P (p ++ [i]) m' :=
    fun n hn hm' => ⟨n, hn, hg, ⟨hb.grows.trans hg, (hres n hn).1, (hres n hn).2⟩, hm'⟩
  cases (ensureTable_cases h).1 with
  | found hp hu => exact Or.inr (hgoto _ rfl (hP.found hb hm hp hu))
  | raised hp hu => exact Or.inr (hgoto _ rfl (hP.raised hb hm hp hu))
  | exhausted hp halloc => exact Or.inl ⟨rfl, hp, halloc⟩
  | added hp halloc hpa =>
    obtain ⟨hown, _, _⟩ := hb.grows.inv.alloc_fresh (allocPage_allocates halloc) hpa
    have hacc := (hres _ rfl).2
    rw [physicalAddress_set _ hown.aligned hown.below] at hacc
    exact Or.inr (hgoto _ rfl (hP.added hb hm hp halloc hpa hacc))

end Exits

/-- The tables above a page, as the mapping found or made them. -/
structure TablesAbove (m : Machine) (root vaddr pdpt pd pt : Nat) : Prop where
  pdptAt : follow next m.ram root [pml4Index vaddr] = some pdpt
  pdAt : follow next m.ram root (pdPath vaddr) = some pd
  ptAt : follow next m.ram root (ptPath vaddr) = some pt
  access : ∀ a ∈ [root, pdpt, pd, pt], m.canAccess a = true

structure MapsInto (s : System) (root vaddr paddr : Nat) (m : Machine) (pt : Nat) : Prop where
  grows : Grows s m
  tables : ∃ pdpt pd, TablesAbove m root vaddr pdpt pd pt
  absent : (m.ram pt (ptIndex vaddr)).isPresent = false
  canonical : isCanonical vaddr = true
  pageAligned : vaddr % 4096 = 0
  targetAligned : paddr % 4096 = 0

/-- The arguments that pass the first checks of `map_page_in_table`. -/
def ValidArgs (vaddr paddr : Nat) : Prop :=
  isCanonical vaddr = true ∧ vaddr % 4096 = 0 ∧ paddr % 4096 = 0

/-- How a call with valid arguments ends. -/
inductive MapExit (s : System) (root vaddr paddr : Nat) (flags : PageFlags)
    (P : List (Fin 512) → Machine → Prop) : VmmStatus → Machine → Prop where
  | exhausted {p : List (Fin 512)} {i : Fin 512} {m m' : Machine} {t : Nat}
      (hb : Before s root vaddr p i m t) (hm : P p m) (hp : (m.ram t i).isPresent = false)
      (h : m.allocPage = some (0, m')) : MapExit s root vaddr paddr flags P .outOfMemory m'
  | huge {m : Machine} {t : Nat} (hd : Descended s root (pdPath vaddr) m t)
      (hm : P (pdPath vaddr) m) (hh : (m.ram t (pdIndex vaddr)).isHuge = true) :
      MapExit s root vaddr paddr flags P .hugePageCollision m
  | mapped {m : Machine} {t : Nat} (hd : Descended s root (ptPath vaddr) m t)
      (hm : P (ptPath vaddr) m) (hp : (m.ram t (ptIndex vaddr)).isPresent = true) :
      MapExit s root vaddr paddr flags P .alreadyMapped m
  | success {m : Machine} {pt : Nat} (hi : MapsInto s root vaddr paddr m pt)
      (hm : P (ptPath vaddr) m) : MapExit s root vaddr paddr flags P .success
        (m.write pt (ptIndex vaddr) (.set paddr (flags ||| present)))

theorem Inv.root_ne_zero (hs : s.Inv) {r : Nat} (hr : s.IsRoot r) : r ≠ 0 :=
  (hs.owned (occupied_root hr)).nonnull

theorem Inv.mapPage_eq (hs : s.Inv) (vaddr paddr : Nat) (flags : PageFlags) :
    mapPage s.machine vaddr paddr flags = mapPageInTable s.machine s.kernelRoot vaddr
      paddr flags := by
  rw [mapPage, hs.vmm]

variable {paddr : Nat} {status : VmmStatus}

theorem map_exit (hs : s.Inv) (hroot : s.IsRoot root) {P : List (Fin 512) → Machine → Prop}
    (hP : Keeps s root vaddr flags P) (hstart : P [] s.machine)
    (h : mapPageInTable s.machine root vaddr paddr flags = some (status, m)) :
    (¬ ValidArgs vaddr paddr ∧ status ≠ .success ∧ m = s.machine) ∨
      (ValidArgs vaddr paddr ∧ MapExit s root vaddr paddr flags P status m) := by
  have hnull : PhysicalAddress.isNull root = false := beq_false_of_ne (hs.root_ne_zero hroot)
  have hinit : s.machine.vmm.initialized = true := by rw [hs.vmm]
  unfold mapPageInTable at h
  rw [hinit] at h
  split at h
  · rename_i hno
    cases hno
  split at h
  · rename_i hcanon
    cases h
    refine Or.inl ⟨fun hvalid => ?_, by decide, rfl⟩
    rw [hvalid.1] at hcanon
    cases hcanon
  rename_i hcanon
  split at h
  · rename_i halign
    cases h
    refine Or.inl ⟨fun hvalid => ?_, by decide, rfl⟩
    rw [(isPageAligned_iff vaddr).mpr hvalid.2.1,
      (PhysicalAddress.isPageAligned_iff paddr).mpr hvalid.2.2] at halign
    cases halign
  rename_i halign
  simp only [Bool.or_eq_true, Bool.not_eq_true', not_or, Bool.not_eq_false] at halign hcanon
  have hvalid : ValidArgs vaddr paddr := ⟨hcanon, (isPageAligned_iff vaddr).mp halign.1,
    (PhysicalAddress.isPageAligned_iff paddr).mp halign.2⟩
  refine Or.inr ⟨hvalid, ?_⟩
  rw [if_neg (by rw [hnull]; decide)] at h
  obtain ⟨_, hacc, h⟩ := bind_eq_some.mp h
  have d₀ := Descended.top hs (of_guard hacc)
  have b₀ : Before s root vaddr [] (pml4Index vaddr) s.machine root :=
    ⟨d₀, ⟨[pdptIndex vaddr, pdIndex vaddr], rfl⟩, fun hd => by cases hd⟩
  obtain ⟨⟨res, m₁⟩, h₁, h⟩ := bind_eq_some.mp h
  rcases hP.level hroot b₀ hstart h₁ with ⟨rfl, hp, halloc⟩ | ⟨pdpt, rfl, hg₁, d₁, hm₁⟩
  · cases h
    exact .exhausted b₀ hstart hp halloc
  have b₁ : Before s root vaddr [pml4Index vaddr] (pdptIndex vaddr) m₁ pdpt :=
    ⟨d₁, ⟨[pdIndex vaddr], rfl⟩, fun hd => by cases hd⟩
  obtain ⟨⟨res, m₂⟩, h₂, h⟩ := bind_eq_some.mp h
  rcases hP.level hroot b₁ hm₁ h₂ with ⟨rfl, hp, halloc⟩ | ⟨pd, rfl, hg₂, d₂, hm₂⟩
  · cases h
    exact .exhausted b₁ hm₁ hp halloc
  dsimp only at h
  split at h
  · rename_i hh
    cases h
    exact .huge d₂ hm₂ hh
  rename_i hhuge
  rw [Bool.not_eq_true] at hhuge
  have b₂ : Before s root vaddr (pdPath vaddr) (pdIndex vaddr) m₂ pd :=
    ⟨d₂, ⟨[], rfl⟩, fun _ => hhuge⟩
  obtain ⟨⟨res, m₃⟩, h₃, h⟩ := bind_eq_some.mp h
  rcases hP.level hroot b₂ hm₂ h₃ with ⟨rfl, hp, halloc⟩ | ⟨pt, rfl, hg₃, d₃, hm₃⟩
  · cases h
    exact .exhausted b₂ hm₂ hp halloc
  dsimp only at h
  split at h
  · rename_i hp
    cases h
    exact .mapped d₃ hm₃ hp
  rename_i habsent
  rw [Bool.not_eq_true] at habsent
  cases h
  have e₀ := d₀.mono hroot (Nat.zero_le 3) (hg₁.trans (hg₂.trans hg₃))
  have e₁ := d₁.mono hroot (by simp) (hg₂.trans hg₃)
  have e₂ := d₂.mono hroot (by simp) hg₃
  refine .success ⟨d₃.grows, ⟨pdpt, pd, e₁.tableAt, e₂.tableAt, d₃.tableAt, ?_⟩, habsent, hvalid.1,
    hvalid.2.1, hvalid.2.2⟩ hm₃
  simp only [List.forall_mem_cons]
  exact ⟨e₀.access, e₁.access, e₂.access, d₃.access, List.forall_mem_nil _⟩

/-- A failed call only grows the tables; a successful one then writes one leaf. -/
theorem map_cases (hs : s.Inv) (hroot : s.IsRoot root)
    (h : mapPageInTable s.machine root vaddr paddr flags = some (status, m)) :
    (status ≠ .success ∧ Grows s m) ∨
      (status = .success ∧ ∃ m₃ pt, MapsInto s root vaddr paddr m₃ pt ∧
        m = m₃.write pt (ptIndex vaddr) (.set paddr (flags ||| present))) := by
  have hP : Keeps s root vaddr flags fun _ _ => True :=
    ⟨fun _ _ _ _ => trivial, fun _ _ _ _ => trivial, fun _ _ _ _ _ _ => trivial⟩
  rcases map_exit hs hroot hP trivial h with ⟨_, hne, rfl⟩ | ⟨_, hexit⟩
  · exact Or.inl ⟨hne, Grows.refl hs⟩
  cases hexit with
  | exhausted hb _ _ halloc =>
    exact Or.inl ⟨by decide, hb.grows.trans (hb.grows.inv.alloc (allocPage_allocates halloc))⟩
  | huge hd _ _ => exact Or.inl ⟨by decide, hd.grows⟩
  | mapped hd _ _ => exact Or.inl ⟨by decide, hd.grows⟩
  | success hi _ => exact Or.inr ⟨rfl, _, _, hi, rfl⟩

end System

end LlamaOS.Memory
