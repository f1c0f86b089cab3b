import LlamaOS.Memory.Traces
import LlamaOS.Shared.WordBytes

/-!
# Bytes of page frames

A frame holds 512 words of eight bytes. Kernel code writes bytes through the direct
map, user code sees them through the tables of its root.
-/

namespace LlamaOS.Memory
open WordBytes RadixForest

def wordIndex (pa : Nat) : Fin 512 := ⟨pa % pageSize / 8, by simp only [pageSize]; omega⟩

namespace Machine

def byteAt (m : Machine) (pa : Nat) : BitVec 8 :=
  getByte (m.ram (pa / pageSize * pageSize) (wordIndex pa)).raw (pa % 8)

def storeByte (m : Machine) (pa : Nat) (b : BitVec 8) : Machine :=
  let frame := pa / pageSize * pageSize
  m.write frame (wordIndex pa) ⟨setByte (m.ram frame (wordIndex pa)).raw (pa % 8) b⟩

/-- The byte that a program running under `root` reads at `vaddr`. -/
def userByte (m : Machine) (root vaddr : Nat) : Option (BitVec 8) :=
  (walk m.ram root vaddr).map fun target => m.byteAt target.1

theorem byteAt_congr {m m' : Machine} {frame a : Nat} (h : m.ram frame = m'.ram frame)
    (ha : a / 4096 * 4096 = frame) : m.byteAt a = m'.byteAt a := by
  unfold byteAt
  rw [show a / pageSize * pageSize = frame from ha, h]

theorem byteAt_of_clear {m : Machine} {frame a : Nat} (h : ∀ i, m.ram frame i = .clear)
    (ha : a / 4096 * 4096 = frame) : m.byteAt a = 0#8 := by
  unfold byteAt
  rw [show a / pageSize * pageSize = frame from ha, h]
  exact getByte_zero _

theorem byteAt_storeByte_self (m : Machine) (pa : Nat) (b : BitVec 8) :
    (m.storeByte pa b).byteAt pa = b := by
  have hentry : (m.storeByte pa b).ram (pa / pageSize * pageSize) (wordIndex pa) =
      ⟨setByte (m.ram (pa / pageSize * pageSize) (wordIndex pa)).raw (pa % 8) b⟩ :=
    write_self _ _ _
  rw [byteAt, hentry]
  exact getByte_setByte_self _ (by omega) b

theorem byteAt_storeByte_of_ne (m : Machine) {pa a : Nat} (hne : a ≠ pa) (b : BitVec 8) :
    (m.storeByte pa b).byteAt a = m.byteAt a := by
  by_cases hat : a / pageSize * pageSize = pa / pageSize * pageSize ∧ wordIndex a = wordIndex pa
  · have hentry : (m.storeByte pa b).ram (a / pageSize * pageSize) (wordIndex a) =
        ⟨setByte (m.ram (a / pageSize * pageSize) (wordIndex a)).raw (pa % 8) b⟩ := by
      rw [hat.1, hat.2]
      exact write_self _ _ _
    have hword := congrArg Fin.val hat.2
    have hframe := hat.1
    simp only [wordIndex, pageSize] at hword hframe
    rw [byteAt, hentry, byteAt]
    exact getByte_setByte_of_ne _ (by omega) (by omega) b
  · have hentry : (m.storeByte pa b).ram (a / pageSize * pageSize) (wordIndex a) =
        m.ram (a / pageSize * pageSize) (wordIndex a) := write_of_ne _ hat
    rw [byteAt, hentry, byteAt]

def storeBytes (m : Machine) (pa : Nat) (bytes : Nat → BitVec 8) (len : Nat) : Machine :=
  (List.range len).foldl (fun m i => m.storeByte (pa + i) (bytes i)) m

theorem storeBytes_succ (m : Machine) (pa : Nat) (bytes : Nat → BitVec 8) (len : Nat) :
    m.storeBytes pa bytes (len + 1) = (m.storeBytes pa bytes len).storeByte (pa + len)
      (bytes len) := by
  rw [storeBytes, List.range_succ, List.foldl_append]
  rfl

theorem byteAt_storeBytes (m : Machine) (pa : Nat) (bytes : Nat → BitVec 8) (len a : Nat) :
    (m.storeBytes pa bytes len).byteAt a =
      if pa ≤ a ∧ a < pa + len then bytes (a - pa) else m.byteAt a := by
  induction len with
  | zero =>
    rw [if_neg (by omega)]
    rfl
  | succ len ih =>
    rw [storeBytes_succ]
    by_cases hat : a = pa + len
    · rw [hat, byteAt_storeByte_self, if_pos (by omega), Nat.add_sub_cancel_left]
    · rw [byteAt_storeByte_of_ne _ hat, ih]
      have hiff : (pa ≤ a ∧ a < pa + len) ↔ (pa ≤ a ∧ a < pa + (len + 1)) := by omega
      simp only [hiff]

end Machine

/-!
## A new page in a user space

A frame is taken, mapped in the user half and filled. Seen as one step this gives one
page its translation and contents and leaves every other page as it was.
-/

open VirtualAddress PageTableEntry VirtualMemoryManager PageFlags

/-- The position of a 4 KiB page. -/
def pagePath (vaddr : Nat) : List (Fin 512) := ptPath vaddr ++ [ptIndex vaddr]

theorem pagePath_length (vaddr : Nat) : (pagePath vaddr).length = 4 := rfl

variable {vaddr : Nat}

theorem not_upper_of_lt (h : vaddr < 2 ^ 47) : ¬ Upper (pml4Index vaddr) := by
  simp only [Upper, pml4Index, tableIndex_val]
  omega

theorem isCanonical_of_lt (h : vaddr < 2 ^ 47) : isCanonical vaddr = true :=
  (isCanonical_iff vaddr).mpr (Or.inl h)

variable {p : List (Fin 512)}

theorem nil_or_lower_of_le (h : vaddr < 2 ^ 47) (hp : p <+: pagePath vaddr) : p = [] ∨ Lower p := by
  obtain ⟨u, hu⟩ := hp
  cases p with
  | nil => exact Or.inl rfl
  | cons i p =>
    obtain ⟨rfl, _⟩ := List.cons.inj hu
    exact Or.inr ⟨_, p, rfl, not_upper_of_lt h⟩

theorem lower_pagePath (h : vaddr < 2 ^ 47) : Lower (pagePath vaddr) :=
  ⟨pml4Index vaddr, [pdptIndex vaddr, pdIndex vaddr, ptIndex vaddr], rfl, not_upper_of_lt h⟩

namespace System
variable {s : System}

variable {root : Nat}

theorem Uses.trans {base : Finset Nat} {t u : System} (h : Uses base root s t)
    (h' : Uses base root t u) : Uses base root s u := by
  induction h' with
  | refl => exact h
  | step _ hstep hop ih => exact ih.step hstep hop

/-- A frame that holds a page: one that is held, or one that is mapped for the user. -/
def PageFrame (s : System) (a : Nat) : Prop := a ∈ s.held ∨ ∃ r p, p.length = 4 ∧ s.Occupied r p a

/-- What placing the frame `pa` at `vaddr` makes of the system. -/
structure PagePlaced (s : System) (root vaddr pa : Nat) (flags : PageFlags) (m : Machine) :
    Prop where
  uses : Uses s.held root s (s.withMachine m)
  inv : (s.withMachine m).Inv
  page : (s.withMachine m).Occupied root (pagePath vaddr) pa
  fresh : ∀ r p, ¬ s.Occupied r p pa
  aligned : pa % 4096 = 0
  absent : walk s.ram root vaddr = none
  kept : ∀ {r p l}, s.Occupied r p l → (s.withMachine m).Occupied r p l
  positions : ∀ {r p l}, (s.withMachine m).Occupied r p l → s.Occupied r p l ∨ p <+: pagePath vaddr
  untouched : ∀ {a}, s.machine.taken a = true → (∀ p, p <+: ptPath vaddr → ¬ s.Occupied root p a) →
    m.ram a = s.ram a
  drew : s.machine.pmm.Drew m.pmm
  empty : ∀ i, m.ram pa i = .clear
  walkPage : ∀ o < 4096, walk m.ram root (vaddr + o) = some (pa + o, flags ||| present)
  walkOther : ∀ vaddr', isCanonical vaddr' = true → vaddr' / 4096 ≠ vaddr / 4096 →
    walk m.ram root vaddr' = walk s.ram root vaddr'

variable {pa a : Nat} {flags : PageFlags} {m : Machine}

theorem PagePlaced.contents (hs : s.Inv) (h : s.PagePlaced root vaddr pa flags m) {r : Nat}
    (hlen : p.length = 4) (hocc : s.Occupied r p a) : m.ram a = s.ram a := by
  apply h.untouched (hs.owned hocc).taken
  intro q hq hocc'
  obtain ⟨rfl, _⟩ := hs.separated hocc hocc'
  have hle := hq.length_le
  rw [ptPath_length] at hle
  omega

theorem pagePlaced (hs : s.Inv) {m₁ : Machine} (hroot : root ∈ s.spaces) (hlow : vaddr < 2 ^ 47)
    (hall : flags &&& all = flags) (halloc : s.machine.allocPage = some (pa, m₁)) (hpa : pa ≠ 0)
    (hdirect : PhysicalAddress.isDirectMapped pa = true)
    (hmap : mapPageInTable m₁ root vaddr pa flags = some (.success, m)) :
    PagePlaced s root vaddr pa flags m := by
  have hA := Machine.allocPage_allocates halloc
  have hg := hs.alloc hA
  obtain ⟨hown, hfree, hnot⟩ := hs.alloc_fresh hA hpa
  have hback : ∀ {r p l}, (s.withMachine m₁).Occupied r p l → s.Occupied r p l :=
    (hs.take_follow hA.takes).occupied.mp
  have hstep₁ : Step s .takeFrame { s with machine := m₁, held := insert pa s.held } :=
    .frameTaken halloc hpa
  have hs₁ := inv_step hs hstep₁
  have hheld : pa ∈ insert pa s.held := Finset.mem_insert_self pa s.held
  have huser : IsUserPage { s with machine := m₁, held := insert pa s.held } root vaddr :=
    ⟨hroot, not_upper_of_lt hlow⟩
  have hstep₂ := Step.mappedUser huser hheld hmap
  have hsame : (insert pa s.held).erase pa = s.held := Finset.erase_insert hnot
  have hs₂ : (s.withMachine m).Inv := by
    have h := inv_step hs₁ hstep₂
    rw [show (insert pa s.held).erase pa = s.held from hsame] at h
    exact h
  have huses : Uses s.held root s (s.withMachine m) := by
    have h :=
      ((Uses.refl s).step hstep₁ trivial).step hstep₂ ⟨rfl, not_upper_of_lt hlow, hheld, hnot⟩
    rw [show (insert pa s.held).erase pa = s.held from hsame] at h
    exact h
  have hroot₁ : IsRoot { s with machine := m₁, held := insert pa s.held } root := Or.inr hroot
  rcases map_exit hs₁ hroot₁ (traced_keeps root hroot₁ vaddr flags) (.refl _ root []) hmap with
    ⟨_, hne, _⟩ | ⟨_, hexit⟩
  · exact absurd rfl hne
  cases hexit with
  | @success m₃ pt hm htrace =>
    have hpt := hm.occupied hroot₁
    have hlink := hm.leafLink hroot₁ hheld flags
    -- writes after the first allocation go to tables on the way only
    have huntouched : ∀ {a}, m₁.taken a = true → (∀ p, p <+: ptPath vaddr → ¬ s.Occupied root p a) →
        (m₃.write pt (ptIndex vaddr) (set pa (flags ||| present))).ram a = m₁.ram a :=
      fun ha hnot => htrace.write_ram hpt _ _ ha fun p hp hocc => hnot p hp (hback hocc)
    have hreach : ∀ {vaddr'}, walk m₁.ram root vaddr' = walk s.ram root vaddr' :=
      fun {vaddr'} => hg.walk_eq (Or.inr hroot) vaddr'
    have hal := hm.pageAligned
    have habsent : walk m₃.ram root vaddr = none := by
      rw [walk_of_pt hm.follow_pt, hm.absent]
      rfl
    refine ⟨huses, hs₂, ?_, ?_, hown.aligned,
      (hreach.symm.trans (hm.grows.walk_eq hroot₁ vaddr).symm).trans habsent, ?_, ?_, ?_,
        ?_, ?_, ?_, ?_⟩
    · refine ⟨Or.inr ⟨hroot, pagePath_length vaddr, lower_pagePath hlow⟩, ?_⟩
      have htable := (hm.follow_written hroot₁ (set pa (flags ||| present)) hroot₁
        (ptPath vaddr) (Nat.le_refl 3)).trans hm.follow_pt
      have hentry : ((m₃.write pt (ptIndex vaddr) (set pa (flags ||| present))).ram pt
          (ptIndex vaddr)).next 3 = some pa :=
        (congrArg (next 3) (write_self pt (ptIndex vaddr) _)).trans hlink.target
      exact (follow_snoc htable (ptIndex vaddr)).trans hentry
    · intro r p hocc
      exact hfree r p (hg.occupied hocc)
    · intro r p l hocc
      have hocc₁ : Occupied { s with machine := m₁, held := insert pa s.held } r p l :=
        hg.occupied hocc
      exact hm.grows.inv.occupied_of_linked hlink (hm.grows.occupied hocc₁)
    · intro r p l hocc
      rcases hm.grows.inv.occupied_linked hlink hocc with hold | ⟨_, rfl⟩
      · rcases htrace.positions hold with hold | ⟨hp, _⟩
        · exact Or.inl (hback hold)
        · exact Or.inr (hp.trans (List.prefix_append _ _))
      · exact Or.inr (List.prefix_refl _)
    · intro a ha hnot
      rw [huntouched (hA.keeps a ha) hnot]
      exact hA.takes.unchanged a fun hat => hA.ne_of_taken hpa ha hat.1
    · exact ((PhysicalMemoryManager.Drew.refl _).alloc (Machine.allocPage_pmm halloc) hpa).trans
        htrace.drew
    · intro i
      rw [huntouched hown.taken fun p _ hocc => hfree root p (hg.occupied hocc)]
      exact hA.zeroed hpa hdirect i
    · intro o ho
      have hflags : (flags ||| present) &&& all = flags ||| present := by
        rw [BitVec.and_comm, BitVec.and_or_distrib_left, BitVec.and_comm, hall]
        congr 1
      rw [hm.walk_page hroot₁ _ (isPresent_leaf pa flags) ho, smallTarget,
        physicalAddress_set _ hown.aligned hown.below, flags_set, hflags, pageOffset_eq,
        show (vaddr + o) % 4096 = o by omega, add64_eq (by have := hown.below; omega)]
    · intro vaddr' hcanon hne
      exact (hm.walk_other hroot₁ _ hcanon hne).trans hreach

/-- Bytes stored in a page frame change nothing but these bytes. -/
structure Filled (s : System) (root pa : Nat) (m : Machine) : Prop where
  uses : Uses s.held root s (s.withMachine m)
  inv : (s.withMachine m).Inv
  occupied : ∀ {r p l}, (s.withMachine m).Occupied r p l ↔ s.Occupied r p l
  walks : ∀ {r}, s.IsRoot r → ∀ vaddr, walk m.ram r vaddr = walk s.ram r vaddr
  others : ∀ a, a ≠ pa → m.ram a = s.ram a
  pmm : m.pmm = s.machine.pmm

theorem Filled.refl (hs : s.Inv) (root pa : Nat) : Filled s root pa s.machine :=
  ⟨.refl s, hs, Iff.rfl, fun _ _ => rfl, fun _ _ => rfl, rfl⟩

theorem Filled.storeByte (h : Filled s root pa m) (hpage : ∃ r p, p.length = 4 ∧ s.Occupied r p pa)
    (ha : a / 4096 * 4096 = pa) (b : BitVec 8) :
    Filled s root pa (m.storeByte a b) := by
  have hpage' : (s.withMachine m).PageFrame (a / pageSize * pageSize) := by
    obtain ⟨r, p, hlen, hocc⟩ := hpage
    have hocc' : (s.withMachine m).Occupied r p (a / 4096 * 4096) := by
      rw [ha]
      exact h.occupied.mpr hocc
    exact Or.inr ⟨r, p, hlen, hocc'⟩
  have hg := h.inv.storePage (wordIndex a)
    ⟨WordBytes.setByte (m.ram (a / pageSize * pageSize) (wordIndex a)).raw (a % 8) b⟩ hpage'
  have hfollow := h.inv.store_follow (wordIndex a)
    ⟨WordBytes.setByte (m.ram (a / pageSize * pageSize) (wordIndex a)).raw (a % 8) b⟩ hpage'
  refine ⟨?_, hg.inv, ?_, ?_, ?_, h.pmm⟩
  · exact h.uses.step (.stored hpage') trivial
  · intro r p l
    exact hfollow.occupied.trans h.occupied
  · intro r hr vaddr
    exact (hg.walk_eq hr vaddr).trans (h.walks hr vaddr)
  · intro a' hne
    rw [← h.others a' hne]
    funext i
    exact write_of_ne _ fun hat => hne (hat.1.trans ha)

theorem Filled.storeBytes (hs : s.Inv) (hpage : ∃ r p, p.length = 4 ∧ s.Occupied r p pa)
    (hal : pa % 4096 = 0) {offset len : Nat} (hin : offset + len ≤ 4096) (bytes : Nat → BitVec 8) :
    Filled s root pa (s.machine.storeBytes (pa + offset) bytes len) := by
  induction len with
  | zero => exact .refl hs root pa
  | succ len ih =>
    rw [Machine.storeBytes_succ]
    exact (ih (by omega)).storeByte hpage (by omega) _

end System

end LlamaOS.Memory
