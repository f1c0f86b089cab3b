import LlamaOS.Memory.Vmm

/-!
# Translations as leaves of a radix tree

The entries that point to another table make the page tables a forest. A walk ends at
a leaf: a large-page entry of a page directory or a present entry of a page table.
-/

namespace LlamaOS

namespace VirtualAddress

theorem tableIndex_val (shift a : Nat) : (tableIndex shift a).val = a / 2 ^ shift % 512 := by
  have h : (a >>> shift) &&& 511 = (a >>> shift) % 512 := Nat.and_two_pow_sub_one_eq_mod _ 9
  rw [← Nat.shiftRight_eq_div_pow]
  exact h

theorem pageOffset_eq (a : Nat) : pageOffset a = a % 4096 := Nat.and_two_pow_sub_one_eq_mod a 12

theorem isPageAligned_iff (a : Nat) : isPageAligned a = true ↔ a % 4096 = 0 :=
  PhysicalAddress.isPageAligned_iff a

theorem isCanonical_iff (a : Nat) :
    isCanonical a = true ↔ a < 2 ^ 47 ∨ (2 ^ 64 - 2 ^ 47 ≤ a ∧ a < 2 ^ 64) := by
  have h : a >>> 47 = a / 2 ^ 47 := Nat.shiftRight_eq_div_pow a 47
  simp only [isCanonical, h, Bool.or_eq_true, beq_iff_eq]
  omega

def pdPath (a : Nat) : List (Fin 512) := [pml4Index a, pdptIndex a]

def ptPath (a : Nat) : List (Fin 512) := [pml4Index a, pdptIndex a, pdIndex a]

variable {a : Nat}

theorem tableIndex_add_offset {o shift : Nat} (ha : a % 4096 = 0) (ho : o < 4096)
    (hs : 12 ≤ shift) : tableIndex shift (a + o) = tableIndex shift a := by
  apply Fin.ext
  have hpow : 2 ^ shift = 4096 * 2 ^ (shift - 12) := by
    rw [show (4096 : Nat) =
      2 ^ 12 by decide, ← Nat.pow_add, show 12 + (shift - 12) = shift by omega]
  have hdiv : (a + o) / 4096 = a / 4096 := by omega
  rw [tableIndex_val, tableIndex_val, hpow, ← Nat.div_div_eq_div_mul, ← Nat.div_div_eq_div_mul,
    hdiv]

theorem page_eq_of_indices {b : Nat} (ha : isCanonical a = true) (hb : isCanonical b = true)
    (hpath : ptPath a = ptPath b) (hpt : ptIndex a = ptIndex b) : a / 4096 = b / 4096 := by
  simp only [ptPath, List.cons.injEq, and_true] at hpath
  obtain ⟨h4, h3, h2⟩ := hpath
  have e4 := congrArg Fin.val h4
  have e3 := congrArg Fin.val h3
  have e2 := congrArg Fin.val h2
  have e1 := congrArg Fin.val hpt
  simp only [pml4Index, pdptIndex, pdIndex, ptIndex, tableIndex_val] at e1 e2 e3 e4
  rw [isCanonical_iff] at ha hb
  omega

end VirtualAddress

namespace Memory
open RadixForest VirtualAddress

variable {l : Nat}

namespace PageTableEntry

/-- The frame that an entry with `depth` indices above its table points to. Large pages are looked
for in page directories only. -/
def next (depth : Nat) (e : PageTableEntry) : Option Nat :=
  if e.isPresent && !(depth == 2 && e.isHuge) then some e.physicalAddress else none

variable {depth : Nat} {e : PageTableEntry}

theorem next_eq_some (hp : e.isPresent = true) (hh : depth = 2 → e.isHuge = false) :
    e.next depth = some e.physicalAddress := by
  unfold next
  by_cases hd : depth = 2
  · simp [hp, hh hd]
  · simp [hp, hd]

theorem next_of_present (hd : depth ≠ 2) (hp : e.isPresent = true) :
    e.next depth = some e.physicalAddress := next_eq_some hp fun h => absurd h hd

theorem isPresent_of_next (h : e.next depth = some l) :
    e.isPresent = true ∧ (depth = 2 → e.isHuge = false) ∧ e.physicalAddress = l := by
  unfold next at h
  split at h
  · rename_i hcond
    simp only [Bool.and_eq_true, Bool.not_eq_true', Bool.and_eq_false_imp, beq_iff_eq] at hcond
    exact ⟨hcond.1, hcond.2, Option.some.inj h⟩
  · cases h

theorem next_of_not_present (hp : e.isPresent = false) : e.next depth = none := by
  rw [next, hp]
  rfl

theorem next_of_huge (hh : e.isHuge = true) : e.next 2 = none := by
  simp [next, hh]

theorem isPresent_set (pa : Nat) (f : PageFlags) : (set pa f).isPresent = f.getLsbD 0 :=
  bit_set pa f (by decide)

theorem isHuge_set (pa : Nat) (f : PageFlags) : (set pa f).isHuge = f.getLsbD 7 :=
  bit_set pa f (by decide)

@[simp] theorem isPresent_clear : clear.isPresent = false := by decide

@[simp] theorem isHuge_clear : clear.isHuge = false := by decide

@[simp] theorem next_clear (depth : Nat) : clear.next depth = none :=
  next_of_not_present isPresent_clear

theorem next_set {pa : Nat} {f : PageFlags} (hal : pa % 4096 = 0) (hlt : pa < 2 ^ 52)
    (hp : f.getLsbD 0 = true) (hh : depth = 2 → f.getLsbD 7 = false) :
    (set pa f).next depth = some pa := by
  rw [next_eq_some (by rw [isPresent_set, hp]) (fun hd => by rw [isHuge_set, hh hd]),
    physicalAddress_set f hal hlt]

end PageTableEntry

open PageTableEntry

/-- An entry that ends a walk, by the number of indices above its table. -/
def isLeaf (depth : Nat) (e : PageTableEntry) : Bool :=
  if depth = 2 then e.isPresent && e.isHuge else e.isPresent

def leafAt (ram : Ram) (r : Nat) (p : List (Fin 512)) (i : Fin 512) : Option PageTableEntry :=
  (entryAt next ram r p i).filter (isLeaf p.length)

variable {ram : Ram} {r : Nat} {p : List (Fin 512)}

theorem leafAt_of_follow (h : follow next ram r p = some l) (i : Fin 512) :
    leafAt ram r p i = if isLeaf p.length (ram l i) then some (ram l i) else none := by
  rw [leafAt, entryAt_of_follow h, Option.filter_some]

theorem leafAt_of_none (h : follow next ram r p = none) (i : Fin 512) :
    leafAt ram r p i = none := by
  rw [leafAt, entryAt, h, Option.map_none, Option.filter_none]

def largeTarget (vaddr : Nat) (e : PageTableEntry) : Nat × PageFlags :=
  (add64 e.physicalAddress (vaddr &&& 0x1FFFFF), e.flags)

def smallTarget (vaddr : Nat) (e : PageTableEntry) : Nat × PageFlags :=
  (add64 e.physicalAddress (pageOffset vaddr), e.flags)

def walkPd (ram : Ram) (pd vaddr : Nat) : Option (Nat × PageFlags) :=
  let pde := ram pd (pdIndex vaddr)
  if !pde.isPresent then none
  else if pde.isHuge then some (largeTarget vaddr pde)
  else
    let pte := ram pde.physicalAddress (ptIndex vaddr)
    if !pte.isPresent then none else some (smallTarget vaddr pte)

theorem walk_eq_walkPd (ram : Ram) (r vaddr : Nat) :
    walk ram r vaddr = (follow next ram r (pdPath vaddr)).bind fun pd => walkPd ram pd vaddr := by
  rw [pdPath, follow_cons]
  simp only [walk]
  by_cases hp4 : (ram r (pml4Index vaddr)).isPresent = true
  · rw [hp4, next_of_present (by decide) hp4, Option.bind_some, followFrom_cons]
    by_cases hp3 :
        (ram (ram r (pml4Index vaddr)).physicalAddress (pdptIndex vaddr)).isPresent = true
    · rw [next_of_present (by decide) hp3, hp3]
      rfl
    · rw [Bool.not_eq_true] at hp3
      simp [hp3, next_of_not_present hp3]
  · rw [Bool.not_eq_true] at hp4
    simp [hp4, next_of_not_present hp4]

theorem walk_eq_leaves (ram : Ram) (r vaddr : Nat) :
    walk ram r vaddr =
      ((leafAt ram r (pdPath vaddr) (pdIndex vaddr)).map (largeTarget vaddr)).or
        ((leafAt ram r (ptPath vaddr) (ptIndex vaddr)).map (smallTarget vaddr)) := by
  rw [walk_eq_walkPd]
  cases hpd : follow next ram r (pdPath vaddr) with
  | none =>
    have hpt : follow next ram r (ptPath vaddr) = none := by
      rw [show ptPath vaddr = pdPath vaddr ++ [pdIndex vaddr] from rfl, follow_append, hpd]
      rfl
    rw [leafAt_of_none hpd, leafAt_of_none hpt]
    rfl
  | some pd =>
    have hpt : follow next ram r (ptPath vaddr) = (ram pd (pdIndex vaddr)).next 2 :=
      follow_snoc hpd (pdIndex vaddr)
    rw [leafAt_of_follow hpd, Option.bind_some]
    unfold walkPd
    by_cases hp : (ram pd (pdIndex vaddr)).isPresent = true
    · by_cases hh : (ram pd (pdIndex vaddr)).isHuge = true
      · simp [hp, hh, isLeaf, pdPath]
      rw [Bool.not_eq_true] at hh
      rw [next_eq_some hp (fun _ => hh)] at hpt
      rw [leafAt_of_follow hpt]
      by_cases hp1 : (ram (ram pd (pdIndex vaddr)).physicalAddress (ptIndex vaddr)).isPresent = true
      · simp [hp, hh, hp1, isLeaf, pdPath, ptPath]
      · simp [hp, hh, hp1, isLeaf, pdPath, ptPath]
    · rw [Bool.not_eq_true] at hp
      rw [next_of_not_present hp] at hpt
      simp [hp, isLeaf, pdPath, leafAt_of_none hpt]

theorem walk_of_pt {vaddr pt : Nat} (hpt : follow next ram r (ptPath vaddr) = some pt) :
    walk ram r vaddr = if (ram pt (ptIndex vaddr)).isPresent then
      some (smallTarget vaddr (ram pt (ptIndex vaddr))) else none := by
  have hsplit : follow next ram r (pdPath vaddr ++ [pdIndex vaddr]) = some pt := hpt
  rw [follow_append] at hsplit
  obtain ⟨pd, hpd, _⟩ := Option.bind_eq_some_iff.mp hsplit
  have hnext := (follow_snoc hpd (pdIndex vaddr)).symm.trans hpt
  obtain ⟨hp, hh, hpa⟩ := isPresent_of_next hnext
  rw [walk_eq_walkPd, hpd, Option.bind_some]
  simp only [walkPd, hp, hh rfl, hpa, Bool.not_true, Bool.false_eq_true, if_false]
  cases (ram pt (ptIndex vaddr)).isPresent with
  | false => rfl
  | true => rfl

/-- Two memories with the same leaves below a root. -/
def SameLeaves (ram ram' : Ram) (r : Nat) : Prop :=
  ∀ p i, p.length = 2 ∨ p.length = 3 → leafAt ram' r p i = leafAt ram r p i

variable {ram' : Ram}

theorem SameLeaves.trans {ram'' : Ram} (h : SameLeaves ram ram' r) (h' : SameLeaves ram' ram'' r) :
    SameLeaves ram ram'' r :=
  fun p i hp => (h' p i hp).trans (h p i hp)

theorem sameLeaves_of_tables
    (hram : ∀ p l, p.length ≤ 3 → follow next ram r p = some l → ram' l = ram l) :
    SameLeaves ram ram' r := by
  intro p i hlen
  have hf : follow next ram' r p = follow next ram r p := by
    apply follow_congr
    intro q j t l hpath hl
    rw [hram q l (by rw [hpath, List.length_append] at hlen; omega) hl]
  cases hl : follow next ram r p with
  | none => rw [leafAt_of_none hl, leafAt_of_none (hf.trans hl)]
  | some l => rw [leafAt_of_follow hl, leafAt_of_follow (hf.trans hl), hram p l (by omega) hl]

theorem SameLeaves.walk_eq (h : SameLeaves ram ram' r) (vaddr : Nat) :
    walk ram' r vaddr = walk ram r vaddr := by
  rw [walk_eq_leaves, walk_eq_leaves, h (pdPath vaddr) _ (Or.inl rfl),
    h (ptPath vaddr) _ (Or.inr rfl)]

end Memory

end LlamaOS
