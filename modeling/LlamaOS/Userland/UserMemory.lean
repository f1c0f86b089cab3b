import LlamaOS.Userland.ElfLoader

/-!
# Validation of user pointers

`UserMemoryValidator` with the page walks behind it. The validators look at whole pages,
what they are for is stated byte by byte.
-/

namespace LlamaOS.Memory
open VirtualAddress

theorem walk_flags_page (ram : Ram) (r a : Nat) :
    (walk ram r (a / 4096 * 4096)).map Prod.snd = (walk ram r a).map Prod.snd := by
  have hsplit : a = a / 4096 * 4096 + a % 4096 := by omega
  have hmod : a / 4096 * 4096 % 4096 = 0 := Nat.mul_mod_left _ _
  have hlt : a % 4096 < 4096 := Nat.mod_lt _ (by decide)
  generalize a / 4096 * 4096 = base at hsplit hmod
  generalize a % 4096 = o at hsplit hlt
  subst hsplit
  have h4 : pml4Index (base + o) = pml4Index base := tableIndex_add_offset hmod hlt (by decide)
  have h3 : pdptIndex (base + o) = pdptIndex base := tableIndex_add_offset hmod hlt (by decide)
  have h2 : pdIndex (base + o) = pdIndex base := tableIndex_add_offset hmod hlt (by decide)
  have h1 : ptIndex (base + o) = ptIndex base := tableIndex_add_offset hmod hlt (by decide)
  simp only [walk, h4, h3, h2, h1]
  split
  · rfl
  split
  · rfl
  split
  · rfl
  split
  · rfl
  · split
    · rfl
    · rfl

end LlamaOS.Memory

namespace LlamaOS.Userland
open Memory VirtualMemoryManager

/-- A load by the kernel through the active tables. -/
def loadByte (m : Machine) (va : Nat) : Option (BitVec 8) :=
  if VirtualAddress.isCanonical va then m.userByte m.activeRoot va else none

/-- A store by the kernel through the active tables. -/
def storeByte (m : Machine) (va : Nat) (b : BitVec 8) : Option Machine :=
  if VirtualAddress.isCanonical va then
    (walk m.ram m.activeRoot va).map fun target => m.storeByte target.1 b
  else none

/-- What a system call does at a user address. -/
inductive UserAccess where
  | checked (page : Nat)
  | validated (start length : Nat)
  | read (addr : Nat)
  | write (addr : Nat)
deriving DecidableEq

namespace UserMemoryValidator

abbrev userAddrMin : Nat := 0x0000000000001000
abbrev userAddrMax : Nat := 0x00007FFFFFFFFFFF
abbrev maxUserBufferSize : Nat := 16 * 1024 * 1024

def isUserAddress (addr : Nat) : Bool := addr ≥ userAddrMin && addr ≤ userAddrMax

def isUserRange (start length : Nat) : Bool :=
  if length = 0 then false
  else if length > maxUserBufferSize then false
  else if !isUserAddress start then false
  else
    let endAddr := add64 start length
    if endAddr < start then false
    else
      let lastByte := sub64 endAddr 1
      if lastByte > userAddrMax then false else true

/-- The checks the validators make for one page. -/
def checkPage (m : Machine) (required : List PageFlags) (va : Nat) : Bool :=
  match translate m va with
  | none => false
  | some (_, flags) => required.all (testFlag flags)

/-- `for (va_val = page_start; va_val < page_end; va_val += PAGE_SIZE)`. -/
def bufferPages (start length : Nat) : List Nat :=
  let endAddr := add64 start length
  let pageStart := start &&& (2 ^ 64 - pageSize)
  let pageEnd := roundUpMask endAddr
  (List.range ((pageEnd - pageStart) / pageSize)).map fun k => pageStart + k * pageSize

def validateBuffer (m : Machine) (required : List PageFlags) (ptr length : Nat) : Bool :=
  if ptr = 0 ∨ length = 0 then false
  else if !isUserRange ptr length then false
  else (bufferPages ptr length).all (checkPage m required)

abbrev readFlags : List PageFlags := [PageFlags.present, PageFlags.user]
abbrev writeFlags : List PageFlags := [PageFlags.present, PageFlags.user, PageFlags.writable]

def validateReadBuffer (m : Machine) (ptr length : Nat) : Bool :=
  validateBuffer m readFlags ptr length

def validateWriteBuffer (m : Machine) (ptr length : Nat) : Bool :=
  validateBuffer m writeFlags ptr length

def validateUserBuffer (m : Machine) (ptr length : Nat) (requireWritable : Bool) : Bool :=
  if requireWritable then validateWriteBuffer m ptr length else validateReadBuffer m ptr length

/-- The loop of `validate_string` for at most `left` more characters, with the accesses it makes.
The result is `*out_len`, or `none` for `false`. -/
def scanString (m : Machine) (start : Nat) : Nat → Nat → List UserAccess × Except Fault (Option Nat)
  | 0, _ => ([], .ok none)
  | left + 1, len =>
    let currentAddr := add64 start len
    if currentAddr > userAddrMax then ([], .ok none)
    else
      let pageVa := currentAddr &&& (2 ^ 64 - pageSize)
      if !checkPage m readFlags pageVa then ([.checked pageVa], .ok none)
      else
        match loadByte m currentAddr with
        | none => ([.checked pageVa, .read currentAddr], .error .pageFault)
        | some b =>
          if b = 0 then ([.checked pageVa, .read currentAddr], .ok (some len))
          else
            let (accesses, result) := scanString m start left (len + 1)
            (.checked pageVa :: .read currentAddr :: accesses, result)

def validateString (m : Machine) (str maxLen : Nat) : List UserAccess × Except Fault (Option Nat) :=
  if str = 0 ∨ maxLen = 0 then ([], .ok none)
  else if !isUserAddress str then ([], .ok none)
  else scanString m str maxLen 0

/-- The page of the byte translates with the required flags. -/
def PageGrants (m : Machine) (required : List PageFlags) (a : Nat) : Prop :=
  ∃ pa flags, translate m a = some (pa, flags) ∧ ∀ f ∈ required, testFlag flags f = true

theorem isUserAddress_iff (a : Nat) : isUserAddress a = true ↔ 0x1000 ≤ a ∧ a < 2 ^ 47 := by
  simp only [isUserAddress, userAddrMin, userAddrMax, Bool.and_eq_true, decide_eq_true_eq]
  omega

theorem isUserRange_iff (start length : Nat) :
    isUserRange start length = true ↔
      (0 < length ∧ length ≤ 16 * 1024 * 1024) ∧ 0x1000 ≤ start ∧ start + length ≤ 2 ^ 47 := by
  simp only [isUserRange, maxUserBufferSize, userAddrMax]
  by_cases hlen : 0 < length ∧ length ≤ 16 * 1024 * 1024
  · rw [if_neg (by omega), if_neg (by omega)]
    cases huser : isUserAddress start with
    | false =>
      have hout := mt (isUserAddress_iff start).mpr (by rw [huser]; exact Bool.false_ne_true)
      simp only [Bool.not_false, if_true, Bool.false_eq_true, false_iff]
      omega
    | true =>
      have hstart := (isUserAddress_iff start).mp huser
      have hend : add64 start length = start + length := add64_eq (by omega)
      have hlast : sub64 (start + length) 1 = start + length - 1 := sub64_eq (by omega) (by omega)
      simp only [hend, hlast, Bool.not_true, Bool.false_eq_true, if_false]
      rw [if_neg (by omega)]
      split
      · simp only [Bool.false_eq_true, false_iff]
        omega
      · simp only [true_iff]
        omega
  · split
    · simp only [Bool.false_eq_true, false_iff]
      omega
    · rw [if_pos (by omega)]
      simp only [Bool.false_eq_true, false_iff]
      omega

theorem canonical_of_user {a : Nat} (h : a < 2 ^ 47) : VirtualAddress.isCanonical a = true :=
  (VirtualAddress.isCanonical_iff a).mpr (Or.inl h)

theorem translate_flags_page (m : Machine) {a : Nat} (h : a < 2 ^ 47) :
    (translate m (a / 4096 * 4096)).map Prod.snd = (translate m a).map Prod.snd := by
  have hbase : a / 4096 * 4096 < 2 ^ 47 := by omega
  simp only [VirtualMemoryManager.translate, canonical_of_user h, canonical_of_user hbase]
  split
  · rfl
  · exact walk_flags_page _ _ _

theorem checkPage_iff (m : Machine) (required : List PageFlags) (va : Nat) :
    checkPage m required va = true ↔
      ∃ flags, (translate m va).map Prod.snd = some flags ∧ ∀ f ∈ required,
        testFlag flags f = true := by
  unfold checkPage
  cases translate m va with
  | none => simp
  | some target => simp

theorem checkPage_page_iff (m : Machine) (required : List PageFlags) {a : Nat} (h : a < 2 ^ 47) :
    checkPage m required (a / 4096 * 4096) = true ↔ PageGrants m required a := by
  rw [checkPage_iff, translate_flags_page m h, PageGrants]
  cases translate m a with
  | none => simp
  | some target =>
    obtain ⟨pa, flags⟩ := target
    simp

theorem mem_bufferPages {start length p : Nat} (hend : start + length ≤ 2 ^ 47) :
    p ∈ bufferPages start length ↔ p % 4096 = 0 ∧ start / 4096 * 4096 ≤ p ∧ p < start + length := by
  have hadd : add64 start length = start + length := add64_eq (by omega)
  obtain ⟨hmod, hle, hlt⟩ := roundUpMask_spec (x := start + length) (by omega)
  simp only [bufferPages, hadd, land_pageMask (show start < 2 ^ 64 by omega), pageSize,
    List.mem_map, List.mem_range]
  constructor
  · intro h
    obtain ⟨k, hk, hp⟩ := h
    omega
  · intro h
    refine ⟨(p - start / 4096 * 4096) / 4096, ?_, ?_⟩
    · omega
    · omega

theorem validateBuffer_iff (m : Machine) (required : List PageFlags) (start length : Nat) :
    validateBuffer m required start length = true ↔
      (0 < length ∧ length ≤ 16 * 1024 * 1024) ∧ (0x1000 ≤ start ∧ start + length ≤ 2 ^ 47) ∧
        ∀ a, start ≤ a → a < start + length → PageGrants m required a := by
  unfold validateBuffer
  split
  · simp only [Bool.false_eq_true, false_iff]
    omega
  cases hrange : isUserRange start length with
  | false =>
    have hout : ¬ _ :=
      fun h => Bool.false_ne_true (hrange.symm.trans ((isUserRange_iff start length).mpr h))
    simp only [Bool.not_false, if_true, Bool.false_eq_true, false_iff]
    intro h
    exact hout ⟨h.1, h.2.1⟩
  | true =>
    obtain ⟨hlen, hstart, hend⟩ := (isUserRange_iff start length).mp hrange
    simp only [Bool.not_true, Bool.false_eq_true, if_false, List.all_eq_true, mem_bufferPages hend]
    constructor
    · intro h
      refine ⟨hlen, ⟨hstart, hend⟩, ?_⟩
      intro a hlo hhi
      apply (checkPage_page_iff m required (by omega)).mp
      exact h _ ⟨Nat.mul_mod_left _ _, by omega, by omega⟩
    · intro h p hp
      -- a byte of the buffer in page `p`
      have hbyte := h.2.2 (max start p) (by omega) (by omega)
      have hpage : max start p / 4096 * 4096 = p := by omega
      rw [← hpage]
      exact (checkPage_page_iff m required (by omega)).mpr hbyte

theorem loadByte_of_grants {m : Machine} (hcr3 : m.cr3 ≠ 0) {required : List PageFlags} {a : Nat}
    (h : PageGrants m required a) : ∃ b, loadByte m a = some b := by
  obtain ⟨pa, flags, htranslate, _⟩ := h
  unfold VirtualMemoryManager.translate at htranslate
  split at htranslate
  · cases htranslate
  rename_i hcond
  simp only [Bool.or_eq_true, Bool.not_eq_true', not_or, Bool.not_eq_false] at hcond
  have hwalk : walk m.ram m.activeRoot a = some (pa, flags) := by
    simpa only [if_pos hcr3] using htranslate
  refine ⟨m.byteAt pa, ?_⟩
  rw [loadByte, if_pos hcond.2, Machine.userByte, hwalk]
  rfl

end UserMemoryValidator

end LlamaOS.Userland
