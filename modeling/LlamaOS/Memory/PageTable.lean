import LlamaOS.Memory.Types
import LlamaOS.Shared.WordBitset

/-!
# Page table entries

A raw 64-bit hardware entry, read and written as `vmm.hpp` does. Bits 9 to 11 and
52 to 62 are never set by `set` and never reported by `flags`.
-/

namespace LlamaOS.Memory

abbrev PageFlags := BitVec 64

namespace PageFlags

def present : PageFlags := 1#64 <<< 0
def writable : PageFlags := 1#64 <<< 1
def user : PageFlags := 1#64 <<< 2
def writeThrough : PageFlags := 1#64 <<< 3
def cacheDisable : PageFlags := 1#64 <<< 4
def accessed : PageFlags := 1#64 <<< 5
def dirty : PageFlags := 1#64 <<< 6
def hugePage : PageFlags := 1#64 <<< 7
def global : PageFlags := 1#64 <<< 8
def noExecute : PageFlags := 1#64 <<< 63

/-- Every enumerator: bits 0 to 8 and 63. -/
def all : PageFlags := 0x80000000000001FF#64

end PageFlags

def testFlag (val flag : PageFlags) : Bool := (val &&& flag) == flag

structure PageTableEntry where
  raw : BitVec 64 := 0#64
deriving DecidableEq

namespace PageTableEntry

def addressMask : BitVec 64 := 0x000FFFFFFFFFF000#64

def bit (e : PageTableEntry) (i : Nat) : Bool := (e.raw &&& (1#64 <<< i)) != 0#64

def isPresent (e : PageTableEntry) : Bool := e.bit 0
def isWritable (e : PageTableEntry) : Bool := e.bit 1
def isUser (e : PageTableEntry) : Bool := e.bit 2
def isWriteThrough (e : PageTableEntry) : Bool := e.bit 3
def isCacheDisabled (e : PageTableEntry) : Bool := e.bit 4
def isAccessed (e : PageTableEntry) : Bool := e.bit 5
def isDirty (e : PageTableEntry) : Bool := e.bit 6
def isHuge (e : PageTableEntry) : Bool := e.bit 7
def isGlobal (e : PageTableEntry) : Bool := e.bit 8
def isNoExecute (e : PageTableEntry) : Bool := e.bit 63

def physicalAddress (e : PageTableEntry) : Nat := (e.raw &&& addressMask).toNat

def flags (e : PageTableEntry) : PageFlags :=
  (if e.isPresent then PageFlags.present else 0#64) |||
  (if e.isWritable then PageFlags.writable else 0#64) |||
  (if e.isUser then PageFlags.user else 0#64) |||
  (if e.isWriteThrough then PageFlags.writeThrough else 0#64) |||
  (if e.isCacheDisabled then PageFlags.cacheDisable else 0#64) |||
  (if e.isAccessed then PageFlags.accessed else 0#64) |||
  (if e.isDirty then PageFlags.dirty else 0#64) |||
  (if e.isHuge then PageFlags.hugePage else 0#64) |||
  (if e.isGlobal then PageFlags.global else 0#64) |||
  (if e.isNoExecute then PageFlags.noExecute else 0#64)

def set (paddr : Nat) (flags : PageFlags) : PageTableEntry where
  raw :=
    (BitVec.ofNat 64 paddr &&& addressMask) ||| (flags &&& 0x1FF#64) ||| (flags &&& (1#64 <<< 63))

def clear : PageTableEntry := {}

theorem bit_eq (e : PageTableEntry) {i : Nat} (hi : i < 64) : e.bit i = e.raw.getLsbD i := by
  have h := WordBitset.Bitset.and_mask_ne_zero e.raw i
  simp only [WordBitset.Bitset.mask, Nat.mod_eq_of_lt hi] at h
  exact h

theorem one_shiftLeft_getLsbD {i : Nat} (hi : i < 64) (j : Nat) :
    (1#64 <<< i).getLsbD j = decide (j = i) := by
  have h := WordBitset.Bitset.mask_getLsbD i j
  simpa only [WordBitset.Bitset.mask, Nat.mod_eq_of_lt hi] using h

theorem addressMask_getLsbD (i : Nat) : addressMask.getLsbD i = decide (12 ≤ i ∧ i < 52) := by
  by_cases hi : i < 64
  · have h : ∀ j : Fin 64, addressMask.getLsbD j = decide (12 ≤ j.val ∧ j.val < 52) := by decide
    exact h ⟨i, hi⟩
  · have hno : ¬ (12 ≤ i ∧ i < 52) := by omega
    rw [BitVec.getLsbD_of_ge _ _ (by omega), decide_eq_false hno]

theorem all_getLsbD (i : Nat) : PageFlags.all.getLsbD i = decide (i ≤ 8 ∨ i = 63) := by
  by_cases hi : i < 64
  · have h : ∀ j : Fin 64, PageFlags.all.getLsbD j = decide (j.val ≤ 8 ∨ j.val = 63) := by decide
    exact h ⟨i, hi⟩
  · have hno : ¬ (i ≤ 8 ∨ i = 63) := by omega
    rw [BitVec.getLsbD_of_ge _ _ (by omega), decide_eq_false hno]

/-- `set` keeps the address bits of the address and the flag bits of the flags. -/
theorem set_raw (paddr : Nat) (flags : PageFlags) :
    (set paddr flags).raw = (BitVec.ofNat 64 paddr &&& addressMask) |||
      (flags &&& PageFlags.all) := by
  have hall : PageFlags.all = 0x1FF#64 ||| (1#64 <<< 63) := by decide
  rw [set, hall, BitVec.or_assoc, ← BitVec.and_or_distrib_left]

theorem set_getLsbD_flag (paddr : Nat) (flags : PageFlags) {i : Nat} (hi : i ≤ 8 ∨ i = 63) :
    (set paddr flags).raw.getLsbD i = flags.getLsbD i := by
  have hno : ¬ (12 ≤ i ∧ i < 52) := by omega
  rw [set_raw, BitVec.getLsbD_or, BitVec.getLsbD_and, BitVec.getLsbD_and, addressMask_getLsbD,
    all_getLsbD, decide_eq_false hno, decide_eq_true hi, Bool.and_false, Bool.and_true,
      Bool.false_or]

theorem bit_set (paddr : Nat) (flags : PageFlags) {i : Nat} (hi : i ≤ 8 ∨ i = 63) :
    (set paddr flags).bit i = flags.getLsbD i := by
  rw [bit_eq _ (by omega), set_getLsbD_flag paddr flags hi]

theorem and_addressMask_toNat (x : BitVec 64) :
    (x &&& addressMask).toNat = x.toNat % 2 ^ 52 / 2 ^ 12 * 2 ^ 12 := by
  apply Nat.eq_of_testBit_eq
  intro i
  have hmask : addressMask.toNat.testBit i = decide (12 ≤ i ∧ i < 52) := by
    rw [← addressMask_getLsbD i, BitVec.getLsbD]
  rw [BitVec.toNat_and, Nat.testBit_and, hmask, Nat.testBit_mul_two_pow, Nat.testBit_div_two_pow,
    Nat.testBit_mod_two_pow]
  by_cases hi : 12 ≤ i
  · rw [show i - 12 + 12 = i by omega]
    by_cases hlt : i < 52
    · simp [hi, hlt]
    · simp [hlt]
  · simp [hi]

theorem set_and_addressMask (paddr : Nat) (flags : PageFlags) :
    (set paddr flags).raw &&& addressMask = BitVec.ofNat 64 paddr &&& addressMask := by
  have hdisj : PageFlags.all &&& addressMask = 0#64 := by decide
  rw [set_raw, BitVec.and_comm, BitVec.and_or_distrib_left, BitVec.and_comm addressMask,
    BitVec.and_assoc, BitVec.and_self, BitVec.and_comm addressMask (flags &&& _), BitVec.and_assoc,
    hdisj, BitVec.and_zero, BitVec.or_zero]

theorem physicalAddress_set {paddr : Nat} (flags : PageFlags) (hal : paddr % 4096 = 0)
    (hlt : paddr < 2 ^ 52) : (set paddr flags).physicalAddress = paddr := by
  rw [physicalAddress, set_and_addressMask, and_addressMask_toNat, BitVec.toNat_ofNat]
  omega

theorem physicalAddress_spec (e : PageTableEntry) :
    e.physicalAddress % 4096 = 0 ∧ e.physicalAddress < 2 ^ 52 := by
  have h := and_addressMask_toNat e.raw
  unfold physicalAddress
  omega

theorem flagPart_getLsbD (e : PageTableEntry) {k : Nat} (hk : k < 64) (i : Nat) :
    (if e.bit k then 1#64 <<< k else 0#64 : BitVec 64).getLsbD i =
      (e.raw.getLsbD i && decide (i = k)) := by
  rw [bit_eq e hk]
  by_cases h : i = k
  · subst h
    cases e.raw.getLsbD i with
    | false => simp
    | true => simpa using one_shiftLeft_getLsbD hk i
  · cases e.raw.getLsbD k with
    | false => simp [h]
    | true => simpa [h] using one_shiftLeft_getLsbD hk i

theorem flags_eq (e : PageTableEntry) : e.flags = e.raw &&& PageFlags.all := by
  apply BitVec.eq_of_getLsbD_eq
  intro i _
  have h := fun {k} (hk : k < 64) => flagPart_getLsbD e hk i
  have h0 : (if e.isPresent then PageFlags.present else 0#64).getLsbD i = _ :=
    h (k := 0) (by decide)
  have h1 : (if e.isWritable then PageFlags.writable else 0#64).getLsbD i = _ :=
    h (k := 1) (by decide)
  have h2 : (if e.isUser then PageFlags.user else 0#64).getLsbD i = _ := h (k := 2) (by decide)
  have h3 : (if e.isWriteThrough then PageFlags.writeThrough else 0#64).getLsbD i = _ :=
    h (k := 3) (by decide)
  have h4 : (if e.isCacheDisabled then PageFlags.cacheDisable else 0#64).getLsbD i = _ :=
    h (k := 4) (by decide)
  have h5 : (if e.isAccessed then PageFlags.accessed else 0#64).getLsbD i = _ :=
    h (k := 5) (by decide)
  have h6 : (if e.isDirty then PageFlags.dirty else 0#64).getLsbD i = _ := h (k := 6) (by decide)
  have h7 : (if e.isHuge then PageFlags.hugePage else 0#64).getLsbD i = _ := h (k := 7) (by decide)
  have h8 : (if e.isGlobal then PageFlags.global else 0#64).getLsbD i = _ := h (k := 8) (by decide)
  have h63 : (if e.isNoExecute then PageFlags.noExecute else 0#64).getLsbD i = _ :=
    h (k := 63) (by decide)
  rw [flags]
  simp only [BitVec.getLsbD_or, BitVec.getLsbD_and, all_getLsbD, h0, h1, h2, h3, h4, h5,
    h6, h7, h8, h63, ← Bool.and_or_distrib_left]
  congr 1
  rw [Bool.eq_iff_iff]
  simp only [Bool.or_eq_true, decide_eq_true_eq]
  omega

theorem flags_set (paddr : Nat) (f : PageFlags) : (set paddr f).flags = f &&& PageFlags.all := by
  rw [flags_eq]
  apply BitVec.eq_of_getLsbD_eq
  intro i _
  rw [BitVec.getLsbD_and, BitVec.getLsbD_and, all_getLsbD]
  by_cases hi : i ≤ 8 ∨ i = 63
  · rw [set_getLsbD_flag paddr f hi]
  · rw [decide_eq_false hi, Bool.and_false, Bool.and_false]

end PageTableEntry

end LlamaOS.Memory
