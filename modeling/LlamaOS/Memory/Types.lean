import Mathlib.Data.Nat.Bitwise

/-!
# Address arithmetic

Physical and virtual addresses are natural numbers; every operation that can leave
the 64-bit range reduces modulo `2 ^ 64` or saturates, as its C++ counterpart does.
-/

namespace LlamaOS

abbrev uint64Max : Nat := 0xFFFFFFFFFFFFFFFF
abbrev pageSize : Nat := 4096
abbrev kernelVirtualBase : Nat := 0xFFFFFFFF80000000

def add64 (a b : Nat) : Nat := (a + b) % 2 ^ 64

def sub64 (a b : Nat) : Nat := (a + 2 ^ 64 - b) % 2 ^ 64

def alignUpChecked (value alignment : Nat) : Option Nat :=
  if alignment = 0 then some value
  else
    let rem := value % alignment
    if rem = 0 then some value
    else
      let delta := alignment - rem
      if value > uint64Max - delta then none else some (value + delta)

namespace PhysicalAddress

def isNull (a : Nat) : Bool := a == 0

def isPageAligned (a : Nat) : Bool := (a &&& (pageSize - 1)) == 0

/-- The 2 GiB window at `kernelVirtualBase`. -/
def isDirectMapped (a : Nat) : Bool := a < 0x80000000

def alignUp (a alignment : Nat) : Nat :=
  if alignment = 0 then a
  else
    match alignUpChecked a alignment with
    | some res => res
    | none => uint64Max

def alignDown (a alignment : Nat) : Nat :=
  if alignment = 0 then a else a - a % alignment

end PhysicalAddress

/-- `(x + PAGE_SIZE - 1) & ~(PAGE_SIZE - 1)`: unlike `alignUp` this wraps around. -/
def roundUpMask (x : Nat) : Nat := add64 x (pageSize - 1) &&& (2 ^ 64 - pageSize)

def physToVirt (a : Nat) : Nat := add64 a kernelVirtualBase

namespace VirtualAddress

def isCanonical (a : Nat) : Bool :=
  let highBits := a >>> 47
  highBits == 0 || highBits == 0x1FFFF

def isPageAligned (a : Nat) : Bool := (a &&& (pageSize - 1)) == 0

/-- Nine bits of an address from bit `shift` on. -/
def tableIndex (shift a : Nat) : Fin 512 :=
  ⟨(a >>> shift) &&& 0x1FF, Nat.lt_succ_of_le Nat.and_le_right⟩

def pml4Index (a : Nat) : Fin 512 := tableIndex 39 a
def pdptIndex (a : Nat) : Fin 512 := tableIndex 30 a
def pdIndex (a : Nat) : Fin 512 := tableIndex 21 a
def ptIndex (a : Nat) : Fin 512 := tableIndex 12 a
def pageOffset (a : Nat) : Nat := a &&& 0xFFF

end VirtualAddress

def pageCountToBytes (count : Nat) : Nat := (count * pageSize) % 2 ^ 64

variable {a b : Nat}

theorem add64_eq (h : a + b < 2 ^ 64) : add64 a b = a + b := Nat.mod_eq_of_lt h

theorem add64_lt (a b : Nat) : add64 a b < 2 ^ 64 := Nat.mod_lt _ (by decide)

theorem sub64_eq (hba : b ≤ a) (ha : a < 2 ^ 64) : sub64 a b = a - b := by
  unfold sub64
  omega

namespace PhysicalAddress

theorem isPageAligned_iff (a : Nat) : isPageAligned a = true ↔ a % 4096 = 0 := by
  have h : a &&& 4095 = a % 4096 := Nat.and_two_pow_sub_one_eq_mod a 12
  simp [isPageAligned, h]

theorem alignDown_page (a : Nat) : alignDown a pageSize = a - a % 4096 := by
  simp [alignDown]

theorem alignDown_le (a n : Nat) : alignDown a n ≤ a := by
  unfold alignDown
  split
  · exact Nat.le_refl _
  · exact Nat.sub_le _ _

theorem alignDown_page_mod (a : Nat) : alignDown a pageSize % 4096 = 0 := by
  rw [alignDown_page]
  omega

theorem alignUp_cases (a n : Nat) (hn : 0 < n) :
    (alignUp a n % n = 0 ∧ a ≤ alignUp a n ∧ alignUp a n < a + n) ∨
      (alignUp a n = uint64Max ∧ a % n ≠ 0 ∧ uint64Max < a + (n - a % n)) := by
  have hne : n ≠ 0 := by omega
  have hlt : a % n < n := Nat.mod_lt _ hn
  simp only [alignUp, alignUpChecked, if_neg hne]
  by_cases hr : a % n = 0
  · rw [if_pos hr]
    refine Or.inl ⟨hr, Nat.le_refl _, ?_⟩
    change a < a + n
    omega
  rw [if_neg hr]
  by_cases ho : a > uint64Max - (n - a % n)
  · rw [if_pos ho]
    exact Or.inr ⟨rfl, hr, by omega⟩
  rw [if_neg ho]
  refine Or.inl ⟨?_, by simp, by simp; omega⟩
  have hd : a + (n - a % n) = n * (a / n) + n := by
    have := Nat.div_add_mod a n
    omega
  simp [hd]

theorem alignUp_page (h : a + 4095 < 2 ^ 64) :
    alignUp a pageSize % 4096 = 0 ∧ a ≤ alignUp a pageSize ∧ alignUp a pageSize < a + 4096 := by
  rcases alignUp_cases a pageSize (by decide) with h' | ⟨_, hr, h'⟩
  · exact h'
  · simp only [uint64Max, pageSize] at hr h'
    omega

theorem le_alignUp (n : Nat) (hn : 0 < n) (ha : a < 2 ^ 64) : a ≤ alignUp a n := by
  rcases alignUp_cases a n hn with h | ⟨h, _⟩
  · exact h.2.1
  · simp only [h, uint64Max]
    omega

theorem alignUp_lt (n : Nat) (hn : 0 < n) (ha : a < 2 ^ 64) : alignUp a n < 2 ^ 64 := by
  have hne : n ≠ 0 := by omega
  have hle : a % n ≤ a := Nat.mod_le a n
  simp only [alignUp, alignUpChecked, if_neg hne]
  by_cases hr : a % n = 0
  · simpa [hr] using ha
  simp only [hr, if_false]
  by_cases ho : a > uint64Max - (n - a % n)
  · simp [ho]
  · rw [if_neg ho]
    simp only [uint64Max] at ho ⊢
    omega

end PhysicalAddress

variable {x : Nat}

theorem land_highMask {k : Nat} (hx : x < 2 ^ 64) (hk : k ≤ 64) :
    x &&& (2 ^ 64 - 2 ^ k) = x / 2 ^ k * 2 ^ k := by
  have hmask : 2 ^ 64 - 2 ^ k = (2 ^ (64 - k) - 1) * 2 ^ k := by
    rw [Nat.sub_mul, Nat.one_mul, ← Nat.pow_add, show 64 - k + k = 64 by omega]
  apply Nat.eq_of_testBit_eq
  intro i
  rw [Nat.testBit_and, hmask, Nat.testBit_mul_two_pow, Nat.testBit_mul_two_pow,
    Nat.testBit_two_pow_sub_one, Nat.testBit_div_two_pow]
  by_cases hi : k ≤ i
  · rw [show i - k + k = i by omega]
    by_cases hbig : i < 64
    · have : i - k < 64 - k := by omega
      simp [hi, this]
    have hx' : x.testBit i = false := by
      apply Nat.testBit_eq_false_of_lt
      exact Nat.lt_of_lt_of_le hx (Nat.pow_le_pow_right (by decide) (by omega))
    simp [hx']
  · simp [hi]

theorem land_pageMask (hx : x < 2 ^ 64) :
    x &&& (2 ^ 64 - pageSize) = x / 4096 * 4096 := land_highMask (k := 12) hx (by decide)

/-- Where the addition does not wrap, masking rounds up to a page boundary. -/
theorem roundUpMask_spec (h : x + 4095 < 2 ^ 64) :
    roundUpMask x % 4096 = 0 ∧ x ≤ roundUpMask x ∧ roundUpMask x < x + 4096 := by
  have hadd : add64 x (pageSize - 1) = x + 4095 := add64_eq h
  unfold roundUpMask
  rw [hadd, land_pageMask h]
  omega

theorem roundUpMask_eq_alignUp (h : x + 4095 < 2 ^ 64) :
    roundUpMask x = PhysicalAddress.alignUp x pageSize := by
  have h₁ := roundUpMask_spec h
  have h₂ := PhysicalAddress.alignUp_page h
  omega

end LlamaOS
