import Mathlib.Data.List.Basic
import Mathlib.Data.List.Count

/-!
# Bitsets packed into 64-bit words

`size` positions, one bit each, in a list of words that is long enough to hold
them. The length bound is a field, so a position below `size` always has a word
and no update can lose it.
-/

namespace WordBitset

structure Bitset where
  size : Nat
  words : List (BitVec 64)
  covers : size ≤ 64 * words.length
deriving DecidableEq

namespace Bitset

def word (b : Bitset) (w : Nat) : BitVec 64 := b.words.getD w 0#64

def mask (i : Nat) : BitVec 64 := 1#64 <<< (i % 64)

def test (b : Bitset) (i : Nat) : Bool := (b.word (i / 64) &&& mask i) != 0#64

def setBit (b : Bitset) (i : Nat) : Bitset where
  size := b.size
  words := b.words.set (i / 64) (b.word (i / 64) ||| mask i)
  covers := by simpa using b.covers

def clearBit (b : Bitset) (i : Nat) : Bitset where
  size := b.size
  words := b.words.set (i / 64) (b.word (i / 64) &&& ~~~mask i)
  covers := by simpa using b.covers

def setRange (b : Bitset) (start count : Nat) : Bitset :=
  (List.range' start count).foldl setBit b

def clearRange (b : Bitset) (start count : Nat) : Bitset :=
  (List.range' start count).foldl clearBit b

def clearCount (b : Bitset) : Nat := (List.range b.size).countP fun i => !b.test i

@[simp] theorem clearBit_size (b : Bitset) (i : Nat) : (b.clearBit i).size = b.size := rfl

theorem mask_eq (i : Nat) : mask i = BitVec.twoPow 64 (i % 64) := (BitVec.twoPow_eq _ _).symm

theorem mask_getLsbD (i j : Nat) : (mask i).getLsbD j = decide (j = i % 64) := by
  rw [mask_eq, BitVec.getLsbD_twoPow, decide_eq_true (Nat.mod_lt i (by decide)), Bool.true_and]
  exact decide_eq_decide.mpr eq_comm

variable {w : Nat}

theorem ne_zero_iff_getLsbD (x : BitVec w) : x ≠ 0#w ↔ ∃ i, i < w ∧ x.getLsbD i = true := by
  constructor
  · intro h
    by_contra hn
    apply h
    apply BitVec.eq_of_getLsbD_eq
    intro i hi
    cases hx : x.getLsbD i with
    | false => simp
    | true => exact absurd ⟨i, hi, hx⟩ hn
  · rintro ⟨i, _, hi⟩ rfl
    simp at hi

theorem and_mask_ne_zero (w : BitVec 64) (i : Nat) :
    ((w &&& mask i) != 0#64) = w.getLsbD (i % 64) := by
  rw [mask_eq, BitVec.and_twoPow]
  split
  · rename_i hbit
    rw [hbit, bne_iff_ne, ne_zero_iff_getLsbD, ← mask_eq]
    exact ⟨i % 64, Nat.mod_lt i (by decide), by rw [mask_getLsbD, decide_eq_true rfl]⟩
  · rename_i hbit
    rw [bne_self_eq_false, Bool.eq_false_iff.mpr hbit]

theorem test_eq_getLsbD (b : Bitset) (i : Nat) : b.test i = (b.word (i / 64)).getLsbD (i % 64) :=
  and_mask_ne_zero _ _

variable {b : Bitset} {i : Nat}

theorem index_lt (hi : i < b.size) : i / 64 < b.words.length := by
  have := b.covers
  omega

theorem word_set (b : Bitset) (i w : Nat) (x : BitVec 64) (hi : i < b.words.length) :
    (b.words.set i x).getD w 0#64 = if w = i then x else b.word w := by
  rw [List.getD_eq_getElem?_getD, List.getElem?_set]
  by_cases h : i = w
  · subst w
    simp [hi]
  · have hne : ¬ w = i := fun he => h he.symm
    simp [h, hne, word]

/-- `put` gives one position the value `v`. -/
structure Puts (put : Bitset → Nat → Bitset) (v : Bool) : Prop where
  size : ∀ b i, (put b i).size = b.size
  test : ∀ {b i} j, i < b.size → (put b i).test j = if j = i then v else b.test j

theorem test_set_word {v : Bool} {x : BitVec 64} (hi : i / 64 < b.words.length)
    (hx : ∀ k < 64, x.getLsbD k = if k = i % 64 then v else (b.word (i / 64)).getLsbD k) (j : Nat) :
    ((b.words.set (i / 64) x).getD (j / 64) 0#64).getLsbD (j % 64) = if j = i then v
    else b.test j := by
  rw [word_set b _ _ _ hi, test_eq_getLsbD]
  by_cases hw : j / 64 = i / 64
  · rw [if_pos hw, hx _ (Nat.mod_lt _ (by decide)), hw]
    exact if_congr (by omega) rfl rfl
  · rw [if_neg hw, if_neg fun he => hw (by rw [he])]

theorem setBit_puts : Puts setBit true where
  size _ _ := rfl
  test {b i} j hi := by
    rw [test_eq_getLsbD]
    refine test_set_word (index_lt hi) (fun k _ => ?_) j
    rw [BitVec.getLsbD_or, mask_getLsbD]
    split <;> simp [*]

theorem test_clearBit_stored (b : Bitset) (i j : Nat) (hi : i / 64 < b.words.length) :
    (b.clearBit i).test j = if j = i then false else b.test j := by
  rw [test_eq_getLsbD]
  refine test_set_word hi (fun k hk => ?_) j
  rw [BitVec.getLsbD_and, BitVec.getLsbD_not, mask_getLsbD]
  split <;> simp [*]

theorem clearBit_puts : Puts clearBit false where
  size _ _ := rfl
  test j hi := test_clearBit_stored _ _ j (index_lt hi)

theorem test_setBit (b : Bitset) (i j : Nat) (hi : i < b.size) :
    (b.setBit i).test j = (decide (j = i) || b.test j) := by
  rw [setBit_puts.test j hi]
  split <;> simp [*]

theorem test_clearBit (b : Bitset) (i j : Nat) (hi : i < b.size) :
    (b.clearBit i).test j = (decide (j ≠ i) && b.test j) := by
  rw [clearBit_puts.test j hi]
  split <;> simp [*]

variable {j : Nat}

theorem test_clearBit_of_ne (b : Bitset) (hne : j ≠ i) : (b.clearBit i).test j = b.test j := by
  by_cases hi : i / 64 < b.words.length
  · rw [test_clearBit_stored b i j hi, if_neg hne]
  · have hset : (b.clearBit i).words = b.words := List.set_eq_of_length_le (Nat.le_of_not_lt hi)
    rw [test, test, word, word, hset]

section Range

variable {put : Bitset → Nat → Bitset} {v : Bool} (h : Puts put v)
include h

theorem Puts.range_size (start count : Nat) (b : Bitset) :
    ((List.range' start count).foldl put b).size = b.size :=
  List.foldlRecOn (motive := fun c : Bitset => c.size = b.size) _ _ rfl fun c hc i _ =>
    (h.size c i).trans hc

theorem Puts.range_test {start count : Nat} (hle : start + count ≤ b.size) (j : Nat) :
    ((List.range' start count).foldl put b).test j = if start ≤ j ∧ j < start + count then v
    else b.test j := by
  induction count with
  | zero => exact (if_neg (by omega)).symm
  | succ count ih =>
    rw [List.range'_concat, List.foldl_append, List.foldl_cons, List.foldl_nil, Nat.one_mul,
      h.test j (by rw [h.range_size]; omega), ih (by omega)]
    split
    · rw [if_pos (by omega)]
    · exact if_congr (by omega) rfl rfl

theorem Puts.clipped_test (start stop j : Nat) :
    ((List.range' start (min stop b.size - start)).foldl put b).test j =
      if start ≤ j ∧ j < stop ∧ j < b.size then v else b.test j := by
  by_cases hle : start ≤ min stop b.size
  · rw [h.range_test (by omega)]
    exact if_congr (by omega) rfl rfl
  · rw [Nat.sub_eq_zero_of_le (by omega), if_neg (by omega)]
    rfl

end Range

@[simp] theorem setRange_size (b : Bitset) (start count : Nat) :
    (b.setRange start count).size = b.size := setBit_puts.range_size start count b

@[simp] theorem clearRange_size (b : Bitset) (start count : Nat) :
    (b.clearRange start count).size = b.size := clearBit_puts.range_size start count b

theorem test_setRange (b : Bitset) (start count j : Nat) (h : start + count ≤ b.size) :
    (b.setRange start count).test j = (decide (start ≤ j ∧ j < start + count) || b.test j) := by
  rw [setRange, setBit_puts.range_test h]
  split <;> simp [*]

theorem test_setRange_clipped (b : Bitset) (start stop j : Nat) :
    (b.setRange start (min stop b.size - start)).test j =
      (decide (start ≤ j ∧ j < stop ∧ j < b.size) || b.test j) := by
  rw [setRange, setBit_puts.clipped_test]
  split <;> simp [*]

theorem test_clearRange_clipped (b : Bitset) (start stop j : Nat) :
    (b.clearRange start (min stop b.size - start)).test j =
      (decide (¬ (start ≤ j ∧ j < stop ∧ j < b.size)) && b.test j) := by
  rw [clearRange, clearBit_puts.clipped_test]
  split <;> simp [*]

theorem countP_range_update (n i : Nat) (hi : i < n) (p q : Nat → Bool)
    (hp : p i = true) (hq : q i = false) (hsame : ∀ j, j ≠ i → p j = q j) :
    (List.range n).countP p = (List.range n).countP q + 1 := by
  induction n with
  | zero => omega
  | succ n ih =>
    rw [List.range_succ, List.countP_append, List.countP_append]
    by_cases hin : i = n
    · subst n
      have hpre : (List.range i).countP p = (List.range i).countP q := by
        apply List.countP_congr
        intro j hj
        have hj' := List.mem_range.mp hj
        rw [hsame j (by omega)]
      simp [hpre, hp, hq]
    · have hrec := ih (by omega)
      have hlast : p n = q n := hsame n (by omega)
      simp only [hrec, List.countP_singleton, hlast]
      omega

theorem clearCount_setBit (b : Bitset) (i : Nat) (hi : i < b.size) (hclear : b.test i = false) :
    b.clearCount = (b.setBit i).clearCount + 1 := by
  apply countP_range_update b.size i hi
  · simp [hclear]
  · simp [test_setBit b i i hi]
  · intro j hj
    simp [test_setBit b i j hi, hj]

theorem clearCount_clearBit (b : Bitset) (i : Nat) (hi : i < b.size) (hset : b.test i = true) :
    (b.clearBit i).clearCount = b.clearCount + 1 := by
  apply countP_range_update b.size i hi
  · simp [test_clearBit b i i hi]
  · simp [hset]
  · intro j hj
    simp [test_clearBit b i j hi, hj]

theorem clearCount_setRange (b : Bitset) (start count : Nat) (h : start + count ≤ b.size)
    (hclear : ∀ j, start ≤ j → j < start + count → b.test j = false) :
    b.clearCount = (b.setRange start count).clearCount + count := by
  induction count with
  | zero => rfl
  | succ count ih =>
    have hsucc :
        b.setRange start (count + 1) = (b.setRange start count).setBit (start + count) := by
      simp [setRange, List.range'_concat]
    have hbit : (b.setRange start count).test (start + count) = false := by
      rw [test_setRange b start count _ (by omega), hclear _ (by omega) (by omega)]
      simp
    rw [hsucc, ih (by omega) fun j hlo hhi => hclear j hlo (by omega),
      clearCount_setBit _ _ (by rw [setRange_size]; omega) hbit]
    omega

/-- A run of clear positions is no longer than the number of clear positions. -/
theorem le_clearCount_of_run (b : Bitset) (start count : Nat) (h : start + count ≤ b.size)
    (hclear : ∀ j, start ≤ j → j < start + count → b.test j = false) : count ≤ b.clearCount := by
  have := clearCount_setRange b start count h hclear
  omega

/-- Position of the lowest set bit; 64 for the zero word. -/
def lowestSet (x : BitVec 64) : Nat := ((List.range 64).find? fun i => x.getLsbD i).getD 64

variable {x : BitVec 64}

theorem lowestSet_spec (hx : x ≠ 0#64) : lowestSet x < 64 ∧ x.getLsbD (lowestSet x) = true := by
  obtain ⟨i, hi, hbit⟩ := (ne_zero_iff_getLsbD x).mp hx
  unfold lowestSet
  cases hf : (List.range 64).find? fun i => x.getLsbD i with
  | none => exact absurd hbit (List.find?_eq_none.mp hf i (List.mem_range.mpr hi))
  | some k =>
    obtain ⟨hk, hmem, _⟩ := List.find?_range_eq_some.mp hf
    exact ⟨List.mem_range.mp hmem, hk⟩

/-- The lowest clear position of word `w`, when the word is not full and the
position is in range. -/
def clearInWord (b : Bitset) (w : Nat) : Option Nat :=
  if b.word w ≠ BitVec.allOnes 64 then
    let i := w * 64 + lowestSet (~~~b.word w)
    if i < b.size then some i else none
  else none

/-- Visit `count` words cyclically from `start`; the first with a clear position wins. -/
def findClear (b : Bitset) (start count : Nat) : Option Nat :=
  (List.range count).findSome? fun k => b.clearInWord ((start + k) % count)

theorem clearInWord_spec (h : b.clearInWord w = some i) :
    i < b.size ∧ b.test i = false ∧ i / 64 = w := by
  unfold clearInWord at h
  split at h
  · rename_i hw
    have hne : ~~~b.word w ≠ 0#64 := by
      intro hz
      apply hw
      rw [← BitVec.not_not (b := b.word w), hz, BitVec.not_zero]
    obtain ⟨hlt, hbit⟩ := lowestSet_spec hne
    simp only at h
    split at h
    · rename_i hsize
      obtain rfl := Option.some.inj h
      have hdiv : (w * 64 + lowestSet (~~~b.word w)) / 64 = w := by omega
      have hmod : (w * 64 + lowestSet (~~~b.word w)) % 64 = lowestSet (~~~b.word w) := by omega
      refine ⟨hsize, ?_, hdiv⟩
      rw [test_eq_getLsbD, hdiv, hmod]
      rw [BitVec.getLsbD_not] at hbit
      simpa [hlt] using hbit
    · simp at h
  · simp at h

theorem clearInWord_eq_none (hw : w < b.size / 64) (h : b.clearInWord w = none) (i : Nat)
    (hi : i / 64 = w) : b.test i = true := by
  unfold clearInWord at h
  split at h
  · rename_i hne
    have hz : ~~~b.word w ≠ 0#64 := by
      intro hz
      apply hne
      rw [← BitVec.not_not (b := b.word w), hz, BitVec.not_zero]
    have hlt := (lowestSet_spec hz).1
    rw [if_pos (by omega)] at h
    simp at h
  · rename_i hfull
    have hall : b.word w = BitVec.allOnes 64 := by
      by_contra hn
      exact hfull hn
    rw [test_eq_getLsbD, hi, hall, BitVec.getLsbD_allOnes]
    simp [Nat.mod_lt]

variable {start count : Nat}

theorem findClear_spec (h : b.findClear start count = some i) :
    i < b.size ∧ b.test i = false ∧ i < 64 * count := by
  obtain ⟨k, hmem, hk⟩ := List.exists_of_findSome?_eq_some h
  have hcount := List.mem_range.mp hmem
  obtain ⟨hlt, hclear, hword⟩ := clearInWord_spec hk
  have hmod : (start + k) % count < count := Nat.mod_lt _ (by omega)
  exact ⟨hlt, hclear, by omega⟩

/-- How many words a cyclic visit from `start` on sees before word `w`. -/
def visitOffset (start count w : Nat) : Nat := (w + count - start % count) % count

theorem visitOffset_word (start : Nat) (hw : w < count) :
    visitOffset start count w < count ∧ (start + visitOffset start count w) % count = w := by
  have hs : start % count < count := Nat.mod_lt _ (by omega)
  refine ⟨Nat.mod_lt _ (by omega), ?_⟩
  unfold visitOffset
  rw [Nat.add_mod, Nat.mod_mod]
  by_cases hle : start % count ≤ w
  · have he : (w + count - start % count) % count = w - start % count := by
      rw [show w + count - start % count = (w - start % count) + count by omega,
        Nat.add_mod_right, Nat.mod_eq_of_lt (by omega)]
    rw [he, show start % count + (w - start % count) = w by omega, Nat.mod_eq_of_lt hw]
  have he : (w + count - start % count) % count = w + count - start % count :=
    Nat.mod_eq_of_lt (by omega)
  rw [he, show start % count + (w + count - start % count) =
    w + count by omega, Nat.add_mod_right, Nat.mod_eq_of_lt hw]

theorem findClear_eq_none (h : b.findClear start (b.size / 64) = none) (i : Nat)
    (hi : i < 64 * (b.size / 64)) : b.test i = true := by
  have hw : i / 64 < b.size / 64 := by omega
  obtain ⟨hk, hkw⟩ := visitOffset_word start hw
  have hnone := List.findSome?_eq_none_iff.mp h _ (List.mem_range.mpr hk)
  rw [hkw] at hnone
  exact clearInWord_eq_none hw hnone i rfl

variable {k : Nat}

theorem visit_injective (hj : j < count) (hk : k < count)
    (h : (start + j) % count = (start + k) % count) : j = k := by
  have hjk := Nat.sub_mod_eq_zero_of_mod_eq h
  have hkj := Nat.sub_mod_eq_zero_of_mod_eq h.symm
  rw [Nat.add_sub_add_left, Nat.mod_eq_of_lt (by omega)] at hjk hkj
  omega

theorem mem_before_of_range {n : Nat} {as bs : List Nat} (h : List.range n = as ++ k :: bs)
    (hi : i < k) : i ∈ as := by
  rw [List.range_eq_range', List.range'_eq_append_iff] at h
  obtain ⟨m, _, rfl, hrest⟩ := h
  have hk := (List.range'_eq_cons_iff.mp hrest.symm).1
  exact List.mem_range'_1.mpr ⟨Nat.zero_le _, by omega⟩

theorem lowestSet_le (hi : i < 64) (hbit : x.getLsbD i = true) : lowestSet x ≤ i := by
  unfold lowestSet
  cases hf : (List.range 64).find? fun i => x.getLsbD i with
  | none => exact absurd hbit (List.find?_eq_none.mp hf i (List.mem_range.mpr hi))
  | some k =>
    by_contra hlt
    have hfalse := (List.find?_range_eq_some.mp hf).2.2 i (Nat.lt_of_not_le hlt)
    rw [hbit] at hfalse
    cases hfalse

theorem clearInWord_le (h : b.clearInWord w = some i) (hj : j / 64 = w)
    (hclear : b.test j = false) : i ≤ j := by
  unfold clearInWord at h
  split at h
  · dsimp only at h
    split at h
    · obtain rfl := Option.some.inj h
      have hbit : (~~~b.word w).getLsbD (j % 64) = true := by
        rw [test_eq_getLsbD, hj] at hclear
        rw [BitVec.getLsbD_not, hclear]
        simp [Nat.mod_lt]
      have hle := lowestSet_le (Nat.mod_lt j (by decide)) hbit
      omega
    · cases h
  · cases h

/-- Where position `i` comes in a cyclic visit of the words from `start` on. -/
def visitRank (start count i : Nat) : Nat := 64 * visitOffset start count (i / 64) + i % 64

/-- The position that is found comes first among the clear positions of the visited words. -/
theorem findClear_first (h : b.findClear start (b.size / 64) = some i) (hj : j < 64 * (b.size / 64))
    (hclear : b.test j = false) :
    visitRank start (b.size / 64) i ≤ visitRank start (b.size / 64) j := by
  obtain ⟨as, k, bs, hsplit, hk, hbefore⟩ := List.findSome?_eq_some_iff.mp h
  obtain ⟨_, _, hword⟩ := clearInWord_spec hk
  have hkmem : k ∈ List.range (b.size / 64) := by rw [hsplit]; simp
  have hklt := List.mem_range.mp hkmem
  have hi : i / 64 < b.size / 64 := by rw [hword]; exact Nat.mod_lt _ (by omega)
  obtain ⟨hoff, hoffword⟩ := visitOffset_word start hi
  have hrank : visitOffset start (b.size / 64) (i / 64) = k :=
    visit_injective hoff hklt (hoffword.trans hword)
  have hjw : j / 64 < b.size / 64 := by omega
  obtain ⟨hoff', hoffword'⟩ := visitOffset_word start hjw
  unfold visitRank
  rw [hrank]
  have hle : k ≤ visitOffset start (b.size / 64) (j / 64) := by
    by_contra hlt
    have hmem : visitOffset start (b.size / 64) (j / 64) ∈ as :=
      mem_before_of_range hsplit (Nat.lt_of_not_le hlt)
    have hnone := hbefore _ hmem
    rw [hoffword'] at hnone
    have htest := clearInWord_eq_none hjw hnone j rfl
    rw [hclear] at htest
    cases htest
  rcases Nat.lt_or_eq_of_le hle with hlt | heq
  · omega
  have hsame : j / 64 = (start + k) % (b.size / 64) := by rw [← hoffword', ← heq]
  have hle' := clearInWord_le hk hsame hclear
  rw [← heq]
  omega

theorem visitRank_injective (hi : i < 64 * count) (hj : j < 64 * count)
    (h : visitRank start count i = visitRank start count j) : i = j := by
  unfold visitRank at h
  have hwi := (visitOffset_word start (show i / 64 < count by omega)).2
  have hwj := (visitOffset_word start (show j / 64 < count by omega)).2
  have hoff : visitOffset start count (i / 64) = visitOffset start count (j / 64) := by omega
  have hword : i / 64 = j / 64 := by rw [← hwi, ← hwj, hoff]
  omega

end Bitset

end WordBitset
