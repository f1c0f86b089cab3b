import LlamaOS.Storage.Gpt

/-!
# Checksums of the partition table

A step of the checksum is linear in exclusive or and loses nothing: its top bit tells whether
the polynomial was added. A remainder below `2 ^ 24` is what eight steps make of its shift by a
byte.
-/

namespace LlamaOS.Storage
open ByteBuffer PackedFields GptHeader GptParser

theorem crcBit_eq (crc : BitVec 32) :
    crcBit crc = (crc >>> 1) ^^^ if crc.getLsbD 0 then 0xEDB88320#32 else 0#32 := by
  have hlow : crc &&& 1 = (BitVec.ofBool (crc.getLsbD 0)).setWidth 32 :=
    BitVec.and_one_eq_setWidth_ofBool_getLsbD
  rw [crcBit, hlow]
  cases crc.getLsbD 0 with
  | false => exact BitVec.xor_zero.symm
  | true => rfl

theorem crcBit_xor (a b : BitVec 32) : crcBit (a ^^^ b) = crcBit a ^^^ crcBit b := by
  have hlow : (if (a ^^^ b).getLsbD 0 then 0xEDB88320#32 else 0#32) =
      (if a.getLsbD 0 then 0xEDB88320#32 else 0#32) ^^^ if b.getLsbD 0 then 0xEDB88320#32
      else 0#32 := by
    rw [BitVec.getLsbD_xor]
    cases a.getLsbD 0 <;> cases b.getLsbD 0 <;> rfl
  rw [crcBit_eq, crcBit_eq, crcBit_eq, hlow, BitVec.ushiftRight_xor_distrib]
  ac_rfl

variable {x : BitVec 32}

theorem crcBit_shift (h : x.toNat < 2 ^ 31) : crcBit (x <<< 1) = x := by
  have hlow : (x <<< 1).getLsbD 0 = false := by simp
  rw [crcBit_eq, hlow, if_neg Bool.false_ne_true, BitVec.xor_zero]
  apply BitVec.eq_of_toNat_eq
  rw [BitVec.toNat_ushiftRight, BitVec.toNat_shiftLeft, Nat.shiftLeft_eq, Nat.shiftRight_eq_div_pow]
  omega

theorem crcBit_eq_zero (h : crcBit x = 0#32) : x = 0#32 := by
  rw [crcBit_eq, BitVec.xor_eq_zero_iff] at h
  have hval := congrArg BitVec.toNat h
  rw [BitVec.toNat_ushiftRight, Nat.shiftRight_eq_div_pow] at hval
  split at hval
  · have : x.toNat / 2 ^ 1 = 0xEDB88320 := hval
    omega
  rename_i hbit
  have hhalf : x.toNat / 2 ^ 1 = 0 := hval
  have heven : x.toNat % 2 ≠ 1 :=
    fun hodd => hbit ((Nat.testBit_zero _).trans (decide_eq_true hodd))
  exact BitVec.eq_of_toNat_eq (by change _ = 0; omega)

theorem repeat_crcBit_xor (n : Nat) (a b : BitVec 32) :
    Nat.repeat crcBit n (a ^^^ b) = Nat.repeat crcBit n a ^^^ Nat.repeat crcBit n b := by
  induction n with
  | zero => rfl
  | succ n ih => rw [Nat.repeat, Nat.repeat, Nat.repeat, ih, crcBit_xor]

theorem repeat_crcBit_eq_zero {n : Nat} (h : Nat.repeat crcBit n x = 0#32) : x = 0#32 := by
  induction n with
  | zero => exact h
  | succ n ih => exact ih (crcBit_eq_zero h)

theorem repeat_crcBit_shift {n : Nat} {x : BitVec 32} (h : x.toNat * 2 ^ n < 2 ^ 32) :
    Nat.repeat crcBit n (x <<< n) = x := by
  induction n generalizing x with
  | zero => exact BitVec.shiftLeft_zero x
  | succ n ih =>
    rw [Nat.pow_succ'] at h
    have hsmall : x.toNat * 2 < 2 ^ 32 :=
      Nat.lt_of_le_of_lt (Nat.mul_le_mul_left _ (Nat.le_mul_of_pos_right 2 (Nat.two_pow_pos n))) h
    have htwice : (x <<< 1).toNat = x.toNat * 2 := by
      rw [BitVec.toNat_shiftLeft, Nat.shiftLeft_eq, Nat.mod_eq_of_lt hsmall]
    rw [Nat.repeat, Nat.add_comm n 1, BitVec.shiftLeft_add,
      ih (by rw [htwice, Nat.mul_assoc]; exact h)]
    exact crcBit_shift (by omega)

theorem strictly_eq {w : Nat} {α : Type} (x : BitVec w) (k : BitVec w → α) :
    strictly x k = k x := by
  unfold strictly
  split
  · rename_i h
    exact congrArg k (BitVec.eq_of_toNat_eq h.symm)
  · rename_i h
    rw [show _ + 1 = x.toNat from h.symm, BitVec.ofNat_toNat, BitVec.setWidth_eq]

theorem crcLoop_cons (b : BitVec 8) (data : List (BitVec 8)) (crc : BitVec 32) :
    crcLoop (b :: data) crc = crcLoop data (crcByte crc b) := strictly_eq _ _

theorem crcLoop_append (a b : List (BitVec 8)) (crc : BitVec 32) :
    crcLoop (a ++ b) crc = crcLoop b (crcLoop a crc) := by
  induction a generalizing crc with
  | nil => rfl
  | cons byte a ih => rw [List.cons_append, crcLoop_cons, crcLoop_cons, ih]

variable {a b : BitVec 8} {c d : BitVec 32} {x y : List (BitVec 8)}

/-- The states before a byte, from those after it. -/
theorem xor_of_crcByte {m : Nat} (hm : m ≤ 24) (h : (crcByte c a ^^^ crcByte d b).toNat < 2 ^ m) :
    c ^^^ d = (crcByte c a ^^^ crcByte d b) <<< 8 ^^^ (a ^^^ b).setWidth 32 := by
  have hstep :
      crcByte c a ^^^ crcByte d b = Nat.repeat crcBit 8 (c ^^^ d ^^^ (a ^^^ b).setWidth 32) := by
    rw [crcByte, crcByte, ← repeat_crcBit_xor, BitVec.setWidth_xor]
    congr 1
    ac_rfl
  have hback : Nat.repeat crcBit 8 ((crcByte c a ^^^ crcByte d b) <<< 8) = crcByte c a ^^^
      crcByte d b := by
    have := Nat.pow_le_pow_right (n := 2) (by decide) hm
    exact repeat_crcBit_shift (by omega)
  have hzero :=
    repeat_crcBit_xor 8 (c ^^^ d ^^^ (a ^^^ b).setWidth 32) ((crcByte c a ^^^ crcByte d b) <<< 8)
  rw [hback, ← hstep, BitVec.xor_self] at hzero
  rw [← BitVec.xor_eq_zero_iff.mp (repeat_crcBit_eq_zero hzero), BitVec.xor_assoc, BitVec.xor_self,
    BitVec.xor_zero]

/-- States that meet again after inputs which differ in the first `n` bytes only. -/
theorem crcLoop_meet {n : Nat} (hn : n ≤ 4) (hlen : x.length = y.length)
    (hsame : ∀ i ≥ n, x[i]? = y[i]?) (h : crcLoop x c = crcLoop y d) :
    (c ^^^ d).toNat < 2 ^ (8 * n) := by
  induction x generalizing y c d n with
  | nil =>
    rw [List.length_nil] at hlen
    rw [List.length_eq_zero_iff.mp hlen.symm] at h
    rw [show c = d from h, BitVec.xor_self]
    exact Nat.two_pow_pos _
  | cons a x ih =>
    obtain ⟨b, y, rfl⟩ := List.exists_cons_of_length_eq_add_one hlen.symm
    rw [crcLoop_cons, crcLoop_cons] at h
    have hrest :=
      ih (n := n - 1) (by omega) (Nat.succ.inj hlen) (fun i hi => hsame (i + 1) (by omega)) h
    rw [xor_of_crcByte (by omega) hrest]
    cases n with
    | zero =>
      have hhead : a = b := Option.some.inj (hsame 0 (Nat.le_refl 0))
      have hstate := BitVec.eq_of_toNat_eq (y := 0#32) (Nat.lt_one_iff.mp hrest)
      rw [hstate, hhead, BitVec.xor_self]
      decide
    | succ n =>
      have hbig : 2 ^ (8 * (n + 1)) = 2 ^ (8 * n) * 256 := by rw [Nat.mul_succ, Nat.pow_add]
      have hpos := Nat.two_pow_pos (8 * n)
      rw [BitVec.toNat_xor]
      apply Nat.xor_lt_two_pow
      · rw [BitVec.toNat_shiftLeft, Nat.shiftLeft_eq]
        refine Nat.lt_of_le_of_lt (Nat.mod_le _ _) ?_
        rw [hbig]
        exact Nat.mul_lt_mul_of_pos_right hrest (by decide)
      · rw [BitVec.toNat_setWidth]
        refine Nat.lt_of_le_of_lt (Nat.mod_le _ _) ?_
        omega

theorem crcLoop_burst {k : Nat} (hlen : x.length = y.length)
    (hburst : ∀ i, x[i]? ≠ y[i]? → k ≤ i ∧ i < k + 4) (h : crcLoop x c = crcLoop y c) : x = y := by
  induction x generalizing y c k with
  | nil => exact (List.length_eq_zero_iff.mp hlen.symm).symm
  | cons a x ih =>
    obtain ⟨b, y, rfl⟩ := List.exists_cons_of_length_eq_add_one hlen.symm
    rw [crcLoop_cons, crcLoop_cons] at h
    have hlen' := Nat.succ.inj hlen
    by_cases hhead : a = b
    · subst hhead
      rw [ih (k := k - 1) hlen' (fun i hi => by have := hburst (i + 1) hi; omega) h]
    exfalso
    -- the first bytes differ, so that the rest differs in three bytes at most
    have hk := (hburst 0 (fun heq => hhead (Option.some.inj heq))).1
    have hmeet := crcLoop_meet (n := 3) (by decide) hlen' (fun i hi => by
      by_contra hne
      have := hburst (i + 1) hne
      omega) h
    have hxor := xor_of_crcByte (Nat.le_refl 24) hmeet
    rw [BitVec.xor_self] at hxor
    have hbytes := congrArg BitVec.toNat (BitVec.xor_eq_zero_iff.mp hxor.symm)
    rw [BitVec.toNat_shiftLeft, Nat.shiftLeft_eq, BitVec.toNat_setWidth] at hbytes
    exact hhead
      (BitVec.xor_eq_zero_iff.mp (BitVec.eq_of_toNat_eq (y := 0#8) (by change _ = 0; omega)))

theorem calculateCrc32_append_burst :
    (∀ (a b : List (BitVec 8)) (seed : BitVec 32),
      calculateCrc32 (a ++ b) seed = calculateCrc32 b (calculateCrc32 a seed)) ∧
    ∀ (x y : List (BitVec 8)) (seed : BitVec 32), x.length = y.length → x ≠ y →
      (∃ k, ∀ i, x[i]? ≠ y[i]? → k ≤ i ∧ i < k + 4) →
        calculateCrc32 x seed ≠ calculateCrc32 y seed := by
  constructor
  · intro a b seed
    rw [calculateCrc32, calculateCrc32, calculateCrc32, BitVec.not_not, crcLoop_append]
  · rintro x y seed hlen hne ⟨k, hburst⟩ heq
    exact hne (crcLoop_burst hlen hburst (BitVec.not_inj.mp heq))

/-- Three bytes of seven differ, from the third one on. -/
theorem calculateCrc32_burst_detected :
    calculateCrc32 [9, 8, 1, 0, 2, 7, 6] 0 ≠ calculateCrc32 [9, 8, 3, 0, 4, 7, 6] 0 := by
  refine calculateCrc32_append_burst.2 _ _ 0 rfl (by decide) ⟨2, fun i hi => ?_⟩
  match i with
  | 0 | 1 | 6 => exact absurd rfl hi
  | 2 | 3 | 4 | 5 => omega
  | n + 7 => exact absurd rfl hi

/-- The checksum of the first `header_size` bytes of a sector with the field of the checksum
zeroed. -/
def declaredCrc (sector : Buffer) : BitVec 32 :=
  calculateCrc32 (slice sector 0 16 ++
    (leBytes 4 0 ++ slice sector 20 ((load sector 0).headerSize.toNat - 20))) 0

/-- The check accepts the checksums that are right, and no byte outside the header matters. -/
def ChecksHeader (sector : Buffer) : Prop :=
  (∀ stack, headerCrc stack (load sector 0) = (load sector 0).headerCrc32 ↔
    (load sector 0).headerCrc32 = declaredCrc sector) ∧
  ∀ stack stack', headerCrc stack (load sector 0) = headerCrc stack' (load sector 0)

theorem zeroed_bytes (sector : Buffer) : { load sector 0 with headerCrc32 := 0 }.bytes =
    slice sector 0 16 ++ (leBytes 4 0 ++ slice sector 20 72) := by
  have hfront := pack_unpack sector [8, 4, 4] 0
  have hback := pack_unpack sector [4, 8, 8, 8, 8, 16, 8, 4, 4, 4] 20
  simp only [total, Nat.reduceAdd, Nat.add_zero] at hfront hback
  rw [← hfront, ← hback]
  simp only [bytes, fields, load, widths, pack, unpack, BitVec.toNat_ofNat, loadLe_mod,
    Nat.reduceAdd, Nat.zero_add, List.append_assoc, List.append_nil]
  rfl

/-- A sector with a header of the given size and checksum. -/
def headerSector (headerSize headerCrc32 : BitVec 32) : Buffer :=
  fun i => (GptHeader.bytes ⟨signature, 0x10000, headerSize, headerCrc32, 0, 1, 7, 3, 6, 0x11, 2, 1,
    128, 0⟩).getD i 0

end LlamaOS.Storage
