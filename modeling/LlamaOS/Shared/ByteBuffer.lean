import Mathlib.Algebra.Group.Nat.Defs

/-!
# Byte buffers

A buffer is read and written at positions; its length is left to the code that uses it.
-/

namespace LlamaOS.ByteBuffer

abbrev Buffer := Nat → BitVec 8

/-- A byte string copied to position `pos`. -/
def patch (buf : Buffer) (pos : Nat) (bytes : List (BitVec 8)) : Buffer :=
  fun i => if pos ≤ i ∧ i < pos + bytes.length then bytes.getD (i - pos) 0 else buf i

/-- `len` bytes from position `pos` on. -/
def slice (buf : Buffer) (pos len : Nat) : List (BitVec 8) :=
  (List.range len).map fun i => buf (pos + i)

/-- The little-endian integer of `width` bytes at position `pos`. -/
def loadLe (buf : Buffer) (pos : Nat) : Nat → Nat
  | 0 => 0
  | width + 1 => (buf pos).toNat + 256 * loadLe buf (pos + 1) width

/-- A little-endian integer of `width` bytes. -/
def leBytes : Nat → Nat → List (BitVec 8)
  | 0, _ => []
  | width + 1, value => BitVec.ofNat 8 value :: leBytes width (value / 256)

theorem leBytes_length (width value : Nat) : (leBytes width value).length = width := by
  induction width generalizing value with
  | zero => rfl
  | succ width ih => rw [leBytes, List.length_cons, ih]

theorem slice_length (buf : Buffer) (pos len : Nat) : (slice buf pos len).length = len := by
  rw [slice, List.length_map, List.length_range]

variable {pos len i : Nat}

theorem slice_getD (buf : Buffer) (hi : i < len) :
    (slice buf pos len).getD i 0 = buf (pos + i) := by
  rw [slice, List.getD_eq_getElem?_getD, List.getElem?_map, List.getElem?_range hi]
  rfl

theorem slice_eq_iff (buf buf' : Buffer) (pos pos' len : Nat) :
    slice buf pos len = slice buf' pos' len ↔ ∀ i < len, buf (pos + i) = buf' (pos' + i) := by
  constructor
  · intro h i hi
    rw [← slice_getD buf hi, ← slice_getD buf' hi, h]
  · intro h
    exact List.map_congr_left fun i hi => h i (List.mem_range.mp hi)

theorem slice_append (buf : Buffer) (pos front back : Nat) :
    slice buf pos (front + back) = slice buf pos front ++ slice buf (pos + front) back := by
  unfold slice
  rw [List.range_add, List.map_append, List.map_map]
  congr 1
  exact List.map_congr_left fun i _ => congrArg buf (Nat.add_assoc _ _ _).symm

variable {bytes : List (BitVec 8)}

theorem patch_inside (buf : Buffer) (hlo : pos ≤ i) (hhi : i < pos + bytes.length) :
    patch buf pos bytes i = bytes.getD (i - pos) 0 := if_pos ⟨hlo, hhi⟩

theorem patch_outside (buf : Buffer) (h : i < pos ∨ pos + bytes.length ≤ i) :
    patch buf pos bytes i = buf i :=
  if_neg fun hin => by omega

variable {buf buf' : Buffer} {width pos' : Nat}

theorem loadLe_congr_at (h : ∀ i < width, buf (pos + i) = buf' (pos' + i)) :
    loadLe buf pos width = loadLe buf' pos' width := by
  induction width generalizing pos pos' with
  | zero => rfl
  | succ width ih =>
    have hfirst : buf pos = buf' pos' := h 0 (Nat.succ_pos _)
    have hrest : loadLe buf (pos + 1) width = loadLe buf' (pos' + 1) width := ih fun i hi => by
      rw [Nat.add_assoc, Nat.add_assoc]
      exact h (1 + i) (by omega)
    rw [loadLe, loadLe, hfirst, hrest]

theorem loadLe_congr (h : ∀ i < width, buf (pos + i) = buf' (pos + i)) :
    loadLe buf pos width = loadLe buf' pos width :=
  loadLe_congr_at h

theorem loadLe_shift (d : Buffer) (a width pos : Nat) :
    loadLe (fun i => d (a + i)) pos width = loadLe d (a + pos) width :=
  loadLe_congr_at fun _ _ => congrArg d (Nat.add_assoc _ _ _).symm

theorem loadLe_lt (buf : Buffer) (width pos : Nat) : loadLe buf pos width < 256 ^ width := by
  induction width generalizing pos with
  | zero => exact Nat.one_pos
  | succ width ih =>
    have hrest := ih (pos + 1)
    rw [Nat.pow_succ]
    simp only [loadLe]
    omega

theorem byte_pow (width : Nat) : 256 ^ width = 2 ^ (8 * width) := by
  rw [Nat.pow_mul]

theorem toNat_lt_byte_pow (x : BitVec (8 * width)) : x.toNat < 256 ^ width := by
  rw [byte_pow]
  exact x.isLt

theorem loadLe_mod {bits : Nat} (hbits : bits = 8 * width) (buf : Buffer) (pos : Nat) :
    loadLe buf pos width % 2 ^ bits = loadLe buf pos width := by
  apply Nat.mod_eq_of_lt
  rw [hbits, ← byte_pow]
  exact loadLe_lt buf width pos

theorem loadLe_leBytes {value : Nat}
    (h : ∀ i < width, buf (pos + i) = (leBytes width value).getD i 0) :
    loadLe buf pos width = value % 256 ^ width := by
  induction width generalizing pos value with
  | zero =>
    rw [Nat.pow_zero, Nat.mod_one]
    rfl
  | succ width ih =>
    have hfirst := h 0 (Nat.succ_pos _)
    have hrest : loadLe buf (pos + 1) width = value / 256 % 256 ^ width := ih fun i hi => by
      have hnext := h (i + 1) (by omega)
      rw [show pos + (i + 1) = pos + 1 + i by omega] at hnext
      exact hnext
    simp only [Nat.add_zero, leBytes, List.getD_cons_zero] at hfirst
    simp only [loadLe, hfirst, hrest, BitVec.toNat_ofNat]
    rw [Nat.pow_succ (m := width), Nat.mul_comm (256 ^ width), Nat.mod_mul]

theorem leBytes_loadLe (buf : Buffer) (width pos : Nat) :
    leBytes width (loadLe buf pos width) = slice buf pos width := by
  induction width generalizing pos with
  | zero => rfl
  | succ width ih =>
    have hhead : BitVec.ofNat 8 ((buf pos).toNat + 256 * loadLe buf (pos + 1) width) = buf pos := by
      apply BitVec.eq_of_toNat_eq
      rw [BitVec.toNat_ofNat]
      omega
    have htail : ((buf pos).toNat + 256 * loadLe buf (pos + 1) width) / 256 =
      loadLe buf (pos + 1) width := by omega
    rw [loadLe, leBytes, hhead, htail, ih, Nat.add_comm width 1, slice_append]
    rfl

theorem loadLe_patch_self (buf : Buffer) (pos width value : Nat) :
    loadLe (patch buf pos (leBytes width value)) pos width = value % 256 ^ width := by
  apply loadLe_leBytes
  intro i hi
  rw [patch_inside buf (by omega) (by rw [leBytes_length]; omega), Nat.add_sub_cancel_left]

theorem loadLe_patch_of_disjoint (buf : Buffer)
    (h : pos' + width ≤ pos ∨ pos + bytes.length ≤ pos') :
    loadLe (patch buf pos bytes) pos' width = loadLe buf pos' width := by
  apply loadLe_congr
  intro i hi
  exact patch_outside buf (by omega)

theorem patch_window (d : Buffer) {start : Nat} (hfits : pos + bytes.length ≤ len) :
    (fun a => if start ≤ a ∧ a < start + len then patch (fun i => d (start + i)) pos bytes
      (a - start) else d a) = patch d (start + pos) bytes := by
  funext a
  unfold patch
  by_cases hin : start ≤ a ∧ a < start + len
  · rw [if_pos hin]
    by_cases hbytes : start + pos ≤ a ∧ a < start + pos + bytes.length
    · rw [if_pos (by omega), if_pos hbytes, show a - start - pos = a - (start + pos) by omega]
    · rw [if_neg (by omega), if_neg hbytes]
      exact congrArg d (by omega)
  · rw [if_neg hin, if_neg (by omega)]

/-- The buffer has the byte string at position `pos`. -/
def HasBytes (buf : Buffer) (pos : Nat) (bytes : List (BitVec 8)) : Prop :=
  ∀ i < bytes.length, buf (pos + i) = bytes.getD i 0

/-- A byte string with zeros behind it. -/
def ofBytes (bytes : List (BitVec 8)) : Buffer := fun i => bytes.getD i 0

theorem hasBytes_ofBytes (bytes : List (BitVec 8)) : HasBytes (ofBytes bytes) 0 bytes :=
  fun i _ => congrArg (bytes.getD · 0) (Nat.zero_add i)

theorem hasBytes_patch (buf : Buffer) (pos : Nat) (bytes : List (BitVec 8)) :
    HasBytes (patch buf pos bytes) pos bytes := by
  intro i hi
  rw [patch_inside buf (Nat.le_add_right _ _) (by omega), Nat.add_sub_cancel_left]

namespace HasBytes

variable {buf : Buffer} {pos : Nat} {front back bytes : List (BitVec 8)}

theorem left (h : HasBytes buf pos (front ++ back)) : HasBytes buf pos front := by
  intro i hi
  rw [h i (by rw [List.length_append]; omega)]
  simp only [List.getD_eq_getElem?_getD, List.getElem?_append_left hi]

theorem right (h : HasBytes buf pos (front ++ back)) : HasBytes buf (pos + front.length) back := by
  intro i hi
  rw [Nat.add_assoc, h (front.length + i) (by rw [List.length_append]; omega)]
  simp only [List.getD_eq_getElem?_getD, List.getElem?_append_right (Nat.le_add_right _ _),
    Nat.add_sub_cancel_left]

theorem patch_outside (h : HasBytes buf pos bytes) {pos' : Nat} {data : List (BitVec 8)}
    (hout : pos + bytes.length ≤ pos' ∨ pos' + data.length ≤ pos) :
    HasBytes (patch buf pos' data) pos bytes := by
  intro i hi
  rw [ByteBuffer.patch_outside _ (by omega)]
  exact h i hi

theorem loadLe {width value : Nat} (h : HasBytes buf pos (leBytes width value)) :
    loadLe buf pos width = value % 256 ^ width := by
  rw [HasBytes, leBytes_length] at h
  exact loadLe_leBytes h

theorem slice_eq (h : HasBytes buf pos bytes) : slice buf pos bytes.length = bytes := by
  apply List.ext_getElem
  · rw [slice_length]
  · intro i hi hi'
    simp only [slice, List.getElem_map, List.getElem_range]
    rw [h i hi', List.getD_eq_getElem?_getD, List.getElem?_eq_getElem hi', Option.getD_some]

end HasBytes

end LlamaOS.ByteBuffer
