import LlamaOS.Fs.DirectoryScans

/-!
# Long names

A long name is stored backwards, thirteen characters an entry, in front of its short name.
Every full entry also writes a NUL behind its characters, over the first character of the
entry read before it, so a scan keeps the first thirteen characters of a name.
-/

namespace LlamaOS.Fs
open ByteBuffer BlockChain Fs.Geometry

/-- Where character `j` of an entry stands. -/
def lfnPos (j : Nat) : Nat :=
  if j < 5 then 1 + 2 * j else if j < 11 then 14 + 2 * (j - 5) else 28 + 2 * (j - 11)

/-- The character stored for position `p`: one of the name, the NUL, or padding. -/
def lfnUnit (name : CString) (p : Nat) : Nat :=
  if p < name.length then (name.getD p 0).toNat else if p = name.length then 0 else 0xFFFF

def lfnCount (name : CString) : Nat := (name.length + 12) / 13

/-- The entry with sequence number `seq` of a name. -/
structure LfnEntry (dir : Buffer) (off : Nat) (name : CString) (seq : Nat) : Prop where
  order : dir off = BitVec.ofNat 8 (if seq = lfnCount name then seq + 0x40 else seq)
  attr : entryAttr dir off = fatAttrLfn
  chars : ∀ j < 13, loadLe dir (off + lfnPos j) 2 = lfnUnit name ((seq - 1) * 13 + j)

/-- The entries of a name, the highest sequence number first. -/
structure StoredLong (data : Nat → Buffer) (name : CString) (long : List Slot) : Prop where
  count : long.length = lfnCount name
  entry : ∀ k slot, long[k]? = some slot →
    LfnEntry (data slot.1) (slot.2 * dirEntrySize) name (lfnCount name - k)

instance (dir : Buffer) (off : Nat) (name : CString) (seq : Nat) :
    Decidable (LfnEntry dir off name seq) :=
  decidable_of_iff
    (dir off = BitVec.ofNat 8 (if seq = lfnCount name then seq + 0x40 else seq) ∧
      entryAttr dir off = fatAttrLfn ∧
      ∀ j < 13, loadLe dir (off + lfnPos j) 2 = lfnUnit name ((seq - 1) * 13 + j))
    ⟨fun h => ⟨h.1, h.2.1, h.2.2⟩, fun h => ⟨h.order, h.attr, h.chars⟩⟩

variable {name : CString}

theorem storedLong_iff {data : Nat → Buffer} {long : List Slot} :
    StoredLong data name long ↔ long.length = lfnCount name ∧ ∀ k < long.length,
      LfnEntry (data (long.getD k (0, 0)).1) ((long.getD k (0, 0)).2 * dirEntrySize) name
        (lfnCount name - k) := by
  constructor
  · intro h
    refine ⟨h.count, ?_⟩
    intro k hk
    apply h.entry k
    rw [List.getD_eq_getElem?_getD, List.getElem?_eq_getElem hk]
    rfl
  · rintro ⟨hcount, hentry⟩
    refine ⟨hcount, ?_⟩
    intro k slot hk
    have hslot := hentry k (List.getElem?_eq_some_iff.mp hk).1
    rwa [List.getD_eq_getElem?_getD, hk] at hslot

instance (data : Nat → Buffer) (name : CString) (long : List Slot) :
    Decidable (StoredLong data name long) :=
  decidable_of_iff _ storedLong_iff.symm

/-- A name of one to 255 ASCII characters. -/
structure AsciiName (name : CString) : Prop where
  nonempty : 0 < name.length
  short : name.length ≤ 255
  ascii : ∀ c ∈ name, 0 < c.toNat ∧ c.toNat < 128

theorem AsciiName.nul_notMem (h : AsciiName name) : (0 : BitVec 8) ∉ name := by
  intro hmem
  exact absurd (h.ascii 0 hmem).1 (by decide)

/-- The buffer holds the string and its NUL at position `p`. -/
structure SpellsAt (b : Buffer) (p : Nat) (s : CString) : Prop where
  chars : ∀ i < s.length, s[i]? = some (b (p + i))
  nul : b (p + s.length) = 0

variable {s : CString}

theorem strcasecmpMatch_spells (hnul : (0 : BitVec 8) ∉ s) {a : CString} {b : Buffer} {p : Nat}
    (h : SpellsAt b p s) (heq : a.map toLower = s.map toLower) : strcasecmpMatch a b p = true := by
  induction s generalizing a b p with
  | nil =>
    rw [List.map_nil, List.map_eq_nil_iff] at heq
    rw [heq, strcasecmpMatch, beq_iff_eq]
    exact h.nul
  | cons c s ih =>
    cases a with
    | nil => cases heq
    | cons c' a =>
      rw [List.map_cons, List.map_cons, List.cons.injEq] at heq
      have hfirst : b p = c := by
        have hchar := h.chars 0 (Nat.succ_pos _)
        rw [List.getElem?_cons_zero, Option.some_inj] at hchar
        exact hchar.symm
      have hne : b p ≠ 0 := by
        intro hzero
        exact hnul (by rw [← hzero, hfirst]; exact List.mem_cons_self)
      have hrest : SpellsAt b (p + 1) s := by
        refine ⟨?_, ?_⟩
        · intro i hi
          have hchar := h.chars (i + 1) (by rw [List.length_cons]; omega)
          rwa [List.getElem?_cons_succ, show p + (i + 1) = p + 1 + i by omega] at hchar
        · have hend := h.nul
          rwa [List.length_cons, show p + (s.length + 1) = p + 1 + s.length by omega] at hend
      rw [strcasecmpMatch, if_neg hne, if_neg (by rw [hfirst]; exact not_not.mpr heq.1)]
      exact ih (fun hmem => hnul (List.mem_cons_of_mem c hmem)) hrest heq.2

variable {b : Buffer}

theorem bufString_spells (h : SpellsAt b 0 s) (hnul : (0 : BitVec 8) ∉ s) (size : Nat) :
    bufString b size = s.take size := by
  have hchars : ∀ i < s.length, s[i]? = some (b i) := by
    intro i hi
    have hchar := h.chars i hi
    rwa [Nat.zero_add] at hchar
  have hend : b s.length = 0 := by
    have hnulAt := h.nul
    rwa [Nat.zero_add] at hnulAt
  have hsplit : ∃ rest, slice b 0 size = s.take size ++ rest ∧
      (rest = [] ∨ rest.head? = some 0) := by
    refine ⟨(slice b 0 size).drop s.length, ?_, ?_⟩
    · apply List.ext_getElem?
      intro i
      rw [List.getElem?_append, List.getElem?_drop, List.length_take]
      by_cases hi : i < size
      · have hslice : (slice b 0 size)[i]? = some (b i) := by
          rw [slice, List.getElem?_map, List.getElem?_range hi, Option.map_some, Nat.zero_add]
        by_cases his : i < s.length
        · rw [if_pos (by omega), List.getElem?_take_of_lt hi, hchars i his, hslice]
        · rw [if_neg (by omega), show s.length + (i - min size s.length) = i by omega]
      have hlen : (slice b 0 size).length ≤ i := by
        rw [slice_length]
        omega
      rw [List.getElem?_eq_none hlen]
      split
      · omega
      · rw [List.getElem?_eq_none (by rw [slice_length]; omega)]
    · by_cases hlt : s.length < size
      · right
        rw [List.head?_drop, slice, List.getElem?_map, List.getElem?_range hlt, Option.map_some,
          Nat.zero_add, hend]
      · left
        exact List.drop_eq_nil_of_le (by rw [slice_length]; omega)
  obtain ⟨rest, hslice, hrest⟩ := hsplit
  have hkeep : ∀ c ∈ s.take size, (c != 0) = true := by
    intro c hc
    rw [bne_iff_ne]
    intro hzero
    exact hnul (hzero ▸ List.mem_of_mem_take hc)
  rw [bufString, hslice, List.takeWhile_append_of_pos hkeep]
  have hstop : rest.takeWhile (· != 0) = [] := by
    cases rest with
    | nil => rfl
    | cons c rest =>
      rcases hrest with hnil | hhead
      · cases hnil
      · rw [List.head?_cons, Option.some_inj] at hhead
        rw [hhead]
        rfl
  rw [hstop, List.append_nil]

/-- The characters of the name before position `k`. -/
def Copied (b : Buffer) (name : CString) (k : Nat) : Prop := ∀ i < k, name[i]? = some (b i)

theorem lfnLoop_name (hname : AsciiName name) {chars : List Nat} {idx : Nat} {b : Buffer}
    (hfits : idx + chars.length ≤ 255) (hidx : idx ≤ name.length)
    (hchars : ∀ j < chars.length, chars[j]? = some (lfnUnit name (idx + j)))
    (hcopied : Copied b name idx) :
    (idx + chars.length ≤ name.length ∧
        ∃ b', lfnLoop chars idx b = (b', false) ∧ Copied b' name (idx + chars.length)) ∨
      (name.length < idx + chars.length ∧
        ∃ b', lfnLoop chars idx b = (b', true) ∧ Copied b' name name.length ∧
          b' name.length = 0) := by
  induction chars generalizing idx b with
  | nil => exact Or.inl ⟨hidx, b, rfl, hcopied⟩
  | cons ch chars ih =>
    rw [List.length_cons] at hfits
    have hch : ch = lfnUnit name idx := by
      have hzero := hchars 0 (Nat.succ_pos _)
      rwa [List.getElem?_cons_zero, Option.some_inj] at hzero
    have hkept : ∀ v : BitVec 8, Copied (patch b idx [v]) name idx := by
      intro v i hi
      rw [patch_outside b (Or.inl hi)]
      exact hcopied i hi
    have hstored : ∀ v : BitVec 8, patch b idx [v] idx = v := by
      intro v
      rw [patch_inside b (Nat.le_refl _) (by rw [List.length_singleton]; omega), Nat.sub_self]
      rfl
    rw [lfnLoop, if_pos (by simp only [lfnBufSize]; omega)]
    by_cases hend : idx = name.length
    · have hnul : ch = 0 := by
        rw [hch, lfnUnit, if_neg (by omega), if_pos hend]
      rw [if_pos (Or.inl hnul), List.length_cons]
      refine Or.inr ⟨by omega, _, rfl, ?_, ?_⟩
      · rw [← hend]
        exact hkept 0
      · rw [← hend]
        exact hstored 0
    · have hlt : idx < name.length := by omega
      have hget : name[idx]? = some name[idx] := List.getElem?_eq_getElem hlt
      have hunit : ch = name[idx].toNat := by
        rw [hch, lfnUnit, if_pos hlt, List.getD_eq_getElem?_getD, hget]
        rfl
      obtain ⟨hpos, hascii⟩ := hname.ascii name[idx] (List.getElem_mem hlt)
      have hmask : BitVec.ofNat 8 (ch &&& 0x7F) = name[idx] := by
        rw [hunit, show name[idx].toNat &&& 0x7F = name[idx].toNat % 2 ^ 7 from
          Nat.and_two_pow_sub_one_eq_mod _ 7,
          Nat.mod_eq_of_lt (show name[idx].toNat < 2 ^ 7 from hascii), BitVec.ofNat_toNat,
            BitVec.setWidth_eq]
      rw [if_neg (by omega), hmask]
      have hnext : Copied (patch b idx [name[idx]]) name (idx + 1) := by
        intro i hi
        by_cases heq : i = idx
        · rw [heq, hstored, hget]
        · exact hkept _ i (by omega)
      have hrest := ih (by omega) hlt (fun j hj => by
        have hchar := hchars (j + 1) (by rw [List.length_cons]; omega)
        rwa [List.getElem?_cons_succ, show idx + (j + 1) = idx + 1 + j by omega] at hchar) hnext
      rwa [show idx + 1 + chars.length = idx + (ch :: chars).length by rw [List.length_cons]; omega]
        at hrest

theorem lfnField_getElem? (dir : Buffer) (pos : Nat) {count j : Nat} (hj : j < count) :
    (lfnField dir pos count)[j]? = some (loadLe dir (pos + 2 * j) 2) := by
  rw [lfnField, List.getElem?_map, List.getElem?_range hj, Option.map_some]

theorem lfnField_length (dir : Buffer) (pos count : Nat) :
    (lfnField dir pos count).length = count := by
  rw [lfnField, List.length_map, List.length_range]

theorem spellsAt_copied {k : Nat} (hk : k ≤ name.length) (hcopied : Copied b name k)
    (hnul : b k = 0) : SpellsAt b 0 (name.take k) := by
  have hlen : (name.take k).length = k := by
    rw [List.length_take]
    omega
  refine ⟨?_, ?_⟩
  · intro i hi
    rw [hlen] at hi
    rw [List.getElem?_take_of_lt hi, Nat.zero_add]
    exact hcopied i hi
  · rw [hlen, Nat.zero_add]
    exact hnul

/-- Whatever the buffer held, the entry with sequence number 1 leaves the first thirteen
characters. -/
theorem extractLfnChars_first {dir : Buffer} {off : Nat} (hname : AsciiName name)
    (h : LfnEntry dir off name 1) (b : Buffer) :
    SpellsAt (extractLfnChars dir off b) 0 (name.take 13) := by
  have hseq : (dir off &&& 0x1F).toNat = 1 := by
    rw [h.order]
    split <;> decide
  have hchar : ∀ j < 13, loadLe dir (off + lfnPos j) 2 = lfnUnit name j := by
    intro j hj
    have hchar := h.chars j hj
    rwa [Nat.sub_self, Nat.zero_mul, Nat.zero_add] at hchar
  have hwhole : name.length < 13 → name.take 13 = name :=
    fun hlt => List.take_of_length_le (by omega)
  have hfields : ∀ pos start count, start + count ≤ 13 →
      (∀ j < count, pos + 2 * j = off + lfnPos (start + j)) →
      ∀ j < (lfnField dir pos count).length, (lfnField dir pos count)[j]? =
        some (lfnUnit name (start + j)) := by
    intro pos start count hle hpos j hj
    rw [lfnField_length] at hj
    rw [lfnField_getElem? dir pos hj, hpos j hj, hchar (start + j) (by omega)]
  have hfield₁ := hfields (off + 1) 0 5 (by decide) fun j hj => by
    rw [lfnPos, if_pos (by omega)]
    omega
  have hfield₂ := hfields (off + 14) 5 6 (by decide) fun j hj => by
    rw [lfnPos, if_neg (by omega), if_pos (by omega)]
    omega
  have hfield₃ := hfields (off + 28) 11 2 (by decide) fun j hj => by
    rw [lfnPos, if_neg (by omega), if_neg (by omega)]
    omega
  have hstart : Copied b name 0 := by
    intro i hi
    omega
  unfold extractLfnChars
  simp only [hseq]
  rw [if_pos (by decide)]
  have hshort : ∀ {b' : Buffer}, name.length < 13 → Copied b' name name.length →
      b' name.length = 0 → SpellsAt b' 0 (name.take 13) := by
    intro b' hlt hcopied hnul
    have hspells := spellsAt_copied (Nat.le_refl _) hcopied hnul
    rw [List.take_length] at hspells
    rwa [hwhole hlt]
  -- each of the three loops goes on or meets the NUL
  rcases lfnLoop_name hname (by rw [lfnField_length]; decide) (Nat.zero_le _) hfield₁ hstart with
    ⟨hle₁, b₁, hloop₁, hcopied₁⟩ | ⟨hlt, b₁, hloop, hcopied, hnul⟩
  · rw [lfnField_length] at hle₁ hcopied₁
    simp only [hloop₁]
    rcases lfnLoop_name hname (by rw [lfnField_length]; decide) hle₁ hfield₂ hcopied₁ with
      ⟨hle₂, b₂, hloop₂, hcopied₂⟩ | ⟨hlt, b₂, hloop, hcopied, hnul⟩
    · rw [lfnField_length] at hle₂ hcopied₂
      simp only [hloop₂]
      rcases lfnLoop_name hname (by rw [lfnField_length]; decide) hle₂ hfield₃ hcopied₂ with
        ⟨hle₃, b₃, hloop₃, hcopied₃⟩ | ⟨hlt, b₃, hloop, hcopied, hnul⟩
      · rw [lfnField_length] at hle₃ hcopied₃
        simp only [hloop₃]
        rw [if_pos (by decide)]
        apply spellsAt_copied hle₃
        · intro i hi
          rw [patch_outside b₃ (Or.inl hi)]
          exact hcopied₃ i hi
        · rfl
      · simp only [hloop]
        exact hshort hlt hcopied hnul
    · rw [lfnField_length] at hlt
      simp only [hloop]
      exact hshort (by omega) hcopied hnul
  · rw [lfnField_length] at hlt
    simp only [Nat.sub_self, Nat.zero_mul, hloop]
    exact hshort (by omega) hcopied hnul

end LlamaOS.Fs
