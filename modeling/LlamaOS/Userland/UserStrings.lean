import LlamaOS.Userland.UserMemory

/-!
# User strings

`validate_string` reads a string while it checks it. The scan finds the first terminator
and never reads ahead of its checks.
-/

namespace LlamaOS.Userland.UserMemoryValidator
open Memory VirtualMemoryManager

/-- The user byte `i` characters into the string. -/
structure Readable (m : Machine) (start i : Nat) : Prop where
  lower : 0x1000 ≤ start + i
  upper : start + i < 2 ^ 47
  page : PageGrants m readFlags (start + i)

/-- The first terminator from character `len` on. -/
structure FirstNul (m : Machine) (start len k : Nat) : Prop where
  le : len ≤ k
  readable : ∀ i, len ≤ i → i ≤ k → Readable m start i
  nul : loadByte m (start + k) = some 0
  nonzero : ∀ i, len ≤ i → i < k → ∃ b, loadByte m (start + i) = some b ∧ b ≠ 0

/-- Every read comes right after the check of its page. -/
def ReadsChecked (m : Machine) (accesses : List UserAccess) : Prop :=
  ∀ before a after, accesses = before ++ .read a :: after →
    ∃ earlier, before = earlier ++ [.checked (a / 4096 * 4096)] ∧ PageGrants m readFlags a

theorem FirstNul.step {m : Machine} {start len k : Nat} {b : BitVec 8}
    (hread : Readable m start len) (hload : loadByte m (start + len) = some b) (hb : b ≠ 0) :
    FirstNul m start (len + 1) k ↔ FirstNul m start len k := by
  constructor
  · intro h
    refine ⟨Nat.le_of_succ_le h.le, ?_, h.nul, ?_⟩
    · intro i hlo hhi
      by_cases hi : i = len
      · rw [hi]
        exact hread
      · exact h.readable i (by omega) hhi
    · intro i hlo hhi
      by_cases hi : i = len
      · rw [hi]
        exact ⟨b, hload, hb⟩
      · exact h.nonzero i (by omega) hhi
  · intro h
    have hne : len ≠ k := by
      intro heq
      have hnul := h.nul
      rw [← heq, hload] at hnul
      exact hb (Option.some.inj hnul)
    have hle := h.le
    exact ⟨by omega, fun i hlo => h.readable i (by omega), h.nul,
      fun i hlo => h.nonzero i (by omega)⟩

variable {m : Machine} {start len : Nat}

theorem FirstNul.loaded {k : Nat} (h : FirstNul m start len k) :
    ∃ b, loadByte m (start + len) = some b ∧ (b = 0 → k = len) := by
  by_cases heq : len = k
  · refine ⟨0, ?_, fun _ => heq.symm⟩
    rw [heq]
    exact h.nul
  · have hle := h.le
    obtain ⟨b, hload, hb⟩ := h.nonzero len (Nat.le_refl _) (by omega)
    exact ⟨b, hload, fun hzero => absurd hzero hb⟩

theorem ReadsChecked.nil (m : Machine) : ReadsChecked m [] := by
  intro before a after h
  cases before with
  | nil => cases h
  | cons x before => cases h

theorem ReadsChecked.check (m : Machine) (page : Nat) : ReadsChecked m [.checked page] := by
  intro before a after h
  cases before with
  | nil => cases h
  | cons x before =>
    cases before with
    | nil => cases h
    | cons y before => cases h

theorem ReadsChecked.cons {a : Nat} {accesses : List UserAccess} (hpage : PageGrants m readFlags a)
    (hrest : ReadsChecked m accesses) :
    ReadsChecked m (.checked (a / 4096 * 4096) :: .read a :: accesses) := by
  intro before b after h
  cases before with
  | nil => cases h
  | cons x before =>
    cases before with
    | nil =>
      cases h
      exact ⟨[], rfl, hpage⟩
    | cons y before =>
      obtain ⟨hx, h⟩ := List.cons.inj h
      obtain ⟨hy, h⟩ := List.cons.inj h
      obtain ⟨earlier, hbefore, hgrants⟩ := hrest before b after h
      exact ⟨x :: y :: earlier, by rw [hbefore]; rfl, hgrants⟩

/-- One character of the scan: it stops where the user bytes end, and reads where they do not. -/
theorem scanString_succ (m : Machine) (hstart : 0x1000 ≤ start) (hlen : start + len ≤ 2 ^ 47)
    (left : Nat) :
    (¬ Readable m start len ∧ (scanString m start (left + 1) len).2 = .ok none ∧
      ReadsChecked m (scanString m start (left + 1) len).1) ∨
    (Readable m start len ∧ scanString m start (left + 1) len =
      (.checked ((start + len) / 4096 * 4096) :: .read (start + len) ::
          (match loadByte m (start + len) with
            | none => []
            | some b => if b = 0 then [] else (scanString m start left (len + 1)).1),
        match loadByte m (start + len) with
          | none => .error .pageFault
          | some b =>
            if b = 0 then .ok (some len) else (scanString m start left (len + 1)).2)) := by
  have hadd : add64 start len = start + len := add64_eq (by omega)
  simp only [scanString, hadd, userAddrMax]
  by_cases hmax : start + len > 0x00007FFFFFFFFFFF
  · rw [if_pos hmax]
    refine Or.inl ⟨?_, rfl, ReadsChecked.nil m⟩
    intro hread
    have hupper := hread.upper
    omega
  have hlt : start + len < 2 ^ 47 := by omega
  have hpage := checkPage_page_iff m readFlags hlt
  rw [if_neg hmax, land_pageMask (by omega)]
  cases hcheck : checkPage m readFlags ((start + len) / 4096 * 4096) with
  | false =>
    refine Or.inl ⟨?_, rfl, ReadsChecked.check m _⟩
    intro hread
    exact Bool.false_ne_true (hcheck.symm.trans (hpage.mpr hread.page))
  | true =>
    refine Or.inr ⟨⟨by omega, hlt, hpage.mp hcheck⟩, ?_⟩
    cases loadByte m (start + len) with
    | none => rfl
    | some b =>
      by_cases hzero : b = 0
      · simp [hzero]
      · simp only [Bool.not_true, Bool.false_eq_true, if_false, if_neg hzero]

theorem scanString_iff (m : Machine) (hstart : 0x1000 ≤ start) (left k : Nat) (len)
    (hlen : start + len ≤ 2 ^ 47) :
    ((scanString m start left len).2 = .ok (some k) ↔ k < len + left ∧ FirstNul m start len k) := by
  induction left generalizing len with
  | zero =>
    simp only [scanString, Except.ok.injEq, reduceCtorEq, Nat.add_zero, false_iff]
    intro h
    exact absurd h.2.le (Nat.not_le_of_lt h.1)
  | succ left ih =>
    rcases scanString_succ m hstart hlen left with ⟨hstop, hresult, _⟩ | ⟨hread, hscan⟩
    · simp only [hresult, Except.ok.injEq, reduceCtorEq, false_iff]
      intro h
      exact hstop (h.2.readable len (Nat.le_refl _) h.2.le)
    rw [hscan]
    cases hload : loadByte m (start + len) with
    | none =>
      simp only [reduceCtorEq, false_iff]
      intro h
      obtain ⟨b, hb, _⟩ := h.2.loaded
      rw [hload] at hb
      cases hb
    | some b =>
      simp only
      by_cases hzero : b = 0
      · rw [if_pos hzero, Except.ok.injEq, Option.some.injEq]
        rw [hzero] at hload
        constructor
        · intro heq
          subst heq
          refine ⟨by omega, Nat.le_refl _, ?_, hload,
            fun i hlo hhi => absurd hhi (Nat.not_lt_of_le hlo)⟩
          intro i hlo hhi
          rw [show i = len by omega]
          exact hread
        · intro h
          obtain ⟨b', hb', heq⟩ := h.2.loaded
          rw [hload] at hb'
          exact (heq (Option.some.inj hb').symm).symm
      · have hlt := hread.upper
        rw [if_neg hzero, ih (len + 1) (by omega), FirstNul.step hread hload hzero,
          show len + 1 + left = len + (left + 1) by omega]

theorem scanString_readsChecked (m : Machine) (hstart : 0x1000 ≤ start) (left : Nat) (len)
    (hlen : start + len ≤ 2 ^ 47) : ReadsChecked m (scanString m start left len).1 := by
  induction left generalizing len with
  | zero => exact ReadsChecked.nil m
  | succ left ih =>
    rcases scanString_succ m hstart hlen left with ⟨_, _, hreads⟩ | ⟨hread, hscan⟩
    · exact hreads
    have hlt := hread.upper
    rw [hscan]
    apply ReadsChecked.cons hread.page
    split
    · exact ReadsChecked.nil m
    · split
      · exact ReadsChecked.nil m
      · exact ih (len + 1) (by omega)

theorem scanString_returns (hcr3 : m.cr3 ≠ 0) (hstart : 0x1000 ≤ start) (left : Nat) (len)
    (hlen : start + len ≤ 2 ^ 47) : ∃ r, (scanString m start left len).2 = .ok r := by
  induction left generalizing len with
  | zero => exact ⟨none, rfl⟩
  | succ left ih =>
    rcases scanString_succ m hstart hlen left with ⟨_, hresult, _⟩ | ⟨hread, hscan⟩
    · exact ⟨none, hresult⟩
    have hlt := hread.upper
    obtain ⟨b, hload⟩ := loadByte_of_grants hcr3 hread.page
    simp only [hscan, hload]
    split
    · exact ⟨some len, rfl⟩
    · exact ih (len + 1) (by omega)

theorem validateString_returns (hcr3 : m.cr3 ≠ 0) (str maxLen : Nat) :
    ∃ r, (validateString m str maxLen).2 = .ok r := by
  unfold validateString
  split
  · exact ⟨none, rfl⟩
  cases huser : isUserAddress str with
  | false => exact ⟨none, rfl⟩
  | true =>
    have hstr := (isUserAddress_iff str).mp huser
    exact scanString_returns hcr3 hstr.1 maxLen 0 (by omega)

/-- The buffer validators decide a property of every single byte, `validate_string` finds the first
terminator behind user bytes only, and no byte is read before its page has been checked. -/
theorem validators_exact (m : Machine) (start : Nat) :
    (∀ length, validateReadBuffer m start length = true ↔
      (0 < length ∧ length ≤ 16 * 1024 * 1024) ∧ (0x1000 ≤ start ∧ start + length ≤ 2 ^ 47) ∧
        ∀ a, start ≤ a → a < start + length → PageGrants m readFlags a) ∧
    (∀ length, validateWriteBuffer m start length = true ↔
      (0 < length ∧ length ≤ 16 * 1024 * 1024) ∧ (0x1000 ≤ start ∧ start + length ≤ 2 ^ 47) ∧
        ∀ a, start ≤ a → a < start + length → PageGrants m writeFlags a) ∧
    (∀ maxLen k, (validateString m start maxLen).2 = .ok (some k) ↔
      k < maxLen ∧ (∀ i ≤ k, Readable m start i) ∧ loadByte m (start + k) = some 0 ∧
        ∀ i < k, ∃ b, loadByte m (start + i) = some b ∧ b ≠ 0) ∧
    ∀ maxLen, ReadsChecked m (validateString m start maxLen).1 := by
  have hscan : ∀ maxLen, validateString m start maxLen =
      if 0x1000 ≤ start ∧ start < 2 ^ 47 then scanString m start maxLen 0 else ([], .ok none) := by
    intro maxLen
    unfold validateString
    by_cases huser : 0x1000 ≤ start ∧ start < 2 ^ 47
    · rw [if_pos huser, (isUserAddress_iff start).mpr huser]
      by_cases hzero : maxLen = 0
      · rw [if_pos (Or.inr hzero), hzero]
        rfl
      · rw [if_neg (by omega)]
        rfl
    rw [if_neg huser, Bool.eq_false_iff.mpr (mt (isUserAddress_iff start).mp huser)]
    split
    · rfl
    · rfl
  refine ⟨validateBuffer_iff m readFlags start, validateBuffer_iff m writeFlags start, ?_, ?_⟩
  · intro maxLen k
    rw [hscan]
    split
    · rename_i huser
      rw [scanString_iff m huser.1 maxLen k 0 (by omega), Nat.zero_add]
      constructor
      · intro h
        exact ⟨h.1, fun i hi => h.2.readable i (Nat.zero_le _) hi, h.2.nul,
          fun i hi => h.2.nonzero i (Nat.zero_le _) hi⟩
      · intro h
        exact ⟨h.1, Nat.zero_le _, fun i _ => h.2.1 i, h.2.2.1, fun i _ => h.2.2.2 i⟩
    · rename_i huser
      simp only [Except.ok.injEq, reduceCtorEq, false_iff]
      intro h
      have hfirst := h.2.1 0 (Nat.zero_le _)
      exact huser ⟨hfirst.lower, hfirst.upper⟩
  · intro maxLen
    rw [hscan]
    split
    · rename_i huser
      exact scanString_readsChecked m huser.1 maxLen 0 (by omega)
    · exact ReadsChecked.nil m

end LlamaOS.Userland.UserMemoryValidator
