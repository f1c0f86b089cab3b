import LlamaOS.Storage.Gpt

/-!
# What the partition table check accepts

The loops of `validate_gpt` succeed exactly on arrays whose used entries lie in the usable range
and do not overlap.
-/

namespace LlamaOS.Storage
open ByteBuffer GptEntry

namespace GptEntry

def InRange (header : GptHeader) (e : GptEntry) : Prop :=
  e.startingLba ≤ e.endingLba ∧ header.firstUsableLba ≤ e.startingLba ∧
    e.endingLba ≤ header.lastUsableLba

def Apart (e1 e2 : GptEntry) : Prop := e1.endingLba < e2.startingLba ∨ e2.endingLba < e1.startingLba

variable {e : GptEntry}

theorem isNull_of_not_used (h : ¬ e.isUsed = true) : e.typeGuid.isNull = true := by
  rwa [isUsed, Bool.not_eq_true, Bool.not_eq_false'] at h

theorem not_null_of_used (h : e.isUsed = true) : ¬ e.typeGuid.isNull = true := by
  rw [isUsed, Bool.not_eq_true'] at h
  rw [h]
  exact Bool.false_ne_true

end GptEntry

namespace GptParser

variable {header : GptHeader} {entries : Buffer}

variable {α : Type}

theorem value_readEntry_bind (entries : Buffer) (i : Nat) (f : GptEntry → Logged Access α) :
    (readEntry entries i >>= f).value = (f (entryAt entries i)).value := rfl

theorem log_readEntry_bind (entries : Buffer) (i : Nat) (f : GptEntry → Logged Access α) :
    (readEntry entries i >>= f).log = .entry i (size * i) :: (f (entryAt entries i)).log := rfl

theorem overlap_false_iff (e1 e2 : GptEntry) :
    (!(decide (e1.endingLba < e2.startingLba) || decide (e2.endingLba < e1.startingLba))) = false ↔
      e1.Apart e2 := by
  rw [Bool.not_eq_false', Bool.or_eq_true, decide_eq_true_iff, decide_eq_true_iff]
  rfl

theorem overlapsEarlier_false_iff (entries : Buffer) (e1 : GptEntry) (left j : Nat) :
    (overlapsEarlier entries e1 j left).value = false ↔
      ∀ k, j ≤ k → k < j + left → (entryAt entries k).isUsed = true →
        e1.Apart (entryAt entries k) := by
  induction left generalizing j with
  | zero =>
    constructor
    · intro _ k hlo hhi
      omega
    · intro _
      rfl
  | succ left ih =>
    have hsplit : (∀ k, j ≤ k → k < j + (left + 1) → (entryAt entries k).isUsed = true →
        e1.Apart (entryAt entries k)) ↔
        ((entryAt entries j).isUsed = true → e1.Apart (entryAt entries j)) ∧
          ∀ k, j + 1 ≤ k → k < j + 1 + left → (entryAt entries k).isUsed = true →
            e1.Apart (entryAt entries k) := by
      constructor
      · intro h
        exact ⟨h j (Nat.le_refl j) (by omega), fun k hlo hhi => h k (by omega) (by omega)⟩
      · intro h k hlo hhi
        by_cases hk : k = j
        · rw [hk]
          exact h.1
        · exact h.2 k (by omega) (by omega)
    rw [hsplit, ← ih (j + 1), overlapsEarlier, value_readEntry_bind]
    by_cases hused : (entryAt entries j).isUsed = true
    · rw [if_neg (not_null_of_used hused)]
      by_cases hover : (!(decide (e1.endingLba < (entryAt entries j).startingLba) ||
          decide ((entryAt entries j).endingLba < e1.startingLba))) = true
      · rw [if_pos hover, Logged.value_pure]
        constructor
        · intro h
          cases h
        · intro h
          have hfalse := (overlap_false_iff e1 (entryAt entries j)).mpr (h.1 hused)
          rw [hover] at hfalse
          cases hfalse
      · rw [if_neg hover]
        rw [Bool.not_eq_true, overlap_false_iff] at hover
        exact ⟨fun h => ⟨fun _ => hover, h⟩, fun h => h.2⟩
    · rw [if_pos (isNull_of_not_used hused)]
      exact ⟨fun h => ⟨fun hu => absurd hu hused, h⟩, fun h => h.2⟩

/-- What the check demands of the entry of index `k`. -/
def EntryOk (header : GptHeader) (entries : Buffer) (k : Nat) : Prop :=
  (entryAt entries k).isUsed = true → (entryAt entries k).InRange header ∧
    ∀ j < k, (entryAt entries j).isUsed = true → (entryAt entries k).Apart (entryAt entries j)

theorem inRange_iff (e : GptEntry) : e.InRange header ↔ ¬ e.endingLba < e.startingLba ∧
    ¬ (decide (e.startingLba < header.firstUsableLba) ||
      decide (header.lastUsableLba < e.endingLba)) = true := by
  simp only [GptEntry.InRange, Bool.or_eq_true, decide_eq_true_iff, not_or, BitVec.not_lt]

theorem checkEntries_succ (header : GptHeader) (entries : Buffer) (i left : Nat) :
    (checkEntries header entries i (left + 1)).value = .success ↔
      EntryOk header entries i ∧ (checkEntries header entries (i + 1) left).value = .success := by
  rw [checkEntries, value_readEntry_bind]
  by_cases hused : (entryAt entries i).isUsed = true
  · rw [if_neg (not_null_of_used hused)]
    by_cases hrange : (entryAt entries i).InRange header
    · obtain ⟨horder, hbounds⟩ := (inRange_iff _).mp hrange
      rw [if_neg horder, if_neg hbounds, Logged.value_bind]
      have hearlier := overlapsEarlier_false_iff entries (entryAt entries i) i 0
      cases hover : (overlapsEarlier entries (entryAt entries i) 0 i).value with
      | false =>
        rw [if_neg Bool.false_ne_true]
        have hapart := hearlier.mp hover
        exact ⟨fun h => ⟨fun _ => ⟨hrange, fun j hj => hapart j (Nat.zero_le j) (by omega)⟩, h⟩,
          fun h => h.2⟩
      | true =>
        rw [if_pos rfl, Logged.value_pure]
        constructor
        · intro h
          cases h
        · intro h
          have hfalse := hearlier.mpr fun k _ hk => (h.1 hused).2 k (by omega)
          rw [hover] at hfalse
          cases hfalse
    · have hno : ¬ EntryOk header entries i := fun h => hrange (h hused).1
      rw [inRange_iff, Decidable.not_and_iff_not_or_not, not_not, not_not] at hrange
      constructor
      · intro h
        split at h
        · cases h
        split at h
        · cases h
        · rename_i horder hbounds
          exact absurd hrange (not_or.mpr ⟨horder, hbounds⟩)
      · intro h
        exact absurd h.1 hno
  · rw [if_pos (isNull_of_not_used hused)]
    exact ⟨fun h => ⟨fun hu => absurd hu hused, h⟩, fun h => h.2⟩

theorem checkEntries_success_iff (header : GptHeader) (entries : Buffer) (left i : Nat) :
    (checkEntries header entries i left).value = .success ↔ ∀ k, i ≤ k → k < i + left →
      EntryOk header entries k := by
  induction left generalizing i with
  | zero => exact ⟨fun _ k hlo hhi => by omega, fun _ => rfl⟩
  | succ left ih =>
    rw [checkEntries_succ, ih]
    constructor
    · intro h k hlo hhi
      by_cases hk : k = i
      · rw [hk]
        exact h.1
      · exact h.2 k (by omega) (by omega)
    · intro h
      exact ⟨h i (Nat.le_refl i) (by omega), fun k hlo hhi => h k (by omega) (by omega)⟩

/-- A header with its array in memory as the check accepts them. -/
structure Valid (stack : Buffer) (header : GptHeader) (entries : Buffer) (total : BitVec 64) :
    Prop where
  signature : header.signature = signature
  headerSize : 92 ≤ header.headerSize ∧ header.headerSize ≤ 512
  headerCrc : headerCrc stack header = header.headerCrc32
  usable : header.firstUsableLba ≤ header.lastUsableLba ∧ (total = 0 ∨ header.lastUsableLba < total)
  array : 128 ≤ header.sizeOfPartitionEntry ∧ header.numberOfPartitionEntries ≤ 1024
  arrayCrc : calculateCrc32
    (slice entries 0 (header.numberOfPartitionEntries * header.sizeOfPartitionEntry).toNat) 0 =
    header.partitionEntryArrayCrc32
  entry : ∀ k < header.numberOfPartitionEntries.toNat, EntryOk header entries k

theorem usable_iff (header : GptHeader) (total : BitVec 64) :
    ¬ (decide (header.lastUsableLba < header.firstUsableLba) ||
      (decide (0 < total) && decide (total ≤ header.lastUsableLba))) = true ↔
      header.firstUsableLba ≤ header.lastUsableLba ∧
        (total = 0 ∨ header.lastUsableLba < total) := by
  simp only [Bool.or_eq_true, Bool.and_eq_true, decide_eq_true_iff, not_or, not_and, BitVec.not_lt,
    BitVec.not_le]
  constructor
  · intro h
    refine ⟨h.1, ?_⟩
    by_cases hzero : total = 0
    · exact .inl hzero
    · exact .inr (h.2 (by bv_omega))
  · intro h
    refine ⟨h.1, fun hpos => h.2.resolve_left ?_⟩
    rintro rfl
    exact BitVec.lt_irrefl 0 hpos

theorem headerSize_iff (header : GptHeader) :
    ¬ (decide (header.headerSize < 92) || decide (512 < header.headerSize)) = true ↔
      92 ≤ header.headerSize ∧ header.headerSize ≤ 512 := by
  simp only [Bool.or_eq_true, decide_eq_true_iff, not_or, BitVec.not_lt]

theorem array_iff (header : GptHeader) :
    ¬ (decide (header.sizeOfPartitionEntry < 128) ||
      decide (1024 < header.numberOfPartitionEntries)) = true ↔
      128 ≤ header.sizeOfPartitionEntry ∧ header.numberOfPartitionEntries ≤ 1024 := by
  simp only [Bool.or_eq_true, decide_eq_true_iff, not_or, BitVec.not_lt]

theorem value_record_bind {β : Type} (a : Access) (x : α) (f : α → Logged Access β) :
    (Logged.record a x >>= f).value = (f x).value := rfl

theorem validateGpt_success_iff {stack : Buffer} {entryCount : Nat} {total : BitVec 64}
    (hcount : header.numberOfPartitionEntries.toNat ≤ entryCount) :
    (validateGpt stack header (some entries) entryCount total).value = .success ↔
      Valid stack header entries total := by
  have hloop := checkEntries_success_iff header entries header.numberOfPartitionEntries.toNat 0
  simp only [Nat.zero_le, Nat.zero_add, true_imp_iff] at hloop
  constructor
  · intro h
    unfold validateGpt at h
    split at h
    · cases h
    rename_i hsignature
    split at h
    · cases h
    rename_i hsize
    split at h
    · cases h
    rename_i hcrc
    split at h
    · cases h
    rename_i husable
    split at h
    · cases h
    rename_i harray
    simp only at h
    rw [if_neg (Nat.not_lt.mpr hcount), value_record_bind] at h
    split at h
    · cases h
    rename_i harrayCrc
    exact ⟨not_not.mp hsignature, (headerSize_iff header).mp hsize, not_not.mp hcrc,
      (usable_iff header total).mp husable,
      (array_iff header).mp harray, not_not.mp harrayCrc, hloop.mp h⟩
  · intro h
    unfold validateGpt
    rw [if_neg (not_not.mpr h.signature), if_neg ((headerSize_iff header).mpr h.headerSize),
      if_neg (not_not.mpr h.headerCrc), if_neg ((usable_iff header total).mpr h.usable),
      if_neg ((array_iff header).mpr h.array)]
    simp only
    rw [if_neg (Nat.not_lt.mpr hcount), value_record_bind, if_neg (not_not.mpr h.arrayCrc)]
    exact hloop.mpr h.entry

end GptParser

end LlamaOS.Storage
