import LlamaOS.Memory.Normalization

/-!
# Asking for ranges

`is_range_available` looks for one record that holds the whole range. Between two available
records of the table there is always a gap, so this finds every range that is available address
by address. `overlaps_reserved` looks at the records only; `is_reserved` also answers for the
addresses between them.
-/

namespace LlamaOS.Memory
open Boot Intervals

namespace ReservedMemoryTracker

/-- The trackers that `populate`, `add_region` and `register_pmm_bitmap` produce, from a new tracker
or from `populate` on. -/
inductive Built : ReservedMemoryTracker → Prop where
  | new : Built {}
  | populate (bootInfo : BootInformation) (kernelStart kernelEnd mb2Paddr mb2Size : Nat) :
    Built (populate bootInfo kernelStart kernelEnd mb2Paddr mb2Size)
  | addRegion {t : ReservedMemoryTracker} (h : Built t) (start length : Nat) (type : MemoryType)
    (name : Option String) : Built (t.addRegion start length type name).2
  | registerPmmBitmap {t : ReservedMemoryTracker} (h : Built t) (bitmapStart bitmapSize : Nat) :
    Built (t.registerPmmBitmap bitmapStart bitmapSize).2

theorem Built.normalized {t : ReservedMemoryTracker} (h : Built t) :
    t.regions = normalizeRegions t.rawRegions := by
  induction h with
  | new => rfl
  | populate bootInfo kernelStart kernelEnd mb2Paddr mb2Size => rfl
  | addRegion _ start length type name ih =>
    unfold ReservedMemoryTracker.addRegion
    split
    · exact ih
    · rfl
  | registerPmmBitmap _ bitmapStart bitmapSize ih =>
    unfold ReservedMemoryTracker.registerPmmBitmap
    split
    · exact ih
    · rfl

end ReservedMemoryTracker

/-- The available records of the finished table, in the order of the available list. -/
theorem available_records_spaced {raw : List MemoryRegionRecord} (hcap : raw.length ≤ maxRegions) :
    ∃ l : List MemoryRegionRecord, Spaced 1 l ∧ ∀ r, r ∈ l ↔ r ∈ normalizeRegions raw ∧
      r.isAvailable = true :=
  ⟨_, (remainingAvailable_spec hcap).spaced.sublist (List.take_sublist _ _),
    fun _ => (mem_available_iff hcap).symm⟩

namespace ReservedMemoryTracker

variable {t : ReservedMemoryTracker} {start length : Nat}

theorem isRangeAvailable_record_iff (hlength : length < 2 ^ 64) :
    t.isRangeAvailable start length = true ↔
    0 < length ∧ start + length < 2 ^ 64 ∧
      ∃ r ∈ t.regions, r.isAvailable = true ∧ r.start ≤ start ∧ start + length ≤ r.endAddr := by
  unfold isRangeAvailable
  by_cases hzero : length = 0
  · rw [if_pos hzero]
    exact ⟨nofun, fun h => absurd hzero (Nat.pos_iff_ne_zero.mp h.1)⟩
  rw [if_neg hzero]
  by_cases hover : start > uint64Max - length
  · rw [if_pos hover]
    refine ⟨nofun, fun h => ?_⟩
    have hmax : uint64Max = 2 ^ 64 - 1 := rfl
    omega
  rw [if_neg hover]
  have hfits : start + length < 2 ^ 64 := by
    have hmax : uint64Max = 2 ^ 64 - 1 := rfl
    omega
  rw [add64_eq hfits, List.any_eq_true]
  simp only [Bool.and_eq_true, decide_eq_true_eq, and_assoc, ge_iff_le]
  exact ⟨fun h => ⟨Nat.pos_of_ne_zero hzero, hfits, h⟩, fun h => h.2.2⟩

/-- A range is called available exactly when it is not empty, does not overflow and none of its
addresses is reserved. -/
theorem isRangeAvailable_iff (hbuilt : Built t) (hlength : length < 2 ^ 64) :
    t.isRangeAvailable start length = true ↔
    0 < length ∧ start + length < 2 ^ 64 ∧ ∀ a, start ≤ a → a < start + length →
      t.isReserved a = false := by
  have hnorm := hbuilt.normalized
  have haddr := isReserved_eq_false_iff t.rawCapacity hnorm
  obtain ⟨records, hspaced, hmem⟩ := available_records_spaced t.rawCapacity
  rw [isRangeAvailable_record_iff hlength]
  refine and_congr_right fun hpos => and_congr_right fun _ => ⟨?_, fun h => ?_⟩
  · rintro ⟨r, hr, hav, hlo, hhi⟩ a ha ha'
    refine (haddr a).mpr ⟨r, hr, hav, (contains_iff_holds r a).mpr ⟨?_, ?_⟩⟩
    · exact Nat.le_trans hlo ha
    · exact Nat.lt_of_lt_of_le ha' hhi
  · have hcovers : ∀ a, start ≤ a → a < start + length → Covers records a := by
      intro a ha ha'
      obtain ⟨r, hr, hav, hcontains⟩ := (haddr a).mp (h a ha ha')
      exact ⟨r, (hmem r).mpr ⟨hnorm ▸ hr, hav⟩, (contains_iff_holds r a).mp hcontains⟩
    obtain ⟨r, hr, hlo, hhi⟩ := hspaced.holds_range (by omega) hcovers
    obtain ⟨hr, hav⟩ := (hmem r).mp hr
    exact ⟨r, hnorm ▸ hr, hav, hlo, hhi⟩

def megabyteTracker : ReservedMemoryTracker :=
  ((populate .zeroed 0 0 0 0).addRegion 0x100000 0x100000 .available none).2

theorem megabyteTracker_built : Built megabyteTracker := .addRegion (.populate _ _ _ _ _) _ _ _ _

theorem megabyteTracker_range : megabyteTracker.isRangeAvailable 0x100000 0x1000 = true ∧
    megabyteTracker.isReserved 0x100FFF = false := by
  have havailable : megabyteTracker.isRangeAvailable 0x100000 0x1000 = true := by decide +kernel
  have hrange := (isRangeAvailable_iff megabyteTracker_built (by decide)).mp havailable
  exact ⟨havailable, hrange.2.2 0x100FFF (by decide) (by decide)⟩

section Reserved

variable (hnorm : t.regions = normalizeRegions t.rawRegions)
include hnorm

theorem isReserved_of_record {r : MemoryRegionRecord} (hr : r ∈ t.regions)
    (hres : r.isReserved = true) {a : Nat} (ha : Holds r a) : t.isReserved a = true := by
  by_contra hfree
  obtain ⟨s, hs, hav, hcontains⟩ :=
    (isReserved_eq_false_iff t.rawCapacity hnorm a).mp (Bool.not_eq_true _ ▸ hfree)
  rw [hnorm] at hr hs
  have heq := (normalizeRegions_separated t.rawCapacity).eq_of_holds hr hs ha
    ((contains_iff_holds s a).mp hcontains)
  rw [MemoryRegionRecord.isReserved, heq, hav] at hres
  cases hres

theorem overlapsReserved_record_iff (hlength : 0 < length) (hfits : start + length < 2 ^ 64) :
    t.overlapsReserved start length = true ↔
      ∃ r ∈ t.regions, r.isReserved = true ∧ r.start < start + length ∧ start < r.endAddr := by
  have hmax : uint64Max = 2 ^ 64 - 1 := rfl
  rw [overlapsReserved, if_neg (by omega), if_neg (by omega), List.any_eq_true]
  refine exists_congr fun r => and_congr_right fun hr => ?_
  rw [Bool.and_eq_true]
  refine and_congr_right fun hres => ?_
  have hmerged := (mem_reserved_iff t.rawCapacity).mp ⟨hnorm ▸ hr, hres⟩
  obtain ⟨_, _, hend, hlen⟩ := mergedReserved_forall t.rawCapacity r hmerged
  have hproper : r.start < r.endAddr := (mergedReserved_spec t.rawCapacity).1.proper r hmerged
  rw [sub64_eq (Nat.le_of_lt hproper) hend] at hlen
  rw [MemoryRegionRecord.overlaps, if_neg (by omega), add64_eq hfits]
  simp only [Bool.and_eq_true, decide_eq_true_eq, gt_iff_lt]

/-- `overlaps_reserved` agrees with `is_reserved` on a range that meets a reserved record or that
the records cover; on the others it misses the addresses that no record holds. -/
theorem overlapsReserved_agrees_iff (hlength : 0 < length) (hfits : start + length < 2 ^ 64) :
    (t.overlapsReserved start length = true ↔ ∃ a, start ≤ a ∧ a < start + length ∧
      t.isReserved a = true) ↔
      (∃ r ∈ t.regions, r.isReserved = true ∧ r.start < start + length ∧ start < r.endAddr) ∨
        ∀ a, start ≤ a → a < start + length → ∃ r ∈ t.regions, r.contains a = true := by
  rw [overlapsReserved_record_iff hnorm hlength hfits]
  constructor
  · intro hagree
    rw [or_iff_not_imp_left]
    intro hnone a ha ha'
    have hfree : t.isReserved a = false := by
      by_contra hres
      exact hnone (hagree.mpr ⟨a, ha, ha', Bool.not_eq_false _ ▸ hres⟩)
    obtain ⟨r, hr, _, hcontains⟩ := (isReserved_eq_false_iff t.rawCapacity hnorm a).mp hfree
    exact ⟨r, hr, hcontains⟩
  · intro hcond
    constructor
    · rintro ⟨r, hr, hres, hlo, hhi⟩
      have hproper := (normalizeRegions_pageSpan t.rawCapacity r (hnorm ▸ hr)).proper
      refine ⟨max start r.start, by omega, by omega, isReserved_of_record hnorm hr hres ⟨?_, ?_⟩⟩
      · exact Nat.le_max_right _ _
      · exact Nat.max_lt.mpr ⟨hhi, hproper⟩
    · rintro ⟨a, ha, ha', hres⟩
      rcases hcond with hmeets | hcovered
      · exact hmeets
      obtain ⟨r, hr, hcontains⟩ := hcovered a ha ha'
      have hreserved : r.isReserved = true := by
        by_contra havail
        have hfree := (isReserved_eq_false_iff t.rawCapacity hnorm a).mpr
          ⟨r, hr, by simpa [MemoryRegionRecord.isReserved] using havail, hcontains⟩
        rw [hfree] at hres
        cases hres
      have hold := (contains_iff_holds r a).mp hcontains
      exact ⟨r, hr, hreserved, Nat.lt_of_le_of_lt hold.1 ha', Nat.lt_of_le_of_lt ha hold.2⟩

end Reserved

theorem megabyteTracker_overlaps : megabyteTracker.overlapsReserved 0xFF000 0x2000 = true ↔
    ∃ a, 0xFF000 ≤ a ∧ a < 0xFF000 + 0x2000 ∧ megabyteTracker.isReserved a = true :=
  (overlapsReserved_agrees_iff megabyteTracker_built.normalized (by decide) (by decide)).mpr
    (.inl ⟨lowMemoryRecord, by decide +kernel, by decide, by decide, by decide⟩)

/-- Two megabytes and above are in no record. -/
theorem megabyteTracker_untracked : ¬ (megabyteTracker.overlapsReserved 0x200000 0x1000 = true ↔
    ∃ a, 0x200000 ≤ a ∧ a < 0x200000 + 0x1000 ∧ megabyteTracker.isReserved a = true) := by
  have hoverlaps : megabyteTracker.overlapsReserved 0x200000 0x1000 = false := by decide +kernel
  have hreserved : megabyteTracker.isReserved 0x200000 = true := by decide +kernel
  intro h
  cases h.mpr ⟨0x200000, Nat.le_refl _, by decide, hreserved⟩

end ReservedMemoryTracker

end LlamaOS.Memory
