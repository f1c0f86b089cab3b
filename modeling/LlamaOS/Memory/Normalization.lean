import LlamaOS.Memory.ReservedRegions

/-!
# What normalization computes

The pipeline of `normalizeRegions` is an instance of the interval library; the
results here hold for every raw table, also for ranges at the top of the address
space. Only the last section, which speaks of the bytes of a raw region, needs its
rounded end to be representable.
-/

namespace LlamaOS.Memory
open Boot MemoryRegionRecord Intervals PhysicalAddress BubbleSort

def touchReserved (prev cur : MemoryRegionRecord) : Bool :=
  prev.endAddr > cur.start ||
    decide (prev.endAddr = cur.start ∧ prev.type = cur.type ∧ prev.name = cur.name)

def touchAvailable (prev cur : MemoryRegionRecord) : Bool := prev.endAddr ≥ cur.start

theorem touchReserved_law : TouchLaw touchReserved 0 where
  joined := by
    intro x y h
    simp only [touchReserved, Bool.or_eq_true, decide_eq_true_eq] at h
    change y.start ≤ x.endAddr
    omega
  apart := by
    intro x y h
    simp only [touchReserved, Bool.or_eq_false_iff, decide_eq_false_iff_not] at h
    change x.endAddr ≤ y.start
    omega

theorem touchAvailable_law : TouchLaw touchAvailable 1 where
  joined _ _ h := of_decide_eq_true h
  apart _ _ h := Nat.lt_of_not_le (of_decide_eq_false h)

/-- The adjacent case of the source writes the end unconditionally; for a non-empty
record that is the library's growing step. -/
theorem mergeReservedStep_eq (acc : List MemoryRegionRecord) {cur : MemoryRegionRecord}
    (hcur : cur.start < cur.endAddr) :
    mergeReservedStep acc cur = mergeStep touchReserved maxRegions acc cur := by
  cases acc with
  | nil => rfl
  | cons prev done =>
    simp only [mergeReservedStep, mergeStep]
    by_cases hover : prev.endAddr > cur.start
    · have ht : touchReserved prev cur = true := by simp [touchReserved, hover]
      rw [if_pos hover, if_pos ht]
      rfl
    rw [if_neg hover]
    by_cases hadj : prev.endAddr = cur.start ∧ prev.type = cur.type ∧ prev.name = cur.name
    · have ht : touchReserved prev cur = true := by simp [touchReserved, hadj]
      have hgrow : hi cur > hi prev := by
        change cur.endAddr > prev.endAddr
        omega
      rw [if_pos hadj, if_pos ht, if_pos hgrow]
      rfl
    · have ht : ¬ touchReserved prev cur = true := by simp [touchReserved, hover, hadj]
      rw [if_neg hadj, if_neg ht]

theorem mergeAvailableStep_eq (acc : List MemoryRegionRecord) (cur : MemoryRegionRecord) :
    mergeAvailableStep acc cur = mergeStep touchAvailable maxRegions acc cur := by
  cases acc with
  | nil => rfl
  | cons prev done =>
    simp only [mergeAvailableStep, mergeStep, touchAvailable, decide_eq_true_eq]
    rfl

theorem subtractReserved_eq (reserved available : List MemoryRegionRecord) :
    subtractReserved reserved available = cutAll maxRegions reserved available := rfl

/-- Both ends on page boundaries, in order. -/
structure PageSpan (r : MemoryRegionRecord) : Prop where
  startAligned : r.start % 4096 = 0
  endAligned : r.endAddr % 4096 = 0
  proper : r.start < r.endAddr

theorem contains_iff_holds (r : MemoryRegionRecord) (a : Nat) :
    r.contains a = true ↔ Holds r a := by
  simp only [contains, Bool.and_eq_true, decide_eq_true_eq]
  rfl

theorem roundUpMask_mod (x : Nat) : roundUpMask x % 4096 = 0 := by
  unfold roundUpMask
  rw [land_pageMask (add64_lt x _)]
  omega

variable {raw r : MemoryRegionRecord}

theorem reservedPart_eq_some (h : reservedPart raw = some r) :
    raw.isReserved = true ∧ PageSpan r ∧ r.isReserved = true ∧ r.endAddr < 2 ^ 64 ∧
      r.length = sub64 r.endAddr r.start := by
  unfold reservedPart at h
  simp only [Option.ite_none_left_eq_some, Option.ite_none_right_eq_some, Option.some.injEq] at h
  obtain ⟨_, _, hres, hlt, rfl⟩ := h
  exact ⟨hres, ⟨alignDown_page_mod _, roundUpMask_mod _, hlt⟩, hres,
    Nat.lt_of_le_of_lt Nat.and_le_left (add64_lt _ _), rfl⟩

theorem availablePart_spec (h : availablePart raw = some r) :
    PageSpan r ∧ r.isAvailable = true ∧ raw.isAvailable = true ∧
      raw.start ≤ r.start ∧ r.endAddr ≤ raw.start + raw.length ∧ r.endAddr < 2 ^ 64 := by
  unfold availablePart at h
  simp only [Option.ite_none_left_eq_some, Option.ite_none_right_eq_some, Option.some.injEq] at h
  obtain ⟨_, _, hres, hlt, rfl⟩ := h
  have hav : raw.isAvailable = true := by simpa [isReserved] using hres
  have hend := alignDown_le (add64 raw.start raw.length) pageSize
  have hsum : add64 raw.start raw.length ≤ raw.start + raw.length := Nat.mod_le _ _
  have hmax := add64_lt raw.start raw.length
  -- a saturated start is above every end, so the start was really rounded
  rcases alignUp_cases raw.start pageSize (by decide) with hs | ⟨hs, _⟩
  · exact ⟨⟨hs.1, alignDown_page_mod _, hlt⟩, hav, hav, hs.2.1, Nat.le_trans hend hsum,
      Nat.lt_of_le_of_lt hend hmax⟩
  · rw [hs] at hlt
    simp only [uint64Max] at hlt
    omega

theorem filterMap_length_le {f : MemoryRegionRecord → Option MemoryRegionRecord}
    {raw : List MemoryRegionRecord} (h : raw.length ≤ maxRegions) :
    (raw.filterMap f).take maxRegions = raw.filterMap f :=
  List.take_of_length_le (Nat.le_trans (List.length_filterMap_le f raw) h)

variable {o : MemoryRegionRecord} {a : Nat}

section Stages
variable {raw : List MemoryRegionRecord} (hcap : raw.length ≤ maxRegions)
include hcap

theorem covers_resTemp (a : Nat) :
    Covers (resTemp raw) a ↔ ∃ s ∈ raw, ∃ r, reservedPart s = some r ∧ Holds r a := by
  rw [resTemp, filterMap_length_le hcap, covers_filterMap]

theorem covers_availTemp (a : Nat) :
    Covers (availTemp raw) a ↔ ∃ s ∈ raw, ∃ r, availablePart s = some r ∧ Holds r a := by
  rw [availTemp, filterMap_length_le hcap, covers_filterMap]

theorem resTemp_spec (h : r ∈ resTemp raw) :
    PageSpan r ∧ r.isReserved = true ∧ r.endAddr < 2 ^ 64 ∧ r.length = sub64 r.endAddr r.start := by
  rw [resTemp, filterMap_length_le hcap] at h
  obtain ⟨s, _, hs⟩ := List.mem_filterMap.mp h
  exact (reservedPart_eq_some hs).2

theorem availTemp_spec (h : r ∈ availTemp raw) : PageSpan r ∧ r.isAvailable = true := by
  rw [availTemp, filterMap_length_le hcap] at h
  obtain ⟨s, _, hs⟩ := List.mem_filterMap.mp h
  have hp := availablePart_spec hs
  exact ⟨hp.1, hp.2.1⟩

/-- No record is lost in the first step: reserved and available ones share the raw table. -/
theorem temp_length : (resTemp raw).length + (availTemp raw).length ≤ raw.length := by
  rw [resTemp, availTemp, filterMap_length_le hcap, filterMap_length_le hcap]
  clear hcap
  induction raw with
  | nil => simp
  | cons s raw ih =>
    have hone : ∀ r, reservedPart s = some r → availablePart s = none := by
      intro r hr
      simp [availablePart, (reservedPart_eq_some hr).1]
    rw [List.filterMap_cons, List.filterMap_cons, List.length_cons]
    cases hr : reservedPart s with
    | none => cases ha : availablePart s <;> simp only [List.length_cons] <;> omega
    | some r =>
      rw [hone r hr]
      simp only [List.length_cons]
      omega

theorem mergedReserved_eq :
    mergedReserved raw = merge touchReserved maxRegions (sortByStart (resTemp raw)) := by
  unfold mergedReserved merge
  congr 1
  apply List.foldl_ext
  intro acc cur hcur
  exact mergeReservedStep_eq acc (resTemp_spec hcap ((mem_sort _).mp hcur)).1.proper

omit hcap in
theorem mergedAvailable_eq :
    mergedAvailable raw = merge touchAvailable maxRegions (sortByStart (availTemp raw)) := by
  unfold mergedAvailable merge
  congr 1
  apply List.foldl_ext
  intro acc cur _
  exact mergeAvailableStep_eq acc cur

theorem mergedReserved_spec : Lays 0 (mergedReserved raw) (Covers (resTemp raw)) ∧
    (mergedReserved raw).length ≤ (resTemp raw).length := by
  have hlen := temp_length hcap
  rw [mergedReserved_eq hcap]
  exact merge_spec maxRegions touchReserved_law (fun r hr => (resTemp_spec hcap hr).1.proper)
    (by omega)

theorem mergedAvailable_spec : Lays 1 (mergedAvailable raw) (Covers (availTemp raw)) ∧
    (mergedAvailable raw).length ≤ (availTemp raw).length := by
  have hlen := temp_length hcap
  rw [mergedAvailable_eq]
  exact merge_spec maxRegions touchAvailable_law (fun r hr => (availTemp_spec hcap hr).1.proper)
    (by omega)

/-- The part of `PageSpan` that does not depend on the order of the ends. -/
def Aligned (r : MemoryRegionRecord) : Prop := r.start % 4096 = 0 ∧ r.endAddr % 4096 = 0

theorem mergedReserved_forall : ∀ r ∈ mergedReserved raw,
    Aligned r ∧ r.isReserved = true ∧ r.endAddr < 2 ^ 64 ∧ r.length = sub64 r.endAddr r.start := by
  rw [mergedReserved_eq hcap]
  apply merge_forall
  · intro x y hx hy
    exact ⟨⟨hx.1.1, hy.1.2⟩, hx.2.1, hy.2.2.1, rfl⟩
  · intro r hr
    have h := resTemp_spec hcap hr
    exact ⟨⟨h.1.startAligned, h.1.endAligned⟩, h.2⟩

theorem mergedAvailable_forall : ∀ r ∈ mergedAvailable raw, Aligned r ∧ r.isAvailable = true := by
  rw [mergedAvailable_eq]
  apply merge_forall
  · intro x y hx hy
    exact ⟨⟨hx.1.1, hy.1.2⟩, hx.2⟩
  · intro r hr
    have h := availTemp_spec hcap hr
    exact ⟨⟨h.1.startAligned, h.1.endAligned⟩, h.2⟩

theorem remainingAvailable_spec :
    Lays 1 (remainingAvailable raw) fun a => Covers (availTemp raw) a ∧
      ¬ Covers (resTemp raw) a := by
  obtain ⟨hr, hrlen⟩ := mergedReserved_spec hcap
  obtain ⟨ha, halen⟩ := mergedAvailable_spec hcap
  have hlen := temp_length hcap
  have h := cutAll_spec maxRegions (Nat.le_refl 1) hr.proper ha (by omega)
  simp only [hr.covers] at h
  exact h

theorem remainingAvailable_forall :
    ∀ r ∈ remainingAvailable raw, Aligned r ∧ r.isAvailable = true := by
  rw [remainingAvailable, subtractReserved_eq]
  apply cutAll_forall (Q := fun r => Aligned r ∧ r.isAvailable = true) (R := Aligned)
  · intro r x hr hx
    exact ⟨⟨hx.1.1, hr.1⟩, hx.2⟩
  · intro r x hr hx
    exact ⟨⟨hr.2, hx.1.2⟩, hx.2⟩
  · exact fun r hr => (mergedReserved_forall hcap r hr).1
  · exact mergedAvailable_forall hcap

theorem mem_normalizeRegions :
    r ∈ normalizeRegions raw ↔ r ∈ mergedReserved raw ∨
      r ∈ (remainingAvailable raw).take (maxRegions - (mergedReserved raw).length) := by
  have hlen := (mergedReserved_spec hcap).2
  have htemp := temp_length hcap
  have htake : (mergedReserved raw ++ remainingAvailable raw).take maxRegions =
      mergedReserved raw ++ (remainingAvailable raw).take
        (maxRegions - (mergedReserved raw).length) := by
    rw [List.take_append, List.take_of_length_le (by omega)]
  unfold normalizeRegions
  split
  · rename_i hz
    obtain rfl := List.length_eq_zero_iff.mp hz
    simp [mergedReserved, remainingAvailable, mergedAvailable, resTemp, availTemp, sortByStart,
      sort, passes, subtractReserved]
  · rw [sortByStart, mem_sort, htake, List.mem_append]

theorem normalizeRegions_separated : Separated (normalizeRegions raw) := by
  have hr := (mergedReserved_spec hcap).1
  have ha := remainingAvailable_spec hcap
  have hproper : Proper (mergedReserved raw ++ remainingAvailable raw) :=
    List.forall_mem_append.mpr ⟨hr.proper, ha.proper⟩
  have happart := hr.apart_append ha fun a hres hav => hav.2 hres
  unfold normalizeRegions
  split
  · exact List.Pairwise.nil
  · exact separated_sort (happart.sublist (List.take_sublist _ _))
      (fun r h => hproper r (List.mem_of_mem_take h))

theorem normalizeRegions_pageSpan : ∀ r ∈ normalizeRegions raw, PageSpan r := by
  intro r h
  rcases (mem_normalizeRegions hcap).mp h with h | h
  · have ha := (mergedReserved_forall hcap r h).1
    exact ⟨ha.1, ha.2, (mergedReserved_spec hcap).1.proper r h⟩
  · have hm := List.mem_of_mem_take h
    have ha := (remainingAvailable_forall hcap r hm).1
    exact ⟨ha.1, ha.2, (remainingAvailable_spec hcap).proper r hm⟩

theorem mem_reserved_iff :
    r ∈ normalizeRegions raw ∧ r.isReserved = true ↔ r ∈ mergedReserved raw := by
  rw [mem_normalizeRegions hcap]
  constructor
  · rintro ⟨h | h, hres⟩
    · exact h
    · have hav := (remainingAvailable_forall hcap r (List.mem_of_mem_take h)).2
      simp [isReserved, hav] at hres
  · intro h
    exact ⟨.inl h, (mergedReserved_forall hcap r h).2.1⟩

theorem mem_available_iff : r ∈ normalizeRegions raw ∧ r.isAvailable = true ↔
    r ∈ (remainingAvailable raw).take (maxRegions - (mergedReserved raw).length) := by
  rw [mem_normalizeRegions hcap]
  constructor
  · rintro ⟨h | h, hav⟩
    · have hres := (mergedReserved_forall hcap r h).2.1
      simp [isReserved, hav] at hres
    · exact h
  · intro h
    exact ⟨.inr h, (remainingAvailable_forall hcap r (List.mem_of_mem_take h)).2⟩

/-- Reserved records of the table cover exactly the rounded raw reservations: they come
first and are never dropped. -/
theorem reserved_covered_iff (a : Nat) :
    (∃ o ∈ normalizeRegions raw, o.isReserved = true ∧ Holds o a) ↔ Covers (resTemp raw) a := by
  simp only [← (mergedReserved_spec hcap).1.covers a, ← and_assoc, mem_reserved_iff hcap]
  rfl

theorem available_sound (ho : o ∈ normalizeRegions raw) (hav : o.isAvailable = true)
    (hold : Holds o a) : Covers (availTemp raw) a ∧ ¬ Covers (resTemp raw) a :=
  ((remainingAvailable_spec hcap).covers a).mp
    ⟨o, List.mem_of_mem_take ((mem_available_iff hcap).mp ⟨ho, hav⟩), hold⟩

/-- The tracker calls an address available exactly when an available record holds it: the
records are disjoint, so the first match is the only one. -/
theorem isReserved_eq_false_iff {t : ReservedMemoryTracker} (ht : t.regions = normalizeRegions raw)
    (a : Nat) :
    t.isReserved a = false ↔ ∃ r ∈ t.regions, r.isAvailable = true ∧ r.contains a = true := by
  unfold ReservedMemoryTracker.isReserved
  cases hfind : t.regions.find? (·.contains a) with
  | none =>
    have hno := List.find?_eq_none.mp hfind
    simp only [Bool.true_eq_false, false_iff]
    rintro ⟨r, hr, _, hc⟩
    exact hno r hr hc
  | some r =>
    have hr := List.mem_of_find?_eq_some hfind
    have hc := List.find?_some hfind
    constructor
    · intro hres
      exact ⟨r, hr, by simpa [isReserved] using hres, hc⟩
    · rintro ⟨s, hs, hav, hsc⟩
      rw [ht] at hr hs
      have heq : r = s := (normalizeRegions_separated hcap).eq_of_holds hr hs
        ((contains_iff_holds r a).mp hc) ((contains_iff_holds s a).mp hsc)
      simp [isReserved, heq, hav]

omit hcap in
/-- No available record is dropped for lack of room. -/
def Fits (raw : List MemoryRegionRecord) : Prop :=
  (mergedReserved raw).length + (remainingAvailable raw).length ≤ maxRegions

theorem available_complete (hfits : Fits raw) (hcov : Covers (availTemp raw) a)
    (hno : ¬ Covers (resTemp raw) a) :
    ∃ o ∈ normalizeRegions raw, o.isAvailable = true ∧ Holds o a := by
  obtain ⟨o, ho, hold⟩ := ((remainingAvailable_spec hcap).covers a).mpr ⟨hcov, hno⟩
  unfold Fits at hfits
  rw [← List.take_of_length_le (l := remainingAvailable raw)
    (i := maxRegions - (mergedReserved raw).length) (by omega)] at ho
  obtain ⟨hmem, hav⟩ := (mem_available_iff hcap).mpr ho
  exact ⟨o, hmem, hav, hold⟩

end Stages

/-- The page-rounded extent of a raw reservation; an empty one has none. -/
def RoundedReserved (raw : MemoryRegionRecord) (a : Nat) : Prop :=
  raw.length ≠ 0 ∧ alignDown raw.start pageSize ≤ a ∧
    a < alignUp (raw.start + raw.length) pageSize

/-- The whole pages inside a raw available region. -/
def RoundedAvailable (raw : MemoryRegionRecord) (a : Nat) : Prop :=
  alignUp raw.start pageSize ≤ a ∧
    a < alignDown (raw.start + raw.length) pageSize

/-- Rounding the end up stays inside the 64-bit address space. -/
def EndFits (raw : MemoryRegionRecord) : Prop := raw.start + raw.length + 4095 < 2 ^ 64

theorem reservedPart_holds_iff (hfit : EndFits raw) (a : Nat) :
    (∃ r, reservedPart raw = some r ∧ Holds r a) ↔ raw.isReserved = true ∧
      RoundedReserved raw a := by
  unfold EndFits at hfit
  have hadd : add64 raw.start raw.length = raw.start + raw.length := add64_eq (by omega)
  have hend := roundUpMask_eq_alignUp hfit
  have hup := alignUp_page hfit
  have hdown := alignDown_le raw.start pageSize
  unfold reservedPart RoundedReserved
  by_cases hz : raw.length = 0
  · simp [hz]
  have hno : ¬ raw.start > uint64Max - raw.length := by
    simp only [uint64Max]
    omega
  have hlt : alignUp (raw.start + raw.length) pageSize > alignDown raw.start pageSize := by omega
  by_cases hres : raw.isReserved = true
  · simp only [hz, hno, hres, hadd, hend, hlt, if_true, if_false, Option.some.injEq,
      exists_eq_left', ne_eq, not_false_eq_true, true_and]
    rfl
  · simp [hz, hno, hres]

theorem availablePart_holds_iff (hfit : EndFits raw) (a : Nat) :
    (∃ r, availablePart raw = some r ∧ Holds r a) ↔ raw.isAvailable = true ∧
      RoundedAvailable raw a := by
  unfold EndFits at hfit
  have hadd : add64 raw.start raw.length = raw.start + raw.length := add64_eq (by omega)
  have hup := (alignUp_page (a := raw.start) (by omega)).2.1
  have hdown := alignDown_le (raw.start + raw.length) pageSize
  unfold availablePart RoundedAvailable
  by_cases hz : raw.length = 0
  · simp only [hz, Nat.add_zero] at hdown
    simp only [hz, if_true, Nat.add_zero, reduceCtorEq, false_and, exists_false, false_iff]
    omega
  have hno : ¬ raw.start > uint64Max - raw.length := by
    simp only [uint64Max]
    omega
  by_cases hav : raw.isAvailable = true
  · simp only [hz, hno, isReserved, hav, hadd, if_false, Bool.not_true,
      Bool.false_eq_true, true_and]
    by_cases hlt : alignDown (raw.start + raw.length) pageSize > alignUp raw.start pageSize
    · simp only [hlt, if_true, Option.some.injEq, exists_eq_left']
      rfl
    · simp only [hlt, if_false, reduceCtorEq, false_and, exists_false, false_iff]
      omega
  · simp [hz, hno, isReserved, hav]

theorem roundedReserved_of_byte (hfit : EndFits raw) (hlo : raw.start ≤ a)
    (hhi : a < raw.start + raw.length) : RoundedReserved raw a := by
  have hup := alignUp_page hfit
  have hdown := alignDown_le raw.start pageSize
  exact ⟨by omega, by omega, by omega⟩

section Rounded
variable {raw : List MemoryRegionRecord} (hcap : raw.length ≤ maxRegions)
variable (hfit : ∀ r ∈ raw, EndFits r)
include hcap hfit

theorem covers_resTemp_iff (a : Nat) :
    Covers (resTemp raw) a ↔ ∃ r ∈ raw, r.isReserved = true ∧ RoundedReserved r a :=
  (covers_resTemp hcap a).trans
    (exists_congr fun r => and_congr_right fun hr => reservedPart_holds_iff (hfit r hr) a)

theorem covers_availTemp_iff (a : Nat) :
    Covers (availTemp raw) a ↔ ∃ r ∈ raw, r.isAvailable = true ∧ RoundedAvailable r a :=
  (covers_availTemp hcap a).trans
    (exists_congr fun r => and_congr_right fun hr => availablePart_holds_iff (hfit r hr) a)

end Rounded

/-- A page every byte of which is in some page-rounded available region and in no
page-rounded reserved one. -/
structure AvailablePage (raw : List MemoryRegionRecord) (p : Nat) : Prop where
  aligned : p % 4096 = 0
  inside : ∀ a, p ≤ a → a < p + 4096 → ∃ r ∈ raw, r.isAvailable = true ∧ RoundedAvailable r a
  outside : ∀ a, p ≤ a → a < p + 4096 → ∀ r ∈ raw, r.isReserved = true → ¬ RoundedReserved r a

variable {p : Nat}

/-- A page-aligned record that holds the first byte of a page holds the page. -/
theorem PageSpan.holds_page (ho : PageSpan o) (hp : p % 4096 = 0) (hold : Holds o p) (hlo : p ≤ a)
    (hhi : a < p + 4096) : Holds o a := by
  have h₁ := ho.endAligned
  have h₂ : o.start ≤ p := hold.1
  have h₃ : p < o.endAddr := hold.2
  exact ⟨Nat.le_trans h₂ hlo, by change a < o.endAddr; omega⟩

section Pages
variable {raw : List MemoryRegionRecord} (hcap : raw.length ≤ maxRegions)
variable (hfit : ∀ r ∈ raw, EndFits r)
include hcap hfit

theorem availablePage_of_output (ho : o ∈ normalizeRegions raw) (hav : o.isAvailable = true)
    (hp : p % 4096 = 0) (hold : Holds o p) : AvailablePage raw p := by
  have hpage := fun {a} => (normalizeRegions_pageSpan hcap o ho).holds_page (a := a) hp hold
  refine ⟨hp, ?_, ?_⟩
  · intro a hlo hhi
    exact (covers_availTemp_iff hcap hfit a).mp (available_sound hcap ho hav (hpage hlo hhi)).1
  · intro a hlo hhi r hr hres hround
    apply (available_sound hcap ho hav (hpage hlo hhi)).2
    exact (covers_resTemp_iff hcap hfit a).mpr ⟨r, hr, hres, hround⟩

theorem output_of_availablePage (hfits : Fits raw) (hp : AvailablePage raw p) :
    ∃ o ∈ normalizeRegions raw, o.isAvailable = true ∧ ∀ a, p ≤ a → a < p + 4096 → Holds o a := by
  have hcov := (covers_availTemp_iff hcap hfit p).mpr (hp.inside p (Nat.le_refl _) (by omega))
  have hno : ¬ Covers (resTemp raw) p := by
    intro h
    obtain ⟨r, hr, hres, hround⟩ := (covers_resTemp_iff hcap hfit p).mp h
    exact hp.outside p (Nat.le_refl _) (by omega) r hr hres hround
  obtain ⟨o, ho, hav, hold⟩ := available_complete hcap hfits hcov hno
  refine ⟨o, ho, hav, ?_⟩
  intro a hlo hhi
  exact (normalizeRegions_pageSpan hcap o ho).holds_page hp.aligned hold hlo hhi

end Pages

/-- The table `normalize` leaves in the tracker, against the rounded raw regions. -/
theorem normalize_correct (t : ReservedMemoryTracker)
    (hrange : ∀ r ∈ t.rawRegions, r.start + r.length ≤ 2 ^ 52) :
    t.normalize.regions.Pairwise (fun r s => r.start ≤ s.start) ∧
    t.normalize.regions.Pairwise (fun r s => ∀ a, ¬ (r.contains a = true ∧ s.contains a = true)) ∧
    (∀ r ∈ t.normalize.regions,
      r.start % 4096 = 0 ∧ r.endAddr % 4096 = 0 ∧ r.start < r.endAddr) ∧
    (∀ r ∈ t.rawRegions, r.isReserved = true → ∀ a, r.start ≤ a → a < r.start + r.length →
      ∃ o ∈ t.normalize.regions, o.isReserved = true ∧ o.contains a = true) ∧
    (∀ o ∈ t.normalize.regions, o.isAvailable = true → ∀ p, p % 4096 = 0 → o.contains p = true →
      AvailablePage t.rawRegions p) ∧
    (Fits t.rawRegions → ∀ p, AvailablePage t.rawRegions p →
      ∃ o ∈ t.normalize.regions, o.isAvailable = true ∧
        ∀ a, p ≤ a → a < p + 4096 → o.contains a = true) := by
  have hcap := t.rawCapacity
  have hfit : ∀ r ∈ t.rawRegions, EndFits r := by
    intro r hr
    have := hrange r hr
    unfold EndFits
    omega
  have hsep := normalizeRegions_separated hcap
  have hspan := normalizeRegions_pageSpan hcap
  simp only [contains_iff_holds]
  refine ⟨?_, ?_, ?_, ?_, ?_, ?_⟩
  · apply hsep.imp_of_mem
    intro r s hr _ hrs
    have hp := (hspan r hr).proper
    change r.endAddr ≤ s.start at hrs
    omega
  · apply hsep.imp
    intro r s hrs a h
    have h₁ := h.1.2
    have h₂ := h.2.1
    omega
  · intro r hr
    exact ⟨(hspan r hr).startAligned, (hspan r hr).endAligned, (hspan r hr).proper⟩
  · intro r hr hres a hlo hhi
    apply (reserved_covered_iff hcap a).mpr
    exact (covers_resTemp_iff hcap hfit a).mpr
      ⟨r, hr, hres, roundedReserved_of_byte (hfit r hr) hlo hhi⟩
  · intro o ho hav p hp hold
    exact availablePage_of_output hcap hfit ho hav hp hold
  · intro hfits p hp
    exact output_of_availablePage hcap hfit hfits hp

/-- RAM with an unaligned start, split by a reservation that ends inside a page. -/
def splitTracker : ReservedMemoryTracker where
  rawRegions :=
    [{ start := 0x3100, endAddr := 0x4100, length := 0x1000 },
     { start := 0x800, endAddr := 0x8000, length := 0x7800, type := .available }]

theorem splitTracker_normalized :
    (∀ r ∈ splitTracker.rawRegions, r.start + r.length ≤ 2 ^ 52) ∧
      splitTracker.normalize.regions.map (fun r => (r.start, r.endAddr)) =
        [(0x1000, 0x3000), (0x3000, 0x5000), (0x5000, 0x8000)] ∧
      ∀ r ∈ splitTracker.normalize.regions,
        r.start % 4096 = 0 ∧ r.endAddr % 4096 = 0 ∧ r.start < r.endAddr :=
  ⟨by decide, by decide +kernel, (normalize_correct splitTracker (by decide)).2.2.1⟩

end LlamaOS.Memory
