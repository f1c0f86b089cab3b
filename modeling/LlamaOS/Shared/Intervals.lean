import LlamaOS.Shared.BubbleSort
import Mathlib.Data.List.Pairwise

/-!
# Lists of half-open intervals

Merging a list sorted by lower end, cutting one interval out of all others, and
putting disjoint pieces back in order. Elements carry their own data; only the two
ends and the way to move them matter here. Capacities are explicit, and the length
bounds say when no element is lost to them.
-/

namespace Intervals
open BubbleSort

universe u

/-- A type whose elements have two ends that can be moved. -/
class Span (α : Type u) where
  lo : α → Nat
  hi : α → Nat
  resize : α → Nat → Nat → α
  lo_resize : ∀ x a b, lo (resize x a b) = a
  hi_resize : ∀ x a b, hi (resize x a b) = b

export Span (lo hi resize lo_resize hi_resize)
attribute [simp] Span.lo_resize Span.hi_resize

variable {α : Type u} [Span α]

def Holds (x : α) (a : Nat) : Prop := lo x ≤ a ∧ a < hi x

def Covers (l : List α) (a : Nat) : Prop := ∃ x ∈ l, Holds x a

def Proper (l : List α) : Prop := ∀ x ∈ l, lo x < hi x

/-- Increasing and disjoint: each element ends before every later one begins. -/
def Separated (l : List α) : Prop := l.Pairwise fun x y => hi x ≤ lo y

/-- Increasing, with at least `gap` points between any two elements. -/
def Spaced (gap : Nat) (l : List α) : Prop := l.Pairwise fun x y => hi x + gap ≤ lo y

/-- A spaced list of non-empty intervals that covers exactly `P`. -/
structure Lays (gap : Nat) (l : List α) (P : Nat → Prop) : Prop where
  spaced : Spaced gap l
  proper : Proper l
  covers : ∀ a, Covers l a ↔ P a

theorem Spaced.separated {gap : Nat} {l : List α} (h : Spaced gap l) : Separated l :=
  h.imp fun hxy => Nat.le_trans (Nat.le_add_right _ gap) hxy

@[simp] theorem covers_nil (a : Nat) : ¬ Covers ([] : List α) a := by
  rintro ⟨x, hx, _⟩
  simp at hx

@[simp] theorem covers_cons (x : α) (l : List α) (a : Nat) :
    Covers (x :: l) a ↔ Holds x a ∨ Covers l a := by
  simp [Covers]

@[simp] theorem covers_append (l m : List α) (a : Nat) :
    Covers (l ++ m) a ↔ Covers l a ∨ Covers m a := by
  simp [Covers, or_and_right, exists_or]

theorem covers_perm {l m : List α} (h : l.Perm m) (a : Nat) : Covers l a ↔ Covers m a := by
  simp [Covers, h.mem_iff]

theorem covers_filterMap {β : Type u} (f : β → Option α) (l : List β) (a : Nat) :
    Covers (l.filterMap f) a ↔ ∃ s ∈ l, ∃ x, f s = some x ∧ Holds x a := by
  simp only [Covers, List.mem_filterMap]
  constructor
  · rintro ⟨x, ⟨s, hs, hx⟩, hold⟩
    exact ⟨s, hs, x, hx, hold⟩
  · rintro ⟨s, hs, x, hx, hold⟩
    exact ⟨x, ⟨s, hs, hx⟩, hold⟩

section Merge
variable (touch : α → α → Bool) (cap : Nat)

/-- The accumulator is a stack: its head is the interval that may still grow. -/
def mergeStep (acc : List α) (cur : α) : List α :=
  match acc with
  | [] => [cur]
  | prev :: done =>
    if touch prev cur then
      (if hi cur > hi prev then resize prev (lo prev) (hi cur) else prev) :: done
    else if (prev :: done).length < cap then cur :: prev :: done
    else prev :: done

def merge (l : List α) : List α := (l.foldl (mergeStep touch cap) []).reverse

/-- Touching intervals leave no hole, other ones are `gap` points apart. -/
structure TouchLaw (gap : Nat) : Prop where
  joined : ∀ x y : α, touch x y = true → lo y ≤ hi x
  apart : ∀ x y : α, touch x y = false → hi x + gap ≤ lo y

/-- What the stack satisfies between two steps of the merge. -/
structure Stacked (gap : Nat) (acc : List α) : Prop where
  below : acc.Pairwise fun x y => hi y + gap ≤ lo x
  proper : Proper acc

variable {touch} {gap : Nat}

theorem Stacked.replace_head {prev next : α} {done : List α} (h : Stacked gap (prev :: done))
    (hlo : lo next = lo prev) (hhi : lo next < hi next) : Stacked gap (next :: done) := by
  obtain ⟨hbelow, hdone⟩ := List.pairwise_cons.mp h.below
  rw [← hlo] at hbelow
  exact ⟨List.pairwise_cons.mpr ⟨hbelow, hdone⟩,
    List.forall_mem_cons.mpr ⟨hhi, (List.forall_mem_cons.mp h.proper).2⟩⟩

theorem Stacked.push {cur prev : α} {done : List α} (h : Stacked gap (prev :: done))
    (hcur : lo cur < hi cur) (hap : hi prev + gap ≤ lo cur) :
    Stacked gap (cur :: prev :: done) := by
  have hprev := h.proper prev List.mem_cons_self
  refine ⟨List.pairwise_cons.mpr ⟨List.forall_mem_cons.mpr ⟨hap, fun x hx => ?_⟩, h.below⟩,
    List.forall_mem_cons.mpr ⟨hcur, h.proper⟩⟩
  have hbelow := (List.pairwise_cons.mp h.below).1 x hx
  omega

/-- One step absorbs or pushes; either way exactly `cur` is added to what is covered. -/
theorem mergeStep_spec (law : TouchLaw touch gap) {acc : List α} {cur : α} (h : Stacked gap acc)
    (hcur : lo cur < hi cur) (hle : ∀ x ∈ acc, lo x ≤ lo cur) (hcap : acc.length < cap) :
    Stacked gap (mergeStep touch cap acc cur) ∧
      (∀ a, Covers (mergeStep touch cap acc cur) a ↔ Covers acc a ∨ Holds cur a) ∧
      (∀ x ∈ mergeStep touch cap acc cur, lo x ≤ lo cur) ∧
      (mergeStep touch cap acc cur).length ≤ acc.length + 1 := by
  cases acc with
  | nil =>
    refine ⟨⟨by simp [mergeStep], by simpa [mergeStep, Proper] using hcur⟩, ?_, ?_, ?_⟩
    · intro a
      simp [mergeStep]
    · simp [mergeStep]
    · simp [mergeStep]
  | cons prev done =>
    have hprev : lo prev < hi prev := h.proper prev List.mem_cons_self
    have hpc : lo prev ≤ lo cur := hle prev List.mem_cons_self
    cases ht : touch prev cur with
    | true =>
      have hj := law.joined prev cur ht
      simp only [mergeStep, ht, if_true]
      by_cases hg : hi cur > hi prev
      · rw [if_pos hg]
        refine ⟨h.replace_head (by simp) (by simp; omega), ?_, ?_, by simp⟩
        · intro a
          have hx : Holds (resize prev (lo prev) (hi cur)) a ↔ Holds prev a ∨ Holds cur a := by
            simp only [Holds, lo_resize, hi_resize]
            omega
          simp only [covers_cons, hx]
          tauto
        · exact List.forall_mem_cons.mpr ⟨by simpa using hpc, (List.forall_mem_cons.mp hle).2⟩
      · rw [if_neg hg]
        refine ⟨h, ?_, hle, by simp⟩
        intro a
        have hx : Holds cur a → Holds prev a := by
          simp only [Holds]
          omega
        tauto
    | false =>
      have hap := law.apart prev cur ht
      simp only [mergeStep, ht, Bool.false_eq_true, if_false]
      rw [if_pos hcap]
      refine ⟨h.push hcur hap, ?_, List.forall_mem_cons.mpr ⟨Nat.le_refl _, hle⟩, by simp⟩
      intro a
      simp only [covers_cons]
      tauto

theorem mergeFold_spec (law : TouchLaw touch gap) (l acc : List α) (h : Stacked gap acc)
    (hsorted : l.Pairwise fun x y => lo x ≤ lo y) (hproper : Proper l)
    (hle : ∀ x ∈ acc, ∀ y ∈ l, lo x ≤ lo y) (hcap : acc.length + l.length ≤ cap) :
    Stacked gap (l.foldl (mergeStep touch cap) acc) ∧
      (∀ a, Covers (l.foldl (mergeStep touch cap) acc) a ↔ Covers acc a ∨ Covers l a) ∧
      (l.foldl (mergeStep touch cap) acc).length ≤ acc.length + l.length := by
  induction l generalizing acc with
  | nil => exact ⟨h, by simp, by simp⟩
  | cons cur l ih =>
    have hs := List.pairwise_cons.mp hsorted
    simp only [List.length_cons] at hcap
    obtain ⟨hst, hcov, hlo, hlen⟩ := mergeStep_spec cap law h (hproper cur List.mem_cons_self)
      (fun x hx => hle x hx cur List.mem_cons_self) (by omega)
    obtain ⟨hst', hcov', hlen'⟩ := ih (mergeStep touch cap acc cur) hst hs.2
      (fun x hx => hproper x (List.mem_cons_of_mem cur hx))
      (fun x hx y hy => Nat.le_trans (hlo x hx) (hs.1 y hy)) (by omega)
    refine ⟨hst', ?_, ?_⟩
    · intro a
      simp only [List.foldl_cons, hcov', hcov, covers_cons]
      tauto
    · simp only [List.foldl_cons, List.length_cons]
      omega

theorem merge_spec (law : TouchLaw touch gap) {l : List α} (hproper : Proper l)
    (hcap : l.length ≤ cap) :
    Lays gap (merge touch cap (sort lo l)) (Covers l) ∧ (merge touch cap (sort lo l)).length ≤
      l.length := by
  have hperm := sort_perm lo l
  obtain ⟨hst, hcov, hlen⟩ := mergeFold_spec cap law (sort lo l) [] ⟨List.Pairwise.nil, nofun⟩
    (sort_sorted lo l)
    (fun x hx => hproper x (hperm.mem_iff.mp hx)) nofun (by simpa [length_sort] using hcap)
  refine ⟨⟨List.pairwise_reverse.mpr hst.below, fun x hx => hst.proper x (List.mem_reverse.mp hx),
    ?_⟩, ?_⟩
  · intro a
    rw [merge, covers_perm (List.reverse_perm _), hcov, covers_perm hperm]
    simp
  · simpa [merge, length_sort] using hlen

theorem mergeStep_forall {Q : α → Prop} (hQ : ∀ x y, Q x → Q y → Q (resize x (lo x) (hi y)))
    {acc : List α} {cur : α} (hacc : ∀ x ∈ acc, Q x) (hcur : Q cur) :
    ∀ x ∈ mergeStep touch cap acc cur, Q x := by
  cases acc with
  | nil => exact List.forall_mem_singleton.mpr hcur
  | cons prev done =>
    obtain ⟨hprev, hdone⟩ := List.forall_mem_cons.mp hacc
    simp only [mergeStep]
    split
    · refine List.forall_mem_cons.mpr ⟨?_, hdone⟩
      split
      · exact hQ prev cur hprev hcur
      · exact hprev
    split
    · exact List.forall_mem_cons.mpr ⟨hcur, hacc⟩
    · exact hacc

theorem merge_forall {Q : α → Prop} (hQ : ∀ x y, Q x → Q y → Q (resize x (lo x) (hi y)))
    {l : List α} (hl : ∀ x ∈ l, Q x) : ∀ x ∈ merge touch cap (sort lo l), Q x := by
  have hfold : ∀ x ∈ (sort lo l).foldl (mergeStep touch cap) [], Q x :=
    List.foldlRecOn (motive := fun acc => ∀ x ∈ acc, Q x) _ _ nofun fun acc hacc cur hcur =>
      mergeStep_forall cap hQ hacc (hl cur ((mem_sort lo).mp hcur))
  exact fun x hx => hfold x (List.mem_reverse.mp hx)

end Merge

/-- What is left of `x` on either side of `r`. -/
def pieces (r x : α) : List α :=
  if hi r ≤ lo x ∨ lo r ≥ hi x then [x]
  else
    (if lo x < lo r then [resize x (lo x) (lo r)] else []) ++
      (if hi r < hi x then [resize x (hi r) (hi x)] else [])

def cut (r : α) (l : List α) : List α := l.flatMap (pieces r)

theorem covers_pieces (r x : α) (a : Nat) : Covers (pieces r x) a ↔ Holds x a ∧ ¬ Holds r a := by
  unfold pieces
  split
  · simp only [covers_cons, covers_nil, Holds, or_false]
    omega
  rw [covers_append]
  split <;> split <;>
    simp only [covers_cons, covers_nil, Holds, lo_resize, hi_resize, or_false, false_or,
      false_iff] <;> omega

theorem pieces_bounds {r x y : α} (hx : lo x < hi x) (hy : y ∈ pieces r x) :
    lo x ≤ lo y ∧ hi y ≤ hi x ∧ lo y < hi y := by
  unfold pieces at hy
  split at hy
  · rw [List.mem_singleton.mp hy]
    exact ⟨Nat.le_refl _, Nat.le_refl _, hx⟩
  rename_i hover
  rcases List.mem_append.mp hy with hy | hy
  · split at hy
    · rw [List.mem_singleton.mp hy, lo_resize, hi_resize]
      omega
    · simp at hy
  split at hy
  · rw [List.mem_singleton.mp hy, lo_resize, hi_resize]
    omega
  · simp at hy

theorem spaced_pieces {gap : Nat} {r : α} (hr : lo r + gap ≤ hi r) (x : α) :
    Spaced gap (pieces r x) := by
  unfold pieces Spaced
  split
  · simp
  · split <;> split <;> simp [hr]

theorem covers_cut (r : α) (l : List α) (a : Nat) :
    Covers (cut r l) a ↔ Covers l a ∧ ¬ Holds r a := by
  induction l with
  | nil => simp [cut]
  | cons x l ih =>
    have hx : cut r (x :: l) = pieces r x ++ cut r l := by simp [cut]
    rw [hx, covers_append, covers_pieces, ih, covers_cons]
    tauto

variable {l m : List α} {gap : Nat} {P Q : Nat → Prop}

theorem Lays.cut {r : α} (hr : lo r + gap ≤ hi r) (h : Lays gap l P) :
    Lays gap (cut r l) fun a => P a ∧ ¬ Holds r a where
  spaced := by
    apply List.pairwise_flatMap.mpr
    refine ⟨fun x _ => spaced_pieces hr x, ?_⟩
    apply h.spaced.imp_of_mem
    intro x y hx hy hxy a ha b hb
    have hax := pieces_bounds (h.proper x hx) ha
    have hby := pieces_bounds (h.proper y hy) hb
    omega
  proper := by
    intro y hy
    obtain ⟨x, hx, hy⟩ := List.mem_flatMap.mp hy
    exact (pieces_bounds (h.proper x hx) hy).2.2
  covers a := by rw [covers_cut, h.covers]

theorem pieces_of_after {r x : α} (h : hi r ≤ lo x) : pieces r x = [x] := by
  unfold pieces
  rw [if_pos (Or.inl h)]

theorem length_cut {r : α} (hl : Separated l) : (cut r l).length ≤ l.length + 1 := by
  induction l with
  | nil => simp [cut]
  | cons x l ih =>
    have hs := List.pairwise_cons.mp hl
    have hx : cut r (x :: l) = pieces r x ++ cut r l := by simp [cut]
    by_cases hsplit : hi r < hi x
    · have hrest : cut r l = l := by
        have hself : l.flatMap (pieces r) = l.flatMap fun y => [y] := by
          apply List.flatMap_congr
          intro y hy
          exact pieces_of_after (Nat.le_trans (Nat.le_of_lt hsplit) (hs.1 y hy))
        simpa [cut] using hself
      have hp : (pieces r x).length ≤ 2 := by
        unfold pieces
        split
        · simp
        · split <;> simp
      rw [hx, hrest]
      simp only [List.length_append, List.length_cons]
      omega
    · have hp : (pieces r x).length ≤ 1 := by
        unfold pieces
        split
        · simp
        · split <;> simp
      have hrec := ih hs.2
      rw [hx]
      simp only [List.length_append, List.length_cons]
      omega

/-- Cut every interval of `rs` out of `l`, keeping at most `cap` pieces at a time. -/
def cutAll (cap : Nat) (rs l : List α) : List α := rs.foldl (fun l r => (cut r l).take cap) l

theorem cutAll_spec (cap : Nat) (hgap : gap ≤ 1) {rs : List α} (hrs : Proper rs) (hl : Lays gap l P)
    (hcap : l.length + rs.length ≤ cap) :
    Lays gap (cutAll cap rs l) fun a => P a ∧ ¬ Covers rs a := by
  induction rs generalizing l P with
  | nil => exact ⟨hl.spaced, hl.proper, fun a => by simpa [cutAll] using hl.covers a⟩
  | cons r rs ih =>
    obtain ⟨hr, hrs⟩ := List.forall_mem_cons.mp hrs
    have hlen := length_cut (r := r) hl.spaced.separated
    simp only [List.length_cons] at hcap
    have hall : (cut r l).take cap = cut r l := List.take_of_length_le (by omega)
    have hstep : cutAll cap (r :: rs) l = cutAll cap rs (cut r l) := by simp [cutAll, hall]
    have hrest := ih hrs (hl.cut (r := r) (by omega)) (by omega)
    rw [hstep]
    refine ⟨hrest.spaced, hrest.proper, fun a => (hrest.covers a).trans ?_⟩
    rw [covers_cons]
    tauto

/-- A property that survives moving one end to an end of a cut interval survives the cutting. -/
theorem cutAll_forall {Q R : α → Prop} (cap : Nat)
    (hleft : ∀ r x, R r → Q x → Q (resize x (lo x) (lo r)))
    (hright : ∀ r x, R r → Q x → Q (resize x (hi r) (hi x))) (rs l : List α)
    (hrs : ∀ r ∈ rs, R r) (hl : ∀ x ∈ l, Q x) : ∀ x ∈ cutAll cap rs l, Q x := by
  induction rs generalizing l with
  | nil => exact hl
  | cons r rs ih =>
    apply ih ((cut r l).take cap) (fun x hx => hrs x (List.mem_cons_of_mem r hx))
    intro y hy
    obtain ⟨x, hx, hy⟩ := List.mem_flatMap.mp (List.mem_of_mem_take hy)
    have hr := hrs r List.mem_cons_self
    have hq := hl x hx
    unfold pieces at hy
    split at hy
    · rw [List.mem_singleton.mp hy]
      exact hq
    rcases List.mem_append.mp hy with hy | hy
    · split at hy
      · rw [List.mem_singleton.mp hy]
        exact hleft r x hr hq
      · simp at hy
    split at hy
    · rw [List.mem_singleton.mp hy]
      exact hright r x hr hq
    · simp at hy

/-- Disjoint in either order; unlike `Separated` this does not depend on the list order. -/
def Apart (l : List α) : Prop := l.Pairwise fun x y => hi x ≤ lo y ∨ hi y ≤ lo x

theorem Separated.eq_of_holds (hl : Separated l) {x y : α} {a : Nat}
    (hx : x ∈ l) (hy : y ∈ l) (hxa : Holds x a) (hya : Holds y a) : x = y := by
  have hapart : Apart l := hl.imp Or.inl
  have : Std.Symm fun x y : α => hi x ≤ lo y ∨ hi y ≤ lo x := ⟨fun _ _ h => h.symm⟩
  by_contra hne
  have h := hapart.forall hx hy hne
  simp only [Holds] at hxa hya
  omega

theorem Lays.apart_append {gap' : Nat} (hl : Lays gap l P) (hm : Lays gap' m Q)
    (h : ∀ a, P a → ¬ Q a) : Apart (l ++ m) := by
  apply List.pairwise_append.mpr
  refine ⟨hl.spaced.separated.imp Or.inl, hm.spaced.separated.imp Or.inl, ?_⟩
  intro x hx y hy
  have hpx := hl.proper x hx
  have hpy := hm.proper y hy
  by_contra hn
  -- a common point of two overlapping intervals is the larger of their lower ends
  have hxa : Holds x (max (lo x) (lo y)) := by
    simp only [Holds]
    omega
  have hya : Holds y (max (lo x) (lo y)) := by
    simp only [Holds]
    omega
  exact h _ ((hl.covers _).mp ⟨x, hx, hxa⟩) ((hm.covers _).mp ⟨y, hy, hya⟩)

theorem separated_sort (hl : Apart l) (hp : Proper l) : Separated (sort lo l) := by
  have hperm := sort_perm lo l
  have hapart : Apart (sort lo l) := by
    apply (hperm.pairwise_iff _).mpr hl
    intro x y h
    exact h.symm
  have hboth := hapart.and (sort_sorted lo l)
  apply hboth.imp_of_mem
  intro x y hx hy hxy
  have hpy := hp y (hperm.mem_iff.mp hy)
  omega

/-- Where intervals have gaps between them, the one that holds the first point of a covered range
holds all of it. -/
theorem Spaced.holds_range (hl : Spaced 1 l) {start stop : Nat} (hne : start < stop)
    (hcovered : ∀ a, start ≤ a → a < stop → Covers l a) : ∃ x ∈ l, lo x ≤ start ∧ stop ≤ hi x := by
  obtain ⟨x, hx, hlo, hhi⟩ := hcovered start (Nat.le_refl _) hne
  refine ⟨x, hx, hlo, ?_⟩
  by_contra hshort
  -- the end of this element is still in the range, but no element can hold it
  obtain ⟨y, hy, hylo, hyhi⟩ := hcovered (hi x) (Nat.le_of_lt hhi) (Nat.lt_of_not_le hshort)
  have hgap : l.Pairwise fun x y => hi x < lo y ∨ hi y < lo x := hl.imp Or.inl
  have : Std.Symm fun x y : α => hi x < lo y ∨ hi y < lo x := ⟨fun _ _ h => h.symm⟩
  have hne' : x ≠ y := by
    intro heq
    rw [heq] at hyhi
    exact Nat.lt_irrefl _ hyhi
  have h := hgap.forall hx hy hne'
  omega

end Intervals
