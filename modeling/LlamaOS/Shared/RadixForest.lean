import Mathlib.Tactic.Common

/-!
# Radix trees in one memory

Several trees share a memory `h` of tables. A path is followed from a root through
the entries that point to another table; `next d` reads an entry that has `d` indices
above its table. Only some positions (root and path) are tracked; the forest is
separated when two tracked positions at one table have the same path, and the same
root unless the path starts with a shared index.
-/

namespace RadixForest

universe u v w
variable {L : Type u} {I : Type v} {E : Type w}

/-- Follow a path from a table with `d` indices above it. -/
def followFrom (next : Nat → E → Option L) (h : L → I → E) : Nat → L → List I → Option L
  | _, l, [] => some l
  | d, l, i :: path => (next d (h l i)).bind fun l' => followFrom next h (d + 1) l' path

def follow (next : Nat → E → Option L) (h : L → I → E) (r : L) (path : List I) : Option L :=
  followFrom next h 0 r path

/-- The entry with index `i` of the table at a position. -/
def entryAt (next : Nat → E → Option L) (h : L → I → E) (r : L) (p : List I) (i : I) : Option E :=
  (follow next h r p).map fun l => h l i

def write [DecidableEq L] [DecidableEq I] (h : L → I → E) (l : L) (i : I) (e : E) : L → I → E :=
  fun l' j => if l' = l ∧ j = i then e else h l' j

section Following
variable {next : Nat → E → Option L} {h h' : L → I → E}

theorem followFrom_cons (d : Nat) (r : L) (i : I) (p : List I) :
    followFrom next h d r (i :: p) = (next d (h r i)).bind fun l => followFrom next h (d + 1) l p :=
  rfl

theorem followFrom_append (d : Nat) (r : L) (p q : List I) :
    followFrom next h d r (p ++ q) = (followFrom next h d r p).bind fun l =>
      followFrom next h (d + p.length) l q := by
  induction p generalizing d r with
  | nil => rfl
  | cons i p ih =>
    rw [List.cons_append, followFrom_cons, followFrom_cons, Option.bind_assoc, List.length_cons,
      Nat.add_comm p.length 1, ← Nat.add_assoc]
    congr 1
    funext l
    exact ih (d + 1) l

theorem followFrom_congr {d : Nat} {r : L} {path : List I}
    (hsame : ∀ p i q l, path = p ++ i :: q → followFrom next h d r p = some l →
      next (d + p.length) (h' l i) = next (d + p.length) (h l i)) :
    followFrom next h' d r path = followFrom next h d r path := by
  induction path generalizing d r with
  | nil => rfl
  | cons i path ih =>
    have hhead : next d (h' r i) = next d (h r i) := hsame [] i path r rfl rfl
    rw [followFrom_cons, followFrom_cons, hhead]
    cases hn : next d (h r i) with
    | none => rfl
    | some l =>
      apply ih
      intro p j q l' hpath hp
      have hnext := hsame (i :: p) j q l' (by rw [hpath, List.cons_append])
        (by rw [followFrom_cons, hn]; exact hp)
      rwa [List.length_cons, Nat.add_comm p.length 1, ← Nat.add_assoc] at hnext

@[simp] theorem follow_nil (r : L) : follow next h r [] = some r := rfl

theorem follow_cons (r : L) (i : I) (p : List I) :
    follow next h r (i :: p) = (next 0 (h r i)).bind fun l => followFrom next h 1 l p := rfl

theorem follow_append (r : L) (p q : List I) :
    follow next h r (p ++ q) = (follow next h r p).bind fun l =>
      followFrom next h p.length l q := by
  rw [follow, followFrom_append, Nat.zero_add]
  rfl

theorem follow_snoc {r l : L} {p : List I} (hp : follow next h r p = some l) (i : I) :
    follow next h r (p ++ [i]) = next p.length (h l i) := by
  rw [follow_append, hp, Option.bind_some, followFrom_cons]
  cases next p.length (h l i) with
  | none => rfl
  | some l' => rfl

theorem follow_of_le {r l : L} {p q : List I} (hp : follow next h r p = some l) (hq : q <+: p) :
    ∃ l', follow next h r q = some l' := by
  obtain ⟨t, rfl⟩ := hq
  rw [follow_append] at hp
  obtain ⟨l', hl', _⟩ := Option.bind_eq_some_iff.mp hp
  exact ⟨l', hl'⟩

theorem follow_congr {r : L} {path : List I}
    (hsame : ∀ p i q l, path = p ++ i :: q → follow next h r p = some l →
      next p.length (h' l i) = next p.length (h l i)) :
    follow next h' r path = follow next h r path := by
  apply followFrom_congr
  intro p i q l hpath hp
  rw [Nat.zero_add]
  exact hsame p i q l hpath hp

theorem entryAt_of_follow {r l : L} {p : List I} (hp : follow next h r p = some l) (i : I) :
    entryAt next h r p i = some (h l i) := by
  rw [entryAt, hp, Option.map_some]

end Following

section Writing
variable [DecidableEq L] [DecidableEq I] {next : Nat → E → Option L} {h : L → I → E}

theorem write_self (l : L) (i : I) (e : E) : write h l i e l i = e := if_pos ⟨rfl, rfl⟩

theorem write_of_ne {l l' : L} {i j : I} (e : E) (hne : ¬ (l' = l ∧ j = i)) :
    write h l i e l' j = h l' j :=
  if_neg hne

theorem write_write (l : L) (i : I) (e e' : E) : write (write h l i e) l i e' = write h l i e' := by
  funext l' j
  by_cases hat : l' = l ∧ j = i
  · rw [hat.1, hat.2, write_self, write_self]
  · rw [write_of_ne e' hat, write_of_ne e hat, write_of_ne e' hat]

theorem follow_write_same {l : L} {i : I} {e : E} (hnext : ∀ d, next d e = next d (h l i)) (r : L)
    (path : List I) : follow next (write h l i e) r path = follow next h r path := by
  apply follow_congr
  intro p j q l' _ _
  by_cases hat : l' = l ∧ j = i
  · rw [hat.1, hat.2, write_self, hnext]
  · rw [write_of_ne e hat]

end Writing

section Separation
variable (next : Nat → E → Option L) (T : L → List I → Prop) (S : I → Prop)

/-- Table `l` is at the tracked position `r`, `p`. -/
structure Occupies (h : L → I → E) (r : L) (p : List I) (l : L) : Prop where
  tracked : T r p
  follows : follow next h r p = some l

def Separated (h : L → I → E) : Prop :=
  ∀ ⦃r p r' p' l⦄, Occupies next T h r p l → Occupies next T h r' p' l →
    p = p' ∧ (r = r' ∨ ∃ i q, p = i :: q ∧ S i)

def PrefixClosed : Prop := ∀ ⦃r p q⦄, T r (p ++ q) → T r p

end Separation

section Changes
variable {next : Nat → E → Option L} {T T' : L → List I → Prop} {S : I → Prop} {h h' : L → I → E}

theorem follow_eq_of_agree (hT : PrefixClosed T)
    (hsame : ∀ r p i l, T r (p ++ [i]) → follow next h r p = some l →
      next p.length (h' l i) = next p.length (h l i))
    {r : L} {q : List I} (hq : T r q) : follow next h' r q = follow next h r q := by
  apply follow_congr
  intro p i s l hpath hp
  apply hsame r p i l _ hp
  apply hT (q := s)
  rw [List.append_assoc, List.singleton_append, ← hpath]
  exact hq

theorem Separated.mono (hsep : Separated next T S h) (hT : ∀ r p, T' r p → T r p)
    (hsame : ∀ r p, T' r p → follow next h' r p = follow next h r p) : Separated next T' S h' := by
  intro r p r' p' l hl hl'
  have hold : Occupies next T h r p l := ⟨hT r p hl.tracked, hsame r p hl.tracked ▸ hl.follows⟩
  have hold' : Occupies next T h r' p' l :=
    ⟨hT r' p' hl'.tracked, hsame r' p' hl'.tracked ▸ hl'.follows⟩
  exact hsep hold hold'

section Write
variable [DecidableEq L] [DecidableEq I] (hT : PrefixClosed T) (hsep : Separated next T S h)
variable {r : L} {p : List I} {l : L} (hl : Occupies next T h r p l) (i : I) (e : E)
include hT hsep hl

theorem follow_write_off {r' : L} {q : List I} (hq : T r' q)
    (hoff : ∀ s, q = p ++ i :: s → follow next h r' p ≠ some l) :
    follow next (write h l i e) r' q = follow next h r' q := by
  apply follow_congr
  intro p' j s l' hpath hp'
  by_cases hat : l' = l ∧ j = i
  · obtain ⟨rfl, rfl⟩ := hat
    have hocc : Occupies next T h r' p' l' := ⟨hT (hpath ▸ hq), hp'⟩
    obtain ⟨rfl, _⟩ := hsep hl hocc
    exact absurd hp' (hoff s hpath)
  · rw [write_of_ne e hat]

theorem follow_write_table {r' : L} (hq : T r' p) :
    follow next (write h l i e) r' p = follow next h r' p := by
  apply follow_write_off hT hsep hl i e hq
  intro s hpath
  simp at hpath

theorem follow_write_through {r' : L} {s : List I} (hq : T r' (p ++ i :: s))
    (hr' : follow next h r' p = some l) :
    follow next (write h l i e) r' (p ++ i :: s) =
      (next p.length e).bind fun n => followFrom next (write h l i e) (p.length + 1) n s := by
  have hp := follow_write_table hT hsep hl i e (hT hq)
  rw [follow_append, hp, hr', Option.bind_some, followFrom_cons, write_self]

omit hT in
theorem entryAt_write {r' : L} {q : List I} (hq : T r' q) (j : I)
    (hsame : follow next (write h l i e) r' q = follow next h r' q) :
    entryAt next (write h l i e) r' q j = entryAt next h r' q j ∨
      (q = p ∧ j = i ∧ follow next h r' p = some l ∧ entryAt next (write h l i e) r' q j =
        some e) := by
  cases hf : follow next h r' q with
  | none =>
    left
    rw [entryAt, entryAt, hsame, hf, Option.map_none, Option.map_none]
  | some m =>
    rw [entryAt_of_follow (hsame.trans hf), entryAt_of_follow hf]
    by_cases hat : m = l ∧ j = i
    · obtain ⟨rfl, rfl⟩ := hat
      obtain ⟨rfl, _⟩ := hsep hl ⟨hq, hf⟩
      exact Or.inr ⟨rfl, rfl, hf, by rw [write_self]⟩
    · exact Or.inl (by rw [write_of_ne e hat])

section

variable {n : L} (hold : next p.length (h l i) = none) (hnew : next p.length e = some n)
  (hfresh : ∀ r' q, ¬ Occupies next T h r' q n)
  (hempty : ∀ r' j s, T r' (p ++ i :: j :: s) → next (p.length + 1) (h n j) = none)
include hold hnew hfresh hempty

/-- Linking a table that occupies no position into an entry that points nowhere. -/
theorem follow_link {r' : L} {q : List I} (hq : T r' q) :
    follow next (write h l i e) r' q = follow next h r' q ∨
      (q = p ++ [i] ∧ follow next h r' p = some l ∧ follow next (write h l i e) r' q = some n) := by
  by_cases hthrough : (∃ s, q = p ++ i :: s) ∧ follow next h r' p = some l
  · obtain ⟨⟨s, rfl⟩, hr'⟩ := hthrough
    rw [follow_write_through hT hsep hl i e hq hr', hnew, Option.bind_some]
    cases s with
    | nil => exact Or.inr ⟨rfl, hr', rfl⟩
    | cons j s =>
      left
      have hn : n ≠ l := fun heq => hfresh r p (heq ▸ hl)
      rw [followFrom_cons, write_of_ne e (fun hat => hn hat.1), hempty r' j s hq,
        follow_append, hr', Option.bind_some, followFrom_cons, hold]
      rfl
  · left
    apply follow_write_off hT hsep hl i e hq
    intro s hpath hr'
    exact hthrough ⟨⟨s, hpath⟩, hr'⟩

theorem Separated.link : Separated next T S (write h l i e) := by
  have hcases : ∀ {r' q m}, Occupies next T (write h l i e) r' q m →
      Occupies next T h r' q m ∨ (q = p ++ [i] ∧ follow next h r' p = some l ∧ m = n) := by
    intro r' q m hm
    rcases follow_link hT hsep hl i e hold hnew hfresh hempty hm.tracked with heq | ⟨hq, hr', heq⟩
    · exact Or.inl ⟨hm.tracked, heq ▸ hm.follows⟩
    · exact Or.inr ⟨hq, hr', Option.some.inj (hm.follows.symm.trans heq)⟩
  intro r₁ p₁ r₂ p₂ m h₁ h₂
  rcases hcases h₁ with o₁ | ⟨rfl, f₁, rfl⟩
  · rcases hcases h₂ with o₂ | ⟨_, _, rfl⟩
    · exact hsep o₁ o₂
    · exact absurd o₁ (hfresh _ _)
  rcases hcases h₂ with o₂ | ⟨rfl, f₂, _⟩
  · exact absurd o₂ (hfresh _ _)
  refine ⟨rfl, ?_⟩
  obtain ⟨_, hroot⟩ := hsep ⟨hT h₁.tracked, f₁⟩ ⟨hT h₂.tracked, f₂⟩
  rcases hroot with heq | ⟨j, q, rfl, hj⟩
  · exact Or.inl heq
  · exact Or.inr ⟨j, q ++ [i], rfl, hj⟩

end

end Write

/-! A new tree `n` that starts with the shared entries of tree `k` and nothing else. -/

section NewRoot
variable {k n : L} (hold : ∀ r p, T' r p → r ≠ n → T r p)
variable (hsame : ∀ r p, T r p → follow next h' r p = follow next h r p)
variable (hshared : ∀ i q, T' n (i :: q) → S i → T k (i :: q))
variable (hcopy : ∀ i, S i → next 0 (h' n i) = next 0 (h k i))
variable (hempty : ∀ i, ¬ S i → next 0 (h' n i) = none)

include hold hsame in
theorem Occupies.of_oldRoot {r : L} {p : List I} {m : L} (hr : r ≠ n)
    (hm : Occupies next T' h' r p m) : Occupies next T h r p m := by
  have ht := hold r p hm.tracked hr
  exact ⟨ht, hsame r p ht ▸ hm.follows⟩

include hsame hshared hcopy hempty in
theorem Occupies.of_newRoot (hk : ∀ i, S i → next 0 (h' k i) = next 0 (h k i)) {i : I} {q : List I}
    {m : L} (hm : Occupies next T' h' n (i :: q) m) : S i ∧ Occupies next T h k (i :: q) m := by
  have hf := hm.follows
  by_cases hi : S i
  · have ht := hshared i q hm.tracked hi
    refine ⟨hi, ht, ?_⟩
    rw [← hsame k _ ht, follow_cons, hk i hi, ← hcopy i hi, ← follow_cons]
    exact hf
  · rw [follow_cons, hempty i hi] at hf
    cases hf

include hold hsame hshared hcopy hempty in
theorem Separated.addRoot (hsep : Separated next T S h) (hfresh : ∀ r q, ¬ Occupies next T h r q n)
    (hk : ∀ i, S i → next 0 (h' k i) = next 0 (h k i)) : Separated next T' S h' := by
  have hnew := @Occupies.of_newRoot _ _ _ next T T' S h h' k n hsame hshared hcopy hempty hk
  have hother := @Occupies.of_oldRoot _ _ _ next T T' h h' n hold hsame
  have hroot : ∀ {m}, Occupies next T' h' n [] m → m = n := by
    intro m hm
    exact (Option.some.inj hm.follows).symm
  have hmixed : ∀ {r p p' m}, r ≠ n → Occupies next T' h' r p m → Occupies next T' h' n p' m →
      p = p' ∧ ∃ i q, p' = i :: q ∧ S i := by
    intro r p p' m hr hm hm'
    cases p' with
    | nil =>
      cases hroot hm'
      exact absurd (hother hr hm) (hfresh _ _)
    | cons i q =>
      obtain ⟨hi, hkm⟩ := hnew hm'
      exact ⟨(hsep (hother hr hm) hkm).1, i, q, rfl, hi⟩
  intro r p r' p' m hm hm'
  by_cases hr : r = n
  · subst hr
    by_cases hr' : r' = r
    · subst hr'
      refine ⟨?_, Or.inl rfl⟩
      cases p with
      | nil =>
        cases hroot hm
        cases p' with
        | nil => rfl
        | cons i q => exact absurd (hnew hm').2 (hfresh _ _)
      | cons i q =>
        cases p' with
        | nil =>
          cases hroot hm'
          exact absurd (hnew hm).2 (hfresh _ _)
        | cons i' q' => exact (hsep (hnew hm).2 (hnew hm').2).1
    · obtain ⟨heq, i, q, hp, hi⟩ := hmixed hr' hm' hm
      exact ⟨heq.symm, Or.inr ⟨i, q, hp, hi⟩⟩
  · by_cases hr' : r' = n
    · subst hr'
      obtain ⟨heq, i, q, hp, hi⟩ := hmixed hr hm hm'
      exact ⟨heq, Or.inr ⟨i, q, heq.trans hp, hi⟩⟩
    · exact hsep (hother hr hm) (hother hr' hm')

end NewRoot

end Changes

end RadixForest
