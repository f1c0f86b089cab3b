import Mathlib.Data.List.Nodup

/-!
# Files as chains of blocks

A table gives for each block the next one, an end mark, or zero for a free block. A file
is the bytes of the blocks of a chain, one after the other. Writing to it may append free
blocks.
-/

namespace LlamaOS.BlockChain

variable {β : Type}

structure Store (β : Type) where
  link : Nat → Nat
  data : Nat → Nat → β

/-- The blocks follow each other in the table, up to an end mark. -/
structure Linked (isEnd : Nat → Prop) (link : Nat → Nat) (cs : List Nat) : Prop where
  next : ∀ i c d, cs[i]? = some c → cs[i + 1]? = some d → link c = d
  last : ∀ c, cs.getLast? = some c → isEnd (link c)

theorem Linked.nil (isEnd : Nat → Prop) (link : Nat → Nat) : Linked isEnd link [] where
  next i c d h := by cases h
  last c h := by cases h

variable {isEnd : Nat → Prop} {link link' : Nat → Nat} {cs : List Nat}

theorem Linked.congr (h : Linked isEnd link cs) (hlink : ∀ c ∈ cs, link' c = link c) :
    Linked isEnd link' cs where
  next i c d hc hd := by
    rw [hlink c (List.mem_of_getElem? hc)]
    exact h.next i c d hc hd
  last c hc := by
    rw [hlink c (List.mem_of_getLast? hc)]
    exact h.last c hc

variable {c : Nat}

theorem Linked.live (h : Linked isEnd link cs) (hend : ∀ v, isEnd v → v ≠ 0) (hcs : ∀ c ∈ cs, c ≠ 0)
    (hc : c ∈ cs) : link c ≠ 0 := by
  obtain ⟨i, hi⟩ := List.mem_iff_getElem?.mp hc
  cases hnext : cs[i + 1]? with
  | some d =>
    rw [h.next i c d hi hnext]
    exact hcs d (List.mem_of_getElem? hnext)
  | none =>
    have hlen := List.getElem?_eq_none_iff.mp hnext
    have hlt := (List.getElem?_eq_some_iff.mp hi).1
    apply hend
    apply h.last
    rw [List.getLast?_eq_getElem?, show cs.length - 1 = i by omega, hi]

theorem Linked.single (h : isEnd (link c)) :
    Linked isEnd link [c] where
  next i a b _ hb := by
    rw [List.getElem?_cons_succ] at hb
    cases hb
  last a ha := by
    cases ha
    exact h

theorem Linked.snoc (h : Linked isEnd link cs) (hnodup : cs.Nodup) (hend : isEnd (link' c))
    (hlast : ∀ d, cs.getLast? = some d → link' d = c)
    (hsame : ∀ d ∈ cs, cs.getLast? ≠ some d → link' d = link d) :
    Linked isEnd link' (cs ++ [c]) where
  next i a b ha hb := by
    have hi : i < cs.length := by
      have hlen := (List.getElem?_eq_some_iff.mp hb).1
      rw [List.length_append, List.length_singleton] at hlen
      omega
    rw [List.getElem?_append_left hi] at ha
    by_cases hnext : i + 1 < cs.length
    · rw [List.getElem?_append_left hnext] at hb
      rw [hsame a (List.mem_of_getElem? ha), h.next i a b ha hb]
      intro hl
      rw [List.getLast?_eq_getElem?] at hl
      have hsameIndex := (List.getElem?_inj hi hnodup).mp (ha.trans hl.symm)
      omega
    have hindex : i + 1 = cs.length := by omega
    rw [List.getElem?_append_right (by omega), hindex, Nat.sub_self] at hb
    cases hb
    apply hlast
    rw [List.getLast?_eq_getElem?, show cs.length - 1 = i by omega, ha]
  last a ha := by
    rw [List.getLast?_append] at ha
    cases ha
    exact hend

section Bytes

variable (size : Nat)

def byteAt (s : Store β) (cs : List Nat) (p : Nat) : Option β :=
  cs[p / size]?.map fun c => s.data c (p % size)

variable {size}

theorem byteAt_congr {s s' : Store β} (hsize : 0 < size)
    (h : ∀ c ∈ cs, ∀ i < size, s'.data c i = s.data c i) (p : Nat) :
    byteAt size s' cs p = byteAt size s cs p := by
  unfold byteAt
  cases hc : cs[p / size]? with
  | none => rfl
  | some c => simp only [Option.map_some, h c (List.mem_of_getElem? hc) _ (Nat.mod_lt p hsize)]

variable {p : Nat}

theorem lt_of_byteAt {s : Store β} {b : β} (hsize : 0 < size) (h : byteAt size s cs p = some b) :
    p < cs.length * size := by
  obtain ⟨c, hc, _⟩ := Option.map_eq_some_iff.mp h
  exact (Nat.div_lt_iff_lt_mul hsize).mp (List.getElem?_eq_some_iff.mp hc).1

theorem byteAt_append_left (s : Store β) (new : List Nat) (hsize : 0 < size)
    (hp : p < cs.length * size) : byteAt size s (cs ++ new) p = byteAt size s cs p := by
  unfold byteAt
  rw [List.getElem?_append_left ((Nat.div_lt_iff_lt_mul hsize).mpr hp)]

end Bytes

section Wrote

variable (size : Nat) (isEnd : Nat → Prop) (usable : Nat → Prop) (zero : β)

/-- The bytes are written to the file at `offset`. The chain may have grown by free blocks, which
are zero where they are not written, and no block off the chain has changed. -/
structure Wrote (s s' : Store β) (cs cs' : List Nat) (offset : Nat) (bytes : List β) : Prop where
  grown : ∃ new, cs' = cs ++ new ∧ ∀ c ∈ new, usable c ∧ s.link c = 0
  linked : Linked isEnd s'.link cs'
  nodup : cs'.Nodup
  fits : bytes = [] ∨ offset + bytes.length ≤ cs'.length * size
  contents : ∀ p < cs'.length * size, byteAt size s' cs' p =
    if offset ≤ p ∧ p < offset + bytes.length then bytes[p - offset]?
    else if p < cs.length * size then byteAt size s cs p else some zero
  others : ∀ c, usable c → c ∉ cs' → s'.link c = s.link c ∧ ∀ i < size, s'.data c i = s.data c i

variable {size isEnd usable zero} {s s' s'' : Store β} {cs cs' cs'' : List Nat} {offset : Nat}

variable {bytes : List β}

theorem Wrote.length_le (h : Wrote size isEnd usable zero s s' cs cs' offset bytes) :
    cs.length ≤ cs'.length := by
  obtain ⟨new, hnew, _⟩ := h.grown
  rw [hnew, List.length_append]
  exact Nat.le_add_right _ _

theorem Wrote.all_usable (h : Wrote size isEnd usable zero s s' cs cs' offset bytes)
    (hcs : ∀ c ∈ cs, usable c) : ∀ c ∈ cs', usable c := by
  obtain ⟨new, hnew, hfree⟩ := h.grown
  intro c hc
  rw [hnew, List.mem_append] at hc
  rcases hc with hc | hc
  · exact hcs c hc
  · exact (hfree c hc).1

theorem Wrote.refl (hlinked : Linked isEnd s.link cs) (hnodup : cs.Nodup) :
    Wrote size isEnd usable zero s s cs cs offset [] where
  grown := ⟨[], (List.append_nil cs).symm, fun c hc => by cases hc⟩
  linked := hlinked
  nodup := hnodup
  fits := Or.inl rfl
  contents p hp := by
    rw [if_neg (by simp only [List.length_nil]; omega), if_pos hp]
  others c _ _ := ⟨rfl, fun _ _ => rfl⟩

theorem Wrote.trans {bytes bytes' : List β}
    (h : Wrote size isEnd usable zero s s' cs cs' offset bytes)
    (h' : Wrote size isEnd usable zero s' s'' cs' cs'' (offset + bytes.length) bytes') :
    Wrote size isEnd usable zero s s'' cs cs'' offset (bytes ++ bytes') := by
  have hle := Nat.mul_le_mul_right size h.length_le
  have hle' := Nat.mul_le_mul_right size h'.length_le
  obtain ⟨new, hnew, hfree⟩ := h.grown
  obtain ⟨new', hnew', hfree'⟩ := h'.grown
  refine ⟨⟨new ++ new', by rw [hnew', hnew, List.append_assoc], ?_⟩, h'.linked,
    h'.nodup, ?_, ?_, ?_⟩
  · intro c hc
    rcases List.mem_append.mp hc with hc | hc
    · exact hfree c hc
    obtain ⟨husable, hzero⟩ := hfree' c hc
    have hnodup := h'.nodup
    rw [hnew', List.nodup_append] at hnodup
    have hout : c ∉ cs' := fun hin => hnodup.2.2 c hin c hc rfl
    exact ⟨husable, (h.others c husable hout).1.symm.trans hzero⟩
  · rw [List.length_append]
    rcases h'.fits with hnil | hfits
    · rcases h.fits with hnil' | hfits'
      · exact Or.inl (by rw [hnil, hnil', List.append_nil])
      · exact Or.inr (by rw [hnil, List.length_nil]; omega)
    · exact Or.inr (by omega)
  · intro p hp
    rw [h'.contents p hp, List.length_append]
    by_cases hin : offset + bytes.length ≤ p ∧ p < offset + bytes.length + bytes'.length
    · rw [if_pos hin, if_pos (by omega), List.getElem?_append_right (by omega)]
      congr 1
      omega
    rw [if_neg hin]
    by_cases hold : p < cs'.length * size
    · rw [if_pos hold, h.contents p hold]
      by_cases hin' : offset ≤ p ∧ p < offset + bytes.length
      · rw [if_pos hin', if_pos (by omega), List.getElem?_append_left (by omega)]
      · have hout : ¬ (offset ≤ p ∧ p < offset + (bytes.length + bytes'.length)) := by omega
        rw [if_neg hin', if_neg hout]
    rw [if_neg hold]
    have hout : ¬ (offset ≤ p ∧ p < offset + (bytes.length + bytes'.length)) := by
      rcases h.fits with hnil | hfits
      · rw [hnil, List.length_nil] at hin ⊢
        omega
      · omega
    rw [if_neg hout, if_neg (by omega)]
  · intro c husable hout
    have hout' : c ∉ cs' := fun hin => hout (hnew' ▸ List.mem_append_left _ hin)
    obtain ⟨hlink, hdata⟩ := h.others c husable hout'
    obtain ⟨hlink', hdata'⟩ := h'.others c husable hout
    exact ⟨hlink'.trans hlink, fun i hi => (hdata' i hi).trans (hdata i hi)⟩

theorem Wrote.grow (hsize : 0 < size) (hlinked : Linked isEnd s.link cs) (hnodup : cs.Nodup)
    (hcs : ∀ d ∈ cs, usable d) (hlive : ∀ d ∈ cs, s.link d ≠ 0) (husable : usable c)
    (hfree : s.link c = 0) (hend : isEnd (s'.link c))
    (hlast : ∀ d, cs.getLast? = some d → s'.link d = c)
    (hlink : ∀ d, usable d → d ≠ c → cs.getLast? ≠ some d → s'.link d = s.link d)
    (hzero : ∀ i < size, s'.data c i = zero)
    (hdata : ∀ d, usable d → d ≠ c → ∀ i < size, s'.data d i = s.data d i) :
    Wrote size isEnd usable zero s s' cs (cs ++ [c]) offset [] := by
  have hnew : ∀ d ∈ cs, d ≠ c := fun d hd heq => hlive d hd (heq ▸ hfree)
  refine ⟨⟨[c], rfl, ?_⟩, ?_, ?_, Or.inl rfl, ?_, ?_⟩
  · intro d hd
    rw [List.mem_singleton] at hd
    rw [hd]
    exact ⟨husable, hfree⟩
  · apply hlinked.snoc hnodup hend hlast
    intro d hd hne
    exact hlink d (hcs d hd) (hnew d hd) hne
  · rw [List.nodup_append]
    refine ⟨hnodup, List.nodup_singleton c, ?_⟩
    intro d hd e he
    rw [List.mem_singleton.mp he]
    exact hnew d hd
  · intro p hp
    rw [if_neg (by simp only [List.length_nil]; omega)]
    by_cases hold : p < cs.length * size
    · rw [if_pos hold, byteAt_append_left s' [c] hsize hold]
      exact byteAt_congr hsize (fun d hd => hdata d (hcs d hd) (hnew d hd)) p
    rw [List.length_append, List.length_singleton] at hp
    have hindex : p / size = cs.length := by
      have hlo : cs.length ≤ p / size := (Nat.le_div_iff_mul_le hsize).mpr (by omega)
      have hhi : p / size < cs.length + 1 := (Nat.div_lt_iff_lt_mul hsize).mpr hp
      omega
    rw [if_neg hold, byteAt, hindex, List.getElem?_append_right (Nat.le_refl _), Nat.sub_self]
    simp only [List.getElem?_cons_zero, Option.map_some, hzero _ (Nat.mod_lt p hsize)]
  · intro d hd hout
    rw [List.mem_append, not_or, List.mem_singleton] at hout
    exact ⟨hlink d hd hout.2 fun hl => hout.1 (List.mem_of_getLast? hl), hdata d hd hout.2⟩

theorem Wrote.put {j o : Nat} (hsize : 0 < size) (hlinked : Linked isEnd s.link cs)
    (hnodup : cs.Nodup) (hcs : ∀ d ∈ cs, usable d) (hj : cs[j]? = some c)
    (ho : o + bytes.length ≤ size) (hlink : ∀ d, usable d → s'.link d = s.link d)
    (hbytes : ∀ i < size, some (s'.data c i) = if o ≤ i ∧
      i < o + bytes.length then bytes[i - o]? else some (s.data c i))
    (hdata : ∀ d, usable d → d ≠ c → ∀ i < size, s'.data d i = s.data d i) :
    Wrote size isEnd usable zero s s' cs cs (j * size + o) bytes := by
  have hlt := (List.getElem?_eq_some_iff.mp hj).1
  have hblock := Nat.mul_le_mul_right size (Nat.succ_le_of_lt hlt)
  rw [Nat.succ_mul] at hblock
  refine ⟨⟨[], (List.append_nil cs).symm, fun d hd => by cases hd⟩,
    hlinked.congr fun d hd => hlink d (hcs d hd), hnodup, Or.inr (by omega), ?_, ?_⟩
  · intro p hp
    rw [if_pos hp]
    have hsplit := Nat.div_add_mod p size
    rw [Nat.mul_comm] at hsplit
    have hmod := Nat.mod_lt p hsize
    by_cases hindex : p / size = j
    · rw [hindex] at hsplit
      simp only [byteAt, hindex, hj, Option.map_some, hbytes _ hmod]
      by_cases hin : o ≤ p % size ∧ p % size < o + bytes.length
      · rw [if_pos hin, if_pos (by omega)]
        congr 1
        omega
      · rw [if_neg hin, if_neg (by omega)]
    · have hout : ¬ (j * size + o ≤ p ∧ p < j * size + o + bytes.length) := by
        intro hin
        apply hindex
        apply Nat.le_antisymm
        · apply Nat.le_of_lt_succ
          apply (Nat.div_lt_iff_lt_mul hsize).mpr
          rw [Nat.succ_mul]
          omega
        · apply (Nat.le_div_iff_mul_le hsize).mpr
          omega
      rw [if_neg hout]
      unfold byteAt
      cases hd : cs[p / size]? with
      | none => rfl
      | some d =>
        have hne : d ≠ c := by
          intro heq
          subst heq
          exact hindex
            ((List.getElem?_inj (List.getElem?_eq_some_iff.mp hd).1 hnodup).mp (hd.trans hj.symm))
        simp only [Option.map_some, hdata d (hcs d (List.mem_of_getElem? hd)) hne _ hmod]
  · intro d hd hout
    have hne : d ≠ c := fun heq => hout (heq ▸ List.mem_of_getElem? hj)
    exact ⟨hlink d hd, hdata d hd hne⟩

end Wrote

/-- The blocks of a loop that follows the table and ends at the first block it does not visit. -/
inductive Walk (visits : Nat → Prop) (link : Nat → Nat) : Nat → List Nat → Prop where
  | stop {curr : Nat} (h : ¬ visits curr) : Walk visits link curr []
  | step {curr : Nat} {cs : List Nat} (h : visits curr) (next : Walk visits link (link curr) cs) :
      Walk visits link curr (curr :: cs)

namespace Walk

variable {visits : Nat → Prop} {link : Nat → Nat} {curr : Nat} {cs : List Nat}
  (h : Walk visits link curr cs)
include h

theorem unique {cs'} (h' : Walk visits link curr cs') : cs' = cs := by
  induction h generalizing cs' with
  | stop hstop =>
    cases h' with
    | stop _ => rfl
    | step hcurr _ => exact absurd hcurr hstop
  | step hcurr _ ih =>
    cases h' with
    | stop hstop => exact absurd hcurr hstop
    | step _ next' => rw [ih next']

theorem suffix {c : Nat} (hc : c ∈ cs) :
    ∃ rest, Walk visits link c (c :: rest) ∧ rest.length < cs.length := by
  induction h with
  | stop _ => cases hc
  | @step curr cs hcurr next ih =>
    rcases List.mem_cons.mp hc with rfl | hc
    · exact ⟨cs, step hcurr next, Nat.lt_succ_self _⟩
    · obtain ⟨rest, hwalk, hlen⟩ := ih hc
      exact ⟨rest, hwalk, Nat.lt_succ_of_lt hlen⟩

theorem nodup : cs.Nodup := by
  induction h with
  | stop _ => exact List.nodup_nil
  | @step curr cs hcurr next ih =>
    refine List.nodup_cons.mpr ⟨?_, ih⟩
    intro hmem
    obtain ⟨rest, hwalk, hlen⟩ := next.suffix hmem
    have heq := (step hcurr next).unique hwalk
    rw [(List.cons.inj heq).2] at hlen
    exact Nat.lt_irrefl _ hlen

theorem congr {link' : Nat → Nat} (hlink : ∀ c ∈ cs, link' c = link c) :
    Walk visits link' curr cs := by
  induction h with
  | stop hstop => exact stop hstop
  | @step curr cs hcurr next ih =>
    refine step hcurr ?_
    rw [hlink curr List.mem_cons_self]
    exact ih fun c hc => hlink c (List.mem_cons_of_mem _ hc)

theorem visited : ∀ c ∈ cs, visits c := by
  induction h with
  | stop _ =>
    intro c hc
    cases hc
  | step hcurr _ ih => exact List.forall_mem_cons.mpr ⟨hcurr, ih⟩

end Walk

theorem Linked.walk {visits isEnd : Nat → Prop} {link : Nat → Nat} {c : Nat} {cs : List Nat}
    (h : Linked isEnd link (c :: cs)) (hend : ∀ v, isEnd v → ¬ visits v)
    (hcs : ∀ e ∈ c :: cs, visits e) : Walk visits link c (c :: cs) := by
  induction cs generalizing c with
  | nil => exact .step (hcs c List.mem_cons_self) (.stop (hend _ (h.last c rfl)))
  | cons e cs ih =>
    refine .step (hcs c List.mem_cons_self) ?_
    rw [h.next 0 c e rfl rfl]
    apply ih
    · exact ⟨fun i => h.next (i + 1),
        fun a ha => h.last a (by rw [List.getLast?_cons_cons]; exact ha)⟩
    · exact fun a ha => hcs a (List.mem_cons_of_mem _ ha)

end LlamaOS.BlockChain
