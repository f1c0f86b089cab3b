import LlamaOS.Boot.Multiboot2

/-!
# The firmware's memory map and what the parser keeps of it

`firmwareMap` reads the memory-map tag as the format defines it, without limits.
The parser stores the accepted entries among them, in order, until its table is
full.
-/

namespace LlamaOS.Boot

structure Tag where
  curr : Nat
  type : Nat
  size : Nat

section Format
variable (mem : Memory)

/-- The tags from `curr` on, up to the terminator or the first malformed one. -/
def tagsFrom (endAddr : Nat) : Nat → Nat → List Tag
  | 0, _ => []
  | left + 1, curr =>
    match readU32 mem curr, readU32 mem (curr + 4) with
    | some type, some size =>
      if type = 0 ∨ size < 8 ∨ endAddr < curr + size then []
      else ⟨curr, type, size⟩ :: tagsFrom endAddr left (curr + alignedTagSize size)
    | _, _ => []

def entriesFrom (entrySize : Nat) : Nat → Nat → List MemoryMapEntry
  | 0, _ => []
  | count + 1, p => (readEntry mem p).toList ++ entriesFrom entrySize count (p + entrySize)

/-- All complete entries of a memory-map tag. -/
def tagEntries (t : Tag) : List MemoryMapEntry :=
  match readU32 mem (t.curr + 8) with
  | some entrySize => entriesFrom mem entrySize ((t.size - 16) / entrySize) (t.curr + 16)
  | none => []

def mmapTag (endAddr left curr : Nat) : Option Tag :=
  (tagsFrom mem endAddr left curr).find? fun t => t.type == 6

def firmwareMap (infoAddr : Nat) : List MemoryMapEntry :=
  match readU32 mem infoAddr with
  | some totalSize =>
    match mmapTag mem (infoAddr + totalSize) totalSize (infoAddr + 8) with
    | some t => tagEntries mem t
    | none => []
  | none => []

end Format

/-- The entries that fit the boot table. -/
def kept (l : List MemoryMapEntry) : List MemoryMapEntry :=
  (l.filter (·.Accepted)).take maxMemoryRegions

variable {α : Type}

theorem take_take_append (n : Nat) (l m : List α) : (l.take n ++ m).take n = (l ++ m).take n := by
  rw [List.take_append, List.take_append, List.take_take, Nat.min_self, List.length_take]
  congr 2
  omega

theorem storeEntry_mmapEntries (info : BootInformation) (e : MemoryMapEntry) :
    (storeEntry info e).mmapEntries = (info.mmapEntries ++ [e]).take maxMemoryRegions := by
  have hcap := info.capacity
  unfold storeEntry
  split
  · rename_i hlt
    rw [List.take_of_length_le (by simpa using Nat.succ_le_of_lt hlt)]
  · rename_i hlt
    rw [List.take_append_of_le_length (by omega), List.take_of_length_le hcap]

theorem addEntry_mmapEntries (info : BootInformation) (e : MemoryMapEntry) :
    (addEntry info e).mmapEntries = (info.mmapEntries ++ [e].filter (·.Accepted)).take
      maxMemoryRegions := by
  have hcap := info.capacity
  unfold addEntry
  split
  · rename_i hacc
    have hsame : ∀ info' : BootInformation, (countUsable info' e).mmapEntries =
        info'.mmapEntries := by
      intro info'
      unfold countUsable
      split
      · split <;> rfl
      · rfl
    simp [storeEntry_mmapEntries, hsame, hacc]
  · rename_i hacc
    simp [hacc, List.take_of_length_le hcap]

theorem addEntries_mmapEntries (l : List MemoryMapEntry) (info : BootInformation) :
    (l.foldl addEntry info).mmapEntries = (info.mmapEntries ++ l.filter (·.Accepted)).take
      maxMemoryRegions := by
  induction l generalizing info with
  | nil => simp [List.take_of_length_le info.capacity]
  | cons e l ih =>
    rw [List.foldl_cons, ih, addEntry_mmapEntries, take_take_append, List.append_assoc,
      ← List.filter_append, List.singleton_append]

variable {mem : Memory} {info : BootInformation}

theorem entryLoop_eq {entrySize entriesEnd : Nat} (hsize : 0 < entrySize)
    (hend : entriesEnd ≤ uint64Max) (left p : Nat) {info' : BootInformation}
    (hleft : (entriesEnd - p) / entrySize ≤ left)
    (h : entryLoop mem entrySize entriesEnd left p info = some info') :
    info' = (entriesFrom mem entrySize ((entriesEnd - p) / entrySize) p).foldl addEntry info := by
  induction left generalizing p info with
  | zero =>
    rw [Nat.le_zero.mp hleft]
    simpa [entryLoop, entriesFrom] using h.symm
  | succ left ih =>
    simp only [entryLoop] at h
    split at h
    · rename_i hroom
      have hdiv :
          (entriesEnd - p) / entrySize = (entriesEnd - (p + entrySize)) / entrySize + 1 := by
        rw [Nat.div_eq_sub_div hsize hroom.2, Nat.sub_sub]
      simp only [Option.bind_eq_bind, Option.bind_eq_some_iff] at h
      obtain ⟨e, he, h⟩ := h
      rw [if_neg (by omega)] at h
      rw [hdiv, entriesFrom, he]
      exact ih (p + entrySize) (by omega) h
    · rename_i hroom
      have hzero : (entriesEnd - p) / entrySize = 0 := Nat.div_eq_of_lt (by omega)
      rw [hzero]
      simpa [entriesFrom] using h.symm

variable {curr size : Nat} {st : ParseState}

theorem handleMmap_seen (hseen : st.seenMmap = true) : handleMmap mem curr size st = some st := by
  simp [handleMmap, hseen]

variable {st' : ParseState}

theorem handleMmap_unseen (type : Nat) (hend : curr + size ≤ uint64Max)
    (hseen : st.seenMmap = false) (h : handleMmap mem curr size st = some st') :
    st'.seenMmap = true ∧ (st'.info.mmapEntries = st.info.mmapEntries ∨
      st'.info.mmapEntries = (st.info.mmapEntries ++
        (tagEntries mem ⟨curr, type, size⟩).filter (·.Accepted)).take maxMemoryRegions) := by
  simp only [handleMmap, hseen, Bool.false_eq_true, if_false, Option.pure_def, Option.bind_eq_bind]
    at h
  split at h
  · rename_i hsize
    simp only [Option.bind_eq_some_iff] at h
    obtain ⟨entrySize, hes, version, _, h⟩ := h
    split at h
    · rename_i hok
      simp only [Option.bind_eq_some_iff] at h
      obtain ⟨info, hloop, h⟩ := h
      obtain rfl := Option.some.inj h
      have hcount : (curr + size - (curr + 16)) / entrySize = (size - 16) / entrySize := by
        congr 1
        omega
      have hleft : (curr + size - (curr + 16)) / entrySize ≤ size :=
        Nat.le_trans (Nat.div_le_self _ _) (by omega)
      have hinfo := entryLoop_eq (by omega) hend size (curr + 16) hleft hloop
      refine ⟨rfl, Or.inr ?_⟩
      rw [hinfo, addEntries_mmapEntries, hcount]
      simp only [tagEntries, hes]
    · obtain rfl := Option.some.inj h
      exact ⟨rfl, Or.inl rfl⟩
  · obtain rfl := Option.some.inj h
    exact ⟨rfl, Or.inl rfl⟩

/-- Whatever the computation returns satisfies `Q`. -/
def Yields {α : Type} (Q : α → Prop) (m : Option α) : Prop := ∀ a, m = some a → Q a

theorem Yields.pure {Q : α → Prop} {a : α} (h : Q a) : Yields Q (pure a) := by
  intro b hb
  obtain rfl := Option.some.inj hb
  exact h

theorem Yields.bind {β : Type} {Q : β → Prop} {m : Option α} {f : α → Option β}
    (h : ∀ a, Yields Q (f a)) : Yields Q (m >>= f) := by
  intro b hb
  obtain ⟨a, _, ha⟩ := Option.bind_eq_some_iff.mp hb
  exact h a b ha

theorem Yields.ite {Q : α → Prop} {c : Prop} [Decidable c] {m n : Option α} (hm : Yields Q m)
    (hn : Yields Q n) : Yields Q (if c then m else n) := by
  split
  · exact hm
  · exact hn

/-- Everything but the memory map may have changed. -/
structure SameMap (st st' : ParseState) : Prop where
  seen : st'.seenMmap = st.seenMmap
  entries : st'.info.mmapEntries = st.info.mmapEntries

theorem handleTag_sameMap (mem : Memory) {type : TagType} (htype : type ≠ .mmap) (curr size : Nat)
    (st : ParseState) : Yields (SameMap st) (handleTag mem type curr size st) := by
  cases type
  case mmap => exact absurd rfl htype
  case endTag => exact Yields.pure ⟨rfl, rfl⟩
  case other => exact Yields.pure ⟨rfl, rfl⟩
  all_goals
    simp only [handleTag, handleCmdline, handleBootLoaderName, handleBasicMemInfo,
      handleFramebuffer, handleAcpiOld, handleAcpiNew, handleEfi64]
    repeat' first
      | exact SameMap.mk rfl rfl
      | with_reducible apply Yields.pure
      | with_reducible apply Yields.ite
      | (with_reducible apply Yields.bind; intro _)
      | split

theorem ofCode_endTag_iff (type : Nat) : TagType.ofCode type = .endTag ↔ type = 0 := by
  unfold TagType.ofCode
  split <;> simp_all

theorem ofCode_mmap_iff (type : Nat) : TagType.ofCode type = .mmap ↔ type = 6 := by
  unfold TagType.ofCode
  split <;> simp_all

section Loop
variable {mem : Memory} {endAddr : Nat}

theorem tagLoop_succ {left : Nat} (hlen : endAddr - curr < 2 ^ 32)
    (h : tagLoop mem endAddr (left + 1) curr st = some (true, st')) :
    ∃ type size, readU32 mem curr = some type ∧ readU32 mem (curr + 4) = some size ∧
      ((type = 0 ∧ size = 8 ∧ curr + 8 ≤ endAddr ∧ st' = st) ∨
        (type ≠ 0 ∧ 8 ≤ size ∧ curr + size ≤ endAddr ∧ size ≤ uint32Max - 7 ∧
          ∃ st₁, handleTag mem (TagType.ofCode type) curr size st = some st₁ ∧
            tagLoop mem endAddr left (curr + alignedTagSize size) st₁ = some (true, st'))) := by
  simp only [tagLoop, Option.pure_def, Option.bind_eq_bind] at h
  split at h
  · rename_i hlt
    split at h
    · simp at h
    simp only [Option.bind_eq_some_iff] at h
    obtain ⟨type, htype, size, hsize, h⟩ := h
    refine ⟨type, size, htype, hsize, ?_⟩
    split at h
    · rename_i hz
      simp only [Option.some.injEq, Prod.mk.injEq, Bool.and_eq_true, beq_iff_eq, decide_eq_true_eq]
        at h
      exact Or.inl ⟨(ofCode_endTag_iff type).mp hz, h.1.1, by omega, h.2.symm⟩
    rename_i hz
    split at h
    · simp at h
    rename_i hok
    simp only [Option.bind_eq_some_iff] at h
    obtain ⟨st₁, hst₁, h⟩ := h
    split at h
    · simp at h
    split at h
    · simp at h
    · exact Or.inr
        ⟨fun h0 => hz ((ofCode_endTag_iff type).mpr h0), by omega, by omega, by omega, st₁, hst₁, h⟩
  · simp at h

theorem tagLoop_seen (left : Nat) (hlen : endAddr - curr < 2 ^ 32) (hseen : st.seenMmap = true)
    (h : tagLoop mem endAddr left curr st = some (true, st')) :
    st'.info.mmapEntries = st.info.mmapEntries := by
  induction left generalizing curr st with
  | zero => simp [tagLoop] at h
  | succ left ih =>
    obtain ⟨type, size, _, _, ⟨_, _, _, rfl⟩ | ⟨_, _, _, _, st₁, hst₁, hrest⟩⟩ :=
      tagLoop_succ hlen h
    · rfl
    · by_cases hmmap : TagType.ofCode type = .mmap
      · rw [hmmap, handleTag, handleMmap_seen hseen] at hst₁
        obtain rfl := Option.some.inj hst₁
        exact ih (by omega) hseen hrest
      · have hsame := handleTag_sameMap mem hmmap curr size st st₁ hst₁
        rw [ih (by omega) (hsame.seen.trans hseen) hrest, hsame.entries]

theorem tagLoop_unseen (hend : endAddr ≤ uint64Max) (left : Nat) (hlen : endAddr - curr < 2 ^ 32)
    (hseen : st.seenMmap = false) (h : tagLoop mem endAddr left curr st = some (true, st')) :
    st'.info.mmapEntries = st.info.mmapEntries ∨
      ∃ t, mmapTag mem endAddr left curr = some t ∧ st'.info.mmapEntries =
        (st.info.mmapEntries ++ (tagEntries mem t).filter (·.Accepted)).take maxMemoryRegions := by
  induction left generalizing curr st with
  | zero => simp [tagLoop] at h
  | succ left ih =>
    obtain ⟨type, size, htype, hsize, ⟨_, _, _, rfl⟩ | ⟨hne, hlow, hhigh, _, st₁, hst₁, hrest⟩⟩ :=
      tagLoop_succ hlen h
    · exact Or.inl rfl
    · have hok : ¬ (type = 0 ∨ size < 8 ∨ endAddr < curr + size) := by omega
      have htags : tagsFrom mem endAddr (left + 1) curr =
          ⟨curr, type, size⟩ :: tagsFrom mem endAddr left (curr + alignedTagSize size) := by
        simp only [tagsFrom, htype, hsize, if_neg hok]
      by_cases hmmap : TagType.ofCode type = .mmap
      · rw [hmmap, handleTag] at hst₁
        obtain ⟨hseen₁, hentries⟩ := handleMmap_unseen type (by omega) hseen hst₁
        rw [tagLoop_seen left (by omega) hseen₁ hrest]
        refine hentries.imp id fun hkept => ⟨⟨curr, type, size⟩, ?_, hkept⟩
        rw [mmapTag, htags, List.find?_cons_of_pos (by simp [(ofCode_mmap_iff type).mp hmmap])]
      have hsame := handleTag_sameMap mem hmmap curr size st st₁ hst₁
      have hskip : mmapTag mem endAddr (left + 1) curr = mmapTag mem endAddr left
          (curr + alignedTagSize size) := by
        rw [mmapTag, htags, List.find?_cons_of_neg (by
          simpa using fun h6 => hmmap ((ofCode_mmap_iff type).mpr h6))]
        rfl
      rw [hskip, ← hsame.entries]
      exact ih (by omega) (hsame.seen.trans hseen) hrest

end Loop

/-- A valid parse stores what fits of the firmware's map, or nothing at all when it does not
know the tag's layout. -/
theorem parse_mmapEntries {magic infoAddr : Nat} (h : parse mem magic infoAddr = some info)
    (hvalid : info.valid = true) :
    info.mmapEntries = [] ∨ info.mmapEntries = kept (firmwareMap mem infoAddr) := by
  simp only [parse, Option.pure_def, Option.bind_eq_bind] at h
  split at h
  · obtain rfl := Option.some.inj h
    exact Or.inl rfl
  split at h
  · obtain rfl := Option.some.inj h
    exact Or.inl rfl
  simp only [Option.bind_eq_some_iff] at h
  obtain ⟨totalSize, htotal, h⟩ := h
  split at h
  · obtain rfl := Option.some.inj h
    exact Or.inl rfl
  rename_i hrange
  split at h
  · obtain rfl := Option.some.inj h
    exact Or.inl rfl
  rename_i hfit
  simp only [Option.bind_eq_some_iff] at h
  obtain ⟨⟨found, st⟩, hloop, h⟩ := h
  obtain rfl := Option.some.inj h
  subst hvalid
  simp only [maxReasonableInfoSize] at hrange
  have hcases := tagLoop_unseen (by omega) totalSize (by omega) rfl hloop
  refine hcases.imp id ?_
  rintro ⟨t, ht, hentries⟩
  simp only [firmwareMap, htotal, ht, kept]
  exact hentries

end LlamaOS.Boot
