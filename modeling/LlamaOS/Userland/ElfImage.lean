import LlamaOS.Userland.ElfLoader

/-!
# What an accepted file asks for

Validation never reads outside the file, and an accepted file has a program header
table whose loadable segments lie inside the file and inside the user half. The loops
of `load` then go through one list of pages: those of the segments in order, then the
stack.
-/

namespace LlamaOS.Userland
open Memory MonadicFold

variable {file : List (BitVec 8)}

theorem fileByte_ok {i : Nat} (h : i < file.length) : fileByte file i = .ok (file.getD i 0) := by
  simp [fileByte, h]

theorem readLe_ok {offset width : Nat} (h : offset + width ≤ file.length) :
    Completes (readLe file offset width) (· < 256 ^ width) := by
  induction width generalizing offset with
  | zero => exact .pure (by decide)
  | succ width ih =>
    have hlow : Completes (fileByte file offset) fun _ => True :=
      ⟨_, fileByte_ok (by omega), trivial⟩
    rw [readLe]
    apply hlow.bind
    intro low _
    apply (ih (by omega)).bind
    intro high hhigh
    apply Completes.pure
    omega

theorem readHeader_ok (h : elfHeaderSize ≤ file.length) :
    Completes (readHeader file) fun header => header.phoff < 2 ^ 64 ∧ header.phnum < 2 ^ 16 := by
  have hread : ∀ {offset width : Nat}, offset + width ≤ 64 →
      Completes (readLe file offset width) (· < 256 ^ width) :=
    fun hin => readLe_ok (Nat.le_trans hin h)
  unfold readHeader
  apply (Completes.mapM fun i hi => hread (by have := List.mem_range.mp hi; omega)).bind
  intro ident _
  apply (hread (by decide)).bind
  intro type _
  apply (hread (by decide)).bind
  intro machine _
  apply (hread (by decide)).bind
  intro version _
  apply (hread (by decide)).bind
  intro entry _
  apply (hread (by decide)).bind
  intro phoff hphoff
  apply (hread (by decide)).bind
  intro ehsize _
  apply (hread (by decide)).bind
  intro phentsize _
  apply (hread (by decide)).bind
  intro phnum hphnum
  exact .pure ⟨hphoff, hphnum⟩

/-- The 64-bit fields of a program header. -/
structure Elf64ProgramHeader.InRange (ph : Elf64ProgramHeader) : Prop where
  offset : ph.offset < 2 ^ 64
  vaddr : ph.vaddr < 2 ^ 64
  filesz : ph.filesz < 2 ^ 64
  memsz : ph.memsz < 2 ^ 64

theorem readProgramHeader_ok {header : Elf64Header} {i : Nat}
    (h : header.phoff + (i + 1) * programHeaderSize ≤ file.length) :
    Completes (readProgramHeader file header i) Elf64ProgramHeader.InRange := by
  have hread : ∀ {offset width : Nat}, offset + width ≤ 56 →
      Completes (readLe file (header.phoff + i * programHeaderSize + offset) width)
        (· < 256 ^ width) := by
    intro offset width hin
    apply readLe_ok
    simp only [programHeaderSize] at h ⊢
    omega
  unfold readProgramHeader
  apply (@hread 0 4 (by decide)).bind
  intro type _
  apply (hread (by decide)).bind
  intro flags _
  apply (hread (by decide)).bind
  intro offset hoffset
  apply (hread (by decide)).bind
  intro vaddr hvaddr
  apply (hread (by decide)).bind
  intro filesz hfilesz
  apply (hread (by decide)).bind
  intro memsz hmemsz
  exact .pure ⟨hoffset, hvaddr, hfilesz, hmemsz⟩

def segmentAt (file : List (BitVec 8)) (header : Elf64Header) (i : Nat) :
    Option Elf64ProgramHeader :=
  match readProgramHeader file header i with
  | .ok ph => if ph.type = ptLoad then some ph else none
  | .error _ => none

/-- The loadable segments in the order of the program header table. -/
def segments (file : List (BitVec 8)) : List Elf64ProgramHeader :=
  match readHeader file with
  | .ok header => (List.range header.phnum).filterMap (segmentAt file header)
  | .error _ => []

def entryPoint (file : List (BitVec 8)) : Nat :=
  match readHeader file with
  | .ok header => header.entry
  | .error _ => 0

/-- What `validate_segments` establishes for a loadable segment. -/
structure ValidSegment (file : List (BitVec 8)) (ph : Elf64ProgramHeader) : Prop where
  inFile : ph.offset + ph.filesz ≤ file.length
  offsetLt : ph.offset + ph.filesz < 2 ^ 64
  sizes : ph.filesz ≤ ph.memsz
  above : 0x1000 ≤ ph.vaddr
  below : ph.vaddr + ph.memsz ≤ 2 ^ 47

theorem validSegment_of_check {ph : Elf64ProgramHeader} (hph : ph.InRange)
    (h : checkSegment ph file.length = .success) : ValidSegment file ph := by
  obtain ⟨h₁, h₂, h₃, h₄⟩ := hph
  unfold checkSegment at h
  dsimp only at h
  split at h
  · cases h
  rename_i hfile
  split at h
  · cases h
  split at h
  · cases h
  rename_i hmem
  split at h
  · cases h
  rename_i hrange
  simp only [add64] at hfile hmem hrange
  exact ⟨by omega, by omega, by omega, by omega, by omega⟩

section Scan
variable {header : Elf64Header}

theorem scanSegments_total {l : List Nat}
    (hread : ∀ i ∈ l, Completes (readProgramHeader file header i) Elf64ProgramHeader.InRange)
    (loadCount : Nat) (entryFound : Bool) :
    Completes (scanSegments file header l loadCount entryFound) fun _ => True := by
  induction l generalizing loadCount entryFound with
  | nil =>
    unfold scanSegments
    split
    · exact .pure trivial
    split
    · exact .pure trivial
    · exact .pure trivial
  | cons i l ih =>
    have hrest := ih fun j hj => hread j (List.mem_cons_of_mem _ hj)
    rw [scanSegments]
    apply (hread i List.mem_cons_self).bind
    intro ph _
    split
    · exact hrest _ _
    dsimp only
    split
    · exact .pure trivial
    · exact hrest _ _

theorem segmentAt_of_ok {i : Nat} {ph : Elf64ProgramHeader}
    (h : readProgramHeader file header i = .ok ph) :
    segmentAt file header i = if ph.type = ptLoad then some ph else none := by
  rw [segmentAt, h]

theorem scanSegments_success {l : List Nat}
    (hread : ∀ i ∈ l, Completes (readProgramHeader file header i) Elf64ProgramHeader.InRange)
    {loadCount : Nat} {entryFound : Bool}
    (h : scanSegments file header l loadCount entryFound = .ok .success) :
    (∀ ph ∈ l.filterMap (segmentAt file header), ValidSegment file ph) ∧
      (entryFound = true ∨ ∃ ph ∈ l.filterMap (segmentAt file header),
        entersAt ph header.entry = true) := by
  induction l generalizing loadCount entryFound with
  | nil =>
    unfold scanSegments at h
    split at h
    · cases h
    split at h
    · cases h
    · rename_i hfound
      rw [Bool.not_eq_true, Bool.not_eq_false'] at hfound
      exact ⟨fun ph hph => absurd hph List.not_mem_nil, Or.inl hfound⟩
  | cons i l ih =>
    have hrest := fun j hj => hread j (List.mem_cons_of_mem i hj)
    obtain ⟨ph, hph, hrange⟩ := hread i List.mem_cons_self
    have hat := segmentAt_of_ok hph
    rw [scanSegments, hph] at h
    change (if _ then _ else _) = _ at h
    split at h
    · rename_i htype
      rw [if_neg htype] at hat
      rw [List.filterMap_cons_none hat]
      exact ih hrest h
    rename_i htype
    rw [if_pos (Decidable.not_not.mp htype)] at hat
    rw [List.filterMap_cons_some hat]
    split at h
    · rename_i hbad
      exact absurd (Except.ok.inj h) hbad
    rename_i hok
    obtain ⟨hvalid, hentry⟩ := ih hrest h
    constructor
    · exact List.forall_mem_cons.mpr
        ⟨validSegment_of_check hrange (Decidable.not_not.mp hok), hvalid⟩
    · rcases hentry with hentry | ⟨ph', hph', hentry⟩
      · rw [Bool.or_eq_true] at hentry
        rcases hentry with hentry | hentry
        · exact Or.inl hentry
        · exact Or.inr ⟨ph, List.mem_cons_self, hentry⟩
      · exact Or.inr ⟨ph', List.mem_cons_of_mem _ hph', hentry⟩

end Scan

theorem table_of_checkHeader {header : Elf64Header} {fileSize : Nat} (hoff : header.phoff < 2 ^ 64)
    (hnum : header.phnum < 2 ^ 16) (h : checkHeader header fileSize = .success) :
    header.phoff + header.phnum * programHeaderSize ≤ fileSize := by
  unfold checkHeader at h
  iterate 9
    split at h
    · cases h
  dsimp only [add64, programHeaderSize] at h ⊢
  split at h
  · cases h
  · omega

/-- A file whose header passes has a readable table; no other file is read beyond its header. -/
theorem validateHeader_cases (file : List (BitVec 8)) :
    (∃ status, validateHeader file = .ok status ∧ status ≠ .success) ∨
      ∃ header, validateHeader file = .ok .success ∧ readHeader file = .ok header ∧
        ∀ i ∈ List.range header.phnum,
          Completes (readProgramHeader file header i) Elf64ProgramHeader.InRange := by
  unfold validateHeader
  by_cases hsize : file.length < elfHeaderSize
  · rw [if_pos hsize]
    exact Or.inl ⟨_, rfl, by decide⟩
  obtain ⟨header, hread, hoff, hnum⟩ := readHeader_ok (Nat.le_of_not_lt hsize)
  rw [if_neg hsize, hread]
  by_cases hcheck : checkHeader header file.length = .success
  · have htable := table_of_checkHeader hoff hnum hcheck
    refine Or.inr ⟨header, congrArg Except.ok hcheck, rfl, ?_⟩
    intro i hi
    apply readProgramHeader_ok
    have hlt := List.mem_range.mp hi
    simp only [programHeaderSize] at htable ⊢
    omega
  · exact Or.inl ⟨_, rfl, hcheck⟩

theorem validateSegments_total (file : List (BitVec 8)) :
    Completes (validateSegments file) fun _ => True := by
  unfold validateSegments
  rcases validateHeader_cases file with ⟨status, hstatus, hne⟩ | ⟨header, hstatus, hread, hheaders⟩
  · rw [hstatus]
    change Completes (if _ then _ else _) _
    rw [if_pos hne]
    exact .pure trivial
  · rw [hstatus, hread]
    exact scanSegments_total hheaders 0 false

/-- A file that `validate_segments` accepts. -/
def Accepted (file : List (BitVec 8)) : Prop := validateSegments file = .ok .success

theorem Accepted.header (h : Accepted file) :
    ∃ header, readHeader file = .ok header ∧
      (∀ i ∈ List.range header.phnum,
        Completes (readProgramHeader file header i) Elf64ProgramHeader.InRange) ∧
      scanSegments file header (List.range header.phnum) 0 false = .ok .success := by
  unfold Accepted validateSegments at h
  rcases validateHeader_cases file with ⟨status, hstatus, hne⟩ | ⟨header, hstatus, hread, hheaders⟩
  · rw [hstatus] at h
    change (if _ then _ else _) = _ at h
    rw [if_pos hne] at h
    exact absurd (Except.ok.inj h) hne
  · rw [hstatus, hread] at h
    exact ⟨header, hread, hheaders, h⟩

theorem Accepted.valid (h : Accepted file) : ∀ ph ∈ segments file, ValidSegment file ph := by
  obtain ⟨header, hread, hheaders, hscan⟩ := h.header
  rw [segments, hread]
  exact (scanSegments_success hheaders hscan).1

theorem Accepted.entry (h : Accepted file) :
    ∃ ph ∈ segments file, entersAt ph (entryPoint file) = true := by
  obtain ⟨header, hread, hheaders, hscan⟩ := h.header
  rw [segments, entryPoint, hread]
  rcases (scanSegments_success hheaders hscan).2 with hno | hentry
  · cases hno
  · exact hentry

structure PlannedPage where
  va : Nat
  flags : PageFlags
  segment : Option Elf64ProgramHeader

def segmentPlan (ph : Elf64ProgramHeader) : List PlannedPage :=
  (segmentPages ph).map fun va => ⟨va, segmentFlags ph, some ph⟩

def stackPlan : List PlannedPage :=
  (List.range userStackPages).map fun p => ⟨userStackBottomVa + p * pageSize, stackFlags, none⟩

def plan (file : List (BitVec 8)) : List PlannedPage :=
  (segments file).flatMap segmentPlan ++ stackPlan

def fillPage (file : List (BitVec 8)) (pg : PlannedPage) (pa : Nat) (m : Machine) :
    Except Stop Machine :=
  match pg.segment with
  | some ph => copyPayload file ph pg.va pa m
  | none => .ok m

def placePage (file : List (BitVec 8)) (root : Nat) (acc : Nat × Machine) (pg : PlannedPage) :
    Except Stop (Nat × Machine) := do
  let (pa, m) ← mapFreshPage root pg.va pg.flags acc.2
  let m ← fillPage file pg pa m
  return (acc.1 + 1, m)

theorem loadSegment_eq (file : List (BitVec 8)) (root : Nat) (ph : Elf64ProgramHeader)
    (acc : Nat × Machine) :
    loadSegment file root ph acc = (segmentPlan ph).foldlM (placePage file root) acc := by
  rw [loadSegment, segmentPlan, List.foldlM_map]
  rfl

theorem loadSegments_eq {header : Elf64Header} {l : List Nat}
    (hread : ∀ i ∈ l, Completes (readProgramHeader file header i) Elf64ProgramHeader.InRange)
    (root : Nat) (acc : Nat × Machine) : l.foldlM (fun acc i => do
        let ph ← reading (readProgramHeader file header i)
        if ph.type ≠ ptLoad then return acc
        loadSegment file root ph acc) acc =
      ((l.filterMap (segmentAt file header)).flatMap segmentPlan).foldlM
        (placePage file root) acc := by
  induction l generalizing acc with
  | nil => rfl
  | cons i l ih =>
    obtain ⟨ph, hph, _⟩ := hread i List.mem_cons_self
    have hrest := ih fun j hj => hread j (List.mem_cons_of_mem i hj)
    have hat := segmentAt_of_ok hph
    rw [List.foldlM_cons, hph]
    by_cases htype : ph.type = ptLoad
    · rw [if_pos htype] at hat
      rw [List.filterMap_cons_some hat, List.flatMap_cons, List.foldlM_append, ← loadSegment_eq]
      have hbody : (do
          let ph ← reading (.ok ph)
          if ph.type ≠ ptLoad then return acc
          loadSegment file root ph acc) = loadSegment file root ph acc := by
        change (if _ then _ else _) = _
        rw [if_neg (Decidable.not_not.mpr htype)]
      rw [hbody]
      exact congrArg _ (funext hrest)
    · rw [if_neg htype] at hat
      rw [List.filterMap_cons_none hat, ← hrest acc]
      change (if _ then _ else _) >>= _ = _
      rw [if_pos htype]
      rfl

theorem loadImage_eq (h : Accepted file) (root : Nat) (m : Machine) :
    loadImage file root m = do
      let (total, m) ← (plan file).foldlM (placePage file root) (0, m)
      return (⟨.success, entryPoint file, userStackTopVa, total⟩, m) := by
  obtain ⟨header, hread, hheaders, _⟩ := h.header
  rw [loadImage, plan, segments, entryPoint, hread, List.foldlM_append,
    bind_assoc, ← loadSegments_eq hheaders root]
  rfl

end LlamaOS.Userland
