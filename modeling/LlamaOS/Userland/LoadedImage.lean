import LlamaOS.Userland.Loading
import LlamaOS.Shared.ByteBuffer

/-!
# The loaded image

What a program finds in memory after a successful `load` into a fresh space: the bytes
of its segments, zeroes everywhere else, and the permissions of its headers. Nothing
keeps a segment from being writable and executable at once, or from lying on the guard
page below the stack.
-/

namespace LlamaOS.Userland
open Memory VirtualAddress VirtualMemoryManager ByteBuffer PageFlags

/-- A space with an empty user half, as `create_user_address_space` returns it. -/
structure FreshSpace (s : System) (root : Nat) : Prop where
  live : root ∈ s.spaces
  empty : ∀ i, ¬ Upper i → (s.ram root i).isPresent = false

variable {s : System} {root va : Nat}

theorem FreshSpace.walk_eq (h : FreshSpace s root) (hva : va < 2 ^ 47) :
    walk s.ram root va = none := by
  unfold walk
  dsimp only
  rw [h.empty _ (not_upper_of_lt hva)]
  rfl

variable {m : Machine}

theorem freshSpace_created (hs : s.Inv) (h : createUserAddressSpace s.machine = some (root, m))
    (hroot : root ≠ 0) :
    FreshSpace (s.withSpace root m) root := by
  rcases System.create_cases hs h with ⟨hzero, _⟩ | ⟨_, hc⟩
  · exact absurd hzero hroot
  refine ⟨Finset.mem_insert_self root s.spaces, ?_⟩
  intro i hi
  change (m.ram root i).isPresent = false
  rw [hc.lower i hi, PageTableEntry.isPresent_clear]

variable {file : List (BitVec 8)} {ph : Elf64ProgramHeader}

theorem mem_plan_segment (hph : ph ∈ segments file) (hva : va ∈ segmentPages ph) :
    ⟨va, segmentFlags ph, some ph⟩ ∈ plan file :=
  List.mem_append_left _ (List.mem_flatMap.mpr ⟨ph, hph, List.mem_map.mpr ⟨va, hva, rfl⟩⟩)

theorem mem_plan_stack (file : List (BitVec 8)) {p : Nat} (hp : p < userStackPages) :
    ⟨userStackBottomVa + p * pageSize, stackFlags, none⟩ ∈ plan file :=
  List.mem_append_right _ (List.mem_map.mpr ⟨p, List.mem_range.mpr hp, rfl⟩)

variable {pg : PlannedPage}

theorem plan_cases (h : pg ∈ plan file) :
    (∃ ph ∈ segments file, ∃ va ∈ segmentPages ph, pg = ⟨va, segmentFlags ph, some ph⟩) ∨
      ∃ p < userStackPages, pg = ⟨userStackBottomVa + p * pageSize, stackFlags, none⟩ := by
  rcases List.mem_append.mp h with h | h
  · obtain ⟨ph, hph, h⟩ := List.mem_flatMap.mp h
    obtain ⟨va, hva, rfl⟩ := List.mem_map.mp h
    exact Or.inl ⟨ph, hph, va, hva, rfl⟩
  · obtain ⟨p, hp, rfl⟩ := List.mem_map.mp h
    exact Or.inr ⟨p, List.mem_range.mp hp, rfl⟩

theorem segmentFlags_tests (ph : Elf64ProgramHeader) :
    testFlag (segmentFlags ph ||| present) user = true ∧
      testFlag (segmentFlags ph ||| present) writable =
        decide (ph.flags &&& pfW ≠ 0) ∧
      testFlag (segmentFlags ph ||| present) noExecute = decide (ph.flags &&& pfX = 0) := by
  unfold segmentFlags
  by_cases hw : ph.flags &&& pfW ≠ 0
  · by_cases hx : ph.flags &&& pfX = 0
    · simp only [if_pos hw, if_pos hx, decide_eq_true hw, decide_eq_true hx]
      decide
    · simp only [if_pos hw, if_neg hx, decide_eq_true hw, decide_eq_false hx]
      decide
  by_cases hx : ph.flags &&& pfX = 0
  · simp only [if_neg hw, if_pos hx, decide_eq_false hw, decide_eq_true hx]
    decide
  · simp only [if_neg hw, if_neg hx, decide_eq_false hw, decide_eq_false hx]
    decide

theorem stackFlags_tests :
    testFlag (stackFlags ||| present) user = true ∧ testFlag (stackFlags ||| present) noExecute =
      true := by
  decide

section Image
variable {file : List (BitVec 8)} {s : System} {root : Nat} {done : List PlannedPage} {m : Machine}

theorem Placed.page (h : Placed file s root done m) (hpg : pg ∈ done) (va : Nat)
    (hva : va / 4096 = pg.va / 4096) :
    ∃ a, walk m.ram root va = some (a, pg.flags ||| present) ∧
      m.byteAt a = pg.content file (va - pg.va) := by
  obtain ⟨a, _, _, hwalk, hbytes⟩ := h.pages pg hpg
  have hal := (h.valid pg hpg).aligned
  have hsplit : pg.va + (va - pg.va) = va := by omega
  refine ⟨a + (va - pg.va), ?_, hbytes _ (by omega)⟩
  have hw := hwalk (va - pg.va) (by omega)
  rwa [hsplit] at hw

theorem Placed.planned (h : Placed file s root done m) (hfresh : FreshSpace s root)
    (hva : va < 2 ^ 47) {target : Nat × PageFlags} (hw : walk m.ram root va = some target) :
    ∃ pg ∈ done, va / 4096 = pg.va / 4096 ∧ target.2 = pg.flags ||| present ∧
      m.byteAt target.1 = pg.content file (va - pg.va) := by
  by_cases hnone : ∀ pg ∈ done, va / 4096 ≠ pg.va / 4096
  · rw [h.others va (isCanonical_of_lt hva) hnone, hfresh.walk_eq hva] at hw
    cases hw
  obtain ⟨pg, hpg, hpage⟩ : ∃ pg ∈ done, va / 4096 = pg.va / 4096 := by simpa using hnone
  obtain ⟨a, hwalk, hbyte⟩ := h.page hpg va hpage
  cases hwalk.symm.trans hw
  exact ⟨pg, hpg, hpage, rfl, hbyte⟩

variable (haccepted : Accepted file) (h : Placed file s root (plan file) m)
include haccepted h

theorem Placed.segmentPage (hph : ph ∈ segments file) (hlo : ph.vaddr ≤ va)
    (hhi : va < ph.vaddr + ph.memsz) :
    ∃ a, walk m.ram root va = some (a, segmentFlags ph ||| present) ∧
      m.byteAt a = if va < ph.vaddr + ph.filesz then file.getD (ph.offset + (va - ph.vaddr)) 0
      else 0 := by
  have hpage : va / 4096 * 4096 ∈ segmentPages ph := by
    apply (mem_segmentPages (haccepted.valid ph hph)).mpr
    exact ⟨by omega, by omega, by omega⟩
  obtain ⟨a, hwalk, hbyte⟩ := h.page (mem_plan_segment hph hpage) va (by dsimp only; omega)
  refine ⟨a, hwalk, hbyte.trans ?_⟩
  simp only [PlannedPage.content]
  rw [show va / 4096 * 4096 + (va - va / 4096 * 4096) = va by omega]
  by_cases hin : va < ph.vaddr + ph.filesz
  · rw [if_pos hin, if_pos ⟨hlo, hin⟩]
  · rw [if_neg hin, if_neg fun hboth => hin hboth.2]

theorem Placed.segment_byte (hph : ph ∈ segments file) {i : Nat} (hi : i < ph.memsz) :
    m.userByte root (ph.vaddr + i) = if i < ph.filesz then file[ph.offset + i]? else some 0 := by
  have hfile := (haccepted.valid ph hph).inFile
  obtain ⟨a, hwalk, hbyte⟩ := h.segmentPage haccepted hph (Nat.le_add_right ph.vaddr i) (by omega)
  rw [Machine.userByte, hwalk, Option.map_some, hbyte, Nat.add_sub_cancel_left]
  by_cases hin : i < ph.filesz
  · rw [if_pos hin, if_pos (by omega), List.getElem?_eq_getElem (by omega),
      List.getD_eq_getElem _ _ (by omega)]
  · rw [if_neg hin, if_neg (by omega)]

theorem Placed.entry_page : ∃ pa flags, walk m.ram root (entryPoint file) = some (pa, flags) ∧
    testFlag flags noExecute = false := by
  obtain ⟨ph, hph, henter⟩ := haccepted.entry
  have hbelow := (haccepted.valid ph hph).below
  simp only [entersAt, Bool.and_eq_true, bne_iff_ne, decide_eq_true_eq] at henter
  obtain ⟨⟨hx, hlo⟩, hhi⟩ := henter
  rw [add64_eq (by omega)] at hhi
  obtain ⟨a, hwalk, _⟩ := h.segmentPage haccepted hph hlo hhi
  refine ⟨a, _, hwalk, ?_⟩
  rw [(segmentFlags_tests ph).2.2, decide_eq_false hx]

omit haccepted in
theorem Placed.stack_byte (hlo : userStackBottomVa ≤ va) (hhi : va < userStackTopVa) :
    m.userByte root va = some 0 := by
  simp only [userStackBottomVa, userStackTopVa, userStackPages] at hlo hhi
  have hp : (va - userStackBottomVa) / 4096 < userStackPages := by
    simp only [userStackBottomVa, userStackTopVa, userStackPages]
    omega
  obtain ⟨a, hwalk, hbyte⟩ := h.page (mem_plan_stack file hp) va (by
    simp only [userStackBottomVa, userStackTopVa, userStackPages, pageSize]
    omega)
  rw [Machine.userByte, hwalk, Option.map_some, hbyte]
  rfl

theorem Placed.other_byte (hfresh : FreshSpace s root) (hva : va < 2 ^ 47)
    (hout : ∀ ph ∈ segments file, va < ph.vaddr ∨ ph.vaddr + ph.memsz ≤ va) {b : BitVec 8}
    (hb : m.userByte root va = some b) : b = 0 := by
  obtain ⟨target, hwalk, rfl⟩ := Option.map_eq_some_iff.mp hb
  obtain ⟨pg, hpg, hpage, _, hbyte⟩ := h.planned hfresh hva hwalk
  rw [hbyte]
  rcases plan_cases hpg with ⟨ph, hph, page, hpage', rfl⟩ | ⟨p, _, rfl⟩
  · have hsizes := (haccepted.valid ph hph).sizes
    obtain ⟨hal, _, _⟩ := (mem_segmentPages (haccepted.valid ph hph)).mp hpage'
    simp only [PlannedPage.content] at hpage ⊢
    rcases hout ph hph with hlt | hge
    · rw [if_neg (by omega)]
    · rw [if_neg (by omega)]
  · rfl

omit haccepted in
theorem Placed.user_page (hfresh : FreshSpace s root) (hcanon : isCanonical va = true)
    (hnone : walk s.ram root va = none) {pa : Nat} {flags : PageFlags}
    (hwalk : walk m.ram root va = some (pa, flags)) :
    va < 2 ^ 47 ∧ testFlag flags user = true := by
  have hva : va < 2 ^ 47 := by
    by_contra hhigh
    have hsame := h.others va hcanon fun pg hpg => by
      have hlow := (h.valid pg hpg).below
      omega
    rw [hsame, hnone] at hwalk
    cases hwalk
  refine ⟨hva, ?_⟩
  obtain ⟨pg, hpg, _, hflags, _⟩ := h.planned hfresh hva hwalk
  dsimp only at hflags
  rw [hflags]
  rcases plan_cases hpg with ⟨ph, _, _, _, rfl⟩ | ⟨p, _, rfl⟩
  · exact (segmentFlags_tests ph).1
  · exact stackFlags_tests.1

end Image

variable {res : ElfLoadResult}

theorem load_success (hs : s.Inv) (hroot : root ∈ s.spaces)
    (h : load (some file) root s.machine = .ok (res, m)) (hok : res.status = .success) :
    Accepted file ∧ res.entryPoint = entryPoint file ∧ Placed file s root (plan file) m := by
  have hcases := load_cases hs hroot file
  rw [h] at hcases
  cases hcases with
  | rejected _ hne => exact absurd hok hne
  | stopped _ _ _ hpage => cases hpage with
    | exhausted _ => cases hok
    | refused _ _ _ _ => cases hok
  | loaded haccepted hm => exact ⟨haccepted, rfl, hm⟩

/-- For every byte string and every fresh space: `load` reads no byte outside the file, and after a
success the space holds the image the headers describe. -/
theorem load_correct {s : System} (hreach : System.Reachable s) {root : Nat}
    (hfresh : FreshSpace s root) (file : List (BitVec 8)) :
    (∀ i, load (some file) root s.machine ≠ .error (.outOfBounds i)) ∧
    ∀ res m, load (some file) root s.machine = .ok (res, m) → res.status = .success →
      (∀ ph ∈ segments file, ∀ i < ph.memsz, m.userByte root (ph.vaddr + i) =
        if i < ph.filesz then file[ph.offset + i]? else some 0) ∧
      (∀ va < 2 ^ 47, (∀ ph ∈ segments file, va < ph.vaddr ∨ ph.vaddr + ph.memsz ≤ va) →
        ∀ b, m.userByte root va = some b → b = 0) ∧
      (∀ va, userStackBottomVa ≤ va → va < userStackTopVa → m.userByte root va = some 0) ∧
      (∀ va, isCanonical va = true → walk s.ram root va = none → ∀ pa flags,
        walk m.ram root va = some (pa, flags) →
          va < 2 ^ 47 ∧ testFlag flags PageFlags.user = true) ∧
      ∃ pa flags, walk m.ram root res.entryPoint = some (pa, flags) ∧
        testFlag flags PageFlags.noExecute = false := by
  have hs := System.inv_reachable hreach
  constructor
  · intro i herr
    have hcases := load_cases hs hfresh.live file
    rw [herr] at hcases
    cases hcases
  intro res m h hok
  obtain ⟨haccepted, hentry, hm⟩ := load_success hs hfresh.live h hok
  refine ⟨fun ph hph i hi => hm.segment_byte haccepted hph hi,
    fun va hva hout b hb => hm.other_byte haccepted hfresh hva hout hb,
    fun va hlo hhi => hm.stack_byte hlo hhi,
    fun va hcanon hnone pa flags hwalk => hm.user_page hfresh hcanon hnone hwalk, ?_⟩
  rw [hentry]
  exact hm.entry_page haccepted

/-! The sample space, and files with one segment of one byte. -/

def elfBytes (entry : Nat) (phs : List Elf64ProgramHeader) (payload : List (BitVec 8)) :
    List (BitVec 8) :=
  [0x7F, 0x45, 0x4C, 0x46, 2, 1, 1] ++ leBytes 9 0 ++ leBytes 2 2 ++ leBytes 2 0x3E ++
    leBytes 4 1 ++
    leBytes 8 entry ++ leBytes 8 64 ++ leBytes 12 0 ++ leBytes 2 64 ++ leBytes 2 56 ++
    leBytes 2 phs.length ++ leBytes 6 0 ++
    phs.flatMap (fun ph => leBytes 4 ph.type ++ leBytes 4 ph.flags ++ leBytes 8 ph.offset ++
      leBytes 8 ph.vaddr ++ leBytes 8 0 ++ leBytes 8 ph.filesz ++ leBytes 8 ph.memsz ++
        leBytes 8 0) ++
    payload

def sampleFile (flags vaddr : Nat) : List (BitVec 8) :=
  elfBytes vaddr [⟨ptLoad, flags, 120, vaddr, 1, 2⟩] [0xF4]

def sampleSystem : System := (System.boot sampleKernel).withSpace 0x108000 System.sampleSpace

theorem sampleSystem_reachable : System.Reachable sampleSystem := System.sampleSpace_reachable

theorem sampleSystem_fresh : FreshSpace sampleSystem 0x108000 :=
  freshSpace_created (System.inv_reachable System.sampleKernel_reachable) System.sampleSpace_created
    (by decide)

theorem sampleLoaded {target : Option (Nat × PageFlags)}
    (h : (match load (some file) 0x108000 System.sampleSpace with
      | .ok (res, m) => some (res, walk m.ram 0x108000 va)
      | .error _ => none) = some (res, target)) :
    ∃ m, load (some file) 0x108000 sampleSystem.machine = .ok (res, m) ∧
      walk m.ram 0x108000 va = target := by
  change ∃ m, load (some file) 0x108000 System.sampleSpace = .ok (res, m) ∧ _
  cases hload : load (some file) 0x108000 System.sampleSpace with
  | error f =>
    rw [hload] at h
    cases h
  | ok result =>
    obtain ⟨res', m⟩ := result
    rw [hload] at h
    cases h
    exact ⟨m, rfl, rfl⟩

theorem sampleCode_loaded :
    ∃ m, load (some (sampleFile 5 0x400000)) 0x108000 sampleSystem.machine =
        .ok (⟨.success, 0x400000, userStackTopVa, 5⟩, m) ∧
      walk m.ram 0x108000 0x400000 = some (0x109000, present ||| user) :=
  sampleLoaded (by decide +kernel)

theorem sampleCode_bytes :
    ∃ m, load (some (sampleFile 5 0x400000)) 0x108000 sampleSystem.machine =
        .ok (⟨.success, 0x400000, userStackTopVa, 5⟩, m) ∧
      m.userByte 0x108000 0x400000 = some 0xF4 ∧ m.userByte 0x108000 0x400001 = some 0 := by
  obtain ⟨m, hload, _⟩ := sampleCode_loaded
  obtain ⟨_, himage⟩ :=
    load_correct sampleSystem_reachable sampleSystem_fresh (sampleFile 5 0x400000)
  obtain ⟨hsegment, _⟩ := himage _ m hload rfl
  have hph : ⟨ptLoad, 5, 120, 0x400000, 1, 2⟩ ∈ segments (sampleFile 5 0x400000) := by
    decide +kernel
  exact ⟨m, hload, hsegment _ hph 0 (by decide), hsegment _ hph 1 (by decide)⟩

/-- No page of the user half is writable and executable. -/
def WriteXorExecute (m : Machine) (root : Nat) : Prop :=
  ∀ va < 2 ^ 47, ∀ pa flags, walk m.ram root va = some (pa, flags) →
    testFlag flags writable = true → testFlag flags noExecute = true

/-- W^X holds after a successful `load` exactly when no loadable segment that covers a page asks for
both permissions. -/
theorem load_write_xor_execute_iff {s : System} (hreach : System.Reachable s) {root : Nat}
    (hfresh : FreshSpace s root) {file : List (BitVec 8)} {res : ElfLoadResult} {m : Machine}
    (h : load (some file) root s.machine = .ok (res, m)) (hok : res.status = .success) :
    WriteXorExecute m root ↔
      ∀ ph ∈ segments file, ph.memsz ≠ 0 ∨ ph.vaddr % 4096 ≠ 0 →
        ph.flags &&& pfW = 0 ∨ ph.flags &&& pfX = 0 := by
  obtain ⟨haccepted, _, hm⟩ := load_success (System.inv_reachable hreach) hfresh.live h hok
  constructor
  · intro hwx ph hph hcovers
    by_contra hboth
    obtain ⟨hw, hx⟩ := not_or.mp hboth
    have hvalid := haccepted.valid ph hph
    have hbelow := hvalid.below
    have hpage : ph.vaddr / 4096 * 4096 ∈ segmentPages ph := by
      apply (mem_segmentPages hvalid).mpr
      exact ⟨by omega, by omega, by omega⟩
    obtain ⟨a, hwalk, _⟩ := hm.page (mem_plan_segment hph hpage) (ph.vaddr / 4096 * 4096) rfl
    have hno := hwx _ (by omega) _ _ hwalk (by rw [(segmentFlags_tests ph).2.1, decide_eq_true hw])
    rw [(segmentFlags_tests ph).2.2, decide_eq_true_eq] at hno
    exact hx hno
  · intro hsegs va hva pa flags hwalk hwritable
    obtain ⟨pg, hpg, _, hflags, _⟩ := hm.planned hfresh hva hwalk
    dsimp only at hflags
    rw [hflags] at hwritable ⊢
    rcases plan_cases hpg with ⟨ph, hph, page, hpage, rfl⟩ | ⟨p, _, rfl⟩
    · obtain ⟨_, hlo, hhi⟩ := (mem_segmentPages (haccepted.valid ph hph)).mp hpage
      rw [(segmentFlags_tests ph).2.1, decide_eq_true_eq] at hwritable
      rw [(segmentFlags_tests ph).2.2, decide_eq_true_eq]
      exact (hsegs ph hph (by omega)).resolve_left hwritable
    · exact stackFlags_tests.2

theorem sampleCode_write_xor_execute :
    ∃ m, load (some (sampleFile 5 0x400000)) 0x108000 sampleSystem.machine =
        .ok (⟨.success, 0x400000, userStackTopVa, 5⟩, m) ∧ WriteXorExecute m 0x108000 := by
  obtain ⟨m, hload, _⟩ := sampleCode_loaded
  refine ⟨m, hload, ?_⟩
  rw [load_write_xor_execute_iff sampleSystem_reachable sampleSystem_fresh hload rfl]
  decide +kernel

theorem writable_code_loaded :
    System.Reachable sampleSystem ∧ FreshSpace sampleSystem 0x108000 ∧
      ∃ m, load (some (sampleFile 7 0x400000)) 0x108000 sampleSystem.machine =
          .ok (⟨.success, 0x400000, userStackTopVa, 5⟩, m) ∧
        walk m.ram 0x108000 0x400000 =
          some (0x109000, PageFlags.present ||| PageFlags.writable ||| PageFlags.user) ∧
        ¬ WriteXorExecute m 0x108000 := by
  have hloaded : ∃ m, load (some (sampleFile 7 0x400000)) 0x108000 sampleSystem.machine =
      .ok (⟨.success, 0x400000, userStackTopVa, 5⟩, m) ∧ walk m.ram 0x108000 0x400000 =
      some (0x109000, present ||| writable ||| user) :=
    sampleLoaded (by decide +kernel)
  obtain ⟨m, hload, hwalk⟩ := hloaded
  refine ⟨sampleSystem_reachable, sampleSystem_fresh, m, hload, hwalk, ?_⟩
  intro hwx
  exact absurd (hwx 0x400000 (by decide) _ _ hwalk (by decide)) (by decide)

/-- The guard page stays unmapped exactly when no loadable segment reaches into it. -/
theorem load_guard_unmapped_iff {s : System} (hreach : System.Reachable s) {root : Nat}
    (hfresh : FreshSpace s root) {file : List (BitVec 8)} {res : ElfLoadResult} {m : Machine}
    (h : load (some file) root s.machine = .ok (res, m)) (hok : res.status = .success) :
    (∀ o < 4096, walk m.ram root (userStackGuardVa + o) = none) ↔
      ∀ ph ∈ segments file,
        userStackBottomVa ≤ ph.vaddr ∨ ph.vaddr + ph.memsz ≤ userStackGuardVa := by
  obtain ⟨haccepted, _, hm⟩ := load_success (System.inv_reachable hreach) hfresh.live h hok
  simp only [userStackGuardVa, userStackBottomVa, userStackTopVa, userStackPages]
  constructor
  · intro hguard ph hph
    by_contra hover
    obtain ⟨hlo, hhi⟩ := not_or.mp hover
    have hpage : 0x7FFFFFFFE000 - 4 * 4096 - 4096 ∈ segmentPages ph := by
      apply (mem_segmentPages (haccepted.valid ph hph)).mpr
      exact ⟨by omega, by omega, by omega⟩
    obtain ⟨a, hwalk, _⟩ := hm.page (mem_plan_segment hph hpage) _ rfl
    exact absurd ((hguard 0 (by decide)).symm.trans hwalk) (by simp)
  · intro hsegs o ho
    cases hwalk : walk m.ram root (0x7FFFFFFFE000 - 4 * 4096 - 4096 + o) with
    | none => rfl
    | some target =>
      exfalso
      obtain ⟨pg, hpg, hpage, _, _⟩ := hm.planned hfresh (by omega) hwalk
      rcases plan_cases hpg with ⟨ph, hph, page, hmem, rfl⟩ | ⟨p, hp, rfl⟩
      · obtain ⟨hal, hlo, hhi⟩ := (mem_segmentPages (haccepted.valid ph hph)).mp hmem
        have hseg := hsegs ph hph
        dsimp only at hpage
        omega
      · simp only [userStackBottomVa, userStackTopVa, userStackPages, pageSize] at hpage
        omega

theorem sampleCode_guard_unmapped :
    ∃ m, load (some (sampleFile 5 0x400000)) 0x108000 sampleSystem.machine =
        .ok (⟨.success, 0x400000, userStackTopVa, 5⟩, m) ∧
      ∀ o < 4096, walk m.ram 0x108000 (userStackGuardVa + o) = none := by
  obtain ⟨m, hload, _⟩ := sampleCode_loaded
  refine ⟨m, hload, ?_⟩
  rw [load_guard_unmapped_iff sampleSystem_reachable sampleSystem_fresh hload rfl]
  decide +kernel

theorem guard_page_loaded :
    System.Reachable sampleSystem ∧ FreshSpace sampleSystem 0x108000 ∧
      ∃ m, load (some (sampleFile 5 userStackGuardVa)) 0x108000 sampleSystem.machine =
          .ok (⟨.success, userStackGuardVa, userStackTopVa, 5⟩, m) ∧
        walk m.ram 0x108000 userStackGuardVa =
          some (0x109000, PageFlags.present ||| PageFlags.user) :=
  ⟨sampleSystem_reachable, sampleSystem_fresh, sampleLoaded (by decide +kernel)⟩

end LlamaOS.Userland
