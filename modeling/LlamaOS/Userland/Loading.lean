import LlamaOS.Userland.ElfImage

/-!
# Loading an image

The loops of `load` keep one invariant: the pages placed so far are mapped with their
flags and hold the bytes the image plans for them, and nothing else is mapped in the
user half. A successful run therefore leaves exactly the planned image.
-/

namespace LlamaOS.Userland
open Memory MonadicFold VirtualAddress VirtualMemoryManager PhysicalAddress PageFlags Machine

/-- The byte at offset `o` of the page. -/
def PlannedPage.content (file : List (BitVec 8)) (pg : PlannedPage) (o : Nat) : BitVec 8 :=
  match pg.segment with
  | some ph =>
    if ph.vaddr ≤ pg.va + o ∧ pg.va + o < ph.vaddr + ph.filesz then
      file.getD (ph.offset + (pg.va + o - ph.vaddr)) 0
    else 0
  | none => 0

theorem segmentFlags_all (ph : Elf64ProgramHeader) : segmentFlags ph &&& all = segmentFlags ph := by
  unfold segmentFlags
  split
  · split
    · decide
    · decide
  · split
    · decide
    · decide

variable {file : List (BitVec 8)}

theorem mem_segmentPages {ph : Elf64ProgramHeader} (h : ValidSegment file ph) {va : Nat} :
    va ∈ segmentPages ph ↔ va % 4096 = 0 ∧ ph.vaddr / 4096 * 4096 ≤ va ∧
      va < ph.vaddr + ph.memsz := by
  have hbelow := h.below
  have hstart : ph.vaddr &&& (2 ^ 64 - pageSize) = ph.vaddr / 4096 * 4096 := by
    rw [land_pageMask (by omega)]
  have hend :
      roundUpMask (add64 ph.vaddr ph.memsz) = (ph.vaddr + ph.memsz + 4095) / 4096 * 4096 := by
    rw [roundUpMask, add64_eq (a := ph.vaddr) (by omega), add64_eq (by simp only [pageSize]; omega),
      land_pageMask (by simp only [pageSize]; omega)]
    rfl
  unfold segmentPages
  rw [hstart, hend]
  simp only [pageSize, List.mem_map, List.mem_range]
  constructor
  · rintro ⟨k, hk, rfl⟩
    omega
  · rintro ⟨hal, hlo, hhi⟩
    exact ⟨(va - ph.vaddr / 4096 * 4096) / 4096, by omega, by omega⟩

/-- What the loader relies on for a page it places. -/
structure PlannedPage.Valid (file : List (BitVec 8)) (pg : PlannedPage) : Prop where
  aligned : pg.va % 4096 = 0
  below : pg.va < 2 ^ 47
  flags : pg.flags &&& all = pg.flags
  source : ∀ ph, pg.segment = some ph → ValidSegment file ph ∧ pg.va < ph.vaddr + ph.memsz

theorem plan_valid (h : Accepted file) : ∀ pg ∈ plan file, pg.Valid file := by
  intro pg hpg
  rcases List.mem_append.mp hpg with hpg | hpg
  · obtain ⟨ph, hph, hpg⟩ := List.mem_flatMap.mp hpg
    obtain ⟨va, hva, rfl⟩ := List.mem_map.mp hpg
    have hvalid := h.valid ph hph
    obtain ⟨hal, _, hhi⟩ := (mem_segmentPages hvalid).mp hva
    refine ⟨hal, Nat.lt_of_lt_of_le hhi hvalid.below, segmentFlags_all ph, ?_⟩
    intro ph' hph'
    obtain rfl := Option.some.inj hph'
    exact ⟨hvalid, hhi⟩
  · obtain ⟨p, hp, rfl⟩ := List.mem_map.mp hpg
    have hlt := List.mem_range.mp hp
    have hall : stackFlags &&& all = stackFlags := by decide
    refine ⟨?_, ?_, hall, fun ph hph => by cases hph⟩
    · simp only [userStackBottomVa, userStackTopVa, userStackPages, pageSize]
      omega
    · simp only [userStackBottomVa, userStackTopVa, userStackPages, pageSize] at hlt ⊢
      omega

variable {pa : Nat}

theorem fill_clear {m m' : Machine} (hclear : ∀ i, m.ram pa i = .clear)
    (h : m.fill pa 0 512 (fun _ => .clear) = some m') : m' = m := by
  unfold fill at h
  split at h
  · cases h
    have hram : (fun t (i : Fin 512) => if t = pa ∧ 0 ≤ i.val ∧
        i.val < 512 then .clear else m.ram t i) = m.ram := by
      funext t i
      split
      · rename_i hat
        rw [hat.1, hclear]
      · rfl
    rw [hram]
  · cases h

/-- How an attempt to map a new page ends. -/
inductive FreshPage (root va : Nat) (flags : PageFlags) (m : Machine) :
    Except Stop (Nat × Machine) → Prop where
  | fault : FreshPage root va flags m (.error (.fault .pageFault))
  | exhausted {m' : Machine} (halloc : m.allocPage = some (0, m')) :
      FreshPage root va flags m (.error (.failed .allocationFailed m'))
  | refused {pa : Nat} {m₁ m' : Machine} {status : VmmStatus} (halloc : m.allocPage = some (pa, m₁))
      (hpa : pa ≠ 0) (hstatus : status ≠ .success)
      (hmap : mapPageInTable m₁ root va pa flags = some (status, m')) :
      FreshPage root va flags m (.error (.failed .mappingFailed m'))
  | mapped {pa : Nat} {m₁ m' : Machine} (halloc : m.allocPage = some (pa, m₁)) (hpa : pa ≠ 0)
      (hdirect : isDirectMapped pa = true)
      (hmap : mapPageInTable m₁ root va pa flags = some (.success, m')) :
      FreshPage root va flags m (.ok (pa, m'))

theorem mapFreshPage_cases (root va : Nat) (flags : PageFlags) (m : Machine) :
    FreshPage root va flags m (mapFreshPage root va flags m) := by
  unfold mapFreshPage
  cases halloc : m.allocPage with
  | none => exact .fault
  | some taken =>
    obtain ⟨pa, m₁⟩ := taken
    change FreshPage root va flags m (if pa = 0 then _ else _)
    split
    · rename_i hpa
      exact .exhausted (hpa ▸ halloc)
    rename_i hpa
    cases hfill : m₁.fill pa 0 512 (fun _ => .clear) with
    | none => exact .fault
    | some m₂ =>
      have hdirect := isDirectMapped_of_canAccess (of_fill hfill).1
      obtain rfl := fill_clear ((allocPage_allocates halloc).zeroed hpa hdirect) hfill
      change FreshPage root va flags m (Except.bind (reach (mapPageInTable m₂ root va pa flags)) _)
      cases hmap : mapPageInTable m₂ root va pa flags with
      | none => exact .fault
      | some result =>
        obtain ⟨status, m'⟩ := result
        change FreshPage root va flags m (if status ≠ .success then _ else _)
        split
        · rename_i hstatus
          exact .refused halloc hpa hstatus hmap
        rename_i hstatus
        rw [Decidable.not_not] at hstatus
        subst hstatus
        exact .mapped halloc hpa hdirect hmap

theorem copyBytes_cases {file : List (BitVec 8)} {pa pageOffset fileOffset copyLen : Nat}
    (hin : fileOffset + copyLen ≤ file.length) (m : Machine) :
    copyBytes file pa pageOffset fileOffset copyLen m = .error (.fault .pageFault) ∨
      copyBytes file pa pageOffset fileOffset copyLen m =
        .ok (m.storeBytes (pa + pageOffset) (fun i => file.getD (fileOffset + i) 0) copyLen) := by
  unfold copyBytes
  split
  · exact Or.inl rfl
  right
  apply foldlM_ok
  intro m i hi
  have hlt := List.mem_range.mp hi
  rw [fileByte_ok (by omega)]
  rfl

theorem copyPayload_cases {file : List (BitVec 8)} {ph : Elf64ProgramHeader}
    (hph : ValidSegment file ph) {va pa : Nat} (hal : va % 4096 = 0) (hva : va < 2 ^ 47)
    (m : Machine) :
    copyPayload file ph va pa m = .error (.fault .pageFault) ∨
      ∃ offset len bytes, copyPayload file ph va pa m = .ok (m.storeBytes (pa + offset) bytes len) ∧
        offset + len ≤ 4096 ∧ ∀ o < 4096,
          (offset ≤ o ∧ o < offset + len ↔ ph.vaddr ≤ va + o ∧ va + o < ph.vaddr + ph.filesz) ∧
          (offset ≤ o → o < offset + len →
            bytes (o - offset) = file.getD (ph.offset + (va + o - ph.vaddr)) 0) := by
  have hbelow := hph.below
  have hsizes := hph.sizes
  have hfile := hph.inFile
  have hwide := hph.offsetLt
  have hmax : add64 va pageSize = va + 4096 := add64_eq (by simp only [pageSize]; omega)
  have hend : add64 ph.vaddr ph.filesz = ph.vaddr + ph.filesz := add64_eq (by omega)
  unfold copyPayload
  simp only [hmax, hend]
  by_cases hover : va + 4096 > ph.vaddr ∧ va < ph.vaddr + ph.filesz
  · rw [if_pos hover]
    generalize hstart : (if va < ph.vaddr then ph.vaddr else va) = copyStart
    generalize hstop :
        (if va + 4096 > ph.vaddr + ph.filesz then ph.vaddr + ph.filesz else va + 4096) = copyEnd
    have hlo : copyStart = max ph.vaddr va := by
      rw [← hstart]
      split <;> omega
    have hhi : copyEnd = min (ph.vaddr + ph.filesz) (va + 4096) := by
      rw [← hstop]
      split <;> omega
    rw [add64_eq (by omega)]
    have hread : ph.offset + (copyStart - ph.vaddr) + (copyEnd - copyStart) ≤ file.length := by
      omega
    rcases @copyBytes_cases file pa (copyStart - va) _ _ hread m with hfault | hok
    · exact Or.inl hfault
    refine Or.inr ⟨copyStart - va, copyEnd - copyStart, _, hok, by omega, ?_⟩
    intro o ho
    refine ⟨by omega, fun hle hlt => ?_⟩
    have hindex : ph.offset + (copyStart - ph.vaddr) + (o - (copyStart - va)) =
        ph.offset + (va + o - ph.vaddr) := by omega
    exact congrArg (file.getD · 0) hindex
  · rw [if_neg hover]
    refine Or.inr ⟨0, 0, fun _ => 0, rfl, by omega, ?_⟩
    intro o ho
    exact ⟨by omega, fun _ hlt => by omega⟩

variable {pg : PlannedPage}

theorem fillPage_cases (hpg : pg.Valid file) (pa : Nat) (m : Machine) :
    fillPage file pg pa m = .error (.fault .pageFault) ∨
      ∃ offset len bytes, fillPage file pg pa m = .ok (m.storeBytes (pa + offset) bytes len) ∧
        offset + len ≤ 4096 ∧ ∀ o < 4096,
          pg.content file o = if offset ≤ o ∧ o < offset + len then bytes (o - offset) else 0 := by
  unfold fillPage PlannedPage.content
  cases hseg : pg.segment with
  | none =>
    refine Or.inr ⟨0, 0, fun _ => 0, rfl, by decide, ?_⟩
    intro o ho
    rw [if_neg (by omega)]
  | some ph =>
    have hph := (hpg.source ph hseg).1
    rcases @copyPayload_cases file ph hph pg.va pa hpg.aligned hpg.below m with
      hfault | ⟨offset, len, bytes, hcopy, hin, hbytes⟩
    · exact Or.inl hfault
    refine Or.inr ⟨offset, len, bytes, hcopy, hin, ?_⟩
    intro o ho
    obtain ⟨hiff, hval⟩ := hbytes o ho
    dsimp only
    by_cases hcopied : offset ≤ o ∧ o < offset + len
    · rw [if_pos hcopied, if_pos (hiff.mp hcopied), hval hcopied.1 hcopied.2]
    · rw [if_neg hcopied, if_neg fun hin => hcopied (hiff.mpr hin)]

/-- What one iteration of the loops comes to. -/
inductive PlaceExit (file : List (BitVec 8)) (root : Nat) (pg : PlannedPage) (n : Nat)
    (m : Machine) :
    Except Stop (Nat × Machine) → Prop where
  | unmapped {e : Stop} (h : FreshPage root pg.va pg.flags m (.error e)) :
      PlaceExit file root pg n m (.error e)
  | fault : PlaceExit file root pg n m (.error (.fault .pageFault))
  | placed {pa : Nat} {m₁ m₂ m' : Machine} (halloc : m.allocPage = some (pa, m₁)) (hpa : pa ≠ 0)
      (hdirect : isDirectMapped pa = true)
      (hmap : mapPageInTable m₁ root pg.va pa pg.flags = some (.success, m₂))
      (hfill : fillPage file pg pa m₂ = .ok m') : PlaceExit file root pg n m (.ok (n + 1, m'))

theorem placePage_cases (hpg : pg.Valid file) (root n : Nat) (m : Machine) :
    PlaceExit file root pg n m (placePage file root (n, m) pg) := by
  have hcases := mapFreshPage_cases root pg.va pg.flags m
  unfold placePage
  generalize mapFreshPage root pg.va pg.flags m = result at hcases
  cases hcases with
  | fault => exact .fault
  | exhausted halloc => exact .unmapped (.exhausted halloc)
  | refused halloc hpa hstatus hmap => exact .unmapped (.refused halloc hpa hstatus hmap)
  | @mapped pa m₁ m₂ halloc hpa hdirect hmap =>
    change PlaceExit file root pg n m (Except.bind (fillPage file pg pa m₂) _)
    cases hfill : fillPage file pg pa m₂ with
    | ok m' => exact .placed halloc hpa hdirect hmap hfill
    | error e =>
      rcases fillPage_cases hpg pa m₂ with hfault | ⟨offset, len, bytes, hcopy, _⟩
      · obtain rfl := Except.error.inj (hfill.symm.trans hfault)
        exact .fault
      · exact absurd (hfill.symm.trans hcopy) (by simp)

/-- The pages in `done` have been placed into the user half of `root`. -/
structure Placed (file : List (BitVec 8)) (s : System) (root : Nat) (done : List PlannedPage)
    (m : Machine) : Prop where
  uses : System.Uses s.held root s (s.withMachine m)
  inv : (s.withMachine m).Inv
  valid : ∀ pg ∈ done, pg.Valid file
  nodup : (done.map PlannedPage.va).Nodup
  pages : ∀ pg ∈ done, ∃ a, a % 4096 = 0 ∧ (s.withMachine m).Occupied root (pagePath pg.va) a ∧
    (∀ o < 4096, walk m.ram root (pg.va + o) = some (a + o, pg.flags ||| present)) ∧
    ∀ o < 4096, m.byteAt (a + o) = pg.content file o
  others : ∀ va, isCanonical va = true → (∀ pg ∈ done, va / 4096 ≠ pg.va / 4096) →
    walk m.ram root va = walk s.ram root va
  kept : ∀ {r p l}, s.Occupied r p l → (s.withMachine m).Occupied r p l
  positions : ∀ {r p l}, (s.withMachine m).Occupied r p l →
    s.Occupied r p l ∨ ∃ pg ∈ done, p <+: pagePath pg.va
  kernel : ∀ {p l}, s.Occupied s.kernelRoot p l → m.ram l = s.ram l
  drew : s.machine.pmm.Drew m.pmm

section Place
variable {file : List (BitVec 8)} {s : System} {root : Nat}

theorem Placed.start (hs : s.Inv) : Placed file s root [] s.machine :=
  ⟨.refl s, hs, List.forall_mem_nil _, List.nodup_nil, List.forall_mem_nil _, fun _ _ _ => rfl,
    fun hocc => hocc, Or.inl, fun _ => rfl, .refl _⟩

variable {done : List PlannedPage} {pg : PlannedPage} {m : Machine}

theorem Placed.snoc (h : Placed file s root done m) (hpg : pg.Valid file) {m₁ m₂ : Machine}
    (hp : (s.withMachine m).PagePlaced root pg.va pa pg.flags m₁)
    (hf : (s.withMachine m₁).Filled root pa m₂)
    (hbytes : ∀ o < 4096, m₂.byteAt (pa + o) = pg.content file o) :
    Placed file s root (done ++ [pg]) m₂ := by
  have hal := hpg.aligned
  have hroot : (s.withMachine m₁).IsRoot root := System.isRoot_of_tracked hp.page.tracked
  have hwalk : ∀ va, walk m₂.ram root va = walk m₁.ram root va := hf.walks hroot
  have hnew : ∀ pg' ∈ done, pg'.va ≠ pg.va := by
    intro pg' hpg' heq
    obtain ⟨a, _, _, hmapped, _⟩ := h.pages pg' hpg'
    have hsome := hmapped 0 (by decide)
    rw [Nat.add_zero, heq] at hsome
    exact absurd (hsome.symm.trans hp.absent) (by simp)
  refine ⟨(h.uses.trans hp.uses).trans hf.uses, hf.inv, ?_, ?_, ?_, ?_,
    fun hocc => hf.occupied.mpr (hp.kept (h.kept hocc)), ?_, ?_, hf.pmm ▸ h.drew.trans hp.drew⟩
  · intro pg' hpg'
    rcases List.mem_append.mp hpg' with hold | hlast
    · exact h.valid pg' hold
    · exact List.mem_singleton.mp hlast ▸ hpg
  · rw [List.map_append, List.nodup_append]
    refine ⟨h.nodup, List.nodup_singleton _, ?_⟩
    intro va hva va' hva'
    obtain ⟨pg', hpg', rfl⟩ := List.mem_map.mp hva
    rw [List.mem_singleton.mp hva']
    exact hnew pg' hpg'
  · intro pg' hpg'
    rcases List.mem_append.mp hpg' with hold | hlast
    · obtain ⟨a, hal', hocc, hmapped, hcontent⟩ := h.pages pg' hold
      have hne : a ≠ pa := fun heq => hp.fresh root _ (heq ▸ hocc)
      obtain ⟨hpage, hlow, _, _⟩ := h.valid pg' hold
      have hva := hnew pg' hold
      refine ⟨a, hal', hf.occupied.mpr (hp.kept hocc), ?_, ?_⟩
      · intro o ho
        rw [hwalk, hp.walkOther _ (isCanonical_of_lt (by omega)) (by omega)]
        exact hmapped o ho
      · intro o ho
        have hsame : m₂.ram a = m.ram a :=
          (hf.others a hne).trans (hp.contents h.inv (pagePath_length pg'.va) hocc)
        rw [byteAt_congr hsame (by omega)]
        exact hcontent o ho
    · obtain rfl := List.mem_singleton.mp hlast
      exact ⟨pa, hp.aligned, hf.occupied.mpr hp.page,
        fun o ho => (hwalk _).trans (hp.walkPage o ho), hbytes⟩
  · intro va hva hnone
    have hne := hnone pg (List.mem_append_right _ List.mem_cons_self)
    rw [hwalk, hp.walkOther va hva hne]
    exact h.others va hva fun pg' hpg' => hnone pg' (List.mem_append_left _ hpg')
  · intro r p l hocc
    rcases hp.positions (hf.occupied.mp hocc) with hocc | hpath
    · rcases h.positions hocc with hold | ⟨pg', hpg', hpath⟩
      · exact Or.inl hold
      · exact Or.inr ⟨pg', List.mem_append_left _ hpg', hpath⟩
    · exact Or.inr ⟨pg, List.mem_append_right _ List.mem_cons_self, hpath⟩
  · intro p l hocc
    have hocc' := h.kept hocc
    have hne : l ≠ pa := fun heq => hp.fresh _ p (heq ▸ hocc')
    rw [hf.others l hne, ← h.kernel hocc]
    apply hp.untouched (h.inv.owned hocc').taken
    -- a table of the kernel's is none of the space's own
    intro q hq hown
    have hq' := nil_or_lower_of_le hpg.below (hq.trans (List.prefix_append _ _))
    obtain ⟨heq, _⟩ := h.inv.root_eq hown hocc' hq'
    rcases hp.page.tracked with ⟨_, hlen⟩ | ⟨hspace, _⟩
    · rw [pagePath_length] at hlen
      omega
    · exact h.inv.kernel (heq ▸ hspace)

theorem Placed.step (h : Placed file s root done m) (hroot : root ∈ s.spaces) (hpg : pg.Valid file)
    {n n' : Nat} {m' : Machine} (hrun : placePage file root (n, m) pg = .ok (n', m')) :
    n' = n + 1 ∧ Placed file s root (done ++ [pg]) m' := by
  have hcases := placePage_cases hpg root n m
  rw [hrun] at hcases
  cases hcases with
  | @placed pa m₁ m₂ m' halloc hpa hdirect hmap hfill =>
    have hp := System.pagePlaced h.inv hroot hpg.below hpg.flags halloc hpa hdirect hmap
    have hal := hp.aligned
    have hpage : ∃ r p, p.length = 4 ∧ (s.withMachine m₂).Occupied r p pa :=
      ⟨root, pagePath pg.va, pagePath_length pg.va, hp.page⟩
    rcases fillPage_cases hpg pa m₂ with hfault | ⟨offset, len, bytes, hcopy, hin, hbytes⟩
    · exact absurd (hfill.symm.trans hfault) (by simp)
    obtain rfl := Except.ok.inj (hfill.symm.trans hcopy)
    refine ⟨rfl, h.snoc hpg hp (.storeBytes hp.inv hpage hal hin bytes) ?_⟩
    intro o ho
    have hbyte := m₂.byteAt_storeBytes (pa + offset) bytes len (pa + o)
    refine hbyte.trans ?_
    rw [hbytes o ho]
    by_cases hcopied : offset ≤ o ∧ o < offset + len
    · have hwithin : pa + offset ≤ pa + o ∧ pa + o < pa + offset + len := by omega
      rw [if_pos hwithin, if_pos hcopied, show pa + o - (pa + offset) = o - offset by omega]
    · have hwithin : ¬ (pa + offset ≤ pa + o ∧ pa + o < pa + offset + len) := by omega
      rw [if_neg hwithin, if_neg hcopied]
      exact byteAt_of_clear hp.empty (by omega)

end Place

section Load
variable {file : List (BitVec 8)} {s : System} {root : Nat}

theorem places (hs : s.Inv) (hroot : root ∈ s.spaces) (h : Accepted file) :
    (∃ m, (plan file).foldlM (placePage file root) (0, s.machine) = .ok ((plan file).length, m) ∧
        Placed file s root (plan file) m) ∨
      ∃ done pg m e, done ++ [pg] <+: plan file ∧ Placed file s root done m ∧
        placePage file root (done.length, m) pg = .error e ∧
        (plan file).foldlM (placePage file root) (0, s.machine) = .error e := by
  have hvalid := plan_valid h
  have hstep : ∀ done pg acc acc', done ++ [pg] <+: plan file →
      (acc.1 = done.length ∧ Placed file s root done acc.2) →
      placePage file root acc pg = .ok acc' →
      acc'.1 = (done ++ [pg]).length ∧ Placed file s root (done ++ [pg]) acc'.2 := by
    rintro done pg ⟨n, m⟩ ⟨n', m'⟩ hpre ⟨hn, hm⟩ hrun
    have hpg := hvalid pg (hpre.subset (List.mem_append_right _ List.mem_cons_self))
    obtain ⟨hn', hm'⟩ := hm.step hroot hpg hrun
    refine ⟨?_, hm'⟩
    rw [List.length_append, List.length_singleton]
    omega
  rcases MonadicFold.exit hstep (b := (0, s.machine)) ⟨rfl, .start hs⟩ with
    ⟨⟨n, m⟩, hrun, hn, hm⟩ | ⟨done, pg, ⟨n, m⟩, e, hpre, ⟨hn, hm⟩, herr, hrun⟩
  · exact Or.inl ⟨m, hn ▸ hrun, hm⟩
  · exact Or.inr ⟨done, pg, m, e, hpre, hm, hn ▸ herr, hrun⟩

inductive LoadExit (file : List (BitVec 8)) (s : System) (root : Nat) :
    Except Fault (ElfLoadResult × Machine) → Prop where
  | rejected {status : ElfLoadStatus} (hstatus : validateSegments file = .ok status)
      (hne : status ≠ .success) : LoadExit file s root (.ok ({ status := status }, s.machine))
  | fault (h : Accepted file) : LoadExit file s root (.error .pageFault)
  | stopped {done : List PlannedPage} {pg : PlannedPage} {m m' : Machine} {status : ElfLoadStatus}
      (h : Accepted file) (hpre : done ++ [pg] <+: plan file) (hm : Placed file s root done m)
      (hpage : FreshPage root pg.va pg.flags m (.error (.failed status m'))) :
      LoadExit file s root (.ok ({ status := status }, m'))
  | loaded {m : Machine} (h : Accepted file) (hm : Placed file s root (plan file) m) :
      LoadExit file s root
        (.ok (⟨.success, entryPoint file, userStackTopVa, (plan file).length⟩, m))

theorem load_cases (hs : s.Inv) (hroot : root ∈ s.spaces) (file : List (BitVec 8)) :
    LoadExit file s root (load (some file) root s.machine) := by
  have hnull : isNull root = false := beq_false_of_ne (hs.root_ne_zero (Or.inr hroot))
  unfold load
  dsimp only
  rw [hnull]
  obtain ⟨status, hstatus, _⟩ := validateSegments_total file
  rw [hstatus]
  change LoadExit file s root (if status ≠ .success then _ else _)
  split
  · rename_i hne
    exact .rejected hstatus hne
  rename_i hok
  rw [Decidable.not_not] at hok
  subst hok
  have haccepted : Accepted file := hstatus
  rw [if_neg (by decide), loadImage_eq haccepted]
  rcases places hs hroot haccepted with ⟨m, hrun, hm⟩ | ⟨done, pg, m, e, hpre, hm, herr, hrun⟩
  · rw [hrun]
    exact .loaded haccepted hm
  have hpg := plan_valid haccepted pg (hpre.subset (List.mem_append_right _ List.mem_cons_self))
  have hcases := placePage_cases hpg root done.length m
  rw [herr] at hcases
  rw [hrun]
  cases hcases with
  | fault => exact .fault haccepted
  | unmapped hfresh =>
    cases hfresh with
    | fault => exact .fault haccepted
    | exhausted halloc => exact .stopped haccepted hpre hm (.exhausted halloc)
    | refused halloc hpa hne hmap => exact .stopped haccepted hpre hm (.refused halloc hpa hne hmap)

end Load

end LlamaOS.Userland
