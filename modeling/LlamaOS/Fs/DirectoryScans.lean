import LlamaOS.Fs.Directories
import LlamaOS.Fs.FatOperations

/-!
# The entries of a directory

The clusters that the loops over a directory visit, the entries in these clusters as one list, and
what the scans over them find.
-/

namespace LlamaOS.Fs
open ByteBuffer BlockChain Fs.Geometry Fat32Filesystem

/-- A cluster number, as the loops over chains check it. -/
abbrev IsCluster (c : Nat) : Prop := c ≥ 2 ∧ c < fat32EocMin

/-- The loops over a directory read this cluster; they end at the first one that they do not
read. -/
def Fat32Filesystem.Reads (fs : Fat32Filesystem) (c : Nat) : Prop := IsCluster c ∧ fs.HasCluster c

instance (fs : Fat32Filesystem) (c : Nat) : Decidable (fs.Reads c) := by
  unfold Fat32Filesystem.Reads Fat32Filesystem.HasCluster
  infer_instance

section Walks

variable {fs fs' : Fat32Filesystem} {d : Buffer} {c : Nat}

theorem walk_length_le {visits : Nat → Prop} {link : Nat → Nat} {curr : Nat} {cs : List Nat}
    (h : Walk visits link curr cs) (hvisits : ∀ c, visits c → IsCluster c) :
    cs.length ≤ fat32EocMin := by
  have hsub : cs ⊆ List.range fat32EocMin :=
    fun c hc => List.mem_range.mpr (hvisits c (h.visited c hc)).2
  have hle := (List.subperm_of_subset h.nodup hsub).length_le
  rwa [List.length_range] at hle

theorem Fat32Filesystem.Reads.hasLink (hg : fs.geo.Accepted) (h : fs.Reads c) : fs.HasLink c := by
  have hbefore := hg.entry_before h.1.1
  have hcluster := h.2
  unfold HasLink
  unfold HasCluster at hcluster
  omega

theorem Became.reads_eq (h : Became fs d fs') : fs'.Reads = fs.Reads := by
  funext c
  unfold Reads
  rw [h.hasCluster_eq]

theorem Became.readCluster_refused (h : Became fs d fs') (hc : IsCluster c)
    (hbeyond : ¬ fs.HasCluster c) : ∃ fs'', fs'.readCluster c = (none, fs'') ∧ Became fs d fs'' :=
  ⟨_, h.ready.serves.readCluster_beyond h.ready.geo.toAccepted hc.1 hc.2
    (h.hasCluster_eq ▸ hbeyond), h.recorded _⟩

end Walks

/-- An entry by its cluster and its index there. -/
abbrev Slot := Nat × Nat

/-- The contents of the clusters. -/
abbrev Fat32Filesystem.clusters (fs : Fat32Filesystem) : Nat → Buffer :=
  (fs.geo.view fs.dev.bytes).data

def Geometry.entries (g : Geometry) : Nat := g.bytesPerCluster / dirEntrySize

def Geometry.slots (g : Geometry) (cs : List Nat) : List Slot :=
  cs.flatMap fun c => (List.range g.entries).map fun i => (c, i)

theorem Geometry.slots_cons (g : Geometry) (c : Nat) (cs : List Nat) :
    g.slots (c :: cs) = (List.range g.entries).map (fun i => (c, i)) ++ g.slots cs := rfl

variable {cs : List Nat}

theorem Geometry.mem_slots {g : Geometry} {slot : Slot} :
    slot ∈ g.slots cs ↔ slot.1 ∈ cs ∧ slot.2 < g.entries := by
  obtain ⟨c, i⟩ := slot
  simp only [slots, List.mem_flatMap, List.mem_map, List.mem_range, Prod.mk.injEq]
  constructor
  · rintro ⟨c', hc, i', hi, rfl, rfl⟩
    exact ⟨hc, hi⟩
  · rintro ⟨hc, hi⟩
    exact ⟨c, hc, i, hi, rfl, rfl⟩

theorem Geometry.slots_pairwise (g : Geometry) (hcs : cs.Nodup) :
    (g.slots cs).Pairwise fun t u => t.1 = u.1 → t.2 < u.2 := by
  unfold slots
  rw [List.pairwise_flatMap]
  constructor
  · intro c _
    rw [List.pairwise_map]
    apply (List.pairwise_lt_range (n := g.entries)).imp
    intro i j hij _
    exact hij
  · apply hcs.imp
    intro c c' hne t ht u hu heq
    obtain ⟨i, _, rfl⟩ := List.mem_map.mp ht
    obtain ⟨j, _, rfl⟩ := List.mem_map.mp hu
    exact absurd heq hne

variable {dir : Buffer} {off : Nat}

theorem entryKind_endMark : entryKind dir off = .endMark ↔ dir off = 0x00 := by
  unfold entryKind
  constructor
  · intro h
    by_contra hend
    rw [if_neg hend] at h
    split at h
    · cases h
    · split at h
      · cases h
      · split at h <;> cases h
  · intro h
    rw [if_pos h]

theorem entryKind_deleted (h : dir off = 0xE5) : entryKind dir off = .deleted := by
  unfold entryKind
  rw [if_neg (by rw [h]; decide), if_pos h]

theorem entryKind_shown :
    entryKind dir off = .live ∨ entryKind dir off = .volumeId ↔
      dir off ≠ 0x00 ∧ dir off ≠ 0xE5 ∧ entryAttr dir off &&& fatAttrLfn ≠ fatAttrLfn := by
  unfold entryKind
  by_cases hend : dir off = 0x00
  · rw [if_pos hend]
    exact ⟨fun h => (by rcases h with h | h <;> cases h), fun h => absurd hend h.1⟩
  rw [if_neg hend]
  by_cases hdeleted : dir off = 0xE5
  · rw [if_pos hdeleted]
    exact ⟨fun h => (by rcases h with h | h <;> cases h), fun h => absurd hdeleted h.2.1⟩
  rw [if_neg hdeleted]
  by_cases hlong : entryAttr dir off &&& fatAttrLfn = fatAttrLfn
  · rw [if_pos hlong]
    exact ⟨fun h => (by rcases h with h | h <;> cases h), fun h => absurd hlong h.2.2⟩
  rw [if_neg hlong]
  refine ⟨fun _ => ⟨hend, hdeleted, hlong⟩, fun _ => ?_⟩
  split
  · exact Or.inr rfl
  · exact Or.inl rfl

section Scanner

variable {α σ : Type} (visit : Buffer → σ → Nat → Buffer → α ⊕ σ) (data : Nat → Buffer)

/-- What an entry that is not taken does to the buffer of the long name. -/
def passEntry (slot : Slot) (lfnBuf : Buffer) : Buffer :=
  if entryKind (data slot.1) (slot.2 * dirEntrySize) = .longName then
    extractLfnChars (data slot.1) (slot.2 * dirEntrySize) lfnBuf
  else patch lfnBuf 0 [0]

def scanSlots : List Slot → Buffer → σ → Option (Nat × α)
  | [], _, _ => none
  | slot :: rest, lfnBuf, s =>
    match entryKind (data slot.1) (slot.2 * dirEntrySize) with
    | .endMark => none
    | .live =>
      match visit (data slot.1) s slot.2 lfnBuf with
      | .inl a => some (slot.1, a)
      | .inr s => scanSlots rest (passEntry data slot lfnBuf) s
    | _ => scanSlots rest (passEntry data slot lfnBuf) s

/-- The state of the scan behind entries that neither end it nor are taken. -/
def passSlots : List Slot → Buffer → σ → Option (Buffer × σ)
  | [], lfnBuf, s => some (lfnBuf, s)
  | slot :: rest, lfnBuf, s =>
    match entryKind (data slot.1) (slot.2 * dirEntrySize) with
    | .endMark => none
    | .live =>
      match visit (data slot.1) s slot.2 lfnBuf with
      | .inl _ => none
      | .inr s => passSlots rest (passEntry data slot lfnBuf) s
    | _ => passSlots rest (passEntry data slot lfnBuf) s

variable {visit data}

/-- What passing one entry says about it, and where the scan and the passing go on. -/
theorem passSlots_cons {slot : Slot} {before : List Slot} {b : Buffer} {s : σ} {r : Buffer × σ}
    (h : passSlots visit data (slot :: before) b s = some r) :
    ∃ s₁, passSlots visit data before (passEntry data slot b) s₁ = some r ∧
      entryKind (data slot.1) (slot.2 * dirEntrySize) ≠ .endMark ∧
      (entryKind (data slot.1) (slot.2 * dirEntrySize) = .live →
        visit (data slot.1) s slot.2 b = .inr s₁) ∧
      (∀ rest, scanSlots visit data (slot :: rest) b s =
        scanSlots visit data rest (passEntry data slot b) s₁) ∧
      ∀ rest, passSlots visit data (slot :: rest) b s =
        passSlots visit data rest (passEntry data slot b) s₁ := by
  simp only [passSlots, scanSlots] at h ⊢
  cases hkind : entryKind (data slot.1) (slot.2 * dirEntrySize) with
  | endMark =>
    rw [hkind] at h
    cases h
  | live =>
    simp only [hkind] at h ⊢
    cases hvisit : visit (data slot.1) s slot.2 b with
    | inl a =>
      rw [hvisit] at h
      cases h
    | inr s₁ =>
      rw [hvisit] at h
      exact ⟨s₁, h, nofun, fun _ => rfl, fun _ => rfl, fun _ => rfl⟩
  | deleted | longName | volumeId =>
    rw [hkind] at h
    exact ⟨s, h, nofun, nofun, fun _ => rfl, fun _ => rfl⟩

theorem scanSlots_append {before : List Slot} (rest : List Slot) {lfnBuf lfnBuf' : Buffer}
    {s s' : σ} (h : passSlots visit data before lfnBuf s = some (lfnBuf', s')) :
    scanSlots visit data (before ++ rest) lfnBuf s = scanSlots visit data rest lfnBuf' s' := by
  induction before generalizing lfnBuf lfnBuf' s s' with
  | nil =>
    cases h
    rfl
  | cons slot before ih =>
    obtain ⟨s₁, hrest, _, _, hscan, _⟩ := passSlots_cons h
    exact (hscan _).trans (ih hrest)

theorem scanSlots_some {slots : List Slot} {lfnBuf : Buffer} {s : σ} {c : Nat} {a : α}
    (h : scanSlots visit data slots lfnBuf s = some (c, a)) :
    ∃ before slot after lfnBuf' s', slots = before ++ slot :: after ∧
      passSlots visit data before lfnBuf s = some (lfnBuf', s') ∧
      entryKind (data slot.1) (slot.2 * dirEntrySize) = .live ∧
      visit (data slot.1) s' slot.2 lfnBuf' = .inl a ∧ slot.1 = c := by
  induction slots generalizing lfnBuf s c a with
  | nil => cases h
  | cons slot slots ih =>
    rw [scanSlots] at h
    cases hkind : entryKind (data slot.1) (slot.2 * dirEntrySize) with
    | endMark =>
      rw [hkind] at h
      cases h
    | live =>
      simp only [hkind] at h
      cases hvisit : visit (data slot.1) s slot.2 lfnBuf with
      | inl a' =>
        rw [hvisit] at h
        cases h
        exact ⟨[], slot, slots, lfnBuf, s, rfl, rfl, hkind, hvisit, rfl⟩
      | inr s₁ =>
        rw [hvisit] at h
        obtain ⟨before, slot', after, lfnBuf', s', rfl, hpass, hfound⟩ := ih h
        refine ⟨slot :: before, slot', after, lfnBuf', s', rfl, ?_, hfound⟩
        simp only [passSlots, hkind, hvisit]
        exact hpass
    | deleted | longName | volumeId =>
      simp only [hkind] at h
      obtain ⟨before, slot', after, lfnBuf', s', rfl, hpass, hfound⟩ := ih h
      refine ⟨slot :: before, slot', after, lfnBuf', s', rfl, ?_, hfound⟩
      simp only [passSlots, hkind]
      exact hpass

variable (visit data)

theorem scanEntries_slots (rest : List Slot) (c : Nat) (left : Nat) (i : Nat) (lfnBuf : Buffer)
    (s : σ) :
    scanSlots visit data ((List.range' i left).map (fun i => (c, i)) ++ rest) lfnBuf s =
      match scanEntries visit (data c) left i lfnBuf s with
      | .endOfDirectory => none
      | .found a => some (c, a)
      | .exhausted lfnBuf s => scanSlots visit data rest lfnBuf s := by
  induction left generalizing i lfnBuf s with
  | zero => rfl
  | succ left ih =>
    rw [List.range'_succ, List.map_cons, List.cons_append, scanSlots, scanEntries]
    simp only [passEntry]
    cases hkind : entryKind (data c) (i * dirEntrySize) with
    | endMark => rfl
    | live =>
      simp only
      cases visit (data c) s i lfnBuf with
      | inl a => rfl
      | inr s => exact ih (i + 1) _ s
    | deleted | longName | volumeId => exact ih (i + 1) _ s

theorem scanClusters_ok {fs : Fat32Filesystem} {d : Buffer} {curr : Nat} {cs : List Nat}
    (hwalk : Walk fs.Reads (fs.geo.fatEntry d) curr cs) {fs₁ : Fat32Filesystem} {fuel : Nat}
    (lfnBuf : Buffer) (s : σ) (hfs₁ : Became fs d fs₁) (hfuel : cs.length < fuel) :
    ∃ fs', scanClusters visit fuel curr lfnBuf s fs₁ =
      some (scanSlots visit (fs.geo.view d).data (fs.geo.slots cs) lfnBuf s, fs') ∧
        Became fs d fs' := by
  induction hwalk generalizing fs₁ fuel lfnBuf s with
  | stop hstop =>
    obtain ⟨fuel, rfl⟩ := Nat.exists_eq_succ_of_ne_zero (Nat.ne_of_gt hfuel)
    rw [scanClusters]
    split
    · rename_i hcurr
      obtain ⟨fs₂, hread, hfs₂⟩ :=
        hfs₁.readCluster_refused hcurr fun hcluster => hstop ⟨hcurr, hcluster⟩
      rw [hread]
      exact ⟨fs₂, rfl, hfs₂⟩
    · exact ⟨fs₁, rfl, hfs₁⟩
  | @step curr cs hcurr next ih =>
    obtain ⟨fuel, rfl⟩ := Nat.exists_eq_succ_of_ne_zero (Nat.ne_of_gt (Nat.zero_lt_of_lt hfuel))
    obtain ⟨fs₂, hread, hfs₂⟩ := hfs₁.readCluster_ok hcurr.1.1 hcurr.2
    have hscan :=
      scanEntries_slots visit (fs.geo.view d).data (fs.geo.slots cs) curr fs.geo.entries 0 lfnBuf s
    rw [← List.range_eq_range', ← slots_cons] at hscan
    rw [scanClusters, if_pos hcurr.1, hscan]
    simp only [hread, hfs₂.geo]
    rw [show fs.geo.bytesPerCluster / dirEntrySize = fs.geo.entries from rfl]
    cases scanEntries visit ((fs.geo.view d).data curr) fs.geo.entries 0 lfnBuf s with
    | endOfDirectory => exact ⟨fs₂, rfl, hfs₂⟩
    | found a => exact ⟨fs₂, rfl, hfs₂⟩
    | exhausted lfnBuf s =>
      obtain ⟨fs₃, hentry, hfs₃⟩ := hfs₂.readFatEntry_ok (hcurr.hasLink hfs₂.valid.toAccepted)
      simp only [hentry]
      have hless : cs.length < fuel := by
        rw [List.length_cons] at hfuel
        omega
      exact ih lfnBuf s hfs₃ hless

end Scanner

def Fat32Volume.HasVnode (v : Fat32Volume) : Prop := ∃ i < maxCachedVnodes, v.vnodeInUse i = false

theorem allocVnode_ok {v : Fat32Volume} (h : v.HasVnode) (node : Fat32VNode) :
    ∃ slot v', v.allocVnode node = (some slot, v') ∧ v'.fs = v.fs ∧ v'.vnodePool slot = node := by
  obtain ⟨i, hi, hfree⟩ := h
  unfold Fat32Volume.allocVnode
  cases hfind : (List.range maxCachedVnodes).find? fun i => !v.vnodeInUse i with
  | none =>
    rw [List.find?_eq_none] at hfind
    have hused := hfind i (List.mem_range.mpr hi)
    rw [hfree] at hused
    exact absurd rfl hused
  | some slot => exact ⟨slot, _, rfl, rfl, if_pos rfl⟩

section Calls

variable {v : Fat32Volume} {node : Fat32VNode} {cs : List Nat} {fuel : Nat}

/-- The entry that `lookup` selects in a directory with these entries. -/
def selects (data : Nat → Buffer) (slots : List Slot) (name : CString) :
    Option (Nat × FoundEntry) :=
  scanSlots (lookupVisit name) data slots (fun _ => 0) ()

theorem passSlots_lookup {data : Nat → Buffer} {name : CString} {before : List Slot}
    {lfnBuf : Buffer} {r : Buffer × Unit}
    (h : passSlots (lookupVisit name) data before lfnBuf () = some r) :
    ∀ slot ∈ before, entryKind (data slot.1) (slot.2 * dirEntrySize) ≠ .endMark ∧
      (entryKind (data slot.1) (slot.2 * dirEntrySize) = .live →
        entryName (data slot.1) (slot.2 * dirEntrySize) ≠ formatTo83 name) := by
  induction before generalizing lfnBuf r with
  | nil =>
    intro slot hslot
    cases hslot
  | cons slot before ih =>
    intro slot' hslot'
    obtain ⟨_, hrest, hend, hvisit, _⟩ := passSlots_cons h
    rcases List.mem_cons.mp hslot' with rfl | hslot'
    · refine ⟨hend, fun hlive hname => ?_⟩
      have hmiss := hvisit hlive
      rw [lookupVisit, if_pos (by rw [entryMatches, hname, beq_self_eq_true, Bool.or_true])]
        at hmiss
      cases hmiss
    · exact ih hrest slot' hslot'

def FoundEntry.vnode (e : FoundEntry) (c : Nat) : Fat32VNode :=
  ⟨e.type, e.firstCluster, e.fileSize, c, e.dirOffset⟩

section

variable (hready : Ready v.fs) (hdir : node.type = .directory)
  (hwalk : Walk v.fs.Reads (v.fs.geo.fatEntry v.fs.dev.bytes) node.firstCluster cs)
    (hfuel : cs.length < fuel)
include hready hdir hwalk hfuel

theorem lookup_ok (name : CString) :
    ∃ fs', Became v.fs v.fs.dev.bytes fs' ∧ v.lookup fuel node name =
      match selects v.fs.clusters (v.fs.geo.slots cs) name with
      | none => some (-2, none, { v with fs := fs' })
      | some (c, e) =>
        match { v with fs := fs' }.allocVnode (e.vnode c) with
        | (none, v) => some (-3, none, v)
        | (some child, v) => some (0, some child, v) := by
  obtain ⟨buf, fs₁, halloc, hfs₁⟩ := hready.became.kmalloc_ok
  obtain ⟨fs', hscan, hfs'⟩ := scanClusters_ok (lookupVisit name) hwalk (fun _ => 0) () hfs₁ hfuel
  refine ⟨fs', hfs', ?_⟩
  rw [Fat32Volume.lookup, if_neg (not_not.mpr hdir)]
  simp only [halloc, hscan, selects]
  cases scanSlots (lookupVisit name) v.fs.clusters (v.fs.geo.slots cs) (fun _ => 0) () with
  | none => rfl
  | some found => rfl

theorem lookup_found (hvnode : v.HasVnode)
    {name : CString} {c : Nat} {e : FoundEntry}
    (hselects : selects v.fs.clusters (v.fs.geo.slots cs) name = some (c, e)) :
    ∃ child v', v.lookup fuel node name = some (0, some child, v') ∧
      Became v.fs v.fs.dev.bytes v'.fs ∧ v'.vnodePool child = e.vnode c := by
  obtain ⟨fs', hfs', hlookup⟩ := lookup_ok hready hdir hwalk hfuel name
  rw [hselects] at hlookup
  have hvnode' : { v with fs := fs' }.HasVnode := hvnode
  obtain ⟨child, v', halloc, hfs, hchild⟩ := allocVnode_ok hvnode' (e.vnode c)
  simp only [halloc] at hlookup
  refine ⟨child, v', hlookup, ?_, hchild⟩
  rw [hfs]
  exact hfs'

end

theorem readdir_ok {fs : Fat32Filesystem} (hready : Ready fs) (hdir : node.type = .directory)
    (hwalk : Walk fs.Reads (fs.geo.fatEntry fs.dev.bytes) node.firstCluster cs)
    (hfuel : cs.length < fuel) (index : Nat) :
    ∃ fs', Became fs fs.dev.bytes fs' ∧ fs.readdir fuel node index =
      match scanSlots (readdirVisit index) fs.clusters (fs.geo.slots cs) (fun _ => 0) 0 with
      | none => some (-2, none, fs')
      | some (_, entry) => some (0, some entry, fs') := by
  obtain ⟨buf, fs₁, halloc, hfs₁⟩ := hready.became.kmalloc_ok
  obtain ⟨fs', hscan, hfs'⟩ := scanClusters_ok (readdirVisit index) hwalk (fun _ => 0) 0 hfs₁ hfuel
  refine ⟨fs', hfs', ?_⟩
  rw [Fat32Filesystem.readdir, if_neg (not_not.mpr hdir)]
  simp only [halloc, hscan]
  cases scanSlots (readdirVisit index) fs.clusters (fs.geo.slots cs) (fun _ => 0) 0 with
  | none => rfl
  | some found => rfl

end Calls

end LlamaOS.Fs
