import LlamaOS.Fs.LongNames

/-!
# Scanning for a long name

What `lookup` and `readdir` find behind the entries of a long name.
-/

namespace LlamaOS.Fs
open ByteBuffer BlockChain Fs.Geometry

section Passing

variable {α σ : Type} {visit : Buffer → σ → Nat → Buffer → α ⊕ σ} {data : Nat → Buffer}

/-- The buffer of the long name behind some entries. -/
def lfnAfter (data : Nat → Buffer) (slots : List Slot) (b : Buffer) : Buffer :=
  slots.foldl (fun b slot => passEntry data slot b) b

theorem passSlots_buffer {slots : List Slot} {b b' : Buffer} {s s' : σ}
    (h : passSlots visit data slots b s = some (b', s')) : b' = lfnAfter data slots b := by
  induction slots generalizing b b' s s' with
  | nil =>
    cases h
    rfl
  | cons slot slots ih =>
    obtain ⟨_, hrest, _⟩ := passSlots_cons h
    exact ih hrest

theorem passSlots_append {before : List Slot} (after : List Slot) {b b' : Buffer} {s s' : σ}
    (h : passSlots visit data before b s = some (b', s')) :
    passSlots visit data (before ++ after) b s = passSlots visit data after b' s' := by
  induction before generalizing b b' s s' with
  | nil =>
    cases h
    rfl
  | cons slot before ih =>
    obtain ⟨s₁, hrest, _, _, _, hpass⟩ := passSlots_cons h
    exact (hpass _).trans (ih hrest)

theorem passSlots_long {long : List Slot}
    (hlong : ∀ slot ∈ long, entryKind (data slot.1) (slot.2 * dirEntrySize) = .longName) (s : σ)
    (b) : passSlots visit data long b s = some (lfnAfter data long b, s) := by
  induction long generalizing b with
  | nil => rfl
  | cons slot long ih =>
    rw [passSlots, hlong slot List.mem_cons_self]
    exact ih (fun slot hslot => hlong slot (List.mem_cons_of_mem _ hslot)) _

end Passing

section Stored

variable {data : Nat → Buffer} {name : CString} {long : List Slot}

theorem StoredLong.longName (h : StoredLong data name long) (hname : AsciiName name) {slot : Slot}
    (hslot : slot ∈ long) : entryKind (data slot.1) (slot.2 * dirEntrySize) = .longName := by
  obtain ⟨k, hk⟩ := List.mem_iff_getElem?.mp hslot
  have hlt := (List.getElem?_eq_some_iff.mp hk).1
  have hentry := h.entry k slot hk
  have hcount := h.count
  have hshort := hname.short
  have hbound : lfnCount name ≤ 20 := by
    unfold lfnCount
    omega
  generalize hvalue : (if lfnCount name - k = lfnCount name then lfnCount name - k + 0x40
    else lfnCount name - k) = value at hentry
  have horder := hentry.order
  have hrange : 0 < value ∧ value < 0xE5 := by
    split at hvalue <;> omega
  have hnat : (data slot.1 (slot.2 * dirEntrySize)).toNat = value := by
    rw [horder, BitVec.toNat_ofNat]
    omega
  have hfirst : data slot.1 (slot.2 * dirEntrySize) ≠ 0x00 := by
    intro hzero
    rw [hzero, show (0x00 : BitVec 8).toNat = 0 from rfl] at hnat
    omega
  have hdeleted : data slot.1 (slot.2 * dirEntrySize) ≠ 0xE5 := by
    intro hmark
    rw [hmark, show (0xE5 : BitVec 8).toNat = 0xE5 from rfl] at hnat
    omega
  rw [entryKind, if_neg hfirst, if_neg hdeleted, hentry.attr, if_pos (by decide)]

theorem StoredLong.spells (h : StoredLong data name long) (hname : AsciiName name) (b : Buffer) :
    SpellsAt (lfnAfter data long b) 0 (name.take 13) := by
  have hpos : 0 < long.length := by
    rw [h.count, lfnCount]
    have := hname.nonempty
    omega
  obtain ⟨before, slot, rfl⟩ :=
    (List.eq_nil_or_concat' long).resolve_left (List.ne_nil_of_length_pos hpos)
  have hkind := h.longName hname (List.mem_append_right before (List.mem_singleton_self slot))
  have hcount := h.count
  rw [List.length_append, List.length_singleton] at hcount
  have hentry := h.entry before.length slot
    (by rw [List.getElem?_append_right (Nat.le_refl _), Nat.sub_self]; rfl)
  rw [← hcount, Nat.add_sub_cancel_left] at hentry
  rw [lfnAfter, List.foldl_append, List.foldl_cons, List.foldl_nil, passEntry, if_pos hkind]
  exact extractLfnChars_first hname hentry _

end Stored

def liveCount (data : Nat → Buffer) (slots : List Slot) : Nat :=
  slots.countP fun slot => entryKind (data slot.1) (slot.2 * dirEntrySize) = .live

theorem passSlots_readdir {data : Nat → Buffer} {before : List Slot}
    (hbefore : ∀ slot ∈ before, entryKind (data slot.1) (slot.2 * dirEntrySize) ≠ .endMark)
    (b : Buffer) (s index : Nat) (hindex : index = s + liveCount data before) :
    passSlots (readdirVisit index) data before b s = some (lfnAfter data before b, index) := by
  induction before generalizing b s index with
  | nil =>
    rw [hindex]
    rfl
  | cons slot before ih =>
    have hrest := ih fun slot hslot => hbefore slot (List.mem_cons_of_mem _ hslot)
    rw [liveCount, List.countP_cons] at hindex
    rw [passSlots]
    cases hkind : entryKind (data slot.1) (slot.2 * dirEntrySize) with
    | endMark => exact absurd hkind (hbefore slot List.mem_cons_self)
    | live =>
      rw [hkind, if_pos (by decide)] at hindex
      simp only [readdirVisit]
      rw [if_neg (by omega)]
      exact hrest _ (s + 1) index (by rw [liveCount]; omega)
    | deleted | longName | volumeId =>
      rw [hkind, if_neg (by decide)] at hindex
      exact hrest _ s index (by rw [liveCount]; omega)

section Calls

variable {v : Fat32Volume} {node : Fat32VNode} {cs : List Nat} {fuel : Nat}

/-- The name is read back: from the entries, by `lookup` in any case, and by `readdir`. -/
structure LongNameRead (v : Fat32Volume) (node : Fat32VNode) (fuel : Nat) (before long : List Slot)
    (slot : Slot) (name : CString) : Prop where
  reconstructed :
    bufString (lfnAfter v.fs.clusters (before ++ long) fun _ => 0) 255 = name
  lookup : ∀ name', name'.map toLower = name.map toLower →
    (passSlots (lookupVisit name') v.fs.clusters before (fun _ => 0) ()).isSome = true →
    v.HasVnode →
    ∃ child v', v.lookup fuel node name' = some (0, some child, v') ∧
      (v'.vnodePool child).dirCluster = slot.1 ∧ (v'.vnodePool child).dirOffset =
        slot.2 * dirEntrySize
  readdir : name.length ≤ 63 →
    (∀ slot ∈ before, entryKind (v.fs.clusters slot.1) (slot.2 * dirEntrySize) ≠ .endMark) →
    ∃ entry fs', v.fs.readdir fuel node (liveCount v.fs.clusters before) =
        some (0, some entry, fs') ∧ entry.name = name ∧
      entry.inode = entryFirstCluster (v.fs.clusters slot.1) (slot.2 * dirEntrySize)

/-- A long name is read back exactly if it fits into one entry. -/
theorem longName_read_iff (hready : Ready v.fs) (hdir : node.type = .directory)
    (hwalk : Walk v.fs.Reads (v.fs.geo.fatEntry v.fs.dev.bytes) node.firstCluster cs)
    (hfuel : cs.length < fuel) {before long after : List Slot} {slot : Slot}
    (hslots : v.fs.geo.slots cs = before ++ long ++ slot :: after) {name : CString}
    (hname : AsciiName name) (hlong : StoredLong v.fs.clusters name long)
    (hlive : entryKind (v.fs.clusters slot.1) (slot.2 * dirEntrySize) = .live) :
    LongNameRead v node fuel before long slot name ↔ name.length ≤ 13 := by
  have hspells : ∀ b, SpellsAt (lfnAfter v.fs.clusters (before ++ long) b) 0 (name.take 13) := by
    intro b
    rw [lfnAfter, List.foldl_append]
    exact hlong.spells hname _
  have hnul : (0 : BitVec 8) ∉ name.take 13 :=
    fun hmem => hname.nul_notMem (List.mem_of_mem_take hmem)
  have hkind : ∀ slot ∈ long, entryKind (v.fs.clusters slot.1) (slot.2 * dirEntrySize) =
      .longName := fun slot hslot => hlong.longName hname hslot
  constructor
  · intro h
    have hname' := h.reconstructed
    rw [bufString_spells (hspells _) hnul] at hname'
    have hlen := congrArg List.length hname'
    rw [List.length_take, List.length_take] at hlen
    omega
  · intro hshort
    have hwhole : name.take 13 = name := List.take_of_length_le hshort
    rw [hwhole] at hspells hnul
    refine ⟨?_, ?_, ?_⟩
    · rw [bufString_spells (hspells _) hnul, List.take_of_length_le hname.short]
    · intro name' hcase hreached hvnode
      obtain ⟨⟨b, ⟨⟩⟩, hpass⟩ := Option.isSome_iff_exists.mp hreached
      have hpass' := (passSlots_append long hpass).trans (passSlots_long hkind () b)
      have hbuffer := passSlots_buffer hpass'
      have hmatch : entryMatches name' (v.fs.clusters slot.1) (slot.2 * dirEntrySize)
          (lfnAfter v.fs.clusters long b) = true := by
        rw [hbuffer]
        have hfirst := (hspells fun _ => 0).chars 0 hname.nonempty
        have hne : lfnAfter v.fs.clusters (before ++ long) (fun _ => 0) 0 ≠ 0 := by
          intro hzero
          rw [hzero] at hfirst
          exact hnul (List.mem_of_getElem? hfirst)
        rw [entryMatches, strcasecmpMatch_spells hnul (hspells _) hcase, bne_iff_ne.mpr hne]
        rfl
      have hselects : selects v.fs.clusters (v.fs.geo.slots cs) name' =
          some (slot.1, foundEntry (v.fs.clusters slot.1) (slot.2 * dirEntrySize)) := by
        rw [selects, hslots, scanSlots_append _ hpass', scanSlots, hlive]
        simp only [lookupVisit, hmatch, if_true]
      obtain ⟨child, v', hlookup, _, hchild⟩ := lookup_found hready hdir hwalk hfuel hvnode hselects
      exact ⟨child, v', hlookup, by rw [hchild]; rfl, by rw [hchild]; rfl⟩
    · intro hfits hbefore
      have hpass := passSlots_readdir hbefore (fun _ => 0) 0 _ (Nat.zero_add _).symm
      have hpass' := (passSlots_append long hpass).trans (passSlots_long hkind _ _)
      have hbuffer := passSlots_buffer hpass'
      obtain ⟨fs', hfs', hreaddir⟩ := readdir_ok hready hdir hwalk hfuel
        (liveCount v.fs.clusters before)
      rw [hslots, scanSlots_append _ hpass', scanSlots, hlive] at hreaddir
      simp only [readdirVisit, if_true] at hreaddir
      refine ⟨_, fs', hreaddir, ?_, rfl⟩
      have hfirst := (hspells fun _ => 0).chars 0 hname.nonempty
      rw [hbuffer, if_pos, bufString_spells (hspells _) hnul, List.take_of_length_le hfits]
      intro hzero
      rw [hzero] at hfirst
      exact hnul (List.mem_of_getElem? hfirst)

end Calls

def lfnEntryBytes (name : CString) (seq : Nat) : List (BitVec 8) :=
  let units := (List.range 13).map fun j => lfnUnit name ((seq - 1) * 13 + j)
  BitVec.ofNat 8 (if seq = lfnCount name then seq + 0x40 else seq) :: (units.take 5).flatMap
    (leBytes 2) ++
    [0x0F, 0, 0] ++ ((units.drop 5).take 6).flatMap (leBytes 2) ++ [0, 0] ++ (units.drop 11).flatMap
      (leBytes 2)

def shortEntryBytes (name83 : List (BitVec 8)) (attr : BitVec 8) (first size : Nat) :
    List (BitVec 8) :=
  name83 ++ attr :: List.replicate 8 0 ++ leBytes 2 (first / 2 ^ 16) ++ List.replicate 4 0 ++
    leBytes 2 (first % 2 ^ 16) ++ leBytes 4 size

def longNameEntries (name : CString) : List (BitVec 8) :=
  ((List.range (lfnCount name)).flatMap fun k => lfnEntryBytes name (lfnCount name - k)) ++
    shortEntryBytes [0x46, 0x49, 0x4C, 0x45, 0x7E, 0x31, 0x20, 0x20, 0x20, 0x20, 0x20] 0x20 3 7

/-- The root directory in cluster 2 with the file `FILE~1` in cluster 3, under a long name. -/
def longNameVolume (name : CString) : Fat32Volume :=
  let fat := patch (fun _ => 0) 520 (leBytes 8 0x0FFFFFFF0FFFFFFF)
  let fats := patch fat 1032 (leBytes 8 0x0FFFFFFF0FFFFFFF)
  { fs := {
      geo := smallGeometry
      mounted := true
      dev := { totalSectors := 7, bytes := patch fats 1536 (longNameEntries name) } } }

def longNameRoot : Fat32VNode := ⟨.directory, 2, 0, 0, 0⟩

def letters (n : Nat) : CString := (List.range n).map fun i => BitVec.ofNat 8 (0x61 + i)

theorem longNameVolume_ready (name : CString) : Ready (longNameVolume name).fs :=
  ready_of_small rfl ⟨rfl, fun _ => rfl⟩ rfl (Nat.le_refl 7) fun _ => rfl

theorem letters_read :
    LongNameRead (longNameVolume (letters 13)) longNameRoot 2 [] [(2, 0)] (2, 1) (letters 13) := by
  have hwalk : Walk (longNameVolume (letters 13)).fs.Reads
      ((longNameVolume (letters 13)).fs.geo.fatEntry (longNameVolume (letters 13)).fs.dev.bytes)
      longNameRoot.firstCluster [2] := Walk.step (by decide) (Walk.stop (by decide +kernel))
  exact (@longName_read_iff _ _ _ _ (longNameVolume_ready _) rfl hwalk (by decide) _ _
    ((List.range' 2 14).map fun i => (2, i)) _
    (by decide +kernel) _ ⟨by decide, by decide, by decide⟩ (by decide +kernel)
      (by decide +kernel)).mpr (by decide)

/-- A name of fourteen letters: it is not found, and `readdir` reports thirteen of them. -/
theorem letters_cut :
    StoredLong (longNameVolume (letters 14)).fs.clusters (letters 14) [(2, 0), (2, 1)] ∧
      entryKind ((longNameVolume (letters 14)).fs.clusters 2) (2 * dirEntrySize) = .live ∧
      ((longNameVolume (letters 14)).lookup 2 longNameRoot (letters 14)).map (·.1) = some (-2) ∧
      (((longNameVolume (letters 14)).fs.readdir 2 longNameRoot 0).bind (·.2.1)).map DirEntry.name =
        some (letters 13) := by decide +kernel

end LlamaOS.Fs
