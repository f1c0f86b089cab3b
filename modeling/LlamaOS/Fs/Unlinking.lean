import LlamaOS.Fs.LongNameScans
import LlamaOS.Fs.Removals

/-!
# `lookup` and `unlink`

`lookup` knows long names and volume labels, `unlink` does not. They agree on the entry of a
name only under conditions on the directory, and `unlink` never removes a long name.
-/

namespace LlamaOS.Fs
open ByteBuffer BlockChain Fs.Geometry

def Fat32VNode.slot (node : Fat32VNode) : Slot := (node.dirCluster, node.dirOffset / dirEntrySize)

def entriesBefore (slots : List Slot) (slot : Slot) : List Slot :=
  slots.takeWhile fun t => decide (t ≠ slot)

/-- The entries of a long name at the end of these entries. -/
def longBefore (data : Nat → Buffer) (before : List Slot) : List Slot :=
  before.reverse.takeWhile fun t => decide (entryKind (data t.1) (t.2 * dirEntrySize) = .longName)

/-- The entry of the vnode and its long name are marked deleted, its chain is freed, and the rest is
untouched. -/
structure RemovesExactly (fs fs' : Fat32Filesystem) (slots : List Slot) (node : Fat32VNode) :
    Prop where
  entries : ∀ c p, 2 ≤ c → p < fs.geo.bytesPerCluster → (fs.geo.view fs'.dev.bytes).data c p =
    if p % dirEntrySize = 0 ∧ ((c, p / dirEntrySize) = node.slot ∨
        (c, p / dirEntrySize) ∈ longBefore fs.clusters (entriesBefore slots node.slot)) then 0xE5
    else fs.clusters c p
  chain : ∃ file, OwnsChain fs node.firstCluster file ∧ ∀ c, fs.geo.Usable c →
    fs.geo.fatEntry fs'.dev.bytes c = if c ∈ file then 0 else fs.geo.fatEntry fs.dev.bytes c

/-- `unlink` removes the file that `lookup` finds; where it finds nothing, `unlink` reports that and
changes nothing. -/
structure UnlinkExact (v : Fat32Volume) (node : Fat32VNode) (fuel : Nat) (slots : List Slot)
    (name : CString) :
    Prop where
  found : ∀ child v', v.lookup fuel node name = some (0, some child, v') →
    (v'.vnodePool child).type = .file →
    ∃ fs', v.fs.unlink fuel node name = some (0, fs') ∧
      RemovesExactly v.fs fs' slots (v'.vnodePool child)
  missing : ∀ v', v.lookup fuel node name = some (-2, none, v') →
    ∃ fs', v.fs.unlink fuel node name = some (-2, fs') ∧ fs'.dev.bytes = v.fs.dev.bytes

/-- The file has the short name of `name`, no long name and a chain, and no volume label before it
has the same short name. Where there is no such file, no entry that `unlink` sees has the short
name. -/
def UnlinkAgrees (v : Fat32Volume) (slots : List Slot) (name : CString) : Prop :=
  match selects v.fs.clusters slots name with
  | none => ∀ slot ∈ slots, Exposed v.fs.clusters slot →
      entryName (v.fs.clusters slot.1) (slot.2 * dirEntrySize) ≠ formatTo83 name
  | some (c, e) => v.HasVnode → e.type = .file →
      entryName (v.fs.clusters c) e.dirOffset = formatTo83 name ∧
      longBefore v.fs.clusters (entriesBefore slots (e.vnode c).slot) = [] ∧
      (∃ file, OwnsChain v.fs e.firstCluster file) ∧
      ∀ slot ∈ entriesBefore slots (e.vnode c).slot,
        entryKind (v.fs.clusters slot.1) (slot.2 * dirEntrySize) = .volumeId →
        entryName (v.fs.clusters slot.1) (slot.2 * dirEntrySize) ≠ formatTo83 name

variable {slot t : Slot} {c : Nat} {e : FoundEntry}

section Selected

variable {data : Nat → Buffer} {g : Geometry} {cs : List Nat} {name : CString}

variable {before after : List Slot}

theorem entriesBefore_append
    (hslots : (before ++ slot :: after).Pairwise fun t u => t.1 = u.1 → t.2 < u.2) :
    entriesBefore (before ++ slot :: after) slot = before := by
  unfold entriesBefore
  rw [List.takeWhile_append_of_pos, List.takeWhile_cons_of_neg (by simp), List.append_nil]
  intro t ht
  apply decide_eq_true
  rintro rfl
  have hlt := (List.pairwise_append.mp hslots).2.2 t ht t List.mem_cons_self rfl
  exact Nat.lt_irrefl _ hlt

theorem selects_split (hcs : cs.Nodup) (h : selects data (g.slots cs) name = some (c, e)) :
    ∃ before slot after, g.slots cs = before ++ slot :: after ∧
      entriesBefore (g.slots cs) slot = before ∧
      (e.vnode c).slot = slot ∧ c = slot.1 ∧ e = foundEntry (data slot.1) (slot.2 * dirEntrySize) ∧
      entryKind (data slot.1) (slot.2 * dirEntrySize) = .live ∧
      ∀ t ∈ before, entryKind (data t.1) (t.2 * dirEntrySize) ≠ .endMark ∧
        (entryKind (data t.1) (t.2 * dirEntrySize) = .live →
          entryName (data t.1) (t.2 * dirEntrySize) ≠ formatTo83 name) := by
  obtain ⟨before, slot, after, lfnBuf, _, hslots, hpass, hkind, hvisit, hc⟩ := scanSlots_some h
  have hbefore : entriesBefore (g.slots cs) slot = before := by
    have hpairwise := g.slots_pairwise hcs
    rw [hslots] at hpairwise ⊢
    exact entriesBefore_append hpairwise
  have he : e = foundEntry (data slot.1) (slot.2 * dirEntrySize) := by
    unfold lookupVisit at hvisit
    split at hvisit
    · exact (Sum.inl.inj hvisit).symm
    · cases hvisit
  refine ⟨before, slot, after, hslots, hbefore, ?_, hc.symm, he, hkind, passSlots_lookup hpass⟩
  rw [he, ← hc]
  change (slot.1, slot.2 * dirEntrySize / dirEntrySize) = slot
  rw [Nat.mul_div_cancel _ (by decide)]

theorem exposed_of_passed (hcs : cs.Nodup) (hslots : g.slots cs = before ++ slot :: after)
    (hends : ∀ t ∈ before, entryKind (data t.1) (t.2 * dirEntrySize) ≠ .endMark)
    (ht : t ∈ before ++ [slot])
    (hkind : entryKind (data t.1) (t.2 * dirEntrySize) = .live ∨
      entryKind (data t.1) (t.2 * dirEntrySize) = .volumeId) :
    Exposed data t := by
  refine ⟨?_, hkind⟩
  intro j hj hend
  have hpairwise := g.slots_pairwise hcs
  rw [List.append_cons] at hslots
  have hj' : (t.1, j) ∈ g.slots cs := by
    obtain ⟨hc, hi⟩ := mem_slots.mp (hslots ▸ List.mem_append_left after ht)
    exact mem_slots.mpr ⟨hc, Nat.lt_trans hj hi⟩
  rw [hslots] at hpairwise hj'
  obtain ⟨hinner, _, houter⟩ := List.pairwise_append.mp hpairwise
  have hpassed : (t.1, j) ∈ before := by
    rcases List.mem_append.mp hj' with hin | hafter
    · rcases List.mem_append.mp hin with hbefore | hlast
      · exact hbefore
      have hslot := List.mem_singleton.mp hlast
      rcases List.mem_append.mp ht with hbefore | hself
      · have hlt := (List.pairwise_append.mp hinner).2.2 t hbefore (t.1, j) hlast rfl
        exact absurd hj (Nat.not_lt.mpr (Nat.le_of_lt hlt))
      · rw [List.mem_singleton.mp hself, ← hslot] at hj
        exact absurd hj (Nat.lt_irrefl _)
    · have hlt := houter t ht (t.1, j) hafter rfl
      exact absurd hj (Nat.not_lt.mpr (Nat.le_of_lt hlt))
  exact hends _ hpassed (entryKind_endMark.mpr hend)

theorem find_selected_iff (hcs : cs.Nodup) (hslots : g.slots cs = before ++ slot :: after)
    (hlive : entryKind (data slot.1) (slot.2 * dirEntrySize) = .live)
    (hpassed : ∀ t ∈ before, entryKind (data t.1) (t.2 * dirEntrySize) ≠ .endMark ∧
      (entryKind (data t.1) (t.2 * dirEntrySize) = .live →
        entryName (data t.1) (t.2 * dirEntrySize) ≠ formatTo83 name)) :
    (g.slots cs).find? (takes data (formatTo83 name)) = some slot ↔
      entryName (data slot.1) (slot.2 * dirEntrySize) = formatTo83 name ∧
        ∀ t ∈ before, entryKind (data t.1) (t.2 * dirEntrySize) = .volumeId →
          entryName (data t.1) (t.2 * dirEntrySize) ≠ formatTo83 name := by
  have hexposed : ∀ t ∈ before ++ [slot], entryKind (data t.1) (t.2 * dirEntrySize) = .live ∨
      entryKind (data t.1) (t.2 * dirEntrySize) = .volumeId → Exposed data t :=
    fun t ht hkind => exposed_of_passed hcs hslots (fun t ht => (hpassed t ht).1) ht hkind
  have hfresh : slot ∉ before := by
    intro hmem
    have hpairwise := g.slots_pairwise hcs
    rw [hslots] at hpairwise
    exact Nat.lt_irrefl _
      ((List.pairwise_append.mp hpairwise).2.2 slot hmem slot List.mem_cons_self rfl)
  constructor
  · intro hfind
    have htaken :=
      of_decide_eq_true (show takes data (formatTo83 name) slot = true from List.find?_some hfind)
    refine ⟨htaken.2, ?_⟩
    intro t ht hlabel hname
    rw [hslots, List.find?_append] at hfind
    cases hearlier : before.find? (takes data (formatTo83 name)) with
    | none =>
      have hskipped := List.find?_eq_none.mp hearlier t ht
      exact hskipped
        (decide_eq_true ⟨hexposed t (List.mem_append_left _ ht) (Or.inr hlabel), hname⟩)
    | some u =>
      rw [hearlier, Option.some_or] at hfind
      cases hfind
      exact hfresh (List.mem_of_find?_eq_some hearlier)
  · rintro ⟨hname, hlabels⟩
    have hskipped : before.find? (takes data (formatTo83 name)) = none := by
      rw [List.find?_eq_none]
      intro t ht htaken
      obtain ⟨⟨_, hkind⟩, hname'⟩ := of_decide_eq_true htaken
      rcases hkind with hkind | hkind
      · exact (hpassed t ht).2 hkind hname'
      · exact hlabels t ht hkind hname'
    have hself : slot ∈ before ++ [slot] := List.mem_append_right _ (List.mem_singleton_self _)
    rw [hslots, List.find?_append, hskipped, Option.none_or]
    exact List.find?_cons_of_pos (decide_eq_true ⟨hexposed slot hself (Or.inl hlive), hname⟩)

end Selected

variable {file : List Nat}

section Contents

variable {fs fs₁ : Fat32Filesystem} {slot : Slot}

theorem entryRemoved_ok (hfs₁ : Became fs fs.dev.bytes fs₁) (hslot : fs.Reads slot.1) :
    Became fs (fs.geo.setCluster slot.1 (patch (fs.clusters slot.1) (slot.2 * dirEntrySize) [0xE5])
      fs.dev.bytes) (entryRemoved fs₁ slot.1 slot.2 (fs.clusters slot.1)) := by
  obtain ⟨fs₂, hwrite, hfs₂⟩ := hfs₁.writeCluster_ok hslot.1.1 hslot.2
    (patch (fs.clusters slot.1) (slot.2 * dirEntrySize) [0xE5])
  rw [entryRemoved, hwrite]
  exact hfs₂.recorded .flush

theorem marked_data (hg : fs.geo.Valid) (hslot : 2 ≤ slot.1) {p : Nat} (hc : 2 ≤ c)
    (hp : p < fs.geo.bytesPerCluster) :
    (fs.geo.view (fs.geo.setCluster slot.1
        (patch (fs.clusters slot.1) (slot.2 * dirEntrySize) [0xE5]) fs.dev.bytes)).data c p =
      if p % dirEntrySize = 0 ∧ (c, p / dirEntrySize) = slot then 0xE5 else fs.clusters c p := by
  by_cases heq : c = slot.1
  · subst heq
    rw [setCluster_data_self _ _ _ hp]
    by_cases hpos : p = slot.2 * dirEntrySize
    · rw [hpos, patch_inside _ (Nat.le_refl _) (Nat.lt_succ_self _), Nat.sub_self, if_pos]
      · rfl
      · rw [Nat.mul_mod_left, Nat.mul_div_cancel _ (by decide)]
        exact ⟨rfl, rfl⟩
    rw [patch_outside _ (by rw [List.length_singleton]; omega), if_neg]
    rintro ⟨hmod, hdiv⟩
    have hindex' : p / dirEntrySize = slot.2 := congrArg Prod.snd hdiv
    apply hpos
    simp only [dirEntrySize] at hmod hindex' ⊢
    omega
  · rw [setCluster_data_of_ne hg _ _ hslot hc heq hp, if_neg]
    rintro ⟨_, hdiv⟩
    exact heq (congrArg Prod.fst hdiv)

theorem slot_offset_lt (hindex : slot.2 < fs.geo.entries) :
    slot.2 * dirEntrySize < fs.geo.bytesPerCluster := by
  have hle := Nat.div_mul_le_self fs.geo.bytesPerCluster dirEntrySize
  have hlt := Nat.mul_lt_mul_of_pos_right hindex (show 0 < dirEntrySize by decide)
  exact Nat.lt_of_lt_of_le hlt hle

theorem afterRemoval_other (hready : Ready fs) (hfs₁ : Became fs fs.dev.bytes fs₁)
    (hslot : fs.Reads slot.1) (ht : 2 ≤ t.1) (hindex : t.2 < fs.geo.entries) (hne : t ≠ slot)
    (hlive : fs.clusters t.1 (t.2 * dirEntrySize) ≠ 0xE5) :
    (fs.geo.view (afterRemoval fs₁ slot (fs.clusters slot.1)).dev.bytes).data t.1
      (t.2 * dirEntrySize) ≠ 0xE5 := by
  have hremoved := entryRemoved_ok hfs₁ hslot
  have hkept := freeClusterChain_keptOrZero (a := fs.geo.clusterAddr t.1 + t.2 * dirEntrySize)
    (by simp only [clusterAddr, dirEntrySize]; omega)
    (entryFirstCluster (fs.clusters slot.1) (slot.2 * dirEntrySize))
      (entryRemoved fs₁ slot.1 slot.2 (fs.clusters slot.1))
  rw [hremoved.bytes] at hkept
  have hdata := marked_data hready.geo hslot.1.1 ht (slot_offset_lt hindex)
  rw [if_neg] at hdata
  · intro hmarked
    rcases hkept with hkept | hzero
    · exact hlive (hdata.symm.trans (hkept.symm.trans hmarked))
    · exact absurd (hzero.symm.trans hmarked) (by decide)
  · rintro ⟨_, hdiv⟩
    rw [Nat.mul_div_cancel _ (by decide)] at hdiv
    exact hne hdiv

theorem afterRemoval_exact (hready : Ready fs) (hfs₁ : Became fs fs.dev.bytes fs₁)
    (hslot : fs.Reads slot.1)
    (hchain : OwnsChain fs (entryFirstCluster (fs.clusters slot.1) (slot.2 * dirEntrySize)) file) :
    ∃ d', Became fs d' (afterRemoval fs₁ slot (fs.clusters slot.1)) ∧
      Freed fs.geo (fs.geo.setCluster slot.1
        (patch (fs.clusters slot.1) (slot.2 * dirEntrySize) [0xE5]) fs.dev.bytes) d' file := by
  refine (entryRemoved_ok hfs₁ hslot).freeClusterChain_ok (hchain.1.congr ?_) hchain.2
  intro c hc
  exact fatEntry_setCluster hready.geo _ _ (hchain.2 c hc).2

end Contents

section Calls

variable {v : Fat32Volume} {node : Fat32VNode} {cs : List Nat} {fuel : Nat} {name : CString}

theorem lookup_full (hready : Ready v.fs) (hdir : node.type = .directory)
    (hwalk : Walk v.fs.Reads (v.fs.geo.fatEntry v.fs.dev.bytes) node.firstCluster cs)
    (hfuel : cs.length < fuel) (hfull : ¬ v.HasVnode)
    (hselects : selects v.fs.clusters (v.fs.geo.slots cs) name = some (c, e)) :
    ∃ v', v.lookup fuel node name = some (-3, none, v') := by
  obtain ⟨fs', _, hlookup⟩ := lookup_ok hready hdir hwalk hfuel name
  have hnone : (List.range maxCachedVnodes).find? (fun i => !v.vnodeInUse i) = none := by
    rw [List.find?_eq_none]
    intro i hi hfree
    refine hfull ⟨i, List.mem_range.mp hi, ?_⟩
    simpa using hfree
  rw [hselects] at hlookup
  simp only [Fat32Volume.allocVnode, hnone] at hlookup
  exact ⟨_, hlookup⟩

variable {fs₁ : Fat32Filesystem} {child : Fat32VNode}

/-- If exactly the selected entry and its long name are gone, `unlink` has taken this entry and
there is no long name. -/
theorem removed_selected (hready : Ready v.fs)
    (hwalk : Walk v.fs.Reads (v.fs.geo.fatEntry v.fs.dev.bytes) node.firstCluster cs)
    (hfs₁ : Became v.fs v.fs.dev.bytes fs₁) {taken : Slot} (hslot : slot ∈ v.fs.geo.slots cs)
    (htaken : taken ∈ v.fs.geo.slots cs)
    (hlive : entryKind (v.fs.clusters slot.1) (slot.2 * dirEntrySize) = .live)
    (hchild : child.slot = slot)
    (hexact : RemovesExactly v.fs (afterRemoval fs₁ taken (v.fs.clusters taken.1))
      (v.fs.geo.slots cs) child) :
    taken = slot ∧ longBefore v.fs.clusters (entriesBefore (v.fs.geo.slots cs) slot) = [] := by
  have hlow : ∀ t ∈ v.fs.geo.slots cs, v.fs.Reads t.1 ∧ t.2 < v.fs.geo.entries := by
    intro t ht
    obtain ⟨hc, hi⟩ := mem_slots.mp ht
    exact ⟨hwalk.visited _ hc, hi⟩
  -- an entry that must be gone and was not deleted before is the one taken
  have honly :
      ∀ t ∈ v.fs.geo.slots cs, entryKind (v.fs.clusters t.1) (t.2 * dirEntrySize) ≠ .deleted →
      t = slot ∨ t ∈ longBefore v.fs.clusters (entriesBefore (v.fs.geo.slots cs) slot) →
        t = taken := by
    intro t ht hkind hgone
    obtain ⟨hc, hi⟩ := hlow t ht
    by_contra hne
    apply afterRemoval_other hready hfs₁ (hlow taken htaken).1 hc.1.1 hi hne
      (fun h => hkind (entryKind_deleted h))
    rw [hexact.entries t.1 _ hc.1.1 (slot_offset_lt hi), hchild, Nat.mul_div_cancel _ (by decide),
      Nat.mul_mod_left, if_pos ⟨rfl, hgone⟩]
  have hself : slot = taken := honly slot hslot (by rw [hlive]; decide) (Or.inl rfl)
  refine ⟨hself.symm, ?_⟩
  rw [List.eq_nil_iff_forall_not_mem]
  intro t ht
  have hlong : entryKind (v.fs.clusters t.1) (t.2 * dirEntrySize) = .longName := by
    have hpos := List.mem_takeWhile_imp ht
    exact of_decide_eq_true hpos
  have hmem : t ∈ v.fs.geo.slots cs :=
    List.takeWhile_subset _ (List.mem_reverse.mp (List.takeWhile_subset _ ht))
  have hsame := honly t hmem (by rw [hlong]; decide) (Or.inr ht)
  rw [hsame, ← hself, hlive] at hlong
  cases hlong

theorem removesExactly_of_taken (hready : Ready v.fs) (hfs₁ : Became v.fs v.fs.dev.bytes fs₁)
    {slots : List Slot} (hslot : v.fs.Reads child.slot.1)
    (hfirst : child.firstCluster = entryFirstCluster (v.fs.clusters child.slot.1)
      (child.slot.2 * dirEntrySize))
    (hlong : longBefore v.fs.clusters (entriesBefore slots child.slot) = [])
    (hchain : OwnsChain v.fs child.firstCluster file) :
    RemovesExactly v.fs (afterRemoval fs₁ child.slot (v.fs.clusters child.slot.1)) slots child := by
  obtain ⟨d', hbecame, hfreed⟩ := afterRemoval_exact hready hfs₁ hslot (hfirst ▸ hchain)
  refine ⟨?_, file, hchain, ?_⟩
  · intro c p hc hp
    rw [hbecame.bytes, hfreed.data, marked_data hready.geo hslot.1.1 hc hp, hlong]
    simp only [List.not_mem_nil, or_false]
  · intro c hc
    rw [hbecame.bytes, hfreed.link c hc, fatEntry_setCluster hready.geo _ _ hc.2]

/-- `unlink` removes exactly what `lookup` finds if and only if they agree on the entry and it has
no long name. -/
theorem unlink_exact_iff (hready : Ready v.fs) (hdir : node.type = .directory)
    (hwalk : Walk v.fs.Reads (v.fs.geo.fatEntry v.fs.dev.bytes) node.firstCluster cs)
    (hfuel : cs.length < fuel) :
    UnlinkExact v node fuel (v.fs.geo.slots cs) name ↔ UnlinkAgrees v (v.fs.geo.slots cs) name := by
  obtain ⟨fs₁, hfs₁, hunlink⟩ := unlink_ok hready hdir hwalk hfuel name
  unfold UnlinkAgrees
  cases hselects : selects v.fs.clusters (v.fs.geo.slots cs) name with
  | none =>
    obtain ⟨fs₂, _, hlookup⟩ := lookup_ok hready hdir hwalk hfuel name
    simp only [hselects] at hlookup
    constructor
    · intro hexact slot hslot hexposed hname
      obtain ⟨fs', hresult, _⟩ := hexact.missing _ hlookup
      cases hfind : (v.fs.geo.slots cs).find? (takes v.fs.clusters (formatTo83 name)) with
      | none => exact List.find?_eq_none.mp hfind slot hslot (decide_eq_true ⟨hexposed, hname⟩)
      | some taken =>
        simp only [hfind] at hunlink
        rw [hunlink] at hresult
        cases hresult
    · intro hnone
      have hfind : (v.fs.geo.slots cs).find? (takes v.fs.clusters (formatTo83 name)) = none := by
        rw [List.find?_eq_none]
        intro slot hslot htaken
        obtain ⟨hexposed, hname⟩ := of_decide_eq_true htaken
        exact hnone slot hslot hexposed hname
      simp only [hfind] at hunlink
      refine ⟨?_, fun v' _ => ⟨fs₁, hunlink, hfs₁.bytes⟩⟩
      intro child v' hfound
      rw [hlookup] at hfound
      cases hfound
  | some found =>
    obtain ⟨c, e⟩ := found
    obtain ⟨before, slot, after, hslots, hbefore, hslot, rfl, he, hlive, hpassed⟩ :=
      selects_split hwalk.nodup hselects
    have hmem : slot ∈ v.fs.geo.slots cs := by
      rw [hslots]
      exact List.mem_append_right _ List.mem_cons_self
    have hreads : v.fs.Reads slot.1 := hwalk.visited _ (mem_slots.mp hmem).1
    have hfind := find_selected_iff hwalk.nodup hslots hlive hpassed
    by_cases hvnode : v.HasVnode
    · obtain ⟨child, v', hlookup, _, hchild⟩ := lookup_found hready hdir hwalk hfuel hvnode hselects
      constructor
      · intro hexact _ hfile
        obtain ⟨fs', hresult, hremoves⟩ :=
          hexact.found child v' hlookup (by rw [hchild]; exact hfile)
        rw [hchild] at hremoves
        cases htaken : (v.fs.geo.slots cs).find? (takes v.fs.clusters (formatTo83 name)) with
        | none =>
          simp only [htaken] at hunlink
          rw [hunlink] at hresult
          cases hresult
        | some taken =>
          simp only [htaken] at hunlink
          rw [hunlink] at hresult
          cases hresult
          obtain ⟨rfl, hlong⟩ := removed_selected hready hwalk hfs₁ hmem
            (List.mem_of_find?_eq_some htaken) hlive hslot hremoves
          obtain ⟨hname, hlabels⟩ := hfind.mp htaken
          obtain ⟨file, hchain, _⟩ := hremoves.chain
          rw [hslot, hbefore]
          rw [hbefore] at hlong
          refine ⟨?_, hlong, ⟨file, hchain⟩, hlabels⟩
          rw [he]
          exact hname
      · intro hagrees
        refine ⟨?_, ?_⟩
        · intro child' v'' hlookup' hfile
          rw [hlookup] at hlookup'
          cases hlookup'
          rw [hchild] at hfile ⊢
          obtain ⟨hname, hlong, ⟨file, hchain⟩, hlabels⟩ := hagrees hvnode hfile
          rw [hslot, hbefore] at hlabels
          have hname' : entryName (v.fs.clusters slot.1) (slot.2 * dirEntrySize) =
              formatTo83 name := by
            rw [he] at hname
            exact hname
          simp only [hfind.mpr ⟨hname', hlabels⟩] at hunlink
          rw [← hslot] at hunlink
          refine ⟨_, hunlink, removesExactly_of_taken hready hfs₁ ?_ ?_ hlong hchain⟩
          · exact hreads
          · rw [hslot, he]
            rfl
        · intro v'' hmissing
          rw [hlookup] at hmissing
          cases hmissing
    · obtain ⟨v', hlookup⟩ := lookup_full hready hdir hwalk hfuel hvnode hselects
      refine ⟨fun _ h => absurd h hvnode, fun _ => ⟨?_, ?_⟩⟩
      · intro child v'' hfound
        rw [hlookup] at hfound
        cases hfound
      · intro v'' hmissing
        rw [hlookup] at hmissing
        cases hmissing

end Calls

/-- A file found by its long name: `unlink` finds nothing under it. -/
theorem long_unlink_fails :
    (∃ child v', (longNameVolume (letters 13)).lookup 2 longNameRoot (letters 13) =
      some (0, some child, v') ∧ (v'.vnodePool child).type = .file) ∧
      ((longNameVolume (letters 13)).fs.unlink 2 longNameRoot (letters 13)).map (·.1) = some (-2) ∧
      ¬ UnlinkExact (longNameVolume (letters 13)) longNameRoot 2
        ((longNameVolume (letters 13)).fs.geo.slots [2]) (letters 13) := by
  have hlookup : ((longNameVolume (letters 13)).lookup 2 longNameRoot (letters 13)).any (fun r =>
      decide (r.1 = 0) && r.2.1.any fun child => decide ((r.2.2.vnodePool child).type = .file)) =
        true := by
    decide +kernel
  have hunlink : ((longNameVolume (letters 13)).fs.unlink 2 longNameRoot (letters 13)).map (·.1) =
      some (-2) := by
    decide +kernel
  obtain ⟨⟨code, child, v'⟩, hlookup, hresult⟩ := (Option.any_eq_true _ _).mp hlookup
  obtain ⟨hcode, hchild⟩ := Bool.and_eq_true_iff.mp hresult
  obtain ⟨child, rfl, hfile⟩ := (Option.any_eq_true _ _).mp hchild
  cases of_decide_eq_true hcode
  refine ⟨⟨child, v', hlookup, of_decide_eq_true hfile⟩, hunlink, ?_⟩
  intro hexact
  obtain ⟨fs', hremoved, _⟩ := hexact.found child v' hlookup (of_decide_eq_true hfile)
  rw [hremoved] at hunlink
  cases hunlink

theorem short_unlink_exact :
    UnlinkExact (longNameVolume []) longNameRoot 2 ((longNameVolume []).fs.geo.slots [2])
      [0x46, 0x49, 0x4C, 0x45, 0x7E, 0x31] := by
  have hready := longNameVolume_ready []
  have hwalk : Walk (longNameVolume []).fs.Reads
      ((longNameVolume []).fs.geo.fatEntry (longNameVolume []).fs.dev.bytes)
      longNameRoot.firstCluster [2] :=
    Walk.step (by decide) (Walk.stop (by decide +kernel))
  have hchain : OwnsChain (longNameVolume []).fs 3 [3] := by
    refine ⟨Walk.step (by decide) (Walk.stop (by decide +kernel)), ?_⟩
    intro c hc
    cases List.mem_singleton.mp hc
    exact ⟨by decide, by decide⟩
  refine (unlink_exact_iff hready rfl hwalk (by decide)).mpr ?_
  have hselects : selects (longNameVolume []).fs.clusters ((longNameVolume []).fs.geo.slots [2])
      [0x46, 0x49, 0x4C, 0x45, 0x7E, 0x31] =
        some (2, foundEntry ((longNameVolume []).fs.clusters 2) 0) := by
    decide +kernel
  unfold UnlinkAgrees
  intro _ _
  exact ⟨by decide +kernel, by decide +kernel, ⟨[3], hchain⟩, by decide +kernel⟩

end LlamaOS.Fs
