import LlamaOS.Fs.DirectoryScans
import LlamaOS.Fs.VnodeCalls

/-!
# Removing an entry

`unlink` takes the first entry with the short name of its argument. It does not stop at the
end mark of a directory, only in the cluster of the mark, and takes volume labels. Then it
frees the chain of the entry.
-/

namespace LlamaOS.Fs
open ByteBuffer BlockChain Fs.Geometry Fat32Filesystem

/-- `unlink` compares the name of this entry. -/
def Exposed (data : Nat → Buffer) (slot : Slot) : Prop :=
  (∀ j < slot.2, data slot.1 (j * dirEntrySize) ≠ 0x00) ∧
    (entryKind (data slot.1) (slot.2 * dirEntrySize) = .live ∨
      entryKind (data slot.1) (slot.2 * dirEntrySize) = .volumeId)

instance (data : Nat → Buffer) (slot : Slot) : Decidable (Exposed data slot) := by
  unfold Exposed
  infer_instance

def takes (data : Nat → Buffer) (target83 : List (BitVec 8)) (slot : Slot) : Bool :=
  decide (Exposed data slot ∧ entryName (data slot.1) (slot.2 * dirEntrySize) = target83)

variable {c : Nat}

section Taken

variable (data : Nat → Buffer) (target83 : List (BitVec 8))

theorem takes_behind_end {i j : Nat} (hend : data c (i * dirEntrySize) = 0x00) (hij : i ≤ j) :
    takes data target83 (c, j) = false := by
  apply decide_eq_false
  rintro ⟨⟨hbefore, hkind⟩, _⟩
  rcases Nat.lt_or_eq_of_le hij with hlt | rfl
  · exact hbefore i hlt hend
  · exact (entryKind_shown.mp hkind).1 hend

theorem unlinkEntries_find (c left : Nat) (i)
    (hbefore : ∀ j < i, data c (j * dirEntrySize) ≠ 0x00) :
    ((List.range' i left).map fun i => (c, i)).find? (takes data target83) =
      (unlinkEntries target83 (data c) left i).map fun i => (c, i) := by
  induction left generalizing i with
  | zero => rfl
  | succ left ih =>
    rw [List.range'_succ, List.map_cons, unlinkEntries]
    by_cases hend : data c (i * dirEntrySize) = 0x00
    · rw [if_pos hend, Option.map_none, List.find?_eq_none]
      intro slot hslot
      rw [← List.map_cons, ← List.range'_succ, List.mem_map] at hslot
      obtain ⟨j, hj, rfl⟩ := hslot
      rw [takes_behind_end data target83 hend (List.mem_range'_1.mp hj).1]
      exact Bool.false_ne_true
    have hnext : ∀ j < i + 1, data c (j * dirEntrySize) ≠ 0x00 := by
      intro j hj
      rcases Nat.lt_succ_iff_lt_or_eq.mp hj with hlt | rfl
      · exact hbefore j hlt
      · exact hend
    have hskip : takes data target83 (c, i) = false →
        ((c, i) :: (List.range' (i + 1) left).map fun i => (c, i)).find?
        (takes data target83) = (unlinkEntries target83 (data c) left (i + 1)).map fun i =>
          (c, i) := by
      intro hskipped
      rw [List.find?_cons_of_neg (by rw [hskipped]; exact Bool.false_ne_true)]
      exact ih (i + 1) hnext
    rw [if_neg hend]
    by_cases hdeleted : data c (i * dirEntrySize) = 0xE5
    · rw [if_pos hdeleted]
      exact hskip (decide_eq_false fun h => (entryKind_shown.mp h.1.2).2.1 hdeleted)
    rw [if_neg hdeleted]
    by_cases hlong : entryAttr (data c) (i * dirEntrySize) &&& fatAttrLfn = fatAttrLfn
    · rw [if_pos hlong]
      exact hskip (decide_eq_false fun h => (entryKind_shown.mp h.1.2).2.2 hlong)
    rw [if_neg hlong]
    by_cases hname : entryName (data c) (i * dirEntrySize) = target83
    · rw [if_pos hname]
      exact List.find?_cons_of_pos
        (decide_eq_true ⟨⟨hbefore, entryKind_shown.mpr ⟨hend, hdeleted, hlong⟩⟩, hname⟩)
    · rw [if_neg hname]
      exact hskip (decide_eq_false fun h => hname h.2)

end Taken

/-- The state after the removal of an entry. -/
def afterRemoval (fs : Fat32Filesystem) (slot : Slot) (dir : Buffer) : Fat32Filesystem :=
  (entryRemoved fs slot.1 slot.2 dir).freeClusterChain
    (entryFirstCluster dir (slot.2 * dirEntrySize))

theorem freeClusterChain_low {start : Nat} (hstart : start < 2) (fs : Fat32Filesystem) :
    fs.freeClusterChain start = fs := by
  rw [freeClusterChain, if_pos hstart]

variable {fs : Fat32Filesystem} {d : Buffer} {g : Geometry} {cs : List Nat}

theorem unlinkLoop_ok (target83 : List (BitVec 8)) {curr : Nat}
    (hwalk : Walk fs.Reads (fs.geo.fatEntry d) curr cs) {fs₁ : Fat32Filesystem} {fuel : Nat}
    (hfs₁ : Became fs d fs₁) (hfuel : cs.length < fuel) :
    ∃ fs', Became fs d fs' ∧ unlinkLoop target83 fuel curr fs₁ =
      match (fs.geo.slots cs).find? (takes (fs.geo.view d).data target83) with
      | none => some (-2, fs')
      | some slot => some (0, afterRemoval fs' slot ((fs.geo.view d).data slot.1)) := by
  induction hwalk generalizing fs₁ fuel with
  | stop hstop =>
    obtain ⟨fuel, rfl⟩ := Nat.exists_eq_succ_of_ne_zero (Nat.ne_of_gt hfuel)
    rw [unlinkLoop]
    split
    · rename_i hcurr
      obtain ⟨fs₂, hread, hfs₂⟩ :=
        hfs₁.readCluster_refused hcurr fun hcluster => hstop ⟨hcurr, hcluster⟩
      rw [hread]
      exact ⟨fs₂, hfs₂, rfl⟩
    · exact ⟨fs₁, hfs₁, rfl⟩
  | @step curr cs hcurr next ih =>
    obtain ⟨fuel, rfl⟩ := Nat.exists_eq_succ_of_ne_zero (Nat.ne_of_gt (Nat.zero_lt_of_lt hfuel))
    obtain ⟨fs₂, hread, hfs₂⟩ := hfs₁.readCluster_ok hcurr.1.1 hcurr.2
    have hfind :=
      unlinkEntries_find (fs.geo.view d).data target83 curr fs.geo.entries 0 (fun j hj => by omega)
    rw [← List.range_eq_range'] at hfind
    rw [unlinkLoop, if_pos hcurr.1, slots_cons, List.find?_append, hfind]
    simp only [hread, hfs₂.geo]
    rw [show fs.geo.bytesPerCluster / dirEntrySize = fs.geo.entries from rfl]
    cases hentries : unlinkEntries target83 ((fs.geo.view d).data curr) fs.geo.entries 0 with
    | some i =>
      refine ⟨fs₂, hfs₂, ?_⟩
      simp only [Option.map_some, Option.some_or, afterRemoval]
      by_cases hfirst : entryFirstCluster ((fs.geo.view d).data curr) (i * dirEntrySize) ≥ 2
      · rw [if_pos hfirst]
        rfl
      · rw [if_neg hfirst, freeClusterChain_low (Nat.lt_of_not_le hfirst)]
        rfl
    | none =>
      obtain ⟨fs₃, hentry, hfs₃⟩ := hfs₂.readFatEntry_ok (hcurr.hasLink hfs₂.valid.toAccepted)
      have hless : cs.length < fuel := by
        rw [List.length_cons] at hfuel
        omega
      simp only [hentry]
      exact ih hfs₃ hless

theorem unlink_ok {node : Fat32VNode} {fuel : Nat} (hready : Ready fs)
    (hdir : node.type = .directory)
    (hwalk : Walk fs.Reads (fs.geo.fatEntry fs.dev.bytes) node.firstCluster cs)
    (hfuel : cs.length < fuel) (name : CString) :
    ∃ fs₁, Became fs fs.dev.bytes fs₁ ∧ fs.unlink fuel node name =
      match (fs.geo.slots cs).find? (takes fs.clusters (formatTo83 name)) with
      | none => some (-2, fs₁)
      | some slot => some (0, afterRemoval fs₁ slot (fs.clusters slot.1)) := by
  obtain ⟨buf, fs₁, halloc, hfs₁⟩ := hready.became.kmalloc_ok
  obtain ⟨fs', hfs', hloop⟩ := unlinkLoop_ok (formatTo83 name) hwalk hfs₁ hfuel
  refine ⟨fs', hfs', ?_⟩
  rw [unlink, if_neg (not_not.mpr hdir)]
  simp only [halloc]
  exact hloop

/-- The chain `file` is freed and nothing else. -/
structure Freed (g : Geometry) (d d' : Buffer) (file : List Nat) : Prop where
  link : ∀ c, g.Usable c → g.fatEntry d' c = if c ∈ file then 0 else g.fatEntry d c
  data : ∀ c i, (g.view d').data c i = (g.view d).data c i
  copies : g.CopiesEqual d → g.CopiesEqual d'

variable {d' : Buffer} {file : List Nat}

theorem Freed.cons (hg : g.Valid) (hc : g.Usable c) (h : Freed g (g.setFat c 0 d) d' file) :
    Freed g d d' (c :: file) where
  link e he := by
    rw [h.link e he, fatEntry_setFat hg hc.2 he.2]
    by_cases heq : e = c
    · rw [if_pos heq, if_pos (List.mem_cons.mpr (Or.inl heq))]
      exact ite_self _
    · rw [if_neg heq]
      simp only [List.mem_cons, heq, false_or]
  data e i := by
    rw [h.data e i]
    exact setFat_data hg hc.2 d e i
  copies hcopies := h.copies (hcopies.setFat hg hc.2 0)

/-- The contents after the entries of `file` have been set to zero. -/
def Geometry.cleared (g : Geometry) (file : List Nat) (d : Buffer) : Buffer :=
  file.foldl (fun d c => g.setFat c 0 d) d

theorem freed_cleared (hg : g.Valid) (husable : ∀ c ∈ file, g.Usable c) :
    Freed g d (g.cleared file d) file := by
  induction file generalizing d with
  | nil => exact ⟨fun _ _ => rfl, fun _ _ => rfl, id⟩
  | cons c file ih =>
    exact (ih fun e he => husable e (List.mem_cons_of_mem _ he)).cons hg
      (husable c List.mem_cons_self)

theorem fatWord_cleared (hg : g.Valid) (husable : ∀ c ∈ file, g.Usable c) (hnodup : file.Nodup)
    {f e : Nat} (hf : f < g.numFats) (he : e < g.tableSize32 * 128) :
    g.fatWord (g.cleared file d) f e =
      if e ∈ file then mergeEntry (g.fatWord d f e) 0 else g.fatWord d f e := by
  induction file generalizing d with
  | nil => rfl
  | cons c file ih =>
    have hcovers := hg.covers
    have hc := husable c List.mem_cons_self
    have hstep : g.cleared (c :: file) d = g.cleared file (g.setFat c 0 d) := rfl
    obtain ⟨hnot, hnodup⟩ := List.nodup_cons.mp hnodup
    rw [hstep, ih (fun e he => husable e (List.mem_cons_of_mem _ he)) hnodup,
      fatWord_setFat (by have := hc.2; omega) he hf]
    by_cases heq : e = c
    · rw [heq, if_neg hnot, if_pos rfl, if_pos List.mem_cons_self]
    · simp only [heq, if_false, List.mem_cons, false_or]

theorem freeLoop_stored (hg : g.Valid) {curr left : Nat} {fs : Fat32Filesystem}
    (hserves : Serves fs) (hgeo : fs.geo = g)
    (hwalk : Walk IsCluster (g.fatEntry fs.dev.bytes) curr file) (hleft : file.length ≤ left)
    (husable : ∀ c ∈ file, g.Usable c) :
    Stored fs (g.cleared file fs.dev.bytes) (freeLoop left curr fs) := by
  induction file generalizing curr left fs with
  | nil =>
    have hidle : freeLoop left curr fs = fs := by
      cases hwalk with
      | stop hstop =>
        cases left with
        | zero => rfl
        | succ left => rw [freeLoop, if_neg hstop]
    rw [hidle]
    exact ⟨rfl, rfl, rfl, rfl, rfl⟩
  | cons c file ih =>
    obtain ⟨left, rfl⟩ :=
      Nat.exists_eq_succ_of_ne_zero (Nat.ne_of_gt (Nat.lt_of_lt_of_le (Nat.succ_pos _) hleft))
    have hnodup := List.nodup_cons.mp hwalk.nodup
    cases hwalk with
    | step hcurr next =>
      subst hgeo
      have hc := husable c List.mem_cons_self
      have hentry : c < fs.geo.tableSize32 * 128 := Nat.lt_of_lt_of_le hc.2 hg.covers
      have hread := hserves.recorded (.read (fs.geo.fatBeginLba + c * 4 / 512) 1)
      obtain ⟨fs₂, hwrite, hfs₂⟩ := hread.writeFatEntry_ok 0 hentry
      have hstored : Stored fs (fs.geo.setFat c 0 fs.dev.bytes) fs₂ :=
        ⟨hfs₂.bytes, hfs₂.geo, hfs₂.mounted, hfs₂.limits, hfs₂.heap⟩
      have hnext :
          Walk IsCluster (fs.geo.fatEntry fs₂.dev.bytes) (fs.geo.fatEntry fs.dev.bytes c) file := by
        rw [hstored.bytes]
        apply next.congr
        intro e he
        rw [fatEntry_setFat hg hc.2 (husable e (List.mem_cons_of_mem _ he)).2, if_neg]
        intro heq
        exact hnodup.1 (heq ▸ he)
      have hrest := ih (hstored.serves hserves) hstored.geo hnext (Nat.le_of_succ_le_succ hleft)
        fun e he => husable e (List.mem_cons_of_mem _ he)
      rw [hstored.bytes] at hrest
      rw [freeLoop, if_pos hcurr, hserves.readFatEntry_eq (hserves.hasLink hg.copies.1 hentry)]
      simp only [hwrite]
      exact hstored.trans hrest

def OwnsChain (fs : Fat32Filesystem) (first : Nat) (file : List Nat) : Prop :=
  Walk IsCluster (fs.geo.fatEntry fs.dev.bytes) first file ∧ ∀ c ∈ file, fs.geo.Usable c

variable {first : Nat}

theorem freeClusterChain_stored (hg : fs.geo.Valid) (hserves : Serves fs)
    (hchain : OwnsChain fs first file) :
    Stored fs (fs.geo.cleared file fs.dev.bytes) (fs.freeClusterChain first) := by
  by_cases hfirst : first < 2
  · rw [freeClusterChain_low hfirst]
    cases hchain.1 with
    | stop _ => exact ⟨rfl, rfl, rfl, rfl, rfl⟩
    | step hcurr _ => omega
  · rw [freeClusterChain, if_neg hfirst]
    exact freeLoop_stored hg hserves rfl hchain.1
      (usable_length_le hchain.1.nodup hchain.2) hchain.2

theorem Became.freeClusterChain_ok {fs' : Fat32Filesystem} (h : Became fs d fs')
    (hwalk : Walk IsCluster (fs.geo.fatEntry d) first file)
    (husable : ∀ c ∈ file, fs.geo.Usable c) :
    ∃ d', Became fs d' (fs'.freeClusterChain first) ∧ Freed fs.geo d d' file := by
  have hchain : OwnsChain fs' first file := by
    rw [OwnsChain, h.geo, h.bytes]
    exact ⟨hwalk, husable⟩
  have hstored := freeClusterChain_stored h.ready.geo h.ready.serves hchain
  rw [h.geo, h.bytes] at hstored
  exact ⟨_, h.stored hstored, freed_cleared h.valid husable⟩

/-- One turn of the loop of `free_cluster_chain`: an entry is read and set to zero. -/
def clearEntry (fs : Fat32Filesystem) (c : Nat) : Fat32Filesystem :=
  ((fs.readFatEntry c).2.writeFatEntry c 0).2

theorem freeLoop_turns (left : Nat) :
    ∀ (curr : Nat) (fs : Fat32Filesystem), ∃ cs : List Nat,
      cs.length ≤ left ∧ freeLoop left curr fs = cs.foldl clearEntry fs := by
  induction left with
  | zero => exact fun _ fs => ⟨[], Nat.le_refl 0, rfl⟩
  | succ left ih =>
    intro curr fs
    rw [freeLoop]
    split
    · obtain ⟨cs, hcs, hrest⟩ := ih (fs.readFatEntry curr).1 (clearEntry fs curr)
      exact ⟨curr :: cs, Nat.succ_le_succ hcs, hrest⟩
    · exact ⟨[], Nat.zero_le _, rfl⟩

theorem freeClusterChain_turns (fs : Fat32Filesystem) (start : Nat) :
    ∃ cs : List Nat, cs.length ≤ fs.geo.totalClusters ∧ fs.freeClusterChain start =
      cs.foldl clearEntry fs := by
  rw [freeClusterChain]
  split
  · exact ⟨[], Nat.zero_le _, rfl⟩
  · exact freeLoop_turns _ start fs

theorem freeClusterChain_clears_chain (fs : Fat32Filesystem) (start : Nat) :
    (∀ chain, fs.geo.Valid → Serves fs → OwnsChain fs start chain →
      ∀ f < fs.geo.numFats, ∀ e < fs.geo.tableSize32 * 128,
        (e ∈ chain → fs.geo.fatWord (fs.freeClusterChain start).dev.bytes f e % 2 ^ 28 = 0) ∧
        (e ∉ chain → fs.geo.fatWord (fs.freeClusterChain start).dev.bytes f e =
          fs.geo.fatWord fs.dev.bytes f e)) ∧
    ∃ cs : List Nat, cs.length ≤ fs.geo.totalClusters ∧ fs.freeClusterChain start =
      cs.foldl clearEntry fs := by
  constructor
  · intro chain hg hserves hchain f hf e he
    rw [(freeClusterChain_stored hg hserves hchain).bytes,
      fatWord_cleared hg hchain.2 hchain.1.nodup hf he]
    constructor
    · intro hmem
      rw [if_pos hmem]
      exact mergeEntry_mod _ 0
    · intro hmem
      exact if_neg hmem
  · exact freeClusterChain_turns fs start

theorem twoClusters_cleared :
    twoClusters.geo.fatWord (twoClusters.freeClusterChain 2).dev.bytes 1 3 % 2 ^ 28 = 0 := by
  have hwalk : Walk IsCluster (twoClusters.geo.fatEntry twoClusters.dev.bytes) 2 [2, 3] :=
    Walk.step (by decide) (Walk.step (by decide +kernel) (Walk.stop (by decide +kernel)))
  have husable : ∀ e ∈ [2, 3], twoClusters.geo.Usable e := by
    unfold Geometry.Usable
    decide
  exact ((freeClusterChain_clears_chain twoClusters 2).1 [2, 3] smallGeometry_valid
    ⟨⟨rfl, fun _ => rfl⟩, rfl, by decide⟩ ⟨hwalk, husable⟩ 1 (by decide) 3 (by decide)).1
      (by decide)

/-- The byte is kept or zeroed. -/
def KeptOrZero (d d' : Buffer) (a : Nat) : Prop := d' a = d a ∨ d' a = 0

variable {a : Nat}

theorem KeptOrZero.trans {d'' : Buffer} (h : KeptOrZero d d' a) (h' : KeptOrZero d' d'' a) :
    KeptOrZero d d'' a := by
  rcases h' with h' | h'
  · rcases h with h | h
    · exact Or.inl (h'.trans h)
    · exact Or.inr (h'.trans h)
  · exact Or.inr h'

/-- An entry of the table that is cleared keeps four bits of its last byte only. -/
theorem setFatIn_keptOrZero (g : Geometry) (c : Nat) (ha : a % 4 = 0) (copies : List Nat)
    (d : Buffer) : KeptOrZero d (g.setFatIn c 0 copies d) a := by
  induction copies generalizing d with
  | nil => exact Or.inl rfl
  | cons f copies ih =>
    refine KeptOrZero.trans ?_ (ih (g.setFatCopy c 0 f d))
    unfold setFatCopy
    by_cases hin : g.fatAddr f c ≤ a ∧ a < g.fatAddr f c + 4
    · have haddr : a = g.fatAddr f c := by
        have haligned : g.fatAddr f c % 4 = 0 := by
          unfold fatAddr
          omega
        omega
      have hlow : mergeEntry (g.fatWord d f c) 0 % 256 = 0 := by
        have hdvd : mergeEntry (g.fatWord d f c) 0 % 2 ^ 28 = 0 := mergeEntry_mod _ 0
        omega
      right
      rw [patch_inside _ (by omega) (by rw [leBytes_length]; omega), haddr, Nat.sub_self, leBytes,
        List.getD_cons_zero]
      apply BitVec.eq_of_toNat_eq
      exact hlow
    · left
      apply patch_outside
      rw [leBytes_length]
      omega

/-- Where the device refuses a sector, the copies behind it are left as they are. -/
theorem writeFatCopies_bytes (c value : Nat) (copies : List Nat) (fs : Fat32Filesystem) :
    ∃ done, done <+: copies ∧
      (writeFatCopies (c * 4 / 512) (c * 4 % 512) value copies fs).2.dev.bytes =
      fs.geo.setFatIn c value done fs.dev.bytes := by
  induction copies generalizing fs with
  | nil => exact ⟨[], List.prefix_rfl, rfl⟩
  | cons f copies ih =>
    rw [writeFatCopies]
    simp only [BlockDevice.readSectors]
    split
    · rename_i dev hdev
      cases (Prod.mk.inj hdev).2
      exact ⟨[], List.nil_prefix, rfl⟩
    rename_i buf dev hdev
    obtain ⟨hbuf, rfl⟩ := Prod.mk.inj hdev
    split at hbuf
    · cases hbuf
    cases Option.some.inj hbuf
    rw [loadLe_sector fs.geo c f fs.dev.bytes rfl]
    simp only [BlockDevice.writeSectors]
    split
    · rename_i dev' hdev'
      split at hdev'
      · cases (Prod.mk.inj hdev').2
        exact ⟨[], List.nil_prefix, rfl⟩
      · cases hdev'
    rename_i dev' hdev'
    split at hdev'
    · cases hdev'
    have hcontents : dev'.bytes = fs.geo.setFatCopy c value f fs.dev.bytes := by
      rw [← (Prod.mk.inj hdev').2]
      exact setFatCopy_sector fs.geo c value f fs.dev.bytes rfl
    obtain ⟨done, hdone, hbytes⟩ := ih { fs with dev := dev' }
    refine ⟨f :: done, List.cons_prefix_cons.mpr ⟨rfl, hdone⟩, hbytes.trans ?_⟩
    rw [hcontents]
    rfl

theorem clearEntry_keptOrZero (ha : a % 4 = 0) (fs : Fat32Filesystem) (c : Nat) :
    KeptOrZero fs.dev.bytes (clearEntry fs c).dev.bytes a := by
  unfold clearEntry writeFatEntry
  split
  · exact Or.inl (congrFun (readFatEntry_bytes fs c) a)
  · obtain ⟨done, _, hbytes⟩ :=
      writeFatCopies_bytes c 0 (List.range (fs.readFatEntry c).2.geo.numFats) (fs.readFatEntry c).2
    rw [hbytes, readFatEntry_bytes]
    exact setFatIn_keptOrZero _ _ ha _ _

theorem freeClusterChain_keptOrZero (ha : a % 4 = 0) (start : Nat) (fs : Fat32Filesystem) :
    KeptOrZero fs.dev.bytes (fs.freeClusterChain start).dev.bytes a := by
  have hturns : ∀ cs, KeptOrZero fs.dev.bytes (List.foldl clearEntry fs cs).dev.bytes a := by
    intro cs
    induction cs generalizing fs with
    | nil => exact Or.inl rfl
    | cons c cs ih => exact (clearEntry_keptOrZero ha fs c).trans (ih (clearEntry fs c))
  obtain ⟨cs, _, heq⟩ := freeClusterChain_turns fs start
  rw [heq]
  exact hturns cs

end LlamaOS.Fs
