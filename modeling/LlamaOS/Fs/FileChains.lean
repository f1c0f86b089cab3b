import LlamaOS.Fs.FatOperations
import LlamaOS.Fs.VnodeCalls

/-!
# Walking and extending a chain

The two loops of `write` follow the chain of a file and append free clusters where it
ends. What a run of them has done so far is one `Progress`.
-/

namespace LlamaOS.Fs
open ByteBuffer BlockChain Fs.Geometry Fat32Filesystem

def IsEoc (v : Nat) : Prop := fat32EocMin ≤ v

/-- The clusters of a file or directory in their order. -/
structure ChainOf (g : Geometry) (d : Buffer) (cs : List Nat) : Prop where
  linked : Linked IsEoc (g.fatEntry d) cs
  nodup : cs.Nodup
  usable : ∀ c ∈ cs, g.Usable c

variable {g : Geometry} {d : Buffer} {cs : List Nat}

theorem ChainOf.live (h : ChainOf g d cs) {c : Nat} (hc : c ∈ cs) : g.fatEntry d c ≠ 0 := by
  apply h.linked.live _ _ hc
  · intro v hv
    have hpos : 0 < fat32EocMin := by decide
    exact Nat.ne_of_gt (Nat.lt_of_lt_of_le hpos hv)
  · intro c hc
    have hlower := (h.usable c hc).1
    omega

theorem ChainOf.length_le (h : ChainOf g d cs) : cs.length ≤ g.totalClusters :=
  usable_length_le h.nodup h.usable

/-- A chain through all clusters leaves none free. -/
theorem ChainOf.full {fs : Fat32Filesystem} (h : ChainOf fs.geo fs.dev.bytes cs)
    (hlen : fs.geo.totalClusters ≤ cs.length) : fs.Full := by
  intro c hc
  have hperm :=
    (usable_subperm h.nodup h.usable).perm_of_length_le (by rw [List.length_range']; exact hlen)
  exact h.live (hperm.mem_iff.mpr (mem_range_iff_usable.mpr hc))

/-- The driver has written the bytes to the file of the chain `cs`, now `cs'`. -/
structure Progress (fs fs' : Fat32Filesystem) (cs cs' : List Nat) (offset : Nat)
    (bytes : List (BitVec 8)) : Prop where
  geo : fs'.geo = fs.geo
  ready : Ready fs'
  wrote : Wrote fs.geo.bytesPerCluster IsEoc fs.geo.Usable 0 (fs.geo.view fs.dev.bytes)
    (fs.geo.view fs'.dev.bytes) cs cs' offset bytes
  usable : ∀ c ∈ cs', fs.geo.Usable c
  copies : fs.geo.CopiesEqual fs.dev.bytes → fs.geo.CopiesEqual fs'.dev.bytes

namespace Progress

variable {fs fs' fs'' : Fat32Filesystem} {cs cs' cs'' : List Nat} {offset : Nat}
  {bytes bytes' : List (BitVec 8)}

theorem chain (h : Progress fs fs' cs cs' offset bytes) : ChainOf fs'.geo fs'.dev.bytes cs' := by
  rw [h.geo]
  exact ⟨h.wrote.linked, h.wrote.nodup, h.usable⟩

theorem trans (h : Progress fs fs' cs cs' offset bytes)
    (h' : Progress fs' fs'' cs' cs'' (offset + bytes.length) bytes') :
    Progress fs fs'' cs cs'' offset (bytes ++ bytes') := by
  have hwrote' := h'.wrote
  have husable' := h'.usable
  have hcopies' := h'.copies
  rw [h.geo] at hwrote' husable' hcopies'
  exact ⟨h'.geo.trans h.geo, h'.ready, h.wrote.trans hwrote', husable',
    fun hc => hcopies' (h.copies hc)⟩

theorem idle (hbecame : Became fs fs.dev.bytes fs') (hchain : ChainOf fs.geo fs.dev.bytes cs) :
    Progress fs fs' cs cs offset [] := by
  refine ⟨hbecame.geo, hbecame.ready, ?_, hchain.usable, ?_⟩
  · rw [hbecame.bytes]
    exact Wrote.refl hchain.linked hchain.nodup
  · rw [hbecame.bytes]
    exact id

end Progress

section Claimed

variable {g : Geometry} {d : Buffer} {c prev : Nat}

theorem claimed_copies (hg : g.Valid) (hc : g.Usable c) (hprev : prev < g.totalClusters + 2)
    (h : g.CopiesEqual d) : g.CopiesEqual (g.claimed prev c d) := by
  have hmark := h.setFat hg hc.2 0x0FFFFFFF
  apply CopiesEqual.setCluster hg
  split
  · exact hmark.setFat hg hprev c
  · exact hmark

variable {e : Nat}

theorem claimed_link (hg : g.Valid) (hc : g.Usable c) (hprev : prev < g.totalClusters + 2)
    (he : g.Usable e) :
    (g.view (g.claimed prev c d)).link e =
      if e = prev then c else if e = c then 0x0FFFFFFF else (g.view d).link e := by
  have hrange := hg.range
  simp only [fat32EocMin] at hrange
  have hsmall : c % 2 ^ 28 = c := Nat.mod_eq_of_lt (by have := hc.2; omega)
  change g.fatEntry (g.setCluster c _ _) e = _
  rw [fatEntry_setCluster hg _ _ he.2]
  by_cases hlink : prev ≥ 2
  · rw [if_pos hlink, fatEntry_setFat hg hprev he.2, fatEntry_setFat hg hc.2 he.2, hsmall]
    rfl
  have hne : e ≠ prev := by
    have := he.1
    omega
  rw [if_neg hlink, if_neg hne, fatEntry_setFat hg hc.2 he.2]
  rfl

variable {i : Nat}

theorem claimed_data_self (hi : i < g.bytesPerCluster) :
    (g.view (g.claimed prev c d)).data c i = 0 := setCluster_data_self c _ _ hi

theorem claimed_data_of_ne (hg : g.Valid) (hc : g.Usable c) (hprev : prev < g.totalClusters + 2)
    (he : g.Usable e) (hne : e ≠ c) (hi : i < g.bytesPerCluster) :
    (g.view (g.claimed prev c d)).data e i = (g.view d).data e i := by
  unfold claimed
  simp only
  rw [setCluster_data_of_ne hg _ _ hc.1 he.1 hne hi]
  split
  · rw [setFat_data hg hprev, setFat_data hg hc.2]
  · rw [setFat_data hg hc.2]

end Claimed

section Allocation

variable {fs fs' : Fat32Filesystem} {cs : List Nat} {c : Nat}

theorem Progress.grow (hready : Ready fs) (hchain : ChainOf fs.geo fs.dev.bytes cs)
    (hc : fs.geo.Usable c) (hfree : fs.geo.fatEntry fs.dev.bytes c = 0)
    (hbecame : Became fs (fs.geo.claimed (cs.getLast?.getD 0) c fs.dev.bytes) fs') (offset : Nat) :
    Progress fs fs' cs (cs ++ [c]) offset [] := by
  have hg := hready.geo
  have hlast : cs.getLast?.getD 0 < fs.geo.totalClusters + 2 := by
    cases hl : cs.getLast? with
    | none => exact Nat.succ_pos _
    | some l => exact (hchain.usable l (List.mem_of_getLast? hl)).2
  have hlink : ∀ e, fs.geo.Usable e →
      (fs.geo.view (fs.geo.claimed (cs.getLast?.getD 0) c fs.dev.bytes)).link e =
      if cs.getLast? = some e then c else if e = c then 0x0FFFFFFF
      else (fs.geo.view fs.dev.bytes).link e := by
    intro e he
    rw [claimed_link hg hc hlast he]
    cases hl : cs.getLast? with
    | none =>
      have hpos : e ≠ 0 := Nat.ne_of_gt (Nat.lt_of_lt_of_le Nat.zero_lt_two he.1)
      rw [Option.getD_none, if_neg hpos, if_neg (Option.some_ne_none e).symm]
    | some l => simp only [Option.getD_some, Option.some.injEq, eq_comm]
  have hwrote : Wrote fs.geo.bytesPerCluster IsEoc fs.geo.Usable 0 (fs.geo.view fs.dev.bytes)
      (fs.geo.view (fs.geo.claimed (cs.getLast?.getD 0) c fs.dev.bytes)) cs
        (cs ++ [c]) offset [] := by
    apply Wrote.grow hg.size_pos hchain.linked hchain.nodup hchain.usable
      (fun e he => hchain.live he) hc hfree
    · rw [hlink c hc, if_neg fun hl => hchain.live (List.mem_of_getLast? hl) hfree, if_pos rfl]
      exact (by decide : fat32EocMin ≤ 0x0FFFFFFF)
    · intro e hl
      rw [hlink e (hchain.usable e (List.mem_of_getLast? hl)), if_pos hl]
    · intro e he hec hl
      rw [hlink e he, if_neg hl, if_neg hec]
    · intro i hi
      exact claimed_data_self hi
    · intro e he hec i hi
      exact claimed_data_of_ne hg hc hlast he hec hi
  refine ⟨hbecame.geo, hbecame.ready, ?_, hwrote.all_usable hchain.usable, ?_⟩
  · rw [hbecame.bytes]
    exact hwrote
  · rw [hbecame.bytes]
    exact claimed_copies hg hc hlast

end Allocation

variable {fs : Fat32Filesystem} {j curr : Nat}

/-- One step along the chain: to the next cluster, a new one where the chain ends, or none. -/
theorem nextOrAlloc_ok (hready : Ready fs) (hchain : ChainOf fs.geo fs.dev.bytes cs)
    (hj : cs[j]? = some curr) (offset : Nat) :
    ∃ next fs' cs', fs.nextOrAlloc curr = (next, fs') ∧ Progress fs fs' cs cs' offset [] ∧
      (next < 2 ∧ fs'.Full ∧ cs'.length = j + 1 ∨ 2 ≤ next ∧ cs'[j + 1]? = some next) := by
  have hcurr := hchain.usable curr (List.mem_of_getElem? hj)
  obtain ⟨fs₁, hread, hfs₁⟩ := hready.became.readFatEntry_ok (hready.hasLink hcurr.2)
  simp only [nextOrAlloc, hread]
  cases hnext : cs[j + 1]? with
  | some next =>
    have hlink : fs.geo.fatEntry fs.dev.bytes curr = next := hchain.linked.next j curr next hj hnext
    have husable := hchain.usable next (List.mem_of_getElem? hnext)
    have hrange := hready.geo.range
    rw [hlink, if_neg (by have := husable.1; have := husable.2; omega)]
    exact ⟨next, fs₁, cs, rfl, Progress.idle hfs₁ hchain, Or.inr ⟨husable.1, hnext⟩⟩
  | none =>
    have hlen := List.getElem?_eq_none_iff.mp hnext
    have hlt := (List.getElem?_eq_some_iff.mp hj).1
    have hlast : cs.getLast? = some curr := by
      rw [List.getLast?_eq_getElem?, show cs.length - 1 = j by omega, hj]
    have hend : fat32EocMin ≤ fs.geo.fatEntry fs.dev.bytes curr := hchain.linked.last curr hlast
    rw [if_pos (Or.inl hend)]
    rcases hfs₁.allocCluster_ok hcurr.2 with
      ⟨fs', hnone, hfs', hfull⟩ | ⟨c, fs', hfound, hc, hfree, hfs'⟩
    · exact ⟨0, fs', cs, hnone, Progress.idle hfs' hchain, Or.inl ⟨by decide, hfull, by omega⟩⟩
    refine ⟨c, fs', cs ++ [c], hfound, ?_, Or.inr ⟨hc.1, ?_⟩⟩
    · exact Progress.grow hready hchain hc hfree (by rw [hlast]; exact hfs') offset
    · rw [List.getElem?_append_right (by omega), show j + 1 - cs.length = 0 by omega]
      rfl

/-- The walk of `write`, whose hops are the clusters before `curr`. It fails only on a full
volume. -/
theorem writeSeek_ok (hready : Ready fs) (left offset : Nat)
    (hchain : ChainOf fs.geo fs.dev.bytes cs) (hj : cs[j]? = some curr) :
    ∃ result fs' cs', writeSeek left curr j fs = (result, fs') ∧ Progress fs fs' cs cs' offset [] ∧
      (result = none ∧ fs'.Full ∧ cs'.length ≤ j + left ∨
        ∃ curr', result = some curr' ∧ cs'[j + left]? = some curr') := by
  induction left generalizing fs cs j curr with
  | zero =>
    exact ⟨some curr, fs, cs, rfl, Progress.idle hready.became hchain, Or.inr ⟨curr, rfl, hj⟩⟩
  | succ left ih =>
    simp only [writeSeek]
    have hlt := (List.getElem?_eq_some_iff.mp hj).1
    have hle := hchain.length_le
    split
    · exact ⟨none, fs, cs, rfl, Progress.idle hready.became hchain,
        Or.inl ⟨rfl, hchain.full (by omega), by omega⟩⟩
    obtain ⟨next, fs₁, cs₁, hnext, hprogress, hindex⟩ := nextOrAlloc_ok hready hchain hj offset
    simp only [hnext]
    rcases hindex with ⟨hsmall, hfull, hlen⟩ | ⟨hlarge, hj₁⟩
    · rw [if_pos hsmall]
      exact ⟨none, fs₁, cs₁, rfl, hprogress, Or.inl ⟨rfl, hfull, by omega⟩⟩
    rw [if_neg (by omega)]
    obtain ⟨result, fs', cs', hseek, hrest, hresult⟩ := ih hprogress.ready hprogress.chain hj₁
    refine ⟨result, fs', cs', hseek, hprogress.trans hrest, ?_⟩
    rw [show j + (left + 1) = j + 1 + left by omega]
    exact hresult

/-!
## Chains inside the data area

The driver does not check the cluster numbers that it reads from the table. Where all
numbers on a chain belong to the data area, its loops stay inside.
-/

open Transcript

/-- The loops of the driver come from `c` to `c'`. -/
def Follows (g : Geometry) (d : Buffer) : Nat → Nat → Prop :=
  Relation.ReflTransGen fun c c' => (2 ≤ c ∧ c < fat32EocMin) ∧ g.fatEntry d c = c'

/-- All clusters from `c` on belong to the data area. -/
def InRange (g : Geometry) (d : Buffer) (c : Nat) : Prop :=
  ∀ c', Follows g d c c' → 2 ≤ c' → c' < fat32EocMin → g.Usable c'

section InRange

variable {g : Geometry} {d d' : Buffer} {c : Nat}

theorem InRange.usable (h : InRange g d c) (hlo : 2 ≤ c) (hhi : c < fat32EocMin) : g.Usable c :=
  h c Relation.ReflTransGen.refl hlo hhi

theorem InRange.next (h : InRange g d c) (hlo : 2 ≤ c) (hhi : c < fat32EocMin) :
    InRange g d (g.fatEntry d c) :=
  fun c' hc' => h c' (Relation.ReflTransGen.head ⟨⟨hlo, hhi⟩, rfl⟩ hc')

/-- Links that change to an end mark or a free entry only shorten the chain. -/
theorem InRange.congr (h : InRange g d c)
    (hlink : ∀ e, g.Usable e → g.fatEntry d' e = g.fatEntry d e ∨
      ¬ (2 ≤ g.fatEntry d' e ∧ g.fatEntry d' e < fat32EocMin)) : InRange g d' c := by
  have hfollows : ∀ e, Follows g d' c e → Follows g d c e ∨ ¬ (2 ≤ e ∧ e < fat32EocMin) := by
    intro e he
    induction he with
    | refl => exact Or.inl Relation.ReflTransGen.refl
    | tail _ hstep ih =>
      obtain ⟨hvalid, rfl⟩ := hstep
      have hold := ih.resolve_right (not_not.mpr hvalid)
      rcases hlink _ (h _ hold hvalid.1 hvalid.2) with hsame | hend
      · exact Or.inl (hold.tail ⟨hvalid, hsame.symm⟩)
      · exact Or.inr hend
  intro e he hlo hhi
  exact h e ((hfollows e he).resolve_right (not_not.mpr ⟨hlo, hhi⟩)) hlo hhi

theorem Follows.single
    (hlink : g.fatEntry d c = c ∨ ¬ (2 ≤ g.fatEntry d c ∧ g.fatEntry d c < fat32EocMin)) {e : Nat}
    (he : Follows g d c e) (hlo : 2 ≤ e) (hhi : e < fat32EocMin) : e = c := by
  have hfollows : e = c ∨ ¬ (2 ≤ e ∧ e < fat32EocMin) := by
    clear hlo hhi
    induction he with
    | refl => exact Or.inl rfl
    | tail _ hstep ih =>
      obtain ⟨hvalid, rfl⟩ := hstep
      rw [ih.resolve_right (not_not.mpr hvalid)]
      exact hlink
  exact hfollows.resolve_right (not_not.mpr ⟨hlo, hhi⟩)

theorem InRange.single (hc : g.Usable c)
    (hlink : g.fatEntry d c = c ∨ ¬ (2 ≤ g.fatEntry d c ∧ g.fatEntry d c < fat32EocMin)) :
    InRange g d c := by
  intro e he hlo hhi
  rw [Follows.single hlink he hlo hhi]
  exact hc

/-- Not a cluster number, so nothing is followed. -/
theorem InRange.low (hc : c < 2) : InRange g d c := by
  intro e he hlo _
  rcases Relation.ReflTransGen.cases_head he with rfl | ⟨_, hstep, _⟩
  · omega
  · omega

theorem InRange.freed (hg : g.Valid) (h : InRange g d c) {e : Nat} (he : g.Usable e) :
    InRange g (g.setFat e 0 d) c := by
  apply h.congr
  intro f hf
  rw [fatEntry_setFat hg he.2 hf.2]
  split
  · exact Or.inr (by omega)
  · exact Or.inl rfl

end InRange

theorem Performs.serves {P : Access → Prop} {n : Nat} {fs fs' : Fat32Filesystem}
    (h : Performs P n fs fs') (hfs : Serves fs) : Serves fs' := by
  apply h.invariant (I := Serves) _ hfs
  intro s a _ hs
  have hrun := a.run_logged s
  exact hs.of_limits hrun.geo hrun.mounted hrun.limits

/-- A write to a cluster leaves the table as it is, whether the device takes it or not. -/
theorem writeCluster_fatEntry {fs : Fat32Filesystem} (hg : fs.geo.Valid) (c : Nat) (src : Buffer)
    {e : Nat} (he : e < fs.geo.totalClusters + 2) :
    fs.geo.fatEntry (fs.writeCluster c src).2.dev.bytes e = fs.geo.fatEntry fs.dev.bytes e := by
  unfold writeCluster BlockDevice.writeSectors
  split
  · rfl
  dsimp only
  split
  · rfl
  · rw [Nat.add_mul, ← hg.size]
    exact fatEntry_setCluster hg src fs.dev.bytes he

/-- The table after `alloc_cluster` has found `c`; the heap may have refused the buffer for its
zeros. -/
theorem claimCluster_link {fs : Fat32Filesystem} (hserves : Serves fs) (hg : fs.geo.Valid)
    {prev c : Nat} (hprev : prev < fs.geo.totalClusters + 2) (hc : fs.geo.Usable c) {e : Nat}
    (he : fs.geo.Usable e) :
    fs.geo.fatEntry (fs.claimCluster prev c).dev.bytes e =
      if e = prev then c else if e = c then 0x0FFFFFFF else fs.geo.fatEntry fs.dev.bytes e := by
  obtain ⟨fs₁, hmark, hfs₁⟩ :=
    hserves.writeFatEntry_ok 0x0FFFFFFF (Nat.lt_of_lt_of_le hc.2 hg.covers)
  obtain ⟨fs₂, heq, hfs₂⟩ : ∃ fs₂, (if prev ≥ 2 then (fs₁.writeFatEntry prev c).2 else fs₁) = fs₂ ∧
      Stored fs (if prev ≥ 2 then fs.geo.setFat prev c (fs.geo.setFat c 0x0FFFFFFF fs.dev.bytes)
        else fs.geo.setFat c 0x0FFFFFFF fs.dev.bytes) fs₂ := by
    split
    · have hentry : prev < fs₁.geo.tableSize32 * 128 :=
        hfs₁.geo.symm ▸ Nat.lt_of_lt_of_le hprev hg.covers
      obtain ⟨fs₂, hlink, hfs₂⟩ := (hfs₁.serves hserves).writeFatEntry_ok c hentry
      rw [hfs₁.geo, hfs₁.bytes] at hfs₂
      exact ⟨fs₂, by rw [hlink], hfs₁.trans hfs₂⟩
    · exact ⟨fs₁, rfl, hfs₁⟩
  have hclaimed := claimed_link (d := fs.dev.bytes) hg hc hprev he
  unfold view claimed at hclaimed
  simp only [fatEntry_setCluster hg _ _ he.2] at hclaimed
  rw [← hclaimed]
  simp only [claimCluster, hmark, heq]
  split
  · rename_i fs₃ halloc
    cases (Prod.mk.inj halloc).2
    rw [hfs₂.bytes]
  rename_i buf fs₃ halloc
  cases (Prod.mk.inj halloc).2
  have hkept :=
    @writeCluster_fatEntry { fs₂ with heap := { fs₂.heap with calls := fs₂.heap.calls + 1 } }
    (hfs₂.geo.symm ▸ hg) c (fun _ => 0) e (hfs₂.geo.symm ▸ he.2)
  rw [← hfs₂.bytes, ← hfs₂.geo]
  exact hkept

theorem allocScan_inRange (prev left : Nat) (c : Nat) {fs : Fat32Filesystem} (hserves : Serves fs)
    (hg : fs.geo.Valid) (hprev : prev < fs.geo.totalClusters + 2) (hlo : 2 ≤ c)
    (hhi : c + left ≤ fs.geo.totalClusters + 2) :
    2 ≤ (allocScan prev left c fs).1 →
      InRange fs.geo (allocScan prev left c fs).2.dev.bytes (allocScan prev left c fs).1 := by
  induction left generalizing c fs with
  | zero =>
    intro hlow
    cases hlow
  | succ left ih =>
    have hc : fs.geo.Usable c := ⟨hlo, by omega⟩
    rw [allocScan,
      hserves.readFatEntry_eq (hserves.hasLink hg.copies.1 (Nat.lt_of_lt_of_le hc.2 hg.covers))]
    simp only
    split
    · intro _
      have hlink := claimCluster_link
        (hserves.recorded (.read (fs.geo.fatBeginLba + c * 4 / 512) 1)) hg hprev hc hc
      apply InRange.single hc
      rw [hlink]
      split
      · exact Or.inl rfl
      · exact Or.inr (by rw [if_pos rfl]; simp only [fat32EocMin]; omega)
    · exact ih (c + 1) (hserves.recorded (.read (fs.geo.fatBeginLba + c * 4 / 512) 1)) hg hprev
        (by omega) (show c + 1 + left ≤ fs.geo.totalClusters + 2 by omega)

theorem allocCluster_inRange {fs : Fat32Filesystem} (hserves : Serves fs) (hg : fs.geo.Valid)
    {prev : Nat} (hprev : prev < fs.geo.totalClusters + 2)
    (hresult : 2 ≤ (fs.allocCluster prev).1) :
    InRange fs.geo (fs.allocCluster prev).2.dev.bytes (fs.allocCluster prev).1 := by
  have hrange := hg.range
  simp only [fat32EocMin] at hrange
  refine allocScan_inRange prev _ 2 hserves hg hprev (Nat.le_refl _) ?_ hresult
  omega

end LlamaOS.Fs
