import LlamaOS.Fs.FileWrites
import LlamaOS.Fs.Removals

/-!
# Truncating a file

For the new size 0 `truncate` frees the chain of the file. For any other size it only writes
the size: it frees no cluster, takes none and clears no byte.
-/

namespace LlamaOS.Fs
open ByteBuffer BlockChain Fs.Geometry

section Truncate

variable {fs fs' : Fat32Filesystem} {chains : Set (List Nat)} {node node' : Fat32VNode}
  {file : List Nat} {newSize first : Nat}

theorem ChainOf.ownsChain (hready : Ready fs) (hchain : ChainOf fs.geo fs.dev.bytes file)
    (hfirst : file = [] ∧ first < 2 ∨ file[0]? = some first) : OwnsChain fs first file := by
  refine ⟨?_, hchain.usable⟩
  rcases hfirst with ⟨rfl, hnone⟩ | hfirst
  · exact Walk.stop (by omega)
  cases file with
  | nil => cases hfirst
  | cons c cs =>
    cases hfirst
    apply hchain.linked.walk (fun v hend hin => Nat.not_lt.mpr hend hin.2)
    intro e he
    have hrange := hready.geo.range
    have husable := hchain.usable e he
    simp only [Usable] at husable
    omega

section

variable (hwf : WellFormed fs chains)
include hwf

section

variable (hstep : InStep fs chains node file)
include hstep

theorem InStep.ownsChain :
    OwnsChain fs node.firstCluster file :=
  (hstep.fileChain hwf).ownsChain hwf.ready (hstep.first.imp_right And.right)

/-- What `truncate` has done when it returns. -/
structure Resized (fs fs' : Fat32Filesystem) (node : Fat32VNode) (file : List Nat)
    (newSize first : Nat) :
    Prop where
  geo : fs'.geo = fs.geo
  ready : Ready fs'
  first : first = if newSize = 0 ∧ node.firstCluster ≥ 2 then 0 else node.firstCluster
  link : ∀ c ∈ file, fs.geo.fatEntry fs'.dev.bytes c = if newSize = 0 then 0
  else fs.geo.fatEntry fs.dev.bytes c
  data : ∀ c ∈ file, ∀ i < fs.geo.bytesPerCluster,
    (fs.geo.view fs'.dev.bytes).data c i = (fs.geo.view fs.dev.bytes).data c i
  entry : entryFileSize ((fs.geo.view fs'.dev.bytes).data node.dirCluster) node.dirOffset = newSize

theorem resized_of_freed {d : Buffer}
    (hfirst : first = if newSize = 0 ∧ node.firstCluster ≥ 2 then 0 else node.firstCluster)
    (hfreed : Freed fs.geo fs.dev.bytes d (if newSize = 0 then file else []))
    (hbound : newSize < 2 ^ 32)
    (hfs' : Became fs (fs.geo.setCluster node.dirCluster
      (entryUpdated ((fs.geo.view d).data node.dirCluster) node.dirOffset newSize first) d) fs') :
    Resized fs fs' node file newSize first := by
  have hg := hwf.ready.geo
  have husable := (hstep.fileChain hwf).usable
  refine ⟨hfs'.geo, hfs'.ready, hfirst, ?_, ?_, ?_⟩
  · intro c hc
    rw [hfs'.bytes, fatEntry_setCluster hg _ _ (husable c hc).2, hfreed.link c (husable c hc)]
    by_cases hzero : newSize = 0
    · rw [if_pos hzero, if_pos hzero, if_pos hc]
    · rw [if_neg hzero, if_neg hzero, if_neg List.not_mem_nil]
  · intro c hc i hi
    obtain ⟨ds, hds, hne, hdir⟩ := hstep.directory
    have hout : c ≠ node.dirCluster := fun heq => hstep.file_disjoint hwf hds hne hdir (heq ▸ hc)
    rw [hfs'.bytes, setCluster_data_of_ne hg _ _ (hstep.dir_usable hwf).1 (husable c hc).1 hout hi]
    exact hfreed.data c i
  · rw [hfs'.bytes, (entry_congr node.dirOffset fun i hi =>
      setCluster_data_self _ _ _ (Nat.lt_of_lt_of_le hi hstep.offset)).1]
    exact entryUpdated_fileSize _ _ hbound

theorem truncate_ok (hbound : newSize < 2 ^ 32) :
    ∃ first fs', fs.truncate node newSize =
      (0, { node with fileSize := newSize, firstCluster := first }, fs') ∧
      Resized fs fs' node file newSize first := by
  have hdir := hstep.dir_usable hwf
  rw [Fat32Filesystem.truncate, if_neg (not_not.mpr hstep.type), Nat.mod_eq_of_lt hbound]
  by_cases hfree : newSize = 0 ∧ node.firstCluster ≥ 2
  · rw [if_pos hfree]
    obtain ⟨hwalk, husable⟩ := hstep.ownsChain hwf
    obtain ⟨d, hfs₁, hfreed⟩ := hwf.ready.became.freeClusterChain_ok hwalk husable
    obtain ⟨fs', hupdate, hfs'⟩ :=
      @Became.updateDirEntry_ok _ _ _ hfs₁ { node with firstCluster := 0 } hdir newSize 0
    simp only [hupdate]
    refine ⟨0, fs', rfl, resized_of_freed hwf hstep (if_pos hfree).symm ?_ hbound hfs'⟩
    rw [if_pos hfree.1]
    exact hfreed
  · rw [if_neg hfree]
    obtain ⟨fs', hupdate, hfs'⟩ := hwf.ready.became.updateDirEntry_ok hdir newSize node.firstCluster
    simp only [hupdate]
    refine ⟨node.firstCluster, fs', rfl,
      resized_of_freed hwf hstep (if_neg hfree).symm ?_ hbound hfs'⟩
    have hnone : (if newSize = 0 then file else []) = [] := by
      rcases hstep.first with ⟨hnil, _⟩ | ⟨_, hfirst⟩
      · rw [hnil, ite_self]
      · have hlower := ((hstep.fileChain hwf).usable _ (List.mem_of_getElem? hfirst)).1
        exact if_neg fun hzero => hfree ⟨hzero, hlower⟩
    rw [hnone]
    exact ⟨fun c _ => (if_neg List.not_mem_nil).symm, fun _ _ => rfl, id⟩

end

end

theorem Resized.walk (h : Resized fs fs' node file newSize first) (hwf : WellFormed fs chains)
    (hstep : InStep fs chains node file) (hne : newSize ≠ 0) :
    OwnsChain fs' node.firstCluster file := by
  have howns := hstep.ownsChain hwf
  rw [OwnsChain, h.geo]
  refine ⟨howns.1.congr ?_, howns.2⟩
  intro c hc
  rw [h.link c hc, if_neg hne]

/-- A file of a non-zero size that its chain covers is read as the chain has it. -/
theorem Resized.read_whole (h : Resized fs fs' node file newSize first) (hwf : WellFormed fs chains)
    (hstep : InStep fs chains node file) (hbound : newSize < 2 ^ 32) (hpos : 0 < newSize)
    (hcover : newSize ≤ file.length * fs.geo.bytesPerCluster) :
    ∃ bytes fs'', fs'.read { node with fileSize := newSize, firstCluster := first } 0 newSize =
      ((newSize : Int), bytes, fs'') ∧ bytes.length = newSize ∧ ∀ p < newSize,
        bytes[p]? = fs.fileByte file p := by
  have hne : newSize ≠ 0 := Nat.ne_of_gt hpos
  have hchain := hstep.fileChain hwf
  have hfirst : first = node.firstCluster := by rw [h.first, if_neg fun hzero => hne hzero.1]
  have hhead : file[0]? = some node.firstCluster := by
    rcases hstep.first with ⟨hnil, _⟩ | ⟨_, hfirst⟩
    · rw [hnil, List.length_nil, Nat.zero_mul] at hcover
      omega
    · exact hfirst
  have hchain' : ChainOf fs'.geo fs'.dev.bytes file := by
    rw [h.geo]
    refine ⟨hchain.linked.congr ?_, hchain.nodup, hchain.usable⟩
    intro c hc
    rw [h.link c hc, if_neg hne]
  obtain ⟨bytes, fs'', hread, hlen, hbytes⟩ := @read_ok _ _ h.ready
    { node with fileSize := newSize, firstCluster := first } hchain' hstep.type
    (by rw [hfirst]; exact hhead) 0 newSize hpos (Nat.le_of_eq (Nat.zero_add _)) hbound
    (by rw [h.geo, Nat.zero_add]; exact hcover)
  refine ⟨bytes, fs'', hread, hlen, ?_⟩
  intro p hp
  rw [hbytes p hp, h.geo, Nat.zero_add]
  exact byteAt_congr hwf.ready.geo.size_pos h.data p

/-- The file has the size `newSize`, its old bytes and then zeros, and the clusters that it
needs. -/
structure Truncated (fs fs' : Fat32Filesystem) (node node' : Fat32VNode) (file : List Nat)
    (newSize : Nat) :
    Prop where
  size : node'.fileSize = newSize
  entry : entryFileSize ((fs.geo.view fs'.dev.bytes).data node.dirCluster) node.dirOffset = newSize
  whole : ∃ bytes fs'', fs'.read node' 0 newSize = ((newSize : Int), bytes, fs'') ∧
    bytes.length = newSize ∧
    ∀ p < newSize, bytes[p]? = if p < node.fileSize then fs.fileByte file p else some 0
  chain : ∃ file', OwnsChain fs' node'.firstCluster file' ∧
    file'.length = (newSize + fs.geo.bytesPerCluster - 1) / fs.geo.bytesPerCluster ∧
    ∀ c ∈ file, c ∉ file' → fs.geo.fatEntry fs'.dev.bytes c = 0

theorem Resized.truncated_zero (h : Resized fs fs' node file 0 first) (hwf : WellFormed fs chains)
    (hstep : InStep fs chains node file) :
    Truncated fs fs' node { node with fileSize := 0, firstCluster := first } file 0 := by
  have hpos := hwf.ready.geo.size_pos
  refine ⟨rfl, h.entry, ⟨[], fs', ?_, rfl, fun p hp => absurd hp (Nat.not_lt_zero p)⟩, [],
    ⟨Walk.stop ?_, ?_⟩, ?_, ?_⟩
  · rw [Fat32Filesystem.read, if_neg (not_not.mpr hstep.type), if_pos (Or.inr rfl)]
    rfl
  · have hfirst := h.first
    dsimp only
    split at hfirst <;> omega
  · exact fun c hc => absurd hc List.not_mem_nil
  · rw [List.length_nil, Nat.div_eq_of_lt (by omega)]
  · intro c hc _
    exact h.link c hc

/-- `truncate` to a non-zero size is right just where the chain has the clusters that the size needs
and the bytes behind the old size are zero. -/
theorem truncate_exact_iff (hwf : WellFormed fs chains) (hstep : InStep fs chains node file)
    (hbound : newSize < 2 ^ 32) :
    (∀ node' fs', fs.truncate node newSize = (0, node', fs') →
      Truncated fs fs' node node' file newSize) ↔
      newSize = 0 ∨ file.length = (newSize + fs.geo.bytesPerCluster - 1) / fs.geo.bytesPerCluster ∧
        ∀ p, node.fileSize ≤ p → p < newSize → fs.fileByte file p = some 0 := by
  obtain ⟨first, fs', hrun, h⟩ := truncate_ok hwf hstep hbound
  rw [hrun]
  by_cases hzero : newSize = 0
  · subst hzero
    refine iff_of_true ?_ (Or.inl rfl)
    rintro node'' fs'' ⟨_, rfl, rfl⟩
    exact h.truncated_zero hwf hstep
  have hcover : file.length = (newSize + fs.geo.bytesPerCluster - 1) / fs.geo.bytesPerCluster →
      newSize ≤ file.length * fs.geo.bytesPerCluster := by
    intro hlen
    have hsplit := Nat.div_add_mod (newSize + fs.geo.bytesPerCluster - 1) fs.geo.bytesPerCluster
    have hmod := Nat.mod_lt (newSize + fs.geo.bytesPerCluster - 1) hwf.ready.geo.size_pos
    rw [hlen, Nat.mul_comm]
    omega
  have hwalk := h.walk hwf hstep hzero
  have hfirst : first = node.firstCluster := by rw [h.first, if_neg fun hin => hzero hin.1]
  constructor
  · intro hall
    have htruncated := hall _ _ rfl
    obtain ⟨file', hchain', hlen, _⟩ := htruncated.chain
    rw [hfirst] at hchain'
    rw [hwalk.1.unique hchain'.1] at hlen
    refine Or.inr ⟨hlen, ?_⟩
    intro p hold hnew
    obtain ⟨bytes, fs₁, hread, _, hbytes⟩ := htruncated.whole
    obtain ⟨bytes', fs₂, hread', _, hbytes'⟩ :=
      h.read_whole hwf hstep hbound (by omega) (hcover hlen)
    have hsame : bytes = bytes' := (Prod.mk.inj (Prod.mk.inj (hread.symm.trans hread')).2).1
    rw [← hbytes' p hnew, ← hsame, hbytes p hnew, if_neg (by omega)]
  · rintro (hnone | ⟨hlen, hzeros⟩)
    · exact absurd hnone hzero
    rintro node'' fs'' ⟨_, rfl, rfl⟩
    obtain ⟨bytes, fs₁, hread, hlength, hbytes⟩ :=
      h.read_whole hwf hstep hbound (by omega) (hcover hlen)
    refine ⟨rfl, h.entry, ⟨bytes, fs₁, hread, hlength, ?_⟩, file, ?_, hlen,
      fun c hc hout => absurd hc hout⟩
    · intro p hp
      rw [hbytes p hp]
      split
      · rfl
      · exact hzeros p (by omega) hp
    · rw [hfirst]
      exact hwalk

end Truncate

/-- Six hundred bytes need two clusters and two are free, but the file keeps its one cluster. -/
theorem smallFile_not_extended : (smallVolume.truncate smallFile 600).1 = 0 ∧
    ¬ Truncated smallVolume (smallVolume.truncate smallFile 600).2.2 smallFile
      (smallVolume.truncate smallFile 600).2.1 [3] 600 := by
  refine ⟨by decide +kernel, ?_⟩
  intro h
  obtain ⟨bytes, fs'', hread, _⟩ := h.whole
  have hcount : ((smallVolume.truncate smallFile 600).2.2.read
      (smallVolume.truncate smallFile 600).2.1 0 600).1 = 512 := by decide +kernel
  rw [hread] at hcount
  cases hcount

/-- Two bytes of the three are left in the one cluster. -/
theorem smallFile_truncated : (smallVolume.truncate smallFile 2).1 = 0 ∧
    Truncated smallVolume (smallVolume.truncate smallFile 2).2.2 smallFile
      (smallVolume.truncate smallFile 2).2.1 [3] 2 := by
  have hcode : (smallVolume.truncate smallFile 2).1 = 0 := by decide +kernel
  refine ⟨hcode, (truncate_exact_iff smallVolume_wellFormed smallFile_inStep (by decide)).mpr
    (Or.inr ⟨by decide, ?_⟩) _ _ (Prod.ext hcode rfl)⟩
  intro p hold hnew
  exact absurd (Nat.lt_of_le_of_lt hold hnew) (by decide)

end LlamaOS.Fs
