import LlamaOS.Fs.Volumes

/-!
# Writing a file

`write` as a whole on a well-formed volume: what is read back, what is kept, and that the
volume stays well formed.
-/

namespace LlamaOS.Fs
open ByteBuffer BlockChain Fs.Geometry Fat32Filesystem

/-- `write` has written `bytes` to the file, up to the state `fs₁`, and then updated the entry. -/
structure Written (fs fs₁ fs' : Fat32Filesystem) (node node' : Fat32VNode) (file file' : List Nat)
    (offset : Nat) (bytes : List (BitVec 8)) : Prop where
  progress : Progress fs fs₁ file file' offset bytes
  entry : Became fs₁ (fs.geo.setCluster node.dirCluster
    (entryUpdated ((fs.geo.view fs₁.dev.bytes).data node.dirCluster) node.dirOffset
      node'.fileSize node'.firstCluster) fs₁.dev.bytes) fs'
  first : file'[0]? = some node'.firstCluster
  vnode : node' = { node with
    fileSize := max node.fileSize (offset + bytes.length), firstCluster := node'.firstCluster }

/-- The position in the chain that `write` goes to for an offset. -/
def Geometry.place (g : Geometry) (offset : Nat) : Nat :=
  offset / g.bytesPerCluster % 2 ^ 32 * g.bytesPerCluster + offset % g.bytesPerCluster

theorem Geometry.place_eq {g : Geometry} {offset : Nat} (hoffset : offset < 2 ^ 32) :
    g.place offset = offset := by
  rw [Geometry.place, Nat.mod_eq_of_lt (Nat.lt_of_le_of_lt (Nat.div_le_self _ _) hoffset),
    Nat.mul_comm]
  exact Nat.div_add_mod _ _

/-- How a write of a non-empty source ends: the volume is full before the place of the offset, or
some bytes are stored there, all of them unless the volume is full. -/
inductive Ends (fs fs' : Fat32Filesystem) (node node' : Fat32VNode) (file : List Nat) (offset : Nat)
    (src : List (BitVec 8)) : Int → Prop where
  | failed {file' : List Nat} (progress : Progress fs fs' file file' (fs.geo.place offset) [])
      (full : fs'.Full) (short : file'.length * fs.geo.bytesPerCluster ≤ fs.geo.place offset)
      (first : file' = [] ∧ node'.firstCluster < 2 ∨ file'[0]? = some node'.firstCluster) :
      Ends fs fs' node node' file offset src (-1)
  | stored {n : Nat} {fs₁ : Fat32Filesystem} {file' : List Nat} (pos : 0 < n) (le : n ≤ src.length)
      (progress : Progress fs fs₁ file file' (fs.geo.place offset) (src.take n))
      (cut : n < src.length →
        fs₁.Full ∧ fs.geo.place offset + n = file'.length * fs.geo.bytesPerCluster)
      (entry : Became fs₁ (fs.geo.setCluster node.dirCluster
        (entryUpdated ((fs.geo.view fs₁.dev.bytes).data node.dirCluster) node.dirOffset
          node'.fileSize node'.firstCluster) fs₁.dev.bytes) fs')
      (first : file'[0]? = some node'.firstCluster)
      (vnode : node' = { node with
        fileSize := if add64 offset n > node.fileSize then add64 offset n % 2 ^ 32
        else node.fileSize
        firstCluster := node'.firstCluster }) :
      Ends fs fs' node node' file offset src n

variable {fs fs' : Fat32Filesystem}

theorem Ends.count_le {node node' : Fat32VNode} {file : List Nat} {offset n : Nat}
    {src : List (BitVec 8)} (h : Ends fs fs' node node' file offset src n) : n ≤ src.length := by
  generalize hr : (n : Int) = r at h
  cases h with
  | failed => omega
  | stored _ le => omega

theorem Ends.after {fs₀ fs fs' : Fat32Filesystem} {node node₀ node' : Fat32VNode}
    {file₀ file : List Nat} {offset : Nat} {src : List (BitVec 8)} {r : Int}
    (h : Ends fs fs' node₀ node' file offset src r)
    (hbefore : Progress fs₀ fs file₀ file (fs₀.geo.place offset) [])
    (hnode : node₀ = { node with firstCluster := node₀.firstCluster }) :
    Ends fs₀ fs' node node' file₀ offset src r := by
  have hgeo := hbefore.geo
  cases h with
  | failed progress full short first =>
    rw [hgeo] at progress short
    exact .failed (hbefore.trans progress) full short first
  | stored pos le progress cut entry first vnode =>
    rw [hgeo] at progress cut entry
    rw [hnode] at entry vnode
    exact .stored pos le (hbefore.trans progress) cut entry first vnode

theorem Progress.first {file file' : List Nat} {offset c : Nat} {bytes : List (BitVec 8)}
    (h : Progress fs fs' file file' offset bytes) (hfirst : file[0]? = some c) :
    file'[0]? = some c := by
  obtain ⟨new, hnew, _⟩ := h.wrote.grown
  rw [hnew, List.getElem?_append_left (List.getElem?_eq_some_iff.mp hfirst).1]
  exact hfirst

theorem writeChain_ok (node : Fat32VNode) {node' : Fat32VNode} {file : List Nat} (hready : Ready fs)
    (hchain : ChainOf fs.geo fs.dev.bytes file) (hfirst : file[0]? = some node.firstCluster)
    (hdir : fs.geo.Usable node.dirCluster) {offset : Nat} {src : List (BitVec 8)} (hsrc : src ≠ [])
    (buf : Buffer) {r : Int} (hrun : fs.writeChain node offset src buf = (r, node', fs')) :
    Ends fs fs' node node' file offset src r := by
  have hg := hready.geo
  obtain ⟨result, fs₁, cs₁, hseek, hwalk, hresult⟩ := writeSeek_ok hready
    (offset / fs.geo.bytesPerCluster % 2 ^ 32) (fs.geo.place offset) hchain hfirst
  simp only [writeChain, hseek] at hrun
  rw [Nat.zero_add] at hresult
  rcases hresult with ⟨rfl, hfull, hlen⟩ | ⟨curr, rfl, hcurr⟩
  · obtain ⟨rfl, rfl, rfl⟩ := hrun
    refine .failed hwalk hfull ?_ (Or.inr (hwalk.first hfirst))
    exact Nat.le_trans (Nat.mul_le_mul_right _ hlen) (Nat.le_add_right _ _)
  obtain ⟨m, fs₂, cs₂, hloop, hm, hmle, hwrite, hcut⟩ := writeLoop_ok src.length
    (o := offset % fs.geo.bytesPerCluster) src buf hwalk.ready hwalk.chain hcurr
    (by rw [hwalk.geo]; exact Nat.mod_lt _ hg.size_pos) hsrc (Nat.le_refl _)
  rw [hwalk.geo] at hwrite hcut
  have hprogress := hwalk.trans hwrite
  obtain ⟨fs₃, hupdate, hfs₃⟩ := hprogress.ready.became.updateDirEntry_ok
    (hprogress.geo.symm ▸ hdir)
    (if add64 offset m > node.fileSize then add64 offset m % 2 ^ 32 else node.fileSize)
      node.firstCluster
  simp only [hloop, hupdate, Prod.mk.injEq] at hrun
  obtain ⟨rfl, rfl, rfl⟩ := hrun
  rw [hprogress.geo] at hfs₃
  exact .stored hm hmle hprogress hcut hfs₃ (hprogress.first hfirst) rfl

section Write

variable {fs fs₁ fs' : Fat32Filesystem} {chains : Set (List Nat)} {node node' : Fat32VNode}
  {file file' : List Nat} {offset : Nat} {bytes : List (BitVec 8)}

theorem InStep.dir_usable (hwf : WellFormed fs chains) (hstep : InStep fs chains node file) :
    fs.geo.Usable node.dirCluster := by
  obtain ⟨ds, hds, _, hmem⟩ := hstep.directory
  exact (hwf.chain ds hds).2.usable _ hmem

theorem write_ends (hwf : WellFormed fs chains) (hstep : InStep fs chains node file)
    {src : List (BitVec 8)} (hsrc : src ≠ []) {r : Int}
    (hrun : fs.write node offset (some src) = (r, node', fs')) :
    Ends fs fs' node node' file offset src r := by
  have hdir := hstep.dir_usable hwf
  obtain ⟨buf, fs₀, halloc, hfs₀⟩ := hwf.ready.became.kmalloc_ok
  have hfile : ¬ node.type ≠ .file := not_not.mpr hstep.type
  have hlen : ¬ src.length = 0 := fun h => hsrc (List.length_eq_zero_iff.mp h)
  simp only [write, if_neg hfile, if_neg hlen, halloc] at hrun
  rcases hstep.first with ⟨hnil, hnone⟩ | ⟨hmem, hfirst⟩
  · rw [if_pos hnone] at hrun
    subst hnil
    rcases hfs₀.allocCluster_ok (Nat.succ_pos _) with
      ⟨fs₁, hnone, hfs₁, hfull⟩ | ⟨c, fs₁, hfound, hc, hfree, hfs₁⟩
    · simp only [hnone] at hrun
      obtain ⟨rfl, rfl, rfl⟩ := hrun
      refine .failed (Progress.idle hfs₁ (hstep.fileChain hwf)) hfull ?_
        (Or.inl ⟨rfl, Nat.zero_lt_two⟩)
      rw [List.length_nil, Nat.zero_mul]
      exact Nat.zero_le _
    · simp only [hfound] at hrun
      rw [if_neg (by have := hc.1; omega)] at hrun
      have hstart :=
        Progress.grow hwf.ready (hstep.fileChain hwf) hc hfree hfs₁ (fs.geo.place offset)
      exact (writeChain_ok { node with firstCluster := c } hstart.ready hstart.chain rfl
        (hstart.geo.symm ▸ hdir) hsrc buf hrun).after hstart rfl
  · have hchain := (hwf.chain file hmem).2
    have hlower := (hchain.usable _ (List.mem_of_getElem? hfirst)).1
    rw [if_neg (by omega)] at hrun
    have hidle : Progress fs fs₀ file file (fs.geo.place offset) [] := Progress.idle hfs₀ hchain
    exact (writeChain_ok node hidle.ready hidle.chain hfirst (hidle.geo.symm ▸ hdir) hsrc buf
      hrun).after hidle rfl

theorem InStep.fileSize_lt (hstep : InStep fs chains node file) : node.fileSize < 2 ^ 32 := by
  rw [← hstep.entrySize]
  exact entryFileSize_lt _ _

theorem write_written (hwf : WellFormed fs chains) (hstep : InStep fs chains node file)
    {src : List (BitVec 8)} (hsrc : src ≠ []) {n : Nat} (hbound : offset + n < 2 ^ 32)
    (hrun : fs.write node offset (some src) = ((n : Int), node', fs')) :
    0 < n ∧ n ≤ src.length ∧ ∃ fs₁ file', Written fs fs₁ fs' node node' file file' offset
      (src.take n) := by
  have hends := write_ends hwf hstep hsrc hrun
  generalize hr : (n : Int) = r at hends
  cases hends with
  | failed => omega
  | @stored m fs₁ file' pos le progress _ entry first vnode =>
    cases Int.ofNat_inj.mp hr
    rw [Geometry.place_eq (by omega)] at progress
    refine ⟨pos, le, fs₁, file', progress, entry, first, vnode.trans ?_⟩
    congr 1
    rw [List.length_take, Nat.min_eq_left le, add64_eq (by omega), Nat.mod_eq_of_lt hbound]
    split <;> omega

namespace Written

variable (h : Written fs fs₁ fs' node node' file file' offset bytes)
include h

theorem geo_eq : fs'.geo = fs.geo :=
  h.entry.geo.trans h.progress.geo

theorem data_dir {i : Nat}
    (hi : i < fs.geo.bytesPerCluster) :
    (fs.geo.view fs'.dev.bytes).data node.dirCluster i =
      entryUpdated ((fs.geo.view fs₁.dev.bytes).data node.dirCluster) node.dirOffset node'.fileSize
        node'.firstCluster i := by
  rw [h.entry.bytes]
  exact setCluster_data_self _ _ _ hi

variable (hwf : WellFormed fs chains)
include hwf

theorem link_eq {c : Nat}
    (hc : fs.geo.Usable c) : fs.geo.fatEntry fs'.dev.bytes c = fs.geo.fatEntry fs₁.dev.bytes c := by
  rw [h.entry.bytes]
  exact fatEntry_setCluster hwf.ready.geo _ _ hc.2

variable (hstep : InStep fs chains node file)
include hstep

theorem dirCluster_notMem : node.dirCluster ∉ file' := by
  obtain ⟨ds, hds, hne, hmem⟩ := hstep.directory
  exact (h.progress.kept hwf hstep hds hne hmem).1

theorem data_of_ne {c : Nat} (hc : fs.geo.Usable c) (hne : c ≠ node.dirCluster) {i : Nat}
    (hi : i < fs.geo.bytesPerCluster) :
    (fs.geo.view fs'.dev.bytes).data c i = (fs.geo.view fs₁.dev.bytes).data c i := by
  rw [h.entry.bytes]
  exact setCluster_data_of_ne hwf.ready.geo _ _ (hstep.dir_usable hwf).1 hc.1 hne hi

theorem fileByte_eq {p : Nat} (hp : p < file'.length * fs.geo.bytesPerCluster) :
    fs'.fileByte file' p =
      if offset ≤ p ∧ p < offset + bytes.length then bytes[p - offset]?
      else if p < file.length * fs.geo.bytesPerCluster then fs.fileByte file p else some 0 := by
  rw [fileByte, h.geo_eq]
  refine Eq.trans ?_ (h.progress.wrote.contents p hp)
  apply byteAt_congr hwf.ready.geo.size_pos
  intro c hc i hi
  apply h.data_of_ne hwf hstep (h.progress.usable c hc) _ hi
  intro heq
  exact h.dirCluster_notMem hwf hstep (heq ▸ hc)

theorem fileByte_kept {p : Nat} (hout : p < offset ∨ offset + bytes.length ≤ p) {b : BitVec 8}
    (hb : fs.fileByte file p = some b) : fs'.fileByte file' p = some b := by
  have hinside := lt_of_byteAt hwf.ready.geo.size_pos hb
  have hgrown := Nat.mul_le_mul_right fs.geo.bytesPerCluster h.progress.wrote.length_le
  rw [h.fileByte_eq hwf hstep (by omega), if_neg (by omega), if_pos hinside]
  exact hb

/-- Every other chain and its contents are left, but for the entry of the file. -/
theorem kept {cs : List Nat} (hcs : cs ∈ chains) (hne : cs ≠ file) :
    ChainOf fs'.geo fs'.dev.bytes cs ∧ ∀ c ∈ cs, ∀ i < fs.geo.bytesPerCluster,
      ¬ (c = node.dirCluster ∧ node.dirOffset ≤ i ∧ i < node.dirOffset + 32) →
      (fs.geo.view fs'.dev.bytes).data c i = (fs.geo.view fs.dev.bytes).data c i := by
  have hchain := (hwf.chain cs hcs).2
  constructor
  · rw [h.geo_eq]
    refine ⟨hchain.linked.congr ?_, hchain.nodup, hchain.usable⟩
    intro c hc
    rw [h.link_eq hwf (hchain.usable c hc)]
    exact (h.progress.kept hwf hstep hcs hne hc).2.1
  · intro c hc i hi hout
    obtain ⟨_, _, hdata⟩ := h.progress.kept hwf hstep hcs hne hc
    by_cases hdir : c = node.dirCluster
    · subst hdir
      rw [h.data_dir hi, entryUpdated_outside _ _ _ _ (fun hin => hout ⟨rfl, hin⟩)]
      exact hdata i hi
    · rw [h.data_of_ne hwf hstep (hchain.usable c hc) hdir hi]
      exact hdata i hi

theorem wellFormed : WellFormed fs' (exchange chains file file') := by
  have hnew : ∀ cs ∈ chains, cs ≠ file → ∀ c ∈ cs, c ∉ file' := by
    intro cs hcs hne c hc
    exact (h.progress.kept hwf hstep hcs hne hc).1
  refine ⟨h.entry.ready, ?_, ?_, ?_⟩
  · rw [h.geo_eq, h.entry.bytes]
    exact (h.progress.copies hwf.copies).setCluster hwf.ready.geo _ _
  · intro cs hcs
    refine ⟨hcs.1, ?_⟩
    rcases hcs.2 with heq | ⟨hmem, hne⟩
    · subst heq
      rw [h.geo_eq]
      refine ⟨h.progress.wrote.linked.congr ?_, h.progress.wrote.nodup, h.progress.usable⟩
      intro c hc
      exact h.link_eq hwf (h.progress.usable c hc)
    · exact (h.kept hwf hstep hmem hne).1
  · intro cs hcs ds hds hne c hc hd
    rcases hcs.2 with heq | ⟨hmem, hcf⟩
    · rcases hds.2 with heq' | ⟨hmem', hdf⟩
      · exact hne (heq.trans heq'.symm)
      · exact hnew ds hmem' hdf c hd (heq ▸ hc)
    · rcases hds.2 with heq' | ⟨hmem', hdf⟩
      · exact hnew cs hmem hcf c hc (heq' ▸ hd)
      · exact hwf.disjoint cs hmem ds hmem' hne c hc hd

theorem inStep (hbound : offset + bytes.length < 2 ^ 32) :
    InStep fs' (exchange chains file file') node' file' := by
  have hnode := h.vnode
  have hdirCluster : node'.dirCluster = node.dirCluster := by rw [hnode]
  have hdirOffset : node'.dirOffset = node.dirOffset := by rw [hnode]
  have hfileSize : node'.fileSize = max node.fileSize (offset + bytes.length) := by rw [hnode]
  have hnonempty : file' ≠ [] := by
    intro hnil
    have hfirst := h.first
    rw [hnil] at hfirst
    cases hfirst
  have hsmall := hstep.fileSize_lt
  have hfirst : node'.firstCluster < 2 ^ 32 := by
    have hupper := (h.progress.usable _ (List.mem_of_getElem? h.first)).2
    have hrange := hwf.ready.geo.range
    simp only [fat32EocMin] at hrange
    omega
  have hentry := entry_congr node.dirOffset fun i hi =>
    h.data_dir (i := i) (Nat.lt_of_lt_of_le hi hstep.offset)
  refine ⟨?_, Or.inr ⟨⟨hnonempty, Or.inl rfl⟩, h.first⟩, ?_, ?_, ?_, ?_⟩
  · rw [hnode]
    exact hstep.type
  · obtain ⟨ds, hds, hne, hmem⟩ := hstep.directory
    refine ⟨ds, ⟨(hwf.chain ds hds).1, Or.inr ⟨hds, hne⟩⟩, ?_, ?_⟩
    · intro heq
      exact h.dirCluster_notMem hwf hstep (heq ▸ hmem)
    · rw [hdirCluster]
      exact hmem
  · rw [h.geo_eq, hdirOffset]
    exact hstep.offset
  · rw [h.geo_eq, hdirCluster, hdirOffset, hentry.1]
    exact entryUpdated_fileSize _ _ (by rw [hfileSize]; omega)
  · rw [h.geo_eq, hdirCluster, hdirOffset, hentry.2]
    exact entryUpdated_firstCluster _ _ hfirst

theorem read_back (hbytes : bytes ≠ []) (hbound : offset + bytes.length < 2 ^ 32) :
    ∃ fs'', fs'.read node' offset bytes.length = ((bytes.length : Int), bytes, fs'') := by
  have hstep' := h.inStep hwf hstep hbound
  have hsize : node'.fileSize = max node.fileSize (offset + bytes.length) := by rw [h.vnode]
  have hsmall := hstep'.fileSize_lt
  have hfits := h.progress.wrote.fits.resolve_left hbytes
  have hinside : offset + bytes.length ≤ node'.fileSize := by omega
  obtain ⟨got, fs'', hread, hlen, hgot⟩ := read_ok h.entry.ready
    (hstep'.fileChain (h.wellFormed hwf hstep))
    hstep'.type h.first (List.length_pos_iff.mpr hbytes) hinside hsmall
      (by rw [h.geo_eq]; exact hfits)
  have heq : got = bytes := by
    apply List.ext_getElem?
    intro i
    by_cases hi : i < bytes.length
    · have hbyte := h.fileByte_eq hwf hstep (p := offset + i) (by omega)
      rw [if_pos (by omega), Nat.add_sub_cancel_left] at hbyte
      rw [hgot i hi]
      exact hbyte
    · rw [List.getElem?_eq_none (by omega), List.getElem?_eq_none (by omega)]
  rw [hread, heq]
  exact ⟨fs'', rfl⟩

end Written

end Write

/-- A write that returns `n` stores the first `n` bytes and leaves the rest of the volume. -/
theorem write_exact {fs fs' : Fat32Filesystem} {chains : Set (List Nat)} {node node' : Fat32VNode}
    {file : List Nat} (hwf : WellFormed fs chains) (hstep : InStep fs chains node file)
    (offset : Nat) (src : List (BitVec 8)) (hbound : offset + src.length < 2 ^ 32) (n : Nat)
    (hrun : fs.write node offset (some src) = ((n : Int), node', fs')) :
    n ≤ src.length ∧ (∃ fs'', fs'.read node' offset n = ((n : Int), src.take n, fs'')) ∧
      node'.fileSize = (if n = 0 then node.fileSize else max node.fileSize (offset + n)) ∧
      ∃ file', WellFormed fs' (exchange chains file file') ∧
        InStep fs' (exchange chains file file') node' file' ∧
        (∀ p < node.fileSize, p < offset ∨ offset + n ≤ p → ∀ b, fs.fileByte file p = some b →
          fs'.fileByte file' p = some b) ∧
        ∀ cs ∈ chains, cs ≠ file → ChainOf fs'.geo fs'.dev.bytes cs ∧
          ∀ c ∈ cs, ∀ i < fs.geo.bytesPerCluster,
            ¬ (c = node.dirCluster ∧ node.dirOffset ≤ i ∧ i < node.dirOffset + 32) →
            (fs.geo.view fs'.dev.bytes).data c i = (fs.geo.view fs.dev.bytes).data c i := by
  by_cases hsrc : src = []
  · subst hsrc
    rw [Fat32Filesystem.write, if_neg (not_not.mpr hstep.type), if_pos List.length_nil] at hrun
    simp only [Prod.mk.injEq] at hrun
    obtain ⟨hzero, rfl, rfl⟩ := hrun
    have hn : n = 0 := by omega
    subst hn
    refine ⟨Nat.le_refl _, ⟨fs, ?_⟩, rfl, file, ?_⟩
    · rw [Fat32Filesystem.read, if_neg (not_not.mpr hstep.type), if_pos (Or.inr rfl)]
      rfl
    · rw [exchange_self hwf hstep]
      exact ⟨hwf, hstep, fun _ _ _ _ hb => hb,
        fun cs hcs _ => ⟨(hwf.chain cs hcs).2, fun _ _ _ _ _ => rfl⟩⟩
  · have hcount := (write_ends hwf hstep hsrc hrun).count_le
    obtain ⟨hpos, hle, fs₁, file', h⟩ := write_written hwf hstep hsrc (n := n) (by omega) hrun
    have hlen : (src.take n).length = n := by rw [List.length_take, Nat.min_eq_left hle]
    have hbytes : src.take n ≠ [] := by
      rw [← List.length_pos_iff, hlen]
      exact hpos
    have hbound' : offset + (src.take n).length < 2 ^ 32 := by omega
    have hread := h.read_back hwf hstep hbytes hbound'
    have hsize : node'.fileSize = max node.fileSize (offset + (src.take n).length) := by
      rw [h.vnode]
    rw [hlen] at hread hsize
    refine ⟨hle, hread, ?_, file', h.wellFormed hwf hstep, h.inStep hwf hstep hbound', ?_, ?_⟩
    · rw [if_neg (Nat.ne_of_gt hpos)]
      exact hsize
    · intro p _ hout b hb
      exact h.fileByte_kept hwf hstep (by rwa [hlen]) hb
    · intro cs hcs hne
      exact h.kept hwf hstep hcs hne

/-- A directory in cluster 2 with one file of three bytes in cluster 3; two more clusters are
free. -/
def smallVolume : Fat32Filesystem where
  geo := smallGeometry
  mounted := true
  dev := {
    totalSectors := 7
    bytes := patch (patch (patch (patch (fun _ => 0) 520 (leBytes 8 0x0FFFFFFF0FFFFFFF))
      1032 (leBytes 8 0x0FFFFFFF0FFFFFFF)) 1562 (leBytes 2 3)) 1564 (leBytes 4 3) }

def smallFile : Fat32VNode where
  type := .file
  firstCluster := 3
  fileSize := 3
  dirCluster := 2

theorem smallVolume_wellFormed : WellFormed smallVolume {[2], [3]} where
  ready := ready_of_small rfl ⟨rfl, fun _ => rfl⟩ rfl (Nat.le_refl 7) fun _ => rfl
  copies := by
    unfold CopiesEqual
    decide +kernel
  chain cs hcs := by
    have hends : ∀ c, smallVolume.geo.Usable c →
        IsEoc (smallVolume.geo.fatEntry smallVolume.dev.bytes c) →
        ChainOf smallVolume.geo smallVolume.dev.bytes [c] := by
      intro c hc hend
      refine ⟨Linked.single hend, List.nodup_singleton c, ?_⟩
      intro d hd
      rw [List.mem_singleton.mp hd]
      exact hc
    rcases hcs with rfl | rfl
    · exact ⟨List.cons_ne_nil _ _, hends 2 ⟨by decide, by decide⟩ (by unfold IsEoc; decide +kernel)⟩
    · exact ⟨List.cons_ne_nil _ _, hends 3 ⟨by decide, by decide⟩ (by unfold IsEoc; decide +kernel)⟩
  disjoint cs hcs ds hds hne c hc hd := by
    rcases hcs with rfl | rfl <;> rcases hds with rfl | rfl
    · exact hne rfl
    · cases List.mem_singleton.mp hc
      cases List.mem_singleton.mp hd
    · cases List.mem_singleton.mp hc
      cases List.mem_singleton.mp hd
    · exact hne rfl

theorem smallFile_inStep : InStep smallVolume {[2], [3]} smallFile [3] where
  type := rfl
  first := Or.inr ⟨Or.inr rfl, rfl⟩
  directory := ⟨[2], Or.inl rfl, by decide, by decide⟩
  offset := by decide
  entrySize := by decide +kernel
  entryFirst := by decide +kernel

/-- Five bytes across the end of the only cluster, which take a second one. -/
theorem smallFile_write_across :
    ∃ fs'', (smallVolume.write smallFile 510 (some [1, 2, 3, 4, 5])).2.2.read
      (smallVolume.write smallFile 510 (some [1, 2, 3, 4, 5])).2.1 510 5 =
        (5, [1, 2, 3, 4, 5], fs'') :=
  (write_exact smallVolume_wellFormed smallFile_inStep 510 [1, 2, 3, 4, 5] (by decide) 5
    (Prod.ext (by decide +kernel) rfl)).2.1

end LlamaOS.Fs
