import LlamaOS.Fs.FileTransfers

/-!
# Volumes and their files

The directory entry of a file, and a volume as a set of disjoint chains. What a run of the
driver on one file leaves of the others follows from `Progress`.
-/

namespace LlamaOS.Fs
open ByteBuffer BlockChain Fs.Geometry

/-- The directory's cluster as `update_dir_entry` writes it back. -/
def entryUpdated (dir : Buffer) (off size first : Nat) : Buffer :=
  patch (patch (patch dir (off + 28) (leBytes 4 size)) (off + 26) (leBytes 2 (first % 2 ^ 16)))
    (off + 20) (leBytes 2 (first / 2 ^ 16 % 2 ^ 16))

section Entry

variable (dir : Buffer) (off : Nat) {size first : Nat}

theorem entryUpdated_outside (size first : Nat) {i : Nat} (hi : ¬ (off ≤ i ∧ i < off + 32)) :
    entryUpdated dir off size first i = dir i := by
  unfold entryUpdated
  rw [patch_outside _ (by rw [leBytes_length]; omega),
    patch_outside _ (by rw [leBytes_length]; omega),
    patch_outside _ (by rw [leBytes_length]; omega)]

theorem entryUpdated_fileSize (hsize : size < 2 ^ 32) :
    entryFileSize (entryUpdated dir off size first) off = size := by
  unfold entryFileSize entryUpdated
  rw [loadLe_patch_of_disjoint _ (by rw [leBytes_length]; omega),
    loadLe_patch_of_disjoint _ (by rw [leBytes_length]; omega), loadLe_patch_self]
  exact Nat.mod_eq_of_lt (by omega)

theorem entryUpdated_firstCluster (hfirst : first < 2 ^ 32) :
    entryFirstCluster (entryUpdated dir off size first) off = first := by
  unfold entryFirstCluster entryUpdated
  rw [loadLe_patch_self, loadLe_patch_of_disjoint _ (by rw [leBytes_length]; omega),
    loadLe_patch_self]
  omega

theorem entryFileSize_lt : entryFileSize dir off < 2 ^ 32 := loadLe_lt dir 4 (off + 28)

theorem entry_congr {dir dir' : Buffer} (off : Nat) (h : ∀ i < off + 32, dir' i = dir i) :
    entryFileSize dir' off = entryFileSize dir off ∧ entryFirstCluster dir' off =
      entryFirstCluster dir off := by
  unfold entryFileSize entryFirstCluster
  rw [loadLe_congr fun i hi => h (off + 28 + i) (by omega),
    loadLe_congr fun i hi => h (off + 20 + i) (by omega),
    loadLe_congr fun i hi => h (off + 26 + i) (by omega)]
  exact ⟨rfl, rfl⟩

end Entry

theorem Became.updateDirEntry_ok {fs fs₀ : Fat32Filesystem} {d : Buffer} (h : Became fs d fs₀)
    {node : Fat32VNode} (hdir : fs.geo.Usable node.dirCluster) (size first : Nat) :
    ∃ fs', fs₀.updateDirEntry node size first =
      ({ node with fileSize := size, firstCluster := first }, fs') ∧
      Became fs (fs.geo.setCluster node.dirCluster
        (entryUpdated ((fs.geo.view d).data node.dirCluster) node.dirOffset size first) d) fs' := by
  obtain ⟨_, fs₁, halloc, hfs₁⟩ := h.kmalloc_ok
  obtain ⟨fs₂, hread, hfs₂⟩ := hfs₁.readCluster_ok hdir.1 (h.hasCluster hdir)
  obtain ⟨fs₃, hwrite, hfs₃⟩ := hfs₂.writeCluster_ok hdir.1 (h.hasCluster hdir)
    (entryUpdated ((fs.geo.view d).data node.dirCluster) node.dirOffset size first)
  refine ⟨{ fs₃ with dev := fs₃.dev.flush }, ?_, hfs₃.recorded .flush⟩
  rw [Fat32Filesystem.updateDirEntry, if_neg (Nat.not_lt_of_le hdir.1)]
  unfold entryUpdated at hwrite
  simp only [halloc, hread, hwrite]

/-- The chains of the volume's files and directories. -/
structure WellFormed (fs : Fat32Filesystem) (chains : Set (List Nat)) : Prop where
  ready : Ready fs
  copies : fs.geo.CopiesEqual fs.dev.bytes
  chain : ∀ cs ∈ chains, cs ≠ [] ∧ ChainOf fs.geo fs.dev.bytes cs
  disjoint : ∀ cs ∈ chains, ∀ ds ∈ chains, cs ≠ ds → ∀ c ∈ cs, c ∉ ds

/-- The vnode of a file and its directory entry say the same. A file without clusters has no
chain. -/
structure InStep (fs : Fat32Filesystem) (chains : Set (List Nat)) (node : Fat32VNode)
    (file : List Nat) :
    Prop where
  type : node.type = .file
  first : file = [] ∧ node.firstCluster < 2 ∨ file ∈ chains ∧ file[0]? = some node.firstCluster
  directory : ∃ ds ∈ chains, ds ≠ file ∧ node.dirCluster ∈ ds
  offset : node.dirOffset + 32 ≤ fs.geo.bytesPerCluster
  entrySize : entryFileSize ((fs.geo.view fs.dev.bytes).data node.dirCluster) node.dirOffset =
    node.fileSize
  entryFirst : entryFirstCluster ((fs.geo.view fs.dev.bytes).data node.dirCluster) node.dirOffset =
    node.firstCluster

def exchange (chains : Set (List Nat)) (file file' : List Nat) : Set (List Nat) :=
  { cs | cs ≠ [] ∧ (cs = file' ∨ cs ∈ chains ∧ cs ≠ file) }

def Fat32Filesystem.fileByte (fs : Fat32Filesystem) (file : List Nat) (p : Nat) :
    Option (BitVec 8) :=
  byteAt fs.geo.bytesPerCluster (fs.geo.view fs.dev.bytes) file p

section Volume

variable {fs fs' : Fat32Filesystem} {chains : Set (List Nat)} {node : Fat32VNode}
  {file file' : List Nat}

section

variable (hwf : WellFormed fs chains) (hstep : InStep fs chains node file)
include hwf hstep

theorem exchange_self : exchange chains file file = chains := by
  ext cs
  constructor
  · rintro ⟨hne, rfl | hcs⟩
    · rcases hstep.first with hnone | hfirst
      · exact absurd hnone.1 hne
      · exact hfirst.1
    · exact hcs.1
  · intro hcs
    refine ⟨(hwf.chain cs hcs).1, ?_⟩
    by_cases heq : cs = file
    · exact Or.inl heq
    · exact Or.inr ⟨hcs, heq⟩

theorem InStep.fileChain : ChainOf fs.geo fs.dev.bytes file := by
  rcases hstep.first with hnone | hfirst
  · rw [hnone.1]
    exact ⟨Linked.nil _ _, List.nodup_nil, fun c hc => by cases hc⟩
  · exact (hwf.chain file hfirst.1).2

theorem InStep.file_disjoint {cs : List Nat}
    (hcs : cs ∈ chains) (hne : cs ≠ file) {c : Nat} (hc : c ∈ cs) : c ∉ file := by
  rcases hstep.first with hnone | hfirst
  · rw [hnone.1]
    exact List.not_mem_nil
  · exact hwf.disjoint cs hcs file hfirst.1 hne c hc

end

/-- What a run of the driver on the file leaves of the volume: all of it but the file. -/
theorem Progress.kept {offset : Nat} {bytes : List (BitVec 8)} (hwf : WellFormed fs chains)
    (hstep : InStep fs chains node file) (h : Progress fs fs' file file' offset bytes)
    {cs : List Nat} (hcs : cs ∈ chains) (hne : cs ≠ file) {c : Nat} (hc : c ∈ cs) :
    c ∉ file' ∧ fs.geo.fatEntry fs'.dev.bytes c = fs.geo.fatEntry fs.dev.bytes c ∧
      ∀ i < fs.geo.bytesPerCluster, (fs.geo.view fs'.dev.bytes).data c i =
        (fs.geo.view fs.dev.bytes).data c i := by
  have hchain := (hwf.chain cs hcs).2
  have hout := hstep.file_disjoint hwf hcs hne hc
  have hout' : c ∉ file' := by
    obtain ⟨new, hnew, hfree⟩ := h.wrote.grown
    rw [hnew, List.mem_append]
    rintro (hin | hin)
    · exact hout hin
    · exact hchain.live hc (hfree c hin).2
  exact ⟨hout', h.wrote.others c (hchain.usable c hc) hout'⟩

end Volume

end LlamaOS.Fs
