import LlamaOS.Fs.Mounting
import LlamaOS.Fs.WriteAccesses

/-!
# Calls on vnodes

The calls of `Fat32VNode` on a vnode of the pool, and the accesses of those on directories.
-/

namespace LlamaOS.Fs
open ByteBuffer Transcript Fat32Filesystem Fat32Volume Does

inductive VnodeCall where
  | lookup (name : CString)
  | readdir (index : Nat)
  | create (name : CString) (type : NodeType)
  | unlink (name : CString)
  | read (offset count : Nat)
  | write (offset : Nat) (src : Option (List (BitVec 8)))
  | truncate (newSize : Nat)

def Fat32Volume.setNode (v : Fat32Volume) (slot : Nat) (node : Fat32VNode) (fs : Fat32Filesystem) :
    Fat32Volume :=
  { v with fs, vnodePool := fun i => if i = slot then node else v.vnodePool i }

/-- The volume after the call; `none` if it has not returned. -/
def VnodeCall.run (fuel : Nat) (v : Fat32Volume) (slot : Nat) : VnodeCall → Option Fat32Volume
  | .lookup name => (v.lookup fuel (v.vnodePool slot) name).map fun r => r.2.2
  | .readdir index =>
    (v.fs.readdir fuel (v.vnodePool slot) index).map fun r => { v with fs := r.2.2 }
  | .create name type => (v.create fuel (v.vnodePool slot) name type).map fun r => r.2.2
  | .unlink name => (v.fs.unlink fuel (v.vnodePool slot) name).map fun r => { v with fs := r.2 }
  | .read offset count => some { v with fs := (v.fs.read (v.vnodePool slot) offset count).2.2 }
  | .write offset src =>
    let (_, node, fs) := v.fs.write (v.vnodePool slot) offset src
    some (v.setNode slot node fs)
  | .truncate newSize =>
    let (_, node, fs) := v.fs.truncate (v.vnodePool slot) newSize
    some (v.setNode slot node fs)

variable {n : Nat}

section Scans

variable {P : Access → Prop} {g : Geometry}

theorem scanClusters_performs {α σ : Type} (visit : Buffer → σ → Nat → Buffer → α ⊕ σ)
    (hP : Permits P g) (fuel : Nat) {curr : Nat} {lfnBuf : Buffer} {s : σ}
    {fs fs' : Fat32Filesystem} {r : Option (Nat × α)}
    (h : scanClusters visit fuel curr lfnBuf s fs = some (r, fs')) :
    Performs P (2 * fuel) fs fs' := by
  induction fuel generalizing curr lfnBuf s fs fs' r with
  | zero => cases h
  | succ fuel ih =>
    rw [scanClusters] at h
    split at h
    · split at h
      · rename_i fs₁ hread
        cases h
        exact (performs_read hP hread).mono (by omega)
      rename_i dir fs₁ hread
      have hdata := performs_read hP hread
      split at h
      · cases h
        exact hdata.mono (by omega)
      · cases h
        exact hdata.mono (by omega)
      · have hnext := hdata.trans (one (hP.readFat curr) fs₁)
        exact (hnext.trans (ih h)).mono (by omega)
    · cases h
      exact .refl

/-- What the turns of the search for a free entry and of the loop of `unlink` keep. -/
def WalkRule (I : Fat32Filesystem → Nat → Prop) : Prop :=
  ∀ fs curr, I fs curr → 2 ≤ curr → curr < fat32EocMin →
    I ((fs.readCluster curr).2.readFatEntry curr).2 ((fs.readCluster curr).2.readFatEntry curr).1

variable {I : Fat32Filesystem → Nat → Prop}

theorem freeSlotLoop_performs (hP : Permits P g) (hI : WalkRule I) (fuel : Nat) {curr prev : Nat}
    {fs fs' : Fat32Filesystem} {r : (Nat × Nat × Buffer) ⊕ Nat}
    (h : freeSlotLoop fuel curr prev fs = some (r, fs')) (hcurr : I fs curr) :
    Performs P (2 * fuel) fs fs' ∧
      match r with
      | .inl (c, _, _) => ∃ fs₀, I fs₀ c ∧ 2 ≤ c ∧ c < fat32EocMin
      | .inr p => p = prev ∨ ∃ fs₀, I fs₀ p ∧ 2 ≤ p ∧ p < fat32EocMin := by
  induction fuel generalizing curr prev fs fs' r with
  | zero => cases h
  | succ fuel ih =>
    rw [freeSlotLoop] at h
    split at h
    · rename_i hguard
      split at h
      · rename_i fs₁ hread
        cases h
        exact ⟨(performs_read hP hread).mono (by omega), Or.inl rfl⟩
      rename_i dir fs₁ hread
      have hdata := performs_read hP hread
      split at h
      · cases h
        exact ⟨hdata.mono (by omega), fs, hcurr, hguard⟩
      have hnext := hI fs curr hcurr hguard.1 hguard.2
      rw [hread] at hnext
      obtain ⟨hrest, hend⟩ := ih h hnext
      refine ⟨((hdata.trans (one (hP.readFat curr) fs₁)).trans hrest).mono (by omega), ?_⟩
      cases r with
      | inl found => exact hend
      | inr p =>
        rcases hend with hlast | hwalk
        · exact Or.inr ⟨fs, hlast ▸ hcurr, hlast ▸ hguard⟩
        · exact Or.inr hwalk
    · cases h
      exact ⟨.refl, Or.inl rfl⟩

/-- The directory without the entry `i` of the cluster `curr`. -/
def entryRemoved (fs : Fat32Filesystem) (curr i : Nat) (dir : Buffer) : Fat32Filesystem :=
  let fs := (fs.writeCluster curr (patch dir (i * dirEntrySize) [0xE5])).2
  { fs with dev := fs.dev.flush }

/-- What `unlink` does to the entry it takes. -/
def TakenRule (P : Access → Prop) (I : Fat32Filesystem → Nat → Prop) (n : Nat)
    (target83 : List (BitVec 8)) : Prop :=
  ∀ fs curr dir fs₁ i, I fs curr → 2 ≤ curr → curr < fat32EocMin →
    fs.readCluster curr = (some dir, fs₁) →
    unlinkEntries target83 dir (fs₁.geo.bytesPerCluster / dirEntrySize) 0 = some i →
    (∀ src, P (.writeCluster curr src)) ∧
      Performs P n (entryRemoved fs₁ curr i dir)
        ((entryRemoved fs₁ curr i dir).freeClusterChain (entryFirstCluster dir (i * dirEntrySize)))

theorem unlinkLoop_performs {target83 : List (BitVec 8)} (hP : Permits P g) (hI : WalkRule I)
    (htaken : TakenRule P I n target83) (fuel : Nat) {curr : Nat} {fs fs' : Fat32Filesystem}
    {res : Int} (h : unlinkLoop target83 fuel curr fs = some (res, fs')) (hcurr : I fs curr) :
    Performs P (2 * fuel + 1 + n) fs fs' := by
  induction fuel generalizing curr fs fs' res with
  | zero => cases h
  | succ fuel ih =>
    rw [unlinkLoop] at h
    split at h
    · rename_i hguard
      split at h
      · rename_i fs₁ hread
        cases h
        exact (performs_read hP hread).mono (by omega)
      rename_i dir fs₁ hread
      have hdata := performs_read hP hread
      split at h
      · rename_i i hfound
        obtain ⟨hwrite, hfreed⟩ := htaken fs curr dir fs₁ i hcurr hguard.1 hguard.2 hread hfound
        have hremoved : Performs P (1 + 1) fs₁ (entryRemoved fs₁ curr i dir) :=
          (one (hwrite _) fs₁).trans (one hP.flush _)
        obtain ⟨_, rfl⟩ := Prod.mk.inj (Option.some.inj h)
        split
        · exact ((hdata.trans hremoved).trans hfreed).mono (by omega)
        · exact (hdata.trans hremoved).mono (by omega)
      · have hnext := hI fs curr hcurr hguard.1 hguard.2
        rw [hread] at hnext
        exact ((hdata.trans (one (hP.readFat curr) fs₁)).trans (ih h hnext)).mono (by omega)
    · cases h
      exact .refl

end Scans

variable {fs : Fat32Filesystem}

section Create

variable {P : Access → Prop}

theorem writeCluster_low {c : Nat} (hc : c < 2) (fs : Fat32Filesystem) (src : Buffer) :
    (fs.writeCluster c src).2 = fs := by
  rw [writeCluster, if_pos (Or.inr hc)]

theorem newDirectory_performs (hP : Permits P fs.geo) (parent : Nat) :
    Performs P (fs.geo.totalClusters + 6) fs (newDirectory fs parent).2 := by
  obtain ⟨hclaim, hresult⟩ := @allocCluster_performs _ _ hP 0 fun hge => by omega
  unfold newDirectory
  simp only
  split
  · rename_i fs₁ halloc
    exact (hclaim.trans (performs_alloc hP halloc)).mono (by omega)
  rename_i buf fs₁ halloc
  have hbuf := hclaim.trans (performs_alloc hP halloc)
  rcases hresult with hzero | husable
  · rw [hzero]
    simp only [writeCluster_low (show 0 < 2 by decide)]
    exact hbuf.mono (by omega)
  · exact (hbuf.trans (one (hP.writeCluster _ _ husable) fs₁)).mono (by omega)

variable {v : Fat32Volume}

theorem allocVnode_fs (v : Fat32Volume) (node : Fat32VNode) : (v.allocVnode node).2.fs = v.fs := by
  unfold allocVnode
  split
  · rfl
  · rfl

theorem createAt_performs (hP : Permits P v.fs.geo) {curr : Nat}
    (hcurr : ∀ src, P (.writeCluster curr src)) (node : Fat32VNode) (target83 : List (BitVec 8))
    (type : NodeType) (i : Nat) (dir : Buffer) :
    Performs P (v.fs.geo.totalClusters + 8) v.fs
      (v.createAt node target83 type curr i dir).2.2.fs := by
  have hnew : Performs P (v.fs.geo.totalClusters + 6) v.fs
      (if type = .directory then newDirectory v.fs node.firstCluster else (0, v.fs)).2 := by
    split
    · exact newDirectory_performs hP _
    · exact .refl
  unfold createAt
  simp only [allocVnode_fs]
  exact (hnew.trans (one (hcurr _) _)).trans (one hP.flush _)

theorem createAppended_performs (hP : Permits P v.fs.geo) {prev : Nat}
    (hprev : prev ≥ 2 → ∀ value, P (.writeFat prev value)) (target83 : List (BitVec 8))
    (type : NodeType) :
    Performs P (v.fs.geo.totalClusters + 6) v.fs (v.createAppended target83 type prev).2.2.fs := by
  obtain ⟨hclaim, hresult⟩ := allocCluster_performs hP hprev
  unfold createAppended
  split
  · simp only
    split
    · rename_i hge
      have husable := hresult.resolve_left (by omega)
      simp only [allocVnode_fs]
      exact (hclaim.trans (one (hP.writeCluster _ _ husable) _)).trans (one hP.flush _)
    · exact hclaim.mono (by omega)
  · exact .refl

end Create

section Calls

variable {P : Access → Prop} {v v' : Fat32Volume} {node : Fat32VNode} {fuel : Nat}

variable {g : Geometry} {name : CString} {res : Int} {child : Option Nat}

theorem lookup_performs (hP : Permits P g) (h : v.lookup fuel node name = some (res, child, v')) :
    Performs P (2 * fuel + 1) v.fs v'.fs := by
  unfold lookup at h
  split at h
  · cases h
    exact .refl
  split at h
  · rename_i fs₁ halloc
    cases h
    exact (performs_alloc hP halloc).mono (by omega)
  rename_i buf fs₁ halloc
  have hbuf := performs_alloc hP halloc
  split at h
  · cases h
  · rename_i fs₂ hscan
    cases h
    exact (hbuf.trans (scanClusters_performs _ hP fuel hscan)).mono (by omega)
  rename_i curr e fs₂ hscan
  have hdone := hbuf.trans (scanClusters_performs _ hP fuel hscan)
  have hfs :=
    allocVnode_fs { v with fs := fs₂ } ⟨e.type, e.firstCluster, e.fileSize, curr, e.dirOffset⟩
  have hv' : v'.fs = fs₂ := by
    split at h
    · rename_i v₁ heq
      cases h
      rwa [heq] at hfs
    · rename_i slot v₁ heq
      cases h
      rwa [heq] at hfs
  rw [hv']
  exact hdone.mono (by omega)

variable {fs' : Fat32Filesystem}

theorem readdir_performs (hP : Permits P g) {index : Nat} {entry : Option DirEntry}
    (h : fs.readdir fuel node index = some (res, entry, fs')) :
    Performs P (2 * fuel + 1) fs fs' := by
  unfold readdir at h
  split at h
  · cases h
    exact .refl
  split at h
  · rename_i fs₁ halloc
    cases h
    exact (performs_alloc hP halloc).mono (by omega)
  rename_i buf fs₁ halloc
  have hbuf := performs_alloc hP halloc
  split at h
  · cases h
  · rename_i fs₂ hscan
    cases h
    exact (hbuf.trans (scanClusters_performs _ hP fuel hscan)).mono (by omega)
  · rename_i curr e fs₂ hscan
    cases h
    exact (hbuf.trans (scanClusters_performs _ hP fuel hscan)).mono (by omega)

variable {I : Fat32Filesystem → Nat → Prop}

theorem create_performs (hP : Permits P v.fs.geo) (hI : WalkRule I)
    (hfirst : I v.fs.kmalloc.2 node.firstCluster)
    (hwalk : ∀ fs c, I fs c → 2 ≤ c → c < fat32EocMin →
      (∀ src, P (.writeCluster c src)) ∧ ∀ value, P (.writeFat c value))
    {type : NodeType} (h : v.create fuel node name type = some (res, child, v')) :
    Performs P (2 * fuel + v.fs.geo.totalClusters + 9) v.fs v'.fs := by
  unfold create at h
  split at h
  · cases h
    exact .refl
  split at h
  · rename_i fs₁ halloc
    cases h
    exact (performs_alloc hP halloc).mono (by omega)
  rename_i buf fs₁ halloc
  have hbuf := performs_alloc hP halloc
  rw [halloc] at hfirst
  split at h
  · cases h
  · rename_i curr i dir fs₂ hscan
    obtain ⟨hwalked, fs₀, hcurr, hlo, hhi⟩ := freeSlotLoop_performs hP hI fuel hscan hfirst
    have hdone : Performs P (1 + 2 * fuel) v.fs fs₂ := hbuf.trans hwalked
    have hat := createAt_performs (v := { v with fs := fs₂ }) (hdone.geo_eq.symm ▸ hP)
      (hwalk fs₀ curr hcurr hlo hhi).1 node (formatTo83 name) type i dir
    rw [hdone.geo_eq] at hat
    have hv' := congrArg (fun r => r.2.2.fs) (Option.some.inj h)
    rw [hv'] at hat
    exact (hdone.trans hat).mono (by omega)
  · rename_i prev fs₂ hscan
    obtain ⟨hwalked, hlast⟩ := freeSlotLoop_performs hP hI fuel hscan hfirst
    have hdone : Performs P (1 + 2 * fuel) v.fs fs₂ := hbuf.trans hwalked
    have hprev : prev ≥ 2 → ∀ value, P (.writeFat prev value) := by
      intro hge
      rcases hlast with hzero | ⟨fs₀, hlast, hlo, hhi⟩
      · omega
      · exact (hwalk fs₀ prev hlast hlo hhi).2
    have happended := createAppended_performs (v := { v with fs := fs₂ })
      (hdone.geo_eq.symm ▸ hP) hprev (formatTo83 name) type
    rw [hdone.geo_eq] at happended
    have hv' := congrArg (fun r => r.2.2.fs) (Option.some.inj h)
    rw [hv'] at happended
    exact (hdone.trans happended).mono (by omega)

theorem unlink_performs (hP : Permits P fs.geo) (hI : WalkRule I)
    (hfirst : I fs.kmalloc.2 node.firstCluster) (htaken : TakenRule P I n (formatTo83 name))
    (h : fs.unlink fuel node name = some (res, fs')) : Performs P (2 * fuel + n + 2) fs fs' := by
  unfold unlink at h
  split at h
  · cases h
    exact .refl
  split at h
  · rename_i fs₁ halloc
    cases h
    exact (performs_alloc hP halloc).mono (by omega)
  rename_i buf fs₁ halloc
  have hbuf := performs_alloc hP halloc
  rw [halloc] at hfirst
  exact (hbuf.trans (unlinkLoop_performs hP hI htaken fuel h hfirst)).mono (by omega)

end Calls

end LlamaOS.Fs
