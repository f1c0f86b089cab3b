import LlamaOS.Fs.Accesses

/-!
# The accesses of `write`

The two loops of `write` share one invariant. The walk to the offset has a hop limit; the
writing loop has none, but each of its turns takes a byte.
-/

namespace LlamaOS.Fs
open ByteBuffer Transcript Fat32Filesystem

variable {P : Access → Prop}

/-- What the turns of the two loops of `write` keep, on a volume with `total` clusters. -/
structure WriteRule (P : Access → Prop) (I : Fat32Filesystem → Nat → Prop) (total : Nat) :
    Prop where
  permits : ∀ {fs curr}, I fs curr → Permits P fs.geo
  clusters : ∀ {fs curr}, I fs curr → fs.geo.totalClusters = total
  link : ∀ {fs curr}, I fs curr → ∀ value, P (.writeFat curr value)
  next : ∀ {fs curr}, I fs curr → 2 ≤ (fs.nextOrAlloc curr).1 →
    I (fs.nextOrAlloc curr).2 (fs.nextOrAlloc curr).1
  write : ∀ {fs curr}, I fs curr → 2 ≤ curr → curr < fat32EocMin → ∀ src, P (.writeCluster curr src)
  filled : ∀ {fs curr}, I fs curr → I (fs.readCluster curr).2 curr
  written : ∀ {fs curr}, I fs curr → 2 ≤ curr → ∀ src, I (fs.writeCluster curr src).2 curr

section Write

variable {I : Fat32Filesystem → Nat → Prop} {total : Nat}

variable {fs : Fat32Filesystem} {curr : Nat}

section

variable (hI : WriteRule P I total)
include hI

theorem nextOrAlloc_performs (h : I fs curr) :
    Performs P (total + 5) fs (fs.nextOrAlloc curr).2 := by
  have hP := hI.permits h
  have hread : Performs P 1 fs (fs.readFatEntry curr).2 := Does.one (hP.readFat curr) fs
  unfold nextOrAlloc
  simp only
  split
  · rw [← hread.geo_eq] at hP
    obtain ⟨halloc, _⟩ := allocCluster_performs hP fun _ => hI.link h
    rw [hread.geo_eq, hI.clusters h] at halloc
    exact (hread.trans halloc).mono (by omega)
  · exact hread.mono (by omega)

theorem writeSeek_performs (left : Nat) (curr hops : Nat) (fs : Fat32Filesystem) (h : I fs curr) :
    Performs P ((total - hops) * (total + 5)) fs (writeSeek left curr hops fs).2 ∧
      ∀ curr', (writeSeek left curr hops fs).1 = some curr' →
        I (writeSeek left curr hops fs).2 curr' := by
  induction left generalizing curr hops fs with
  | zero =>
    refine ⟨.refl, ?_⟩
    intro curr' hcurr'
    cases hcurr'
    exact h
  | succ left ih =>
    rw [writeSeek, hI.clusters h]
    split
    · refine ⟨.refl, ?_⟩
      intro curr' hcurr'
      cases hcurr'
    have hnext := nextOrAlloc_performs hI h
    have hsum :
        (total + 5) + (total - (hops + 1)) * (total + 5) = (total - hops) * (total + 5) := by
      rw [show total - hops = total - (hops + 1) + 1 by omega, Nat.succ_mul, Nat.add_comm]
    simp only
    split
    · refine ⟨hnext.mono ?_, ?_⟩
      · rw [← hsum]
        exact Nat.le_add_right _ _
      · intro curr' hcurr'
        cases hcurr'
    rename_i hge
    obtain ⟨hrest, hend⟩ :=
      ih (fs.nextOrAlloc curr).1 (hops + 1) (fs.nextOrAlloc curr).2 (hI.next h (by omega))
    rw [← hsum]
    exact ⟨hnext.trans hrest, hend⟩

theorem fillBuffer_performs (h : I fs curr) (offsetInCluster bytesToWrite : Nat)
    (buf : Buffer) :
    Performs P 1 fs (fs.fillBuffer curr offsetInCluster bytesToWrite buf).2 ∧
      I (fs.fillBuffer curr offsetInCluster bytesToWrite buf).2 curr := by
  have hread := (hI.permits h).readCluster curr
  unfold fillBuffer
  split
  · split
    · rename_i fs₁ heq
      have hfs₁ := congrArg Prod.snd heq
      exact ⟨performs_one hread hfs₁, hfs₁ ▸ hI.filled h⟩
    · rename_i dir fs₁ heq
      have hfs₁ := congrArg Prod.snd heq
      exact ⟨performs_one hread hfs₁, hfs₁ ▸ hI.filled h⟩
  · exact ⟨.refl, h⟩

theorem writeLoop_performs (fuel : Nat) (curr : Nat) (src : List (BitVec 8)) (offsetInCluster : Nat)
    (buf : Buffer) (fs : Fat32Filesystem) (h : I fs curr) :
    Performs P (fuel * (total + 7)) fs (writeLoop fuel curr src offsetInCluster buf fs).2 := by
  induction fuel generalizing curr src offsetInCluster buf fs with
  | zero => exact .refl
  | succ fuel ih =>
    rw [writeLoop, Nat.succ_mul]
    split
    · rename_i hguard
      obtain ⟨hfill, h₁⟩ := fillBuffer_performs hI h offsetInCluster src.length buf
      simp only
      generalize (if (fs.fillBuffer curr offsetInCluster src.length
        buf).2.geo.bytesPerCluster - offsetInCluster >
        src.length then src.length else (fs.fillBuffer curr offsetInCluster src.length
          buf).2.geo.bytesPerCluster - offsetInCluster) = chunk
      split
      · rename_i fs₁ heq
        have hwrite := performs_one (hI.write h₁ hguard.2.1 hguard.2.2 _) (congrArg Prod.snd heq)
        exact (hfill.trans hwrite).mono (by omega)
      rename_i fs₁ heq
      have hfs₁ := congrArg Prod.snd heq
      have hwrite : Performs P (1 + 1) fs fs₁ :=
        hfill.trans (performs_one (hI.write h₁ hguard.2.1 hguard.2.2 _) hfs₁)
      simp only at hfs₁
      have h₂ : I fs₁ curr := by
        rw [← hfs₁]
        exact hI.written h₁ hguard.2.1 _
      have hnext := hwrite.trans (nextOrAlloc_performs hI h₂)
      split
      · split
        · exact hnext.mono (by omega)
        · rename_i hge
          exact (hnext.trans (ih _ _ _ _ _ (hI.next h₂ (by omega)))).mono (by omega)
      · exact hwrite.mono (by omega)
    · exact .refl

theorem writeChain_performs {fs : Fat32Filesystem} {node : Fat32VNode} (h : I fs node.firstCluster)
    (hdir : node.dirCluster ≥ 2 → ∀ src, P (.writeCluster node.dirCluster src)) (offset : Nat)
    (src : List (BitVec 8)) (buf : Buffer) :
    Performs P (total * (total + 5) + src.length * (total + 7) + 4) fs
      (fs.writeChain node offset src buf).2.2 := by
  obtain ⟨hseek, hend⟩ :=
    writeSeek_performs hI (offset / fs.geo.bytesPerCluster % 2 ^ 32) node.firstCluster 0 fs h
  rw [Nat.sub_zero] at hseek
  unfold writeChain
  simp only
  split
  · rename_i fs₁ heq
    rw [heq] at hseek
    exact hseek.mono (by omega)
  rename_i curr fs₁ heq
  rw [heq] at hseek hend
  have hloop := writeLoop_performs hI src.length curr src (offset % fs.geo.bytesPerCluster) buf fs₁
    (hend curr rfl)
  exact (hseek.trans hloop).trans (updateDirEntry_performs (hI.permits h) hdir _ _ _)

theorem write_performs (hP : Permits P fs.geo)
    (htotal : fs.geo.totalClusters = total) {node : Fat32VNode}
    (hfirst : node.firstCluster ≥ 2 → I fs.kmalloc.2 node.firstCluster)
    (hnew : node.firstCluster < 2 → 2 ≤ (fs.kmalloc.2.allocCluster 0).1 →
      I (fs.kmalloc.2.allocCluster 0).2 (fs.kmalloc.2.allocCluster 0).1)
    (hdir : node.dirCluster ≥ 2 → ∀ src, P (.writeCluster node.dirCluster src)) (offset : Nat)
    (src : List (BitVec 8)) :
    Performs P ((total + 1) * (total + 5) + src.length * (total + 7) + 5) fs
      (fs.write node offset (some src)).2.2 := by
  have hbound : (total + 1) * (total + 5) = total * (total + 5) + (total + 5) := Nat.succ_mul _ _
  unfold write
  simp only
  split
  · exact .refl
  split
  · exact .refl
  split
  · rename_i fs₁ halloc
    exact (performs_alloc hP halloc).mono (by omega)
  rename_i buf fs₁ halloc
  have hbuf := performs_alloc hP halloc
  rw [halloc] at hfirst hnew
  dsimp only at hnew
  split
  · rename_i hlow
    have hP₁ : Permits P fs₁.geo := hbuf.geo_eq ▸ hP
    obtain ⟨hclaim, _⟩ := @allocCluster_performs _ _ hP₁ 0 fun hge => by omega
    rw [hbuf.geo_eq, htotal] at hclaim
    split
    · exact (hbuf.trans hclaim).mono (by omega)
    · rename_i hge
      exact ((hbuf.trans hclaim).trans (@writeChain_performs _ _ _ hI _
        { node with firstCluster := (fs₁.allocCluster 0).1 } (hnew hlow (by omega)) hdir offset src
          buf)).mono (by omega)
  · rename_i hge
    exact (hbuf.trans (writeChain_performs hI (hfirst (by omega)) hdir offset src buf)).mono
      (by omega)

end

end Write

end LlamaOS.Fs
