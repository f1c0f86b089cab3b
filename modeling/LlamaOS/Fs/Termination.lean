import LlamaOS.Fs.DirectoryScans
import LlamaOS.Fs.VnodeCalls
import Mathlib.Tactic.Ring

/-!
# Termination of the calls on vnodes

The loops over the clusters of a directory have no hop limit. On a device that answers they
end exactly if the walk along the table comes to a number that is no cluster or to a cluster
behind the device. All other loops are bounded on every volume.
-/

namespace LlamaOS.Fs
open ByteBuffer BlockChain Transcript Fs.Geometry Fat32Filesystem

/-- The same volume; the log of its device and the state of its heap may be others. -/
structure SameVolume (fs fs' : Fat32Filesystem) : Prop where
  geo : fs'.geo = fs.geo
  mounted : fs'.mounted = fs.mounted
  limits : fs'.dev.toDeviceLimits = fs.dev.toDeviceLimits
  bytes : fs'.dev.bytes = fs.dev.bytes

namespace SameVolume

variable {fs fs' fs'' : Fat32Filesystem}

theorem trans (h : SameVolume fs fs') (h' : SameVolume fs' fs'') : SameVolume fs fs'' :=
  ⟨h'.geo.trans h.geo, h'.mounted.trans h.mounted, h'.limits.trans h.limits, h'.bytes.trans h.bytes⟩

theorem reads_eq (h : SameVolume fs fs') : fs'.Reads = fs.Reads := by
  funext c
  unfold Reads HasCluster
  rw [h.geo, h.limits]

end SameVolume

/-- A mounted volume as `mount` accepts it, on a device that answers. -/
structure Walkable (fs : Fat32Filesystem) : Prop where
  geo : fs.geo.Accepted
  answers : Answers fs

namespace Walkable

variable {fs fs' : Fat32Filesystem} (h : Walkable fs)
include h

theorem same (hsame : SameVolume fs fs') : Walkable fs' :=
  ⟨hsame.geo.symm ▸ h.geo, h.answers.of_limits hsame.mounted hsame.limits⟩

theorem readCluster_beyond {c : Nat} (hc : IsCluster c) (hbeyond : ¬ fs.Reads c) :
    (fs.readCluster c).1 = none := by
  rw [h.answers.readCluster_beyond h.geo hc.1 hc.2 fun hcluster => hbeyond ⟨hc, hcluster⟩]

/-- What one turn of a loop over a directory reads. -/
theorem turn {c : Nat} (hc : fs.Reads c) :
    ∃ fs₁ fs₂, fs.readCluster c = (some (fs.clusters c), fs₁) ∧
      fs₁.readFatEntry c = (fs.geo.fatEntry fs.dev.bytes c, fs₂) ∧ fs₁.geo = fs.geo ∧
        SameVolume fs fs₂ := by
  have hlink : { fs with
      dev := fs.dev.record (.read (fs.geo.clusterToLba c) fs.geo.sectorsPerCluster) }.HasLink c :=
    hc.hasLink h.geo
  exact ⟨_, _, h.answers.readCluster_eq h.geo hc.1.1 hc.2,
    (h.answers.recorded _).readFatEntry_eq hlink, rfl, rfl, rfl, rfl, rfl⟩

end Walkable

/-- A loop that follows the table without a hop limit and leaves the contents until it returns. -/
structure WalkLoop {σ ρ : Type} (loop : Nat → Nat → σ → Fat32Filesystem → Option ρ) : Prop where
  stops : ∀ {fuel curr s fs}, Walkable fs → ¬ fs.Reads curr →
    ∃ r, loop (fuel + 1) curr s fs = some r
  turn : ∀ {fuel curr s fs}, Walkable fs → fs.Reads curr →
    (∃ r, loop (fuel + 1) curr s fs = some r) ∨
      ∃ s' fs', SameVolume fs fs' ∧
        loop (fuel + 1) curr s fs = loop fuel (fs.geo.fatEntry fs.dev.bytes curr) s' fs'

theorem WalkLoop.returns {σ ρ : Type} {loop : Nat → Nat → σ → Fat32Filesystem → Option ρ}
    (hloop : WalkLoop loop) {fs₀ : Fat32Filesystem} {curr : Nat} {cs : List Nat}
    (h : Walk fs₀.Reads (fs₀.geo.fatEntry fs₀.dev.bytes) curr cs) (hfs₀ : Walkable fs₀)
    {fs : Fat32Filesystem} {fuel : Nat} (s : σ) (hsame : SameVolume fs₀ fs)
    (hfuel : cs.length < fuel) : ∃ r, loop fuel curr s fs = some r := by
  induction h generalizing fs fuel s with
  | stop hstop =>
    obtain ⟨fuel, rfl⟩ := Nat.exists_eq_succ_of_ne_zero (Nat.ne_of_gt hfuel)
    exact hloop.stops (hfs₀.same hsame) (hsame.reads_eq ▸ hstop)
  | @step curr cs hcurr next ih =>
    obtain ⟨fuel, rfl⟩ := Nat.exists_eq_succ_of_ne_zero (Nat.ne_of_gt (Nat.zero_lt_of_lt hfuel))
    rw [List.length_cons] at hfuel
    rcases @WalkLoop.turn _ _ _ hloop fuel _ s _ (hfs₀.same hsame) (hsame.reads_eq ▸ hcurr) with
      hdone | ⟨s', fs', hsame', heq⟩
    · exact hdone
    · rw [heq, hsame.geo, hsame.bytes]
      exact ih s' (hsame.trans hsame') (by omega)

theorem scanClusters_walkLoop {α σ : Type} (visit : Buffer → σ → Nat → Buffer → α ⊕ σ) :
    WalkLoop fun fuel curr (s : Buffer × σ) fs => scanClusters visit fuel curr s.1 s.2 fs where
  stops hfs hstop := by
    rw [scanClusters]
    split
    · rename_i hcurr
      have hnone := hfs.readCluster_beyond hcurr hstop
      split
      · exact ⟨_, rfl⟩
      · rename_i hread
        rw [hread] at hnone
        cases hnone
    · exact ⟨_, rfl⟩
  turn hfs hcurr := by
    obtain ⟨fs₁, fs₂, hread, hentry, _, hsame⟩ := hfs.turn hcurr
    rw [scanClusters, if_pos hcurr.1, hread]
    simp only
    split
    · exact Or.inl ⟨_, rfl⟩
    · exact Or.inl ⟨_, rfl⟩
    · rename_i lfnBuf s _
      rw [hentry]
      exact Or.inr ⟨(lfnBuf, s), fs₂, hsame, rfl⟩

theorem freeSlotLoop_walkLoop : WalkLoop Fat32Volume.freeSlotLoop where
  stops hfs hstop := by
    rw [Fat32Volume.freeSlotLoop]
    split
    · rename_i hcurr
      have hnone := hfs.readCluster_beyond hcurr hstop
      split
      · exact ⟨_, rfl⟩
      · rename_i hread
        rw [hread] at hnone
        cases hnone
    · exact ⟨_, rfl⟩
  turn {_ curr _ _} hfs hcurr := by
    obtain ⟨fs₁, fs₂, hread, hentry, _, hsame⟩ := hfs.turn hcurr
    rw [Fat32Volume.freeSlotLoop, if_pos hcurr.1, hread]
    simp only
    split
    · exact Or.inl ⟨_, rfl⟩
    · rw [hentry]
      exact Or.inr ⟨curr, fs₂, hsame, rfl⟩

theorem unlinkLoop_walkLoop (target83 : List (BitVec 8)) :
    WalkLoop fun fuel curr (_ : Unit) fs => Fat32Filesystem.unlinkLoop target83 fuel curr fs where
  stops hfs hstop := by
    rw [unlinkLoop]
    split
    · rename_i hcurr
      have hnone := hfs.readCluster_beyond hcurr hstop
      split
      · exact ⟨_, rfl⟩
      · rename_i hread
        rw [hread] at hnone
        cases hnone
    · exact ⟨_, rfl⟩
  turn hfs hcurr := by
    obtain ⟨fs₁, fs₂, hread, hentry, _, hsame⟩ := hfs.turn hcurr
    rw [unlinkLoop, if_pos hcurr.1, hread]
    simp only
    split
    · exact Or.inl ⟨_, rfl⟩
    · rw [hentry]
      exact Or.inr ⟨(), fs₂, hsame, rfl⟩

theorem unlinkEntries_deleted {target83 : List (BitVec 8)} (htarget : target83[0]? = some 0xE5)
    (dir : Buffer) (left i : Nat) : Fat32Filesystem.unlinkEntries target83 dir left i = none := by
  induction left generalizing i with
  | zero => rfl
  | succ left ih =>
    rw [unlinkEntries]
    split
    · rfl
    split
    · exact ih (i + 1)
    rename_i hlive
    split
    · exact ih (i + 1)
    split
    · rename_i hname
      rw [← hname] at htarget
      exact absurd (Option.some.inj htarget) hlive
    · exact ih (i + 1)

theorem unlinkLoop_diverges {fs₀ : Fat32Filesystem} (hfs₀ : Walkable fs₀)
    {target83 : List (BitVec 8)} (htarget : target83[0]? = some 0xE5) (fuel : Nat) {curr : Nat}
    {fs : Fat32Filesystem} (hsame : SameVolume fs₀ fs)
    (hwalk : ¬ ∃ cs, Walk fs₀.Reads (fs₀.geo.fatEntry fs₀.dev.bytes) curr cs) :
    Fat32Filesystem.unlinkLoop target83 fuel curr fs = none := by
  induction fuel generalizing curr fs with
  | zero => rfl
  | succ fuel ih =>
    have hcurr : fs₀.Reads curr := by
      by_contra hstop
      exact hwalk ⟨[], Walk.stop hstop⟩
    have hnext : ¬ ∃ cs, Walk fs₀.Reads (fs₀.geo.fatEntry fs₀.dev.bytes)
        (fs₀.geo.fatEntry fs₀.dev.bytes curr) cs := by
      rintro ⟨cs, hcs⟩
      exact hwalk ⟨curr :: cs, Walk.step hcurr hcs⟩
    obtain ⟨fs₁, fs₂, hread, hentry, _, hsame'⟩ := (hfs₀.same hsame).turn (hsame.reads_eq ▸ hcurr)
    rw [unlinkLoop, if_pos hcurr.1, hread]
    simp only [unlinkEntries_deleted htarget]
    rw [hentry, hsame.geo, hsame.bytes]
    exact ih (hsame.trans hsame') hnext

def VnodeCall.request : VnodeCall → Nat
  | .read _ count => count
  | .write _ src => (src.getD []).length
  | _ => 0

def accessBound (total request : Nat) : Nat :=
  2 ^ 29 + (total + 1) * (total + 5) + request * (total + 7) + 10

/-- There are at most 255 copies of the table. -/
def opBound (total request : Nat) : Nat := accessBound total request * 511

/-- The call returns after a bounded number of operations on the device. -/
def VnodeCall.Bounded (v : Fat32Volume) (slot : Nat) (call : VnodeCall) : Prop :=
  ∃ fuel v', call.run fuel v slot = some v' ∧
    v'.fs.dev.log.length ≤ v.fs.dev.log.length + opBound v.fs.geo.totalClusters call.request

def anyAccess : Access → Prop := fun _ => True

theorem anyAccess_permits (g : Geometry) : Permits anyAccess g :=
  ⟨trivial, trivial, fun _ => trivial, fun _ => trivial, fun _ _ _ => trivial, fun _ _ _ => trivial⟩

theorem Performs.log_le {P : Access → Prop} {n : Nat} {fs fs' : Fat32Filesystem}
    (h : Performs P n fs fs') (hcopies : fs.geo.numFats < 2 ^ 8) :
    fs'.dev.log.length ≤ fs.dev.log.length + n * 511 := by
  refine @Does.cost _ _ _ _ _ _ _ (fun s => s.geo = fs.geo) (fun s => s.dev.log.length) _ ?_ h ?_
  · intro s a _ hgeo
    have hrun := a.run_logged s
    obtain ⟨ops, hlog, hlen, _⟩ := hrun.log
    refine ⟨hrun.geo.trans hgeo, ?_⟩
    rw [hlog, List.length_append]
    rw [hgeo] at hlen
    omega
  · rfl

section Calls

variable {v v' : Fat32Volume} {slot fuel : Nat}

theorem geo_writeRule (g : Geometry) :
    WriteRule anyAccess (fun fs _ => fs.geo = g) g.totalClusters where
  permits _ := anyAccess_permits _
  clusters h := congrArg Geometry.totalClusters h
  link _ _ := trivial
  next {fs curr} h _ := by
    have hread : Performs anyAccess 1 fs (fs.readFatEntry curr).2 :=
      Does.one (a := Access.readFat curr) trivial fs
    unfold nextOrAlloc
    simp only
    split
    · exact (Performs.geo_eq
        (allocCluster_performs (anyAccess_permits _) fun _ _ => trivial).1).trans
        (hread.geo_eq.trans h)
    · exact hread.geo_eq.trans h
  write _ _ _ _ := trivial
  filled {fs curr} h := (Access.run_logged fs (.readCluster curr)).geo.trans h
  written {fs curr} h _ src := (Access.run_logged fs (.writeCluster curr src)).geo.trans h

theorem VnodeCall.run_performs {call : VnodeCall} (h : call.run fuel v slot = some v') :
    Performs anyAccess (2 * fuel + (v.fs.geo.totalClusters + 1) * (v.fs.geo.totalClusters + 5) +
      call.request * (v.fs.geo.totalClusters + 7) + 10) v.fs v'.fs := by
  have hP := anyAccess_permits v.fs.geo
  have hsquare : (v.fs.geo.totalClusters + 1) * (v.fs.geo.totalClusters + 5) =
      v.fs.geo.totalClusters * v.fs.geo.totalClusters + 6 * v.fs.geo.totalClusters + 5 := by ring
  have hfree : ∀ fs₁ start, Performs anyAccess (2 * fs₁.geo.totalClusters) fs₁
      (fs₁.freeClusterChain start) :=
    fun fs₁ start => freeClusterChain_performs (I := fun _ _ => True) (anyAccess_permits v.fs.geo)
      (fun _ _ _ _ _ => ⟨trivial, trivial⟩) trivial
  cases call with
  | lookup name =>
    obtain ⟨⟨res, child, v₁⟩, hrun, rfl⟩ := Option.map_eq_some_iff.mp h
    exact (lookup_performs hP hrun).mono (by omega)
  | readdir index =>
    obtain ⟨⟨res, entry, fs₁⟩, hrun, rfl⟩ := Option.map_eq_some_iff.mp h
    exact (readdir_performs hP hrun).mono (by omega)
  | create name type =>
    obtain ⟨⟨res, child, v₁⟩, hrun, rfl⟩ := Option.map_eq_some_iff.mp h
    exact (create_performs (I := fun _ _ => True) hP (fun _ _ _ _ _ => trivial) trivial
      (fun _ _ _ _ _ => ⟨fun _ => trivial, fun _ => trivial⟩) hrun).mono (by omega)
  | unlink name =>
    obtain ⟨⟨res, fs₁⟩, hrun, rfl⟩ := Option.map_eq_some_iff.mp h
    have hdone := unlink_performs (I := fun fs _ => fs.geo = v.fs.geo)
      (n := 2 * v.fs.geo.totalClusters) hP ?_ ?_ ?_ hrun
    · exact hdone.mono (by omega)
    · intro fs curr hgeo _ _
      exact ((Access.run_logged _ (.readFat curr)).geo.trans
        (Access.run_logged fs (.readCluster curr)).geo).trans hgeo
    · exact (Access.run_logged v.fs .allocate).geo
    · intro fs curr dir fs₁ i hgeo _ _ hread _
      refine ⟨fun _ => trivial, ?_⟩
      have hfreed := hfree (entryRemoved fs₁ curr i dir) (entryFirstCluster dir (i * dirEntrySize))
      have hdir : Performs anyAccess 3 fs (entryRemoved fs₁ curr i dir) :=
        ((performs_one (a := .readCluster curr) trivial (congrArg Prod.snd hread)).trans
          (Does.one (a := .writeCluster curr (patch dir (i * dirEntrySize) [0xE5]))
            trivial fs₁)).trans
          (Does.one (a := .flush) trivial _)
      rwa [hdir.geo_eq, hgeo] at hfreed
  | read offset count =>
    cases h
    have hcount : count * 2 ≤ count * (v.fs.geo.totalClusters + 7) :=
      Nat.mul_le_mul_left count (by omega)
    exact (read_performs hP v.fs (v.vnodePool slot) offset count).mono
      (by simp only [VnodeCall.request]; omega)
  | write offset src =>
    cases h
    cases src with
    | none => exact .refl
    | some src =>
      have halloc := (Access.run_logged v.fs .allocate).geo
      exact (write_performs (geo_writeRule v.fs.geo) hP rfl (fun _ => halloc)
        (fun _ _ => (Performs.geo_eq (allocCluster_performs (anyAccess_permits _)
          fun _ _ => trivial).1).trans halloc) (fun _ _ => trivial) offset src).mono (by
            simp only [VnodeCall.request, Option.getD_some]; omega)
  | truncate newSize =>
    cases h
    exact (truncate_performs (I := fun _ _ => True) hP (fun _ _ _ _ _ => ⟨trivial, trivial⟩) trivial
      (fun _ _ => trivial) newSize).mono (by omega)

theorem VnodeCall.run_returns {cs : List Nat} (hfs : Walkable v.fs)
    (hwalk : (v.vnodePool slot).type = .directory →
      Walk v.fs.Reads (v.fs.geo.fatEntry v.fs.dev.bytes) (v.vnodePool slot).firstCluster cs)
    (hfuel : cs.length < fuel) (call : VnodeCall) : ∃ v', call.run fuel v slot = some v' := by
  have hreturns :
      ∀ {σ ρ : Type} {loop : Nat → Nat → σ → Fat32Filesystem → Option ρ} (_ : WalkLoop loop) (s : σ)
      {r : Option Buffer} {fs₁ : Fat32Filesystem}, ¬ (v.vnodePool slot).type ≠ .directory →
      v.fs.kmalloc = (r, fs₁) → ∃ res, loop fuel (v.vnodePool slot).firstCluster s fs₁ =
        some res := by
    intro σ ρ loop hloop s r fs₁ hdir halloc
    cases (Prod.mk.inj halloc).2
    exact hloop.returns (hwalk (not_not.mp hdir)) hfs s ⟨rfl, rfl, rfl, rfl⟩ hfuel
  cases call with
  | read | write | truncate => exact ⟨_, rfl⟩
  | lookup name =>
    simp only [VnodeCall.run, Option.map_eq_some_iff]
    unfold Fat32Volume.lookup
    split
    · exact ⟨_, _, rfl, rfl⟩
    rename_i hdir
    split
    · exact ⟨_, _, rfl, rfl⟩
    rename_i buf fs₁ halloc
    obtain ⟨⟨found, fs₂⟩, hscan⟩ :=
      hreturns (scanClusters_walkLoop (lookupVisit name)) ((fun _ => 0), ()) hdir halloc
    rw [hscan]
    cases found with
    | none => exact ⟨_, _, rfl, rfl⟩
    | some found =>
      simp only
      split
      · exact ⟨_, _, rfl, rfl⟩
      · exact ⟨_, _, rfl, rfl⟩
  | readdir index =>
    simp only [VnodeCall.run, Option.map_eq_some_iff]
    unfold Fat32Filesystem.readdir
    split
    · exact ⟨_, _, rfl, rfl⟩
    rename_i hdir
    split
    · exact ⟨_, _, rfl, rfl⟩
    rename_i buf fs₁ halloc
    obtain ⟨⟨found, fs₂⟩, hscan⟩ :=
      hreturns (scanClusters_walkLoop (readdirVisit index)) ((fun _ => 0), 0) hdir halloc
    rw [hscan]
    cases found with
    | none => exact ⟨_, _, rfl, rfl⟩
    | some found => exact ⟨_, _, rfl, rfl⟩
  | create name type =>
    simp only [VnodeCall.run, Option.map_eq_some_iff]
    unfold Fat32Volume.create
    split
    · exact ⟨_, _, rfl, rfl⟩
    rename_i hdir
    split
    · exact ⟨_, _, rfl, rfl⟩
    rename_i buf fs₁ halloc
    obtain ⟨⟨found, fs₂⟩, hscan⟩ := hreturns freeSlotLoop_walkLoop 0 hdir halloc
    rw [hscan]
    cases found with
    | inl found => exact ⟨_, _, rfl, rfl⟩
    | inr prev => exact ⟨_, _, rfl, rfl⟩
  | unlink name =>
    simp only [VnodeCall.run, Option.map_eq_some_iff]
    unfold Fat32Filesystem.unlink
    split
    · exact ⟨_, _, rfl, rfl⟩
    rename_i hdir
    split
    · exact ⟨_, _, rfl, rfl⟩
    · rename_i buf fs₁ halloc
      obtain ⟨r, hscan⟩ := hreturns (unlinkLoop_walkLoop (formatTo83 name)) () hdir halloc
      exact ⟨_, _, hscan, rfl⟩

/-- A name that no entry of a directory has. -/
def deletedName : CString := [0xE5]

theorem unlink_diverges (hfs : Walkable v.fs) (hmemory : ∀ n, (v.fs.heap.grants n).isSome = true)
    (hdir : (v.vnodePool slot).type = .directory)
    (hwalk : ¬ ∃ cs, Walk v.fs.Reads (v.fs.geo.fatEntry v.fs.dev.bytes)
      (v.vnodePool slot).firstCluster cs)
    (fuel : Nat) :
    (VnodeCall.unlink deletedName).run fuel v slot = none := by
  obtain ⟨buf, hbuf⟩ := Option.isSome_iff_exists.mp (hmemory v.fs.heap.calls)
  have halloc : v.fs.kmalloc =
      (some buf, { v.fs with heap := { v.fs.heap with calls := v.fs.heap.calls + 1 } }) := by
    rw [kmalloc, hbuf]
  rw [VnodeCall.run, unlink, if_neg (not_not.mpr hdir), halloc]
  simp only
  have hsame :
      SameVolume v.fs { v.fs with heap := { v.fs.heap with calls := v.fs.heap.calls + 1 } } :=
    ⟨rfl, rfl, rfl, rfl⟩
  rw [unlinkLoop_diverges hfs (by decide) fuel hsame hwalk]
  rfl

end Calls

/-- Every call on a vnode is bounded exactly if the walk along a directory ends or leaves the
device. -/
theorem calls_bounded_iff {v : Fat32Volume} (hfs : Walkable v.fs)
    (hmemory : ∀ n, (v.fs.heap.grants n).isSome = true) (slot : Nat) :
    (∀ call : VnodeCall, call.Bounded v slot) ↔
      ((v.vnodePool slot).type = .directory →
        ∃ cs, Walk v.fs.Reads (v.fs.geo.fatEntry v.fs.dev.bytes)
          (v.vnodePool slot).firstCluster cs) := by
  constructor
  · intro h hdir
    by_contra hwalk
    obtain ⟨fuel, v', hrun, _⟩ := h (.unlink deletedName)
    rw [unlink_diverges hfs hmemory hdir hwalk fuel] at hrun
    cases hrun
  · intro h call
    obtain ⟨cs, hlen, hwalk⟩ : ∃ cs : List Nat, cs.length ≤ fat32EocMin ∧
        ((v.vnodePool slot).type = .directory →
          Walk v.fs.Reads (v.fs.geo.fatEntry v.fs.dev.bytes)
            (v.vnodePool slot).firstCluster cs) := by
      by_cases hdir : (v.vnodePool slot).type = .directory
      · obtain ⟨cs, hcs⟩ := h hdir
        exact ⟨cs, walk_length_le hcs fun _ hc => hc.1, fun _ => hcs⟩
      · exact ⟨[], Nat.zero_le _, fun hd => absurd hd hdir⟩
    obtain ⟨v', hrun⟩ := VnodeCall.run_returns hfs hwalk (Nat.lt_succ_self _) call
    refine ⟨_, v', hrun, ?_⟩
    have hlog := (VnodeCall.run_performs hrun).log_le hfs.geo.copies.2
    refine Nat.le_trans hlog (Nat.add_le_add_left (Nat.mul_le_mul_right 511 ?_) _)
    simp only [fat32EocMin] at hlen
    unfold accessBound
    omega

theorem scanEntries_deleted {α σ : Type} (visit : Buffer → σ → Nat → Buffer → α ⊕ σ) {dir : Buffer}
    (s : σ) (left : Nat) (i) (lfnBuf)
    (hdeleted : ∀ j, i ≤ j → j < i + left → entryKind dir (j * dirEntrySize) = .deleted) :
    ∃ lfnBuf', scanEntries visit dir left i lfnBuf s = .exhausted lfnBuf' s := by
  induction left generalizing i lfnBuf with
  | zero => exact ⟨lfnBuf, rfl⟩
  | succ left ih =>
    rw [scanEntries, hdeleted i (Nat.le_refl _) (by omega)]
    exact ih (i + 1) _ fun j hlo hhi => hdeleted j (by omega) (by omega)

/-- All entries of the root directory are deleted, and the table gives `next` behind its cluster.
Cluster 100, which the device does not have, is the next one of itself. -/
def linkedDevice (next : Nat) : BlockDevice :=
  let deleted := fun a => if a < 1536 then (bootDevice 7).bytes a else 0xE5
  let linked := patch (patch deleted 520 (leBytes 4 next)) 1032 (leBytes 4 next)
  { bootDevice 7 with bytes := patch (patch linked 912 (leBytes 4 100)) 1424 (leBytes 4 100) }

def linkedVolume (next : Nat) : Fat32Volume where
  fs := {
    geo := smallGeometry
    mounted := true
    dev := { linkedDevice next with log := [.read 0 1] } }
  vnodePool := fun i => if i = 0 then ⟨.directory, 2, 0, 0, 0⟩ else ⟨.unknown, 0, 0, 0, 0⟩
  vnodeInUse := fun i => if i = 0 then true else false
  vnodeCount := 1

theorem linkedVolume_walkable (next : Nat) : Walkable (linkedVolume next).fs :=
  ⟨smallGeometry_valid.toAccepted, rfl, fun _ => rfl⟩

theorem loopVolume_scan {α σ : Type} (visit : Buffer → σ → Nat → Buffer → α ⊕ σ) (fuel : Nat)
    {fs : Fat32Filesystem} (lfnBuf : Buffer) (s : σ) (hsame : SameVolume (linkedVolume 2).fs fs) :
    scanClusters visit fuel 2 lfnBuf s fs = none := by
  induction fuel generalizing fs lfnBuf s with
  | zero => rfl
  | succ fuel ih =>
    have hdeleted : ∀ j, 0 ≤ j → j < 0 + 16 →
        entryKind ((linkedVolume 2).fs.clusters 2) (j * dirEntrySize) = .deleted := by
      decide +kernel
    obtain ⟨lfnBuf', hscan⟩ := scanEntries_deleted visit s 16 0 lfnBuf hdeleted
    have hreads : fs.Reads 2 := by
      rw [hsame.reads_eq]
      decide
    obtain ⟨fs₁, fs₂, hread, hentry, hgeo, hsame'⟩ :=
      ((linkedVolume_walkable 2).same hsame).turn hreads
    have hexhausted :
        scanEntries visit (fs.clusters 2) (fs₁.geo.bytesPerCluster / dirEntrySize) 0 lfnBuf s =
        .exhausted lfnBuf' s := by
      rw [clusters, hgeo, hsame.geo, hsame.bytes]
      exact hscan
    have hnext : fs.geo.fatEntry fs.dev.bytes 2 = 2 := by
      rw [hsame.geo, hsame.bytes]
      decide +kernel
    rw [scanClusters, if_pos hreads.1, hread]
    simp only [hexhausted, hentry, hnext]
    exact ih _ _ (hsame.trans hsame')

/-- The cluster of the directory is the next one of itself. -/
theorem loopVolume_lookup_unbounded :
    Fat32Volume.mount (linkedDevice 2) {} = (0, some (0, linkedVolume 2)) ∧
      ¬ (VnodeCall.lookup [0x41]).Bounded (linkedVolume 2) 0 := by
  refine ⟨rfl, ?_⟩
  rintro ⟨fuel, v', hrun, _⟩
  have hscan := @loopVolume_scan _ _ (lookupVisit [0x41]) fuel (linkedVolume 2).fs.kmalloc.2
    (fun _ => 0) () ⟨rfl, rfl, rfl, rfl⟩
  have hdiverges : (linkedVolume 2).lookup fuel ((linkedVolume 2).vnodePool 0) [0x41] = none := by
    rw [Fat32Volume.lookup, if_neg (by decide), show (linkedVolume 2).fs.kmalloc = (some fun _ => 0,
      (linkedVolume 2).fs.kmalloc.2) from rfl]
    simp only [hscan, show ((linkedVolume 2).vnodePool 0).firstCluster = 2 from rfl]
  rw [VnodeCall.run, hdiverges] at hrun
  cases hrun

/-- With an end mark, and with a link to cluster 100: the loop leaves when the device refuses to
read it. -/
theorem linkedVolume_lookup_bounded :
    (VnodeCall.lookup [0x41]).Bounded (linkedVolume 0x0FFFFFFF) 0 ∧
    (VnodeCall.lookup [0x41]).Bounded (linkedVolume 100) 0 := by
  have hwalk : ∀ next, ¬ (linkedVolume next).fs.Reads next →
      (linkedVolume next).fs.geo.fatEntry (linkedVolume next).fs.dev.bytes 2 = next →
      (VnodeCall.lookup [0x41]).Bounded (linkedVolume next) 0 := by
    intro next hend hlink
    refine (calls_bounded_iff (linkedVolume_walkable next) (fun _ => rfl) 0).mpr
      (fun _ => ⟨[2], ?_⟩) _
    exact Walk.step ⟨⟨Nat.le_refl 2, show 2 < fat32EocMin by decide⟩,
      show 3 + 0 * 1 + 1 ≤ 7 by decide⟩ (Walk.stop (hlink.symm ▸ hend))
  exact ⟨hwalk _ (by decide) (by decide +kernel), hwalk _ (by decide) (by decide +kernel)⟩

end LlamaOS.Fs
