import LlamaOS.Fs.FileChains
import LlamaOS.Fs.DirectoryScans

/-!
# Where the driver writes

`mount` does not check that the table covers the volume, and no cluster number of a chain
or a directory entry is checked. In a run whose calls only meet numbers of the data area,
every update of the table and every write to a cluster stays in its area.
-/

namespace LlamaOS.Fs
open ByteBuffer Transcript Fs.Geometry Fat32Filesystem

def Geometry.InTable (g : Geometry) (lba : Nat) : Prop :=
  ∃ f < g.numFats, g.fatBeginLba + f * g.tableSize32 ≤ lba ∧
    lba < g.fatBeginLba + (f + 1) * g.tableSize32

def Geometry.InData (g : Geometry) (lba count : Nat) : Prop :=
  g.clusterBeginLba ≤ lba ∧ lba + count ≤ g.clusterBeginLba + g.totalClusters * g.sectorsPerCluster

/-- An update of the table is for the entry of a cluster and writes to the table; a write to a
cluster writes to the data area. -/
def Access.Confined (g : Geometry) (a : Access) : Prop :=
  match a with
  | .writeFat c _ =>
    c < g.totalClusters + 2 ∧ ∀ lba count, a.Uses g (.write lba count) → count = 1 ∧ g.InTable lba
  | .writeCluster _ _ => ∀ lba count, a.Uses g (.write lba count) → g.InData lba count
  | _ => True

theorem confined_permits {g : Geometry} (hg : g.Valid) : Permits (Access.Confined g) g where
  allocate := trivial
  flush := trivial
  readFat _ := trivial
  readCluster _ := trivial
  writeFat c value hc := by
    refine ⟨hc.2, ?_⟩
    rintro lba count ⟨f, hf, hread | hwrite⟩
    · cases hread
    · cases hwrite
      have hcovers := hg.covers
      have hupper := hc.2
      refine ⟨rfl, f, hf, Nat.le_add_right _ _, ?_⟩
      rw [Nat.succ_mul]
      omega
  writeCluster c src hc := by
    rintro lba count ⟨hlo, hwrite⟩
    cases hwrite
    have hlast : (c - 2 + 1) * g.sectorsPerCluster ≤ g.totalClusters * g.sectorsPerCluster := by
      apply Nat.mul_le_mul_right
      have hupper := hc.2
      omega
    rw [Nat.succ_mul] at hlast
    unfold InData clusterToLba
    rw [if_neg (by omega)]
    omega

theorem Performs.writes_confined {n : Nat} {fs fs' : Fat32Filesystem}
    (h : Performs (Access.Confined fs.geo) n fs fs') {lba count : Nat}
    (hop : .write lba count ∈ fs'.dev.log) :
    .write lba count ∈ fs.dev.log ∨ count = 1 ∧ fs.geo.InTable lba ∨ fs.geo.InData lba count := by
  have hinv :=
    h.invariant (I := fun s => s.geo = fs.geo ∧ ∀ lba count, .write lba count ∈ s.dev.log →
    .write lba count ∈ fs.dev.log ∨ count = 1 ∧ fs.geo.InTable lba ∨ fs.geo.InData lba count) ?_
    ⟨rfl, fun lba count hmem => Or.inl hmem⟩
  · exact hinv.2 lba count hop
  · intro s a ha hs
    have hrun := a.run_logged s
    refine ⟨hrun.geo.trans hs.1, ?_⟩
    intro lba count hmem
    obtain ⟨ops, hlog, _, hops⟩ := hrun.log
    rw [hlog] at hmem
    rcases List.mem_append.mp hmem with hold | hnew
    · exact hs.2 lba count hold
    have huses := hops _ hnew
    rw [hs.1] at huses
    right
    cases a with
    | allocate => cases huses
    | readFat c =>
      obtain ⟨lba', hread⟩ := huses
      cases hread
    | readCluster c =>
      obtain ⟨lba', hread⟩ := huses
      cases hread
    | flush => cases huses
    | writeFat c value => exact Or.inl (ha.2 lba count huses)
    | writeCluster c src => exact Or.inr (ha lba count huses)

section Loops

variable {g : Geometry}

theorem readCluster_some {fs fs' : Fat32Filesystem} {c : Nat} {data : Buffer}
    (h : fs.readCluster c = (some data, fs')) : data = fs.clusters c := by
  unfold readCluster BlockDevice.readSectors at h
  split at h
  · cases h
  · have hdata := (Prod.mk.inj h).1
    split at hdata
    · cases hdata
    · exact (Option.some.inj hdata).symm

theorem confined_writeRule (hg : g.Valid) :
    WriteRule (Access.Confined g)
      (fun fs curr => Serves fs ∧ fs.geo = g ∧ g.Usable curr ∧ InRange g fs.dev.bytes curr)
        g.totalClusters where
  permits h := h.2.1.symm ▸ confined_permits hg
  clusters h := congrArg Geometry.totalClusters h.2.1
  link h value := (confined_permits hg).writeFat _ value h.2.2.1
  write h _ _ src := (confined_permits hg).writeCluster _ src h.2.2.1
  filled {fs curr} h := by
    have hrun := Access.run_logged fs (.readCluster curr)
    refine ⟨h.1.of_limits hrun.geo hrun.mounted hrun.limits, hrun.geo.trans h.2.1, h.2.2.1, ?_⟩
    rw [readCluster_bytes]
    exact h.2.2.2
  written {fs curr} h _ src := by
    obtain ⟨hserves, rfl, hcurr, hrange⟩ := h
    have hrun := Access.run_logged fs (.writeCluster curr src)
    refine ⟨hserves.of_limits hrun.geo hrun.mounted hrun.limits, hrun.geo, hcurr, ?_⟩
    exact hrange.congr fun e he => Or.inl (writeCluster_fatEntry hg curr src he.2)
  next {fs curr} h := by
    obtain ⟨hserves, rfl, hcurr, hrange⟩ := h
    unfold nextOrAlloc
    rw [hserves.readFatEntry_eq
      (hserves.hasLink hg.copies.1 (Nat.lt_of_lt_of_le hcurr.2 hg.covers))]
    simp only
    split
    · intro hge
      have hserves₁ := hserves.recorded (.read (fs.geo.fatBeginLba + curr * 4 / 512) 1)
      obtain ⟨halloc, hresult⟩ := @allocCluster_performs _
        { fs with dev := fs.dev.record (.read (fs.geo.fatBeginLba + curr * 4 / 512) 1) }
        (confined_permits hg) curr fun _ value => (confined_permits hg).writeFat curr value hcurr
      have hgeo₁ := Performs.geo_eq halloc
      refine ⟨Performs.serves halloc hserves₁, hgeo₁, hresult.resolve_left (by omega), ?_⟩
      exact allocCluster_inRange hserves₁ hg hcurr.2 hge
    · rename_i hlink
      intro hge
      have hcurrEoc : curr < fat32EocMin := Nat.lt_of_lt_of_le hcurr.2 hg.range
      have hnext := hrange.next hcurr.1 hcurrEoc
      exact ⟨hserves.recorded _, rfl, hnext.usable hge (by omega), hnext⟩

theorem confined_freeTurn (hg : g.Valid) (fs : Fat32Filesystem) (curr : Nat)
    (h : Serves fs ∧ fs.geo = g ∧ InRange g fs.dev.bytes curr) (hlo : curr ≥ 2)
    (hhi : curr < fat32EocMin) :
    Access.Confined g (.writeFat curr 0) ∧
      Serves ((fs.readFatEntry curr).2.writeFatEntry curr 0).2 ∧
      ((fs.readFatEntry curr).2.writeFatEntry curr 0).2.geo = g ∧
      InRange g ((fs.readFatEntry curr).2.writeFatEntry curr 0).2.dev.bytes
        (fs.readFatEntry curr).1 := by
  obtain ⟨hserves, rfl, hrange⟩ := h
  have hcurr := hrange.usable hlo hhi
  have hentry := Nat.lt_of_lt_of_le hcurr.2 hg.covers
  rw [hserves.readFatEntry_eq (hserves.hasLink hg.copies.1 hentry)]
  obtain ⟨fs', hwrite, hstored⟩ :=
    (hserves.recorded (.read (fs.geo.fatBeginLba + curr * 4 / 512) 1)).writeFatEntry_ok 0 hentry
  simp only [hwrite]
  refine ⟨(confined_permits hg).writeFat curr 0 hcurr, hstored.serves (hserves.recorded _),
    hstored.geo, ?_⟩
  rw [hstored.bytes]
  exact (hrange.next hlo hhi).freed hg hcurr

theorem follows_walkRule (hg : g.Valid) {d : Buffer} {first : Nat} (hrange : InRange g d first) :
    WalkRule fun fs c => Serves fs ∧ fs.geo = g ∧ fs.dev.bytes = d ∧ Follows g d first c := by
  intro fs curr h hlo hhi
  obtain ⟨hserves, rfl, rfl, hfollows⟩ := h
  have hentry := Nat.lt_of_lt_of_le (hrange curr hfollows hlo hhi).2 hg.covers
  have hrun := Access.run_logged fs (.readCluster curr)
  have hserves₁ : Serves (fs.readCluster curr).2 :=
    hserves.of_limits hrun.geo hrun.mounted hrun.limits
  have hgeo : (fs.readCluster curr).2.geo = fs.geo := hrun.geo
  have hlink : (fs.readCluster curr).2.HasLink curr := by
    apply hserves₁.hasLink
    · rw [hgeo]
      exact hg.copies.1
    · rw [hgeo]
      exact hentry
  rw [hserves₁.readFatEntry_eq hlink]
  refine ⟨hserves₁.recorded _, hgeo, readCluster_bytes fs curr, ?_⟩
  simp only [hgeo, readCluster_bytes]
  exact hfollows.tail ⟨⟨hlo, hhi⟩, rfl⟩

end Loops

/-- The device answers and holds the tables, and these have an entry for every cluster. -/
structure Sound (fs : Fat32Filesystem) : Prop where
  serves : Serves fs
  geo : fs.geo.Valid

/-- The chains that a file's call follows and the cluster of its entry belong to the data area. -/
structure FileInRange (fs : Fat32Filesystem) (node : Fat32VNode) : Prop where
  sound : Sound fs
  chain : 2 ≤ node.firstCluster → fs.geo.Usable node.firstCluster ∧
    InRange fs.geo fs.dev.bytes node.firstCluster
  directory : 2 ≤ node.dirCluster → fs.geo.Usable node.dirCluster

structure DirectoryInRange (fs : Fat32Filesystem) (node : Fat32VNode) : Prop where
  sound : Sound fs
  chain : InRange fs.geo fs.dev.bytes node.firstCluster

/-- An entry that `unlink` may take for the name. -/
def Removable (fs : Fat32Filesystem) (name : CString) (c i : Nat) : Prop :=
  i < fs.geo.bytesPerCluster / dirEntrySize ∧
    (fs.geo.view fs.dev.bytes).data c (i * dirEntrySize) ≠ 0x00 ∧
    (fs.geo.view fs.dev.bytes).data c (i * dirEntrySize) ≠ 0xE5 ∧
    entryName ((fs.geo.view fs.dev.bytes).data c) (i * dirEntrySize) = formatTo83 name

/-- The cluster numbers that the call meets belong to the data area. Calls that only read may meet
any. -/
def VnodeCall.MeetsInRange (v : Fat32Volume) (slot : Nat) : VnodeCall → Prop
  | .lookup _ | .readdir _ | .read _ _ => True
  | .write _ _ | .truncate _ =>
    (v.vnodePool slot).type = .file → FileInRange v.fs (v.vnodePool slot)
  | .create _ _ => (v.vnodePool slot).type = .directory → DirectoryInRange v.fs (v.vnodePool slot)
  | .unlink name =>
    (v.vnodePool slot).type = .directory → DirectoryInRange v.fs (v.vnodePool slot) ∧
    ∀ c i, Follows v.fs.geo v.fs.dev.bytes (v.vnodePool slot).firstCluster c → 2 ≤ c →
      c < fat32EocMin → Removable v.fs name c i →
      InRange v.fs.geo v.fs.dev.bytes
        (entryFirstCluster ((v.fs.geo.view v.fs.dev.bytes).data c) (i * dirEntrySize))

theorem unlinkEntries_some {target83 : List (BitVec 8)} {dir : Buffer} {left : Nat} {i j : Nat}
    (h : Fat32Filesystem.unlinkEntries target83 dir left i = some j) :
    i ≤ j ∧ j < i + left ∧ dir (j * dirEntrySize) ≠ 0x00 ∧ dir (j * dirEntrySize) ≠ 0xE5 ∧
      entryAttr dir (j * dirEntrySize) &&& fatAttrLfn ≠ fatAttrLfn ∧
      entryName dir (j * dirEntrySize) = target83 := by
  induction left generalizing i j with
  | zero => cases h
  | succ left ih =>
    have hrest : unlinkEntries target83 dir left (i + 1) = some j →
        i ≤ j ∧ j < i + (left + 1) ∧ dir (j * dirEntrySize) ≠ 0x00 ∧ dir (j * dirEntrySize) ≠ 0xE5 ∧
          entryAttr dir (j * dirEntrySize) &&& fatAttrLfn ≠ fatAttrLfn ∧
          entryName dir (j * dirEntrySize) = target83 := by
      intro hrest
      obtain ⟨hlo, hhi, hkept⟩ := ih hrest
      exact ⟨by omega, by omega, hkept⟩
    rw [unlinkEntries] at h
    split at h
    · cases h
    rename_i hend
    split at h
    · exact hrest h
    rename_i hdeleted
    split at h
    · exact hrest h
    rename_i hlong
    split at h
    · rename_i hname
      cases h
      exact ⟨Nat.le_refl _, by omega, hend, hdeleted, hlong, hname⟩
    · exact hrest h

/-- No cluster belongs to the data area of this geometry. -/
def noClusters : Geometry := ⟨512, 1, 1, 1, 0, 1, 0⟩

theorem reads_permits (g : Geometry) : Permits (Access.Confined g) noClusters where
  allocate := trivial
  flush := trivial
  readFat _ := trivial
  readCluster _ := trivial
  writeFat _ _ hc := absurd hc.2 (Nat.not_lt.mpr hc.1)
  writeCluster _ _ hc := absurd hc.2 (Nat.not_lt.mpr hc.1)

theorem entryRemoved_confined {g : Geometry} {fs : Fat32Filesystem} (hserves : Serves fs)
    (hgeo : fs.geo = g) (hg : g.Valid) (c i : Nat) (dir : Buffer) {first : Nat}
    (hfirst : InRange g fs.dev.bytes first) :
    Performs (Access.Confined g) (2 * g.totalClusters) (entryRemoved fs c i dir)
      ((entryRemoved fs c i dir).freeClusterChain first) := by
  subst hgeo
  have hrun := Access.run_logged fs (.writeCluster c (patch dir (i * dirEntrySize) [0xE5]))
  have hserves₁ : Serves (entryRemoved fs c i dir) :=
    (hserves.of_limits hrun.geo hrun.mounted hrun.limits).recorded .flush
  have hgeo : (entryRemoved fs c i dir).geo = fs.geo := hrun.geo
  have hrange : InRange fs.geo (entryRemoved fs c i dir).dev.bytes first :=
    hfirst.congr fun e he =>
      Or.inl (writeCluster_fatEntry hg c (patch dir (i * dirEntrySize) [0xE5]) he.2)
  have hfreed := @freeClusterChain_performs _ _
    (fun fs' e => Serves fs' ∧ fs'.geo = fs.geo ∧ InRange fs.geo fs'.dev.bytes e)
      (confined_permits hg)
    (confined_freeTurn hg) (entryRemoved fs c i dir) first ⟨hserves₁, hgeo, hrange⟩
  rwa [hgeo] at hfreed

theorem VnodeCall.run_confined {v v' : Fat32Volume} {slot fuel : Nat} {call : VnodeCall}
    (hmeets : call.MeetsInRange v slot) (hrun : call.run fuel v slot = some v') :
    ∃ n, Performs (Access.Confined v.fs.geo) n v.fs v'.fs := by
  have hreads := reads_permits v.fs.geo
  cases call with
  | lookup name =>
    obtain ⟨⟨res, child, v₁⟩, hcall, rfl⟩ := Option.map_eq_some_iff.mp hrun
    exact ⟨_, lookup_performs hreads hcall⟩
  | readdir index =>
    obtain ⟨⟨res, entry, fs₁⟩, hcall, rfl⟩ := Option.map_eq_some_iff.mp hrun
    exact ⟨_, readdir_performs hreads hcall⟩
  | read offset count =>
    cases hrun
    exact ⟨_, read_performs hreads v.fs (v.vnodePool slot) offset count⟩
  | create name type =>
    obtain ⟨⟨res, child, v₁⟩, hcall, rfl⟩ := Option.map_eq_some_iff.mp hrun
    by_cases hdir : (v.vnodePool slot).type = .directory
    · obtain ⟨⟨hserves, hg⟩, hchain⟩ := hmeets hdir
      refine ⟨_, create_performs (confined_permits hg) (follows_walkRule hg hchain)
        ⟨hserves.of_limits rfl rfl rfl, rfl, rfl, Relation.ReflTransGen.refl⟩ ?_ hcall⟩
      rintro fs c ⟨_, _, _, hfollows⟩ hlo hhi
      have hc := hchain c hfollows hlo hhi
      exact ⟨fun src => (confined_permits hg).writeCluster c src hc,
        fun value => (confined_permits hg).writeFat c value hc⟩
    · rw [Fat32Volume.create, if_pos hdir] at hcall
      cases hcall
      exact ⟨0, .refl⟩
  | unlink name =>
    obtain ⟨⟨res, fs₁⟩, hcall, rfl⟩ := Option.map_eq_some_iff.mp hrun
    by_cases hdir : (v.vnodePool slot).type = .directory
    · obtain ⟨⟨⟨hserves, hg⟩, hchain⟩, hentries⟩ := hmeets hdir
      refine ⟨_, unlink_performs (n := 2 * v.fs.geo.totalClusters) (confined_permits hg)
        (follows_walkRule hg hchain) ⟨hserves.of_limits rfl rfl rfl, rfl, rfl,
          Relation.ReflTransGen.refl⟩ ?_ hcall⟩
      rintro fs c dir fs₁ i ⟨hserves₁, hgeo₁, hbytes₁, hfollows⟩ hlo hhi hread hfound
      have hc := hchain c hfollows hlo hhi
      refine ⟨fun src => (confined_permits hg).writeCluster c src hc, ?_⟩
      have hdata : dir = (v.fs.geo.view v.fs.dev.bytes).data c := by
        rw [readCluster_some hread, clusters, hgeo₁, hbytes₁]
      have hfs₁ : fs₁ = (fs.readCluster c).2 := (congrArg Prod.snd hread).symm
      have hgeo₂ : fs₁.geo = v.fs.geo := by
        rw [hfs₁]
        exact (Access.run_logged fs (.readCluster c)).geo.trans hgeo₁
      obtain ⟨_, hi, hend, hdeleted, _, hname⟩ := unlinkEntries_some hfound
      rw [hgeo₂, Nat.zero_add] at hi
      subst hdata
      have hfirst := hentries c i hfollows hlo hhi ⟨hi, hend, hdeleted, hname⟩
      have hrun := Access.run_logged fs (.readCluster c)
      refine entryRemoved_confined ?_ hgeo₂ hg c i _ ?_
      · rw [hfs₁]
        exact hserves₁.of_limits hrun.geo hrun.mounted hrun.limits
      · rw [hfs₁, readCluster_bytes, hbytes₁]
        exact hfirst
    · rw [Fat32Filesystem.unlink, if_pos hdir] at hcall
      cases hcall
      exact ⟨0, .refl⟩
  | write offset src =>
    cases hrun
    cases src with
    | none => exact ⟨0, .refl⟩
    | some src =>
      by_cases hfile : (v.vnodePool slot).type = .file
      · obtain ⟨⟨hserves, hg⟩, hchain, hdir⟩ := hmeets hfile
        have hserves₁ : Serves v.fs.kmalloc.2 := hserves.of_limits rfl rfl rfl
        refine ⟨_, write_performs (confined_writeRule hg) (confined_permits hg) rfl ?_ ?_
          ?_ offset src⟩
        · intro hlo
          exact ⟨hserves₁, rfl, hchain hlo⟩
        · intro _ hge
          obtain ⟨halloc, hresult⟩ := @allocCluster_performs _ v.fs.kmalloc.2
            (confined_permits hg) 0 fun hge => by omega
          have hgeo₁ := Performs.geo_eq halloc
          exact ⟨Performs.serves halloc hserves₁, hgeo₁, hresult.resolve_left (by omega),
            allocCluster_inRange hserves₁ hg (by omega) hge⟩
        · intro hlo src
          exact (confined_permits hg).writeCluster _ src (hdir hlo)
      · refine ⟨0, ?_⟩
        change Performs _ 0 v.fs (v.fs.write (v.vnodePool slot) offset (some src)).2.2
        rw [Fat32Filesystem.write, if_pos hfile]
        exact .refl
  | truncate newSize =>
    cases hrun
    by_cases hfile : (v.vnodePool slot).type = .file
    · obtain ⟨⟨hserves, hg⟩, hchain, hdir⟩ := hmeets hfile
      refine ⟨_, truncate_performs (I := fun fs c => Serves fs ∧ fs.geo = v.fs.geo ∧
        InRange v.fs.geo fs.dev.bytes c)
        (confined_permits hg) (confined_freeTurn hg) ⟨hserves, rfl, ?_⟩ ?_ newSize⟩
      · by_cases hlo : 2 ≤ (v.vnodePool slot).firstCluster
        · exact (hchain hlo).2
        · exact InRange.low (by omega)
      · intro hlo src
        exact (confined_permits hg).writeCluster _ src (hdir hlo)
    · refine ⟨0, ?_⟩
      change Performs _ 0 v.fs (v.fs.truncate (v.vnodePool slot) newSize).2.2
      rw [Fat32Filesystem.truncate, if_pos hfile]
      exact .refl

/-- The states that calls lead to which all meet the condition. -/
inductive VolumeRun (C : Fat32Volume → Nat → VnodeCall → Prop) (v : Fat32Volume) :
    Fat32Volume → Prop where
  | start : VolumeRun C v v
  | call {v₁ v₂ : Fat32Volume} {slot fuel : Nat} {c : VnodeCall} (h : VolumeRun C v v₁)
      (hC : C v₁ slot c) (hrun : c.run fuel v₁ slot = some v₂) : VolumeRun C v v₂

theorem VolumeRun.confined {v v' : Fat32Volume}
    (h : VolumeRun (fun v slot call => call.MeetsInRange v slot) v v') :
    ∃ n, Performs (Access.Confined v.fs.geo) n v.fs v'.fs := by
  induction h with
  | start => exact ⟨0, .refl⟩
  | call _ hmeets hrun ih =>
    obtain ⟨n, hdone⟩ := ih
    obtain ⟨m, hcall⟩ := VnodeCall.run_confined hmeets hrun
    rw [hdone.geo_eq] at hcall
    exact ⟨n + m, hdone.trans hcall⟩

/-- In a run from `mount` whose calls meet numbers of the data area only, all updates of the table
and all writes to clusters stay in their areas. -/
theorem mounted_run_confined {dev : BlockDevice} {heap : KernelHeap} {code : Int} {root : Nat}
    {v v' : Fat32Volume} (hmount : Fat32Volume.mount dev heap = (code, some (root, v)))
    (hrun : VolumeRun (fun v slot call => call.MeetsInRange v slot) v v') :
    (∃ n, Performs (Access.Confined v.fs.geo) n v.fs v'.fs) ∧
      ∀ lba count, .write lba count ∈ v'.fs.dev.log →
        .write lba count ∈ dev.log ∨ count = 1 ∧ v.fs.geo.InTable lba ∨
          v.fs.geo.InData lba count := by
  obtain ⟨n, hdone⟩ := hrun.confined
  refine ⟨⟨n, hdone⟩, ?_⟩
  intro lba count hop
  rcases hdone.writes_confined hop with hold | hnew
  · left
    rw [(mount_accepted hmount).2.2.2.2.2, List.mem_append, List.mem_singleton] at hold
    rcases hold with hold | hread
    · exact hold
    · cases hread
  · exact Or.inr hnew

/-- A boot sector, two copies of a table of one sector and four clusters on a device of twenty
sectors, with `0x11` behind the volume. The root directory in cluster 2 has one entry, the file `A`
with the given first cluster. -/
def strayDevice (first : Nat) : BlockDevice :=
  let boot := patch (patch (patch (fun a => if a < 3584 then 0 else 0x11) 11 [0, 2, 1, 1, 0, 2]) 32
    (leBytes 4 7 ++ leBytes 4 1)) 44 (leBytes 4 2)
  let signed := patch boot 510 [0x55, 0xAA]
  let table :=
    patch (patch signed 520 (leBytes 8 0x0FFFFFFF0FFFFFFF)) 1032 (leBytes 8 0x0FFFFFFF0FFFFFFF)
  { totalSectors := 20
    bytes := patch table 1536 (0x41 :: List.replicate 10 0x20 ++ 0x20 :: List.replicate 8 0 ++
      leBytes 2 (first / 2 ^ 16) ++ List.replicate 4 0 ++ leBytes 2 (first % 2 ^ 16) ++
        leBytes 4 7) }

def strayVolume (first : Nat) : Fat32Volume where
  fs := {
    geo := smallGeometry
    mounted := true
    dev := { strayDevice first with log := [.read 0 1] } }
  vnodePool := fun i => if i = 0 then ⟨.directory, 2, 0, 0, 0⟩ else ⟨.unknown, 0, 0, 0, 0⟩
  vnodeInUse := fun i => if i = 0 then true else false
  vnodeCount := 1

/-- The entry names cluster 1000, which the volume does not have. `unlink` frees it and clears bytes
of sector 8, which is behind the volume. -/
theorem stray_unlink_escapes :
    Fat32Volume.mount (strayDevice 1000) {} = (0, some (0, strayVolume 1000)) ∧
      ∃ v', (VnodeCall.unlink [0x41]).run 2 (strayVolume 1000) 0 = some v' ∧
        .write 8 1 ∈ v'.fs.dev.log ∧ ¬ (strayVolume 1000).fs.geo.InTable 8 ∧
        ¬ (strayVolume 1000).fs.geo.InData 8 1 ∧
        (strayDevice 1000).bytes (8 * 512 + 416) = 0x11 ∧ v'.fs.dev.bytes (8 * 512 + 416) = 0 := by
  have hrun : ((VnodeCall.unlink [0x41]).run 2 (strayVolume 1000) 0).any (fun v' =>
      v'.fs.dev.log.contains (.write 8 1) && v'.fs.dev.bytes (8 * 512 + 416) == 0) =
        true := by decide +kernel
  obtain ⟨v', hrun, hwritten⟩ := (Option.any_eq_true _ _).mp hrun
  obtain ⟨hwrite, hcleared⟩ := Bool.and_eq_true_iff.mp hwritten
  refine ⟨rfl, v', hrun, List.contains_iff_mem.mp hwrite, ?_,
    ?_, by decide +kernel, eq_of_beq hcleared⟩
  · rintro ⟨f, hf, _, hupper⟩
    have hf : f < 2 := hf
    have hupper : 8 < 1 + (f + 1) * 1 := hupper
    omega
  · rintro ⟨_, hupper⟩
    exact absurd hupper (by decide)

theorem stray_unlink_confined :
    ∃ v', (VnodeCall.unlink [0x41]).run 2 (strayVolume 3) 0 = some v' ∧
      ∃ n, Performs (Access.Confined (strayVolume 3).fs.geo) n (strayVolume 3).fs v'.fs := by
  have hends : ∀ c, c = 2 ∨ c = 3 →
      (strayVolume 3).fs.geo.fatEntry (strayVolume 3).fs.dev.bytes c = c ∨
      ¬ (2 ≤ (strayVolume 3).fs.geo.fatEntry (strayVolume 3).fs.dev.bytes c ∧
        (strayVolume 3).fs.geo.fatEntry (strayVolume 3).fs.dev.bytes c < fat32EocMin) := by
    rintro c (rfl | rfl)
    · decide +kernel
    · decide +kernel
  have hfirst : ∀ i < 16, entryName ((strayVolume 3).fs.clusters 2) (i * dirEntrySize) =
      formatTo83 [0x41] →
      entryFirstCluster ((strayVolume 3).fs.clusters 2) (i * dirEntrySize) = 3 := by decide +kernel
  have hmeets : (VnodeCall.unlink [0x41]).MeetsInRange (strayVolume 3) 0 := by
    intro _
    refine ⟨⟨⟨⟨⟨rfl, fun _ => rfl⟩, rfl, by decide⟩, smallGeometry_valid⟩, ?_⟩, ?_⟩
    · exact InRange.single ⟨by decide, by decide⟩ (hends 2 (Or.inl rfl))
    · intro c i hfollows hlo hhi hentry
      have hc : c = 2 := Follows.single (hends 2 (Or.inl rfl)) hfollows hlo hhi
      subst hc
      rw [hfirst i hentry.1 hentry.2.2.2]
      exact InRange.single ⟨by decide, by decide⟩ (hends 3 (Or.inr rfl))
  have hsome : ((VnodeCall.unlink [0x41]).run 2 (strayVolume 3) 0).isSome = true := by
    decide +kernel
  obtain ⟨v', hrun⟩ := Option.isSome_iff_exists.mp hsome
  have hmount : Fat32Volume.mount (strayDevice 3) {} = (0, some (0, strayVolume 3)) := rfl
  exact ⟨v', hrun, (mounted_run_confined hmount (VolumeRun.call VolumeRun.start hmeets hrun)).1⟩

end LlamaOS.Fs
