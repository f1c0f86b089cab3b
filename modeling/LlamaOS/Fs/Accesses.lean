import LlamaOS.Fs.Directories
import LlamaOS.Fs.FatImage
import LlamaOS.Shared.Transcript

/-!
# What the driver does to its device

Each function of the driver is a list of accesses: blocks from the heap, entries of the
table and clusters that are read or written. The contents of the volume are arbitrary and
every access may fail. For each loop there is one rule with an invariant `I` that ties the
state to the cluster at hand.
-/

namespace LlamaOS.Fs
open ByteBuffer Transcript Does Fat32Filesystem

inductive Access where
  | allocate
  | readFat (cluster : Nat)
  | writeFat (cluster value : Nat)
  | readCluster (cluster : Nat)
  | writeCluster (cluster : Nat) (src : Buffer)
  | flush

def Access.run (fs : Fat32Filesystem) : Access → Fat32Filesystem
  | .allocate => fs.kmalloc.2
  | .readFat c => (fs.readFatEntry c).2
  | .writeFat c value => (fs.writeFatEntry c value).2
  | .readCluster c => (fs.readCluster c).2
  | .writeCluster c src => (fs.writeCluster c src).2
  | .flush => { fs with dev := fs.dev.flush }

abbrev Performs (P : Access → Prop) (n : Nat) (fs fs' : Fat32Filesystem) : Prop :=
  Does Access.run P n fs fs'

/-- The same file system up to its contents and the state of the heap, with at most `n` new
operations in the log, each of them with `Q`. -/
structure Logged (Q : DeviceOp → Prop) (n : Nat) (fs fs' : Fat32Filesystem) : Prop where
  geo : fs'.geo = fs.geo
  mounted : fs'.mounted = fs.mounted
  limits : fs'.dev.toDeviceLimits = fs.dev.toDeviceLimits
  grants : fs'.heap.grants = fs.heap.grants
  log : ∃ ops, fs'.dev.log = fs.dev.log ++ ops ∧ ops.length ≤ n ∧ ∀ op ∈ ops, Q op

namespace Logged

variable {Q : DeviceOp → Prop} {n m : Nat} {fs fs' fs'' : Fat32Filesystem}

theorem refl (Q : DeviceOp → Prop) (n : Nat) (fs : Fat32Filesystem) : Logged Q n fs fs :=
  ⟨rfl, rfl, rfl, rfl, [], (List.append_nil _).symm, Nat.zero_le _, fun op hop => by cases hop⟩

theorem trans (h : Logged Q n fs fs') (h' : Logged Q m fs' fs'') : Logged Q (n + m) fs fs'' := by
  refine ⟨h'.geo.trans h.geo, h'.mounted.trans h.mounted, h'.limits.trans h.limits,
    h'.grants.trans h.grants, ?_⟩
  obtain ⟨ops, hlog, hlen, hall⟩ := h.log
  obtain ⟨ops', hlog', hlen', hall'⟩ := h'.log
  refine ⟨ops ++ ops', ?_, ?_, ?_⟩
  · rw [hlog', hlog, List.append_assoc]
  · rw [List.length_append]
    omega
  · exact List.forall_mem_append.mpr ⟨hall, hall'⟩

theorem mono (h : Logged Q n fs fs') (hle : n ≤ m) : Logged Q m fs fs' := by
  obtain ⟨ops, hlog, hlen, hall⟩ := h.log
  exact ⟨h.geo, h.mounted, h.limits, h.grants, ops, hlog, Nat.le_trans hlen hle, hall⟩

variable {op : DeviceOp}

theorem ofDevice {dev : BlockDevice} (hQ : Q op) (hlog : dev.log = fs.dev.log ++ [op])
    (hlimits : dev.toDeviceLimits = fs.dev.toDeviceLimits) : Logged Q 1 fs { fs with dev } := by
  refine ⟨rfl, rfl, hlimits, rfl, [op], hlog, Nat.le_refl _, ?_⟩
  intro op' hop'
  rw [List.mem_singleton.mp hop']
  exact hQ

theorem recorded (hQ : Q op) (fs : Fat32Filesystem) :
    Logged Q 1 fs { fs with dev := fs.dev.record op } := ofDevice hQ rfl rfl

end Logged

theorem writeSectors_log (d : BlockDevice) (lba count : Nat) (src : Buffer) :
    (d.writeSectors lba count src).2.log = d.log ++ [.write lba count] ∧
      (d.writeSectors lba count src).2.toDeviceLimits = d.toDeviceLimits := by
  unfold BlockDevice.writeSectors
  split
  · exact ⟨rfl, rfl⟩
  · exact ⟨rfl, rfl⟩

theorem readFatEntry_bytes (fs : Fat32Filesystem) (c : Nat) :
    (fs.readFatEntry c).2.dev.bytes = fs.dev.bytes := by
  unfold readFatEntry BlockDevice.readSectors
  split
  · rfl
  · dsimp only
    cases fs.dev.refuses (fs.geo.fatBeginLba + c * 4 / 512) 1 false with
    | true => rfl
    | false => rfl

theorem readCluster_bytes (fs : Fat32Filesystem) (c : Nat) :
    (fs.readCluster c).2.dev.bytes = fs.dev.bytes := by
  unfold readCluster
  split
  · rfl
  · rfl

/-- The operations on the device that belong to an access. -/
def Access.Uses (g : Geometry) : Access → DeviceOp → Prop
  | .allocate, _ => False
  | .readFat _, op => ∃ lba, op = .read lba 1
  | .writeFat c _, op =>
    ∃ f < g.numFats, op = .read (g.fatBeginLba + f * g.tableSize32 + c * 4 / 512) 1 ∨
      op = .write (g.fatBeginLba + f * g.tableSize32 + c * 4 / 512) 1
  | .readCluster _, op => ∃ lba, op = .read lba g.sectorsPerCluster
  | .writeCluster c _, op => 2 ≤ c ∧ op = .write (g.clusterToLba c) g.sectorsPerCluster
  | .flush, op => op = .flush

variable {fs : Fat32Filesystem}

theorem writeFatCopies_logged (c value : Nat) {g : Geometry} {copies : List Nat}
    (hcopies : ∀ f ∈ copies, f < g.numFats) (hgeo : fs.geo = g) :
    Logged (Access.Uses g (.writeFat c value)) (2 * copies.length) fs
      (Fat32Filesystem.writeFatCopies (c * 4 / 512) (c * 4 % 512) value copies fs).2 := by
  induction copies generalizing fs with
  | nil => exact Logged.refl _ _ fs
  | cons f copies ih =>
    have hf := hcopies f List.mem_cons_self
    have hread : Logged (Access.Uses g (.writeFat c value)) 1 fs
        { fs with dev :=
      fs.dev.record (.read (fs.geo.fatBeginLba + f * fs.geo.tableSize32 + c * 4 / 512) 1) } :=
      Logged.recorded ⟨f, hf, Or.inl (by rw [hgeo])⟩ fs
    rw [writeFatCopies, List.length_cons]
    simp only [BlockDevice.readSectors]
    split
    · rename_i dev hdev
      cases (Prod.mk.inj hdev).2
      exact hread.mono (by omega)
    rename_i buf dev hdev
    cases (Prod.mk.inj hdev).2
    have hwrite :
        ∀ done dev src, (fs.dev.record (.read (fs.geo.fatBeginLba + f * fs.geo.tableSize32 +
        c * 4 / 512) 1)).writeSectors
          (fs.geo.fatBeginLba + f * fs.geo.tableSize32 + c * 4 / 512) 1 src =
        (done, dev) → Logged (Access.Uses g (.writeFat c value)) (1 + 1) fs { fs with dev } := by
      intro done dev src hdone
      have hlog :=
        writeSectors_log (fs.dev.record (.read (fs.geo.fatBeginLba + f * fs.geo.tableSize32 +
        c * 4 / 512) 1)) (fs.geo.fatBeginLba + f * fs.geo.tableSize32 + c * 4 / 512) 1 src
      rw [hdone] at hlog
      exact hread.trans (Logged.ofDevice ⟨f, hf, Or.inr (by rw [hgeo])⟩ hlog.1 hlog.2)
    split
    · rename_i dev hdone
      exact (hwrite _ _ _ hdone).mono (by omega)
    rename_i dev hdone
    have hgeo' : ({ fs with dev } : Fat32Filesystem).geo = g := hgeo
    have hrest := ih (fun f hf => hcopies f (List.mem_cons_of_mem _ hf)) hgeo'
    exact ((hwrite _ _ _ hdone).trans hrest).mono (by omega)

/-- The most expensive access reads and writes one sector of each copy of the table. -/
theorem Access.run_logged (fs : Fat32Filesystem) (a : Access) :
    Logged (a.Uses fs.geo) (2 * fs.geo.numFats + 1) fs (a.run fs) := by
  cases a with
  | allocate =>
    exact ⟨rfl, rfl, rfl, rfl, [], (List.append_nil _).symm, Nat.zero_le _,
      fun op hop => by cases hop⟩
  | flush => exact (Logged.recorded (Q := Access.Uses fs.geo .flush) rfl fs).mono (by omega)
  | readFat c =>
    have hread := Logged.recorded (Q := Access.Uses fs.geo (.readFat c))
      ⟨fs.geo.fatBeginLba + c * 4 / 512, rfl⟩ fs
    change Logged _ _ fs (fs.readFatEntry c).2
    unfold Fat32Filesystem.readFatEntry BlockDevice.readSectors
    split
    · exact Logged.refl _ _ fs
    · dsimp only
      cases fs.dev.refuses (fs.geo.fatBeginLba + c * 4 / 512) 1 false with
      | true => exact hread.mono (by omega)
      | false => exact hread.mono (by omega)
  | writeFat c value =>
    change Logged _ _ fs (fs.writeFatEntry c value).2
    unfold Fat32Filesystem.writeFatEntry
    split
    · exact Logged.refl _ _ fs
    · have hlogged :=
        writeFatCopies_logged c value (fun f hf => List.mem_range.mp hf) (rfl : fs.geo = fs.geo)
      rw [List.length_range] at hlogged
      exact hlogged.mono (by omega)
  | readCluster c =>
    change Logged _ _ fs (fs.readCluster c).2
    unfold Fat32Filesystem.readCluster
    split
    · exact Logged.refl _ _ fs
    · exact (Logged.recorded (Q := Access.Uses fs.geo (.readCluster c)) ⟨fs.geo.clusterToLba c, rfl⟩
        fs).mono (by omega)
  | writeCluster c src =>
    change Logged _ _ fs (fs.writeCluster c src).2
    unfold Fat32Filesystem.writeCluster
    split
    · exact Logged.refl _ _ fs
    rename_i haccepted
    have hlog := writeSectors_log fs.dev (fs.geo.clusterToLba c) fs.geo.sectorsPerCluster src
    exact (Logged.ofDevice (Q := Access.Uses fs.geo (.writeCluster c src))
      ⟨by omega, rfl⟩ hlog.1 hlog.2).mono (by omega)

variable {P : Access → Prop} {fs' : Fat32Filesystem}

theorem performs_one {a : Access} (h : P a) (heq : a.run fs = fs') : Performs P 1 fs fs' :=
  heq ▸ Does.one h fs

theorem Performs.geo_eq {n : Nat} (h : Performs P n fs fs') :
    fs'.geo = fs.geo :=
  h.invariant (I := fun s => s.geo = fs.geo) (fun s a _ hs => (a.run_logged s).geo.trans hs) rfl

/-- Reads are permitted, and writes to the clusters of the data area and their entries. -/
structure Permits (P : Access → Prop) (g : Geometry) : Prop where
  allocate : P .allocate
  flush : P .flush
  readFat : ∀ c, P (.readFat c)
  readCluster : ∀ c, P (.readCluster c)
  writeFat : ∀ c value, g.Usable c → P (.writeFat c value)
  writeCluster : ∀ c src, g.Usable c → P (.writeCluster c src)

section Loops

variable {P : Access → Prop} {g : Geometry}

theorem performs_alloc (hP : Permits P g) {buf : Option Buffer} (h : fs.kmalloc = (buf, fs')) :
    Performs P 1 fs fs' :=
  performs_one hP.allocate (congrArg Prod.snd h)

theorem performs_read (hP : Permits P g) {c : Nat} {data : Option Buffer}
    (h : fs.readCluster c = (data, fs')) :
    Performs P 1 fs fs' := performs_one (hP.readCluster c) (congrArg Prod.snd h)

variable {prev : Nat}

section

variable (hP : Permits P g)
include hP

theorem claimCluster_performs {c : Nat} (hprev : prev ≥ 2 → ∀ value, P (.writeFat prev value))
    (hc : g.Usable c) (fs : Fat32Filesystem) : Performs P 4 fs (fs.claimCluster prev c) := by
  have hmark : Performs P 1 fs (fs.writeFatEntry c 0x0FFFFFFF).2 :=
    one (hP.writeFat c 0x0FFFFFFF hc) fs
  have hlink : Performs P (1 + 1) fs (if prev ≥ 2 then
      ((fs.writeFatEntry c 0x0FFFFFFF).2.writeFatEntry prev c).2
      else (fs.writeFatEntry c 0x0FFFFFFF).2) := by
    split
    · rename_i hge
      exact hmark.trans (one (hprev hge c) _)
    · exact hmark.mono (by omega)
  unfold claimCluster
  simp only
  split
  · rename_i fs₁ halloc
    exact (hlink.trans (performs_alloc hP halloc)).mono (by omega)
  · rename_i buf fs₁ halloc
    have hbuf := hlink.trans (performs_alloc hP halloc)
    exact hbuf.trans (one (hP.writeCluster c (fun _ => 0) hc) fs₁)

theorem allocScan_performs (hprev : prev ≥ 2 → ∀ value, P (.writeFat prev value)) (left : Nat)
    (c : Nat) (fs : Fat32Filesystem) (hlo : 2 ≤ c) (hhi : c + left ≤ g.totalClusters + 2) :
    Performs P (left + 4) fs (Fat32Filesystem.allocScan prev left c fs).2 ∧
      ((Fat32Filesystem.allocScan prev left c fs).1 = 0 ∨
        g.Usable (Fat32Filesystem.allocScan prev left c fs).1) := by
  induction left generalizing c fs with
  | zero => exact ⟨.refl, Or.inl rfl⟩
  | succ left ih =>
    have hread : Performs P 1 fs (fs.readFatEntry c).2 := one (hP.readFat c) fs
    rw [allocScan]
    simp only
    split
    · have hc : g.Usable c := ⟨hlo, by omega⟩
      exact ⟨(hread.trans (claimCluster_performs hP hprev hc _)).mono (by omega), Or.inr hc⟩
    · obtain ⟨hrest, hresult⟩ := ih (c + 1) (fs.readFatEntry c).2 (by omega) (by omega)
      exact ⟨(hread.trans hrest).mono (by omega), hresult⟩

omit hP in
theorem allocCluster_performs {fs : Fat32Filesystem} (hP : Permits P fs.geo) {prev : Nat}
    (hprev : prev ≥ 2 → ∀ value, P (.writeFat prev value)) :
    Performs P (fs.geo.totalClusters + 4) fs (fs.allocCluster prev).2 ∧
      ((fs.allocCluster prev).1 = 0 ∨ fs.geo.Usable (fs.allocCluster prev).1) := by
  by_cases hempty : (fs.geo.totalClusters + 2) % 2 ^ 32 ≤ 2
  · unfold allocCluster
    rw [Nat.sub_eq_zero_of_le hempty]
    exact ⟨.refl, Or.inl rfl⟩
  · obtain ⟨hscan, hresult⟩ := allocScan_performs hP hprev
      ((fs.geo.totalClusters + 2) % 2 ^ 32 - 2) 2 fs (Nat.le_refl _) (by omega)
    exact ⟨hscan.mono (by omega), hresult⟩

theorem updateDirEntry_performs {node : Fat32VNode}
    (hdir : node.dirCluster ≥ 2 → ∀ src, P (.writeCluster node.dirCluster src)) (size first : Nat)
    (fs : Fat32Filesystem) : Performs P 4 fs (fs.updateDirEntry node size first).2 := by
  unfold updateDirEntry
  split
  · exact .refl
  rename_i hlow
  simp only
  split
  · rename_i fs₁ halloc
    exact (performs_alloc hP halloc).mono (by omega)
  rename_i buf fs₁ halloc
  have hbuf := performs_alloc hP halloc
  split
  · rename_i fs₂ hread
    exact (hbuf.trans (performs_read hP hread)).mono (by omega)
  · rename_i dir fs₂ hread
    have hdirRead := hbuf.trans (performs_read hP hread)
    exact (hdirRead.trans (one (hdir (by omega) _) fs₂)).trans (one hP.flush _)

theorem readSeek_performs (left : Nat) (curr hops : Nat) (fs : Fat32Filesystem) :
    Performs P (fs.geo.totalClusters - hops) fs
      (Fat32Filesystem.readSeek left curr hops fs).2.2 := by
  induction left generalizing curr hops fs with
  | zero => exact .refl
  | succ left ih =>
    rw [readSeek]
    split
    · split
      · exact .refl
      have hread : Performs P 1 fs (fs.readFatEntry curr).2 := one (hP.readFat curr) fs
      have hrest := ih (fs.readFatEntry curr).1 (hops + 1) (fs.readFatEntry curr).2
      rw [hread.geo_eq] at hrest
      exact (hread.trans hrest).mono (by omega)
    · exact .refl

theorem readLoop_performs (fuel : Nat) (curr bytesToRead offsetInCluster hops : Nat)
    (fs : Fat32Filesystem) :
    Performs P (2 * fuel) fs
      (Fat32Filesystem.readLoop fuel curr bytesToRead offsetInCluster hops fs).2 := by
  induction fuel generalizing curr bytesToRead offsetInCluster hops fs with
  | zero => exact .refl
  | succ fuel ih =>
    rw [readLoop]
    split
    · split
      · rename_i fs₁ hread
        exact (performs_read hP hread).mono (by omega)
      rename_i buf fs₁ hread
      have hdata := performs_read hP hread
      simp only
      split
      · exact hdata.mono (by omega)
      · have hnext := hdata.trans (one (hP.readFat curr) fs₁)
        exact (hnext.trans (ih _ _ _ _ _)).mono (by omega)
    · exact .refl

theorem read_performs (fs : Fat32Filesystem) (node : Fat32VNode) (offset count : Nat) :
    Performs P (1 + fs.geo.totalClusters + 2 * count) fs (fs.read node offset count).2.2 := by
  unfold Fat32Filesystem.read
  split
  · exact .refl
  split
  · exact .refl
  simp only
  split
  · rename_i fs₁ halloc
    exact (performs_alloc hP halloc).mono (by omega)
  rename_i buf fs₁ halloc
  have hbuf := performs_alloc hP halloc
  have hseek :=
    readSeek_performs hP (offset / fs.geo.bytesPerCluster % 2 ^ 32) node.firstCluster 0 fs₁
  rw [hbuf.geo_eq] at hseek
  have hcount : (if add64 offset count > node.fileSize then node.fileSize - offset else count) ≤
      count := by
    unfold add64
    split
    · omega
    · exact Nat.le_refl _
  exact ((hbuf.trans hseek).trans (readLoop_performs hP _ _ _ _ _ _)).mono (by omega)

end

/-- What a turn of the loop of `free_cluster_chain` keeps. -/
def FreeRule (P : Access → Prop) (I : Fat32Filesystem → Nat → Prop) : Prop :=
  ∀ fs curr, I fs curr → curr ≥ 2 → curr < fat32EocMin → P (.writeFat curr 0) ∧
    I ((fs.readFatEntry curr).2.writeFatEntry curr 0).2 (fs.readFatEntry curr).1

variable {I : Fat32Filesystem → Nat → Prop}

theorem freeLoop_performs (hP : Permits P g) (hturn : FreeRule P I) (left : Nat) (curr : Nat)
    (fs : Fat32Filesystem) (hI : I fs curr) :
    Performs P (2 * left) fs (Fat32Filesystem.freeLoop left curr fs) := by
  induction left generalizing curr fs with
  | zero => exact .refl
  | succ left ih =>
    rw [freeLoop]
    split
    · rename_i hcurr
      obtain ⟨hwrite, hnext⟩ := hturn fs curr hI hcurr.1 hcurr.2
      have hread : Performs P 1 fs (fs.readFatEntry curr).2 := one (hP.readFat curr) fs
      exact ((hread.trans (one hwrite _)).trans (ih _ _ hnext)).mono (by omega)
    · exact .refl

theorem freeClusterChain_performs (hP : Permits P g)
    (hturn : FreeRule P I)
    {fs : Fat32Filesystem} {start : Nat} (hstart : I fs start) :
    Performs P (2 * fs.geo.totalClusters) fs (fs.freeClusterChain start) := by
  unfold freeClusterChain
  split
  · exact .refl
  · exact freeLoop_performs hP hturn _ start fs hstart

theorem truncate_performs (hP : Permits P g)
    (hturn : FreeRule P I)
    {node : Fat32VNode} (hstart : I fs node.firstCluster)
    (hdir : node.dirCluster ≥ 2 → ∀ src, P (.writeCluster node.dirCluster src)) (newSize : Nat) :
    Performs P (2 * fs.geo.totalClusters + 4) fs (fs.truncate node newSize).2.2 := by
  unfold truncate
  split
  · exact .refl
  split
  · exact (freeClusterChain_performs hP hturn hstart).trans
      (@updateDirEntry_performs _ _ hP { node with firstCluster := 0 } hdir _ _ _)
  · exact (updateDirEntry_performs hP hdir _ _ _).mono (by omega)

end Loops

end LlamaOS.Fs
