import LlamaOS.Fs.FatImage

/-!
# The driver on a device that does not fail

The device refuses only what lies outside it. Each primitive of the driver returns what the
volume holds and changes its contents as stated; the log of the device and the state of the
heap do not matter.
-/

namespace LlamaOS.Fs
open ByteBuffer BlockChain Fs.Geometry Fat32Filesystem

namespace Fat32Filesystem

/-- The sector with the entry of `c` in the first table belongs to the device. -/
def HasLink (fs : Fat32Filesystem) (c : Nat) : Prop :=
  fs.geo.fatBeginLba + c * 4 / 512 < fs.dev.totalSectors.toNat

/-- The sectors of the cluster belong to the device. -/
def HasCluster (fs : Fat32Filesystem) (c : Nat) : Prop :=
  fs.geo.clusterToLba c + fs.geo.sectorsPerCluster ≤ fs.dev.totalSectors.toNat

end Fat32Filesystem

/-- A mounted file system on a device whose operations succeed. -/
structure Answers (fs : Fat32Filesystem) : Prop where
  mounted : fs.mounted = true
  io : ∀ n, fs.dev.fails n = false

/-- The device can be written and holds the tables. -/
structure Serves (fs : Fat32Filesystem) : Prop extends Answers fs where
  writable : fs.dev.isReadOnly = false
  tables : fs.geo.fatBeginLba + fs.geo.numFats * fs.geo.tableSize32 ≤ fs.dev.totalSectors.toNat

/-- The same file system and heap with other contents. -/
structure Stored (fs : Fat32Filesystem) (d : Buffer) (fs' : Fat32Filesystem) : Prop where
  bytes : fs'.dev.bytes = d
  geo : fs'.geo = fs.geo
  mounted : fs'.mounted = fs.mounted
  limits : fs'.dev.toDeviceLimits = fs.dev.toDeviceLimits
  heap : fs'.heap = fs.heap

variable {fs fs' fs'' : Fat32Filesystem} {d d' : Buffer}

theorem Stored.trans (h : Stored fs d fs') (h' : Stored fs' d' fs'') :
    Stored fs d' fs'' :=
  ⟨h'.bytes, h'.geo.trans h.geo, h'.mounted.trans h.mounted, h'.limits.trans h.limits,
    h'.heap.trans h.heap⟩

theorem Answers.of_limits (h : Answers fs) (hmounted : fs'.mounted = fs.mounted)
    (hlimits : fs'.dev.toDeviceLimits = fs.dev.toDeviceLimits) : Answers fs' where
  mounted := hmounted.trans h.mounted
  io n := by
    rw [hlimits]
    exact h.io n

theorem Serves.of_limits (h : Serves fs) (hgeo : fs'.geo = fs.geo)
    (hmounted : fs'.mounted = fs.mounted)
    (hlimits : fs'.dev.toDeviceLimits = fs.dev.toDeviceLimits) : Serves fs' where
  toAnswers := h.toAnswers.of_limits hmounted hlimits
  writable := by
    rw [hlimits]
    exact h.writable
  tables := by
    rw [hgeo, hlimits]
    exact h.tables

theorem Stored.serves (h : Stored fs d fs') (hfs : Serves fs) : Serves fs' :=
  hfs.of_limits h.geo h.mounted h.limits

variable {c : Nat}

namespace Answers

variable {fs : Fat32Filesystem} (h : Answers fs)
include h

theorem recorded (op : DeviceOp) : Answers { fs with dev := fs.dev.record op } := ⟨h.mounted, h.io⟩

theorem read_eq {lba count : Nat} (hcount : count < 2 ^ 32)
    (hinside : lba + count ≤ fs.dev.totalSectors.toNat) :
    fs.dev.readSectors lba count =
      (some fun i => fs.dev.bytes (lba * 512 + i), fs.dev.record (.read lba count)) := by
  rw [BlockDevice.readSectors, BlockDevice.refuses_of_inside h.io rfl hcount hinside]
  rfl

theorem readFatEntry_eq (hc : fs.HasLink c) :
    fs.readFatEntry c = (fs.geo.fatEntry fs.dev.bytes c,
      { fs with dev := fs.dev.record (.read (fs.geo.fatBeginLba + c * 4 / 512) 1) }) := by
  have haddr : (fs.geo.fatBeginLba + c * 4 / 512) * 512 + c * 4 % 512 = fs.geo.fatAddr 0 c := by
    rw [fatAddr]
    omega
  have hmask : ∀ w, w &&& 0x0FFFFFFF = w % 2 ^ 28 := fun w => Nat.and_two_pow_sub_one_eq_mod w 28
  have hread := h.read_eq (show 1 < 2 ^ 32 by decide) hc
  simp only [readFatEntry, h.mounted, hread, Bool.not_true, Bool.false_eq_true, if_false,
    loadLe_shift, haddr, hmask]
  rfl

theorem accepts (hc : 2 ≤ c) : ¬ ((!fs.mounted) = true ∨ c < 2) := by
  rw [h.mounted]
  intro hrefused
  rcases hrefused with hunmounted | hlow
  · cases hunmounted
  · omega

theorem readCluster_eq (hg : fs.geo.Accepted) (hc : 2 ≤ c) (hcluster : fs.HasCluster c) :
    fs.readCluster c = (some ((fs.geo.view fs.dev.bytes).data c),
      { fs with
        dev := fs.dev.record (.read (fs.geo.clusterToLba c) fs.geo.sectorsPerCluster) }) := by
  have hsize : fs.geo.sectorsPerCluster < 2 ^ 32 := Nat.lt_trans hg.cluster.2 (by decide)
  rw [readCluster, if_neg (h.accepts hc), h.read_eq hsize hcluster]
  rfl

theorem readCluster_beyond (hg : fs.geo.Accepted) (hlo : 2 ≤ c) (hhi : c < fat32EocMin)
    (hbeyond : ¬ fs.HasCluster c) :
    fs.readCluster c = (none,
      { fs with
        dev := fs.dev.record (.read (fs.geo.clusterToLba c) fs.geo.sectorsPerCluster) }) := by
  have hsize : fs.geo.sectorsPerCluster < 2 ^ 32 := Nat.lt_trans hg.cluster.2 (by decide)
  rw [readCluster, if_neg (h.accepts hlo), BlockDevice.readSectors,
    BlockDevice.refuses_of_beyond hg.cluster.1 hsize
    (hg.clusterToLba_lt hhi) (Nat.lt_of_not_le hbeyond)]
  rfl

end Answers

/-- A sector of the table that is written back with another entry. -/
theorem setFatCopy_sector (g : Geometry) (c value f : Nat) (d : Buffer) {lba : Nat}
    (hlba : lba = g.fatBeginLba + f * g.tableSize32 + c * 4 / 512) :
    (fun a => if lba * 512 ≤ a ∧ a < (lba + 1) * 512 then
        patch (fun i => d (lba * 512 + i)) (c * 4 % 512)
          (leBytes 4 (mergeEntry (g.fatWord d f c) value)) (a - lba * 512)
      else d a) = g.setFatCopy c value f d := by
  have haddr : lba * 512 + c * 4 % 512 = g.fatAddr f c := by
    rw [fatAddr, hlba]
    omega
  rw [Nat.succ_mul, patch_window _ (by rw [leBytes_length]; omega), haddr, setFatCopy]

theorem loadLe_sector (g : Geometry) (c f : Nat) (d : Buffer) {lba : Nat}
    (hlba : lba = g.fatBeginLba + f * g.tableSize32 + c * 4 / 512) :
    loadLe (fun i => d (lba * 512 + i)) (c * 4 % 512) 4 = g.fatWord d f c := by
  have haddr : lba * 512 + c * 4 % 512 = g.fatAddr f c := by
    rw [fatAddr, hlba]
    omega
  rw [loadLe_shift, haddr, fatWord]

namespace Serves

variable {fs : Fat32Filesystem}

section

variable (h : Serves fs)
include h

theorem recorded (op : DeviceOp) : Serves { fs with dev := fs.dev.record op } :=
  h.of_limits rfl rfl rfl

theorem sector {f : Nat} (hf : f < fs.geo.numFats) (hc : c < fs.geo.tableSize32 * 128) :
    fs.geo.fatBeginLba + f * fs.geo.tableSize32 + c * 4 / 512 + 1 ≤ fs.dev.totalSectors.toNat := by
  have htables := h.tables
  have hcopy := Nat.mul_le_mul_right fs.geo.tableSize32 (Nat.succ_le_of_lt hf)
  rw [Nat.succ_mul] at hcopy
  omega

theorem hasLink (hcopies : 0 < fs.geo.numFats) (hc : c < fs.geo.tableSize32 * 128) :
    fs.HasLink c := by
  have hsector := h.sector hcopies hc
  rwa [Nat.zero_mul, Nat.add_zero] at hsector

theorem write_ok {lba count : Nat} (hcount : count < 2 ^ 32)
    (hinside : lba + count ≤ fs.dev.totalSectors.toNat) (src : Buffer) :
    ∃ dev, fs.dev.writeSectors lba count src = (true, dev) ∧
      Stored fs (fun a => if lba * 512 ≤ a ∧ a < (lba + count) * 512 then src (a - lba * 512)
        else fs.dev.bytes a) { fs with dev } := by
  have haccepts : fs.dev.refuses lba count true = false :=
    BlockDevice.refuses_of_inside h.io h.writable hcount hinside
  rw [BlockDevice.writeSectors, haccepts]
  exact ⟨_, rfl, rfl, rfl, rfl, rfl, rfl⟩

theorem writeFatCopies_ok (value : Nat) {copies : List Nat}
    (hcopies : ∀ f ∈ copies, f < fs.geo.numFats) (hc : c < fs.geo.tableSize32 * 128) :
    ∃ fs', writeFatCopies (c * 4 / 512) (c * 4 % 512) value copies fs = (0, fs') ∧
      Stored fs (fs.geo.setFatIn c value copies fs.dev.bytes) fs' := by
  induction copies generalizing fs with
  | nil => exact ⟨fs, rfl, rfl, rfl, rfl, rfl, rfl⟩
  | cons f copies ih =>
    have hsector := h.sector (hcopies f List.mem_cons_self) hc
    have hread := h.recorded (.read (fs.geo.fatBeginLba + f * fs.geo.tableSize32 + c * 4 / 512) 1)
    obtain ⟨dev, hwrite, hstored⟩ := hread.write_ok (by decide) hsector
      (patch (fun i => fs.dev.bytes
        ((fs.geo.fatBeginLba + f * fs.geo.tableSize32 + c * 4 / 512) * 512 + i))
        (c * 4 % 512) (leBytes 4 (mergeEntry (fs.geo.fatWord fs.dev.bytes f c) value)))
    have hcontents : dev.bytes = fs.geo.setFatCopy c value f fs.dev.bytes :=
      hstored.bytes.trans (setFatCopy_sector fs.geo c value f fs.dev.bytes rfl)
    have hstored' : Stored fs (fs.geo.setFatCopy c value f fs.dev.bytes) { fs with dev } :=
      ⟨hcontents, rfl, rfl, hstored.limits, rfl⟩
    obtain ⟨fs', hrest, hfs'⟩ :=
      ih (hstored'.serves h) (fun f hf => hcopies f (List.mem_cons_of_mem _ hf)) hc
    refine ⟨fs', ?_, ?_⟩
    · rw [writeFatCopies, h.read_eq (by decide) hsector]
      simp only [loadLe_sector fs.geo c f fs.dev.bytes rfl]
      rw [mergeEntry] at hwrite
      rw [hwrite]
      exact hrest
    · rw [hcontents] at hfs'
      exact hstored'.trans hfs'

theorem writeFatEntry_ok (value : Nat) (hc : c < fs.geo.tableSize32 * 128) :
    ∃ fs', fs.writeFatEntry c value = (0, fs') ∧
      Stored fs (fs.geo.setFat c value fs.dev.bytes) fs' := by
  obtain ⟨fs', hcopies, hstored⟩ := h.writeFatCopies_ok value (fun _ hf => List.mem_range.mp hf) hc
  refine ⟨fs', ?_, hstored⟩
  simp only [writeFatEntry, h.mounted, Bool.not_true, Bool.false_eq_true, if_false]
  exact hcopies

theorem writeCluster_ok (hg : fs.geo.Valid) {c : Nat} (hc : 2 ≤ c) (hcluster : fs.HasCluster c)
    (src : Buffer) :
    ∃ fs', fs.writeCluster c src = (true, fs') ∧
      Stored fs (fs.geo.setCluster c src fs.dev.bytes) fs' := by
  have hsize : fs.geo.sectorsPerCluster < 2 ^ 32 := Nat.lt_trans hg.cluster.2 (by decide)
  obtain ⟨dev, hwrite, hstored⟩ := h.write_ok hsize hcluster src
  refine ⟨{ fs with dev }, ?_, ?_⟩
  · rw [writeCluster, if_neg (h.accepts hc), hwrite]
  · have hcontents := hstored.bytes
    rw [Nat.add_mul, ← hg.size] at hcontents
    exact ⟨hcontents, rfl, rfl, hstored.limits, rfl⟩

end

end Serves

theorem writeFatEntry_reads_back {d value : Nat} (h : Serves fs) (hcopies : 0 < fs.geo.numFats)
    (hc : c < fs.geo.tableSize32 * 128) (hd : d < fs.geo.tableSize32 * 128) :
    ∃ fs', fs.writeFatEntry c value = (0, fs') ∧
      (fs'.readFatEntry d).1 = (if d = c then value % 2 ^ 28 else (fs.readFatEntry d).1) ∧
      (∀ f < fs.geo.numFats, ∀ e < fs.geo.tableSize32 * 128,
        fs.geo.fatWord fs'.dev.bytes f e / 2 ^ 28 = fs.geo.fatWord fs.dev.bytes f e / 2 ^ 28) ∧
      (∀ a, a < fs.geo.fatBeginLba * 512 ∨
        (fs.geo.fatBeginLba + fs.geo.numFats * fs.geo.tableSize32) * 512 ≤ a →
        fs'.dev.bytes a = fs.dev.bytes a) ∧
      ((∀ f < fs.geo.numFats, ∀ e < fs.geo.tableSize32 * 128,
          fs.geo.fatWord fs.dev.bytes f e % 2 ^ 28 = fs.geo.fatEntry fs.dev.bytes e) →
        ∀ f < fs.geo.numFats, ∀ e < fs.geo.tableSize32 * 128,
          fs.geo.fatWord fs'.dev.bytes f e % 2 ^ 28 = fs.geo.fatEntry fs'.dev.bytes e) := by
  obtain ⟨fs', hwrite, hstored⟩ := h.writeFatEntry_ok value hc
  have hlink := h.hasLink hcopies hd
  have hword : ∀ {f e : Nat}, f < fs.geo.numFats → e < fs.geo.tableSize32 * 128 →
      fs.geo.fatWord fs'.dev.bytes f e =
        if e = c then mergeEntry (fs.geo.fatWord fs.dev.bytes f c) value
        else fs.geo.fatWord fs.dev.bytes f e := by
    intro f e hf he
    rw [hstored.bytes, fatWord_setFat hc he hf]
  have hentry : ∀ {f e : Nat}, f < fs.geo.numFats → e < fs.geo.tableSize32 * 128 →
      fs.geo.fatWord fs'.dev.bytes f e % 2 ^ 28 =
        if e = c then value % 2 ^ 28 else fs.geo.fatWord fs.dev.bytes f e % 2 ^ 28 := by
    intro f e hf he
    rw [hword hf he]
    split
    · exact mergeEntry_mod _ _
    · rfl
  refine ⟨fs', hwrite, ?_, ?_, ?_, ?_⟩
  · have hlink' : fs'.HasLink d := by
      unfold HasLink
      rw [hstored.geo, hstored.limits]
      exact hlink
    rw [(hstored.serves h).readFatEntry_eq hlink', h.readFatEntry_eq hlink, hstored.geo]
    exact hentry hcopies hd
  · intro f hf e he
    rw [hword hf he]
    split
    · rename_i heq
      rw [heq]
      exact mergeEntry_div (loadLe_lt _ _ _) value
    · rfl
  · intro a ha
    rw [hstored.bytes]
    exact setFat_outside hc ha _
  · intro hequal f hf e he
    rw [hentry hf he, fatEntry, hentry hcopies he, hequal f hf e he]
    rfl

/-- One reserved sector, two tables of one sector and four clusters of one sector. -/
def smallGeometry : Geometry := ⟨512, 1, 2, 1, 1, 3, 4⟩

theorem smallGeometry_valid : smallGeometry.Valid where
  sector := rfl
  cluster := by decide
  reserved := by decide
  copies := by decide
  table := by decide
  begins := rfl
  total := by decide
  covers := by decide
  range := by decide

/-- Two tables, in which a chain of two clusters begins at cluster 2. -/
def twoClusters : Fat32Filesystem where
  geo := smallGeometry
  mounted := true
  dev := {
    totalSectors := 7
    bytes := patch (patch (fun _ => 0) 520 (leBytes 8 0x0FFFFFFF00000003)) 1032
      (leBytes 8 0x0FFFFFFF00000003) }

theorem writeFatEntry_reads_back_sample :
    ∃ fs', twoClusters.writeFatEntry 3 0xF0000004 = (0, fs') ∧ (fs'.readFatEntry 3).1 = 4 := by
  have hserves : Serves twoClusters := ⟨⟨rfl, fun _ => rfl⟩, rfl, by decide⟩
  obtain ⟨fs', hwrite, hread, _⟩ :=
    @writeFatEntry_reads_back twoClusters 3 3 0xF0000004 hserves (by decide) (by decide) (by decide)
  exact ⟨fs', hwrite, hread⟩

/-- A mounted volume that lies on its device, and a device and a heap whose calls succeed. -/
structure Ready (fs : Fat32Filesystem) : Prop where
  geo : fs.geo.Valid
  serves : Serves fs
  data : fs.geo.clusterBeginLba + fs.geo.totalClusters * fs.geo.sectorsPerCluster ≤
    fs.dev.totalSectors.toNat
  memory : ∀ n, (fs.heap.grants n).isSome = true

/-- The same file system with other contents. -/
structure Became (fs : Fat32Filesystem) (d : Buffer) (fs' : Fat32Filesystem) : Prop where
  bytes : fs'.dev.bytes = d
  geo : fs'.geo = fs.geo
  limits : fs'.dev.toDeviceLimits = fs.dev.toDeviceLimits
  ready : Ready fs'

theorem Became.trans (h : Became fs d fs') (h' : Became fs' d' fs'') : Became fs d' fs'' :=
  ⟨h'.bytes, h'.geo.trans h.geo, h'.limits.trans h.limits, h'.ready⟩

namespace Ready

variable {fs : Fat32Filesystem} (h : Ready fs)
include h

theorem became : Became fs fs.dev.bytes fs := ⟨rfl, rfl, rfl, h⟩

theorem of_limits {fs'} (hgeo : fs'.geo = fs.geo) (hmounted : fs'.mounted = fs.mounted)
    (hlimits : fs'.dev.toDeviceLimits = fs.dev.toDeviceLimits)
    (hgrants : fs'.heap.grants = fs.heap.grants) : Ready fs' where
  geo := hgeo ▸ h.geo
  serves := h.serves.of_limits hgeo hmounted hlimits
  data := by
    rw [hgeo, hlimits]
    exact h.data
  memory := hgrants ▸ h.memory

theorem hasLink (hc : c < fs.geo.totalClusters + 2) : fs.HasLink c :=
  h.serves.hasLink h.geo.copies.1 (Nat.lt_of_lt_of_le hc h.geo.covers)

theorem hasCluster (hc : fs.geo.Usable c) : fs.HasCluster c := by
  have hdata := h.data
  have hlast :=
      Nat.mul_le_mul_right fs.geo.sectorsPerCluster (show c - 2 + 1 ≤ fs.geo.totalClusters by
    have hlo := hc.1
    have hhi := hc.2
    omega)
  rw [Nat.succ_mul] at hlast
  have hlow := hc.1
  unfold HasCluster clusterToLba
  rw [if_neg (by omega)]
  omega

end Ready

theorem ready_of_small (hgeo : fs.geo = smallGeometry) (hanswers : Answers fs)
    (hwritable : fs.dev.isReadOnly = false) (hsize : 7 ≤ fs.dev.totalSectors.toNat)
    (hmemory : ∀ n, (fs.heap.grants n).isSome = true) : Ready fs where
  geo := hgeo ▸ smallGeometry_valid
  serves := by
    refine ⟨hanswers, hwritable, Nat.le_trans ?_ hsize⟩
    rw [hgeo]
    decide
  data := by
    refine Nat.le_trans ?_ hsize
    rw [hgeo]
    decide
  memory := hmemory

namespace Became

variable (h : Became fs d fs')
include h

theorem valid : fs.geo.Valid := h.geo ▸ h.ready.geo

theorem recorded (op : DeviceOp) : Became fs d { fs' with dev := fs'.dev.record op } :=
  ⟨h.bytes, h.geo, h.limits, h.ready.of_limits rfl rfl rfl rfl⟩

theorem stored (hstored : Stored fs' d' fs'') : Became fs d' fs'' where
  bytes := hstored.bytes
  geo := hstored.geo.trans h.geo
  limits := hstored.limits.trans h.limits
  ready := h.ready.of_limits hstored.geo hstored.mounted hstored.limits
    (congrArg KernelHeap.grants hstored.heap)

theorem hasLink_eq : fs'.HasLink = fs.HasLink := by
  funext c
  unfold HasLink
  rw [h.geo, h.limits]

theorem hasCluster_eq : fs'.HasCluster = fs.HasCluster := by
  funext c
  unfold HasCluster
  rw [h.geo, h.limits]

theorem hasLink (hc : c < fs.geo.totalClusters + 2) : fs.HasLink c :=
  h.hasLink_eq ▸ h.ready.hasLink (h.geo.symm ▸ hc)

theorem hasCluster (hc : fs.geo.Usable c) : fs.HasCluster c :=
  h.hasCluster_eq ▸ h.ready.hasCluster (h.geo.symm ▸ hc)

theorem kmalloc_ok : ∃ buf fs'', fs'.kmalloc = (some buf, fs'') ∧ Became fs d fs'' := by
  obtain ⟨buf, hbuf⟩ := Option.isSome_iff_exists.mp (h.ready.memory fs'.heap.calls)
  refine ⟨buf, { fs' with heap := { fs'.heap with calls := fs'.heap.calls + 1 } }, ?_, h.bytes,
    h.geo, h.limits, h.ready.of_limits rfl rfl rfl rfl⟩
  rw [kmalloc, hbuf]

theorem readFatEntry_ok (hc : fs.HasLink c) :
    ∃ fs'', fs'.readFatEntry c = (fs.geo.fatEntry d c, fs'') ∧ Became fs d fs'' := by
  have hread := h.ready.serves.readFatEntry_eq (h.hasLink_eq ▸ hc)
  exact ⟨_, hread.trans (congrArg (·, _) (by rw [h.geo, h.bytes])), h.recorded _⟩

theorem writeFatEntry_ok (value : Nat) (hc : c < fs.geo.totalClusters + 2) :
    ∃ fs'', fs'.writeFatEntry c value = (0, fs'') ∧ Became fs (fs.geo.setFat c value d) fs'' := by
  have hentry : c < fs'.geo.tableSize32 * 128 := h.geo.symm ▸ Nat.lt_of_lt_of_le hc h.valid.covers
  obtain ⟨fs'', hwrite, hstored⟩ := h.ready.serves.writeFatEntry_ok value hentry
  rw [h.geo, h.bytes] at hstored
  exact ⟨fs'', hwrite, h.stored hstored⟩

theorem readCluster_ok (hc : 2 ≤ c) (hcluster : fs.HasCluster c) :
    ∃ fs'', fs'.readCluster c = (some ((fs.geo.view d).data c), fs'') ∧ Became fs d fs'' := by
  have hread := h.ready.serves.readCluster_eq h.ready.geo.toAccepted hc (h.hasCluster_eq ▸ hcluster)
  exact ⟨_, hread.trans (congrArg (·, _) (by rw [h.geo, h.bytes])), h.recorded _⟩

theorem writeCluster_ok (hc : 2 ≤ c) (hcluster : fs.HasCluster c) (src : Buffer) :
    ∃ fs'', fs'.writeCluster c src = (true, fs'') ∧ Became fs (fs.geo.setCluster c src d) fs'' := by
  obtain ⟨fs'', hwrite, hstored⟩ :=
    h.ready.serves.writeCluster_ok h.ready.geo hc (h.hasCluster_eq ▸ hcluster) src
  rw [h.geo, h.bytes] at hstored
  exact ⟨fs'', hwrite, h.stored hstored⟩

end Became

def Fat32Filesystem.Full (fs : Fat32Filesystem) : Prop :=
  ∀ c, fs.geo.Usable c → fs.geo.fatEntry fs.dev.bytes c ≠ 0

/-- The contents after `alloc_cluster` has found `c`. -/
def Geometry.claimed (g : Geometry) (prevCluster c : Nat) (d : Buffer) : Buffer :=
  let d := g.setFat c 0x0FFFFFFF d
  g.setCluster c (fun _ => 0) (if prevCluster ≥ 2 then g.setFat prevCluster c d else d)

namespace Became

theorem claimCluster_ok (h : Became fs d fs') {prevCluster : Nat}
    (hprev : prevCluster < fs.geo.totalClusters + 2) (hc : fs.geo.Usable c) :
    Became fs (fs.geo.claimed prevCluster c d) (fs'.claimCluster prevCluster c) := by
  obtain ⟨fs₁, hmark, hfs₁⟩ := h.writeFatEntry_ok 0x0FFFFFFF hc.2
  have hlink : ∃ fs₂, (if prevCluster ≥ 2 then (fs₁.writeFatEntry prevCluster c).2 else fs₁) = fs₂ ∧
      Became fs (if prevCluster ≥ 2 then fs.geo.setFat prevCluster c (fs.geo.setFat c 0x0FFFFFFF d)
        else fs.geo.setFat c 0x0FFFFFFF d) fs₂ := by
    split
    · obtain ⟨fs₂, hprev, hfs₂⟩ := hfs₁.writeFatEntry_ok c hprev
      exact ⟨fs₂, by rw [hprev], hfs₂⟩
    · exact ⟨fs₁, rfl, hfs₁⟩
  obtain ⟨fs₂, heq, hfs₂⟩ := hlink
  obtain ⟨buf, fs₃, halloc, hfs₃⟩ := hfs₂.kmalloc_ok
  obtain ⟨fs₄, hzero, hfs₄⟩ := hfs₃.writeCluster_ok hc.1 (hfs₃.hasCluster hc) fun _ => 0
  simp only [claimCluster, hmark, heq, halloc, hzero]
  exact hfs₄

theorem allocScan_ok {prevCluster : Nat} (hprev : prevCluster < fs.geo.totalClusters + 2)
    (left : Nat) {fs'} (c) (h : Became fs d fs') (hlo : 2 ≤ c)
    (hhi : c + left ≤ fs.geo.totalClusters + 2) :
    (∃ fs'', allocScan prevCluster left c fs' = (0, fs'') ∧ Became fs d fs'' ∧
        ∀ e, c ≤ e → e < c + left → fs.geo.fatEntry d e ≠ 0) ∨
      ∃ c' fs'', allocScan prevCluster left c fs' = (c', fs'') ∧ fs.geo.Usable c' ∧
        fs.geo.fatEntry d c' = 0 ∧ Became fs (fs.geo.claimed prevCluster c' d) fs'' := by
  induction left generalizing fs' c with
  | zero => exact Or.inl ⟨fs', rfl, h, fun e hlo hhi => absurd hhi (Nat.not_lt.mpr hlo)⟩
  | succ left ih =>
    have hc : fs.geo.Usable c := ⟨hlo, by omega⟩
    obtain ⟨fs₁, hread, hfs₁⟩ := h.readFatEntry_ok (h.hasLink hc.2)
    simp only [allocScan, hread]
    by_cases hfree : fs.geo.fatEntry d c = 0
    · rw [if_pos hfree]
      exact Or.inr ⟨c, _, rfl, hc, hfree, hfs₁.claimCluster_ok hprev hc⟩
    rw [if_neg hfree]
    rcases ih (c + 1) hfs₁ (by omega) (by omega) with ⟨fs'', hnone, hfs'', hused⟩ | hfound
    · refine Or.inl ⟨fs'', hnone, hfs'', ?_⟩
      intro e hle hlt
      by_cases heq : e = c
      · rw [heq]
        exact hfree
      · exact hused e (by omega) (by omega)
    · exact Or.inr hfound

theorem allocCluster_ok (h : Became fs d fs') {prevCluster : Nat}
    (hprev : prevCluster < fs.geo.totalClusters + 2) :
    (∃ fs'', fs'.allocCluster prevCluster = (0, fs'') ∧ Became fs d fs'' ∧ fs''.Full) ∨
      ∃ c fs'', fs'.allocCluster prevCluster = (c, fs'') ∧ fs.geo.Usable c ∧
        fs.geo.fatEntry d c = 0 ∧ Became fs (fs.geo.claimed prevCluster c d) fs'' := by
  have hrange := h.valid.range
  simp only [fat32EocMin] at hrange
  have hcount : (fs.geo.totalClusters + 2) % 2 ^ 32 = fs.geo.totalClusters + 2 :=
    Nat.mod_eq_of_lt (by omega)
  rw [allocCluster, h.geo]
  rcases allocScan_ok hprev ((fs.geo.totalClusters + 2) % 2 ^ 32 - 2) 2 h (Nat.le_refl _)
      (by omega) with
    ⟨fs'', hnone, hfs'', hused⟩ | hfound
  · refine Or.inl ⟨fs'', hnone, hfs'', ?_⟩
    rw [Full, hfs''.geo, hfs''.bytes]
    exact fun c hc => hused c hc.1 (by have := hc.2; omega)
  · exact Or.inr hfound

end Became

end LlamaOS.Fs
