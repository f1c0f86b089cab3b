import LlamaOS.Fs.Directories
import LlamaOS.Fs.FatImage

/-!
# Mounted volumes

The geometry that `mount` accepts. It checks neither that the table has an entry for every
cluster nor that the data area is inside the device.
-/

namespace LlamaOS.Fs
open ByteBuffer Fat32Volume

def dataStart (boot : Buffer) : Nat := loadLe boot 14 2 + loadLe boot 16 1 * loadLe boot 36 4

def declaredSectors (boot : Buffer) (sectors : Nat) : Nat :=
  if 0 < loadLe boot 32 4 then loadLe boot 32 4 else sectors

/-- The clusters behind the tables, in the arithmetic of `mount`. -/
def clusterCount (boot : Buffer) (sectors : Nat) : Nat :=
  sub64 (declaredSectors boot sectors) (dataStart boot) / loadLe boot 13 1 % 2 ^ 32

/-- The clusters that the boot sector declares, where the declared sectors reach behind the
tables. -/
def declaredClusters (boot : Buffer) (sectors : Nat) : Nat :=
  (declaredSectors boot sectors - dataStart boot) / loadLe boot 13 1

/-- What `mount` computes where they do not. -/
def wrappedClusters (boot : Buffer) (sectors : Nat) : Nat :=
  (2 ^ 64 - (dataStart boot - declaredSectors boot sectors)) / loadLe boot 13 1 % 2 ^ 32

def mountedVolume (dev : BlockDevice) (heap : KernelHeap) : Fat32Volume where
  fs := {
    geo :=
      ⟨loadLe dev.bytes 11 2, loadLe dev.bytes 13 1, loadLe dev.bytes 16 1, loadLe dev.bytes 36 4,
      loadLe dev.bytes 14 2, dataStart dev.bytes, clusterCount dev.bytes dev.totalSectors.toNat⟩
    mounted := true
    dev := dev.record (.read 0 1)
    heap }
  vnodePool := fun i => if i = 0 then ⟨.directory, loadLe dev.bytes 44 4, 0, 0, 0⟩
  else ⟨.unknown, 0, 0, 0, 0⟩
  vnodeInUse := fun i => if i = 0 then true else false
  vnodeCount := 1

variable {dev : BlockDevice} {root : Nat} {heap : KernelHeap} {code : Int} {v : Fat32Volume}

section

variable (h : mount dev heap = (code, some (root, v)))
include h

theorem mount_volume :
    loadLe dev.bytes 11 2 = 512 ∧ loadLe dev.bytes 13 1 ≠ 0 ∧ loadLe dev.bytes 16 1 ≠ 0 ∧
      loadLe dev.bytes 36 4 ≠ 0 ∧ root = 0 ∧ v = mountedVolume dev heap := by
  have hboot : (fun i => dev.bytes (0 * 512 + i)) = dev.bytes := by
    funext i
    rw [Nat.zero_mul, Nat.zero_add]
  unfold mount at h
  split at h
  · cases h
  rename_i sector dev₁ hread
  obtain ⟨hsome, rfl⟩ := Prod.mk.inj hread
  split at hsome
  · cases hsome
  cases hsome
  simp only at h
  split at h
  · cases h
  split at h
  · cases h
  rename_i hsector
  split at h
  · cases h
  rename_i hchecked
  simp only [not_or] at hchecked
  obtain ⟨_, hv⟩ := Prod.mk.inj h
  obtain ⟨rfl, rfl⟩ := Prod.mk.inj (Option.some.inj hv)
  exact ⟨not_not.mp hsector, hchecked.1, hchecked.2.1, hchecked.2.2.1, rfl, rfl⟩

theorem mount_accepted :
    v.fs.geo.Accepted ∧ v.fs.mounted = true ∧ v.fs.dev.bytes = dev.bytes ∧
      v.fs.dev.toDeviceLimits = dev.toDeviceLimits ∧ v.fs.heap = heap ∧
        v.fs.dev.log = dev.log ++ [.read 0 1] := by
  obtain ⟨hsector, hcluster, hfats, htable, _, rfl⟩ := mount_volume h
  exact ⟨⟨hsector, ⟨Nat.pos_of_ne_zero hcluster, loadLe_lt _ 1 13⟩, loadLe_lt _ 2 14,
    ⟨Nat.pos_of_ne_zero hfats, loadLe_lt _ 1 16⟩, ⟨Nat.pos_of_ne_zero htable, loadLe_lt _ 4 36⟩,
    rfl, Nat.mod_lt _ (by decide)⟩, rfl, rfl, rfl, rfl, rfl⟩

theorem mount_pool :
    root = 0 ∧ v.vnodeCount = 1 ∧ v.vnodeInUse = (fun i => if i = 0 then true else false) ∧
      (v.vnodePool 0).type = .directory := by
  obtain ⟨_, _, _, _, hroot, rfl⟩ := mount_volume h
  exact ⟨hroot, rfl, rfl, rfl⟩

end

/-- The data area lies behind the tables and inside the device, every copy of the table has an entry
for each cluster, and the root directory has one of the clusters. -/
structure Fat32Volume.Sized (v : Fat32Volume) (root : Nat) : Prop where
  tables : v.fs.geo.fatBeginLba + v.fs.geo.numFats * v.fs.geo.tableSize32 ≤ v.fs.geo.clusterBeginLba
  data : v.fs.geo.clusterBeginLba + v.fs.geo.totalClusters * v.fs.geo.sectorsPerCluster ≤
    v.fs.dev.totalSectors.toNat
  entries : (v.fs.geo.totalClusters + 2) * 4 ≤ v.fs.geo.tableSize32 * v.fs.geo.bytesPerSector
  root : (v.vnodePool root).firstCluster < v.fs.geo.totalClusters + 2

/-- A data area of `n` clusters behind the tables of this boot sector fits on the device. -/
structure Fits (boot : Buffer) (sectors n : Nat) : Prop where
  data : dataStart boot + n * loadLe boot 13 1 ≤ sectors
  entries : n + 2 ≤ loadLe boot 36 4 * 128
  root : loadLe boot 44 4 < n + 2

section Declared

variable {boot : Buffer} {sectors : Nat}

theorem dataStart_lt (boot : Buffer) : dataStart boot < 2 ^ 64 := by
  have hreserved := loadLe_lt boot 2 14
  have htables := Nat.mul_lt_mul'' (loadLe_lt boot 1 16) (loadLe_lt boot 4 36)
  unfold dataStart
  omega

theorem declaredSectors_lt (hsectors : sectors < 2 ^ 64) :
    declaredSectors boot sectors < 2 ^ 64 := by
  have hfield := loadLe_lt boot 4 32
  unfold declaredSectors
  split
  · omega
  · exact hsectors

theorem clusterCount_behind (hsectors : sectors < 2 ^ 64)
    (hstart : dataStart boot ≤ declaredSectors boot sectors) :
    clusterCount boot sectors = declaredClusters boot sectors % 2 ^ 32 := by
  rw [clusterCount, sub64_eq hstart (declaredSectors_lt hsectors), declaredClusters]

theorem clusterCount_wrapped (hstart : declaredSectors boot sectors < dataStart boot) :
    clusterCount boot sectors = wrappedClusters boot sectors := by
  have hbound := dataStart_lt boot
  have hdiff : sub64 (declaredSectors boot sectors) (dataStart boot) =
      2 ^ 64 - (dataStart boot - declaredSectors boot sectors) := by
    unfold sub64
    omega
  rw [clusterCount, hdiff, wrappedClusters]

/-- A count from a difference that wraps around takes the data area to sector 2³² at least. -/
theorem wrapped_count_large {s δ : Nat} (hpos : 0 < δ) (hδ : δ ≤ 2 ^ 64) (hs : s ∣ 2 ^ 32) :
    2 ^ 32 ≤ δ + (2 ^ 64 - δ) / s % 2 ^ 32 * s := by
  obtain ⟨t, ht⟩ := hs
  have hspos : 0 < s := Nat.pos_of_ne_zero fun hzero => by simp [hzero] at ht
  have hquot := Nat.div_add_mod (2 ^ 64 - δ) s
  have hrest := Nat.mod_lt (2 ^ 64 - δ) hspos
  have hcount := Nat.div_add_mod ((2 ^ 64 - δ) / s) (2 ^ 32)
  generalize (2 ^ 64 - δ) / s % 2 ^ 32 = n at hcount ⊢
  generalize (2 ^ 64 - δ) / s / 2 ^ 32 = k at hcount
  rw [← hcount, Nat.mul_add] at hquot
  -- 2⁶⁴ is a multiple of `s * 2³²`, and so is what the rounding and the difference leave of it
  have hwhole : s * 2 ^ 32 * t = s * 2 ^ 32 * k + (s * n + (2 ^ 64 - δ) % s + δ) := by
    have hsquare : s * 2 ^ 32 * t = 2 ^ 64 := by
      rw [Nat.mul_right_comm, ← ht]
      rfl
    have hassoc : s * (2 ^ 32 * k) = s * 2 ^ 32 * k := (Nat.mul_assoc _ _ _).symm
    omega
  have hless : k < t := by
    by_contra hge
    have hle := Nat.mul_le_mul_left (s * 2 ^ 32) (Nat.le_of_not_lt hge)
    omega
  have hstep := Nat.mul_le_mul_left (s * 2 ^ 32) (Nat.succ_le_of_lt hless)
  rw [Nat.mul_succ] at hstep
  rw [Nat.mul_comm n s]
  omega

end Declared

section

variable (h : mount dev heap = (code, some (root, v)))
include h

theorem mount_sized_fits : v.Sized root ↔ Fits dev.bytes dev.totalSectors.toNat
    (clusterCount dev.bytes dev.totalSectors.toNat) := by
  obtain ⟨hsector, _, _, _, rfl, rfl⟩ := mount_volume h
  have hentries : (clusterCount dev.bytes dev.totalSectors.toNat + 2) * 4 ≤
      loadLe dev.bytes 36 4 * loadLe dev.bytes 11 2 ↔
      clusterCount dev.bytes dev.totalSectors.toNat + 2 ≤ loadLe dev.bytes 36 4 * 128 := by
    rw [hsector]
    omega
  constructor
  · exact fun hsized => ⟨hsized.data, hentries.mp hsized.entries, hsized.root⟩
  · exact fun hfits => ⟨Nat.le_refl _, hfits.data, hentries.mpr hfits.entries, hfits.root⟩

/-- The volume is sound if the clusters that the boot sector declares have a number of 32 bits and
fit. In the other two cases the number is cut to 32 bits or comes from a difference that wraps
around. There are none on a device with less than 2³² sectors and clusters of a power of two. -/
theorem mount_sized_iff :
    let boot := dev.bytes
    let sectors := dev.totalSectors.toNat
    (v.Sized root ↔
      dataStart boot ≤ declaredSectors boot sectors ∧ declaredClusters boot sectors < 2 ^ 32 ∧
          Fits boot sectors (declaredClusters boot sectors) ∨
        dataStart boot ≤ declaredSectors boot sectors ∧ 2 ^ 32 ≤ declaredClusters boot sectors ∧
          Fits boot sectors (declaredClusters boot sectors % 2 ^ 32) ∨
        declaredSectors boot sectors < dataStart boot ∧
          Fits boot sectors (wrappedClusters boot sectors)) ∧
    (sectors < 2 ^ 32 → loadLe boot 13 1 ∣ 2 ^ 32 →
      (v.Sized root ↔
        dataStart boot ≤ declaredSectors boot sectors ∧
          Fits boot sectors (declaredClusters boot sectors))) := by
  intro boot sectors
  have hfits := mount_sized_fits h
  have hsectors : sectors < 2 ^ 64 := dev.totalSectors.isLt
  constructor
  · rw [hfits]
    by_cases hstart : dataStart boot ≤ declaredSectors boot sectors
    · rw [clusterCount_behind hsectors hstart]
      by_cases hcount : declaredClusters boot sectors < 2 ^ 32
      · rw [Nat.mod_eq_of_lt hcount]
        refine ⟨fun hf => .inl ⟨hstart, hcount, hf⟩, ?_⟩
        rintro (⟨_, _, hf⟩ | ⟨_, hlarge, _⟩ | ⟨hwrap, _⟩)
        · exact hf
        · omega
        · omega
      · refine ⟨fun hf => .inr (.inl ⟨hstart, Nat.le_of_not_lt hcount, hf⟩), ?_⟩
        rintro (⟨_, hsmall, _⟩ | ⟨_, _, hf⟩ | ⟨hwrap, _⟩)
        · exact absurd hsmall hcount
        · exact hf
        · omega
    · rw [clusterCount_wrapped (Nat.lt_of_not_le hstart)]
      refine ⟨fun hf => .inr (.inr ⟨Nat.lt_of_not_le hstart, hf⟩), ?_⟩
      rintro (⟨hbehind, _⟩ | ⟨hbehind, _⟩ | ⟨_, hf⟩)
      · exact absurd hbehind hstart
      · exact absurd hbehind hstart
      · exact hf
  · intro hsmall hpower
    rw [hfits]
    by_cases hstart : dataStart boot ≤ declaredSectors boot sectors
    · have hcount : declaredClusters boot sectors < 2 ^ 32 := by
        have hfield := loadLe_lt boot 4 32
        have hdeclared : declaredSectors boot sectors < 2 ^ 32 := by
          unfold declaredSectors
          split
          · exact hfield
          · exact hsmall
        have hle :=
          Nat.div_le_self (declaredSectors boot sectors - dataStart boot) (loadLe boot 13 1)
        unfold declaredClusters
        omega
      rw [clusterCount_behind hsectors hstart, Nat.mod_eq_of_lt hcount]
      exact ⟨fun hf => ⟨hstart, hf⟩, And.right⟩
    · rw [clusterCount_wrapped (Nat.lt_of_not_le hstart)]
      refine ⟨fun hf => ?_, fun hf => absurd hf.1 hstart⟩
      have hbound := dataStart_lt boot
      have hlarge := wrapped_count_large (δ := dataStart boot - declaredSectors boot sectors)
        (by omega) (by omega) hpower
      have hdata : dataStart boot + wrappedClusters boot sectors * loadLe boot 13 1 ≤ sectors :=
        hf.data
      unfold wrappedClusters at hdata
      omega

end

/-- A boot sector with two tables of one sector each, on a device of seven sectors. -/
def bootDevice (declared : Nat) : BlockDevice where
  totalSectors := 7
  bytes := patch (patch
    (patch (patch (fun _ => 0) 11 [0, 2, 1, 1, 0, 2]) 32 (leBytes 4 declared ++ leBytes 4 1)) 44
    (leBytes 4 2)) 510 [0x55, 0xAA]

theorem bootDevice_sized : (mountedVolume (bootDevice 7) {}).Sized 0 := by
  have hmount : mount (bootDevice 7) {} = (0, some (0, mountedVolume (bootDevice 7) {})) := rfl
  exact (mount_sized_iff hmount).1.mpr
    (.inl ⟨by decide +kernel, by decide +kernel, by decide +kernel,
    by decide +kernel, by decide +kernel⟩)

/-- Fewer sectors are declared than the tables take, and the difference wraps around. -/
theorem bootDevice_wraps :
    mount (bootDevice 2) {} = (0, some (0, mountedVolume (bootDevice 2) {})) ∧
    ¬ (mountedVolume (bootDevice 2) {}).Sized 0 :=
  ⟨rfl, fun h => absurd h.data (by decide +kernel)⟩

end LlamaOS.Fs
