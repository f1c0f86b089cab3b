import LlamaOS.Fs.Fat32
import LlamaOS.Shared.BlockChain
import Mathlib.Data.List.Perm.Subperm

/-!
# The volume behind the driver

The file allocation table and the clusters as functions of the device's contents, and the
driver's primitives as updates of these contents, for a device and a heap that do not fail.
-/

namespace LlamaOS.Fs
open ByteBuffer BlockChain

namespace Geometry

/-- The layout that `mount` computes, from fields of the boot sector of these widths. -/
structure Accepted (g : Geometry) : Prop where
  sector : g.bytesPerSector = 512
  cluster : 0 < g.sectorsPerCluster ∧ g.sectorsPerCluster < 2 ^ 8
  reserved : g.fatBeginLba < 2 ^ 16
  copies : 0 < g.numFats ∧ g.numFats < 2 ^ 8
  table : 0 < g.tableSize32 ∧ g.tableSize32 < 2 ^ 32
  begins : g.clusterBeginLba = g.fatBeginLba + g.numFats * g.tableSize32
  total : g.totalClusters < 2 ^ 32

/-- The table has an entry for every cluster. -/
structure Valid (g : Geometry) : Prop extends Accepted g where
  covers : g.totalClusters + 2 ≤ g.tableSize32 * 128
  range : g.totalClusters + 2 ≤ fat32EocMin

def Usable (g : Geometry) (c : Nat) : Prop := 2 ≤ c ∧ c < g.totalClusters + 2

theorem mem_range_iff_usable {g : Geometry} {c : Nat} :
    c ∈ List.range' 2 g.totalClusters ↔ g.Usable c := by
  rw [List.mem_range'_1, Usable, Nat.add_comm]

section Clusters

variable {g : Geometry} {cs : List Nat} (hnodup : cs.Nodup) (h : ∀ c ∈ cs, g.Usable c)
include hnodup h

theorem usable_subperm : cs.Subperm (List.range' 2 g.totalClusters) :=
  List.subperm_of_subset hnodup fun c hc => mem_range_iff_usable.mpr (h c hc)

theorem usable_length_le : cs.length ≤ g.totalClusters := by
  have hle := (usable_subperm hnodup h).length_le
  rwa [List.length_range'] at hle

end Clusters

/-- The entry of cluster `c` in copy `f` of the table. -/
def fatAddr (g : Geometry) (f c : Nat) : Nat := (g.fatBeginLba + f * g.tableSize32) * 512 + c * 4

def clusterAddr (g : Geometry) (c : Nat) : Nat := g.clusterToLba c * 512

def fatWord (g : Geometry) (d : Buffer) (f c : Nat) : Nat := loadLe d (g.fatAddr f c) 4

def fatEntry (g : Geometry) (d : Buffer) (c : Nat) : Nat := g.fatWord d 0 c % 2 ^ 28

/-- The volume as a store of blocks. -/
def view (g : Geometry) (d : Buffer) : Store (BitVec 8) :=
  ⟨g.fatEntry d, fun c i => d (g.clusterAddr c + i)⟩

/-- An entry keeps its upper four bits. -/
def mergeEntry (orig value : Nat) : Nat := (orig &&& 0xF0000000) ||| (value &&& 0x0FFFFFFF)

def setFatCopy (g : Geometry) (c value f : Nat) (d : Buffer) : Buffer :=
  patch d (g.fatAddr f c) (leBytes 4 (mergeEntry (g.fatWord d f c) value))

/-- The entry of `c` set in the copies `copies`. -/
def setFatIn (g : Geometry) (c value : Nat) (copies : List Nat) (d : Buffer) : Buffer :=
  copies.foldl (fun d f => g.setFatCopy c value f d) d

def setFat (g : Geometry) (c value : Nat) (d : Buffer) : Buffer :=
  g.setFatIn c value (List.range g.numFats) d

def setCluster (g : Geometry) (c : Nat) (buf d : Buffer) : Buffer :=
  fun a => if g.clusterAddr c ≤ a ∧ a < g.clusterAddr c + g.bytesPerCluster then
    buf (a - g.clusterAddr c) else d a

/-- All copies of the table have the same entries. -/
def CopiesEqual (g : Geometry) (d : Buffer) : Prop :=
  ∀ f < g.numFats, ∀ c < g.totalClusters + 2, g.fatWord d f c = g.fatWord d 0 c

theorem mergeEntry_mod (orig value : Nat) : mergeEntry orig value % 2 ^ 28 = value % 2 ^ 28 := by
  rw [mergeEntry, Nat.or_mod_two_pow, Nat.and_mod_two_pow, Nat.and_mod_two_pow,
    show 0xF0000000 % 2 ^ 28 = 0 by decide, Nat.and_zero, Nat.zero_or,
    show 0x0FFFFFFF % 2 ^ 28 = 2 ^ 28 - 1 by decide, Nat.and_two_pow_sub_one_eq_mod, Nat.mod_mod]

theorem mergeEntry_div {orig : Nat} (horig : orig < 2 ^ 32) (value : Nat) :
    mergeEntry orig value / 2 ^ 28 = orig / 2 ^ 28 := by
  have hlow : (value &&& 0x0FFFFFFF) / 2 ^ 28 = 0 :=
    Nat.div_eq_of_lt (Nat.lt_of_le_of_lt Nat.and_le_right (by decide))
  rw [mergeEntry, Nat.or_div_two_pow, hlow, Nat.or_zero, Nat.and_div_two_pow,
    show 0xF0000000 / 2 ^ 28 = 2 ^ 4 - 1 by decide, Nat.and_two_pow_sub_one_eq_mod]
  exact Nat.mod_eq_of_lt (by omega)

theorem mergeEntry_lt (orig value : Nat) : mergeEntry orig value < 2 ^ 32 := by
  apply Nat.or_lt_two_pow
  · exact Nat.lt_of_le_of_lt Nat.and_le_right (by decide)
  · exact Nat.lt_of_le_of_lt Nat.and_le_right (by decide)

variable {g : Geometry}

theorem Valid.size (hg : g.Valid) : g.bytesPerCluster = g.sectorsPerCluster * 512 := by
  rw [bytesPerCluster, hg.sector]

theorem Valid.size_pos (hg : g.Valid) : 0 < g.bytesPerCluster := by
  rw [hg.size]
  exact Nat.mul_pos hg.cluster.1 (by decide)

variable {f c : Nat}

/-- The entry of a cluster lies before the cluster, also behind the end of the table. -/
theorem Accepted.entry_before (hg : g.Accepted) (hc : 2 ≤ c) :
    g.fatBeginLba + c * 4 / 512 < g.clusterToLba c := by
  have htable : 0 < g.numFats * g.tableSize32 := Nat.mul_pos hg.copies.1 hg.table.1
  have hoffset : c - 2 ≤ (c - 2) * g.sectorsPerCluster := Nat.le_mul_of_pos_right _ hg.cluster.1
  rw [clusterToLba, if_neg (by omega), hg.begins]
  omega

theorem Accepted.clusterToLba_lt (hg : g.Accepted) (hc : c < fat32EocMin) :
    g.clusterToLba c < 2 ^ 64 := by
  have htable : g.numFats * g.tableSize32 < 2 ^ 8 * 2 ^ 32 :=
    Nat.mul_lt_mul'' hg.copies.2 hg.table.2
  have hoffset : (c - 2) * g.sectorsPerCluster ≤ 2 ^ 28 * 2 ^ 8 := by
    apply Nat.mul_le_mul _ (Nat.le_of_lt hg.cluster.2)
    simp only [fat32EocMin] at hc
    omega
  have hreserved := hg.reserved
  unfold clusterToLba
  rw [hg.begins]
  split
  · omega
  · omega

theorem fatAddr_end (hc : c < g.tableSize32 * 128) :
    g.fatAddr f c + 4 ≤ (g.fatBeginLba + (f + 1) * g.tableSize32) * 512 := by
  rw [fatAddr, Nat.succ_mul]
  omega

variable {f' c' : Nat}

theorem fatAddr_disjoint (hc : c < g.tableSize32 * 128) (hc' : c' < g.tableSize32 * 128)
    (hne : f ≠ f' ∨ c ≠ c') :
    g.fatAddr f c + 4 ≤ g.fatAddr f' c' ∨ g.fatAddr f' c' + 4 ≤ g.fatAddr f c := by
  have hend := fatAddr_end (g := g) (f := f) hc
  have hend' := fatAddr_end (g := g) (f := f') hc'
  have hstart : (g.fatBeginLba + f * g.tableSize32) * 512 ≤ g.fatAddr f c := Nat.le_add_right _ _
  have hstart' : (g.fatBeginLba + f' * g.tableSize32) * 512 ≤ g.fatAddr f' c' :=
    Nat.le_add_right _ _
  rcases Nat.lt_trichotomy f f' with hlt | heq | hgt
  · have hle : (f + 1) * g.tableSize32 ≤ f' * g.tableSize32 := Nat.mul_le_mul_right _ hlt
    omega
  · subst heq
    simp only [fatAddr]
    omega
  · have hle : (f' + 1) * g.tableSize32 ≤ f * g.tableSize32 := Nat.mul_le_mul_right _ hgt
    omega

theorem fatAddr_before (hg : g.Valid) (c' : Nat) (hf : f < g.numFats)
    (hc : c < g.tableSize32 * 128) : g.fatAddr f c + 4 ≤ g.clusterAddr c' := by
  have hend := fatAddr_end (g := g) (f := f) hc
  have hle := Nat.mul_le_mul_right g.tableSize32 (Nat.succ_le_of_lt hf)
  have hbegin : g.clusterBeginLba * 512 ≤ g.clusterAddr c' := by
    unfold clusterAddr clusterToLba
    split
    · exact Nat.le_refl _
    · omega
  have hbegins := hg.begins
  simp only [Nat.succ_eq_add_one] at hle
  omega

theorem clusterAddr_eq (hg : g.Valid) (hc : 2 ≤ c) :
    g.clusterAddr c = g.clusterBeginLba * 512 + (c - 2) * g.bytesPerCluster := by
  rw [clusterAddr, clusterToLba, if_neg (by omega), hg.size, Nat.add_mul, Nat.mul_assoc]

theorem clusterAddr_disjoint (hg : g.Valid) (hc : 2 ≤ c) (hc' : 2 ≤ c') (hne : c ≠ c') :
    g.clusterAddr c + g.bytesPerCluster ≤ g.clusterAddr c' ∨
      g.clusterAddr c' + g.bytesPerCluster ≤ g.clusterAddr c := by
  rw [clusterAddr_eq hg hc, clusterAddr_eq hg hc']
  rcases Nat.lt_or_gt_of_ne hne with hlt | hgt
  · have hle := Nat.mul_le_mul_right g.bytesPerCluster (show c - 2 + 1 ≤ c' - 2 by omega)
    rw [Nat.succ_mul] at hle
    omega
  · have hle := Nat.mul_le_mul_right g.bytesPerCluster (show c' - 2 + 1 ≤ c - 2 by omega)
    rw [Nat.succ_mul] at hle
    omega

variable {value : Nat}

theorem fatWord_setFatCopy (d : Buffer) (hc : c < g.tableSize32 * 128)
    (hc' : c' < g.tableSize32 * 128) :
    g.fatWord (g.setFatCopy c value f d) f' c' =
      if f' = f ∧ c' = c then mergeEntry (g.fatWord d f c) value else g.fatWord d f' c' := by
  split
  · rename_i h
    rw [h.1, h.2, fatWord, setFatCopy, loadLe_patch_self]
    exact Nat.mod_eq_of_lt (mergeEntry_lt _ _)
  rename_i h
  apply loadLe_patch_of_disjoint
  apply fatAddr_disjoint hc' hc
  by_contra hboth
  simp only [not_or, not_not] at hboth
  exact h hboth

variable {copies : List Nat}

theorem fatWord_setFatIn (hc : c < g.tableSize32 * 128) (hc' : c' < g.tableSize32 * 128)
    (hnodup : copies.Nodup) (d : Buffer) :
    g.fatWord (g.setFatIn c value copies d) f' c' =
      if f' ∈ copies ∧ c' = c then mergeEntry (g.fatWord d f' c) value else g.fatWord d f' c' := by
  induction copies generalizing d with
  | nil => simp [setFatIn]
  | cons f copies ih =>
    rw [List.nodup_cons] at hnodup
    have hstep : g.setFatIn c value (f :: copies) d = g.setFatIn c value copies
      (g.setFatCopy c value f d) := rfl
    rw [hstep, ih hnodup.2, fatWord_setFatCopy d hc hc, fatWord_setFatCopy d hc hc']
    by_cases hf : f' = f
    · simp [hf, hnodup.1]
    · simp [hf]

theorem fatWord_setFat (hc : c < g.tableSize32 * 128) (hc' : c' < g.tableSize32 * 128)
    (hf : f' < g.numFats) (d : Buffer) :
    g.fatWord (g.setFat c value d) f' c' =
      if c' = c then mergeEntry (g.fatWord d f' c) value else g.fatWord d f' c' := by
  rw [setFat, fatWord_setFatIn hc hc' List.nodup_range d]
  simp only [List.mem_range, hf, true_and]

theorem setFatIn_outside {a : Nat} (ha : ∀ f ∈ copies, a < g.fatAddr f c ∨ g.fatAddr f c + 4 ≤ a)
    (d : Buffer) :
    g.setFatIn c value copies d a = d a := by
  induction copies generalizing d with
  | nil => rfl
  | cons f copies ih =>
    have hstep : g.setFatIn c value (f :: copies) d = g.setFatIn c value copies
      (g.setFatCopy c value f d) := rfl
    rw [hstep, ih fun f hf => ha f (List.mem_cons_of_mem _ hf), setFatCopy]
    apply patch_outside
    rw [leBytes_length]
    exact ha f List.mem_cons_self

theorem setFat_outside (hc : c < g.tableSize32 * 128) {a : Nat}
    (ha : a < g.fatBeginLba * 512 ∨ (g.fatBeginLba + g.numFats * g.tableSize32) * 512 ≤ a)
    (d : Buffer) :
    g.setFat c value d a = d a := by
  apply setFatIn_outside
  intro f hf
  have hend := fatAddr_end (g := g) (f := f) hc
  have hstart : (g.fatBeginLba + f * g.tableSize32) * 512 ≤ g.fatAddr f c := Nat.le_add_right _ _
  have hle := Nat.mul_le_mul_right g.tableSize32 (Nat.succ_le_of_lt (List.mem_range.mp hf))
  rw [Nat.succ_eq_add_one] at hle
  omega

section

variable (hg : g.Valid)
include hg

section

variable (hc : c < g.totalClusters + 2)
include hc

theorem fatEntry_setFat (hc' : c' < g.totalClusters + 2)
    (d : Buffer) :
    g.fatEntry (g.setFat c value d) c' = if c' = c then value % 2 ^ 28 else g.fatEntry d c' := by
  have hcovers := hg.covers
  rw [fatEntry, fatWord_setFat (by omega) (by omega) hg.copies.1 d]
  split
  · exact mergeEntry_mod _ _
  · rfl

theorem setFat_data (d : Buffer) (c' i : Nat) :
    (g.view (g.setFat c value d)).data c' i = (g.view d).data c' i := by
  have hcovers := hg.covers
  apply setFatIn_outside
  intro f hf
  have hbefore :=
    fatAddr_before hg c' (List.mem_range.mp hf) (show c < g.tableSize32 * 128 by omega)
  omega

end

theorem fatWord_setCluster (buf d : Buffer) (hf : f < g.numFats) (hc' : c' < g.totalClusters + 2) :
    g.fatWord (g.setCluster c buf d) f c' = g.fatWord d f c' := by
  have hcovers := hg.covers
  have hbefore := fatAddr_before hg c hf (show c' < g.tableSize32 * 128 by omega)
  apply loadLe_congr
  intro i hi
  exact if_neg (by omega)

theorem fatEntry_setCluster (buf d : Buffer) (hc' : c' < g.totalClusters + 2) :
    g.fatEntry (g.setCluster c buf d) c' = g.fatEntry d c' := by
  rw [fatEntry, fatWord_setCluster hg buf d hg.copies.1 hc', fatEntry]

end

variable {i : Nat}

theorem setCluster_data_self (c : Nat) (buf d : Buffer) (hi : i < g.bytesPerCluster) :
    (g.view (g.setCluster c buf d)).data c i = buf i := by
  change (if _ then _ else _) = _
  rw [if_pos (by omega), Nat.add_sub_cancel_left]

theorem setCluster_data_of_ne (hg : g.Valid) (buf d : Buffer) (hc : 2 ≤ c) (hc' : 2 ≤ c')
    (hne : c' ≠ c) (hi : i < g.bytesPerCluster) :
    (g.view (g.setCluster c buf d)).data c' i = (g.view d).data c' i := by
  have hdisjoint := clusterAddr_disjoint hg hc' hc hne
  change (if _ then _ else _) = _
  rw [if_neg (by omega)]
  rfl

variable {d : Buffer}

theorem CopiesEqual.setFat (hg : g.Valid) (h : g.CopiesEqual d) (hc : c < g.totalClusters + 2)
    (value : Nat) : g.CopiesEqual (g.setFat c value d) := by
  have hcovers := hg.covers
  intro f hf c' hc'
  rw [fatWord_setFat (by omega) (by omega) hf, fatWord_setFat (by omega) (by omega) hg.copies.1,
    h f hf c' hc', h f hf c hc]

theorem CopiesEqual.setCluster (hg : g.Valid) (h : g.CopiesEqual d) (c : Nat) (buf : Buffer) :
    g.CopiesEqual (g.setCluster c buf d) := by
  intro f hf c' hc'
  rw [fatWord_setCluster hg buf d hf hc', fatWord_setCluster hg buf d hg.copies.1 hc',
    h f hf c' hc']

end Geometry

end LlamaOS.Fs
