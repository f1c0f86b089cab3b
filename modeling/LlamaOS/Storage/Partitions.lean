import LlamaOS.Storage.GptValidation

/-!
# Registered partitions stay apart

The partitions that `parse_and_register` makes lie in the usable range of their disk and share no
sector, and no transfer to one of them reaches a sector of another.
-/

namespace LlamaOS.Storage
open ByteBuffer GptHeader

namespace GptParser

variable {disk : BlockDevice} {entries : Buffer}

theorem registerEntries_indices (disk : BlockDevice) (entries : Buffer)
    (left partitionCount i : Nat) :
    ∃ ks : List Nat, (registerEntries disk entries partitionCount i left).value =
        ks.map (fun k => partitionOf disk k (entryAt entries k)) ∧ ks.Pairwise (· < ·) ∧
      ∀ k ∈ ks, i ≤ k ∧ k < i + left ∧ (entryAt entries k).isUsed = true := by
  induction left generalizing partitionCount i with
  | zero => exact ⟨[], rfl, .nil, fun k hk => by cases hk⟩
  | succ left ih =>
    rw [registerEntries]
    split
    · exact ⟨[], rfl, .nil, fun k hk => by cases hk⟩
    rw [value_readEntry_bind]
    split
    · obtain ⟨ks, hvalue, hsorted, hks⟩ := ih partitionCount (i + 1)
      refine ⟨ks, hvalue, hsorted, fun k hk => ?_⟩
      obtain ⟨hlo, hhi, hused⟩ := hks k hk
      exact ⟨by omega, by omega, hused⟩
    rename_i hnull
    obtain ⟨ks, hvalue, hsorted, hks⟩ := ih (partitionCount + 1) (i + 1)
    refine ⟨i :: ks, ?_, ?_, ?_⟩
    · rw [Logged.value_bind, hvalue]
      rfl
    · refine List.pairwise_cons.mpr ⟨fun k hk => ?_, hsorted⟩
      have hlo := (hks k hk).1
      omega
    · intro k hk
      rcases List.mem_cons.mp hk with rfl | hk
      · refine ⟨Nat.le_refl k, by omega, ?_⟩
        rw [GptEntry.isUsed, Bool.not_eq_true']
        exact Bool.not_eq_true _ ▸ hnull
      · obtain ⟨hlo, hhi, hused⟩ := hks k hk
        exact ⟨by omega, by omega, hused⟩

variable {stack sectorBuf : Buffer}

/-- A run that ends well has read a valid header and array, and registered from that array. -/
theorem parse_success {alloc : Nat → Option Buffer} {partitionCount : Nat}
    (hread : disk.readSectors 1 1 = .ok sectorBuf)
    (hok : (parseAndRegister stack alloc disk partitionCount).value.1 = .success) :
    ∃ entries, Valid stack (.load sectorBuf 0) entries disk.totalSectors ∧
      (parseAndRegister stack alloc disk partitionCount).value.2 =
        (registerEntries disk entries partitionCount 0
          (load sectorBuf 0).numberOfPartitionEntries.toNat).value := by
  unfold parseAndRegister at hok ⊢
  rw [hread] at hok ⊢
  simp only at hok ⊢
  split at hok
  · cases hok
  rename_i hsignature
  rw [if_neg hsignature]
  split at hok
  · cases hok
  rename_i hnumbers
  rw [if_neg hnumbers]
  cases hheap : kmalloc alloc (entrySectors (load sectorBuf 0) * 512).toNat with
  | none =>
    rw [hheap] at hok
    cases hok
  | some heap =>
    rw [hheap] at hok
    cases hdata :
        disk.readSectors (load sectorBuf 0).partitionEntryLba (entrySectors (load sectorBuf 0)) with
    | error status =>
      rw [hdata] at hok
      cases hok
    | ok data =>
      rw [hdata] at hok
      simp only [Logged.value_bind] at hok ⊢
      split at hok
      · rename_i hstatus
        simp only [Logged.value_pure] at hok
        exact absurd hok hstatus
      rename_i hstatus
      rw [if_neg hstatus]
      refine ⟨arrayMemory (.load sectorBuf 0) data heap, ?_, rfl⟩
      exact (validateGpt_success_iff (Nat.le_refl _)).mp (not_not.mp hstatus)

variable {header : GptHeader} {e : GptEntry} {total : BitVec 64}

/-- The sectors of a partition made from an accepted entry are those of the entry. -/
theorem partitionOf_span (hrange : e.InRange header) (htotal : header.lastUsableLba < total)
    (k : Nat) :
    (partitionOf disk k e).startLba.toNat + (partitionOf disk k e).sectorCount.toNat =
      e.endingLba.toNat + 1 := by
  obtain ⟨horder, hfirst, hlast⟩ := hrange
  have hend : e.endingLba.toNat < total.toNat := by
    rw [BitVec.le_def] at hlast
    rw [BitVec.lt_def] at htotal
    omega
  rw [BitVec.le_def] at horder
  have hdiff : (e.endingLba - e.startingLba).toNat = e.endingLba.toNat - e.startingLba.toNat :=
    BitVec.toNat_sub_of_le (BitVec.le_def.mpr horder)
  change e.startingLba.toNat + (e.endingLba - e.startingLba + 1).toNat = _
  have hone : (1 : BitVec 64).toNat = 1 := rfl
  rw [BitVec.toNat_add, hdiff, hone, Nat.mod_eq_of_lt (by omega)]
  omega

theorem partitionOf_apart {e' : GptEntry} (hrange : e.InRange header) (hrange' : e'.InRange header)
    (htotal : header.lastUsableLba < total) (hapart : e'.Apart e) (k k' sector : Nat) :
    ¬ ((partitionOf disk k e).Holds sector ∧ (partitionOf disk k' e').Holds sector) := by
  rintro ⟨⟨hlo, hhi⟩, hlo', hhi'⟩
  rw [partitionOf_span hrange htotal] at hhi
  rw [partitionOf_span hrange' htotal] at hhi'
  change e.startingLba.toNat ≤ sector at hlo
  change e'.startingLba.toNat ≤ sector at hlo'
  rcases hapart with hbefore | hbefore
  · rw [BitVec.lt_def] at hbefore
    omega
  · rw [BitVec.lt_def] at hbefore
    omega

/-- A disk that can be read at the header's sector has a size the check compares with. -/
theorem Valid.last_lt (h : Valid stack header entries disk.totalSectors)
    (hread : disk.readSectors 1 1 = .ok sectorBuf) : header.lastUsableLba < disk.totalSectors := by
  refine h.usable.2.resolve_left fun hzero => ?_
  have hinside := disk.read_inside hread (by decide)
  rw [hzero] at hinside
  exact absurd hinside (by decide)

/-- Partitions of one disk lie inside it and inside the usable range, share no sector, and pass no
transfer to the disk but to their own sectors. -/
theorem registered_partitions_confined {stack : Buffer} {alloc : Nat → Option Buffer}
    {partitionCount : Nat} {sectorBuf : Buffer} (hread : disk.readSectors 1 1 = .ok sectorBuf)
    (hok : (parseAndRegister stack alloc disk partitionCount).value.1 = .success) :
    let header := load sectorBuf 0
    let parts := (parseAndRegister stack alloc disk partitionCount).value.2
    (∀ p ∈ parts, p.parent = some disk ∧ header.firstUsableLba ≤ p.startLba ∧
      p.startLba.toNat + p.sectorCount.toNat ≤ header.lastUsableLba.toNat + 1 ∧
      p.startLba.toNat + p.sectorCount.toNat ≤ disk.totalSectors.toNat) ∧
    parts.Pairwise (fun p q => ∀ sector, ¬ (p.Holds sector ∧ q.Holds sector)) ∧
    (∀ p ∈ parts, ∀ (call : Partition.Call), ∀ t ∈ (call.run p).2, ∀ sector, t.Touches sector →
      (p.startLba.toNat + call.lba.toNat ≤ sector ∧
        sector < p.startLba.toNat + call.lba.toNat + call.count.toNat) ∧ p.Holds sector) ∧
    parts.Pairwise (fun p q => ∀ (call call' : Partition.Call), ∀ t ∈ (call.run p).2,
      ∀ t' ∈ (call'.run q).2, ∀ sector, ¬ (t.Touches sector ∧ t'.Touches sector)) := by
  intro header parts
  obtain ⟨entries, hvalid, hparts⟩ := parse_success hread hok
  have hlast := hvalid.last_lt hread
  obtain ⟨ks, hks, hsorted, hmem⟩ :=
    registerEntries_indices disk entries header.numberOfPartitionEntries.toNat partitionCount 0
  have hmap : parts = ks.map (fun k => partitionOf disk k (entryAt entries k)) := hparts.trans hks
  have hentry : ∀ k ∈ ks, (entryAt entries k).InRange header ∧
      ∀ j < k, (entryAt entries j).isUsed = true →
        (entryAt entries k).Apart (entryAt entries j) := by
    intro k hk
    obtain ⟨_, hlt, hused⟩ := hmem k hk
    rw [Nat.zero_add] at hlt
    exact hvalid.entry k hlt hused
  have hlastNat : header.lastUsableLba.toNat < disk.totalSectors.toNat := hlast
  have hinside : ∀ p ∈ parts, p.parent = some disk ∧ header.firstUsableLba ≤ p.startLba ∧
      p.startLba.toNat + p.sectorCount.toNat ≤ header.lastUsableLba.toNat + 1 := by
    intro p hp
    rw [hmap] at hp
    obtain ⟨k, hk, rfl⟩ := List.mem_map.mp hp
    obtain ⟨hrange, _⟩ := hentry k hk
    refine ⟨rfl, hrange.2.1, ?_⟩
    rw [partitionOf_span hrange hlast]
    have hlastNat := hrange.2.2
    rw [BitVec.le_def] at hlastNat
    omega
  have hend : ∀ p ∈ parts, p.startLba.toNat + p.sectorCount.toNat ≤ 2 ^ 64 := by
    intro p hp
    have hbound := (hinside p hp).2.2
    omega
  have hconfined : ∀ p ∈ parts, ∀ (call : Partition.Call), ∀ t ∈ (call.run p).2, ∀ sector,
      t.Touches sector → (p.startLba.toNat + call.lba.toNat ≤ sector ∧
        sector < p.startLba.toNat + call.lba.toNat + call.count.toNat) ∧ p.Holds sector :=
    fun p hp call t ht sector hsector => Partition.Call.confined (hend p hp) call ht hsector
  have hapart : parts.Pairwise (fun p q => ∀ sector, ¬ (p.Holds sector ∧ q.Holds sector)) := by
    rw [hmap, List.pairwise_map]
    refine List.Pairwise.imp_of_mem (fun {j k} hj hk hlt sector => ?_) hsorted
    exact partitionOf_apart (hentry j hj).1 (hentry k hk).1 hlast
      ((hentry k hk).2 j hlt (hmem j hj).2.2) j k sector
  refine ⟨?_, hapart, hconfined, ?_⟩
  · intro p hp
    obtain ⟨hparent, hfirst, hspan⟩ := hinside p hp
    exact ⟨hparent, hfirst, hspan, by omega⟩
  · refine List.Pairwise.imp_of_mem
      (fun {p q} hp hq hshare call call' t ht t' ht' sector htouch => ?_) hapart
    exact hshare sector ⟨(hconfined p hp call t ht sector htouch.1).2,
      (hconfined q hq call' t' ht' sector htouch.2).2⟩

/-- Two partitions, of the sectors 3 and 4 and of the sectors 5 and 6, on a disk of eight
sectors. -/
def sampleEntries : List GptEntry := [⟨0xA2, 0x01, 3, 4, 0, 0⟩, ⟨0xA2, 0x02, 5, 6, 0, 0⟩]

def sampleHeader : GptHeader :=
  ⟨signature, 0x10000, 92, 3313980035, 0, 1, 7, 3, 6, 0x11, 2, 2, 128, 3596488616⟩

def sampleContents : Buffer :=
  patch (patch (fun _ => 0) 512 sampleHeader.bytes) 1024 (sampleEntries.flatMap GptEntry.bytes)

def sampleDisk : BlockDevice := .ofContents 8 sampleContents

/-- A write to the second sector of each partition goes to sectors 4 and 6. -/
theorem sampleDisk_confined :
    let parts := (parseAndRegister (fun _ => 0) (fun _ => some fun _ => 0) sampleDisk 0).value.2
    (parts.map fun p => ((Partition.Call.write 1 1 true).run p).2) =
      [[⟨true, 4, 1⟩], [⟨true, 6, 1⟩]] ∧
      (∀ p ∈ parts, ∀ t ∈ ((Partition.Call.write 1 1 true).run p).2, ∀ sector, t.Touches sector →
        p.Holds sector) ∧
      parts.Pairwise (fun p q => ∀ sector, ¬ (p.Holds sector ∧ q.Holds sector)) ∧
      ∀ p ∈ parts, p.startLba.toNat + p.sectorCount.toNat ≤ 8 := by
  intro parts
  have hread : sampleDisk.readSectors 1 1 = .ok fun i => sampleContents (1 * 512 + i) := rfl
  have hok : (parseAndRegister (fun _ => 0) (fun _ => some fun _ => 0) sampleDisk 0).value.1 =
      .success := by
    decide +kernel
  have hcalls : (parts.map fun p => ((Partition.Call.write 1 1 true).run p).2) =
      [[⟨true, 4, 1⟩], [⟨true, 6, 1⟩]] := by decide +kernel
  obtain ⟨hinside, hapart, hconfined, _⟩ := registered_partitions_confined hread hok
  refine ⟨hcalls, ?_, hapart, ?_⟩
  · intro p hp t ht sector htouch
    exact (hconfined p hp (.write 1 1 true) t ht sector htouch).2
  · intro p hp
    have hsize : sampleDisk.totalSectors.toNat = 8 := rfl
    have hend := (hinside p hp).2.2.2
    rw [hsize] at hend
    exact hend

end GptParser

end LlamaOS.Storage
