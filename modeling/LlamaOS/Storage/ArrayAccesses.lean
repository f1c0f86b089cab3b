import LlamaOS.Storage.Partitions

/-!
# Where the entries of the partition array are read

`parse_and_register` steps through the array by `sizeof(GptEntry)`, whatever the header says
about the size of an entry.
-/

namespace LlamaOS.Storage
open ByteBuffer GptEntry

namespace GptParser

variable {disk : BlockDevice} {header : GptHeader} {entries : Buffer}

def bufferBytes (header : GptHeader) : Nat := (entrySectors header).toNat * 512

/-- An access that takes the entry where the header puts it, inside the buffer. -/
def Access.Right (header : GptHeader) : Access → Prop
  | .crc length => length ≤ bufferBytes header
  | .entry index offset =>
    offset = index * header.sizeOfPartitionEntry.toNat ∧ offset + size ≤ bufferBytes header

/-- An access to an entry of an index below `n`, as an array of `GptEntry` has it. -/
def Access.Below (n : Nat) (a : Access) : Prop := ∃ k < n, a = .entry k (size * k)

theorem Access.Below.mono {n m : Nat} {a : Access} (h : a.Below n) (hle : n ≤ m) : a.Below m := by
  obtain ⟨k, hk, rfl⟩ := h
  exact ⟨k, by omega, rfl⟩

theorem readEntry_below (entries : Buffer) {i n : Nat} (hi : i < n) :
    (readEntry entries i).Only (Access.Below n) :=
  .record ⟨i, hi, rfl⟩

theorem overlapsEarlier_below (entries : Buffer) (e1 : GptEntry) (left j : Nat) :
    (overlapsEarlier entries e1 j left).Only (Access.Below (j + left)) := by
  induction left generalizing j with
  | zero => exact .pure
  | succ left ih =>
    have hrest := (ih (j + 1)).imp fun a ha => ha.mono (show j + 1 + left ≤ j + (left + 1) by omega)
    rw [overlapsEarlier]
    refine .bind (readEntry_below entries (by omega)) ?_
    split
    · exact hrest
    split
    · exact .pure
    · exact hrest

theorem checkEntries_below (header : GptHeader) (entries : Buffer) (left i : Nat) :
    (checkEntries header entries i left).Only (Access.Below (i + left)) := by
  induction left generalizing i with
  | zero => exact .pure
  | succ left ih =>
    have hrest := (ih (i + 1)).imp fun a ha => ha.mono (show i + 1 + left ≤ i + (left + 1) by omega)
    rw [checkEntries]
    refine .bind (readEntry_below entries (by omega)) ?_
    split
    · exact hrest
    split
    · exact .pure
    split
    · exact .pure
    refine .bind ((overlapsEarlier_below entries _ i 0).imp fun a ha => ha.mono (by omega)) ?_
    split
    · exact .pure
    · exact hrest

theorem registerEntries_below (disk : BlockDevice) (entries : Buffer)
    (left partitionCount i : Nat) :
    (registerEntries disk entries partitionCount i left).Only (Access.Below (i + left)) := by
  induction left generalizing partitionCount i with
  | zero => exact .pure
  | succ left ih =>
    have hrest :=
      fun c => (ih c (i + 1)).imp fun a ha => ha.mono (show i + 1 + left ≤ i + (left + 1) by omega)
    rw [registerEntries]
    split
    · exact .pure
    refine .bind (readEntry_below entries (by omega)) ?_
    split
    · exact hrest partitionCount
    · exact .bind (hrest (partitionCount + 1)) (.pure)

/-- A run that gets to the array: it is in memory, and the accesses are those of the check and of
the registration. -/
theorem parse_log {stack : Buffer} {alloc : Nat → Option Buffer} {partitionCount : Nat}
    {sectorBuf data : Buffer} (hread : disk.readSectors 1 1 = .ok sectorBuf)
    (hdata : disk.readSectors (GptHeader.load sectorBuf 0).partitionEntryLba
      (entrySectors (.load sectorBuf 0)) = .ok data)
    (hexamined : (parseAndRegister stack alloc disk partitionCount).log ≠ []) :
    ∃ heap, (entrySectors (.load sectorBuf 0) * 512).toNat ≠ 0 ∧
      (GptHeader.load sectorBuf 0).numberOfPartitionEntries ≠ 0 ∧
      (GptHeader.load sectorBuf 0).numberOfPartitionEntries ≤ 256 ∧
      128 ≤ (GptHeader.load sectorBuf 0).sizeOfPartitionEntry ∧
      let entries := arrayMemory (.load sectorBuf 0) data heap
      let check := validateGpt stack (.load sectorBuf 0) (some entries)
        (GptHeader.load sectorBuf 0).numberOfPartitionEntries.toNat disk.totalSectors
      (parseAndRegister stack alloc disk partitionCount).log = check.log ++
        if check.value ≠ .success then [] else (registerEntries disk entries partitionCount 0
          (GptHeader.load sectorBuf 0).numberOfPartitionEntries.toNat).log := by
  unfold parseAndRegister at hexamined ⊢
  rw [hread] at hexamined ⊢
  simp only at hexamined ⊢
  split at hexamined
  · exact absurd rfl hexamined
  rename_i hsignature
  rw [if_neg hsignature]
  split at hexamined
  · exact absurd rfl hexamined
  rename_i hnumbers
  rw [if_neg hnumbers]
  simp only [Bool.or_eq_true, decide_eq_true_iff, not_or, BitVec.not_lt] at hnumbers
  cases hheap : kmalloc alloc (entrySectors (GptHeader.load sectorBuf 0) * 512).toNat with
  | none =>
    rw [hheap] at hexamined
    exact absurd rfl hexamined
  | some heap =>
    simp only [hdata]
    refine ⟨heap, ?_, hnumbers.1.1, hnumbers.2, hnumbers.1.2, ?_⟩
    · intro hzero
      rw [kmalloc, if_pos hzero] at hheap
      cases hheap
    · rw [Logged.log_bind]
      split
      · rfl
      · rw [Logged.log_bind, Logged.log_pure, List.append_nil]

theorem arrayBytes_le (header : GptHeader) :
    (header.numberOfPartitionEntries * header.sizeOfPartitionEntry).toNat ≤ bufferBytes header := by
  rw [bufferBytes, entrySectors, BitVec.toNat_ofNat, Nat.mod_eq_of_lt (by omega)]
  omega

theorem bufferBytes_pos (h : (entrySectors header * 512).toNat ≠ 0) : 512 ≤ bufferBytes header := by
  have hsectors : (entrySectors header).toNat ≠ 0 := by
    intro hzero
    have heq : entrySectors header = 0 := BitVec.eq_of_toNat_eq hzero
    rw [heq] at h
    exact h rfl
  rw [bufferBytes]
  omega

theorem validateGpt_log (stack : Buffer) (header : GptHeader) (entries : Buffer)
    (total : BitVec 64) :
    let check := validateGpt stack header (some entries) header.numberOfPartitionEntries.toNat total
    let crc := Access.crc (header.numberOfPartitionEntries * header.sizeOfPartitionEntry).toNat
    let loop := checkEntries header entries 0 header.numberOfPartitionEntries.toNat
    (check.log = [] ∨ check.log = [crc]) ∧ check.value ≠ .success ∨
      check.log = crc :: loop.log ∧ check.value = loop.value := by
  intro check crc loop
  simp only [check, crc, loop]
  unfold validateGpt
  split
  · exact .inl ⟨.inl rfl, by simp⟩
  split
  · exact .inl ⟨.inl rfl, by simp⟩
  split
  · exact .inl ⟨.inl rfl, by simp⟩
  split
  · exact .inl ⟨.inl rfl, by simp⟩
  split
  · exact .inl ⟨.inl rfl, by simp⟩
  simp only
  rw [if_neg (Nat.lt_irrefl _), Logged.log_bind, Logged.value_bind]
  split
  · exact .inl ⟨.inr rfl, by simp⟩
  · exact .inr ⟨rfl, rfl⟩

theorem checkEntries_rejected {e : GptEntry} (he : entryAt entries 0 = e) (hused : e.isUsed = true)
    (hrange : ¬ e.InRange header) (left : Nat) :
    (checkEntries header entries 0 (left + 1)).log = [.entry 0 0] ∧
      (checkEntries header entries 0 (left + 1)).value ≠ .success := by
  subst he
  constructor
  · rw [checkEntries, log_readEntry_bind, if_neg (not_null_of_used hused)]
    rw [inRange_iff, Decidable.not_and_iff_not_or_not, not_not, not_not] at hrange
    split
    · rfl
    split
    · rfl
    · rename_i horder hbounds
      exact absurd hrange (not_or.mpr ⟨horder, hbounds⟩)
  · rw [Ne, checkEntries_succ]
    intro h
    exact hrange (h.1 hused).1

theorem checkEntries_second
    (hok : (entryAt entries 0).isUsed = true → (entryAt entries 0).InRange header) (left : Nat) :
    Access.entry 1 size ∈ (checkEntries header entries 0 (left + 2)).log := by
  have hnext : Access.entry 1 size ∈ (checkEntries header entries 1 (left + 1)).log := by
    rw [checkEntries, log_readEntry_bind, Nat.mul_one]
    exact List.mem_cons_self
  rw [checkEntries, log_readEntry_bind]
  apply List.mem_cons_of_mem
  split
  · exact hnext
  rename_i hnull
  have hused : (entryAt entries 0).isUsed = true := by
    rw [isUsed, Bool.not_eq_true']
    exact (Bool.not_eq_true _).mp hnull
  obtain ⟨horder, hbounds⟩ := (inRange_iff _).mp (hok hused)
  rw [if_neg horder, if_neg hbounds, Logged.log_bind]
  exact List.mem_append_right _ hnext

theorem entryAt_arrayMemory_zero {data heap : Buffer} (h : 512 ≤ bufferBytes header) :
    entryAt (arrayMemory header data heap) 0 = .load data 0 := by
  refine record.load_congr fun i hi => ?_
  rw [Nat.mul_zero, Nat.zero_add]
  exact if_pos (Nat.lt_of_lt_of_le (show i < 512 by omega) h)

theorem crc_right (header : GptHeader) :
    (Access.crc (header.numberOfPartitionEntries * header.sizeOfPartitionEntry).toNat).Right
      header := arrayBytes_le header

/-- With entries of 128 bytes the array is in the buffer and each entry where the header puts it. -/
theorem Access.Below.right {a : Access} (h : a.Below header.numberOfPartitionEntries.toNat)
    (hnum : header.numberOfPartitionEntries ≤ 256) (hsize : header.sizeOfPartitionEntry = 128) :
    a.Right header := by
  obtain ⟨k, hk, rfl⟩ := h
  have hsizeNat : header.sizeOfPartitionEntry.toNat = 128 := by rw [hsize]; rfl
  have hnumNat : header.numberOfPartitionEntries.toNat ≤ 256 := hnum
  have harray := arrayBytes_le header
  rw [BitVec.toNat_mul, hsizeNat, Nat.mod_eq_of_lt (by omega)] at harray
  refine ⟨?_, ?_⟩
  · rw [hsizeNat, Nat.mul_comm]
    rfl
  · rw [size]
    omega

theorem first_right (hpos : 512 ≤ bufferBytes header) : (Access.entry 0 0).Right header := by
  refine ⟨by rw [Nat.zero_mul], ?_⟩
  rw [size]
  omega

/-- A run that examines entries takes them from where the header puts them, inside the buffer,
exactly when the header's entries have the size of a `GptEntry` or only entry 0 is looked at. -/
theorem entry_accesses_iff {stack : Buffer} {alloc : Nat → Option Buffer} {partitionCount : Nat}
    {sectorBuf data : Buffer} (hread : disk.readSectors 1 1 = .ok sectorBuf)
    (hdata : disk.readSectors (GptHeader.load sectorBuf 0).partitionEntryLba
      (entrySectors (.load sectorBuf 0)) = .ok data)
    (hexamined : ∃ i offset, Access.entry i offset ∈
      (parseAndRegister stack alloc disk partitionCount).log) :
    let header := GptHeader.load sectorBuf 0
    (∀ a ∈ (parseAndRegister stack alloc disk partitionCount).log, a.Right header) ↔
      header.sizeOfPartitionEntry = 128 ∨ header.numberOfPartitionEntries = 1 ∨
        ((load data 0).isUsed = true ∧ ¬ (load data 0).InRange header) := by
  intro header
  obtain ⟨i, offset, hentry⟩ := hexamined
  obtain ⟨heap, hbuffer, hnum, hmax, hsize, hlog⟩ :=
    parse_log hread hdata (List.ne_nil_of_mem hentry)
  have hpos := bufferBytes_pos hbuffer
  have hfirst : entryAt (arrayMemory header data heap) 0 = .load data 0 :=
    entryAt_arrayMemory_zero hpos
  simp only at hlog
  obtain ⟨n, hn⟩ : ∃ n, header.numberOfPartitionEntries.toNat = n + 1 := by
    refine ⟨header.numberOfPartitionEntries.toNat - 1, ?_⟩
    have hne : header.numberOfPartitionEntries.toNat ≠ 0 := fun h => hnum (BitVec.eq_of_toNat_eq h)
    omega
  rcases validateGpt_log stack header (arrayMemory header data heap) disk.totalSectors with
    ⟨hstop, hfail⟩ | ⟨hgo, hvalue⟩
  · -- no entry was examined
    rw [if_pos hfail, List.append_nil] at hlog
    rw [hlog] at hentry
    rcases hstop with hstop | hstop
    · rw [hstop] at hentry
      cases hentry
    · rw [hstop, List.mem_singleton] at hentry
      cases hentry
  · rw [hgo, hvalue] at hlog
    constructor
    · intro hall
      by_contra hno
      simp only [not_or, not_and, not_not] at hno
      obtain ⟨hnot, hmany, hok⟩ := hno
      obtain ⟨m, rfl⟩ : ∃ m, n = m + 1 := by
        refine ⟨n - 1, ?_⟩
        have hne : n ≠ 0 := by
          rintro rfl
          exact hmany (BitVec.eq_of_toNat_eq hn)
        omega
      have hsecond :
          Access.entry 1 size ∈ (parseAndRegister stack alloc disk partitionCount).log := by
        rw [hlog, hn]
        apply List.mem_append_left
        apply List.mem_cons_of_mem
        exact checkEntries_second (by rw [hfirst]; exact hok) m
      have hright := (hall _ hsecond).1
      rw [Nat.one_mul] at hright
      exact hnot (BitVec.eq_of_toNat_eq hright.symm)
    · have hbelow : ∀ a ∈ (parseAndRegister stack alloc disk partitionCount).log,
          a = .crc (header.numberOfPartitionEntries * header.sizeOfPartitionEntry).toNat ∨
            a.Below header.numberOfPartitionEntries.toNat := by
        intro a ha
        rw [hlog] at ha
        rcases List.mem_append.mp ha with ha | ha
        · rcases List.mem_cons.mp ha with ha | ha
          · exact .inl ha
          · have hcheck := checkEntries_below header _ _ 0 a ha
            rw [Nat.zero_add] at hcheck
            exact .inr hcheck
        split at ha
        · cases ha
        · have hreg := registerEntries_below disk _ _ partitionCount 0 a ha
          rw [Nat.zero_add] at hreg
          exact .inr hreg
      rintro (h128 | hone | ⟨hused, hout⟩) a ha
      · rcases hbelow a ha with rfl | hlow
        · exact crc_right header
        · exact hlow.right hmax h128
      · rcases hbelow a ha with rfl | ⟨k, hk, rfl⟩
        · exact crc_right header
        have hk0 : k = 0 := by
          rw [hone] at hk
          exact Nat.lt_one_iff.mp hk
        rw [hk0]
        exact first_right hpos
      · obtain ⟨honly, hfail⟩ := checkEntries_rejected hfirst hused hout n
        rw [hn, if_pos hfail, honly, List.append_nil] at hlog
        rw [hlog] at ha
        rcases List.mem_cons.mp ha with rfl | ha
        · exact crc_right header
        · rw [List.mem_singleton.mp ha]
          exact first_right hpos

theorem sampleDisk_accesses : sampleHeader.sizeOfPartitionEntry = 128 ∧
    ∀ a ∈ (parseAndRegister (fun _ => 0) (fun _ => some fun _ => 0) sampleDisk 0).log, a.Right
      (.load (fun i => sampleContents (1 * 512 + i)) 0) := by
  have hread : sampleDisk.readSectors 1 1 = .ok fun i => sampleContents (1 * 512 + i) := rfl
  have hdata : sampleDisk.readSectors 2 1 = .ok fun i => sampleContents (2 * 512 + i) := rfl
  refine ⟨rfl, (entry_accesses_iff hread hdata ⟨0, 0, ?_⟩).mpr (.inl ?_)⟩
  · decide +kernel
  · decide +kernel

/-- A disk whose header declares two entries of 256 bytes. -/
def wideDisk : BlockDevice :=
  let header : GptHeader :=
    ⟨signature, 0x10000, 92, 1394440373, 0, 1, 7, 3, 6, 0x11, 2, 2, 256, 3967673912⟩
  let first : GptEntry := ⟨0xA2, 0x01, 3, 4, 0, 0⟩
  let second : GptEntry := ⟨0xA2, 0x02, 5, 6, 0, 0⟩
  .ofContents 8
    (patch (patch (patch (fun _ => 0) 512 header.bytes) 1024 first.bytes) (1024 + 256) second.bytes)

def wideHeader : GptHeader := match wideDisk.readSectors 1 1 with
  | .ok sectorBuf => .load sectorBuf 0
  | .error _ => sampleHeader

/-- The second entry is taken from inside the first, so its partition is not registered. -/
theorem wideDisk_misread :
    let run := parseAndRegister (fun _ => 0) (fun _ => some fun _ => 0) wideDisk 0
    run.value.1 = .success ∧ run.value.2.length = 1 ∧
      Access.entry 1 128 ∈ run.log ∧ ¬ (Access.entry 1 128).Right wideHeader := by
  have hrun :
      (parseAndRegister (fun _ => 0) (fun _ => some fun _ => 0) wideDisk 0).value.1 = .success ∧
      (parseAndRegister (fun _ => 0) (fun _ => some fun _ => 0) wideDisk 0).value.2.length = 1 ∧
      Access.entry 1 128 ∈ (parseAndRegister (fun _ => 0) (fun _ => some fun _ => 0) wideDisk
        0).log := by decide +kernel
  refine ⟨hrun.1, hrun.2.1, hrun.2.2, ?_⟩
  intro h
  have hsize : wideHeader.sizeOfPartitionEntry.toNat = 256 := by decide +kernel
  have hoffset := h.1
  rw [hsize] at hoffset
  exact absurd hoffset (by decide)

end GptParser

end LlamaOS.Storage
