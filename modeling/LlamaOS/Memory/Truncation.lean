import LlamaOS.Boot.FirmwareMap
import LlamaOS.Memory.HandedOut

/-!
# Firmware maps that do not fit

The boot table holds 64 entries and `init` ignores `mmap_truncated`. A reservation
that was not kept protects nothing: the frames below it can be handed out when a
kept available entry covers them.
-/

namespace LlamaOS.Memory
open Boot PhysicalMemoryManager

/-- `e` is lost on the way to the tracker's table: not stored by the parser, or ending where
its end cannot be rounded up. -/
def Lost (fw : List MemoryMapEntry) (e : MemoryMapEntry) : Prop :=
  e ∉ kept fw ∨ lastPage < e.baseAddr + e.length

/-- No lost reservation shares a byte with a kept available entry. -/
def LossHarmless (fw : List MemoryMapEntry) : Prop :=
  ∀ e ∈ fw, ¬ e.IsAvailable → Lost fw e →
    ∀ r ∈ kept fw, r.IsAvailable → ∀ a, ¬ (e.Contains a ∧ r.Contains a)

theorem entries_ne_nil {entries : List MemoryMapEntry} (h : maxUsableAddr entries ≠ 0) :
    entries ≠ [] := by
  rintro rfl
  exact h rfl

/-- Where every lost reservation is harmless, no frame ever handed out overlaps a reservation of
the firmware's own map. -/
theorem handedOut_avoids_firmware {mem : Memory} {magic infoAddr : Nat} {args : BootArgs}
    (hparse : parse mem magic infoAddr = some args.bootInfo) (hvalid : args.bootInfo.valid = true)
    (hloss : LossHarmless (firmwareMap mem infoAddr)) {p₀ p : PhysicalMemoryManager}
    (hinit : p₀.init args args.tracker = some (true, p)) (ops : List PmmOp) (op : PmmOp) {f : Nat}
    (hf : f ∈ (p.run ops).handedOut op) {e : MemoryMapEntry} (he : e ∈ firmwareMap mem infoAddr)
    (hres : ¬ e.IsAvailable) {a : Nat} (hlo : f * 4096 ≤ a) (hhi : a < f * 4096 + 4096) :
    ¬ e.Contains a := by
  have h := consistent_run hinit ops
  have hkept : args.entries = kept (firmwareMap mem infoAddr) :=
    (parse_mmapEntries hparse hvalid).resolve_left (entries_ne_nil h.usable)
  obtain ⟨hlt, hclear⟩ :=
    (consistent_kept args).handedOut_clear (l := Ledger.start (p.run ops)) h hf
  have hav := h.clear f hlt hclear
  by_cases hlost : Lost (firmwareMap mem infoAddr) e
  · obtain ⟨r, hr, hravail, hra⟩ := available_page_inside h.usable hav hlo hhi
    rw [hkept] at hr
    exact fun hea => hloss e he hres hlost r hr hravail a ⟨hea, hra⟩
  · simp only [Lost, not_or, not_not, Nat.not_lt] at hlost
    rw [← hkept] at hlost
    exact available_page_entry h.usable hav hlo hhi hlost.1 hres hlost.2

/-- The `k`-th 64-bit word of the block: header, tag header, layout, entries, terminator. -/
def blockWord (l : List MemoryMapEntry) (k : Nat) : Nat :=
  if k = 0 then 32 + 24 * l.length
  else if k = 1 then 6 + 2 ^ 32 * (16 + 24 * l.length)
  else if k = 2 then 24
  else
    match l[(k - 3) / 3]?, (k - 3) % 3 with
    | some e, 0 => e.baseAddr
    | some e, 1 => e.length
    | some e, _ => e.type + 2 ^ 32 * e.reserved
    | none, _ => 2 ^ 32 * 8

def encodeBlock (infoAddr : Nat) (l : List MemoryMapEntry) : Memory := fun a =>
  if infoAddr ≤ a ∧ a < infoAddr + (32 + 24 * l.length) then
    let o := a - infoAddr
    some (UInt8.ofNat (blockWord l (o / 8) / 2 ^ (8 * (o % 8)) % 256))
  else none

/-- A boot of `l` with one page of kernel and the block at 64 KiB. -/
def blockBoot (l : List MemoryMapEntry) : BootArgs where
  bootInfo := (parse (encodeBlock 0x10000 l) multiboot2BootloaderMagic 0x10000).getD .zeroed
  kernelStart := 0x100000
  kernelEnd := 0x101000
  mb2Paddr := 0x10000
  mb2Size := 32 + 24 * l.length

@[irreducible] def blockPmm (l : List MemoryMapEntry) : PhysicalMemoryManager :=
  ((gPmm.init (blockBoot l) (blockBoot l).tracker).getD (false, gPmm)).2

/-- 63 slivers of RAM and 2 MiB of it fill the table; the reservation inside comes last. -/
def longMap : List MemoryMapEntry :=
  (List.range 63).map (fun i => ⟨0x100000 + i, 1, 1, 0⟩) ++
    [⟨0, 0x200000, 1, 0⟩, ⟨0x180000, 0x10000, 2, 0⟩]

/-- The block parses, the machine boots, and frame 384 is handed out from under the
reservation `[0x180000, 0x190000)`. -/
theorem longMap_reservation_ignored :
    parse (encodeBlock 0x10000 longMap) multiboot2BootloaderMagic 0x10000 =
        some (blockBoot longMap).bootInfo ∧
      (blockBoot longMap).bootInfo.valid = true ∧
      ⟨0x180000, 0x10000, 2, 0⟩ ∈ firmwareMap (encodeBlock 0x10000 longMap) 0x10000 ∧
      gPmm.init (blockBoot longMap) (blockBoot longMap).tracker =
        some (true, blockPmm longMap) ∧
      384 ∈ (blockPmm longMap).handedOut (.allocPages 254) ∧
      384 * 4096 = 0x180000 := by
  decide +kernel

def shortMap : List MemoryMapEntry := [⟨0, 0x200000, 1, 0⟩, ⟨0x180000, 0x10000, 2, 0⟩]

theorem shortMap_lossHarmless :
    LossHarmless (firmwareMap (encodeBlock 0x10000 shortMap) 0x10000) := by
  have hall : ∀ e ∈ firmwareMap (encodeBlock 0x10000 shortMap) 0x10000, ¬ e.IsAvailable →
      e ∈ kept (firmwareMap (encodeBlock 0x10000 shortMap) 0x10000) ∧ e.baseAddr + e.length ≤
        lastPage := by
    decide +kernel
  intro e he hres hlost
  have hkept := hall e he hres
  exact absurd hlost (by simp [Lost, hkept.1, Nat.not_lt.mpr hkept.2])

theorem shortMap_avoided :
    258 ∈ ((blockPmm shortMap).run []).handedOut (.allocPages 100) ∧
      ¬ MemoryMapEntry.Contains ⟨0x180000, 0x10000, 2, 0⟩ (258 * 4096) := by
  have hf : 258 ∈ ((blockPmm shortMap).run []).handedOut (.allocPages 100) := by
    decide +kernel
  have hinit : gPmm.init (blockBoot shortMap) (blockBoot shortMap).tracker =
      some (true, blockPmm shortMap) := by
    decide +kernel
  have hparse : parse (encodeBlock 0x10000 shortMap) multiboot2BootloaderMagic 0x10000 =
      some (blockBoot shortMap).bootInfo := by
    decide +kernel
  exact ⟨hf, handedOut_avoids_firmware hparse (by decide +kernel) shortMap_lossHarmless
    hinit [] _ hf (by decide +kernel) (by decide) (Nat.le_refl _) (by decide)⟩

end LlamaOS.Memory
