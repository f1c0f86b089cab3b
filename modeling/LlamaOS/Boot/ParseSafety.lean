import LlamaOS.Boot.FirmwareMap
import LlamaOS.Boot.LocalReads
import LlamaOS.Boot.ParseLoops

/-!
# The parser on arbitrary bytes

Whatever the information block holds, the parser stops, stays inside the block, keeps its buffers
within their capacity and reports success only at a terminator.
-/

namespace LlamaOS.Boot
open PartialReads Loops

theorem tagLoop_local {lo endAddr : Nat} (left : Nat) :
    ∀ {curr : Nat} {st : ParseState}, lo ≤ curr →
    Local lo endAddr fun mem => tagLoop mem endAddr left curr st := by
  induction left with
  | zero => exact fun _ => .pure _
  | succ left ih =>
    intro curr st hlo
    unfold tagLoop
    refine .ite (fun _ => .ite (fun _ => .pure _) fun hroom => ?_) fun _ => .pure _
    refine (readU32_local (by omega)).bind fun _ => ?_
    refine (readU32_local (by omega)).bind fun size => ?_
    refine .ite (fun _ => .pure _) fun _ => .ite (fun _ => .pure _) fun hsize => ?_
    have hfit : size ≤ endAddr - curr :=
      Nat.le_trans (by omega) (Nat.mod_le (endAddr - curr) (2 ^ 32))
    refine (handleTag_local _ (by omega) (by omega)).bind fun _ => ?_
    exact .ite (fun _ => .pure _) fun _ => .ite (fun _ => .pure _) fun _ => ih (by omega)

/-- The parser's result depends on the first eight bytes and on the bytes the size field covers. -/
theorem parse_agree {mem mem' : Memory} {infoAddr totalSize hi : Nat} (magic : Nat)
    (hagree : Agree infoAddr hi mem mem') (hsize : readU32 mem infoAddr = some totalSize)
    (hhead : infoAddr + 8 ≤ hi) (hhi : infoAddr + totalSize ≤ hi) :
    ∃ info, parse mem magic infoAddr = some info ∧ parse mem' magic infoAddr = some info := by
  have hsize' : readU32 mem' infoAddr = some totalSize := by
    obtain ⟨x, hx, hx'⟩ := readU32_local ⟨Nat.le_refl infoAddr, by omega⟩ mem mem' hagree
    exact hx'.trans (hx.symm.trans hsize)
  have hblock : Agree infoAddr (infoAddr + totalSize) mem mem' :=
    fun a hlo ha => hagree a hlo (by omega)
  simp only [parse, hsize, hsize', Option.bind_eq_bind, Option.bind_some]
  split
  · exact ⟨_, rfl, rfl⟩
  split
  · exact ⟨_, rfl, rfl⟩
  split
  · exact ⟨_, rfl, rfl⟩
  split
  · exact ⟨_, rfl, rfl⟩
  obtain ⟨⟨found, st⟩, hx, hx'⟩ :=
    tagLoop_local totalSize (Nat.le_add_right infoAddr 8) mem mem' hblock
  dsimp only at hx hx'
  rw [hx, hx']
  exact ⟨_, rfl, rfl⟩

theorem Yields.andThen {α β : Type} {P : α → Prop} {Q : β → Prop} {m : Option α} {f : α → Option β}
    (hm : Yields P m) (h : ∀ a, P a → Yields Q (f a)) : Yields Q (m >>= f) := by
  intro b hb
  obtain ⟨a, ha, hfa⟩ := Option.bind_eq_some_iff.mp hb
  exact h a (hm a ha) b hfa

/-- Texts leave room for their NUL; entries describe bytes of the address space. -/
structure Stored (info : BootInformation) : Prop where
  commandLine : info.commandLine.length < maxCmdlineLen
  bootloaderName : info.bootloaderName.length < maxLoaderNameLen
  oemId : info.acpi.oemId.length < 7
  entries : ∀ e ∈ info.mmapEntries, e.Accepted

theorem copyBytes_length (mem : Memory) {destCapacity : Nat} (src left : Nat) :
    ∀ {copyLen}, copyLen < destCapacity →
    Yields (fun s => copyLen + s.length < destCapacity)
      (copyBytes mem destCapacity src left copyLen) := by
  induction left with
  | zero => exact fun h => .pure h
  | succ left ih =>
    intro copyLen h
    unfold copyBytes
    refine Yields.bind fun c => .ite (.pure h) ?_
    split
    · rename_i hroom
      refine (ih hroom).andThen fun s hs => .pure ?_
      rw [List.length_cons]
      omega
    · exact .pure h

theorem safeCopyString_length (mem : Memory) {destCapacity : Nat} (hcapacity : 0 < destCapacity)
    (src maxSrcLen : Nat) :
    Yields (fun s => s.length < destCapacity) (safeCopyString mem destCapacity src maxSrcLen) := by
  intro s hs
  have hlen := copyBytes_length mem src maxSrcLen hcapacity s hs
  omega

variable {info : BootInformation}

theorem Stored.countUsable (h : Stored info) (e : MemoryMapEntry) :
    Stored (countUsable info e) := by
  unfold Boot.countUsable
  split
  · split
    · exact { h with }
    · exact { h with }
  · exact h

theorem Stored.storeEntry (h : Stored info) {e : MemoryMapEntry} (he : e.Accepted) :
    Stored (storeEntry info e) := by
  unfold Boot.storeEntry
  split
  · refine { h with entries := fun x hx => ?_ }
    obtain hold | hnew := List.mem_append.mp hx
    · exact h.entries x hold
    · rwa [List.mem_singleton.mp hnew]
  · exact { h with }

theorem Stored.addEntry (h : Stored info) (e : MemoryMapEntry) : Stored (addEntry info e) := by
  unfold Boot.addEntry
  split
  · rename_i he
    have hcount :
        Stored { info with totalMmapEntriesDetected := info.totalMmapEntriesDetected + 1 } :=
      { h with }
    exact (hcount.countUsable e).storeEntry he
  · exact h

theorem entryLoop_stored (mem : Memory) (entrySize entriesEnd left : Nat) :
    ∀ {p : Nat} {info : BootInformation},
    Stored info → Yields Stored (entryLoop mem entrySize entriesEnd left p info) := by
  induction left with
  | zero => exact fun h => .pure h
  | succ left ih =>
    intro p info h
    unfold entryLoop
    refine .ite (Yields.bind fun e => ?_) (.pure h)
    exact .ite (.pure (h.addEntry e)) (ih (h.addEntry e))

section Handlers
variable (mem : Memory) {st : ParseState}

section

variable (h : Stored st.info)
include h

theorem handleMmap_stored (curr size : Nat) :
    Yields (fun st => Stored st.info) (handleMmap mem curr size st) := by
  unfold handleMmap
  refine .ite (.pure h) (.ite (.bind fun _ => .bind fun _ => .ite ?_ (.pure h)) (.pure h))
  refine Yields.andThen (entryLoop_stored mem _ _ _ ?_) fun _ hinfo => .pure hinfo
  exact { h with }

theorem handleCmdline_stored (payload payloadLen : Nat) :
    Yields (fun st => Stored st.info) (handleCmdline mem payload payloadLen st) := by
  unfold handleCmdline
  refine .ite (.pure h) (.ite ?_ (.pure h))
  exact (safeCopyString_length mem (by decide) _ _).andThen fun _ hs =>
    .pure { h with commandLine := hs }

theorem handleBootLoaderName_stored (payload payloadLen : Nat) :
    Yields (fun st => Stored st.info) (handleBootLoaderName mem payload payloadLen st) := by
  unfold handleBootLoaderName
  refine .ite (.pure h) (.ite ?_ (.pure h))
  exact (safeCopyString_length mem (by decide) _ _).andThen fun _ hs =>
    .pure { h with bootloaderName := hs }

theorem handleAcpiOld_stored (payload size : Nat) :
    Yields (fun st => Stored st.info) (handleAcpiOld mem payload size st) := by
  unfold handleAcpiOld
  refine .ite (.pure h)
    (.ite (.bind fun _ => .ite (.bind fun _ => .ite (.bind fun _ => ?_) (.pure h)) (.pure h))
    (.pure h))
  exact (safeCopyString_length mem (by decide) _ _).andThen fun _ hs =>
    .bind fun _ => .pure { h with oemId := hs }

theorem handleAcpiNew_stored (payload payloadLen size : Nat) :
    Yields (fun st => Stored st.info) (handleAcpiNew mem payload payloadLen size st) := by
  unfold handleAcpiNew
  refine .ite (.pure h)
    (.ite (.bind fun _ => .ite (.bind fun _ => .ite (.bind fun _ => .ite (.bind fun _ => .ite
    (.bind fun _ => ?_) (.pure h)) (.pure h)) (.pure h)) (.pure h)) (.pure h))
  exact (safeCopyString_length mem (by decide) _ _).andThen fun _ hs =>
    .bind fun _ => .bind fun _ => .pure { h with oemId := hs }

theorem handleFramebuffer_stored (payload size : Nat) :
    Yields (fun st => Stored st.info) (handleFramebuffer mem payload size st) := by
  have hset : ∀ fb, Stored { st.info with framebuffer := fb } := fun _ =>
    { h with }
  unfold handleFramebuffer
  refine .ite (.pure h) (.ite
      (.bind fun _ => .bind fun _ => .bind fun _ => .bind fun _ => .bind fun _ => .bind fun _ =>
    .ite (.ite (.ite (.bind fun kind => ?_) (.pure h)) (.pure h)) (.pure h)) (.pure h))
  cases kind with
  | none => exact .pure h
  | some fb => exact .pure (hset fb)

theorem handleTag_stored (type : TagType) (curr size : Nat) :
    Yields (fun st => Stored st.info) (handleTag mem type curr size st) := by
  cases type with
  | cmdline => exact handleCmdline_stored mem h _ _
  | bootLoaderName => exact handleBootLoaderName_stored mem h _ _
  | basicMemInfo =>
    exact .ite (.pure h) (.ite (.bind fun _ => .bind fun _ =>
      .pure { h with }) (.pure h))
  | mmap => exact handleMmap_stored mem h _ _
  | framebuffer => exact handleFramebuffer_stored mem h _ _
  | acpiOld => exact handleAcpiOld_stored mem h _ _
  | acpiNew => exact handleAcpiNew_stored mem h _ _ _
  | efi64 =>
    exact .ite (.pure h) (.ite (.bind fun _ =>
      .ite (.pure { h with }) (.pure h)) (.pure h))
  | endTag => exact .pure h
  | other code => exact .pure h

end

theorem tagLoop_stored (endAddr left : Nat) : ∀ {curr : Nat} {st : ParseState}, Stored st.info →
    Yields (fun r => Stored r.2.info) (tagLoop mem endAddr left curr st) := by
  induction left with
  | zero => exact fun h => .pure h
  | succ left ih =>
    intro curr st h
    unfold tagLoop
    refine .ite (.ite (.pure h) (.bind fun _ => .bind fun _ => .ite (.pure h) (.ite (.pure h) ?_)))
      (.pure h)
    exact (handleTag_stored mem h _ _ _).andThen fun _ h' =>
      .ite (.pure h') (.ite (.pure h') (ih h'))

end Handlers

theorem zeroed_stored : Stored .zeroed :=
  ⟨by decide, by decide, by decide, fun _ he => absurd he List.not_mem_nil⟩

theorem parse_stored (mem : Memory) (magic infoAddr : Nat) :
    Yields Stored (parse mem magic infoAddr) := by
  have hstart : ∀ paddr totalSize,
      Stored { BootInformation.zeroed with mb2InfoPaddr := paddr, mb2InfoTotalSize := totalSize } :=
    fun _ _ => { zeroed_stored with }
  unfold parse
  refine .ite (.pure zeroed_stored)
    (.ite (.pure zeroed_stored) (.bind fun totalSize => .ite (.pure zeroed_stored)
    (.ite (.pure zeroed_stored) ?_)))
  exact (tagLoop_stored mem _ _ (hstart _ totalSize)).andThen fun _ h =>
    .pure { h with }

/-- One gets from a tag to another by adding tag sizes, rounded up to eight. -/
inductive Follows (mem : Memory) (endAddr : Nat) : Nat → Nat → Prop
  | here (curr : Nat) : Follows mem endAddr curr curr
  | next {curr size target : Nat} (hsize : readU32 mem (curr + 4) = some size) (hlow : 8 ≤ size)
      (hfit : curr + size ≤ endAddr)
      (rest : Follows mem endAddr (curr + (size + 7) / 8 * 8) target) :
      Follows mem endAddr curr target

/-- A terminator tag that lies before the end. -/
structure TerminatorAt (mem : Memory) (endAddr curr : Nat) : Prop where
  type : readU32 mem curr = some 0
  size : readU32 mem (curr + 4) = some 8
  fits : curr + 8 ≤ endAddr

theorem tagLoop_terminator {mem : Memory} {endAddr : Nat} (left : Nat) {curr : Nat}
    {st st' : ParseState} (hlen : endAddr - curr < 2 ^ 32)
    (h : tagLoop mem endAddr left curr st = some (true, st')) :
    ∃ last, Follows mem endAddr curr last ∧ TerminatorAt mem endAddr last := by
  induction left generalizing curr st st' with
  | zero => simp [tagLoop] at h
  | succ left ih =>
    obtain ⟨type, size, htype, hsize, ⟨rfl, rfl, hfit, _⟩ | ⟨_, hlow, hfit, hbig, st₁, _, hrest⟩⟩ :=
      tagLoop_succ hlen h
    · exact ⟨curr, .here curr, htype, hsize, hfit⟩
    · rw [alignedTagSize_eq hbig] at hrest
      obtain ⟨last, hfollows, hlast⟩ := ih (by omega) hrest
      exact ⟨last, .next hsize hlow hfit hfollows, hlast⟩

theorem parse_terminator {mem : Memory} {magic infoAddr totalSize : Nat} {info : BootInformation}
    (hsize : readU32 mem infoAddr = some totalSize) (h : parse mem magic infoAddr = some info)
    (hvalid : info.valid = true) :
    ∃ last, Follows mem (infoAddr + totalSize) (infoAddr + 8) last ∧
      TerminatorAt mem (infoAddr + totalSize) last := by
  have hzeroed : ¬ some BootInformation.zeroed = some info := by
    intro heq
    obtain rfl := Option.some.inj heq
    exact absurd hvalid (by decide)
  simp only [parse, hsize, Option.pure_def, Option.bind_eq_bind, Option.bind_some] at h
  split at h
  · exact absurd h hzeroed
  split at h
  · exact absurd h hzeroed
  split at h
  · exact absurd h hzeroed
  rename_i hrange
  split at h
  · exact absurd h hzeroed
  obtain ⟨⟨found, st⟩, hloop, h⟩ := Option.bind_eq_some_iff.mp h
  obtain rfl := Option.some.inj h
  obtain rfl : found = true := hvalid
  simp only [maxReasonableInfoSize] at hrange
  exact tagLoop_terminator totalSize (by omega) hloop

def totalSize (bytes : Nat → UInt8) (infoAddr : Nat) : Nat :=
  (bytes infoAddr).toNat + 2 ^ 8 * (bytes (infoAddr + 1)).toNat +
    2 ^ 16 * (bytes (infoAddr + 2)).toNat + 2 ^ 24 * (bytes (infoAddr + 3)).toNat

/-- Only the first eight bytes and those of the block may be read. -/
def block (bytes : Nat → UInt8) (infoAddr : Nat) : Memory := fun a =>
  if infoAddr ≤ a ∧ (a < infoAddr + 8 ∨ a < infoAddr + totalSize bytes infoAddr) then some (bytes a)
  else none

theorem block_agree (bytes : Nat → UInt8) (infoAddr : Nat) :
    Agree infoAddr (infoAddr + max 8 (totalSize bytes infoAddr)) (block bytes infoAddr) fun a =>
      some (bytes a) := by
  intro a hlo hhi
  refine ⟨bytes a, if_pos ⟨hlo, ?_⟩, rfl⟩
  omega

theorem block_totalSize (bytes : Nat → UInt8) (infoAddr : Nat) :
    readU32 (block bytes infoAddr) infoAddr = some (totalSize bytes infoAddr) := by
  obtain ⟨x, hx, hx'⟩ :=
    readU32_local ⟨Nat.le_refl infoAddr, by omega⟩ _ _ (block_agree bytes infoAddr)
  exact hx.trans hx'.symm

/-- On every content of memory the parser stops, reads nothing outside the block, stores what fits
and is accepted, and succeeds only at a terminator. -/
theorem parse_safe (bytes : Nat → UInt8) (magic infoAddr : Nat) :
    ∃ info, parse (block bytes infoAddr) magic infoAddr = some info ∧
      parse (fun a => some (bytes a)) magic infoAddr = some info ∧
      (∀ st, 16 ≤ totalSize bytes infoAddr →
        Ends (tagStep (block bytes infoAddr) (infoAddr + totalSize bytes infoAddr))
          (infoAddr + 8, st)
          (tagLoop (block bytes infoAddr) (infoAddr + totalSize bytes infoAddr)
            (totalSize bytes infoAddr) (infoAddr + 8) st)) ∧
      (∀ curr size entrySize info, 16 ≤ size → 24 ≤ entrySize →
        Ends (entryStep (block bytes infoAddr) entrySize (curr + size)) (curr + 16, info)
          (entryLoop (block bytes infoAddr) entrySize (curr + size) size (curr + 16) info)) ∧
      info.commandLine.length < maxCmdlineLen ∧ info.bootloaderName.length < maxLoaderNameLen ∧
      info.acpi.oemId.length < 7 ∧ info.mmapEntries.length ≤ maxMemoryRegions ∧
      (∀ e ∈ info.mmapEntries, 0 < e.length ∧ e.baseAddr + e.length < 2 ^ 64) ∧
      (info.valid = true → ∃ last,
        Follows (block bytes infoAddr) (infoAddr + totalSize bytes infoAddr) (infoAddr + 8) last ∧
        TerminatorAt (block bytes infoAddr) (infoAddr + totalSize bytes infoAddr) last) := by
  have hsize := block_totalSize bytes infoAddr
  obtain ⟨info, hparse, hfull⟩ :=
    parse_agree magic (block_agree bytes infoAddr) hsize (by omega) (by omega)
  have hstored := parse_stored _ _ _ info hparse
  refine ⟨info, hparse, hfull, fun st hlow => tagLoop_ends _ st (by omega),
    fun curr size entrySize info hlow hentry => entryLoop_ends _ info (by omega) (by omega),
      hstored.commandLine,
    hstored.bootloaderName, hstored.oemId, info.capacity, fun e he =>
      ?_, parse_terminator hsize hparse⟩
  have haccepted := hstored.entries e he
  unfold MemoryMapEntry.Accepted at haccepted
  simp only [uint64Max] at haccepted
  omega

end LlamaOS.Boot
