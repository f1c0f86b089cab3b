import LlamaOS.Boot.Multiboot2
import LlamaOS.Shared.PartialReads

/-!
# What the tag handlers read

Each handler reads only bytes of its own tag.
-/

namespace LlamaOS.Boot
open PartialReads

variable {lo hi a : Nat}

theorem readU8_local (ha : lo ≤ a ∧ a < hi) : Local lo hi fun mem => readU8 mem a := by
  intro mem mem' h
  obtain ⟨b, hb, hb'⟩ := h a ha.1 ha.2
  exact ⟨b.toNat, congrArg (Option.map UInt8.toNat) hb, congrArg (Option.map UInt8.toNat) hb'⟩

theorem readU32_local (h : lo ≤ a ∧ a + 4 ≤ hi) : Local lo hi fun mem => readU32 mem a := by
  unfold readU32
  refine (readU8_local (by omega)).bind fun _ => ?_
  refine (readU8_local (by omega)).bind fun _ => ?_
  refine (readU8_local (by omega)).bind fun _ => ?_
  exact (readU8_local (by omega)).bind fun _ => .pure _

theorem readU64_local (h : lo ≤ a ∧ a + 8 ≤ hi) : Local lo hi fun mem => readU64 mem a := by
  unfold readU64
  refine (readU32_local (by omega)).bind fun _ => ?_
  exact (readU32_local (by omega)).bind fun _ => .pure _

theorem readEntry_local {p : Nat} (h : lo ≤ p ∧ p + 24 ≤ hi) :
    Local lo hi fun mem => readEntry mem p := by
  unfold readEntry
  refine (readU64_local (by omega)).bind fun _ => ?_
  refine (readU64_local (by omega)).bind fun _ => ?_
  refine (readU32_local (by omega)).bind fun _ => ?_
  exact (readU32_local (by omega)).bind fun _ => .pure _

variable {src : Nat}

theorem copyBytes_local (destCapacity left : Nat) :
    ∀ {copyLen}, lo ≤ src ∧ src + copyLen + left ≤ hi → Local lo hi fun mem =>
      copyBytes mem destCapacity src left copyLen := by
  induction left with
  | zero => exact fun _ => .pure _
  | succ left ih =>
    intro copyLen h
    unfold copyBytes
    refine (Local.byte (by omega)).bind fun c => .ite (fun _ => .pure _) fun _ => ?_
    exact .ite (fun _ => (ih (by omega)).bind fun _ => .pure _) fun _ => .pure _

theorem safeCopyString_local (destCapacity : Nat) {maxSrcLen : Nat}
    (h : lo ≤ src ∧ src + maxSrcLen ≤ hi) :
    Local lo hi fun mem => safeCopyString mem destCapacity src maxSrcLen :=
  copyBytes_local destCapacity maxSrcLen h

theorem sumBytes_local (left : Nat) :
    ∀ {a}, lo ≤ a ∧ a + left ≤ hi → Local lo hi fun mem => sumBytes mem a left := by
  induction left with
  | zero => exact fun _ => .pure _
  | succ left ih =>
    intro a h
    unfold sumBytes
    exact (readU8_local (by omega)).bind fun _ => (ih (by omega)).bind fun _ => .pure _

theorem validateAcpiChecksum_local {rsdp length : Nat} (h : lo ≤ rsdp ∧ rsdp + length ≤ hi) :
    Local lo hi fun mem => validateAcpiChecksum mem rsdp length := by
  unfold validateAcpiChecksum
  exact .ite (fun _ => .pure _) fun _ => (sumBytes_local length h).bind fun _ => .pure _

theorem memcmpEq_local (bytes : List UInt8) :
    ∀ {a}, lo ≤ a ∧ a + bytes.length ≤ hi → Local lo hi fun mem => memcmpEq mem a bytes := by
  induction bytes with
  | nil => exact fun _ => .pure _
  | cons b bytes ih =>
    intro a h
    rw [List.length_cons] at h
    unfold memcmpEq
    exact (Local.byte (by omega)).bind fun _ => .ite (fun _ => ih (by omega)) fun _ => .pure _

variable {payload payloadLen : Nat} {st : ParseState}

theorem handleCmdline_local (h : lo ≤ payload ∧ payload + payloadLen ≤ hi) :
    Local lo hi fun mem => handleCmdline mem payload payloadLen st := by
  unfold handleCmdline
  refine .past fun _ => .when fun _ => ?_
  exact (safeCopyString_local _ h).bind fun _ => .pure _

theorem handleBootLoaderName_local (h : lo ≤ payload ∧ payload + payloadLen ≤ hi) :
    Local lo hi fun mem => handleBootLoaderName mem payload payloadLen st := by
  unfold handleBootLoaderName
  refine .past fun _ => .when fun _ => ?_
  exact (safeCopyString_local _ h).bind fun _ => .pure _

variable {size : Nat}

theorem handleBasicMemInfo_local (h : lo ≤ payload ∧ payload + size ≤ hi + 8) :
    Local lo hi fun mem => handleBasicMemInfo mem payload size st := by
  unfold handleBasicMemInfo
  refine .past fun _ => .when fun _ => ?_
  refine (readU32_local (by omega)).bind fun _ => ?_
  exact (readU32_local (by omega)).bind fun _ => .pure _

theorem entryLoop_local {entrySize entriesEnd : Nat} (hsize : 24 ≤ entrySize)
    (hhi : entriesEnd ≤ hi) (left : Nat) :
    ∀ {p : Nat} {info : BootInformation}, lo ≤ p →
      Local lo hi fun mem => entryLoop mem entrySize entriesEnd left p info := by
  induction left with
  | zero => exact fun _ => .pure _
  | succ left ih =>
    intro p info hlo
    unfold entryLoop
    refine .ite (fun hroom => ?_) fun _ => .pure _
    refine (readEntry_local (by omega)).bind fun _ => ?_
    exact .ite (fun _ => .pure _) fun _ => ih (by omega)

variable {curr : Nat}

theorem handleMmap_local (h : lo ≤ curr ∧ curr + size ≤ hi) :
    Local lo hi fun mem => handleMmap mem curr size st := by
  unfold handleMmap
  refine .past fun _ => .when fun _ => ?_
  refine (readU32_local (by omega)).bind fun _ => ?_
  refine (readU32_local (by omega)).bind fun _ => .ite (fun hentry => ?_) fun _ => .pure _
  exact (entryLoop_local (by omega) h.2 size (by omega)).bind fun _ => .pure _

section

variable (h : lo ≤ payload ∧ payload + size ≤ hi + 8)
include h

theorem framebufferKind_local {fbType : Nat} {fb : FramebufferInfo} :
    Local lo hi fun mem => framebufferKind mem payload size fbType fb := by
  unfold framebufferKind
  refine .ite (fun _ => ?_) fun _ => .ite (fun _ => ?_) fun _ =>
    .ite (fun _ => .pure _) fun _ => .pure _
  · exact (readU32_local (by omega)).bind fun _ => .ite (fun _ => .pure _) fun _ => .pure _
  · refine (readU8_local (by omega)).bind fun _ => ?_
    refine (readU8_local (by omega)).bind fun _ => ?_
    refine (readU8_local (by omega)).bind fun _ => ?_
    refine (readU8_local (by omega)).bind fun _ => ?_
    refine (readU8_local (by omega)).bind fun _ => ?_
    exact (readU8_local (by omega)).bind fun _ => .pure _

theorem handleFramebuffer_local : Local lo hi fun mem => handleFramebuffer mem payload size st := by
  unfold handleFramebuffer
  refine .past fun _ => .when fun _ => ?_
  refine (readU64_local (by omega)).bind fun _ => ?_
  refine (readU32_local (by omega)).bind fun _ => ?_
  refine (readU32_local (by omega)).bind fun _ => ?_
  refine (readU32_local (by omega)).bind fun _ => ?_
  refine (readU8_local (by omega)).bind fun _ => ?_
  refine (readU8_local (by omega)).bind fun _ => ?_
  refine .ite (fun _ => .ite (fun _ => .ite (fun _ => ?_) fun _ => .pure _) fun _ => .pure _)
    fun _ => .pure _
  refine (framebufferKind_local h).bind fun kind => ?_
  cases kind with
  | none => exact .pure _
  | some fb => exact .pure _

theorem handleAcpiOld_local : Local lo hi fun mem => handleAcpiOld mem payload size st := by
  unfold handleAcpiOld
  refine .past fun _ => .when fun _ => ?_
  refine (memcmpEq_local _
    (by simp only [rsdpSignature, List.length_cons, List.length_nil]; omega)).bind fun _ => ?_
  refine .ite (fun _ => (validateAcpiChecksum_local (by omega)).bind fun _ => ?_) fun _ => .pure _
  refine .ite (fun _ => (readU8_local (by omega)).bind fun _ => ?_) fun _ => .pure _
  refine (safeCopyString_local _ (by omega)).bind fun _ => ?_
  exact (readU32_local (by omega)).bind fun _ => .pure _

theorem handleAcpiNew_local (hhi : payload + payloadLen ≤ hi) :
    Local lo hi fun mem => handleAcpiNew mem payload payloadLen size st := by
  unfold handleAcpiNew
  refine .past fun _ => .when fun _ => ?_
  refine (readU32_local (by omega)).bind fun _ => .ite (fun _ => ?_) fun _ => .pure _
  refine (memcmpEq_local _
    (by simp only [rsdpSignature, List.length_cons, List.length_nil]; omega)).bind fun _ => ?_
  refine .ite (fun _ => (validateAcpiChecksum_local (by omega)).bind fun _ => ?_) fun _ => .pure _
  refine .ite (fun _ => (validateAcpiChecksum_local (by omega)).bind fun _ => ?_) fun _ => .pure _
  refine .ite (fun _ => (readU8_local (by omega)).bind fun _ => ?_) fun _ => .pure _
  refine (safeCopyString_local _ (by omega)).bind fun _ => ?_
  refine (readU32_local (by omega)).bind fun _ => ?_
  exact (readU64_local (by omega)).bind fun _ => .pure _

theorem handleEfi64_local : Local lo hi fun mem => handleEfi64 mem payload size st := by
  unfold handleEfi64
  refine .past fun _ => .when fun _ => ?_
  exact (readU64_local (by omega)).bind fun _ => .ite (fun _ => .pure _) fun _ => .pure _

end

theorem handleTag_local (type : TagType) (h : lo ≤ curr ∧ curr + size ≤ hi) (hsize : 8 ≤ size) :
    Local lo hi fun mem => handleTag mem type curr size st := by
  cases type with
  | cmdline => exact handleCmdline_local (by omega)
  | bootLoaderName => exact handleBootLoaderName_local (by omega)
  | basicMemInfo => exact handleBasicMemInfo_local (by omega)
  | mmap => exact handleMmap_local h
  | framebuffer => exact handleFramebuffer_local (by omega)
  | acpiOld => exact handleAcpiOld_local (by omega)
  | acpiNew => exact handleAcpiNew_local (by omega) (by omega)
  | efi64 => exact handleEfi64_local (by omega)
  | endTag => exact .pure _
  | other code => exact .pure _

end LlamaOS.Boot
