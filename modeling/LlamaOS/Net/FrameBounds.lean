import LlamaOS.Net.PacketReads

/-!
# Reads inside the received frame

Every check of the receive path compares a length with what is left of the frame, except one:
`handle_ipv4` subtracts the header length from a total length that may be smaller.
-/

namespace LlamaOS.Net
open ByteBuffer Logged Stack EthernetHeader

/-- Packet bytes are read below `hi` only, and a protocol handler is given `payloadLen` bytes. -/
def Event.Proper (hi : Nat) (payloadLen : Int) : Event → Prop
  | .read pos len => ∀ i < len, pos + i < hi
  | .handed _ len => (len : Int) = payloadLen
  | _ => True

theorem Event.Inside.proper {lo hi : Nat} {payloadLen : Int} (hle : lo ≤ hi) (e : Event)
    (h : e.Inside lo) : e.Proper hi payloadLen := by
  cases e with
  | read pos len =>
    intro i hi'
    have hend : pos + len ≤ lo := h
    omega
  | handed protocol len => exact h.elim
  | _ => trivial

/-- The payload length of the IPv4 packet of a frame, as a number. -/
def payloadLen (frame : Buffer) : Int :=
  (ntohs (Ipv4Header.load frame 14).totalLength).toNat - (Ipv4Header.load frame 14).headerLen

/-- The packet of a frame passes the checks of `handle_ipv4` at position `pos`. -/
structure PassesIpv4 (n : NetInterface) (frame : Buffer) (pos len : Nat) : Prop where
  size : 20 ≤ len
  version : (Ipv4Header.load frame pos).version = 4
  headerMin : 20 ≤ (Ipv4Header.load frame pos).headerLen
  headerMax : (Ipv4Header.load frame pos).headerLen ≤ len
  total : (ntohs (Ipv4Header.load frame pos).totalLength).toNat ≤ len
  checksum : calculateChecksum (slice frame pos (Ipv4Header.load frame pos).headerLen) 0 = 0
  destination : accepts n (Ipv4Header.load frame pos).dstIp = true

/-- A frame that `poll` takes for an IPv4 packet. -/
structure PassesEthernet (n : NetInterface) (frame : Buffer) (frameLen : Nat) : Prop where
  size : 14 ≤ frameLen
  dest : (load frame 0).dest = n.mac ∨ (load frame 0).dest = .broadcast
  ethertype : ntohs (load frame 0).ethertype = etherTypeIpv4

def Handled (protocol : Byte) : Prop :=
  protocol = ipProtoIcmp ∨ protocol = ipProtoUdp ∨ protocol = ipProtoTcp

/-- A packet that reaches a protocol handler although its total length is less than that of its
header. -/
structure Underflows (n : NetInterface) (frame : Buffer) (frameLen : Nat) : Prop where
  ethernet : PassesEthernet n frame frameLen
  ipv4 : PassesIpv4 n frame 14 (frameLen - 14)
  protocol : Handled (Ipv4Header.load frame 14).protocol
  short :
      (ntohs (Ipv4Header.load frame 14).totalLength).toNat < (Ipv4Header.load frame 14).headerLen

theorem headerLen_le (h : Ipv4Header) : h.headerLen ≤ 60 := by
  unfold Ipv4Header.headerLen
  omega

variable {totalLen hdrLen : Nat}

theorem protoLen_eq (hle : hdrLen ≤ totalLen) (htotal : totalLen < 2 ^ 16) :
    protoLen totalLen hdrLen = totalLen - hdrLen := by
  simp only [protoLen, BitVec.toNat_sub, BitVec.toNat_ofNat]
  omega

theorem protoLen_wraps (hlt : totalLen < hdrLen) (hhdr : hdrLen ≤ 60) :
    protoLen totalLen hdrLen = 2 ^ 64 - (hdrLen - totalLen) := by
  simp only [protoLen, BitVec.toNat_sub, BitVec.toNat_ofNat]
  omega

variable {pos len : Nat}

section Handlers

variable (s : Stack) (t : Telemetry) (k : Fin 4) (frame : Buffer)

theorem dispatch_only (srcIp : Ipv4Address) (protocol : Byte) (pos len : Nat) :
    Only (fun e => e.Inside (pos + len) ∨ e = .handed protocol len)
      (s.dispatch t k srcIp protocol frame pos len) := by
  unfold dispatch
  split
  · exact .bind (.record (.inr rfl))
      ((s.handleIcmp_only frame k srcIp pos len).imp fun e he => .inl (Event.Plain.inside e he))
  split
  · exact .bind (.record (.inr rfl))
      ((s.handleUdp_only frame k srcIp pos len).imp fun e he => .inl he)
  · split
    · exact .bind (.record (.inr rfl))
        ((s.handleTcp_only t frame k srcIp pos len).imp fun e he => .inl he)
    · exact .pure

theorem handed_mem_dispatch {srcIp : Ipv4Address} {protocol : Byte} (hhandled : Handled protocol)
    (pos len : Nat) : .handed protocol len ∈ (s.dispatch t k srcIp protocol frame pos len).log := by
  unfold dispatch
  rcases hhandled with rfl | rfl | rfl
  · exact List.mem_cons_self
  · exact List.mem_cons_self
  · exact List.mem_cons_self

/-- The reads of the checks of `handle_ipv4`. -/
def headerReads (frame : Buffer) (pos : Nat) : List Event :=
  [.read pos 1, .read pos 1, .read (pos + 2) 2, .read pos (Ipv4Header.load frame pos).headerLen,
    .read (pos + 16) 4, .read (pos + 9) 1, .read (pos + 12) 4]

/-- The call at the end of `handle_ipv4`. -/
def handOn (pos : Nat) : Logged Event Stack :=
  s.dispatch t k (Ipv4Header.load frame pos).srcIp (Ipv4Header.load frame pos).protocol frame
    (pos + (Ipv4Header.load frame pos).headerLen)
    (protoLen (ntohs (Ipv4Header.load frame pos).totalLength).toNat
      (Ipv4Header.load frame pos).headerLen)

theorem handleIpv4_passes (h : PassesIpv4 (s.interfaces k) frame pos len) :
    s.handleIpv4 t k frame pos len = (handOn s t k frame pos).after (headerReads frame pos) := by
  have hhdr : ¬ ((decide ((Ipv4Header.load frame pos).headerLen < Ipv4Header.size) ||
      decide (len < (Ipv4Header.load frame pos).headerLen)) = true) := by
    simp only [Bool.or_eq_true, decide_eq_true_eq, not_or, Nat.not_lt]
    exact ⟨h.headerMin, h.headerMax⟩
  have hdst : ¬ ((!accepts (s.interfaces k) (Ipv4Header.load frame pos).dstIp) = true) := by
    rw [h.destination]
    exact Bool.false_ne_true
  unfold handleIpv4
  rw [if_neg (show ¬ len < Ipv4Header.size from Nat.not_lt.mpr h.size), fetch_bind,
    if_neg (not_not_intro h.version),
    fetch_bind, if_neg hhdr, fetch_bind, if_neg (Nat.not_lt.mpr h.total), fetch_bind,
      if_neg (not_not_intro h.checksum),
    fetch_bind, if_neg hdst, fetch_bind, fetch_bind]
  rfl

theorem handleIpv4_only {P : Event → Prop} (hinside : ∀ e : Event, e.Inside (pos + len) → P e)
    (hpasses : PassesIpv4 (s.interfaces k) frame pos len → Only P (handOn s t k frame pos)) :
    Only P (s.handleIpv4 t k frame pos len) := by
  have hread : ∀ {α : Type} (a : α) {at' width : Nat}, at' + width ≤ pos + len →
      Only P (fetch at' width a) :=
    fun a at' width hend => only_fetch a (hinside (.read at' width) hend)
  unfold handleIpv4
  split
  · exact .pure
  rename_i hsize
  simp only [Ipv4Header.size, Nat.not_lt] at hsize
  refine .bind (hread _ (by omega)) ?_
  split
  · exact .pure
  rename_i hversion
  refine .bind (hread _ (by omega)) ?_
  split
  · exact .pure
  rename_i hhdr
  simp only [Bool.or_eq_true, decide_eq_true_eq, not_or, Nat.not_lt] at hhdr
  simp only [Ipv4Header.size, value_fetch] at hhdr
  refine .bind (hread _ (by omega)) ?_
  split
  · exact .pure
  rename_i htotal
  refine .bind (hread _ (by simp only [value_fetch]; omega)) ?_
  split
  · exact .pure
  rename_i hchecksum
  refine .bind (hread _ (by omega)) ?_
  split
  · exact .pure
  · rename_i hdst
    simp only [value_fetch, Bool.not_eq_true', Bool.not_eq_false] at hdst
    refine .bind (hread _ (by omega)) (.bind (hread _ (by omega)) (hpasses ?_))
    exact ⟨hsize, not_not.mp hversion, hhdr.1, hhdr.2, Nat.not_lt.mp htotal,
      not_not.mp hchecksum, hdst⟩

theorem learnSender_only (payloadLen : Nat) :
    Only (Event.Inside (14 + payloadLen)) (s.learnSender k frame payloadLen) := by
  unfold learnSender
  split
  · exact .pure
  rename_i hsize
  simp only [Ipv4Header.size, Nat.not_lt] at hsize
  refine .bind (only_fetch _ ?_) (.bind (only_fetch _ ?_) (.pure))
  · simp only [Event.Inside, size]
    omega
  · simp only [Event.Inside]
    omega

theorem learnSender_interface (payloadLen : Nat) :
    accepts ((s.learnSender k frame payloadLen).value.interfaces k) = accepts (s.interfaces k) := by
  unfold learnSender
  split
  · rfl
  · simp only [value_bind, value_fetch, value_pure, setInterface, Function.update_self]
    rfl

end Handlers

section Frames

variable {s : Stack} {t : Telemetry} {k : Fin 4} {frame : Buffer} {frameLen : Nat}

theorem passesIpv4_learnSender (payloadLen : Nat) :
    PassesIpv4 ((s.learnSender k frame payloadLen).value.interfaces k) frame pos len ↔
      PassesIpv4 (s.interfaces k) frame pos len := by
  have haccepts := learnSender_interface s k frame payloadLen
  constructor
  · intro h
    exact { h with destination := haccepts ▸ h.destination }
  · intro h
    exact { h with destination := haccepts ▸ h.destination }

theorem handleIpv4_proper (hlen : 14 + len ≤ frameLen)
    (h : PassesIpv4 (s.interfaces k) frame 14 len → Handled (Ipv4Header.load frame 14).protocol →
      (Ipv4Header.load frame 14).headerLen ≤ (ntohs (Ipv4Header.load frame 14).totalLength).toNat) :
    Only (Event.Proper frameLen (payloadLen frame)) (s.handleIpv4 t k frame 14 len) := by
  refine handleIpv4_only s t k frame (Event.Inside.proper hlen) fun hpasses => ?_
  unfold handOn
  by_cases hhandled : Handled (Ipv4Header.load frame 14).protocol
  · have hle := h hpasses hhandled
    have htotal := hpasses.total
    rw [protoLen_eq hle (BitVec.isLt _)]
    refine (dispatch_only s t k frame _ _ _ _).imp fun e he => ?_
    rcases he with he | rfl
    · exact Event.Inside.proper (by omega) e he
    · simp only [Event.Proper, payloadLen]
      omega
  · unfold dispatch
    simp only [Handled, not_or] at hhandled
    rw [if_neg hhandled.1, if_neg hhandled.2.1, if_neg hhandled.2.2]
    exact .pure

theorem handleFrame_proper (h : ¬ Underflows (s.interfaces k) frame frameLen) :
    Only (Event.Proper frameLen (payloadLen frame)) (s.handleFrame t k frame frameLen) := by
  unfold handleFrame
  split
  · exact .pure
  rename_i hsize
  simp only [size, Nat.not_lt] at hsize
  refine .bind (only_fetch _
    (Event.Inside.proper (Nat.le_refl frameLen) _ (show 0 + 6 ≤ frameLen by omega))) ?_
  split
  · exact .pure
  rename_i hdest
  simp only [Bool.and_eq_true, decide_eq_true_eq, not_and, not_not] at hdest
  refine .bind (only_fetch _
    (Event.Inside.proper (Nat.le_refl frameLen) _ (show 12 + 2 ≤ frameLen by omega))) ?_
  split
  · refine (s.handleArp_only frame k _ _).imp fun e he => ?_
    exact (Event.Plain.inside e he).proper (by simp only [size]; omega)
  split
  · rename_i hethertype
    have hend : 14 + (frameLen - size) ≤ frameLen := by
      simp only [size]
      omega
    refine .bind ((learnSender_only s k frame _).imp (Event.Inside.proper hend)) ?_
    refine handleIpv4_proper hend fun hpasses hhandled => Nat.not_lt.mp fun hshort => h ?_
    have hdest' : (load frame 0).dest = (s.interfaces k).mac ∨
        (load frame 0).dest = .broadcast := by
      by_cases hmac : (load frame 0).dest = (s.interfaces k).mac
      · exact .inl hmac
      · exact .inr (hdest hmac)
    exact ⟨⟨hsize, hdest', hethertype⟩, (passesIpv4_learnSender _).mp hpasses, hhandled, hshort⟩
  · exact .pure

/-- A packet whose total length is too small is handed on with a length close to 2^64. -/
theorem handleFrame_underflow (h : Underflows (s.interfaces k) frame frameLen) :
    .handed (Ipv4Header.load frame 14).protocol (2 ^ 64 - ((Ipv4Header.load frame 14).headerLen -
      (ntohs (Ipv4Header.load frame 14).totalLength).toNat)) ∈
        (s.handleFrame t k frame frameLen).log := by
  have hdest : ¬ ((decide ((load frame 0).dest ≠ (s.interfaces k).mac) &&
      decide ((load frame 0).dest ≠ MacAddress.broadcast)) = true) := by
    simp only [Bool.and_eq_true, decide_eq_true_eq, not_and, not_not]
    intro hmac
    exact h.ethernet.dest.resolve_left hmac
  have hethertype : ¬ ntohs (load frame 0).ethertype = etherTypeArp := by
    rw [h.ethernet.ethertype]
    decide
  unfold handleFrame
  rw [if_neg (show ¬ frameLen < size from Nat.not_lt.mpr h.ethernet.size), fetch_bind, if_neg hdest,
    fetch_bind, if_neg hethertype, if_pos h.ethernet.ethertype, log_after, log_after, log_bind]
  simp only [size]
  rw [handleIpv4_passes _ t k frame ((passesIpv4_learnSender _).mpr h.ipv4), log_after, handOn,
    protoLen_wraps h.short (headerLen_le _)]
  refine List.mem_append_right _
    (List.mem_append_right _ (List.mem_append_right _ (List.mem_append_right _ ?_)))
  exact handed_mem_dispatch _ t k frame h.protocol _ _

end Frames

/-- Of every received byte string only bytes inside it are read and every payload length is the
difference of the lengths in the packet, unless a total length below the header length passes
the checks. -/
theorem received_reads_iff (s : Stack) (t : Telemetry) (k : Fin 4) (bytes : List Byte)
    (buffer : Buffer) :
    Only (Event.Proper (rxLen bytes) (payloadLen (rxBuffer buffer bytes)))
      (s.poll t k [bytes] buffer) ↔ ((s.interfaces k).dev.isSome → (s.interfaces k).up →
        ¬ Underflows (s.interfaces k) (rxBuffer buffer bytes) (rxLen bytes)) := by
  constructor
  · intro honly hdev hup hunder
    have hdown : ¬ (((s.interfaces k).dev.isNone || !(s.interfaces k).up) = true) := by
      rw [hup, Option.isNone_eq_false_iff.mpr hdev]
      exact Bool.false_ne_true
    have hsize := hunder.ethernet.size
    have hmem := handleFrame_underflow (t := t) hunder
    have hproper := honly _ (by
      rw [poll, if_neg hdown, drain, if_neg (by omega)]
      exact List.mem_append_left _ hmem)
    simp only [Event.Proper, payloadLen] at hproper
    omega
  · intro h
    unfold poll
    split
    · exact .pure
    rename_i hup
    simp only [Bool.or_eq_true, Option.isNone_iff_eq_none, Bool.not_eq_true', not_or,
      Bool.not_eq_false] at hup
    rw [drain]
    split
    · exact .pure
    refine .bind (handleFrame_proper (h (Option.isSome_iff_ne_none.mpr hup.1) hup.2)) ?_
    split
    · exact .pure
    · exact .pure

/-- A machine whose first interface is up and has no address yet. -/
def bareStack : Stack :=
  (Stack.initial.initInterface primary (Drivers.sampleDevice 0x563412005452 []) 0 0 0).value

/-- A broadcast frame of 60 bytes: an IPv4 header of 44 bytes with the total length 0 and the
protocol UDP, then two bytes. -/
def shortFrame : List Byte :=
  [0xFF, 0xFF, 0xFF, 0xFF, 0xFF, 0xFF, 0x52, 0x54, 0, 0x12, 0x34, 0x56, 0x08, 0x00,
    0x4B, 0, 0, 0, 0, 0, 0x40, 0, 64, 17, 0x2A, 0xEC, 10, 0, 0, 2, 0xFF, 0xFF, 0xFF, 0xFF] ++
  List.replicate 24 0 ++ [0x13, 0x88]

theorem shortFrame_read_outside :
    shortFrame.length = 60 ∧
      .read 60 2 ∈ (bareStack.poll idleTelemetry 0 [shortFrame] fun _ => 0).log ∧
      .handed 17 18446744073709551572 ∈
        (bareStack.poll idleTelemetry 0 [shortFrame] fun _ => 0).log ∧
      ¬ Only (Event.Proper 60 (payloadLen (rxBuffer (fun _ => 0) shortFrame)))
        (bareStack.poll idleTelemetry 0 [shortFrame] fun _ => 0) := by
  have hread : Event.read 60 2 ∈ (bareStack.poll idleTelemetry 0 [shortFrame] fun _ => 0).log := by
    decide +kernel
  refine ⟨rfl, hread, by decide +kernel, fun h => ?_⟩
  have hinside := h _ hread 0 (by decide)
  omega

end LlamaOS.Net
