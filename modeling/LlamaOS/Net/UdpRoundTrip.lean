import LlamaOS.Net.Emission
import LlamaOS.Net.FrameBounds

/-!
# Datagrams that are sent and received

The frame of `UdpEngine::send` passes every check of the receive path and its payload comes
out as it went in.
-/

namespace LlamaOS.Net
open ByteBuffer Logged PackedFields Stack EthernetHeader NetInterface

def Event.isUdp : Event → Bool
  | .udp _ _ _ _ _ => true
  | _ => false

def transmitted (log : List Event) : List (List Byte) :=
  log.filterMap fun e => match e with
    | .transmit frame => some frame
    | _ => none

variable {hi : Nat}

theorem Event.Plain.not_udp {e : Event} (h : e.Plain hi) : e.isUdp = false := by
  cases e <;> first | rfl | exact h.elim

theorem filter_isUdp_eq_nil {α : Type} {x : Logged Event α} (h : Only (Event.Plain hi) x) :
    x.log.filter Event.isUdp = [] := by
  rw [List.filter_eq_nil_iff]
  intro e he
  rw [(h e he).not_udp]
  exact Bool.false_ne_true

section

variable (n : NetInterface) (dstIp : Ipv4Address) (protocol : Byte) (len : Nat)
include n dstIp protocol len

theorem NetInterface.header_headerLen : (n.header dstIp protocol len).headerLen = 20 := by
  simp only [header, blankHeader, Ipv4Header.headerLen]
  decide

theorem NetInterface.header_version : (n.header dstIp protocol len).version = 4 := by
  simp only [header, blankHeader, Ipv4Header.version]
  decide

end

section Frame

variable {n : NetInterface} {mac : MacAddress} {dstIp : Ipv4Address} {srcPort dstPort : BitVec 16}
  {payload : List Byte} {frame : Buffer}

def udpHeader (srcPort dstPort : BitVec 16) (len : Nat) : UdpHeader :=
  ⟨htons srcPort, htons dstPort, htons (.ofNat 16 (UdpHeader.size + len)), 0⟩

def datagram (n : NetInterface) (dstIp : Ipv4Address) (srcPort dstPort : BitVec 16)
    (payload : List Byte) : List Byte :=
  let message := (udpHeader srcPort dstPort payload.length).bytes ++ payload
  (n.header dstIp ipProtoUdp message.length).bytes ++ message

theorem message_length (srcPort dstPort : BitVec 16) (payload : List Byte) :
    ((udpHeader srcPort dstPort payload.length).bytes ++ payload).length = 8 + payload.length := by
  rw [List.length_append, UdpHeader.bytes_length]

theorem datagram_length (n : NetInterface) (dstIp : Ipv4Address) (srcPort dstPort : BitVec 16)
    (payload : List Byte) :
    (datagram n dstIp srcPort dstPort payload).length = 28 + payload.length := by
  simp only [datagram, List.length_append, Ipv4Header.bytes_length, UdpHeader.bytes_length]
  omega

/-- A buffer that holds the frame of a datagram. -/
abbrev HoldsDatagram (frame : Buffer) (n : NetInterface) (mac : MacAddress) (dstIp : Ipv4Address)
    (srcPort dstPort : BitVec 16) (payload : List Byte) : Prop :=
  HoldsPacket frame n mac dstIp ipProtoUdp
    ((udpHeader srcPort dstPort payload.length).bytes ++ payload)

variable (h : HoldsDatagram frame n mac dstIp srcPort dstPort payload)
include h

theorem load_ipv4 : Ipv4Header.load frame 14 = n.header dstIp ipProtoUdp (8 + payload.length) := by
  rw [h.load_ipv4, message_length]

theorem load_udp : UdpHeader.load frame 34 = udpHeader srcPort dstPort payload.length :=
  UdpHeader.record.load_bytes h.hasBytes_message.left

theorem slice_payload : slice frame 42 payload.length = payload := by
  have hbytes := h.hasBytes_message.right
  rw [UdpHeader.bytes_length] at hbytes
  exact hbytes.slice_eq

end Frame

variable {len : Nat}

section Reception

variable {n : NetInterface} {mac : MacAddress} {dstIp : Ipv4Address} {srcPort dstPort : BitVec 16}
  {payload : List Byte} {frame : Buffer} {s : Stack} {t : Telemetry} {k : Fin 4}
    {handler : UdpPacketHandler}

section

variable (h : HoldsDatagram frame n mac dstIp srcPort dstPort payload)
  (hlen : payload.length ≤ 1400)
include h hlen

theorem passesIpv4_datagram (hspace : 28 + payload.length ≤ len)
    (hip : (s.interfaces k).ip = dstIp) : PassesIpv4 (s.interfaces k) frame 14 len := by
  have hip4 := load_ipv4 h
  have hheaderLen : (Ipv4Header.load frame 14).headerLen = 20 := by
    rw [hip4]
    exact n.header_headerLen _ _ _
  have htotal : (ntohs (Ipv4Header.load frame 14).totalLength).toNat = 28 + payload.length := by
    rw [hip4]
    simp only [header, blankHeader, Ipv4Header.size]
    rw [ntohs_length (by omega)]
    omega
  refine ⟨by omega, by rw [hip4]; exact n.header_version _ _ _, by rw [hheaderLen],
    by rw [hheaderLen]; omega, by rw [htotal]; exact hspace, ?_, ?_⟩
  · rw [hheaderLen, h.slice_header]
    exact n.header_verifies _ _ _
  · rw [hip4]
    simp only [accepts, header, blankHeader, hip, decide_true, Bool.true_or]

theorem handleUdp_datagram (hhandler : s.udp.handlerFor dstPort = some handler)
    (srcIp : Ipv4Address) :
    (s.handleUdp k srcIp frame 34 (8 + payload.length)).log.filter Event.isUdp =
      [.udp handler srcIp srcPort dstPort payload] := by
  have hudp := load_udp h
  have hulen : (ntohs (udpHeader srcPort dstPort payload.length).length).toNat =
      8 + payload.length := by
    simp only [udpHeader, UdpHeader.size]
    exact ntohs_length (by omega)
  have hsize : ¬ ((decide (8 + payload.length < 8 + payload.length) ||
      decide (8 + payload.length < UdpHeader.size)) = true) := by
    simp only [Bool.or_eq_true, decide_eq_true_eq, not_or, Nat.not_lt]
    exact ⟨Nat.le_refl _, Nat.le_add_right 8 _⟩
  have hdata : slice frame (34 + UdpHeader.size) (8 + payload.length - UdpHeader.size) =
      payload := by
    simp only [UdpHeader.size, Nat.reduceAdd, Nat.add_sub_cancel_left]
    exact slice_payload h
  unfold handleUdp
  rw [if_neg (show ¬ 8 + payload.length < UdpHeader.size by simp only [UdpHeader.size]; omega)]
  dsimp only
  rw [hudp, hulen, fetch_bind, fetch_bind, fetch_bind, if_neg hsize]
  simp only [udpHeader, ntohs_htons, hhandler, hdata]
  rw [record_bind]
  simp only [log_after, List.cons_append, List.nil_append, List.filter_cons, Event.isUdp,
    Bool.false_eq_true, ↓reduceIte]
  rw [List.cons_eq_cons]
  refine ⟨rfl, ?_⟩
  cases handler with
  | dhcpClient => exact filter_isUdp_eq_nil (s.handleDhcp_only frame k _ _)
  | external address => rfl

theorem handleIpv4_datagram (hspace : 28 + payload.length ≤ len) (hip : (s.interfaces k).ip = dstIp)
    (hhandler : s.udp.handlerFor dstPort = some handler) :
    (s.handleIpv4 t k frame 14 len).log.filter Event.isUdp =
      [.udp handler n.ip srcPort dstPort payload] := by
  have hip4 := load_ipv4 h
  have hheaderLen : (Ipv4Header.load frame 14).headerLen = 20 := by
    rw [hip4]
    exact n.header_headerLen _ _ _
  have hproto : protoLen (ntohs (Ipv4Header.load frame 14).totalLength).toNat 20 =
      8 + payload.length := by
    rw [hip4]
    simp only [header, blankHeader, Ipv4Header.size]
    rw [ntohs_length (by omega), protoLen_eq (by omega) (by omega)]
    omega
  have hdispatch : s.dispatch t k n.ip ipProtoUdp frame 34 (8 + payload.length) =
      (s.handleUdp k n.ip frame 34 (8 + payload.length)).after
        [.handed ipProtoUdp (8 + payload.length)] := by
    unfold dispatch
    rw [if_neg (by decide), if_pos rfl]
    rfl
  have hreads : (headerReads frame 14).filter Event.isUdp = [] := rfl
  rw [handleIpv4_passes s t k frame (passesIpv4_datagram h hlen hspace hip), handOn, hheaderLen,
    hproto, log_after, List.filter_append, hreads, List.nil_append, hip4]
  simp only [header, blankHeader, Nat.reduceAdd]
  rw [hdispatch, log_after, List.filter_append, handleUdp_datagram h hlen hhandler]
  rfl

end

/-- What the receive path depends on is left alone. -/
structure SameHost (s s' : Stack) (k : Fin 4) : Prop where
  udp : s'.udp = s.udp
  mac : (s'.interfaces k).mac = (s.interfaces k).mac
  ip : (s'.interfaces k).ip = (s.interfaces k).ip
  halted : s'.halted = s.halted

theorem sameHost_setInterface {s : Stack} {k : Fin 4} {n : NetInterface} {arp : ArpTable}
    (h : NetInterface.SameButDevice { s.interfaces k with arp } n) :
    SameHost s (s.setInterface k n) k := by
  obtain ⟨dev, rfl, _⟩ := h
  refine ⟨rfl, ?_, ?_, rfl⟩ <;> simp only [setInterface, Function.update_self]

theorem learnSender_sameHost (s : Stack) (k : Fin 4) (frame : Buffer) (payloadLen : Nat) :
    SameHost s (s.learnSender k frame payloadLen).value k := by
  unfold learnSender
  split
  · exact ⟨rfl, rfl, rfl, rfl⟩
  · exact sameHost_setInterface (.refl _)

theorem handleArp_sameHost (s : Stack) (k : Fin 4) (frame : Buffer) (pos len : Nat) :
    SameHost s (s.handleArp k frame pos len).value k := by
  unfold handleArp
  split
  · exact ⟨rfl, rfl, rfl, rfl⟩
  simp only [fetch_bind, value_after]
  split
  · exact ⟨rfl, rfl, rfl, rfl⟩
  split
  · split
    · exact sameHost_setInterface (sendEthernet_same _ _ _ _)
    · exact sameHost_setInterface (.refl _)
  · exact sameHost_setInterface (.refl _)

theorem handleFrame_datagram (h : HoldsDatagram frame n mac dstIp srcPort dstPort payload)
    (hlen : payload.length ≤ 1400) {frameLen : Nat} (hspace : 42 + payload.length ≤ frameLen)
    (hmac : mac = .broadcast ∨ mac = (s.interfaces k).mac) (hip : (s.interfaces k).ip = dstIp)
    (hhandler : s.udp.handlerFor dstPort = some handler) :
    (s.handleFrame t k frame frameLen).log.filter Event.isUdp =
      [.udp handler n.ip srcPort dstPort payload] := by
  have hdest :
      ¬ ((decide (mac ≠ (s.interfaces k).mac) && decide (mac ≠ MacAddress.broadcast)) = true) := by
    simp only [Bool.and_eq_true, decide_eq_true_eq, not_and, not_not]
    intro hother
    exact hmac.resolve_right hother
  have hlearn := learnSender_sameHost s k frame (frameLen - size)
  have hlearnUdp : (s.learnSender k frame (frameLen - size)).log.filter Event.isUdp = [] := by
    unfold learnSender
    split <;> rfl
  unfold handleFrame
  rw [if_neg (show ¬ frameLen < size by simp only [size]; omega)]
  rw [h.load_ethernet, fetch_bind, if_neg hdest, fetch_bind, ntohs_htons, if_neg (by decide),
    if_pos rfl, log_after,
    log_after, List.filter_append, List.filter_append, log_bind, List.filter_append, hlearnUdp]
  simp only [size] at hlearn ⊢
  rw [handleIpv4_datagram h hlen (by omega) (hlearn.ip.trans hip)
    (by rw [hlearn.udp]; exact hhandler)]
  rfl

theorem handleFrame_arp (hbytes : HasBytes frame 0 (n.frame .broadcast etherTypeArp payload))
    (frameLen : Nat) :
    (s.handleFrame t k frame frameLen).log.filter Event.isUdp = [] ∧
      SameHost s (s.handleFrame t k frame frameLen).value k := by
  have hload : load frame 0 = ⟨.broadcast, n.mac, htons etherTypeArp⟩ :=
    record.load_bytes hbytes.left.left
  unfold handleFrame
  split
  · exact ⟨rfl, rfl, rfl, rfl, rfl⟩
  rw [hload, fetch_bind, if_neg (by simp), fetch_bind, ntohs_htons, if_pos rfl]
  simp only [log_after, value_after, List.filter_append]
  refine ⟨?_, handleArp_sameHost s k frame _ _⟩
  rw [filter_isUdp_eq_nil (s.handleArp_only frame k _ _)]
  rfl

end Reception

theorem frame_length (n : NetInterface) (mac : MacAddress) (ethertype : BitVec 16)
    (payload : List Byte) :
    (n.frame mac ethertype payload).length = max 60 (14 + payload.length) := by
  simp only [frame, List.length_append, bytes_length, List.length_replicate, size]
  omega

theorem rxBuffer_hasBytes (buffer : Buffer) {frame : List Byte} (h : frame.length ≤ 1518) :
    HasBytes (rxBuffer buffer frame) 0 frame := by
  rw [rxBuffer, List.take_of_length_le (show frame.length ≤ maxFrameSize from h)]
  exact hasBytes_patch _ _ _

variable {n : NetInterface} {payload : List Byte}

theorem sendEthernet_transmitted (hdev : n.dev.isSome) (hup : n.up) (mac : MacAddress)
    (ethertype : BitVec 16) (hlen : payload.length ≤ 1504) :
    transmitted (n.sendEthernet mac ethertype payload).log = [n.frame mac ethertype payload] := by
  obtain ⟨dev, hdev⟩ := Option.isSome_iff_exists.mp hdev
  have hfits : ¬ ((!n.up || decide (maxFrameSize - size < payload.length)) = true) := by
    simp only [hup, Bool.not_true, Bool.false_or, decide_eq_true_eq, Nat.not_lt]
    exact hlen
  rw [sendEthernet, hdev]
  simp only
  rw [if_neg hfits]
  rfl

theorem targetMac_transmitted (hdev : n.dev.isSome) (hup : n.up) (dstIp : Ipv4Address) :
    transmitted (n.targetMac dstIp).log = [] ∨
      ∃ payload : List Byte, payload.length ≤ 1504 ∧
        transmitted (n.targetMac dstIp).log = [n.frame .broadcast etherTypeArp payload] := by
  unfold targetMac
  split
  · exact .inl rfl
  split
  · exact .inl rfl
  right
  have hlength : ∀ h : ArpHeader, h.bytes.length ≤ 1504 := by
    intro h
    have hbytes : h.bytes.length = 28 := pack_length rfl
    omega
  rw [log_bind, log_pure, List.append_nil]
  exact ⟨_, hlength _, sendEthernet_transmitted hdev hup _ _ (hlength _)⟩

theorem send_transmitted (hdev : n.dev.isSome) (hup : n.up) (dstIp : Ipv4Address)
    (srcPort dstPort : BitVec 16) (hlen : payload.length ≤ 1400) :
    transmitted (UdpEngine.send n dstIp srcPort dstPort payload).log =
      transmitted (n.targetMac dstIp).log ++
      [n.frame (n.targetMac dstIp).value.1 etherTypeIpv4
        (datagram n dstIp srcPort dstPort payload)] := by
  have hshort : ((udpHeader srcPort dstPort payload.length).bytes ++ payload).length ≤ 1460 := by
    rw [message_length]
    omega
  obtain ⟨d, hdev⟩ := Option.isSome_iff_exists.mp hdev
  obtain ⟨d', _, _, hsend⟩ := sendIpv4_ready hdev hup dstIp ipProtoUdp hshort
  rw [UdpEngine.send, if_neg (Nat.not_lt.mpr hlen)]
  change transmitted (n.sendIpv4 dstIp ipProtoUdp
    ((udpHeader srcPort dstPort payload.length).bytes ++ payload)).log = _
  rw [hsend]
  exact List.filterMap_append

/-- The frames that `UdpEngine::send` gives to the device call the handler of the destination
port once, with the sender's address, the ports and the payload. -/
theorem udp_send_received {n : NetInterface} (hdev : n.dev.isSome) (hup : n.up) {s : Stack}
    {k : Fin 4} (hreceiver : (s.interfaces k).dev.isSome ∧ (s.interfaces k).up ∧ s.halted = false)
    {dstIp : Ipv4Address} {srcPort dstPort : BitVec 16} {payload : List Byte}
    (hlen : payload.length ≤ 1400)
    (hmac : (n.targetMac dstIp).value.1 = .broadcast ∨
      (n.targetMac dstIp).value.1 = (s.interfaces k).mac)
    (hip : (s.interfaces k).ip = dstIp) {handler : UdpPacketHandler}
    (hhandler : ⟨dstPort, some handler⟩ ∈ s.udp.handlers) (t : Telemetry) (buffer : Buffer) :
    (s.poll t k (transmitted (UdpEngine.send n dstIp srcPort dstPort payload).log)
      buffer).log.filter Event.isUdp = [.udp handler n.ip srcPort dstPort payload] := by
  obtain ⟨hrdev, hrup, hrunning⟩ := hreceiver
  have hpoll : ¬ (((s.interfaces k).dev.isNone || !(s.interfaces k).up) = true) := by
    rw [hrup, Option.isNone_eq_false_iff.mpr hrdev]
    exact Bool.false_ne_true
  have hlength := frame_length n (n.targetMac dstIp).value.1 etherTypeIpv4
    (datagram n dstIp srcPort dstPort payload)
  rw [datagram_length] at hlength
  have hrx : rxLen (n.frame (n.targetMac dstIp).value.1 etherTypeIpv4
      (datagram n dstIp srcPort dstPort payload)) = max 60 (42 + payload.length) := by
    rw [rxLen, hlength, maxFrameSize]
    omega
  -- the frame of the datagram, received in any state that has the interface and the handler
  have hdatagram : ∀ (s' : Stack) (buffer' : Buffer), SameHost s s' k →
      (drain t k [n.frame (n.targetMac dstIp).value.1 etherTypeIpv4
        (datagram n dstIp srcPort dstPort payload)] buffer'
        s').log.filter Event.isUdp = [.udp handler n.ip srcPort dstPort payload] := by
    intro s' buffer' hsame
    have hholds : HoldsDatagram (rxBuffer buffer' (n.frame (n.targetMac dstIp).value.1 etherTypeIpv4
        (datagram n dstIp srcPort dstPort payload))) n (n.targetMac dstIp).value.1 dstIp srcPort
          dstPort payload :=
      rxBuffer_hasBytes buffer' (by omega)
    rw [drain, if_neg (by omega), log_bind, List.filter_append,
      handleFrame_datagram hholds hlen (by omega) (by rw [hsame.mac]; exact hmac)
        (hsame.ip.trans hip) (by rw [hsame.udp]; exact UdpEngine.handlerFor_of_mem hhandler)]
    split <;> rfl
  rw [poll, if_neg hpoll, send_transmitted hdev hup dstIp srcPort dstPort hlen]
  rcases targetMac_transmitted hdev hup dstIp with hnone | ⟨request, hrequest, hsome⟩
  · rw [hnone]
    exact hdatagram s buffer ⟨rfl, rfl, rfl, rfl⟩
  have hrequestLen := frame_length n .broadcast etherTypeArp request
  have harp := handleFrame_arp (s := s) (t := t) (k := k)
    (rxBuffer_hasBytes buffer
      (show (n.frame .broadcast etherTypeArp request).length ≤ 1518 by omega))
    (rxLen (n.frame .broadcast etherTypeArp request))
  have hrxRequest : rxLen (n.frame .broadcast etherTypeArp request) ≠ 0 := by
    rw [rxLen, hrequestLen, maxFrameSize]
    omega
  rw [hsome, List.singleton_append, drain, if_neg hrxRequest, log_bind, List.filter_append, harp.1,
    List.nil_append, harp.2.halted, hrunning, if_neg Bool.false_ne_true]
  exact hdatagram _ _ harp.2

/-- 10.0.0.2, which has not yet resolved any address. -/
def sampleSender : NetInterface :=
  ⟨some (Drivers.sampleDevice 0x020000000001
    (Drivers.answeringSchedule ++ Drivers.answeringSchedule)), 0x020000000001,
    .ofOctets 10 0 0 2, .ofOctets 255 255 255 0, 0, 0, fun _ => ⟨0, 0, false⟩, true, 1⟩

def sampleReceiver : Stack :=
  let s := (Stack.initial.initInterface Stack.primary
    (Drivers.sampleDevice 0x020000000002 Drivers.answeringSchedule)
    (.ofOctets 10 0 0 3) (.ofOctets 255 255 255 0) 0).value
  { s with udp := s.udp.registerHandler 7 (some (.external 1)) }

theorem sampleReceiver_called :
    (sampleReceiver.poll idleTelemetry 0
      (transmitted (UdpEngine.send sampleSender (.ofOctets 10 0 0 3) 5000 7
      [0x70, 0x69, 0x6E, 0x67]).log) fun _ => 0).log.filter Event.isUdp =
      [.udp (.external 1) (.ofOctets 10 0 0 2) 5000 7 [0x70, 0x69, 0x6E, 0x67]] :=
  udp_send_received rfl rfl ⟨rfl, rfl, rfl⟩ (by decide) (.inl (by decide)) rfl
    (by decide) idleTelemetry fun _ => 0

end LlamaOS.Net
