import LlamaOS.Net.FrameBounds

/-!
# What the stack emits

Every frame that a call of the stack gives to the device has checksums that verify, and echo
requests are answered.
-/

namespace LlamaOS.Net
open ByteBuffer Logged Stack NetInterface
open Drivers (VirtioNetDevice)

/-- The calls of the stack that send something. -/
inductive NetCall where
  | initInterface (k : Fin 4) (dev : VirtioNetDevice) (ip netmask gateway : Ipv4Address)
  | poll (t : Telemetry) (k : Fin 4) (frames : List (List Byte)) (buffer : Buffer)
  | udpSend (k : Fin 4) (dstIp : Ipv4Address) (srcPort dstPort : BitVec 16) (payload : List Byte)
  | tcpSend (i : Fin 16) (data : List Byte)
  | tcpClose (i : Fin 16)

def Stack.perform (s : Stack) : NetCall → Logged Event Stack
  | .initInterface k dev ip netmask gateway => s.initInterface k dev ip netmask gateway
  | .poll t k frames buffer => s.poll t k frames buffer
  | .udpSend k dstIp srcPort dstPort payload => do
    let sent ← UdpEngine.send (s.interfaces k) dstIp srcPort dstPort payload
    pure (s.setInterface k sent.2)
  | .tcpSend i data => do
    let sent ← s.send i data
    pure sent.2
  | .tcpClose i => s.close i

section Verified

variable (s : Stack) (t : Telemetry) (k : Fin 4)

theorem handleFrame_verified (frame : Buffer) (frameLen : Nat) :
    Only Event.Verified (s.handleFrame t k frame frameLen) := by
  unfold handleFrame
  split
  · exact .pure
  refine .bind (only_fetch _ trivial) ?_
  split
  · exact .pure
  refine .bind (only_fetch _ trivial) ?_
  split
  · exact (s.handleArp_only frame k _ _).imp fun e he => (Event.Plain.inside e he).verified
  split
  · refine .bind ((learnSender_only s k frame _).imp Event.Inside.verified) ?_
    refine handleIpv4_only _ t k frame Event.Inside.verified fun _ => ?_
    refine (dispatch_only _ t k frame _ _ _ _).imp fun e he => ?_
    rcases he with he | rfl
    · exact he.verified
    · trivial
  · exact .pure

theorem drain_verified (frames : List (List Byte)) (buffer : Buffer) :
    Only Event.Verified (drain t k frames buffer s) := by
  induction frames generalizing buffer s with
  | nil => exact .pure
  | cons frame frames ih =>
    rw [drain]
    split
    · exact .pure
    refine .bind (handleFrame_verified s t k _ _) ?_
    split
    · exact .pure
    · exact ih _ _

theorem perform_verified (call : NetCall) : Only Event.Verified (s.perform call) := by
  cases call with
  | initInterface k dev ip netmask gateway =>
    unfold perform initInterface
    dsimp only
    split
    · exact .pure
    split
    · exact .bind ((NetInterface.sendArpRequest_only _ _).imp Event.Outbound.verified) .pure
    · exact .pure
  | poll t k frames buffer =>
    unfold perform poll
    dsimp only
    split
    · exact .pure
    · exact drain_verified s t k frames buffer
  | udpSend k dstIp srcPort dstPort payload =>
    exact .bind ((UdpEngine.send_only _ _ _ _ _).imp Event.Outbound.verified) .pure
  | tcpSend i data => exact .bind ((s.send_only i data).imp Event.Outbound.verified) .pure
  | tcpClose i => exact (s.close_only i).imp Event.Outbound.verified

end Verified

/-- `calculate_checksum` is the checksum of RFC 1071; stored in a field it makes the data verify;
and every IPv4 frame that the stack gives to a device verifies, its header and its ICMP or TCP
message. -/
theorem emitted_checksums_verify :
    (∀ data : List Byte, data.length ≤ 65535 → htons (calculateChecksum data 0) = rfc1071 data) ∧
    (∀ front back : List Byte, front.length % 2 = 0 → front.length + 2 + back.length ≤ 65535 →
      calculateChecksum (front ++
        (leBytes 2 (calculateChecksum (front ++ (leBytes 2 0 ++ back)) 0).toNat ++ back)) 0 = 0) ∧
    ∀ (s : Stack) (call : NetCall) (frame : List Byte),
      .transmit frame ∈ (s.perform call).log → FrameVerifies (ofBytes frame) := by
  refine ⟨fun _ => htons_calculateChecksum, fun front back heven hlen => ?_,
    fun s call frame hframe => ?_⟩
  · have hfront := wordSum_le front
    have hback := wordSum_le back
    exact stored_checksum_verifies heven (by omega)
  · exact perform_verified s call _ hframe

/-- An established connection on an interface that is up, with a device that follows the
schedule. -/
def connectedStack (schedule : List (List Drivers.TxStep)) : Stack :=
  { initial with
    interfaces := fun _ =>
      ⟨some (Drivers.sampleDevice 1 schedule), 1, 2, 0, 0, 0, fun i => ⟨3, 5, i.val == 0⟩, true, 1⟩
    connections := fun _ =>
      { TcpConnection.reset with netif := some primary, remoteIp := 3, state := .established } }

def answeringStack : Stack := connectedStack Drivers.answeringSchedule

/-- The first frame that a log has. -/
def firstFrame (log : List Event) : List Byte :=
  (log.findSome? fun e => match e with
    | .transmit frame => some frame
    | _ => none).getD []

/-- The frame of a TCP segment with three bytes. -/
theorem emitted_checksums_verify_sample :
    let frame := firstFrame (answeringStack.perform (.tcpSend 0 [1, 2, 3])).log
    .transmit frame ∈ (answeringStack.perform (.tcpSend 0 [1, 2, 3])).log ∧ frame.length = 60 ∧
      (EthernetHeader.load (ofBytes frame) 0).ethertype = htons etherTypeIpv4 ∧
      (Ipv4Header.load (ofBytes frame) 14).protocol = ipProtoTcp ∧
      calculateTcpChecksum 2 3 (slice (ofBytes frame) 34 23) = 0 := by
  have hframe : .transmit (firstFrame (answeringStack.perform (.tcpSend 0 [1, 2, 3])).log) ∈
      (answeringStack.perform (.tcpSend 0 [1, 2, 3])).log := by decide +kernel
  have hfields : (firstFrame (answeringStack.perform (.tcpSend 0 [1, 2, 3])).log).length = 60 ∧
      EthernetHeader.ethertype
        (.load (ofBytes (firstFrame (answeringStack.perform (.tcpSend 0 [1, 2, 3])).log)) 0) =
        htons etherTypeIpv4 ∧
      let ip :=
    Ipv4Header.load (ofBytes (firstFrame (answeringStack.perform (.tcpSend 0 [1, 2, 3])).log)) 14
      ip.protocol = ipProtoTcp ∧ ip.srcIp = 2 ∧ ip.dstIp = 3 ∧
        (ntohs ip.totalLength).toNat - 20 = 23 := by
    decide +kernel
  obtain ⟨hlen, htype, hprotocol, hsrc, hdst, htotal⟩ := hfields
  have hverifies :=
    emitted_checksums_verify.2.2 answeringStack (.tcpSend 0 [1, 2, 3]) _ hframe htype
  have htcp := hverifies.2.2 hprotocol
  rw [hsrc, hdst, htotal] at htcp
  exact ⟨hframe, hlen, htype, hprotocol, htcp⟩

def NetInterface.packetFrame (n : NetInterface) (dstIp : Ipv4Address) (protocol : Byte)
    (payload : List Byte) : List Byte :=
  n.frame (n.targetMac dstIp).value.1 etherTypeIpv4
    ((n.header dstIp protocol payload.length).bytes ++ payload)

/-- On an interface that can send, the frame of a packet is given to the device as the ARP request,
if one was needed, has left it. -/
theorem NetInterface.sendIpv4_ready {n : NetInterface} {d : VirtioNetDevice} (hdev : n.dev = some d)
    (hup : n.up) (dstIp : Ipv4Address) (protocol : Byte) {payload : List Byte}
    (hlen : payload.length ≤ 1460) :
    ∃ d', (n.targetMac dstIp).value.2 = { n with dev := some d' } ∧ d'.initialized = d.initialized ∧
      n.sendIpv4 dstIp protocol payload =
        ⟨((d'.transmit (n.packetFrame dstIp protocol payload)).1,
            { n with dev := some (d'.transmit (n.packetFrame dstIp protocol payload)).2, nextIpId :=
              n.nextIpId + 1 }),
          (n.targetMac dstIp).log ++ [.transmit (n.packetFrame dstIp protocol payload)]⟩ := by
  obtain ⟨d', hroute, hinit⟩ := (n.targetMac_same dstIp).device hdev
  refine ⟨d', hroute, hinit, ?_⟩
  have hready : ¬ (n.dev.isNone || !n.up || 1460 < payload.length) := by simp [hdev, hup, hlen]
  have hsize : ((n.header dstIp protocol payload.length).bytes ++ payload).length ≤ 1504 := by
    rw [List.length_append, Ipv4Header.bytes_length]
    omega
  rw [sendIpv4, if_neg hready, packetFrame]
  rcases hmac : n.targetMac dstIp with ⟨⟨mac, n'⟩, log⟩
  rw [hmac] at hroute
  obtain rfl : n' = { n with dev := some d' } := hroute
  exact congrArg (fun x : Logged Event (Bool × NetInterface) => (⟨(x.value.1,
    { x.value.2 with nextIpId := x.value.2.nextIpId + 1 }), log ++ (x.log ++ [])⟩ : Logged Event
      (Bool × NetInterface)))
    (sendEthernet_ready (n := { n with dev := some d' }) rfl hup mac etherTypeIpv4 hsize)

def Event.sent : Event → Option (List Byte)
  | .transmit frame => some frame
  | _ => none

section Echo

variable (s : Stack) (k : Fin 4) (srcIp : Ipv4Address) (frame : Buffer) (pos len : Nat)

/-- A packet with an echo request whose checksum is right, on an interface that can send. -/
structure EchoRequest : Prop where
  checksum : calculateChecksum (slice frame pos len) 0 = 0
  type : frame pos = icmpTypeEchoRequest
  code : frame (pos + 1) = 0
  header : 8 ≤ len
  size : len ≤ 1460
  device : (s.interfaces k).dev.isSome
  up : (s.interfaces k).up

/-- One echo reply goes out, with everything behind the checksum of the request and a checksum that
is right. -/
def EchoAnswered : Prop :=
  ∃ checksum : BitVec 16,
    let reply :=
      icmpTypeEchoReply :: 0 :: leBytes 2 checksum.toNat ++ slice frame (pos + 4) (len - 4)
    calculateChecksum reply 0 = 0 ∧
      (s.handleIcmp k srcIp frame pos len).log.filterMap Event.sent =
        ((s.interfaces k).targetMac srcIp).log.filterMap Event.sent ++
          [(s.interfaces k).packetFrame srcIp ipProtoIcmp reply]

variable {s k srcIp frame pos len}

theorem packetFrame_length {n : NetInterface} {dstIp : Ipv4Address} {protocol : Byte}
    {payload : List Byte} (hlen : 26 ≤ payload.length) :
    (n.packetFrame dstIp protocol payload).length = 34 + payload.length := by
  have hheader := Ipv4Header.bytes_length (n.header dstIp protocol payload.length)
  have hethernet :=
    EthernetHeader.bytes_length ⟨(n.targetMac dstIp).value.1, n.mac, htons etherTypeIpv4⟩
  simp only [packetFrame, frame, List.length_append, List.length_replicate, hheader, hethernet,
    EthernetHeader.size]
  omega

theorem handleIcmp_sent (h : EchoRequest s k frame pos len) :
    (s.handleIcmp k srcIp frame pos len).log.filterMap Event.sent =
      ((s.interfaces k).targetMac srcIp).log.filterMap Event.sent ++
        [(s.interfaces k).packetFrame srcIp
          ipProtoIcmp (echoReply (slice frame pos (min len 512)))] := by
  obtain ⟨d, hdev⟩ := Option.isSome_iff_exists.mp h.device
  have hreply : (echoReply (slice frame pos (min len 512))).length = min len 512 := by
    have hheader := h.header
    simp only [echoReply, List.cons_append, List.length_cons, List.length_append, leBytes_length,
      List.length_drop, slice_length]
    omega
  have hshort : (echoReply (slice frame pos (min len 512))).length ≤ 1460 := by
    rw [hreply]
    omega
  obtain ⟨d', _, _, hsend⟩ := NetInterface.sendIpv4_ready hdev h.up srcIp ipProtoIcmp hshort
  rw [handleIcmp, if_neg (Nat.not_lt.mpr h.header)]
  simp only [log_bind, log_fetch, value_fetch, h.checksum, h.type, h.code, Stack.sendIpv4]
  simp [Event.sent, List.filterMap_cons, hsend]

theorem echo_truncated (h : EchoRequest s k frame pos len) (hlong : 512 < len) :
    ¬ EchoAnswered s k srcIp frame pos len := by
  rintro ⟨checksum, _, hlog⟩
  rw [handleIcmp_sent h] at hlog
  have hframes := congrArg List.length (List.cons.inj (List.append_cancel_left hlog)).1
  rw [packetFrame_length, packetFrame_length] at hframes <;>
    simp only [echoReply, List.cons_append, List.length_cons, List.length_append, leBytes_length,
      List.length_drop, slice_length] at *
  · omega
  · omega
  · omega

theorem echo_answered_iff (h : EchoRequest s k frame pos len) :
    EchoAnswered s k srcIp frame pos len ↔ len ≤ 512 := by
  constructor
  · intro hanswered
    exact Nat.le_of_not_lt fun hlong => echo_truncated h hlong hanswered
  · intro hlen
    have hsent := @handleIcmp_sent s k srcIp frame pos len h
    rw [Nat.min_eq_left hlen] at hsent
    obtain ⟨n, rfl⟩ := Nat.exists_eq_add_of_le (Nat.le_trans (show 4 ≤ 8 by decide) h.header)
    have hdata : (slice frame pos (4 + n)).drop 4 = slice frame (pos + 4) n := by
      rw [slice_append, List.drop_left' (slice_length _ _ _)]
    rw [EchoAnswered, hsent, Nat.add_sub_cancel_left, echoReply, hdata]
    exact ⟨_, hdata ▸ echoReply_verifies (by rw [slice_length]; exact hlen), rfl⟩

end Echo

/-- The start of an echo request without data; zeros follow. -/
def echoFrame : Buffer := fun i => [8, 0, 0xF7, 0xFF].getD i 0

theorem echoFrame_answered : EchoAnswered answeringStack 0 2 echoFrame 0 8 :=
  (echo_answered_iff ⟨by decide, rfl, rfl, by decide, by decide, rfl, rfl⟩).mpr (by decide)

theorem echoFrame_cut : EchoRequest answeringStack 0 echoFrame 0 600 ∧
    ¬ EchoAnswered answeringStack 0 2 echoFrame 0 600 := by
  have hrequest : EchoRequest answeringStack 0 echoFrame 0 600 :=
    ⟨by decide +kernel, rfl, rfl, by decide, by decide, rfl, rfl⟩
  exact ⟨hrequest, echo_truncated hrequest (by decide)⟩

end LlamaOS.Net
