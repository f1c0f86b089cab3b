import LlamaOS.Net.Checksums
import LlamaOS.Net.Receive

/-!
# What the handlers do on the way

The events of each function of the stack, by kind: what goes out to the device, with checksums that
verify, what the management server does, and which bytes of the frame buffer are read.
-/

namespace LlamaOS.Net
open ByteBuffer Logged UdpHeader

namespace Event

/-- A frame that is given to the device has checksums that verify. -/
def Verified : Event → Prop
  | .transmit frame => FrameVerifies (ofBytes frame)
  | _ => True

/-- Something is given to the device. -/
def Outbound : Event → Prop
  | .transmit frame => FrameVerifies (ofBytes frame)
  | .overflow _ => True
  | _ => False

/-- A read below `hi`, or something given to the device. -/
def Plain (hi : Nat) : Event → Prop
  | .read pos len => pos + len ≤ hi
  | .transmit frame => FrameVerifies (ofBytes frame)
  | .overflow _ => True
  | _ => False

def Executed : Event → Prop
  | .transmit frame => FrameVerifies (ofBytes frame)
  | .overflow _ => True
  | .command _ _ _ => True
  | .privileged _ _ => True
  | _ => False

/-- What the management server does by itself for connection `i`. -/
def Own (i : Fin 16) : Event → Prop
  | .transmit frame => FrameVerifies (ofBytes frame)
  | .overflow _ => True
  | .input i' _ => i' = i
  | .command _ _ _ => True
  | .privileged _ _ => True
  | _ => False

/-- Reads stay below `hi`, and no protocol handler is called. -/
def Inside (hi : Nat) : Event → Prop
  | .read pos len => pos + len ≤ hi
  | .handed _ _ => False
  | .transmit frame => FrameVerifies (ofBytes frame)
  | _ => True

theorem Outbound.plain (hi : Nat) (e : Event) (h : e.Outbound) : e.Plain hi := by
  cases e <;> first | exact h | exact h.elim

theorem Outbound.executed (e : Event) (h : e.Outbound) : e.Executed := by
  cases e <;> first | exact h | exact h.elim

theorem Executed.own (i : Fin 16) (e : Event) (h : e.Executed) : e.Own i := by
  cases e <;> first | exact h | exact h.elim

theorem Plain.inside {hi : Nat} (e : Event) (h : e.Plain hi) : e.Inside hi := by
  cases e <;> first | exact h | exact h.elim

theorem Own.inside {i : Fin 16} (hi : Nat) (e : Event) (h : e.Own i) : e.Inside hi := by
  cases e <;> first | exact h | exact h.elim | trivial

theorem Outbound.verified (e : Event) (h : e.Outbound) : e.Verified := by
  cases e <;> first | exact h | trivial

theorem Inside.verified {hi : Nat} (e : Event) (h : e.Inside hi) : e.Verified := by
  cases e <;> first | exact h | trivial

end Event

theorem only_fetch {α : Type} {P : Event → Prop} {pos len : Nat} (a : α) (h : P (.read pos len)) :
    Only P (fetch pos len a) := .record h

/-- A read inside a header, once the length of the packet is checked. -/
theorem only_header {α : Type} {P : Event → Prop} (a : α) {pos len size at' width : Nat}
    (hP : ∀ at' width, at' + width ≤ pos + len → P (.read at' width))
    (hend : at' + width ≤ pos + size) (hlen : ¬ len < size) : Only P (fetch at' width a) :=
  only_fetch a (hP _ _ (by omega))

namespace NetInterface

variable (n : NetInterface)

theorem sendEthernet_only {destMac : MacAddress} {ethertype : BitVec 16} {payload : List Byte}
    (h : FrameVerifies (ofBytes (n.frame destMac ethertype payload))) :
    Only Event.Outbound (n.sendEthernet destMac ethertype payload) := by
  have hevent : Event.Outbound (.transmit (n.frame destMac ethertype payload)) := h
  unfold sendEthernet
  split
  · exact .pure
  · split
    · exact .pure
    · exact .record hevent

theorem sendArpRequest_only (targetIp : Ipv4Address) :
    Only Event.Outbound (n.sendArpRequest targetIp) :=
  n.sendEthernet_only (verifies_of_arp (hasBytes_ofBytes _))

theorem sendArpReply_only (targetIp : Ipv4Address) (targetMac : MacAddress) :
    Only Event.Outbound (n.sendArpReply targetIp targetMac) :=
  n.sendEthernet_only (verifies_of_arp (hasBytes_ofBytes _))

theorem targetMac_only (dstIp : Ipv4Address) : Only Event.Outbound (n.targetMac dstIp) := by
  unfold targetMac
  split
  · exact .pure
  · split
    · exact .pure
    · exact .bind (n.sendArpRequest_only _) (.pure)

theorem sendIpv4_only {dstIp : Ipv4Address} {protocol : Byte} {payload : List Byte}
    (h : payload.length ≤ 1460 → MessageVerifies protocol n.ip dstIp payload) :
    Only Event.Outbound (n.sendIpv4 dstIp protocol payload) := by
  unfold sendIpv4
  split
  · exact .pure
  rename_i hready
  simp only [Bool.or_eq_true, decide_eq_true_eq, not_or, Nat.not_lt] at hready
  refine .bind (n.targetMac_only dstIp) (.bind (sendEthernet_only _ ?_) (.pure))
  have hip : (n.targetMac dstIp).value.2.ip = n.ip := by
    obtain ⟨dev, hroute, _⟩ := n.targetMac_same dstIp
    rw [hroute]
  exact HoldsPacket.verifies (hasBytes_ofBytes _) hready.2 (by rw [hip]; exact h hready.2)

end NetInterface

theorem UdpEngine.send_only (n : NetInterface) (dstIp : Ipv4Address) (srcPort dstPort : BitVec 16)
    (payload : List Byte) :
    Only Event.Outbound (UdpEngine.send n dstIp srcPort dstPort payload) := by
  unfold UdpEngine.send
  split
  · exact .pure
  · exact n.sendIpv4_only fun _ => ⟨fun h => absurd h (by decide), fun h => absurd h (by decide)⟩

namespace Stack

variable (s : Stack) (t : Telemetry) (frame : Buffer)

theorem sendIpv4_only {k : Fin 4} {dstIp : Ipv4Address} {protocol : Byte} {payload : List Byte}
    (h : payload.length ≤ 1460 → MessageVerifies protocol (s.interfaces k).ip dstIp payload) :
    Only Event.Outbound (s.sendIpv4 k dstIp protocol payload) :=
  .bind ((s.interfaces k).sendIpv4_only h) (.pure)

theorem fillBuffer_only (len : Nat) : Only Event.Outbound (fillBuffer len) := by
  unfold fillBuffer
  split
  · exact .record trivial
  · exact .pure

theorem emit_only (sent : List Outgoing) : Only Event.Outbound (s.emit sent) := by
  induction sent generalizing s with
  | nil => exact .pure
  | cons o sent ih =>
    have hmessage : (o.bytes (s.interfaces o.netif).ip).length ≤ 1460 →
        MessageVerifies ipProtoTcp (s.interfaces o.netif).ip o.remoteIp
          (o.bytes (s.interfaces o.netif).ip) := by
      intro hlen
      have hbytes : (o.bytes (s.interfaces o.netif).ip).length = 20 + o.payload.length :=
        List.length_append
      exact ⟨fun h => absurd h (by decide), fun _ => o.bytes_verify _ (by omega)⟩
    rw [emit]
    refine .bind (fillBuffer_only _) (.bind (s.sendIpv4_only hmessage) ?_)
    split
    · exact .pure
    · exact ih _

theorem send_only (i : Fin 16) (data : List Byte) : Only Event.Outbound (s.send i data) :=
  emit_only _ _

theorem close_only (i : Fin 16) : Only Event.Outbound (s.close i) := .bind (emit_only _ _) (.pure)

theorem handleArp_only (k : Fin 4) (pos len : Nat) :
    Only (Event.Plain (pos + len)) (s.handleArp k frame pos len) := by
  have hread := fun {α : Type} (a : α) {at' width} =>
    @only_header α (Event.Plain (pos + len)) a pos len 28 at' width fun _ _ h => h
  unfold handleArp
  split
  · exact .pure
  rename_i hlen
  refine .bind (hread _ (by omega) hlen) (.bind (hread _ (by omega) hlen) ?_)
  split
  · exact .pure
  refine .bind (hread _ (by omega) hlen)
    (.bind (hread _ (by omega) hlen) (.bind (hread _ (by omega) hlen) ?_))
  split
  · refine .bind (hread _ (by omega) hlen) ?_
    split
    · exact .bind ((NetInterface.sendArpReply_only _ _ _).imp (Event.Outbound.plain _)) (.pure)
    · exact .pure
  · exact .pure

theorem handleIcmp_only (k : Fin 4) (srcIp : Ipv4Address) (pos len : Nat) :
    Only (Event.Plain (pos + len)) (s.handleIcmp k srcIp frame pos len) := by
  unfold handleIcmp
  split
  · exact .pure
  refine .bind (only_fetch _ (Nat.le_refl (pos + len))) ?_
  split
  · exact .pure
  refine .bind (only_fetch _ (show pos + 1 ≤ pos + len by omega))
    (.bind (only_fetch _ (show pos + 1 + 1 ≤ pos + len by omega)) ?_)
  split
  · refine .bind (only_fetch _ (show pos + min len 512 ≤ pos + len by omega)) ?_
    refine .bind ((s.sendIpv4_only fun _ => ⟨fun _ => ?_, fun h => absurd h (by decide)⟩).imp
      (Event.Outbound.plain _)) (.pure)
    exact echoReply_verifies (by rw [value_fetch, slice_length]; exact Nat.min_le_right _ _)
  · exact .pure

theorem sendDhcpRequest_only : Only Event.Outbound s.sendDhcpRequest := by
  unfold sendDhcpRequest
  split
  · exact .pure
  · exact .bind (UdpEngine.send_only _ _ _ _ _) (.pure)

theorem readOption_only {pos optLen hi : Nat} (opt : Byte) (o : DhcpOptions)
    (h : pos + optLen ≤ hi) : Only (Event.Plain hi) (readOption frame pos opt optLen o) := by
  unfold readOption
  simp only [Bool.and_eq_true, decide_eq_true_eq]
  repeat' split
  all_goals first
    | exact .pure
    | exact only_fetch _ (show pos + _ ≤ hi by omega)

theorem readOptions_only (pos len left : Nat) (offset : Nat) (o : DhcpOptions) :
    Only (Event.Plain (pos + len)) (readOptions frame pos len left offset o) := by
  induction left generalizing offset o with
  | zero => exact .pure
  | succ left ih =>
    rw [readOptions]
    split
    · exact .pure
    refine .bind (only_fetch _ (show pos + offset + 1 ≤ pos + len by omega)) ?_
    split
    · exact ih _ _
    split
    · exact .pure
    split
    · exact .pure
    refine .bind (only_fetch _ (show pos + (offset + 1) + 1 ≤ pos + len by omega)) ?_
    split
    · exact .pure
    · exact .bind (readOption_only frame _ _ (by omega)) (ih _ _)

theorem setGateway_only (n : NetInterface) (gw : Ipv4Address) :
    Only Event.Outbound (setGateway n gw) := by
  unfold setGateway
  split
  · exact .bind (NetInterface.sendArpRequest_only _ _) (.pure)
  · exact .pure

theorem bind_only (k : Fin 4) (o : DhcpOptions) : Only Event.Outbound (s.bind k o) := by
  unfold bind configure
  refine .bind ?_ (.pure)
  dsimp only
  split
  · exact .bind (setGateway_only _ _) (.pure)
  · exact .pure

theorem handleDhcp_only (k : Fin 4) (pos len : Nat) :
    Only (Event.Plain (pos + len)) (s.handleDhcp k frame pos len) := by
  have hread := fun {α : Type} (a : α) {at' width} =>
    @only_header α (Event.Plain (pos + len)) a pos len 240 at' width fun _ _ h => h
  unfold handleDhcp
  split
  · exact .pure
  rename_i hlen
  refine .bind (hread _ (by omega) hlen) ?_
  split
  · exact .pure
  refine .bind (hread _ (by omega) hlen) ?_
  split
  · exact .pure
  refine .bind (hread _ (by omega) hlen) ?_
  split
  · exact .pure
  refine .bind (readOptions_only frame pos len _ _ _) ?_
  split
  · exact .bind (hread _ (by omega) hlen) ((sendDhcpRequest_only _).imp (Event.Outbound.plain _))
  · split
    · exact (s.bind_only k _).imp (Event.Outbound.plain _)
    · exact .pure

theorem reply_only (i : Fin 16) (texts : List (List Byte)) :
    Only Event.Outbound (s.reply i texts) := by
  induction texts generalizing s with
  | nil => exact .pure
  | cons text texts ih =>
    rw [reply]
    exact .bind (s.send_only i text) (ih _)

theorem authenticate_only (j i : Fin 16) (supplied : List Byte) :
    Only Event.Outbound (s.authenticate j i supplied) := by
  unfold authenticate
  dsimp only
  split
  · exact reply_only _ _ _
  · split
    · exact .bind (reply_only _ _ _) (.bind (close_only _ _) (.pure))
    · exact reply_only _ _ _

section

variable {P : Event → Prop} (hout : ∀ e : Event, e.Outbound → P e)
include hout

theorem execute_all {i : Fin 16} (hprivileged : ∀ command, P (.privileged i command))
    (cmd : List Byte) : Only P (s.execute t i cmd) := by
  unfold execute
  split
  · exact .bind (.record (hprivileged _)) (.bind ((s.reply_only _ _).imp hout) (.pure))
  · exact (s.reply_only _ _).imp hout

/-- Only an authenticated session executes privileged commands, for its connection. -/
theorem processCommand_all {j : Fin 16}
    (hcommand : ∀ i text authenticated, P (.command i text authenticated))
    (hprivileged : ∀ i, (s.sessions j).conn = some i ∧ (s.sessions j).authenticated = true →
      ∀ command, P (.privileged i command)) : Only P (s.processCommand t j) := by
  have hreply := fun i texts => (s.reply_only i texts).imp hout
  unfold processCommand
  dsimp only
  split
  · exact .pure
  rename_i i hconn
  refine .bind (.record (hcommand _ _ _)) ?_
  split
  · exact hreply _ _
  split
  · exact (s.authenticate_only _ _ _).imp hout
  split
  · exact hreply _ _
  split
  · exact .bind (hreply _ _) (.bind ((close_only _ _).imp hout) (.pure))
  · split
    · exact hreply _ _
    · rename_i hauth
      exact s.execute_all t hout
        (hprivileged i ⟨hconn, Bool.not_eq_false _ ▸ Bool.not_eq_true' _ ▸ hauth⟩) _

end

theorem processCommand_only (j : Fin 16) : Only Event.Executed (s.processCommand t j) :=
  s.processCommand_all t Event.Outbound.executed (fun _ _ _ => trivial) fun _ _ _ => trivial

theorem onClientConnect_only (i : Fin 16) : Only Event.Outbound (s.onClientConnect i) := by
  unfold onClientConnect
  split
  · exact reply_only _ _ _
  · exact .bind (reply_only _ _ _) (close_only _ _)

theorem inputByte_only (i j : Fin 16) (c : Byte) : Only (Event.Own i) (s.inputByte t i j c) := by
  unfold inputByte
  dsimp only
  refine .bind (.record (show Event.Own i (.input i c) from rfl)) ?_
  split
  · exact .pure
  split
  · split
    · exact (s.reply_only _ _).imp fun e he => Event.Executed.own i e he.executed
    · exact .bind ((s.processCommand_only t j).imp (Event.Executed.own i)) (.pure)
  split
  · exact .pure
  · split
    · exact .pure
    · exact .pure

theorem inputBytes_only (i j : Fin 16) (bytes : List Byte) :
    Only (Event.Own i) (inputBytes t i j bytes s) := by
  induction bytes generalizing s with
  | nil => exact .pure
  | cons c bytes ih =>
    rw [inputBytes]
    refine .bind (s.inputByte_only t i j c) ?_
    split
    · exact .pure
    · exact ih _

theorem onClientData_only (i : Fin 16) (bytes : List Byte) :
    Only (Event.Own i) (s.onClientData t i bytes) := by
  unfold onClientData
  split
  · exact .pure
  · split
    · exact inputBytes_only _ t _ _ _
    · exact .pure

theorem handleUdp_only (k : Fin 4) (srcIp : Ipv4Address) (pos len : Nat) :
    Only (Event.Inside (pos + len)) (s.handleUdp k srcIp frame pos len) := by
  have hread := fun {α : Type} (a : α) {at' width} =>
    @only_header α (Event.Inside (pos + len)) a pos len 8 at' width fun _ _ h => h
  unfold handleUdp
  split
  · exact .pure
  rename_i hlen
  refine .bind (hread _ (by omega) hlen)
    (.bind (hread _ (by omega) hlen) (.bind (hread _ (by omega) hlen) ?_))
  split
  · exact .pure
  rename_i hulen
  split
  · exact .pure
  refine .bind (.record trivial) ?_
  split
  · refine (s.handleDhcp_only frame k _ _).imp fun e he => Event.Plain.inside e ?_
    simp only [Bool.or_eq_true, decide_eq_true_eq, not_or, Nat.not_lt] at hulen
    simp only [size, value_fetch] at hulen he
    have hend : pos + 8 + ((ntohs (load frame pos).length).toNat - 8) ≤ pos + len := by omega
    cases e with
    | read at' width => exact Nat.le_trans he hend
    | _ => exact he
  · exact .pure

theorem runCallbacks_only (i : Fin 16) (pos len : Nat) (r : Received) :
    Only (Event.Inside (pos + len)) (s.runCallbacks t i frame pos len r) := by
  unfold runCallbacks
  refine .bind ?_ (.bind ?_ (.pure))
  · unfold runConnect
    split
    · exact (s.onClientConnect_only i).imp fun e he => Event.Plain.inside e (he.plain _)
    · exact .pure
  · unfold runData
    split
    · exact .pure
    refine .bind (.record trivial) ?_
    split
    · exact .bind (only_fetch _ (Nat.le_refl (pos + len)))
        ((onClientData_only _ t i _).imp (Event.Own.inside _))
    · exact .pure

theorem locate_only (hi : Nat) (k : Fin 4) (srcIp : Ipv4Address) (srcPort dstPort : BitVec 16)
    (flags : Byte) : Only (Event.Inside hi) (s.locate k srcIp srcPort dstPort flags) := by
  unfold locate
  split
  · exact .pure
  split
  · split
    · exact .pure
    · split
      · exact .pure
      · exact .record trivial
  · exact .pure

theorem handleTcp_only (k : Fin 4) (srcIp : Ipv4Address) (pos len : Nat) :
    Only (Event.Inside (pos + len)) (s.handleTcp t k srcIp frame pos len) := by
  have hread := fun {α : Type} (a : α) {at' width} =>
    @only_header α (Event.Inside (pos + len)) a pos len 20 at' width fun _ _ h => h
  unfold handleTcp
  split
  · exact .pure
  rename_i hlen
  refine .bind (hread _ (by omega) hlen)
    (.bind (hread _ (by omega) hlen) (.bind (hread _ (by omega) hlen) ?_))
  split
  · exact .pure
  rename_i hhdr
  refine .bind (hread _ (by omega) hlen) (.bind (s.locate_only _ _ _ _ _ _) ?_)
  split
  · exact .pure
  refine .bind (hread _ (by omega) hlen)
    (.bind (hread _ (by omega) hlen) (.bind (hread _ (by omega) hlen) (.bind ?_ ?_)))
  · exact (emit_only _ _).imp fun e he => Event.Plain.inside e (Event.Outbound.plain _ e he)
  · simp only [Bool.or_eq_true, decide_eq_true_eq, not_or, Nat.not_lt] at hhdr
    simp only [TcpHeader.size, value_fetch] at hhdr
    have hend :
        pos + (TcpHeader.load frame pos).headerLen + (len - (TcpHeader.load frame pos).headerLen) =
        pos + len := by omega
    rw [← hend]
    exact runCallbacks_only _ t frame _ _ _ _

end Stack

end LlamaOS.Net
