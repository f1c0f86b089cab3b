import LlamaOS.Net.ConnectionEffects

/-!
# The stream a connection delivers

An established connection hands every payload to its data callback, whatever its sequence
number. The bytes delivered are a prefix of the peer's stream as long as the network brings the
payloads in order.
-/

namespace LlamaOS.Net
open ByteBuffer Logged

namespace Event

/-- Neither an opened slot nor delivered data. -/
def Apart : Event → Prop
  | .opened _ => False
  | .data _ _ => False
  | _ => True

theorem Silent.apart (e : Event) (h : e.Silent) : e.Apart := by
  cases e <;> first | exact h.elim | trivial

theorem Own.apart {i : Fin 16} (e : Event) (h : e.Own i) : e.Apart := by
  cases e <;> first | exact h.elim | trivial

end Event

/-- The payloads that the data callback of slot `i` gets before the slot is initialised again. -/
def delivered (i : Fin 16) : List Event → List Byte
  | [] => []
  | .opened i' :: log => if i' = i then [] else delivered i log
  | .data i' bytes :: log => if i' = i then bytes ++ delivered i log else delivered i log
  | _ :: log => delivered i log

section
variable {i : Fin 16}

theorem delivered_append {log log' : List Event} (h : .opened i ∉ log) :
    delivered i (log ++ log') = delivered i log ++ delivered i log' := by
  induction log with
  | nil => rfl
  | cons e log ih =>
    obtain ⟨hhead, htail⟩ := not_or.mp (List.mem_cons.not.mp h)
    have hrest := ih htail
    cases e with
    | opened i' =>
      have hne : i' ≠ i := fun heq => hhead (by rw [heq])
      rw [List.cons_append, delivered, delivered, if_neg hne, if_neg hne]
      exact hrest
    | data i' bytes =>
      rw [List.cons_append, delivered, delivered, hrest]
      split
      · rw [List.append_assoc]
      · rfl
    | _ => exact hrest

theorem delivered_append_opened {log log' : List Event} (h : .opened i ∈ log) :
    delivered i (log ++ log') = delivered i log := by
  induction log with
  | nil => cases h
  | cons e log ih =>
    cases e with
    | opened i' =>
      rw [List.cons_append, delivered, delivered]
      split
      · rfl
      rename_i hne
      refine ih ((List.mem_cons.mp h).resolve_left fun heq => ?_)
      cases heq
      exact hne rfl
    | data i' bytes =>
      rw [List.cons_append, delivered, delivered,
        ih ((List.mem_cons.mp h).resolve_left fun heq => by cases heq)]
    | _ => exact ih ((List.mem_cons.mp h).resolve_left fun heq => by cases heq)

theorem not_opened_of_apart {log : List Event} (h : ∀ e ∈ log, e.Apart) : .opened i ∉ log :=
  fun hmem => h _ hmem

theorem delivered_apart {log : List Event} (h : ∀ e ∈ log, e.Apart) : delivered i log = [] := by
  induction log with
  | nil => rfl
  | cons e log ih =>
    obtain ⟨hhead, htail⟩ := List.forall_mem_cons.mp h
    cases e with
    | opened i' => exact hhead.elim
    | data i' bytes => exact hhead.elim
    | _ => exact ih htail

end

namespace Stack

theorem react_log (s : Stack) (i i' : Fin 16) (p : TcpPacket) (interfaces : Fin 4 → NetInterface) :
    .opened i' ∉ (s.react i p interfaces).log ∧
      delivered i' (s.react i p interfaces).log =
        if i = i' ∧ ((s.connections i).receive p.segment).dataCb ≠ none then p.payload else [] := by
  unfold react
  generalize { s.setConnection i ((s.connections i).receive p.segment).conn with interfaces } = s'
  generalize (s.connections i).receive p.segment = r
  have hconnect : Only Event.Apart (s'.runConnect i r.connectCb) := by
    unfold runConnect
    split
    · exact (s'.onClientConnect_only i).imp fun e he => he.silent.apart
    · exact .pure
  unfold runCallbacks
  simp only [log_bind, log_pure, List.append_nil]
  rw [List.mem_append, delivered_append (not_opened_of_apart hconnect), delivered_apart hconnect,
    List.nil_append]
  generalize (s'.runConnect i r.connectCb).value = s''
  cases r.dataCb with
  | none =>
    rw [if_neg fun h => h.2 rfl]
    exact ⟨not_or.mpr ⟨not_opened_of_apart hconnect, List.not_mem_nil⟩, rfl⟩
  | some service =>
    -- behind the delivery there are only a read and what the server does by itself
    obtain ⟨rest, hrest, hlog⟩ : ∃ rest, (∀ e ∈ rest, Event.Apart e) ∧
        (s''.runData p.telemetry i p.frame (p.pos + p.header.headerLen) (p.len - p.header.headerLen)
          (some service)).log = .data i p.payload :: rest := by
      cases service with
      | management =>
        refine ⟨.read _ _ :: (s''.onClientData p.telemetry i p.payload).log, ?_, rfl⟩
        refine List.forall_mem_cons.mpr ⟨trivial, ?_⟩
        exact (s''.onClientData_only p.telemetry i p.payload).imp Event.Own.apart
      | external address => exact ⟨[], List.forall_mem_nil _, rfl⟩
    rw [hlog, delivered, delivered_apart hrest, List.append_nil]
    refine ⟨not_or.mpr ⟨not_opened_of_apart hconnect,
      List.mem_cons.not.mpr (not_or.mpr ⟨nofun, not_opened_of_apart hrest⟩)⟩, ?_⟩
    by_cases hi : i = i'
    · rw [if_pos hi, if_pos ⟨hi, nofun⟩]
    · rw [if_neg hi, if_neg fun h => hi h.1]

inductive SlotStep (i : Fin 16) (s : Stack) (p : TcpPacket) (x : Logged Event Stack) : Prop where
  | aside (hconn : x.value.connections i = s.connections i) (hopened : .opened i ∉ x.log)
      (hdata : delivered i x.log = [])
  | reopened (hopened : .opened i ∈ x.log) (hdata : delivered i x.log = [])
  | reacted (hip : (s.connections i).remoteIp = p.srcIp)
      (hport : (s.connections i).remotePort = p.srcPort)
      (hlocal : (s.connections i).localPort = p.dstPort)
      (hconn : ((s.connections i).receive p.segment).conn.Follows (x.value.connections i))
        (hopened : .opened i ∉ x.log)
      (hdata : delivered i x.log = if ((s.connections i).receive p.segment).dataCb ≠
        none then p.payload else [])

theorem take_slotStep (i : Fin 16) (s : Stack) (p : TcpPacket) : SlotStep i s p (s.take p) := by
  have harrival := s.take_arrival p
  generalize s.take p = x at harrival
  cases harrival with
  | dropped hes =>
    have hapart := fun e he => Event.Silent.apart e (hes e he)
    refine .aside rfl ?_ ?_
    · rw [log_after, log_pure, List.append_nil]
      exact not_opened_of_apart hapart
    · rw [log_after, log_pure, List.append_nil]
      exact delivered_apart hapart
  | @found es i' interfaces hes hfind =>
    have hapart := fun e he => Event.Silent.apart e (hes e he)
    obtain ⟨hopened, hdata⟩ := s.react_log i' i p interfaces
    have htends := s.react_tends i' p interfaces
    have hnot : .opened i ∉ es ++ (s.react i' p interfaces).log :=
      List.mem_append.not.mpr (not_or.mpr ⟨not_opened_of_apart hapart, hopened⟩)
    have hall : delivered i (es ++ (s.react i' p interfaces).log) =
        delivered i (s.react i' p interfaces).log := by
      rw [delivered_append (not_opened_of_apart hapart), delivered_apart hapart, List.nil_append]
    by_cases hi : i' = i
    · subst hi
      obtain ⟨_, hip, hport, hlocal⟩ := findConnection_some hfind
      have hown := htends.own
      rw [setConnection_same] at hown
      refine .reacted hip hport hlocal hown hnot ?_
      rw [log_after, hall, hdata]
      simp only [true_and]
    · refine .aside ?_ hnot ?_
      · rw [value_after, htends.others i (Ne.symm hi), setConnection_other _ _ (Ne.symm hi)]
      · rw [log_after, hall, hdata, if_neg fun h => hi h.1]
  | @opened es es' i' l interfaces hes hes' hsyn hlistener hfree =>
    have hapart := fun e he => Event.Silent.apart e (hes e he)
    have hapart' := fun e he => Event.Silent.apart e (hes' e he)
    have hhead : delivered i (es ++ .opened i' :: es') = [] := by
      rw [delivered_append (not_opened_of_apart hapart), delivered_apart hapart, delivered,
        delivered_apart hapart']
      split <;> rfl
    by_cases hi : i' = i
    · subst hi
      have hmem : .opened i' ∈ es ++ .opened i' :: es' := List.mem_append_right _ List.mem_cons_self
      refine .reopened (List.mem_append_left _ hmem) ?_
      rw [log_after, delivered_append_opened hmem, hhead]
    generalize hopen : s.openSlot i' p.netif p.srcIp p.srcPort p.dstPort (s.listeners l) = s'
    have hsame : s'.connections i = s.connections i := by
      rw [← hopen]
      exact setConnection_other s _ (Ne.symm hi)
    obtain ⟨hopened, hdata⟩ := s'.react_log i' i p interfaces
    have hnot : .opened i ∉ es ++ .opened i' :: es' := by
      refine List.mem_append.not.mpr
        (not_or.mpr ⟨not_opened_of_apart hapart, List.mem_cons.not.mpr (not_or.mpr ⟨?_, ?_⟩)⟩)
      · intro heq
        cases heq
        exact hi rfl
      · exact not_opened_of_apart hapart'
    refine .aside ?_ (List.mem_append.not.mpr (not_or.mpr ⟨hnot, hopened⟩)) ?_
    · rw [value_after, (s'.react_tends i' p interfaces).others i (Ne.symm hi),
        setConnection_other _ _ (Ne.symm hi), hsame]
    · rw [log_after, delivered_append hnot, hhead, hdata, if_neg fun h => hi h.1]
      rfl

end Stack

/-- The other side of a connection: its address and the bytes that it sends, numbered from
`first` on. -/
structure Peer where
  ip : Ipv4Address
  port : BitVec 16
  localPort : BitVec 16
  first : BitVec 32
  stream : List Byte

def TcpPacket.From (p : TcpPacket) (peer : Peer) : Prop :=
  p.srcIp = peer.ip ∧ p.srcPort = peer.port ∧ p.dstPort = peer.localPort

def TcpConnection.Serves (c : TcpConnection) (peer : Peer) : Prop :=
  c.remoteIp = peer.ip ∧ c.remotePort = peer.port ∧ c.localPort = peer.localPort

/-- The packet carries the bytes of the stream from `offset` on, under their sequence number. -/
def Peer.SentAt (peer : Peer) (offset : Nat) (p : TcpPacket) : Prop :=
  p.segment.seqNum = peer.first + BitVec.ofNat 32 offset ∧ p.payload <+: peer.stream.drop offset

/-- Packets arrive one after the other. Those with the peer's address carry parts of its stream,
in any order and any number of times. -/
inductive Deliveries (peer : Peer) (Timely : Stack → List Event → TcpPacket → Prop) (s₀ : Stack) :
    Stack → List Event → Prop where
  | start : Deliveries peer Timely s₀ s₀ []
  | step {s : Stack} {log : List Event} (p : TcpPacket) (h : Deliveries peer Timely s₀ s log)
      (hsent : p.From peer → ∃ offset, peer.SentAt offset p) (htimely : Timely s log p) :
      Deliveries peer Timely s₀ (s.take p).value (log ++ (s.take p).log)

/-- A payload of the peer that slot `i` will deliver starts where the delivered bytes end. -/
def InOrder (peer : Peer) (i : Fin 16) (s : Stack) (log : List Event) (p : TcpPacket) : Prop :=
  .opened i ∉ log → p.From peer → (s.connections i).state = .established →
    (s.connections i).onData ≠ none → p.payload ≠ [] → peer.SentAt (delivered i log).length p

/-- The connection serves the peer and expects the byte behind the delivered ones, or it is on
its way out. -/
structure TcpConnection.Expects (c : TcpConnection) (peer : Peer) (count : Nat) : Prop where
  state : c.state = .established ∨ c.state = .lastAck ∨ c.state = .closed
  serves : c.state = .established → c.Serves peer
  ackNum : c.state = .established → c.onData ≠ none → c.ackNum = peer.first + BitVec.ofNat 32 count

namespace TcpConnection

variable {c c' : TcpConnection} {peer : Peer} {count : Nat}

theorem Expects.of_leaving (h : c.state = .lastAck ∨ c.state = .closed) : c.Expects peer count := by
  have hnot : c.state ≠ .established := by
    rcases h with h | h <;> rw [h] <;> exact TcpState.noConfusion
  exact ⟨.inr h, fun hstate => absurd hstate hnot, fun hstate => absurd hstate hnot⟩

theorem Expects.follows (h : c.Expects peer count) (hfollows : c.Follows c') :
    c'.Expects peer count := by
  rcases hfollows.state with hstate | hstate
  · obtain ⟨hstates, hserves, hackNum⟩ := h
    rw [← hstate] at hstates hserves hackNum
    refine ⟨hstates, fun hest => ?_, fun hest hdata => ?_⟩
    · unfold Serves
      rw [hfollows.remoteIp, hfollows.remotePort, hfollows.localPort]
      exact hserves hest
    · rw [hfollows.onData] at hdata
      rw [hfollows.ackNum]
      exact hackNum hest hdata
  · exact .of_leaving hstate

/-- A segment in order takes the connection on to the byte behind its payload. -/
theorem Expects.receive (h : c.Expects peer count) {seg : Segment} {count' : Nat}
    (hlen : (c.receive seg).dataCb ≠ none → seg.seqNum = peer.first + BitVec.ofNat 32 count ∧
      count' = count + seg.payloadLen)
    (hsame : (c.receive seg).dataCb = none → count' = count) :
    (c.receive seg).conn.Expects peer count' := by
  have hreaction := c.receive_reaction seg
  generalize c.receive seg = r at hreaction hlen hsame
  have hstates := h.state
  cases hreaction with
  | reset hrst => exact .of_leaving (.inr rfl)
  | opened hrst hstate hsyn =>
    rw [hstate] at hstates
    rcases hstates with h | h | h <;> cases h
  | connected hrst hstate hack =>
    rw [hstate] at hstates
    rcases hstates with h | h | h <;> cases h
  | acked hrst hstate hack => exact .of_leaving (.inr rfl)
  | ignored hignores =>
    rw [hsame rfl]
    exact h
  | taken hrst hstate =>
    by_cases hfin : seg.fin
    · obtain ⟨seqNum, htaken⟩ := @taken_fin c seg hfin
      rw [htaken]
      exact .of_leaving (.inl rfl)
    rw [taken_no_fin hfin]
    by_cases hpayload : 0 < seg.payloadLen
    · rw [if_pos hpayload] at hlen ⊢
      refine ⟨.inl hstate, fun _ => h.serves hstate, fun _ hdata => ?_⟩
      obtain ⟨hseq, hcount⟩ := hlen hdata
      rw [hseq, hcount, BitVec.ofNat_add, BitVec.add_assoc]
    · rw [if_neg hpayload] at hsame ⊢
      rw [hsame rfl]
      exact h

end TcpConnection

theorem prefix_append_of_drop {α : Type} {delivered payload stream : List α}
    (h : delivered <+: stream) (hnext : payload <+: stream.drop delivered.length) :
    delivered ++ payload <+: stream := by
  obtain ⟨rest, rfl⟩ := h
  rw [List.drop_left] at hnext
  exact (List.prefix_append_right_inj delivered).mpr hnext

structure InStep (peer : Peer) (i : Fin 16) (s : Stack) (log : List Event) : Prop where
  stream : delivered i log <+: peer.stream
  expects : .opened i ∉ log → (s.connections i).Expects peer (delivered i log).length

theorem InStep.take {peer : Peer} {i : Fin 16} {s : Stack} {log : List Event}
    (h : InStep peer i s log) {p : TcpPacket} (hinOrder : InOrder peer i s log p) :
    InStep peer i (s.take p).value (log ++ (s.take p).log) := by
  by_cases hopened : .opened i ∈ log
  · refine ⟨?_, fun hnot => absurd (List.mem_append_left _ hopened) hnot⟩
    rw [delivered_append_opened hopened]
    exact h.stream
  have hexpects := h.expects hopened
  have hlog := @delivered_append i log (s.take p).log hopened
  cases s.take_slotStep i p with
  | aside hconn _ hdata =>
    rw [hdata, List.append_nil] at hlog
    refine ⟨hlog.symm ▸ h.stream, fun _ => ?_⟩
    rw [hlog, hconn]
    exact hexpects
  | reopened hreopened hdata =>
    rw [hdata, List.append_nil] at hlog
    exact ⟨hlog.symm ▸ h.stream, fun hnot => absurd (List.mem_append_right _ hreopened) hnot⟩
  | reacted hip hport hlocal hconn _ hdata =>
    rw [hdata] at hlog
    -- a delivery needs an established connection, which is the peer's
    have hsent : ((s.connections i).receive p.segment).dataCb ≠ none →
        peer.SentAt (delivered i log).length p := by
      intro hdataCb
      have hreaction := (s.connections i).receive_reaction p.segment
      generalize (s.connections i).receive p.segment = r at hreaction hdataCb
      cases hreaction with
      | taken hrst hstate =>
        obtain ⟨hpeerIp, hpeerPort, hpeerLocal⟩ := hexpects.serves hstate
        have hfrom : p.From peer :=
          ⟨hip.symm.trans hpeerIp, hport.symm.trans hpeerPort, hlocal.symm.trans hpeerLocal⟩
        by_cases hpayload : 0 < p.segment.payloadLen
        · rw [if_pos hpayload] at hdataCb
          refine hinOrder hopened hfrom hstate hdataCb (List.ne_nil_of_length_pos ?_)
          rw [p.payload_length]
          exact hpayload
        · rw [if_neg hpayload] at hdataCb
          exact absurd rfl hdataCb
      | _ => exact absurd rfl hdataCb
    constructor
    · rw [hlog]
      split
      · rename_i hdataCb
        exact prefix_append_of_drop h.stream (hsent hdataCb).2
      · rw [List.append_nil]
        exact h.stream
    · intro _
      refine (hexpects.receive (fun hdataCb => ⟨(hsent hdataCb).1, ?_⟩) fun hdataCb => ?_).follows
        hconn
      · rw [hlog, if_pos hdataCb, List.length_append, p.payload_length]
      · rw [hlog, if_neg (not_not.mpr hdataCb), List.append_nil]

/-- As long as the network brings the payloads in order, the delivered bytes are a prefix of the
peer's stream, and the connection expects the byte behind them. -/
theorem delivered_in_stream {peer : Peer} {i : Fin 16} {s₀ : Stack}
    (hstate : (s₀.connections i).state = .established) (hserves : (s₀.connections i).Serves peer)
    (hfirst : (s₀.connections i).ackNum = peer.first) {s : Stack} {log : List Event}
    (hrun : Deliveries peer (InOrder peer i) s₀ s log) :
    delivered i log <+: peer.stream ∧
      (.opened i ∉ log → (s.connections i).state = .established → (s.connections i).onData ≠ none →
        (s.connections i).ackNum = peer.first + BitVec.ofNat 32 (delivered i log).length) := by
  have hinStep : InStep peer i s log := by
    induction hrun with
    | start =>
      refine ⟨List.nil_prefix, fun _ => ⟨.inl hstate, fun _ => hserves, fun _ _ => ?_⟩⟩
      rw [hfirst]
      exact (BitVec.add_zero peer.first).symm
    | step p _ _ htimely ih => exact ih.take htimely
  exact ⟨hinStep.stream, fun hopened => (hinStep.expects hopened).ackNum⟩

/-- A peer that sends two bytes to the management console. -/
def samplePeer : Peer := ⟨.ofOctets 10 0 0 2, 40000, 2222, 7001, [0x41, 0x42]⟩

def sampleServer : Stack :=
  { Stack.initial with connections := fun i => if i.val =
    0 then sampleConnection .established else .reset }

def samplePacket : TcpPacket where
  telemetry := idleTelemetry
  netif := Stack.primary
  srcIp := .ofOctets 10 0 0 2
  frame := fun i =>
    [0x9C, 0x40, 0x08, 0xAE, 0, 0, 0x1B, 0x59, 0, 1, 0x86, 0xA1, 0x50, 0x18, 0x40, 0, 0, 0, 0, 0,
    0x41, 0x42].getD i 0
  pos := 0
  len := 22

theorem samplePacket_sent : samplePeer.SentAt 0 samplePacket := by
  unfold Peer.SentAt
  decide +kernel

theorem samplePacket_delivered :
    ∃ s log, Deliveries samplePeer (InOrder samplePeer 0) sampleServer s log ∧
      delivered 0 log = samplePeer.stream ∧ delivered 0 log <+: samplePeer.stream := by
  have hrun : Deliveries samplePeer (InOrder samplePeer 0) sampleServer
      (sampleServer.take samplePacket).value ([] ++ (sampleServer.take samplePacket).log) :=
    .step samplePacket .start (fun _ => ⟨0, samplePacket_sent⟩) fun _ _ _ _ _ => samplePacket_sent
  exact ⟨_, _, hrun, by decide +kernel,
    (delivered_in_stream (by decide) (by unfold TcpConnection.Serves; decide) (by decide) hrun).1⟩

/-- A segment that the network duplicates is delivered twice. -/
theorem duplicate_delivered_twice :
    (sampleServer.connections 0).state = .established ∧
      (sampleServer.connections 0).Serves samplePeer ∧
      (sampleServer.connections 0).ackNum = samplePeer.first ∧
      ∃ s log, Deliveries samplePeer (fun _ _ _ => True) sampleServer s log ∧
        delivered 0 log = [0x41, 0x42, 0x41, 0x42] ∧ ¬ delivered 0 log <+: samplePeer.stream := by
  refine ⟨by decide, by unfold TcpConnection.Serves; decide, by decide, ?_⟩
  have hsent : samplePacket.From samplePeer → ∃ offset, samplePeer.SentAt offset samplePacket :=
    fun _ => ⟨0, samplePacket_sent⟩
  have hdelivered : delivered 0 ([] ++ (sampleServer.take samplePacket).log ++
      ((sampleServer.take samplePacket).value.take samplePacket).log) =
        [0x41, 0x42, 0x41, 0x42] := by
    decide +kernel
  refine ⟨_, _, .step samplePacket (.step samplePacket .start hsent trivial) hsent trivial,
    hdelivered, ?_⟩
  decide

end LlamaOS.Net
