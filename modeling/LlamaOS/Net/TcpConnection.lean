import LlamaOS.Net.Interface

/-!
# TCP connections

The connection of `tcp.cpp` by itself: what an arriving segment and the calls of a user do to
it, which segments it emits and which callbacks are due. The remote window, which nothing
reads, is left out.
-/

namespace LlamaOS.Net
open ByteBuffer

inductive TcpState where
  | closed
  | listen
  | synReceived
  | established
  | closeWait
  | lastAck
  | timeWait
  deriving DecidableEq, Repr

structure TcpConnection where
  netif : Option (Fin 4)
  remoteIp : Ipv4Address
  remotePort : BitVec 16
  localPort : BitVec 16
  state : TcpState
  seqNum : BitVec 32
  ackNum : BitVec 32
  active : Bool
  onData : Option Service
  onConnect : Option Service
  onClose : Option Service
  deriving DecidableEq

/-- A segment of `send_segment`, with the numbers of the connection at that moment. -/
structure Outgoing where
  netif : Fin 4
  remoteIp : Ipv4Address
  remotePort : BitVec 16
  localPort : BitVec 16
  seqNum : BitVec 32
  ackNum : BitVec 32
  flags : Byte
  payload : List Byte
  deriving DecidableEq

/-- `TcpEngine::calculate_tcp_checksum` -/
def calculateTcpChecksum (srcIp dstIp : Ipv4Address) (segment : List Byte) : BitVec 16 :=
  calculateChecksum segment
    (srcIp.toNat % 65536 + srcIp.toNat / 65536 + dstIp.toNat % 65536 + dstIp.toNat / 65536 +
      (htons (ipProtoTcp.setWidth 16)).toNat + (htons (.ofNat 16 segment.length)).toNat)

namespace Outgoing

def blankHeader (o : Outgoing) : TcpHeader where
  srcPort := htons o.localPort
  dstPort := htons o.remotePort
  seqNum := htonl o.seqNum
  ackNum := htonl o.ackNum
  dataOffset := .ofNat 8 (TcpHeader.size / 4 * 16)
  flags := o.flags
  windowSize := htons 16384
  checksum := 0
  urgentPtr := 0

/-- The bytes of the segment, sent from the given address. -/
def bytes (o : Outgoing) (srcIp : Ipv4Address) : List Byte :=
  { o.blankHeader with
    checksum := calculateTcpChecksum srcIp o.remoteIp (o.blankHeader.bytes ++ o.payload) }.bytes ++
      o.payload

end Outgoing

/-- What `handle_segment` reads of a segment. -/
structure Segment where
  flags : Byte
  seqNum : BitVec 32
  ackNum : BitVec 32
  payloadLen : Nat
  deriving DecidableEq

namespace Segment

def fin (seg : Segment) : Bool := seg.flags &&& tcpFlagFin != 0

def syn (seg : Segment) : Bool := seg.flags &&& tcpFlagSyn != 0

def rst (seg : Segment) : Bool := seg.flags &&& tcpFlagRst != 0

def ack (seg : Segment) : Bool := seg.flags &&& tcpFlagAck != 0

end Segment

/-- What is left when `handle_segment` gives up the lock: the connection, the segments it has
emitted and the callbacks to make. -/
structure Received where
  conn : TcpConnection
  sent : List Outgoing
  connectCb : Option Service
  dataCb : Option Service
  closeCb : Option Service
  deriving DecidableEq

namespace TcpConnection

def reset : TcpConnection where
  netif := none
  remoteIp := 0
  remotePort := 0
  localPort := 0
  state := .closed
  seqNum := 0
  ackNum := 0
  active := false
  onData := none
  onConnect := none
  onClose := none

def init (c : TcpConnection) (netif : Fin 4) (remoteIp : Ipv4Address)
    (remotePort localPort : BitVec 16) : TcpConnection :=
  { c with
    netif := some netif
    remoteIp
    remotePort
    localPort
    state := .listen
    seqNum := 100000
    ackNum := 0
    active := true }

/-- How far a segment takes the sequence number. -/
def advance (flags : Byte) (payloadLen : Nat) : BitVec 32 :=
  .ofNat 32 payloadLen + if flags &&& (tcpFlagSyn ||| tcpFlagFin) != 0 then 1 else 0

def sendSegment (c : TcpConnection) (flags : Byte) (payload : List Byte) :
    TcpConnection × List Outgoing :=
  match c.netif with
  | none => (c, [])
  | some netif => ({ c with seqNum := c.seqNum + advance flags payload.length },
      [⟨netif, c.remoteIp, c.remotePort, c.localPort, c.seqNum, c.ackNum, flags, payload⟩])

def send (c : TcpConnection) (data : List Byte) : TcpConnection × List Outgoing :=
  if c.state ≠ .established || data.isEmpty then (c, [])
  else c.sendSegment (tcpFlagAck ||| tcpFlagPsh) data

def close (c : TcpConnection) : TcpConnection × List Outgoing :=
  if c.state = .established then
    { c with state := .lastAck }.sendSegment (tcpFlagFin ||| tcpFlagAck) []
  else ({ c with state := .closed, active := false }, [])

/-- The payload of a segment is acknowledged. -/
def acknowledge (c : TcpConnection) (seg : Segment) : TcpConnection × List Outgoing :=
  if 0 < seg.payloadLen then
    { c with ackNum := seg.seqNum + BitVec.ofNat 32 seg.payloadLen }.sendSegment tcpFlagAck []
  else (c, [])

def finish (c : TcpConnection) (seg : Segment) : TcpConnection × List Outgoing :=
  if seg.fin then
    { c with
      ackNum := seg.seqNum + BitVec.ofNat 32 seg.payloadLen + 1, state := .lastAck }.sendSegment
      (tcpFlagFin ||| tcpFlagAck) []
  else (c, [])

/-- The part of `handle_segment` under the lock of the connection. -/
def receive (c : TcpConnection) (seg : Segment) : Received :=
  if seg.rst then ⟨{ c with state := .closed, active := false }, [], none, none, c.onClose⟩
  else match c.state with
    | .listen =>
      if seg.syn then
        let sent := { c with ackNum := seg.seqNum + 1, state := .synReceived }.sendSegment
          (tcpFlagSyn ||| tcpFlagAck) []
        ⟨sent.1, sent.2, none, none, none⟩
      else ⟨c, [], none, none, none⟩
    | .synReceived =>
      if seg.ack then ⟨{ c with state := .established }, [], c.onConnect, none, none⟩
      else ⟨c, [], none, none, none⟩
    | .established =>
      let acked := c.acknowledge seg
      let finished := acked.1.finish seg
      ⟨finished.1, acked.2 ++ finished.2, none, if 0 < seg.payloadLen then c.onData else none,
        if seg.fin then c.onClose else none⟩
    | .lastAck =>
      if seg.ack then ⟨{ c with state := .closed, active := false }, [], none, none, none⟩
      else ⟨c, [], none, none, none⟩
    | _ => ⟨c, [], none, none, none⟩

/-- The segments that leave a connection alone. -/
def Ignores (c : TcpConnection) (seg : Segment) : Prop :=
  ¬ seg.rst ∧ match c.state with
    | .listen => ¬ seg.syn
    | .synReceived => ¬ seg.ack
    | .established => False
    | .lastAck => ¬ seg.ack
    | _ => True

/-- The connection after a payload and a FIN have been taken. -/
def taken (c : TcpConnection) (seg : Segment) : TcpConnection × List Outgoing :=
  (((c.acknowledge seg).1.finish seg).1,
    (c.acknowledge seg).2 ++ ((c.acknowledge seg).1.finish seg).2)

/-- All that a segment can do to a connection. -/
inductive Reaction (c : TcpConnection) (seg : Segment) : Received → Prop where
  | reset (hrst : seg.rst) :
      Reaction c seg ⟨{ c with state := .closed, active := false }, [], none, none, c.onClose⟩
  | opened (hrst : ¬ seg.rst) (hstate : c.state = .listen) (hsyn : seg.syn) :
      Reaction c seg
        ⟨({ c with ackNum := seg.seqNum + 1, state := .synReceived }.sendSegment
          (tcpFlagSyn ||| tcpFlagAck) []).1,
          ({ c with ackNum := seg.seqNum + 1, state := .synReceived }.sendSegment
            (tcpFlagSyn ||| tcpFlagAck) []).2,
          none, none, none⟩
  | connected (hrst : ¬ seg.rst) (hstate : c.state = .synReceived) (hack : seg.ack) :
      Reaction c seg ⟨{ c with state := .established }, [], c.onConnect, none, none⟩
  | taken (hrst : ¬ seg.rst) (hstate : c.state = .established) :
      Reaction c seg ⟨(c.taken seg).1, (c.taken seg).2, none,
        if 0 < seg.payloadLen then c.onData else none, if seg.fin then c.onClose else none⟩
  | acked (hrst : ¬ seg.rst) (hstate : c.state = .lastAck) (hack : seg.ack) :
      Reaction c seg ⟨{ c with state := .closed, active := false }, [], none, none, none⟩
  | ignored (h : c.Ignores seg) : Reaction c seg ⟨c, [], none, none, none⟩

theorem receive_reaction (c : TcpConnection) (seg : Segment) : c.Reaction seg (c.receive seg) := by
  by_cases hrst : seg.rst
  · rw [receive, if_pos hrst]
    exact .reset hrst
  rw [receive, if_neg hrst]
  cases hstate : c.state with
  | listen =>
    by_cases hsyn : seg.syn
    · simp only [if_pos hsyn]
      exact .opened hrst hstate hsyn
    · simp only [if_neg hsyn]
      exact .ignored ⟨hrst, by rw [hstate]; exact hsyn⟩
  | synReceived =>
    by_cases hack : seg.ack
    · simp only [if_pos hack]
      exact .connected hrst hstate hack
    · simp only [if_neg hack]
      exact .ignored ⟨hrst, by rw [hstate]; exact hack⟩
  | established => exact .taken hrst hstate
  | lastAck =>
    by_cases hack : seg.ack
    · simp only [if_pos hack]
      exact .acked hrst hstate hack
    · simp only [if_neg hack]
      exact .ignored ⟨hrst, by rw [hstate]; exact hack⟩
  | closed => exact .ignored ⟨hrst, by rw [hstate]; trivial⟩
  | closeWait => exact .ignored ⟨hrst, by rw [hstate]; trivial⟩
  | timeWait => exact .ignored ⟨hrst, by rw [hstate]; trivial⟩

theorem sendSegment_conn (c : TcpConnection) (flags : Byte) (payload : List Byte) :
    ∃ seqNum, (c.sendSegment flags payload).1 = { c with seqNum } := by
  unfold sendSegment
  split
  · exact ⟨c.seqNum, rfl⟩
  · exact ⟨_, rfl⟩

theorem acknowledge_conn (c : TcpConnection) (seg : Segment) :
    (c.acknowledge seg).1 =
      if 0 < seg.payloadLen then { c with ackNum := seg.seqNum + BitVec.ofNat 32 seg.payloadLen }
      else c := by
  unfold acknowledge
  split
  · -- an acknowledgement without data takes no sequence number
    have hadvance : advance tcpFlagAck 0 = 0#32 := by decide
    unfold sendSegment
    split
    · rfl
    · rw [List.length_nil, hadvance, BitVec.add_zero]
  · rfl

theorem taken_fin {c : TcpConnection} {seg : Segment} (hfin : seg.fin) :
    ∃ seqNum, (c.taken seg).1 =
      { c with
        seqNum, ackNum := seg.seqNum + BitVec.ofNat 32 seg.payloadLen + 1, state := .lastAck } := by
  unfold taken finish
  rw [if_pos hfin, acknowledge_conn]
  obtain ⟨seqNum, hsent⟩ := sendSegment_conn
    { (if 0 < seg.payloadLen then { c with ackNum := seg.seqNum + BitVec.ofNat 32 seg.payloadLen }
        else c) with
      ackNum := seg.seqNum + BitVec.ofNat 32 seg.payloadLen + 1, state :=
        .lastAck } (tcpFlagFin ||| tcpFlagAck) []
  refine ⟨seqNum, ?_⟩
  rw [hsent]
  split <;> rfl

theorem taken_no_fin {c : TcpConnection} {seg : Segment} (hfin : ¬ seg.fin) :
    (c.taken seg).1 =
      if 0 < seg.payloadLen then { c with ackNum := seg.seqNum + BitVec.ofNat 32 seg.payloadLen }
      else c := by
  unfold taken finish
  rw [if_neg hfin, acknowledge_conn]

end TcpConnection

end LlamaOS.Net
