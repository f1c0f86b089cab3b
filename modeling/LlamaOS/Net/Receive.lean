import LlamaOS.Net.Management

/-!
# The receive path

`NetInterface::poll` and `handle_ipv4`, and the packet handlers of `udp.cpp` and `tcp.cpp`. The
frame buffer holds a received frame and, behind it, whatever was there before.
-/

namespace LlamaOS.Net
open ByteBuffer EthernetHeader

namespace Stack

def handleUdp (s : Stack) (k : Fin 4) (srcIp : Ipv4Address) (frame : Buffer) (pos len : Nat) :
    Logged Event Stack :=
  if len < UdpHeader.size then pure s
  else do
    let udp := UdpHeader.load frame pos
    let srcPort ← fetch pos 2 (ntohs udp.srcPort)
    let dstPort ← fetch (pos + 2) 2 (ntohs udp.dstPort)
    let ulen ← fetch (pos + 4) 2 (ntohs udp.length).toNat
    if len < ulen || ulen < UdpHeader.size then pure s
    else match s.udp.handlerFor dstPort with
      | none => pure s
      | some handler => do
        Logged.record (.udp handler srcIp srcPort dstPort
          (slice frame (pos + UdpHeader.size) (ulen - UdpHeader.size))) ()
        match handler with
        | .dhcpClient => s.handleDhcp k frame (pos + UdpHeader.size) (ulen - UdpHeader.size)
        | .external _ => pure s

def findConnection (s : Stack) (srcIp : Ipv4Address) (srcPort dstPort : BitVec 16) :
    Option (Fin 16) :=
  (List.finRange 16).find? fun i => (s.connections i).active &&
    (s.connections i).remoteIp == srcIp &&
    (s.connections i).remotePort == srcPort && (s.connections i).localPort == dstPort

def findListener (s : Stack) (port : BitVec 16) : Option (Fin 8) :=
  (List.finRange 8).find? fun l => (s.listeners l).active && (s.listeners l).port == port

def freeSlot (s : Stack) : Option (Fin 16) :=
  (List.finRange 16).find? fun i => !(s.connections i).active || (s.connections i).state == .closed

def openSlot (s : Stack) (i : Fin 16) (k : Fin 4) (srcIp : Ipv4Address)
    (srcPort dstPort : BitVec 16) (l : Listener) : Stack :=
  s.setConnection i { (s.connections i).init k srcIp srcPort dstPort with
    onData := l.onData, onConnect := l.onConnect, onClose := l.onClose, active := true }

/-- The connection of a segment: the one with its addresses, or a new one for a first SYN. -/
def locate (s : Stack) (k : Fin 4) (srcIp : Ipv4Address) (srcPort dstPort : BitVec 16)
    (flags : Byte) : Logged Event (Option (Fin 16) × Stack) :=
  match s.findConnection srcIp srcPort dstPort with
  | some i => pure (some i, s)
  | none =>
    if flags &&& tcpFlagSyn != 0 && flags &&& tcpFlagAck == 0 then
      match s.findListener dstPort with
      | none => pure (none, s)
      | some l => match s.freeSlot with
        | none => pure (none, s)
        | some i =>
          .record (.opened i) (some i, s.openSlot i k srcIp srcPort dstPort (s.listeners l))
    else pure (none, s)

def runConnect (s : Stack) (i : Fin 16) : Option Service → Logged Event Stack
  | some .management => s.onClientConnect i
  | _ => pure s

def runData (s : Stack) (t : Telemetry) (i : Fin 16) (frame : Buffer) (pos len : Nat) :
    Option Service → Logged Event Stack
  | none => pure s
  | some service => do
    Logged.record (.data i (slice frame pos len)) ()
    match service with
    | .management => do
      let bytes ← fetch pos len (slice frame pos len)
      s.onClientData t i bytes
    | .external _ => pure s

def runClose (s : Stack) (i : Fin 16) : Option Service → Stack
  | some .management => s.onClientClose i
  | _ => s

/-- The callbacks that are due for a segment. -/
def runCallbacks (s : Stack) (t : Telemetry) (i : Fin 16) (frame : Buffer) (dataPos dataLen : Nat)
    (r : Received) : Logged Event Stack := do
  let s ← s.runConnect i r.connectCb
  let s ← s.runData t i frame dataPos dataLen r.dataCb
  pure (if s.halted then s else s.runClose i r.closeCb)

/-- `TcpConnection::handle_segment` of slot `i`, with the header at `pos`. -/
def handleSegment (s : Stack) (t : Telemetry) (i : Fin 16) (frame : Buffer)
    (pos dataPos dataLen : Nat) : Logged Event Stack := do
  let tcp := TcpHeader.load frame pos
  let segSeq ← fetch (pos + 4) 4 (ntohl tcp.seqNum)
  let segAck ← fetch (pos + 8) 4 (ntohl tcp.ackNum)
  let flags ← fetch (pos + 13) 1 tcp.flags
  let r := (s.connections i).receive ⟨flags, segSeq, segAck, dataLen⟩
  let sent ← (s.setConnection i r.conn).emit r.sent
  sent.2.runCallbacks t i frame dataPos dataLen r

def handleTcp (s : Stack) (t : Telemetry) (k : Fin 4) (srcIp : Ipv4Address) (frame : Buffer)
    (pos len : Nat) : Logged Event Stack :=
  if len < TcpHeader.size then pure s
  else do
    let tcp := TcpHeader.load frame pos
    let srcPort ← fetch pos 2 (ntohs tcp.srcPort)
    let dstPort ← fetch (pos + 2) 2 (ntohs tcp.dstPort)
    let hdrLen ← fetch (pos + 12) 1 tcp.headerLen
    if hdrLen < TcpHeader.size || len < hdrLen then pure s
    else do
      let flags ← fetch (pos + 13) 1 tcp.flags
      let found ← s.locate k srcIp srcPort dstPort flags
      match found.1 with
      | none => pure found.2
      | some i => found.2.handleSegment t i frame pos (pos + hdrLen) (len - hdrLen)

/-- `size_t proto_len = total_len - hdr_len` -/
def protoLen (totalLen hdrLen : Nat) : Nat :=
  (BitVec.ofNat 64 totalLen - BitVec.ofNat 64 hdrLen).toNat

/-- The handler of the protocol is called with the payload at `pos`. -/
def dispatch (s : Stack) (t : Telemetry) (k : Fin 4) (srcIp : Ipv4Address) (protocol : Byte)
    (frame : Buffer) (pos len : Nat) : Logged Event Stack :=
  if protocol = ipProtoIcmp then do
    Logged.record (.handed protocol len) ()
    s.handleIcmp k srcIp frame pos len
  else if protocol = ipProtoUdp then do
    Logged.record (.handed protocol len) ()
    s.handleUdp k srcIp frame pos len
  else if protocol = ipProtoTcp then do
    Logged.record (.handed protocol len) ()
    s.handleTcp t k srcIp frame pos len
  else pure s

/-- Packets for this address, for everyone, or for an interface without an address. -/
def accepts (n : NetInterface) (dstIp : Ipv4Address) : Bool :=
  dstIp = n.ip || dstIp = .broadcast || dstIp = .ofOctets 255 255 255 255 || n.ip = .any

def handleIpv4 (s : Stack) (t : Telemetry) (k : Fin 4) (frame : Buffer) (pos len : Nat) :
    Logged Event Stack :=
  if len < Ipv4Header.size then pure s
  else do
    let ip := Ipv4Header.load frame pos
    let version ← fetch pos 1 ip.version
    if version ≠ 4 then pure s
    else do
      let hdrLen ← fetch pos 1 ip.headerLen
      if hdrLen < Ipv4Header.size || len < hdrLen then pure s
      else do
        let totalLen ← fetch (pos + 2) 2 (ntohs ip.totalLength).toNat
        if len < totalLen then pure s
        else do
          let header ← fetch pos hdrLen (slice frame pos hdrLen)
          if calculateChecksum header 0 ≠ 0 then pure s
          else do
            let dstIp ← fetch (pos + 16) 4 ip.dstIp
            if !accepts (s.interfaces k) dstIp then pure s
            else do
              let protocol ← fetch (pos + 9) 1 ip.protocol
              let srcIp ← fetch (pos + 12) 4 ip.srcIp
              s.dispatch t k srcIp protocol frame (pos + hdrLen) (protoLen totalLen hdrLen)

/-- The senders of IPv4 packets are entered in the ARP table. -/
def learnSender (s : Stack) (k : Fin 4) (frame : Buffer) (payloadLen : Nat) : Logged Event Stack :=
  if payloadLen < Ipv4Header.size then pure s
  else do
    let srcIp ← fetch (size + 12) 4 (Ipv4Header.load frame size).srcIp
    let src ← fetch 6 6 (load frame 0).src
    pure (s.setInterface k { s.interfaces k with arp := (s.interfaces k).arp.insert srcIp src })

/-- The body of the loop of `poll`, for a frame of `frameLen` bytes. -/
def handleFrame (s : Stack) (t : Telemetry) (k : Fin 4) (frame : Buffer) (frameLen : Nat) :
    Logged Event Stack :=
  if frameLen < size then pure s
  else do
    let eth := load frame 0
    let dest ← fetch 0 6 eth.dest
    if dest ≠ (s.interfaces k).mac && dest ≠ .broadcast then pure s
    else do
      let ethertype ← fetch 12 2 (ntohs eth.ethertype)
      let payloadLen := frameLen - size
      if ethertype = etherTypeArp then s.handleArp k frame size payloadLen
      else if ethertype = etherTypeIpv4 then do
        let s ← s.learnSender k frame payloadLen
        s.handleIpv4 t k frame size payloadLen
      else pure s

/-- The frame buffer after `poll_rx` has copied a frame into it. -/
def rxBuffer (buffer : Buffer) (frame : List Byte) : Buffer :=
  patch buffer 0 (frame.take NetInterface.maxFrameSize)

def rxLen (frame : List Byte) : Nat := min frame.length NetInterface.maxFrameSize

/-- The loop of `poll` over the frames that wait in the receive queue; an empty one ends it. -/
def drain (t : Telemetry) (k : Fin 4) : List (List Byte) → Buffer → Stack → Logged Event Stack
  | [], _, s => pure s
  | frame :: frames, buffer, s =>
    if rxLen frame = 0 then pure s
    else do
      let s ← s.handleFrame t k (rxBuffer buffer frame) (rxLen frame)
      if s.halted then pure s else drain t k frames (rxBuffer buffer frame) s

def poll (s : Stack) (t : Telemetry) (k : Fin 4) (frames : List (List Byte)) (buffer : Buffer) :
    Logged Event Stack :=
  if (s.interfaces k).dev.isNone || !(s.interfaces k).up then pure s else drain t k frames buffer s

end Stack

end LlamaOS.Net
