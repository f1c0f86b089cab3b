import LlamaOS.Net.TcpConnection

/-!
# The state of the network stack

The static tables of the network modules in one record, the emission of segments, and the
handlers of `arp.cpp`, `icmp.cpp` and `dhcp.cpp`. A packet lies in a frame buffer without an
end; each part of it that is read is recorded.
-/

namespace LlamaOS.Net
open ByteBuffer PackedFields

structure DhcpLease where
  ip : Ipv4Address := 0
  subnetMask : Ipv4Address := 0
  gateway : Ipv4Address := 0
  dns : Ipv4Address := 0
  serverIp : Ipv4Address := 0
  leaseTimeSec : BitVec 32 := 0
  renewTimeSec : BitVec 32 := 0
  rebindTimeSec : BitVec 32 := 0
  valid : Bool := false
  deriving DecidableEq

inductive DhcpState where
  | init
  | discoverSent
  | offerReceived
  | requestSent
  | bound
  | failed
  deriving DecidableEq, Repr

structure DhcpClient where
  netif : Option (Fin 4)
  state : DhcpState
  xid : BitVec 32
  offeredIp : Ipv4Address
  serverIp : Ipv4Address
  lease : DhcpLease

structure Listener where
  port : BitVec 16
  onData : Option Service
  onConnect : Option Service
  onClose : Option Service
  active : Bool
  deriving DecidableEq

/-- A session of the management console; `cmdBuffer` has the `cmd_len` characters of the line
so far. -/
structure ClientSession where
  conn : Option (Fin 16)
  cmdBuffer : List Byte
  authenticated : Bool
  failedAuthAttempts : BitVec 32
  active : Bool
  deriving DecidableEq

structure Stack where
  interfaces : Fin 4 → NetInterface
  udp : UdpEngine
  dhcp : DhcpClient
  listeners : Fin 8 → Listener
  connections : Fin 16 → TcpConnection
  sessions : Fin 16 → ClientSession
  /-- `s_admin_token` before its terminator -/
  adminToken : List Byte
  /-- The machine has been rebooted or powered off. -/
  halted : Bool

namespace Stack

def primary : Fin 4 := 0

def setInterface (s : Stack) (k : Fin 4) (n : NetInterface) : Stack :=
  { s with interfaces := Function.update s.interfaces k n }

def setConnection (s : Stack) (i : Fin 16) (c : TcpConnection) : Stack :=
  { s with connections := Function.update s.connections i c }

def setSession (s : Stack) (j : Fin 16) (session : ClientSession) : Stack :=
  { s with sessions := Function.update s.sessions j session }

def sendIpv4 (s : Stack) (k : Fin 4) (dstIp : Ipv4Address) (protocol : Byte) (payload : List Byte) :
    Logged Event (Bool × Stack) := do
  let sent ← (s.interfaces k).sendIpv4 dstIp protocol payload
  pure (sent.1, s.setInterface k sent.2)

/-- The size of the packet buffer of `send_segment`. -/
def segmentBuffer : Nat := 1500

/-- The copy of a payload of `len` bytes into that buffer. -/
def fillBuffer (len : Nat) : Logged Event Unit :=
  if segmentBuffer < TcpHeader.size + len then
    .record (.overflow (TcpHeader.size + len - segmentBuffer)) ()
  else pure ()

/-- The segments go out in turn; the result is that of the last one. -/
def emit (s : Stack) : List Outgoing → Logged Event (Bool × Stack)
  | [] => pure (false, s)
  | o :: sent => do
    fillBuffer o.payload.length
    let done ← s.sendIpv4 o.netif o.remoteIp ipProtoTcp (o.bytes (s.interfaces o.netif).ip)
    if sent.isEmpty then pure done else done.2.emit sent

def send (s : Stack) (i : Fin 16) (data : List Byte) : Logged Event (Bool × Stack) :=
  (s.setConnection i ((s.connections i).send data).1).emit ((s.connections i).send data).2

def close (s : Stack) (i : Fin 16) : Logged Event Stack := do
  let done ← (s.setConnection i (s.connections i).close.1).emit (s.connections i).close.2
  pure done.2

/-- `ArpEngine::handle_packet` of interface `k`, for a packet of `len` bytes at `pos`. -/
def handleArp (s : Stack) (k : Fin 4) (frame : Buffer) (pos len : Nat) : Logged Event Stack :=
  if len < ArpHeader.size then pure s
  else do
    let arp := ArpHeader.load frame pos
    let hwType ← fetch pos 2 arp.hwType
    let protoType ← fetch (pos + 2) 2 arp.protoType
    if ntohs hwType ≠ arpHwEthernet || ntohs protoType ≠ etherTypeIpv4 then pure s
    else do
      let opcode ← fetch (pos + 6) 2 arp.opcode
      let senderMac ← fetch (pos + 8) 6 arp.senderMac
      let senderIp ← fetch (pos + 14) 4 arp.senderIp
      let n := { s.interfaces k with arp := (s.interfaces k).arp.insert senderIp senderMac }
      if ntohs opcode = arpOpRequest then do
        let targetIp ← fetch (pos + 24) 4 arp.targetIp
        if targetIp = n.ip then do
          let answered ← n.sendArpReply senderIp senderMac
          pure (s.setInterface k answered.2)
        else pure (s.setInterface k n)
      else pure (s.setInterface k n)

def echoReply (message : List Byte) : List Byte :=
  let blank := icmpTypeEchoReply :: 0 :: 0 :: 0 :: message.drop 4
  icmpTypeEchoReply :: 0 :: leBytes 2 (calculateChecksum blank 0).toNat ++ message.drop 4

def handleIcmp (s : Stack) (k : Fin 4) (srcIp : Ipv4Address) (frame : Buffer) (pos len : Nat) :
    Logged Event Stack :=
  if len < 8 then pure s
  else do
    let message ← fetch pos len (slice frame pos len)
    if calculateChecksum message 0 ≠ 0 then pure s
    else do
      let type ← fetch pos 1 (frame pos)
      let code ← fetch (pos + 1) 1 (frame (pos + 1))
      if type = icmpTypeEchoRequest && code = 0 then do
        let copied ← fetch pos (min len 512) (slice frame pos (min len 512))
        let sent ← s.sendIpv4 k srcIp ipProtoIcmp (echoReply copied)
        pure sent.2
      else pure s

def dhcpHeaderSize : Nat := 240

/-- `DhcpClient::send_request` -/
def sendDhcpRequest (s : Stack) : Logged Event Stack :=
  match s.dhcp.netif with
  | none => pure s
  | some k => do
    let request := pack [1, 1, 1, 1, 4, 2, 2, 4, 4, 4, 4, 6, 10, 64, 128, 4]
        [1, 1, 6, 0, (htonl s.dhcp.xid).toNat, 0, (htons 0x8000).toNat, 0, 0, 0, 0,
          (s.interfaces k).mac.toNat, 0, 0, 0, 0x63538263] ++
      [53, 1, 3] ++ [50, 4] ++ leBytes 4 s.dhcp.offeredIp.toNat ++ [54, 4] ++
        leBytes 4 s.dhcp.serverIp.toNat ++ [255]
    let s := { s with dhcp := { s.dhcp with state := .requestSent } }
    let sent ← UdpEngine.send (s.interfaces k) .broadcast 68 67 request
    pure (s.setInterface k sent.2)

structure DhcpOptions where
  msgType : Byte := 0
  serverId : Ipv4Address := 0
  subnetMask : Ipv4Address := 0
  router : Ipv4Address := 0
  dns : Ipv4Address := 0
  leaseTime : BitVec 32 := 0
  renewTime : BitVec 32 := 0
  rebindTime : BitVec 32 := 0
  deriving DecidableEq

/-- One option of `optLen` bytes at `pos`. -/
def readOption (frame : Buffer) (pos : Nat) (opt : Byte) (optLen : Nat) (o : DhcpOptions) :
    Logged Event DhcpOptions :=
  let word : BitVec 32 := .ofNat 32 (loadLe frame pos 4)
  if opt = 53 && optLen = 1 then fetch pos 1 { o with msgType := frame pos }
  else if opt = 54 && optLen = 4 then fetch pos 4 { o with serverId := word }
  else if opt = 1 && optLen = 4 then fetch pos 4 { o with subnetMask := word }
  else if opt = 3 && 4 ≤ optLen then fetch pos 4 { o with router := word }
  else if opt = 6 && 4 ≤ optLen then fetch pos 4 { o with dns := word }
  else if opt = 51 && optLen = 4 then fetch pos 4 { o with leaseTime := ntohl word }
  else if opt = 58 && optLen = 4 then fetch pos 4 { o with renewTime := ntohl word }
  else if opt = 59 && optLen = 4 then fetch pos 4 { o with rebindTime := ntohl word }
  else pure o

/-- The option loop of `handle_udp` from `offset` on; every round takes a byte, so that `left`
rounds do for `left` bytes. -/
def readOptions (frame : Buffer) (pos len : Nat) :
    Nat → Nat → DhcpOptions → Logged Event DhcpOptions
  | 0, _, o => pure o
  | left + 1, offset, o =>
    if len ≤ offset then pure o
    else do
      let opt ← fetch (pos + offset) 1 (frame (pos + offset))
      if opt = 0 then readOptions frame pos len left (offset + 1) o
      else if opt = 255 then pure o
      else if len ≤ offset + 1 then pure o
      else do
        let optLen ← fetch (pos + (offset + 1)) 1 (frame (pos + (offset + 1))).toNat
        if len < offset + 2 + optLen then pure o
        else do
          let o ← readOption frame (pos + (offset + 2)) opt optLen o
          readOptions frame pos len left (offset + 2 + optLen) o

def setGateway (n : NetInterface) (gw : Ipv4Address) : Logged Event NetInterface :=
  if gw ≠ 0 && n.up then do
    let asked ← { n with gateway := gw }.sendArpRequest gw
    pure asked.2
  else pure { n with gateway := gw }

def setDns (n : NetInterface) (dns : Ipv4Address) : NetInterface :=
  if dns ≠ 0 then { n with dns } else n

/-- The interface takes over the address of a lease and the options of the acknowledgement. -/
def configure (n : NetInterface) (ip : Ipv4Address) (o : DhcpOptions) : Logged Event NetInterface :=
  let n := { n with ip, netmask := if o.subnetMask ≠ 0 then o.subnetMask else n.netmask }
  if o.router ≠ 0 then do
    let n ← setGateway n o.router
    pure (setDns n o.dns)
  else pure (setDns n o.dns)

/-- The lease of an acknowledgement is taken over by the client and the interface. -/
def bind (s : Stack) (k : Fin 4) (o : DhcpOptions) : Logged Event Stack := do
  let n ← configure (s.interfaces k) s.dhcp.offeredIp o
  pure ({ s with
    dhcp := { s.dhcp with
      state := .bound
      lease :=
        ⟨s.dhcp.offeredIp, o.subnetMask, o.router, o.dns, s.dhcp.serverIp, o.leaseTime, o.renewTime,
        o.rebindTime, true⟩ } }.setInterface k n)

def handleDhcp (s : Stack) (k : Fin 4) (frame : Buffer) (pos len : Nat) : Logged Event Stack :=
  if len < dhcpHeaderSize then pure s
  else do
    let op ← fetch pos 1 (frame pos)
    if op ≠ 2 then pure s
    else do
      let xid ← fetch (pos + 4) 4 (BitVec.ofNat 32 (loadLe frame (pos + 4) 4))
      if ntohl xid ≠ s.dhcp.xid then pure s
      else do
        let cookie ← fetch (pos + 236) 4 (loadLe frame (pos + 236) 4)
        if cookie ≠ 0x63538263 then pure s
        else do
          let o ← readOptions frame pos len (len - dhcpHeaderSize) dhcpHeaderSize {}
          if o.msgType = 2 && s.dhcp.state = .discoverSent then do
            let yiaddr ← fetch (pos + 16) 4 (BitVec.ofNat 32 (loadLe frame (pos + 16) 4))
            { s with dhcp := { s.dhcp with offeredIp := yiaddr, serverIp := o.serverId,
                                           state := .offerReceived } }.sendDhcpRequest
          else if o.msgType = 5 && s.dhcp.state = .requestSent then s.bind k o
          else pure s

end Stack

end LlamaOS.Net
