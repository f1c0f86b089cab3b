import LlamaOS.Drivers.VirtioNet
import LlamaOS.Net.NetTypes
import LlamaOS.Shared.Logged
import Mathlib.Data.List.FinRange
import Mathlib.Logic.Function.Basic

/-!
# Network interfaces

The transmit path of `net_interface.cpp`, the table of `arp.cpp` and the engine of `udp.cpp`.
Functions of the stack record what they do besides changing its state. Log messages, locks,
interface names and the time stamps of the ARP table are left out.
-/

namespace LlamaOS.Net
open ByteBuffer
open Drivers (VirtioNetDevice)

/-- A function registered for a UDP port: the DHCP client's or one of another module. -/
inductive UdpPacketHandler where
  | dhcpClient
  | external (address : Nat)
  deriving DecidableEq, Repr

/-- The module whose callbacks a TCP listener has. -/
inductive Service where
  | management
  | external (address : Nat)
  deriving DecidableEq, Repr

/-- The commands of the management console that need authentication. -/
inductive Command where
  | status
  | mem
  | ps
  | storage
  | reboot
  | poweroff
  deriving DecidableEq, Repr

inductive Event where
  /-- `len` bytes of the frame buffer from `pos` on are read. -/
  | read (pos len : Nat)
  /-- A protocol handler is called with a payload of `len` bytes. -/
  | handed (protocol : Byte) (len : Nat)
  /-- A frame is handed to `VirtioNetDevice::transmit`. -/
  | transmit (frame : List Byte)
  /-- Bytes are written behind the end of the packet buffer of `send_segment`. -/
  | overflow (bytes : Nat)
  | udp (handler : UdpPacketHandler) (srcIp : Ipv4Address) (srcPort dstPort : BitVec 16)
      (data : List Byte)
  /-- A connection slot is initialised. -/
  | opened (conn : Fin 16)
  /-- The data callback of a connection is called. -/
  | data (conn : Fin 16) (bytes : List Byte)
  /-- The management server takes a byte that came on a connection. -/
  | input (conn : Fin 16) (c : Byte)
  /-- The management server takes up a command line. -/
  | command (conn : Fin 16) (text : List Byte) (authenticated : Bool)
  /-- The management server executes a privileged command. -/
  | privileged (conn : Fin 16) (command : Command)
  deriving DecidableEq, Repr

/-- A value that is read from `len` bytes at `pos`. -/
def fetch {α : Type} (pos len : Nat) (a : α) : Logged Event α := .record (.read pos len) a

@[simp] theorem value_fetch {α : Type} (pos len : Nat) (a : α) : (fetch pos len a).value = a := rfl

@[simp] theorem log_fetch {α : Type} (pos len : Nat) (a : α) :
    (fetch pos len a).log = [.read pos len] :=
  rfl

theorem fetch_bind {α β : Type} (pos len : Nat) (a : α) (f : α → Logged Event β) :
    (fetch pos len a >>= f) = (f a).after [.read pos len] := rfl

structure ArpEntry where
  ip : Ipv4Address
  mac : MacAddress
  valid : Bool
  deriving DecidableEq

abbrev ArpTable := Fin 32 → ArpEntry

namespace ArpTable

def find (t : ArpTable) (ip : Ipv4Address) : Option (Fin 32) :=
  (List.finRange 32).find? fun i => (t i).valid && (t i).ip == ip

def lookup (t : ArpTable) (ip : Ipv4Address) : Option MacAddress :=
  (t.find ip).map fun i => (t i).mac

def insert (t : ArpTable) (ip : Ipv4Address) (mac : MacAddress) : ArpTable :=
  if ip = .any ∨ mac = .zero ∨ mac = .broadcast then t
  else match t.find ip with
    | some i => Function.update t i { t i with mac }
    | none => match (List.finRange 32).find? fun i => !(t i).valid with
      | some i => Function.update t i ⟨ip, mac, true⟩
      | none => Function.update t 0 ⟨ip, mac, true⟩

end ArpTable

structure NetInterface where
  dev : Option VirtioNetDevice
  mac : MacAddress
  ip : Ipv4Address
  netmask : Ipv4Address
  gateway : Ipv4Address
  dns : Ipv4Address
  arp : ArpTable
  up : Bool
  nextIpId : BitVec 16

namespace NetInterface

def maxFrameSize : Nat := 1518

/-- The frame of a payload, padded to 60 bytes. -/
def frame (n : NetInterface) (destMac : MacAddress) (ethertype : BitVec 16) (payload : List Byte) :
    List Byte :=
  (EthernetHeader.mk destMac n.mac (htons ethertype)).bytes ++ payload ++
    List.replicate (60 - (EthernetHeader.size + payload.length)) 0

def sendEthernet (n : NetInterface) (destMac : MacAddress) (ethertype : BitVec 16)
    (payload : List Byte) : Logged Event (Bool × NetInterface) :=
  match n.dev with
  | none => pure (false, n)
  | some dev =>
    if !n.up || maxFrameSize - EthernetHeader.size < payload.length then pure (false, n)
    else
      let sent := dev.transmit (n.frame destMac ethertype payload)
      .record (.transmit (n.frame destMac ethertype payload))
        (sent.1, { n with dev := some sent.2 })

/-- `ArpEngine::send_request` -/
def sendArpRequest (n : NetInterface) (targetIp : Ipv4Address) :
    Logged Event (Bool × NetInterface) :=
  n.sendEthernet .broadcast etherTypeArp
    (ArpHeader.bytes ⟨htons arpHwEthernet, htons etherTypeIpv4, 6, 4, htons arpOpRequest, n.mac,
      n.ip, .zero, targetIp⟩)

/-- `ArpEngine::send_reply` -/
def sendArpReply (n : NetInterface) (targetIp : Ipv4Address) (targetMac : MacAddress) :
    Logged Event (Bool × NetInterface) :=
  n.sendEthernet targetMac etherTypeArp
    (ArpHeader.bytes ⟨htons arpHwEthernet, htons etherTypeIpv4, 6, 4, htons arpOpReply, n.mac, n.ip,
      targetMac, targetIp⟩)

def nextHop (n : NetInterface) (dstIp : Ipv4Address) : Ipv4Address :=
  if dstIp &&& n.netmask = n.ip &&& n.netmask then dstIp else n.gateway

/-- The routing decision of `send_ipv4`, with the ARP request it may send. -/
def targetMac (n : NetInterface) (dstIp : Ipv4Address) : Logged Event (MacAddress × NetInterface) :=
  if dstIp = .broadcast ∨ dstIp = .ofOctets 255 255 255 255 then pure (.broadcast, n)
  else match n.arp.lookup (n.nextHop dstIp) with
    | some mac => pure (mac, n)
    | none => do
      let asked ← n.sendArpRequest (n.nextHop dstIp)
      pure (.broadcast, asked.2)

/-- The interface is the same but for the state of its device. -/
def SameButDevice (n n' : NetInterface) : Prop :=
  ∃ dev, n' = { n with dev } ∧ dev.map VirtioNetDevice.initialized =
    n.dev.map VirtioNetDevice.initialized

theorem SameButDevice.refl (n : NetInterface) : n.SameButDevice n := ⟨n.dev, rfl, rfl⟩

theorem sendEthernet_same (n : NetInterface) (destMac : MacAddress) (ethertype : BitVec 16)
    (payload : List Byte) : n.SameButDevice (n.sendEthernet destMac ethertype payload).value.2 := by
  unfold sendEthernet
  split
  · exact .refl n
  · rename_i dev hdev
    split
    · exact .refl n
    · refine ⟨_, rfl, ?_⟩
      rw [hdev, Option.map_some, Option.map_some, dev.transmit_kept]

/-- On an interface that can send, a payload that fits is given to the device. -/
theorem sendEthernet_ready {n : NetInterface} {d : VirtioNetDevice} (hdev : n.dev = some d)
    (hup : n.up) (destMac : MacAddress) (ethertype : BitVec 16) {payload : List Byte}
    (hlen : payload.length ≤ 1504) :
    n.sendEthernet destMac ethertype payload =
      .record (.transmit (n.frame destMac ethertype payload))
        ((d.transmit (n.frame destMac ethertype payload)).1,
          { n with dev := some (d.transmit (n.frame destMac ethertype payload)).2 }) := by
  have hsize : ¬ maxFrameSize - EthernetHeader.size < payload.length := Nat.not_lt.mpr hlen
  have hfits :
      ¬ (!n.up || decide (maxFrameSize - EthernetHeader.size < payload.length)) = true := by
    rw [hup, decide_eq_false hsize]
    exact Bool.false_ne_true
  unfold sendEthernet
  rw [hdev]
  exact if_neg hfits

/-- Finding the route changes nothing but the device. -/
theorem targetMac_same (n : NetInterface) (dstIp : Ipv4Address) :
    n.SameButDevice (n.targetMac dstIp).value.2 := by
  unfold targetMac
  split
  · exact .refl n
  split
  · exact .refl n
  · exact n.sendEthernet_same _ _ _

theorem SameButDevice.device {n n' : NetInterface} (h : n.SameButDevice n') {d : VirtioNetDevice}
    (hdev : n.dev = some d) :
    ∃ d', n' = { n with dev := some d' } ∧ d'.initialized = d.initialized := by
  obtain ⟨dev, rfl, hinit⟩ := h
  rw [hdev, Option.map_some] at hinit
  obtain ⟨d', rfl, hsame⟩ := Option.map_eq_some_iff.mp hinit
  exact ⟨d', rfl, hsame⟩

/-- The header of `send_ipv4` before its checksum is stored. -/
def blankHeader (n : NetInterface) (dstIp : Ipv4Address) (protocol : Byte) (len : Nat) :
    Ipv4Header where
  verIhl := 0x45
  dscpEcn := 0
  totalLength := htons (.ofNat 16 (Ipv4Header.size + len))
  id := htons n.nextIpId
  flagsFrag := htons 0x4000
  ttl := 64
  protocol
  checksum := 0
  srcIp := n.ip
  dstIp

def header (n : NetInterface) (dstIp : Ipv4Address) (protocol : Byte) (len : Nat) : Ipv4Header :=
  { n.blankHeader dstIp protocol len with
    checksum := calculateChecksum (n.blankHeader dstIp protocol len).bytes 0 }

def sendIpv4 (n : NetInterface) (dstIp : Ipv4Address) (protocol : Byte) (payload : List Byte) :
    Logged Event (Bool × NetInterface) :=
  if n.dev.isNone || !n.up || 1460 < payload.length then pure (false, n)
  else do
    let route ← n.targetMac dstIp
    let n := route.2
    let sent ← n.sendEthernet route.1 etherTypeIpv4
      ((n.header dstIp protocol payload.length).bytes ++ payload)
    pure (sent.1, { sent.2 with nextIpId := sent.2.nextIpId + 1 })

end NetInterface

structure HandlerEntry where
  port : BitVec 16
  handler : Option UdpPacketHandler
  deriving DecidableEq

/-- The registered handlers, at most one for each port. -/
structure UdpEngine where
  handlers : List HandlerEntry
  capacity : handlers.length ≤ 8
  nodup : (handlers.map HandlerEntry.port).Nodup

namespace UdpEngine

def replaced (port : BitVec 16) (handler : Option UdpPacketHandler) (entry : HandlerEntry) :
    HandlerEntry :=
  if entry.port = port then { entry with handler } else entry

theorem replaced_port (port : BitVec 16) (handler : Option UdpPacketHandler)
    (entry : HandlerEntry) : (replaced port handler entry).port = entry.port := by
  unfold replaced
  split <;> rfl

def registerHandler (e : UdpEngine) (port : BitVec 16) (handler : Option UdpPacketHandler) :
    UdpEngine :=
  if hfound : port ∈ e.handlers.map HandlerEntry.port then
    { handlers := e.handlers.map (replaced port handler)
      capacity := by
        rw [List.length_map]
        exact e.capacity
      nodup := by
        rw [List.map_map, show HandlerEntry.port ∘ replaced port handler = HandlerEntry.port from
          funext (replaced_port port handler)]
        exact e.nodup }
  else if hroom : e.handlers.length < 8 then
    { handlers := e.handlers ++ [⟨port, handler⟩]
      capacity := by
        rw [List.length_append]
        exact hroom
      nodup := by
        rw [List.map_append, List.nodup_append]
        refine ⟨e.nodup, List.nodup_singleton _, ?_⟩
        intro a ha b hb heq
        rw [List.map_singleton, List.mem_singleton] at hb
        rw [heq, hb] at ha
        exact hfound ha }
  else e

/-- The entry at which the loop of `handle_packet` stops. -/
def handlerFor (e : UdpEngine) (port : BitVec 16) : Option UdpPacketHandler :=
  (e.handlers.find? fun entry => entry.port == port && entry.handler.isSome).bind
    HandlerEntry.handler

/-- `UdpEngine::send` through a given interface. -/
def send (n : NetInterface) (dstIp : Ipv4Address) (srcPort dstPort : BitVec 16)
    (payload : List Byte) : Logged Event (Bool × NetInterface) :=
  if 1400 < payload.length then pure (false, n)
  else n.sendIpv4 dstIp ipProtoUdp
    ((UdpHeader.mk (htons srcPort) (htons dstPort)
      (htons (.ofNat 16 (UdpHeader.size + payload.length))) 0).bytes ++ payload)

theorem handlerFor_of_mem {e : UdpEngine} {port : BitVec 16} {handler : UdpPacketHandler}
    (h : ⟨port, some handler⟩ ∈ e.handlers) : e.handlerFor port = some handler := by
  have hfind : e.handlers.find? (fun entry => entry.port == port && entry.handler.isSome) =
      some ⟨port, some handler⟩ := by
    obtain ⟨entry, hentry⟩ :
        ∃ entry, e.handlers.find? (fun entry => entry.port == port && entry.handler.isSome) =
        some entry := by
      apply Option.isSome_iff_exists.mp
      rw [List.find?_isSome]
      exact ⟨_, h, by simp⟩
    have hport : entry.port = port := by
      have := List.find?_some hentry
      simp only [Bool.and_eq_true, beq_iff_eq] at this
      exact this.1
    have hsame : entry = ⟨port, some handler⟩ :=
      List.inj_on_of_nodup_map e.nodup (List.mem_of_find?_eq_some hentry) h hport
    rw [hentry, hsame]
  rw [handlerFor, hfind]
  rfl

end UdpEngine

end LlamaOS.Net
