import LlamaOS.Shared.OnesComplement
import LlamaOS.Shared.PackedFields

/-!
# Protocol headers

`net/net_types.hpp`. A header is kept as it lies in memory: an address or a number of more than
one byte is the little-endian integer of its bytes, so that a number in network order is swapped
by `htons` and its kin.
-/

namespace LlamaOS.Net
open ByteBuffer PackedFields

abbrev Byte := BitVec 8

def htons (val : BitVec 16) : BitVec 16 := .ofNat 16 (val.toNat % 256 * 256 + val.toNat / 256)

def ntohs (val : BitVec 16) : BitVec 16 := htons val

def htonl (val : BitVec 32) : BitVec 32 :=
  .ofNat 32 (val.toNat % 256 * 2 ^ 24 + val.toNat / 2 ^ 8 % 256 * 2 ^ 16 +
    val.toNat / 2 ^ 16 % 256 * 2 ^ 8 + val.toNat / 2 ^ 24)

def ntohl (val : BitVec 32) : BitVec 32 := htonl val

theorem ntohs_htons (val : BitVec 16) : ntohs (htons val) = val := by
  apply BitVec.eq_of_toNat_eq
  have hval := val.isLt
  have hswapped : val.toNat % 256 * 256 + val.toNat / 256 < 2 ^ 16 := by omega
  have hlow : (val.toNat % 256 * 256 + val.toNat / 256) % 256 = val.toNat / 256 := by omega
  have hhigh : (val.toNat % 256 * 256 + val.toNat / 256) / 256 = val.toNat % 256 := by omega
  simp only [ntohs, htons, BitVec.toNat_ofNat]
  rw [Nat.mod_eq_of_lt hswapped, hlow, hhigh, Nat.div_add_mod', Nat.mod_eq_of_lt hval]

abbrev MacAddress := BitVec 48

def MacAddress.broadcast : MacAddress := .allOnes 48

def MacAddress.zero : MacAddress := 0

abbrev Ipv4Address := BitVec 32

namespace Ipv4Address

def broadcast : Ipv4Address := 0xFFFFFFFF

def any : Ipv4Address := 0

def ofOctets (a b c d : Byte) : Ipv4Address := d ++ c ++ b ++ a

end Ipv4Address

def etherTypeIpv4 : BitVec 16 := 0x0800

def etherTypeArp : BitVec 16 := 0x0806

structure EthernetHeader where
  dest : MacAddress
  src : MacAddress
  ethertype : BitVec 16
  deriving DecidableEq

namespace EthernetHeader

def size : Nat := 14

def widths : List Nat := [6, 6, 2]

def fields (h : EthernetHeader) : List Nat := [h.dest.toNat, h.src.toNat, h.ethertype.toNat]

def bytes (h : EthernetHeader) : List Byte := pack widths h.fields

def load (buf : Buffer) (pos : Nat) : EthernetHeader where
  dest := .ofNat 48 (loadLe buf pos 6)
  src := .ofNat 48 (loadLe buf (pos + 6) 6)
  ethertype := .ofNat 16 (loadLe buf (pos + 12) 2)

end EthernetHeader

def arpHwEthernet : BitVec 16 := 1

def arpOpRequest : BitVec 16 := 1

def arpOpReply : BitVec 16 := 2

structure ArpHeader where
  hwType : BitVec 16
  protoType : BitVec 16
  hwLen : Byte
  protoLen : Byte
  opcode : BitVec 16
  senderMac : MacAddress
  senderIp : Ipv4Address
  targetMac : MacAddress
  targetIp : Ipv4Address
  deriving DecidableEq

namespace ArpHeader

def size : Nat := 28

def bytes (h : ArpHeader) : List Byte :=
  pack [2, 2, 1, 1, 2, 6, 4, 6, 4] [h.hwType.toNat, h.protoType.toNat, h.hwLen.toNat,
    h.protoLen.toNat,
    h.opcode.toNat, h.senderMac.toNat, h.senderIp.toNat, h.targetMac.toNat, h.targetIp.toNat]

def load (buf : Buffer) (pos : Nat) : ArpHeader where
  hwType := .ofNat 16 (loadLe buf pos 2)
  protoType := .ofNat 16 (loadLe buf (pos + 2) 2)
  hwLen := .ofNat 8 (loadLe buf (pos + 4) 1)
  protoLen := .ofNat 8 (loadLe buf (pos + 5) 1)
  opcode := .ofNat 16 (loadLe buf (pos + 6) 2)
  senderMac := .ofNat 48 (loadLe buf (pos + 8) 6)
  senderIp := .ofNat 32 (loadLe buf (pos + 14) 4)
  targetMac := .ofNat 48 (loadLe buf (pos + 18) 6)
  targetIp := .ofNat 32 (loadLe buf (pos + 24) 4)

end ArpHeader

def ipProtoIcmp : Byte := 1

def ipProtoTcp : Byte := 6

def ipProtoUdp : Byte := 17

structure Ipv4Header where
  verIhl : Byte
  dscpEcn : Byte
  totalLength : BitVec 16
  id : BitVec 16
  flagsFrag : BitVec 16
  ttl : Byte
  protocol : Byte
  checksum : BitVec 16
  srcIp : Ipv4Address
  dstIp : Ipv4Address
  deriving DecidableEq

namespace Ipv4Header

def size : Nat := 20

def version (h : Ipv4Header) : Nat := h.verIhl.toNat / 16

def headerLen (h : Ipv4Header) : Nat := h.verIhl.toNat % 16 * 4

def widths : List Nat := [1, 1, 2, 2, 2, 1, 1, 2, 4, 4]

def fields (h : Ipv4Header) : List Nat :=
  [h.verIhl.toNat, h.dscpEcn.toNat, h.totalLength.toNat, h.id.toNat, h.flagsFrag.toNat, h.ttl.toNat,
    h.protocol.toNat, h.checksum.toNat, h.srcIp.toNat, h.dstIp.toNat]

def bytes (h : Ipv4Header) : List Byte := pack widths h.fields

def load (buf : Buffer) (pos : Nat) : Ipv4Header where
  verIhl := .ofNat 8 (loadLe buf pos 1)
  dscpEcn := .ofNat 8 (loadLe buf (pos + 1) 1)
  totalLength := .ofNat 16 (loadLe buf (pos + 2) 2)
  id := .ofNat 16 (loadLe buf (pos + 4) 2)
  flagsFrag := .ofNat 16 (loadLe buf (pos + 6) 2)
  ttl := .ofNat 8 (loadLe buf (pos + 8) 1)
  protocol := .ofNat 8 (loadLe buf (pos + 9) 1)
  checksum := .ofNat 16 (loadLe buf (pos + 10) 2)
  srcIp := .ofNat 32 (loadLe buf (pos + 12) 4)
  dstIp := .ofNat 32 (loadLe buf (pos + 16) 4)

end Ipv4Header

def icmpTypeEchoReply : Byte := 0

def icmpTypeEchoRequest : Byte := 8

structure UdpHeader where
  srcPort : BitVec 16
  dstPort : BitVec 16
  length : BitVec 16
  checksum : BitVec 16
  deriving DecidableEq

namespace UdpHeader

def size : Nat := 8

def widths : List Nat := [2, 2, 2, 2]

def fields (h : UdpHeader) : List Nat :=
  [h.srcPort.toNat, h.dstPort.toNat, h.length.toNat, h.checksum.toNat]

def bytes (h : UdpHeader) : List Byte := pack widths h.fields

def load (buf : Buffer) (pos : Nat) : UdpHeader where
  srcPort := .ofNat 16 (loadLe buf pos 2)
  dstPort := .ofNat 16 (loadLe buf (pos + 2) 2)
  length := .ofNat 16 (loadLe buf (pos + 4) 2)
  checksum := .ofNat 16 (loadLe buf (pos + 6) 2)

end UdpHeader

def tcpFlagFin : Byte := 0x01

def tcpFlagSyn : Byte := 0x02

def tcpFlagRst : Byte := 0x04

def tcpFlagPsh : Byte := 0x08

def tcpFlagAck : Byte := 0x10

structure TcpHeader where
  srcPort : BitVec 16
  dstPort : BitVec 16
  seqNum : BitVec 32
  ackNum : BitVec 32
  dataOffset : Byte
  flags : Byte
  windowSize : BitVec 16
  checksum : BitVec 16
  urgentPtr : BitVec 16
  deriving DecidableEq

namespace TcpHeader

def size : Nat := 20

def headerLen (h : TcpHeader) : Nat := h.dataOffset.toNat / 16 * 4

def bytes (h : TcpHeader) : List Byte :=
  pack [2, 2, 4, 4, 1, 1, 2, 2, 2] [h.srcPort.toNat, h.dstPort.toNat, h.seqNum.toNat,
    h.ackNum.toNat,
    h.dataOffset.toNat, h.flags.toNat, h.windowSize.toNat, h.checksum.toNat, h.urgentPtr.toNat]

def load (buf : Buffer) (pos : Nat) : TcpHeader where
  srcPort := .ofNat 16 (loadLe buf pos 2)
  dstPort := .ofNat 16 (loadLe buf (pos + 2) 2)
  seqNum := .ofNat 32 (loadLe buf (pos + 4) 4)
  ackNum := .ofNat 32 (loadLe buf (pos + 8) 4)
  dataOffset := .ofNat 8 (loadLe buf (pos + 12) 1)
  flags := .ofNat 8 (loadLe buf (pos + 13) 1)
  windowSize := .ofNat 16 (loadLe buf (pos + 14) 2)
  checksum := .ofNat 16 (loadLe buf (pos + 16) 2)
  urgentPtr := .ofNat 16 (loadLe buf (pos + 18) 2)

end TcpHeader

/-- The words of the data and a last odd byte, added to a 32-bit sum. -/
def addWords : List Byte → Nat → Nat
  | a :: b :: data, sum => addWords data ((sum + (a.toNat + 256 * b.toNat)) % 2 ^ 32)
  | [a], sum => (sum + a.toNat) % 2 ^ 32
  | [], sum => sum

def calculateChecksum (data : List Byte) (initialSum : Nat) : BitVec 16 :=
  ~~~(BitVec.ofNat 16 (OnesComplement.fold 2 (addWords data initialSum)))

theorem addWords_lt : ∀ (data : List Byte) {sum : Nat}, sum < 2 ^ 32 → addWords data sum < 2 ^ 32
  | _ :: _ :: data, _, _ => addWords_lt data (Nat.mod_lt _ (by decide))
  | [_], _, _ => Nat.mod_lt _ (by decide)
  | [], _, h => h

theorem addWords_fold_lt (data : List Byte) {initialSum : Nat} (h : initialSum < 2 ^ 32) :
    OnesComplement.fold 2 (addWords data initialSum) < 65536 :=
  OnesComplement.fold_lt (addWords_lt data h)

namespace EthernetHeader

theorem record : Record 14 widths fields load := by
  refine ⟨rfl, fun {h h'} heq => ?_, fun h => ?_, fun buf pos => ?_⟩
  · cases h
    cases h'
    simp only [fields, List.cons.injEq, BitVec.toNat_inj, and_true] at heq
    simp only [mk.injEq]
    exact heq
  · simp only [Fits, widths, fields, and_true]
    exact ⟨h.dest.isLt, h.src.isLt, h.ethertype.isLt⟩
  · simp only [fields, load, widths, unpack, BitVec.toNat_ofNat, Nat.add_assoc,
      Nat.reduceAdd, loadLe_mod]

theorem bytes_length (h : EthernetHeader) : h.bytes.length = 14 := pack_length rfl

end EthernetHeader

namespace Ipv4Header

theorem record : Record 20 widths fields load := by
  refine ⟨rfl, fun {h h'} heq => ?_, fun h => ?_, fun buf pos => ?_⟩
  · cases h
    cases h'
    simp only [fields, List.cons.injEq, BitVec.toNat_inj, and_true] at heq
    simp only [mk.injEq]
    exact heq
  · simp only [Fits, widths, fields, and_true]
    exact ⟨h.verIhl.isLt, h.dscpEcn.isLt, h.totalLength.isLt, h.id.isLt, h.flagsFrag.isLt,
      h.ttl.isLt, h.protocol.isLt, h.checksum.isLt, h.srcIp.isLt, h.dstIp.isLt⟩
  · simp only [fields, load, widths, unpack, BitVec.toNat_ofNat, Nat.add_assoc,
      Nat.reduceAdd, loadLe_mod]

theorem bytes_length (h : Ipv4Header) : h.bytes.length = 20 := pack_length rfl

end Ipv4Header

namespace UdpHeader

theorem record : Record 8 widths fields load := by
  refine ⟨rfl, fun {h h'} heq => ?_, fun h => ?_, fun buf pos => ?_⟩
  · cases h
    cases h'
    simp only [fields, List.cons.injEq, BitVec.toNat_inj, and_true] at heq
    simp only [mk.injEq]
    exact heq
  · simp only [Fits, widths, fields, and_true]
    exact ⟨h.srcPort.isLt, h.dstPort.isLt, h.length.isLt, h.checksum.isLt⟩
  · simp only [fields, load, widths, unpack, BitVec.toNat_ofNat, Nat.add_assoc,
      Nat.reduceAdd, loadLe_mod]

theorem bytes_length (h : UdpHeader) : h.bytes.length = 8 := pack_length rfl

end UdpHeader

/-!
## Checksums that verify

A checksum that is stored in an even-aligned field makes the checksum of the whole zero.
-/

open ByteBuffer

/-- The sum of `addWords` without its modulus. -/
def wordSum : List Byte → Nat
  | a :: b :: data => a.toNat + 256 * b.toNat + wordSum data
  | [a] => a.toNat
  | [] => 0

theorem wordSum_le : ∀ data : List Byte, wordSum data ≤ 65535 * data.length
  | a :: b :: data => by
    have hrest := wordSum_le data
    simp only [wordSum, List.length_cons]
    omega
  | [a] => by
    simp only [wordSum, List.length_singleton]
    omega
  | [] => Nat.le_refl 0

theorem wordSum_append : ∀ {front : List Byte} (back : List Byte), front.length % 2 = 0 →
    wordSum (front ++ back) = wordSum front + wordSum back
  | a :: b :: front, back, h => by
    simp only [List.length_cons] at h
    rw [List.cons_append, List.cons_append, wordSum, wordSum, wordSum_append back (by omega)]
    omega
  | [_], _, h => by cases h
  | [], back, _ => (Nat.zero_add (wordSum back)).symm

theorem wordSum_leBytes (value : Nat) : wordSum (leBytes 2 value) = value % 65536 := by
  simp only [leBytes, wordSum, BitVec.toNat_ofNat]
  omega

theorem addWords_eq : ∀ (data : List Byte) {sum : Nat}, sum + wordSum data < 2 ^ 32 →
    addWords data sum = sum + wordSum data
  | a :: b :: data, sum, h => by
    rw [wordSum] at h ⊢
    rw [addWords, Nat.mod_eq_of_lt (by omega), addWords_eq data (by omega)]
    omega
  | [a], sum, h => by
    rw [wordSum] at h ⊢
    rw [addWords, Nat.mod_eq_of_lt h]
  | [], _, _ => rfl

theorem calculateChecksum_toNat (data : List Byte) {initialSum : Nat} (h : initialSum < 2 ^ 32) :
    (calculateChecksum data initialSum).toNat = 65535 - OnesComplement.fold 2
      (addWords data initialSum) := by
  have hlt := addWords_fold_lt data h
  rw [calculateChecksum, BitVec.toNat_not, BitVec.toNat_ofNat, Nat.mod_eq_of_lt hlt]

theorem stored_checksum_verifies {front back : List Byte} {initialSum : Nat}
    (heven : front.length % 2 = 0)
    (hsum : initialSum + (wordSum front + wordSum back) + 65535 < 2 ^ 32) :
    calculateChecksum
      (front ++ (leBytes 2 (calculateChecksum (front ++ (leBytes 2 0 ++ back)) initialSum).toNat ++
        back)) initialSum = 0 := by
  have hfold := OnesComplement.fold_add_complement hsum
  have hword : ∀ value, wordSum (front ++ (leBytes 2 value ++ back)) =
      wordSum front + (value % 65536 + wordSum back) := by
    intro value
    rw [wordSum_append _ heven, wordSum_append back (by rw [leBytes_length]), wordSum_leBytes]
  have hblank : addWords (front ++ (leBytes 2 0 ++ back)) initialSum =
      initialSum + (wordSum front + wordSum back) := by
    rw [addWords_eq _ (by rw [hword]; omega), hword, Nat.zero_mod, Nat.zero_add]
  have hlt : initialSum < 2 ^ 32 := by omega
  apply BitVec.eq_of_toNat_eq
  rw [calculateChecksum_toNat _ hlt, calculateChecksum_toNat _ hlt, hblank,
    addWords_eq _ (by rw [hword]; omega), hword,
    Nat.mod_eq_of_lt (by omega), show initialSum + (wordSum front + (65535 -
      OnesComplement.fold 2 (initialSum + (wordSum front + wordSum back)) + wordSum back)) =
        initialSum + (wordSum front + wordSum back) + (65535 -
          OnesComplement.fold 2 (initialSum + (wordSum front + wordSum back))) by omega, hfold]
  rfl

end LlamaOS.Net
