import LlamaOS.Net.Stack

/-!
# Checksums

`calculate_checksum` is the checksum of RFC 1071, and the headers and messages of the stack carry
the right one. A receiver finds them where the fields of the frame say.
-/

namespace LlamaOS.Net
open ByteBuffer PackedFields Stack NetInterface OnesComplement

/-- A sum of 16-bit words with the carry added back in. -/
def onesAdd (a b : Nat) : Nat := if a + b < 65536 then a + b else a + b - 65535

/-- The one's-complement sum of the words of the data in network order, an odd byte being the
high half of a last word. -/
def onesSum : List Byte → Nat
  | a :: b :: data => onesAdd (256 * a.toNat + b.toNat) (onesSum data)
  | [a] => 256 * a.toNat
  | [] => 0

/-- The checksum that RFC 1071 defines. -/
def rfc1071 (data : List Byte) : BitVec 16 := ~~~(BitVec.ofNat 16 (onesSum data))

/-- Swapped bytes are a factor of 256 modulo 65535. -/
theorem onesSum_spec : ∀ data : List Byte, onesSum data < 65536 ∧
    (∃ k, 256 * wordSum data = onesSum data + 65535 * k) ∧ (wordSum data = 0 ↔ onesSum data = 0)
  | a :: b :: data => by
    obtain ⟨hlt, ⟨k, hk⟩, hzero⟩ := onesSum_spec data
    rw [wordSum, onesSum, onesAdd]
    split
    · exact ⟨by omega, ⟨k + b.toNat, by omega⟩, by omega⟩
    · exact ⟨by omega, ⟨k + b.toNat + 1, by omega⟩, by omega⟩
  | [a] => by
    rw [wordSum, onesSum]
    exact ⟨by omega, ⟨0, by omega⟩, by omega⟩
  | [] => ⟨by decide, ⟨0, rfl⟩, Iff.rfl⟩

theorem htons_calculateChecksum {data : List Byte} (hlen : data.length ≤ 65535) :
    htons (calculateChecksum data 0) = rfc1071 data := by
  obtain ⟨hlt, ⟨k, hk⟩, hzero⟩ := onesSum_spec data
  have hsum := wordSum_le data
  have hwords : addWords data 0 = wordSum data := by rw [addWords_eq data (by omega), Nat.zero_add]
  have hchecksum := calculateChecksum_toNat data (Nat.two_pow_pos 32)
  have hfold := addWords_fold_lt data (Nat.two_pow_pos 32)
  rw [hwords] at hchecksum hfold
  have hmod := fold_mod 2 (wordSum data)
  have hpos : wordSum data ≠ 0 → 0 < fold 2 (wordSum data) :=
    fun h => fold_pos 2 (Nat.pos_of_ne_zero h)
  have hnone : wordSum data = 0 → fold 2 (wordSum data) = 0 := fun h => by rw [h]; rfl
  obtain ⟨m, hm⟩ : ∃ m, wordSum data = fold 2 (wordSum data) + 65535 * m :=
    ⟨(wordSum data - fold 2 (wordSum data)) / 65535, by omega⟩
  have hswap : onesSum data = fold 2 (wordSum data) % 256 * 256 + fold 2 (wordSum data) / 256 := by
    omega
  apply BitVec.eq_of_toNat_eq
  rw [htons, rfc1071, BitVec.toNat_ofNat, BitVec.toNat_not, BitVec.toNat_ofNat, hchecksum, hswap]
  have hhigh : (65535 - fold 2 (wordSum data)) / 256 = 255 - fold 2 (wordSum data) / 256 := by omega
  omega

theorem Ipv4Header.bytes_split (h : Ipv4Header) :
    ∃ front back, front.length = 10 ∧ back.length = 8 ∧
    ∀ checksum : BitVec 16, { h with checksum }.bytes = front ++
      (leBytes 2 checksum.toNat ++ back) :=
  ⟨pack [1, 1, 2, 2, 2, 1, 1] [h.verIhl.toNat, h.dscpEcn.toNat, h.totalLength.toNat, h.id.toNat,
    h.flagsFrag.toNat,
    h.ttl.toNat, h.protocol.toNat], pack [4, 4] [h.srcIp.toNat, h.dstIp.toNat], pack_length rfl,
      pack_length rfl,
    fun _ => rfl⟩

theorem NetInterface.header_verifies (n : NetInterface) (dstIp : Ipv4Address) (protocol : Byte)
    (len : Nat) : calculateChecksum (n.header dstIp protocol len).bytes 0 = 0 := by
  obtain ⟨front, back, hfront, hback, hbytes⟩ := (n.blankHeader dstIp protocol len).bytes_split
  have hblank : (n.blankHeader dstIp protocol len).bytes = front ++ (leBytes 2 0 ++ back) :=
    hbytes 0
  have hfrontSum := wordSum_le front
  have hbackSum := wordSum_le back
  rw [header, hbytes, hblank]
  exact stored_checksum_verifies (by rw [hfront]) (by omega)

theorem TcpHeader.bytes_split (h : TcpHeader) : ∃ front back, front.length = 16 ∧ back.length = 2 ∧
    ∀ checksum : BitVec 16, { h with checksum }.bytes = front ++
      (leBytes 2 checksum.toNat ++ back) :=
  ⟨pack [2, 2, 4, 4, 1, 1, 2] [h.srcPort.toNat, h.dstPort.toNat, h.seqNum.toNat, h.ackNum.toNat,
    h.dataOffset.toNat,
    h.flags.toNat, h.windowSize.toNat], pack [2] [h.urgentPtr.toNat], pack_length rfl,
      pack_length rfl, fun _ => rfl⟩

theorem Outgoing.bytes_verify (o : Outgoing) (srcIp : Ipv4Address)
    (hlen : o.payload.length ≤ 1440) :
    calculateTcpChecksum srcIp o.remoteIp (o.bytes srcIp) = 0 := by
  obtain ⟨front, back, hfront, hback, hbytes⟩ := o.blankHeader.bytes_split
  have hblank : o.blankHeader.bytes = front ++ (leBytes 2 0 ++ back) := hbytes 0
  have hfrontSum := wordSum_le front
  have hbackSum := wordSum_le (back ++ o.payload)
  rw [Outgoing.bytes, hbytes, hblank, calculateTcpChecksum, calculateTcpChecksum]
  simp only [List.append_assoc, List.length_append, leBytes_length]
  simp only [List.length_append] at hbackSum
  apply stored_checksum_verifies (by rw [hfront])
  omega

theorem echoReply_verifies {message : List Byte} (hlen : message.length ≤ 512) :
    calculateChecksum (echoReply message) 0 = 0 := by
  have hsum := wordSum_le (message.drop 4)
  rw [List.length_drop] at hsum
  apply @stored_checksum_verifies [icmpTypeEchoReply, 0] (message.drop 4) 0 rfl
  have htype : wordSum [icmpTypeEchoReply, 0] = 0 := rfl
  omega

/-- A message whose checksum a receiver computes as zero, with the addresses of its packet. -/
def MessageVerifies (protocol : Byte) (srcIp dstIp : Ipv4Address) (message : List Byte) : Prop :=
  (protocol = ipProtoIcmp → calculateChecksum message 0 = 0) ∧
    (protocol = ipProtoTcp → calculateTcpChecksum srcIp dstIp message = 0)

/-- A frame that is no IPv4 packet, or one whose header verifies, and its message with it. -/
def FrameVerifies (frame : Buffer) : Prop :=
  let ip := Ipv4Header.load frame 14
  (EthernetHeader.load frame 0).ethertype = htons etherTypeIpv4 →
    calculateChecksum (slice frame 14 20) 0 = 0 ∧
      MessageVerifies ip.protocol ip.srcIp ip.dstIp
        (slice frame 34 ((ntohs ip.totalLength).toNat - 20))

section Packet

variable {n : NetInterface} {mac : MacAddress} {dstIp : Ipv4Address} {protocol : Byte}
  {message : List Byte} {frame : Buffer}

/-- A buffer that holds the frame of an IPv4 packet. -/
def HoldsPacket (frame : Buffer) (n : NetInterface) (mac : MacAddress) (dstIp : Ipv4Address)
    (protocol : Byte) (message : List Byte) : Prop :=
  HasBytes frame 0
    (n.frame mac etherTypeIpv4 ((n.header dstIp protocol message.length).bytes ++ message))

theorem load_frame {ethertype : BitVec 16} {payload : List Byte}
    (h : HasBytes frame 0 (n.frame mac ethertype payload)) :
    EthernetHeader.load frame 0 = ⟨mac, n.mac, htons ethertype⟩ :=
  EthernetHeader.record.load_bytes h.left.left

theorem ntohs_length {len : Nat} (h : len < 2 ^ 16) :
    (ntohs (htons (.ofNat 16 len))).toNat = len := by
  rw [ntohs_htons, BitVec.toNat_ofNat, Nat.mod_eq_of_lt h]

namespace HoldsPacket

variable (h : HoldsPacket frame n mac dstIp protocol message)
include h

theorem load_ethernet : EthernetHeader.load frame 0 = ⟨mac, n.mac, htons etherTypeIpv4⟩ :=
  load_frame h

theorem hasBytes_packet :
    HasBytes frame 14 ((n.header dstIp protocol message.length).bytes ++ message) := by
  have hbytes := h.left.right
  rw [EthernetHeader.bytes_length] at hbytes
  exact hbytes

theorem load_ipv4 : Ipv4Header.load frame 14 = n.header dstIp protocol message.length :=
  Ipv4Header.record.load_bytes h.hasBytes_packet.left

theorem slice_header : slice frame 14 20 = (n.header dstIp protocol message.length).bytes := by
  have hslice := h.hasBytes_packet.left.slice_eq
  rw [Ipv4Header.bytes_length] at hslice
  exact hslice

theorem hasBytes_message : HasBytes frame 34 message := by
  have hbytes := h.hasBytes_packet.right
  rw [Ipv4Header.bytes_length] at hbytes
  exact hbytes

theorem verifies (hlen : message.length ≤ 1460)
    (hmessage : MessageVerifies protocol n.ip dstIp message) : FrameVerifies frame := by
  have hip := h.load_ipv4
  have htotal : (ntohs (Ipv4Header.load frame 14).totalLength).toNat - 20 = message.length := by
    rw [hip]
    simp only [header, blankHeader, Ipv4Header.size]
    rw [ntohs_length (by omega), Nat.add_sub_cancel_left]
  intro _
  rw [h.slice_header, htotal, h.hasBytes_message.slice_eq, hip]
  exact ⟨n.header_verifies _ _ _, hmessage⟩

end HoldsPacket

theorem verifies_of_arp {payload : List Byte}
    (h : HasBytes frame 0 (n.frame mac etherTypeArp payload)) : FrameVerifies frame := by
  have hother : htons etherTypeArp ≠ htons etherTypeIpv4 := by decide
  intro htype
  rw [load_frame h] at htype
  exact absurd htype hother

end Packet

end LlamaOS.Net
