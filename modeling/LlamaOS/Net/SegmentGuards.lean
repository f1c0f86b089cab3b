import LlamaOS.Net.Management

/-!
# What a segment needs to take effect

`handle_segment` looks at the flags and the state only: it verifies no checksum and compares
neither the sequence number nor the acknowledgement.
-/

namespace LlamaOS.Net
open ByteBuffer

/-- A TCP segment as it comes in, with the addresses of its packet. -/
structure Inbound where
  srcIp : Ipv4Address
  dstIp : Ipv4Address
  bytes : List Byte

namespace Inbound

def header (p : Inbound) : TcpHeader := TcpHeader.load (fun i => p.bytes.getD i 0) 0

def segment (p : Inbound) : Segment :=
  ⟨p.header.flags, ntohl p.header.seqNum, ntohl p.header.ackNum,
    p.bytes.length - p.header.headerLen⟩

/-- The checksum over the segment and its pseudo-header is right. -/
def Verifies (p : Inbound) : Prop := calculateTcpChecksum p.srcIp p.dstIp p.bytes = 0

instance (p : Inbound) : Decidable p.Verifies := inferInstanceAs (Decidable (_ = _))

end Inbound

namespace TcpConnection

/-- The segment changes the connection or delivers data. -/
def Affected (c : TcpConnection) (seg : Segment) : Prop :=
  (c.receive seg).conn ≠ c ∨ (c.receive seg).dataCb ≠ none

/-- The SYN that a connection is opened with. -/
def InitialSyn (c : TcpConnection) (seg : Segment) : Prop := c.state = .listen ∧ seg.syn ∧ ¬ seg.rst

/-- Only genuine segments affect the connection. -/
structure Guarded (c : TcpConnection) (p : Inbound) : Prop where
  affected : c.Affected p.segment →
    p.Verifies ∧ (c.InitialSyn p.segment ∨ p.segment.seqNum = c.ackNum)
  established : c.state = .synReceived → (c.receive p.segment).conn.state = .established →
    p.segment.ackNum = c.seqNum

/-- The segments that each state reacts to. -/
def TakesEffect (c : TcpConnection) (seg : Segment) : Prop :=
  if seg.rst then c.state ≠ .closed ∨ c.active
  else match c.state with
    | .listen => seg.syn
    | .synReceived => seg.ack
    | .established =>
      seg.fin ∨ (0 < seg.payloadLen ∧
        (c.onData ≠ none ∨ seg.seqNum + BitVec.ofNat 32 seg.payloadLen ≠ c.ackNum))
    | .lastAck => seg.ack
    | _ => False

theorem ne_of_state_ne {c c' : TcpConnection} (h : c'.state ≠ c.state) : c' ≠ c :=
  fun heq => h (heq ▸ rfl)

theorem closed_ne_iff (c : TcpConnection) :
    { c with state := .closed, active := false } ≠ c ↔ c.state ≠ .closed ∨ c.active = true := by
  constructor
  · intro hne
    by_cases hstate : c.state = .closed
    · right
      by_contra hactive
      refine hne ?_
      cases c
      simp only [Bool.not_eq_true] at hstate hactive
      subst hstate hactive
      rfl
    · exact .inl hstate
  · intro h heq
    rw [← heq] at h
    rcases h with h | h
    · exact h rfl
    · cases h

theorem taken_affects {c : TcpConnection} {seg : Segment} (hstate : c.state = .established) :
    ((c.taken seg).1 ≠ c ∨ (if 0 < seg.payloadLen then c.onData else none) ≠ none) ↔
      seg.fin ∨ (0 < seg.payloadLen ∧
        (c.onData ≠ none ∨ seg.seqNum + BitVec.ofNat 32 seg.payloadLen ≠ c.ackNum)) := by
  by_cases hfin : seg.fin
  · refine ⟨fun _ => .inl hfin, fun _ => .inl (ne_of_state_ne ?_)⟩
    obtain ⟨seqNum, htaken⟩ := @taken_fin c seg hfin
    rw [htaken, hstate]
    exact TcpState.noConfusion
  rw [taken_no_fin hfin]
  by_cases hlen : 0 < seg.payloadLen
  · rw [if_pos hlen, if_pos hlen]
    constructor
    · rintro (hne | hdata)
      · refine .inr ⟨hlen, .inr fun heq => hne ?_⟩
        rw [heq]
      · exact .inr ⟨hlen, .inl hdata⟩
    · rintro (h | ⟨_, hdata | hack⟩)
      · exact absurd h hfin
      · exact .inr hdata
      · exact .inl fun heq => hack (congrArg ackNum heq)
  · rw [if_neg hlen, if_neg hlen]
    constructor
    · rintro (h | h)
      · exact absurd rfl h
      · exact absurd rfl h
    · rintro (h | ⟨h, _⟩)
      · exact absurd h hfin
      · exact absurd h hlen

theorem affected_iff (c : TcpConnection) (seg : Segment) : c.Affected seg ↔ c.TakesEffect seg := by
  have hreaction := c.receive_reaction seg
  unfold Affected TakesEffect
  generalize c.receive seg = r at hreaction
  cases hreaction with
  | reset hrst =>
    rw [if_pos hrst]
    simp only [ne_eq, not_true_eq_false, or_false]
    exact closed_ne_iff c
  | opened hrst hstate hsyn =>
    rw [if_neg hrst, hstate]
    refine ⟨fun _ => hsyn, fun _ => .inl (ne_of_state_ne ?_)⟩
    obtain ⟨seqNum, hsent⟩ :=
      sendSegment_conn { c with ackNum := seg.seqNum + 1, state := .synReceived }
      (tcpFlagSyn ||| tcpFlagAck) []
    rw [hsent, hstate]
    exact TcpState.noConfusion
  | connected hrst hstate hack =>
    rw [if_neg hrst, hstate]
    refine ⟨fun _ => hack, fun _ => .inl (ne_of_state_ne ?_)⟩
    rw [hstate]
    exact TcpState.noConfusion
  | taken hrst hstate =>
    rw [if_neg hrst, hstate]
    exact taken_affects hstate
  | acked hrst hstate hack =>
    rw [if_neg hrst, hstate]
    refine ⟨fun _ => hack, fun _ => .inl (ne_of_state_ne ?_)⟩
    rw [hstate]
    exact TcpState.noConfusion
  | ignored h =>
    rw [if_neg h.1]
    have hno := h.2
    refine ⟨fun heffect => ?_, fun heffect => ?_⟩
    · rcases heffect with heffect | heffect
      · exact absurd rfl heffect
      · exact absurd rfl heffect
    · cases hstate : c.state <;> simp only [hstate] at hno heffect <;> exact absurd heffect hno

/-- A connection leaves `SynReceived` for `Established` on any acknowledgement. -/
theorem established_iff {c : TcpConnection} (hstate : c.state = .synReceived) (seg : Segment) :
    (c.receive seg).conn.state = .established ↔ ¬ seg.rst ∧ seg.ack := by
  have hreaction := c.receive_reaction seg
  generalize c.receive seg = r at hreaction
  cases hreaction with
  | reset hrst => exact ⟨fun h => TcpState.noConfusion h, fun h => absurd hrst h.1⟩
  | opened hrst hlisten hsyn => exact absurd (hlisten.symm.trans hstate) TcpState.noConfusion
  | connected hrst _ hack => exact ⟨fun _ => ⟨hrst, hack⟩, fun _ => rfl⟩
  | taken hrst hestablished => exact absurd (hestablished.symm.trans hstate) TcpState.noConfusion
  | acked hrst hlast hack => exact absurd (hlast.symm.trans hstate) TcpState.noConfusion
  | ignored h =>
    have hno := h.2
    rw [hstate] at hno
    refine ⟨fun hsame => absurd (hstate.symm.trans hsame) TcpState.noConfusion,
      fun hack => absurd hack.2 hno⟩

end TcpConnection

/-- A header without data: sequence number 0, acknowledgement 0, checksum 0. -/
def blindSegment (flags : Byte) (payload : List Byte) : Inbound :=
  ⟨.ofOctets 10 0 0 2, .ofOctets 10 0 0 3,
    [0x9C, 0x40, 0x08, 0xAE, 0, 0, 0, 0, 0, 0, 0, 0, 0x50, flags, 0x40, 0, 0, 0, 0, 0] ++ payload⟩

end LlamaOS.Net
