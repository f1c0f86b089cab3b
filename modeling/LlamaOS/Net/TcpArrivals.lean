import LlamaOS.Net.ManagementEffects
import LlamaOS.Shared.Lines

/-!
# What a TCP packet can do

A packet is dropped, or a connection reacts to it: the one with its addresses or one that it
opens. The callbacks of the reaction come last.
-/

namespace LlamaOS.Net
open ByteBuffer Logged

/-- The arguments of `TcpEngine::handle_packet`, with what the server would report meanwhile. -/
structure TcpPacket where
  telemetry : Telemetry
  netif : Fin 4
  srcIp : Ipv4Address
  frame : Buffer
  pos : Nat
  len : Nat

namespace TcpPacket

def header (p : TcpPacket) : TcpHeader := TcpHeader.load p.frame p.pos

def srcPort (p : TcpPacket) : BitVec 16 := ntohs p.header.srcPort

def dstPort (p : TcpPacket) : BitVec 16 := ntohs p.header.dstPort

def segment (p : TcpPacket) : Segment :=
  ⟨p.header.flags, ntohl p.header.seqNum, ntohl p.header.ackNum, p.len - p.header.headerLen⟩

def payload (p : TcpPacket) : List Byte :=
  slice p.frame (p.pos + p.header.headerLen) (p.len - p.header.headerLen)

theorem payload_length (p : TcpPacket) : p.payload.length = p.segment.payloadLen :=
  slice_length _ _ _

end TcpPacket

namespace Event

/-- Neither a slot nor a session is concerned. -/
def Silent : Event → Prop
  | .read _ _ => True
  | .transmit _ => True
  | .overflow _ => True
  | _ => False

theorem Outbound.silent (e : Event) (h : e.Outbound) : e.Silent := by
  cases e <;> first | exact h.elim | trivial

end Event

namespace Stack

def take (s : Stack) (p : TcpPacket) : Logged Event Stack :=
  s.handleTcp p.telemetry p.netif p.srcIp p.frame p.pos p.len

/-- Connection `i` has received the segment and its answers are sent; now the callbacks run. -/
def react (s : Stack) (i : Fin 16) (p : TcpPacket) (interfaces : Fin 4 → NetInterface) :
    Logged Event Stack :=
  { s.setConnection i ((s.connections i).receive p.segment).conn with interfaces }.runCallbacks
    p.telemetry i p.frame
    (p.pos + p.header.headerLen) (p.len - p.header.headerLen) ((s.connections i).receive p.segment)

inductive Arrival (s : Stack) (p : TcpPacket) : Logged Event Stack → Prop where
  | dropped {es : List Event} (hes : ∀ e ∈ es, e.Silent) :
      Arrival s p ((pure s : Logged Event Stack).after es)
  | found {es : List Event} {i : Fin 16} {interfaces : Fin 4 → NetInterface}
      (hes : ∀ e ∈ es, e.Silent)
      (hfind : s.findConnection p.srcIp p.srcPort p.dstPort = some i) :
          Arrival s p ((s.react i p interfaces).after es)
  | opened {es es' : List Event} {i : Fin 16} {l : Fin 8} {interfaces : Fin 4 → NetInterface}
      (hes : ∀ e ∈ es, e.Silent)
      (hes' : ∀ e ∈ es', e.Silent) (hsyn : p.segment.syn)
        (hlistener : s.findListener p.dstPort = some l)
      (hfree : s.freeSlot = some i) :
      Arrival s p (((s.openSlot i p.netif p.srcIp p.srcPort p.dstPort (s.listeners l)).react i p
        interfaces).after (es ++ .opened i :: es'))

theorem handleSegment_react (s : Stack) (i : Fin 16) (p : TcpPacket) :
    ∃ es interfaces, (∀ e ∈ es, Event.Silent e) ∧
      s.handleSegment p.telemetry i p.frame p.pos (p.pos + p.header.headerLen)
        (p.len - p.header.headerLen) = (s.react i p interfaces).after es := by
  obtain ⟨interfaces, hvalue⟩ :=
    (s.setConnection i ((s.connections i).receive p.segment).conn).emit_value
    ((s.connections i).receive p.segment).sent
  have hout := (s.setConnection i ((s.connections i).receive p.segment).conn).emit_only
    ((s.connections i).receive p.segment).sent
  refine ⟨[.read (p.pos + 4) 4, .read (p.pos + 8) 4, .read (p.pos + 13) 1] ++
    ((s.setConnection i ((s.connections i).receive p.segment).conn).emit
      ((s.connections i).receive p.segment).sent).log,
    interfaces, ?_, ?_⟩
  · intro e he
    rcases List.mem_append.mp he with he | he
    · simp only [List.mem_cons, List.not_mem_nil, or_false] at he
      rcases he with rfl | rfl | rfl <;> trivial
    · exact (hout e he).silent
  · rw [react, ← hvalue]
    rfl

theorem take_arrival (s : Stack) (p : TcpPacket) : s.Arrival p (s.take p) := by
  have hreads : ∀ positions : List (Nat × Nat), ∀ e ∈ positions.map (fun r => Event.read r.1 r.2),
      e.Silent := by
    intro positions e he
    obtain ⟨r, _, rfl⟩ := List.mem_map.mp he
    trivial
  unfold take handleTcp
  split
  · exact @Arrival.dropped s p [] (by intro e he; cases he)
  rw [fetch_bind, fetch_bind, fetch_bind, after_after, after_after]
  split
  · exact .dropped (hreads [(p.pos, 2), (p.pos + 2, 2), (p.pos + 12, 1)])
  rw [fetch_bind, after_after]
  have hfour : ∀ e ∈ [.read p.pos 2] ++ [.read (p.pos + 2) 2] ++ [.read (p.pos + 12) 1] ++
      [.read (p.pos + 13) 1], Event.Silent e :=
    hreads [(p.pos, 2), (p.pos + 2, 2), (p.pos + 12, 1), (p.pos + 13, 1)]
  generalize [Event.read p.pos 2] ++ [.read (p.pos + 2) 2] ++ [.read (p.pos + 12) 1] ++
    [.read (p.pos + 13) 1] = reads at hfour ⊢
  have hgo : ∀ (s' : Stack) (i : Fin 16) (es : List Event),
      ∃ es' interfaces, (∀ e ∈ es', Event.Silent e) ∧
        (s'.handleSegment p.telemetry i p.frame p.pos (p.pos + p.header.headerLen)
          (p.len - p.header.headerLen)).after es = (s'.react i p interfaces).after (es ++ es') := by
    intro s' i es
    obtain ⟨es', interfaces, hes, hsegment⟩ := s'.handleSegment_react i p
    exact ⟨es', interfaces, hes, by rw [hsegment, after_after]⟩
  have hdropped : s.Arrival p ((pure s : Logged Event Stack).after reads) := .dropped hfour
  unfold locate
  split
  · rename_i i hfind
    obtain ⟨es, interfaces, hes, hsegment⟩ := hgo s i reads
    have hfound : s.Arrival p ((s.react i p interfaces).after (reads ++ es)) :=
      .found (List.forall_mem_append.mpr ⟨hfour, hes⟩) hfind
    rw [← hsegment] at hfound
    exact hfound
  split
  · rename_i hflags
    split
    · exact hdropped
    split
    · exact hdropped
    rename_i l hlistener _ i hfree
    obtain ⟨es, interfaces, hes, hsegment⟩ := hgo
      (s.openSlot i p.netif p.srcIp p.srcPort p.dstPort (s.listeners l)) i (reads ++ [.opened i])
    have hopened := @Arrival.opened s p reads es i l interfaces hfour hes
      (Bool.and_eq_true_iff.mp hflags).1 hlistener hfree
    rw [List.append_cons, ← hsegment] at hopened
    rw [record_bind, after_after]
    exact hopened
  · exact hdropped

end Stack

/-!
## The lines a connection has received

What the management server has taken on a connection since its slot was initialised, the line
editing of the server, and the lines that authenticate.
-/

open Logged

def receiveEvent (i : Fin 16) (bytes : List Byte) : Event → List Byte
  | .opened i' => if i' = i then [] else bytes
  | .input i' c => if i' = i then bytes ++ [c] else bytes
  | _ => bytes

/-- The bytes that the server has taken on connection `i` since its slot was last initialised. -/
def received (i : Fin 16) (log : List Event) : List Byte := log.foldl (receiveEvent i) []

/-- The event concerns what other connections receive. -/
def Event.Spares (i : Fin 16) : Event → Prop
  | .opened i' => i' ≠ i
  | .input i' _ => i' ≠ i
  | _ => True

theorem Event.Executed.spares (i : Fin 16) (e : Event) (h : e.Executed) : e.Spares i := by
  cases e <;> first | exact h.elim | trivial

theorem Event.Silent.spares (i : Fin 16) (e : Event) (h : e.Silent) : e.Spares i := by
  cases e <;> first | exact h.elim | trivial

section
variable {i : Fin 16} {log es : List Event}

theorem received_spared (h : ∀ e ∈ es, e.Spares i) : received i (log ++ es) = received i log := by
  rw [received, List.foldl_append]
  change es.foldl (receiveEvent i) (received i log) = received i log
  induction es with
  | nil => rfl
  | cons e es ih =>
    obtain ⟨hhead, htail⟩ := List.forall_mem_cons.mp h
    have hsame : receiveEvent i (received i log) e = received i log := by
      cases e with
      | opened i' => exact if_neg hhead
      | input i' c => exact if_neg hhead
      | _ => rfl
    rw [List.foldl_cons, hsame]
    exact ih htail

theorem received_input (c : Byte) : received i (log ++ [.input i c]) = received i log ++ [c] := by
  rw [received, List.foldl_append]
  exact if_pos rfl

theorem received_opened : received i (log ++ [.opened i]) = [] := by
  rw [received, List.foldl_append]
  exact if_pos rfl

theorem received_grows (h : .opened i ∉ es) :
    ∃ more, received i (log ++ es) = received i log ++ more := by
  induction es generalizing log with
  | nil => exact ⟨[], by rw [List.append_nil, List.append_nil]⟩
  | cons e es ih =>
    obtain ⟨hhead, htail⟩ := not_or.mp (List.mem_cons.not.mp h)
    obtain ⟨more, hmore⟩ := @ih (log ++ [e]) htail
    rw [List.append_cons, hmore]
    by_cases hspares : e.Spares i
    · rw [received_spared (List.forall_mem_singleton.mpr hspares)]
      exact ⟨more, rfl⟩
    cases e with
    | opened i' =>
      refine absurd (fun heq => hhead ?_) hspares
      rw [heq]
    | input i' c =>
      obtain rfl : i' = i := not_not.mp hspares
      rw [received_input, List.append_assoc]
      exact ⟨[c] ++ more, rfl⟩
    | _ => exact absurd trivial hspares

end

/-- How the server takes a byte of a line into its buffer. -/
def editByte (buffer : List Byte) (c : Byte) : List Byte :=
  if c = 0x0D then buffer
  else if c = 0x08 || c = 0x7F then buffer.dropLast
  else if buffer.length < maxCmdLen - 1 then buffer ++ [c]
  else buffer

/-- The text of a line: carriage returns are dropped, backspaces applied, and what does not fit
into the buffer is left out. -/
def edit (line : List Byte) : List Byte := line.foldl editByte []

theorem edit_snoc (line : List Byte) (c : Byte) : edit (line ++ [c]) = editByte (edit line) c := by
  rw [edit, List.foldl_append]
  rfl

/-- The line is `auth`, spaces and the token, as the server edits it. -/
def AuthLine (token line : List Byte) : Prop := Stack.AuthText token (Stack.commandText (edit line))

/-- A complete line with the token has come on this incarnation of connection `i`. -/
def Authorised (token : List Byte) (i : Fin 16) (log : List Event) : Prop :=
  ∃ line ∈ Lines.complete 0x0A (received i log), AuthLine token line

/-- The line that connection `i` is in the middle of. -/
def pending (i : Fin 16) (log : List Event) : List Byte := Lines.rest 0x0A (received i log)

section
variable {token : List Byte} {i : Fin 16} {log es : List Event}

theorem Authorised.append (h : Authorised token i log) (hes : .opened i ∉ es) :
    Authorised token i (log ++ es) := by
  obtain ⟨line, hline, hauth⟩ := h
  obtain ⟨more, hmore⟩ := @received_grows i log es hes
  refine ⟨line, ?_, hauth⟩
  rw [hmore]
  exact Lines.mem_complete_append hline more

theorem authorised_spared (hes : ∀ e ∈ es, e.Spares i) :
    Authorised token i (log ++ es) ↔ Authorised token i log := by
  unfold Authorised
  rw [received_spared hes]

theorem pending_spared (hes : ∀ e ∈ es, e.Spares i) : pending i (log ++ es) = pending i log := by
  unfold pending
  rw [received_spared hes]

theorem authorised_lineFeed (h : AuthLine token (pending i log)) :
    Authorised token i (log ++ [.input i 0x0A]) := by
  refine ⟨pending i log, ?_, h⟩
  rw [received_input, Lines.complete_snoc_delimiter]
  exact List.mem_append_right _ (List.mem_singleton.mpr rfl)

theorem pending_lineFeed : pending i (log ++ [.input i 0x0A]) = [] := by
  unfold pending
  rw [received_input, Lines.rest_snoc_delimiter]

theorem pending_input {c : Byte} (h : c ≠ 0x0A) :
    pending i (log ++ [.input i c]) = pending i log ++ [c] := by
  unfold pending
  rw [received_input, Lines.rest_snoc h]

end

/-- Before each privileged command there is a line that authenticates its connection. -/
def Safe (token : List Byte) (log : List Event) : Prop :=
  ∀ before i command behind, log = before ++ .privileged i command :: behind →
    Authorised token i before

section
variable {token : List Byte} {log es : List Event}

theorem Safe.append_of (h : Safe token log)
    (hes : ∀ before i command behind, es = before ++ .privileged i command :: behind →
      Authorised token i (log ++ before)) : Safe token (log ++ es) := by
  intro before i command behind hlog
  rcases List.append_eq_append_iff.mp hlog with
    ⟨middle, hbefore, hsplit⟩ | ⟨middle, hbefore, hsplit⟩
  · rw [hbefore]
    exact hes middle i command behind hsplit
  cases middle with
  | nil =>
    rw [List.append_nil] at hbefore
    subst hbefore
    have hauthorised := hes [] i command behind hsplit.symm
    rw [List.append_nil] at hauthorised
    exact hauthorised
  | cons e middle =>
    obtain ⟨rfl, _⟩ := hsplit
    exact h before i command middle hbefore

theorem Safe.append (h : Safe token log) (hopened : ∀ i, .opened i ∉ es)
    (hes : ∀ i command, .privileged i command ∈ es → Authorised token i log) :
    Safe token (log ++ es) := by
  refine h.append_of fun before i command behind hsplit => ?_
  subst hsplit
  refine (hes i command (List.mem_append_right _ List.mem_cons_self)).append fun hopen =>
    hopened i ?_
  exact List.mem_append_left _ hopen

theorem Safe.append_unprivileged (h : Safe token log)
    (hes : ∀ i command, .privileged i command ∉ es) : Safe token (log ++ es) := by
  refine h.append_of fun before i command behind hsplit => absurd ?_ (hes i command)
  rw [hsplit]
  exact List.mem_append_right _ List.mem_cons_self

end

end LlamaOS.Net
