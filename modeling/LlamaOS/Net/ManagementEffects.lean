import LlamaOS.Net.PacketReads

/-!
# What the management server does to its tables

Each function of the server in terms of the connection and the session it works on: replies
only move a sequence number, leaving closes the connection and frees the session.
-/

namespace LlamaOS.Net
open Logged
open Threading (literal)

namespace TcpConnection

/-- The connection after `close`, up to its sequence number. -/
def shut (c : TcpConnection) : TcpConnection :=
  if c.state = .established then { c with state := .lastAck }
  else { c with state := .closed, active := false }

theorem send_conn (c : TcpConnection) (data : List Byte) :
    ∃ seqNum, (c.send data).1 = { c with seqNum } := by
  unfold send
  split
  · exact ⟨c.seqNum, rfl⟩
  · exact c.sendSegment_conn _ _

theorem close_conn (c : TcpConnection) : ∃ seqNum, c.close.1 = { c.shut with seqNum } := by
  unfold close shut
  split
  · exact sendSegment_conn _ _ _
  · exact ⟨c.seqNum, rfl⟩

end TcpConnection

namespace Stack

/-- Nothing but the interfaces and connection `i` has changed, which is `c` up to its sequence
number. -/
structure Changes (i : Fin 16) (c : TcpConnection) (s s' : Stack) : Prop where
  others : ∀ i', i' ≠ i → s'.connections i' = s.connections i'
  own : ∃ seqNum, s'.connections i = { c with seqNum }
  sessions : s'.sessions = s.sessions
  listeners : s'.listeners = s.listeners
  adminToken : s'.adminToken = s.adminToken
  halted : s'.halted = s.halted

abbrev Quiet (i : Fin 16) (s s' : Stack) : Prop := Changes i (s.connections i) s s'

abbrev Closing (i : Fin 16) (s s' : Stack) : Prop := Changes i (s.connections i).shut s s'

variable {i j : Fin 16} {s s' s'' : Stack}

theorem Quiet.refl (i : Fin 16) (s : Stack) : Quiet i s s :=
  ⟨fun _ _ => rfl, ⟨(s.connections i).seqNum, rfl⟩, rfl, rfl, rfl, rfl⟩

theorem Quiet.trans (h : Quiet i s s') (h' : Quiet i s' s'') : Quiet i s s'' := by
  obtain ⟨seqNum, hown⟩ := h.own
  obtain ⟨seqNum', hown'⟩ := h'.own
  refine ⟨fun i' hne => (h'.others i' hne).trans (h.others i' hne), ⟨seqNum', ?_⟩,
    h'.sessions.trans h.sessions,
    h'.listeners.trans h.listeners, h'.adminToken.trans h.adminToken, h'.halted.trans h.halted⟩
  rw [hown', hown]

theorem emit_value (s : Stack) (sent : List Outgoing) :
    ∃ interfaces, (s.emit sent).value.2 = { s with interfaces } := by
  induction sent generalizing s with
  | nil => exact ⟨s.interfaces, rfl⟩
  | cons o sent ih =>
    rw [emit]
    split
    · exact ⟨_, rfl⟩
    · exact ih _

theorem emit_changes (s : Stack) (i : Fin 16) {c c' : TcpConnection}
    (hconn : ∃ seqNum, c' = { c with seqNum }) (sent : List Outgoing) :
    Changes i c s ((s.setConnection i c').emit sent).value.2 := by
  obtain ⟨seqNum, rfl⟩ := hconn
  obtain ⟨interfaces, hvalue⟩ := (s.setConnection i { c with seqNum }).emit_value sent
  rw [hvalue]
  exact ⟨fun i' hne => Function.update_of_ne hne _ _, ⟨seqNum, Function.update_self _ _ _⟩, rfl,
    rfl, rfl, rfl⟩

theorem send_quiet (s : Stack) (i : Fin 16) (data : List Byte) :
    Quiet i s (s.send i data).value.2 :=
  s.emit_changes i ((s.connections i).send_conn data) _

theorem close_closing (s : Stack) (i : Fin 16) : Closing i s (s.close i).value :=
  s.emit_changes i (s.connections i).close_conn _

theorem reply_quiet (s : Stack) (i : Fin 16) (texts : List (List Byte)) :
    Quiet i s (s.reply i texts).value := by
  induction texts generalizing s with
  | nil => exact Quiet.refl i s
  | cons text texts ih =>
    rw [reply]
    exact (s.send_quiet i text).trans (ih _)

theorem findSession_some (h : s.findSession i = some j) :
    (s.sessions j).active = true ∧ (s.sessions j).conn = some i := by
  have hfound := List.find?_some h
  simp only [Bool.and_eq_true, beq_iff_eq] at hfound
  exact hfound

theorem findSession_none (h : s.findSession i = none) (j : Fin 16)
    (hactive : (s.sessions j).active = true) : (s.sessions j).conn ≠ some i := by
  intro hconn
  have hnot := List.find?_eq_none.mp h j (List.mem_finRange j)
  simp only [hactive, hconn, beq_self_eq_true, Bool.and_self, not_true_eq_false] at hnot

theorem freeSession_cases (s : Stack) (i : Fin 16) :
    (∃ j, s.findSession i = some j ∧ s.freeSession i = s.setSession j ⟨none, [], false, 0, false⟩) ∨
      (s.findSession i = none ∧ s.freeSession i = s) := by
  unfold freeSession
  cases hfind : s.findSession i with
  | none => exact .inr ⟨rfl, rfl⟩
  | some j => exact .inl ⟨j, rfl, rfl⟩

theorem freeSession_connections (s : Stack) (i : Fin 16) :
    (s.freeSession i).connections = s.connections := by
  rcases freeSession_cases s i with ⟨_, _, h⟩ | ⟨_, h⟩
  · rw [h]
    rfl
  · rw [h]

theorem allocateSession_connections (s : Stack) (i : Fin 16) :
    (s.allocateSession i).2.connections = s.connections ∧ (s.allocateSession i).2.listeners =
      s.listeners := by
  unfold allocateSession
  split
  · exact ⟨rfl, rfl⟩
  · split <;> exact ⟨rfl, rfl⟩

/-- The text of an `auth` line for a token. -/
def AuthText (token cmd : List Byte) : Prop :=
  ∃ spaces, cmd = literal "auth" ++ List.replicate (spaces + 1) 0x20 ++ token

theorem dropWhile_spaces (text : List Byte) :
    ∃ spaces, text = List.replicate spaces 0x20 ++ text.dropWhile (· = 0x20) := by
  induction text with
  | nil => exact ⟨0, rfl⟩
  | cons c text ih =>
    rw [List.dropWhile_cons]
    split
    · rename_i hc
      obtain ⟨spaces, htext⟩ := ih
      refine ⟨spaces + 1, ?_⟩
      rw [List.replicate_succ, List.cons_append, ← htext, of_decide_eq_true hc]
    · exact ⟨0, rfl⟩

theorem authText_of_supplied {cmd token : List Byte} (hstarts : (literal "auth ").isPrefixOf cmd)
    (hsupplied : (cmd.drop 5).dropWhile (· = 0x20) = token) : AuthText token cmd := by
  obtain ⟨rest, hrest⟩ := List.isPrefixOf_iff_prefix.mp hstarts
  have hdrop : cmd.drop 5 = rest := by
    rw [← hrest]
    exact List.drop_left' (by decide)
  obtain ⟨spaces, hspaces⟩ := dropWhile_spaces rest
  rw [hdrop] at hsupplied
  rw [hsupplied] at hspaces
  refine ⟨spaces, ?_⟩
  rw [← hrest, hspaces, show literal "auth " = literal "auth" ++ [0x20] from rfl, List.append_assoc,
    List.append_assoc, List.replicate_succ]
  rfl

/-- What `process_command` leaves behind, for session `j` of connection `i`. -/
inductive Outcome (s : Stack) (j i : Fin 16) : Stack → Prop where
  | replied {s' : Stack} (h : Quiet i s s') : Outcome s j i s'
  | granted {s' : Stack} (htext : AuthText s.adminToken (commandText (s.sessions j).cmdBuffer))
      (h : Quiet i
        (s.setSession j { s.sessions j with authenticated := true, failedAuthAttempts := 0 }) s') :
      Outcome s j i s'
  | refused {s' : Stack} {failures : BitVec 32}
      (h : Quiet i (s.setSession j { s.sessions j with failedAuthAttempts := failures }) s') :
          Outcome s j i s'
  | left {s₁ s₂ : Stack} {failures : BitVec 32}
      (hquiet : Quiet i (s.setSession j { s.sessions j with failedAuthAttempts := failures }) s₁)
      (hclose : Closing i s₁ s₂) : Outcome s j i (s₂.freeSession i)
  | halted {s' : Stack} (h : Quiet i s s') : Outcome s j i { s' with halted := true }

theorem setSession_self (s : Stack) (j : Fin 16) : s.setSession j (s.sessions j) = s := by
  rw [setSession, Function.update_eq_self]

theorem authenticate_outcome (s : Stack) {supplied : List Byte}
    (htext : supplied = s.adminToken →
      AuthText s.adminToken (commandText (s.sessions j).cmdBuffer)) :
    Outcome s j i (s.authenticate j i supplied).value := by
  unfold authenticate
  dsimp only
  split
  · rename_i hsupplied
    exact .granted (htext hsupplied) (reply_quiet _ i _)
  · split
    · exact .left (reply_quiet _ i _) (close_closing _ i)
    · exact .refused (reply_quiet _ i _)

theorem execute_outcome (s : Stack) (t : Telemetry) (j i : Fin 16) (cmd : List Byte) :
    Outcome s j i (s.execute t i cmd).value := by
  unfold execute
  split
  · rename_i command _
    split
    · exact .halted (s.reply_quiet i _)
    · exact .replied (s.reply_quiet i _)
  · exact .replied (s.reply_quiet i _)

theorem processCommand_outcome (t : Telemetry) (hconn : (s.sessions j).conn = some i) :
    Outcome s j i (s.processCommand t j).value := by
  unfold processCommand
  dsimp only
  rw [hconn]
  simp only [value_bind]
  split
  · exact .replied (s.reply_quiet i _)
  split
  · rename_i hstarts
    exact s.authenticate_outcome fun hsupplied => authText_of_supplied hstarts hsupplied
  split
  · exact .replied (s.reply_quiet i _)
  split
  · refine @Outcome.left s j i _ _ (s.sessions j).failedAuthAttempts ?_ (close_closing _ i)
    exact (s.setSession_self j).symm ▸ s.reply_quiet i _
  · split
    · exact .replied (s.reply_quiet i _)
    · exact s.execute_outcome t j i _

theorem processCommand_freed (t : Telemetry) (hconn : (s.sessions j).conn = none) :
    s.processCommand t j = pure s := by
  unfold processCommand
  dsimp only
  rw [hconn]

theorem privileged_mem_processCommand {t : Telemetry} {c : Command}
    (hmem : .privileged i c ∈ (s.processCommand t j).log) :
    (s.sessions j).conn = some i ∧ (s.sessions j).authenticated = true := by
  by_contra hnot
  have hnone : Only (· ≠ .privileged i c) (s.processCommand t j) := by
    refine s.processCommand_all t ?_ (fun _ _ _ => nofun) fun i' hsession command heq => ?_
    · rintro e hout rfl
      exact hout
    · cases heq
      exact hnot hsession
  exact hnone _ hmem rfl

end Stack

end LlamaOS.Net
