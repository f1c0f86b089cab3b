import LlamaOS.Net.ConnectionEffects

/-!
# The loop over the bytes of a segment

While the server works through a segment, the session of the connection keeps its line and its
right in step with what has come in, or it has been freed.
-/

namespace LlamaOS.Net
open Logged Stack

/-- The session belongs to connection `i` and agrees with what has come on it. -/
structure ClientSession.Attends (session : ClientSession) (token : List Byte) (i : Fin 16)
    (log : List Event) : Prop where
  active : session.active = true
  conn : session.conn = some i
  cmdBuffer : session.cmdBuffer = edit (pending i log)
  authenticated : session.authenticated = true → Authorised token i log

structure ClientSession.Idle (session : ClientSession) : Prop where
  active : session.active = false
  conn : session.conn = none

/-- The connection is as before but for its sequence number. -/
def TcpConnection.Lives (c c' : TcpConnection) : Prop := ∃ seqNum, c' = { c with seqNum }

/-- The connection has been closed by its user. -/
structure TcpConnection.Left (c c' : TcpConnection) : Prop where
  state : c'.state = .lastAck ∨ c'.state = .closed
  onData : c'.onData = c.onData
  onConnect : c'.onConnect = c.onConnect
  onClose : c'.onClose = c.onClose

namespace TcpConnection

variable {c c' c'' : TcpConnection}

theorem Lives.trans (h : c.Lives c') (h' : c'.Lives c'') : c.Lives c'' := by
  obtain ⟨_, rfl⟩ := h
  obtain ⟨seqNum, rfl⟩ := h'
  exact ⟨seqNum, rfl⟩

theorem Lives.left (h : c.Lives c') (h' : c'.Left c'') : c.Left c'' := by
  obtain ⟨_, rfl⟩ := h
  exact { h' with }

theorem Left.lives (h : c.Left c') (h' : c'.Lives c'') : c.Left c'' := by
  obtain ⟨_, rfl⟩ := h'
  exact { h with }

theorem left_shut (c : TcpConnection) (seqNum : BitVec 32) : c.Left { c.shut with seqNum } := by
  unfold shut
  split
  · exact ⟨.inl rfl, rfl, rfl, rfl⟩
  · exact ⟨.inr rfl, rfl, rfl, rfl⟩

end TcpConnection

/-- Only connection `i` and session `j` have been touched since `s`. -/
structure Stack.Beside (i j : Fin 16) (s s' : Stack) : Prop where
  connections : ∀ i', i' ≠ i → s'.connections i' = s.connections i'
  sessions : ∀ j', j' ≠ j → s'.sessions j' = s.sessions j'
  listeners : s'.listeners = s.listeners
  adminToken : s'.adminToken = s.adminToken

namespace Stack

variable {i j : Fin 16} {s s' s'' : Stack}

/-- No session but `j` is one of connection `i`. -/
def Alone (i j : Fin 16) (s : Stack) : Prop := ∀ j', j' ≠ j → (s.sessions j').conn ≠ some i

theorem Beside.trans (h : Beside i j s s') (h' : Beside i j s' s'') : Beside i j s s'' :=
  ⟨fun i' hne => (h'.connections i' hne).trans (h.connections i' hne),
    fun j' hne => (h'.sessions j' hne).trans (h.sessions j' hne), h'.listeners.trans h.listeners,
    h'.adminToken.trans h.adminToken⟩

theorem Changes.beside {c : TcpConnection} (h : Changes i c s s') : Beside i j s s' :=
  ⟨h.others, fun _ _ => by rw [h.sessions], h.listeners, h.adminToken⟩

theorem beside_setSession (s : Stack) (j : Fin 16) (session : ClientSession) :
    Beside i j s (s.setSession j session) := by
  refine ⟨fun _ _ => rfl, fun j' hne => ?_, rfl, rfl⟩
  unfold setSession
  dsimp only
  rw [Function.update_of_ne hne]

/-- The session of a command has been kept, perhaps with a new right. -/
structure Kept (i j : Fin 16) (s s' : Stack) : Prop where
  conn : (s.connections i).Lives (s'.connections i)
  active : (s'.sessions j).active = (s.sessions j).active
  sessionConn : (s'.sessions j).conn = (s.sessions j).conn
  authenticated : (s'.sessions j).authenticated = true →
    (s.sessions j).authenticated = true ∨
      AuthText s.adminToken (commandText (s.sessions j).cmdBuffer)

theorem freeSession_own (hactive : (s.sessions j).active = true)
    (hconn : (s.sessions j).conn = some i) (halone : Alone i j s) :
    s.freeSession i = s.setSession j ⟨none, [], false, 0, false⟩ := by
  rcases freeSession_cases s i with ⟨j', hfind, hfree⟩ | ⟨hfind, _⟩
  · have hj : j' = j := by
      by_contra hne
      exact halone j' hne (findSession_some hfind).2
    rw [hfree, hj]
  · exact absurd hconn (findSession_none hfind j hactive)

theorem Outcome.result (h : Outcome s j i s') (hactive : (s.sessions j).active = true)
    (hconn : (s.sessions j).conn = some i) (halone : Alone i j s) :
    s'.halted = true ∨
      Beside i j s s' ∧
        (Kept i j s s' ∨ (s.connections i).Left (s'.connections i) ∧ (s'.sessions j).Idle) := by
  cases h with
  | replied hquiet =>
    refine .inr ⟨hquiet.beside, .inl ⟨hquiet.own, ?_, ?_, ?_⟩⟩
    · rw [hquiet.sessions]
    · rw [hquiet.sessions]
    · rw [hquiet.sessions]
      exact .inl
  | granted htext hquiet =>
    refine .inr ⟨(s.beside_setSession j _).trans hquiet.beside,
      .inl ⟨hquiet.own, ?_, ?_, fun _ => .inr htext⟩⟩
    · rw [hquiet.sessions, setSession_same]
    · rw [hquiet.sessions, setSession_same]
  | refused hquiet =>
    refine .inr ⟨(s.beside_setSession j _).trans hquiet.beside, .inl ⟨hquiet.own, ?_, ?_, ?_⟩⟩
    · rw [hquiet.sessions, setSession_same]
    · rw [hquiet.sessions, setSession_same]
    · rw [hquiet.sessions, setSession_same]
      exact .inl
  | @left s₁ s₂ failures hquiet hclose =>
    have hbeside : Beside i j s s₂ :=
      ((s.beside_setSession j _).trans hquiet.beside).trans hclose.beside
    have hown : s₂.sessions j = { s.sessions j with failedAuthAttempts := failures } := by
      rw [hclose.sessions, hquiet.sessions, setSession_same]
    have hfree : s₂.freeSession i = s₂.setSession j ⟨none, [], false, 0, false⟩ := by
      refine freeSession_own ?_ ?_ fun j' hne => ?_
      · rw [hown]
        exact hactive
      · rw [hown]
        exact hconn
      · rw [hbeside.sessions j' hne]
        exact halone j' hne
    obtain ⟨seqNum, hclosed⟩ := hclose.own
    refine .inr ⟨hfree ▸ hbeside.trans (s₂.beside_setSession j _), .inr ⟨?_, ?_⟩⟩
    · rw [freeSession_connections, hclosed]
      have hlives : (s.connections i).Lives (s₁.connections i) := hquiet.own
      exact hlives.left (TcpConnection.left_shut _ seqNum)
    · rw [hfree, setSession_same]
      exact ⟨rfl, rfl⟩
  | halted hquiet => exact .inl rfl

/-- Where the loop stands: the session attends its connection, or both are given up. -/
inductive Standing (token : List Byte) (i j : Fin 16) (c : TcpConnection) (s : Stack)
    (log : List Event) : Prop where
  | attending (hconn : c.Lives (s.connections i)) (hsession : (s.sessions j).Attends token i log)
  | freed (hconn : c.Left (s.connections i)) (hsession : (s.sessions j).Idle)

/-- The loop for connection `i` with session `j` since `s₀`. -/
structure Working (token : List Byte) (i j : Fin 16) (s₀ s : Stack) (log : List Event) : Prop where
  beside : Beside i j s₀ s
  standing : Standing token i j (s₀.connections i) s log

/-- The commands so far are safe, and the loop goes on unless the machine has been halted. -/
def Proceeds (token : List Byte) (i j : Fin 16) (s₀ : Stack) (log : List Event)
    (x : Logged Event Stack) : Prop :=
  Safe token (log ++ x.log) ∧ (x.value.halted = true ∨ Working token i j s₀ x.value (log ++ x.log))

variable {token : List Byte} {s₀ : Stack} {log : List Event}

section

variable (h : Working token i j s₀ s log)
include h

theorem Working.of_quiet (hquiet : Quiet i s s') : Working token i j s₀ s' log := by
  refine ⟨h.beside.trans hquiet.beside, ?_⟩
  cases h.standing with
  | attending hconn hsession =>
    exact .attending (hconn.trans hquiet.own) (by rw [hquiet.sessions]; exact hsession)
  | freed hconn hsession =>
    exact .freed (hconn.lives hquiet.own) (by rw [hquiet.sessions]; exact hsession)

theorem Working.edit {c : Byte} (hc : c ≠ 0x0A) :
    Working token i j s₀
      (s.setSession j { s.sessions j with cmdBuffer := editByte (s.sessions j).cmdBuffer c })
      (log ++ [.input i c]) := by
  have hopened : .opened i ∉ [Event.input i c] := by
    intro hmem
    cases List.mem_singleton.mp hmem
  refine ⟨h.beside.trans (s.beside_setSession j _), ?_⟩
  cases h.standing with
  | attending hconn hsession =>
    refine .attending hconn ?_
    rw [setSession_same]
    refine ⟨hsession.active, hsession.conn, ?_,
      fun hauth => (hsession.authenticated hauth).append hopened⟩
    rw [pending_input hc, edit_snoc, hsession.cmdBuffer]
  | freed hconn hsession =>
    refine .freed hconn ?_
    rw [setSession_same]
    exact ⟨hsession.active, hsession.conn⟩

theorem Working.append {es : List Event} (hes : ∀ e ∈ es, e.Executed) :
    Working token i j s₀ s (log ++ es) := by
  refine ⟨h.beside, ?_⟩
  have hspares : ∀ e ∈ es, e.Spares i := fun e he => (hes e he).spares i
  cases h.standing with
  | attending hconn hsession =>
    refine .attending hconn ⟨hsession.active, hsession.conn, ?_, ?_⟩
    · rw [pending_spared hspares]
      exact hsession.cmdBuffer
    · rw [authorised_spared hspares]
      exact hsession.authenticated
  | freed hconn hsession => exact .freed hconn hsession

/-- The line feed empties the buffer, after the command of the line has been kept or has ended
the session. -/
theorem Working.lineFeed (htoken : s.adminToken = token) (hbeside : Beside i j s s')
    (hresult : Kept i j s s' ∨ (s.connections i).Left (s'.connections i) ∧ (s'.sessions j).Idle)
    (hfreed : (s.sessions j).Idle → s' = s) :
    Working token i j s₀ (s'.setSession j { s'.sessions j with cmdBuffer := [] })
      (log ++ [.input i 0x0A]) := by
  have hopened : .opened i ∉ [Event.input i 0x0A] := by
    intro hmem
    cases List.mem_singleton.mp hmem
  refine ⟨(h.beside.trans hbeside).trans (s'.beside_setSession j _), ?_⟩
  cases h.standing with
  | attending hconn hsession =>
    rcases hresult with hkept | ⟨hleft, hidle⟩
    · refine .attending (hconn.trans hkept.conn) ?_
      rw [setSession_same]
      refine ⟨hkept.active.trans hsession.active, hkept.sessionConn.trans hsession.conn, ?_,
        fun hauth => ?_⟩
      · rw [pending_lineFeed]
        rfl
      · rcases hkept.authenticated hauth with hbefore | htext
        · exact (hsession.authenticated hbefore).append hopened
        · rw [hsession.cmdBuffer, htoken] at htext
          exact authorised_lineFeed htext
    · refine .freed (hconn.left hleft) ?_
      rw [setSession_same]
      exact ⟨hidle.active, hidle.conn⟩
  | freed hconn hsession =>
    rw [hfreed hsession]
    refine .freed hconn ?_
    rw [setSession_same]
    exact ⟨hsession.active, hsession.conn⟩

theorem inputByte_working (hsafe : Safe token log) (htoken : s₀.adminToken = token)
    (halone : Alone i j s₀) (t : Telemetry) (c : Byte) :
    Proceeds token i j s₀ log (s.inputByte t i j c) := by
  have hinput : ∀ c, Safe token (log ++ [.input i c]) := by
    intro c
    refine hsafe.append_unprivileged fun _ _ hmem => ?_
    cases List.mem_singleton.mp hmem
  by_cases hc : c = 0x0A
  · subst hc
    have hadmin : s.adminToken = token := h.beside.adminToken.trans htoken
    rw [inputByte_lineFeed, Proceeds, log_after, value_after, ← List.append_assoc]
    split
    · -- an empty line: the buffer is empty already
      rename_i hempty
      have hquiet := s.reply_quiet i [prompt (s.sessions j).authenticated]
      have hout := s.reply_only i [prompt (s.sessions j).authenticated]
      have hself : s.setSession j { s.sessions j with cmdBuffer := [] } = s := by
        rw [← List.isEmpty_iff.mp hempty]
        exact s.setSession_self j
      have hfeed : Working token i j s₀ s (log ++ [.input i 0x0A]) := by
        have hkept : Kept i j s s := ⟨⟨(s.connections i).seqNum, rfl⟩, rfl, rfl, .inl⟩
        have hworking := h.lineFeed hadmin (Quiet.refl i s).beside (.inl hkept) fun _ => rfl
        rw [hself] at hworking
        exact hworking
      refine ⟨(hinput 0x0A).append_unprivileged fun _ _ hmem => hout _ hmem, .inr ?_⟩
      exact (hfeed.of_quiet hquiet).append fun e he => (hout e he).executed
    · simp only [value_bind, value_pure, log_bind, log_pure, List.append_nil]
      have hexecuted := s.processCommand_only t j
      constructor
      · refine (hinput 0x0A).append (fun i' hmem => hexecuted _ hmem) fun i' command hmem => ?_
        obtain ⟨hconn, hauth⟩ := privileged_mem_processCommand hmem
        cases h.standing with
        | attending _ hsession =>
          obtain rfl : i = i' := Option.some.inj (hsession.conn.symm.trans hconn)
          refine (hsession.authenticated hauth).append fun hopen => ?_
          cases List.mem_singleton.mp hopen
        | freed _ hsession => exact absurd (hsession.conn.symm.trans hconn) nofun
      · split
        · rename_i hhalted
          exact .inl hhalted
        rename_i hhalted
        refine .inr (Working.append ?_ hexecuted)
        cases hstanding : h.standing with
        | attending hlives hsession =>
          have houtcome := processCommand_outcome t hsession.conn
          rcases houtcome.result hsession.active hsession.conn (fun j' hne => by
            rw [h.beside.sessions j' hne]
            exact halone j' hne) with hhalt | ⟨hbeside, hresult⟩
          · exact absurd hhalt hhalted
          · refine h.lineFeed hadmin hbeside hresult fun hidle => ?_
            exact absurd (hidle.active.symm.trans hsession.active) nofun
        | freed hleft hsession =>
          have hkept : Kept i j s s := ⟨⟨(s.connections i).seqNum, rfl⟩, rfl, rfl, .inl⟩
          rw [processCommand_freed t hsession.conn]
          exact h.lineFeed hadmin (Quiet.refl i s).beside (.inl hkept) fun _ => rfl
  · rw [inputByte_edit s t i j hc]
    exact ⟨hinput c, .inr (h.edit hc)⟩

end

theorem Working.proceeds_pure (h : Working token i j s₀ s log) (hsafe : Safe token log) :
    Proceeds token i j s₀ log (pure s) := by
  rw [Proceeds, log_pure, value_pure, List.append_nil]
  exact ⟨hsafe, .inr h⟩

theorem inputBytes_working (htoken : s₀.adminToken = token) (halone : Alone i j s₀) (t : Telemetry)
    (bytes : List Byte) {s : Stack} {log : List Event} (h : Working token i j s₀ s log)
    (hsafe : Safe token log) : Proceeds token i j s₀ log (inputBytes t i j bytes s) := by
  induction bytes generalizing s log with
  | nil => exact h.proceeds_pure hsafe
  | cons c bytes ih =>
    obtain ⟨hbyte, hworking⟩ := inputByte_working h hsafe htoken halone t c
    rw [inputBytes, Proceeds, log_bind, value_bind, ← List.append_assoc]
    split
    · rename_i hhalted
      rw [log_pure, value_pure, List.append_nil]
      exact ⟨hbyte, .inl hhalted⟩
    · rename_i hhalted
      exact ih (hworking.resolve_left hhalted) hbyte

end Stack

end LlamaOS.Net
