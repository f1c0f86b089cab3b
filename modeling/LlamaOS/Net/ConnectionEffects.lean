import LlamaOS.Net.TcpArrivals

/-!
# What callbacks leave of a connection

The callbacks for one connection change no other, and this one only as its user can: they send
on it or close it.
-/

namespace LlamaOS.Net
open ByteBuffer Logged

/-- The same connection, perhaps closed in the meantime. -/
structure TcpConnection.Follows (c c' : TcpConnection) : Prop where
  remoteIp : c'.remoteIp = c.remoteIp
  remotePort : c'.remotePort = c.remotePort
  localPort : c'.localPort = c.localPort
  ackNum : c'.ackNum = c.ackNum
  onData : c'.onData = c.onData
  state : c'.state = c.state ∨ c'.state = .lastAck ∨ c'.state = .closed

namespace Stack

/-- Of the connections, at most `i` has changed, and only as a user of it can. -/
structure Tends (i : Fin 16) (s s' : Stack) : Prop where
  others : ∀ i', i' ≠ i → s'.connections i' = s.connections i'
  own : (s.connections i).Follows (s'.connections i)

variable {i j : Fin 16} {s s' s'' : Stack}

theorem Tends.of_eq (h : s'.connections = s.connections) : Tends i s s' := by
  refine ⟨fun i' _ => by rw [h], ?_⟩
  rw [h]
  exact ⟨rfl, rfl, rfl, rfl, rfl, .inl rfl⟩

theorem Tends.setSession (s : Stack) (j : Fin 16) (session : ClientSession) :
    Tends i s (s.setSession j session) :=
  Tends.of_eq rfl

theorem Tends.trans (h : Tends i s s') (h' : Tends i s' s'') : Tends i s s'' := by
  have hown := h.own
  have hown' := h'.own
  refine ⟨fun i' hne => (h'.others i' hne).trans (h.others i' hne),
    hown'.remoteIp.trans hown.remoteIp,
    hown'.remotePort.trans hown.remotePort, hown'.localPort.trans hown.localPort,
      hown'.ackNum.trans hown.ackNum,
    hown'.onData.trans hown.onData, ?_⟩
  rcases hown'.state with hstate | hstate
  · rw [hstate]
    exact hown.state
  · exact .inr hstate

theorem setSession_same (s : Stack) (j : Fin 16) (session : ClientSession) :
    (s.setSession j session).sessions j = session := by
  unfold setSession
  dsimp only
  rw [Function.update_self]

theorem Quiet.tends (h : Quiet i s s') : Tends i s s' := by
  obtain ⟨seqNum, hown⟩ := h.own
  refine ⟨h.others, ?_⟩
  rw [hown]
  exact ⟨rfl, rfl, rfl, rfl, rfl, .inl rfl⟩

theorem Closing.tends (h : Closing i s s') : Tends i s s' := by
  obtain ⟨seqNum, hown⟩ := h.own
  refine ⟨h.others, ?_⟩
  rw [hown, TcpConnection.shut]
  split
  · exact ⟨rfl, rfl, rfl, rfl, rfl, .inr (.inl rfl)⟩
  · exact ⟨rfl, rfl, rfl, rfl, rfl, .inr (.inr rfl)⟩

theorem inputByte_edit (s : Stack) (t : Telemetry) (i j : Fin 16) {c : Byte} (hc : c ≠ 0x0A) :
    s.inputByte t i j c =
      ⟨s.setSession j { s.sessions j with cmdBuffer := editByte (s.sessions j).cmdBuffer c },
        [.input i c]⟩ := by
  have hself : s.setSession j { s.sessions j with cmdBuffer := (s.sessions j).cmdBuffer } = s :=
    s.setSession_self j
  unfold inputByte editByte
  dsimp only
  split
  · rw [hself]
    rfl
  split
  · rfl
  split
  · rfl
  · rw [hself]
    rfl

/-- A line feed is answered, or its line is processed and the buffer emptied. -/
theorem inputByte_lineFeed (s : Stack) (t : Telemetry) (i j : Fin 16) :
    s.inputByte t i j 0x0A =
      (if (s.sessions j).cmdBuffer.isEmpty then s.reply i [prompt (s.sessions j).authenticated]
        else do
          let s ← s.processCommand t j
          pure (if s.halted then s else s.setSession j { s.sessions j with cmdBuffer := [] })).after
            [.input i 0x0A] := rfl

/-- A command works on the connection of its session, which stays or is given up. -/
theorem Outcome.tends (hconn : (s.sessions j).conn = some i) (h : Outcome s j i s') :
    Tends i s s' ∧ ((s'.sessions j).conn = some i ∨ (s'.sessions j).conn = none) := by
  cases h with
  | replied hquiet => exact ⟨hquiet.tends, .inl (by rw [hquiet.sessions]; exact hconn)⟩
  | granted _ hquiet =>
    refine ⟨(Tends.setSession s j _).trans hquiet.tends, .inl ?_⟩
    rw [hquiet.sessions, setSession_same]
    exact hconn
  | refused hquiet =>
    refine ⟨(Tends.setSession s j _).trans hquiet.tends, .inl ?_⟩
    rw [hquiet.sessions, setSession_same]
    exact hconn
  | @left s₁ s₂ _ hquiet hclose =>
    have htends : Tends i s (s₂.freeSession i) :=
      ((Tends.setSession s j _).trans hquiet.tends).trans
        (hclose.tends.trans (Tends.of_eq (freeSession_connections s₂ i)))
    refine ⟨htends, ?_⟩
    rcases freeSession_cases s₂ i with ⟨j', _, hfree⟩ | ⟨_, hfree⟩
    · by_cases hj : j = j'
      · subst hj
        rw [hfree, setSession_same]
        exact .inr rfl
      have hkept : (s₂.setSession j' ⟨none, [], false, 0, false⟩).sessions j = s₂.sessions j :=
        Function.update_of_ne hj _ _
      rw [hfree, hkept, hclose.sessions, hquiet.sessions, setSession_same]
      exact .inl hconn
    · rw [hfree, hclose.sessions, hquiet.sessions, setSession_same]
      exact .inl hconn
  | halted hquiet =>
    exact ⟨hquiet.tends.trans (Tends.of_eq rfl), .inl (by rw [hquiet.sessions]; exact hconn)⟩

theorem inputByte_tends (t : Telemetry) (c : Byte)
    (h : (s.sessions j).conn = some i ∨ (s.sessions j).conn = none) :
    Tends i s (s.inputByte t i j c).value ∧
      (((s.inputByte t i j c).value.sessions j).conn = some i ∨
        ((s.inputByte t i j c).value.sessions j).conn = none) := by
  by_cases hc : c = 0x0A
  · subst hc
    rw [inputByte_lineFeed, value_after]
    split
    · have hquiet := s.reply_quiet i [prompt (s.sessions j).authenticated]
      exact ⟨hquiet.tends, by rw [hquiet.sessions]; exact h⟩
    have hprocess : Tends i s (s.processCommand t j).value ∧
        (((s.processCommand t j).value.sessions j).conn = some i ∨
          ((s.processCommand t j).value.sessions j).conn = none) := by
      rcases h with hconn | hconn
      · exact (processCommand_outcome t hconn).tends hconn
      · rw [processCommand_freed t hconn]
        exact ⟨Tends.of_eq rfl, .inr hconn⟩
    simp only [value_bind, value_pure]
    split
    · exact hprocess
    · exact ⟨hprocess.1.trans (Tends.of_eq rfl), by rw [setSession_same]; exact hprocess.2⟩
  · rw [inputByte_edit s t i j hc]
    exact ⟨Tends.of_eq rfl, by rw [setSession_same]; exact h⟩

theorem inputBytes_tends (t : Telemetry) (bytes : List Byte) {s : Stack}
    (h : (s.sessions j).conn = some i ∨ (s.sessions j).conn = none) :
    Tends i s (inputBytes t i j bytes s).value := by
  induction bytes generalizing s with
  | nil => exact Tends.of_eq rfl
  | cons c bytes ih =>
    obtain ⟨htends, hconn⟩ := inputByte_tends t c h
    rw [inputBytes, value_bind]
    split
    · exact htends
    · exact htends.trans (ih hconn)

theorem allocateSession_some (h : s.allocateSession i = (some j, s')) :
    (s'.sessions j).conn = some i := by
  unfold allocateSession at h
  split at h
  · rename_i j' hfind
    cases h
    exact (findSession_some hfind).2
  split at h
  · cases h
    rw [setSession_same]
  · cases h

theorem onClientData_tends (s : Stack) (t : Telemetry) (i : Fin 16) (bytes : List Byte) :
    Tends i s (s.onClientData t i bytes).value := by
  have hconnections := (s.allocateSession_connections i).1
  unfold onClientData
  split
  · exact Tends.of_eq rfl
  split
  · rename_i j s' halloc
    rw [halloc] at hconnections
    exact (Tends.of_eq hconnections).trans
      (inputBytes_tends t bytes (.inl (allocateSession_some halloc)))
  · rename_i s' halloc
    rw [halloc] at hconnections
    exact Tends.of_eq hconnections

theorem onClientConnect_tends (s : Stack) (i : Fin 16) : Tends i s (s.onClientConnect i).value := by
  have hconnections := (s.allocateSession_connections i).1
  unfold onClientConnect
  split
  · rename_i j s' halloc
    rw [halloc] at hconnections
    exact (Tends.of_eq hconnections).trans (reply_quiet s' i _).tends
  · rename_i s' halloc
    rw [halloc] at hconnections
    exact (Tends.of_eq hconnections).trans
      ((reply_quiet s' i _).tends.trans (close_closing _ i).tends)

theorem runCallbacks_tends (s : Stack) (t : Telemetry) (i : Fin 16) (frame : Buffer) (pos len : Nat)
    (r : Received) : Tends i s (s.runCallbacks t i frame pos len r).value := by
  have hconnect : ∀ s : Stack, Tends i s (s.runConnect i r.connectCb).value := by
    intro s
    unfold runConnect
    split
    · exact s.onClientConnect_tends i
    · exact Tends.of_eq rfl
  have hdata : ∀ s : Stack, Tends i s (s.runData t i frame pos len r.dataCb).value := by
    intro s
    unfold runData
    split
    · exact Tends.of_eq rfl
    · split
      · exact s.onClientData_tends t i _
      · exact Tends.of_eq rfl
  have hclose : ∀ s : Stack, Tends i s (s.runClose i r.closeCb) := by
    intro s
    unfold runClose
    split
    · exact Tends.of_eq (freeSession_connections s i)
    · exact Tends.of_eq rfl
  unfold runCallbacks
  simp only [value_bind, value_pure]
  refine (hconnect s).trans ((hdata _).trans ?_)
  split
  · exact Tends.of_eq rfl
  · exact hclose _

theorem react_tends (s : Stack) (i : Fin 16) (p : TcpPacket) (interfaces : Fin 4 → NetInterface) :
    Tends i (s.setConnection i ((s.connections i).receive p.segment).conn)
      (s.react i p interfaces).value := by
  unfold react
  refine Tends.trans ?_ (runCallbacks_tends _ _ i _ _ _ _)
  exact Tends.of_eq rfl

theorem setConnection_same (s : Stack) (i : Fin 16) (c : TcpConnection) :
    (s.setConnection i c).connections i = c := by
  unfold setConnection
  dsimp only
  rw [Function.update_self]

theorem setConnection_other (s : Stack) {i' : Fin 16} (c : TcpConnection) (h : i' ≠ i) :
    (s.setConnection i c).connections i' = s.connections i' := by
  unfold setConnection
  dsimp only
  rw [Function.update_of_ne h]

theorem findConnection_some {srcIp : Ipv4Address} {srcPort dstPort : BitVec 16}
    (h : s.findConnection srcIp srcPort dstPort = some i) :
    (s.connections i).active = true ∧ (s.connections i).remoteIp = srcIp ∧
      (s.connections i).remotePort = srcPort ∧ (s.connections i).localPort = dstPort := by
  have hfound := List.find?_some h
  simp only [Bool.and_eq_true, beq_iff_eq, and_assoc] at hfound
  exact hfound

end Stack

end LlamaOS.Net
