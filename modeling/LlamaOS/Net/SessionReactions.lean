import LlamaOS.Net.SessionCallbacks

/-!
# Segments keep sessions and connections in agreement

Every reaction of a connection to a segment, and the initialisation of a slot.
-/

namespace LlamaOS.Net
open ByteBuffer Logged Stack

variable {token : List Byte} {s : Stack} {log : List Event} {i : Fin 16} {c : TcpConnection}
  {interfaces : Fin 4 → NetInterface}

def Stack.afterSegment (s : Stack) (i : Fin 16) (c : TcpConnection)
    (interfaces : Fin 4 → NetInterface) : Stack :=
  { s.setConnection i c with interfaces }

theorem Stack.afterSegment_own (s : Stack) (i : Fin 16) (c : TcpConnection)
    (interfaces : Fin 4 → NetInterface) :
    (s.afterSegment i c interfaces).connections i = c := setConnection_same s i c

theorem afterSegment_around (interfaces : Fin 4 → NetInterface) (huniform : c.Uniform) :
    Around i s (s.afterSegment i c interfaces) [] := by
  refine ⟨fun i' hne => setConnection_other s c hne, rfl, rfl, fun _ _ => List.forall_mem_nil _, ?_⟩
  rw [afterSegment_own]
  exact huniform

/-- What a segment came to: the commands so far are safe, and the tables agree unless the
machine has been halted. -/
def Sound (token : List Byte) (log : List Event) (x : Logged Event Stack) : Prop :=
  Safe token (log ++ x.log) ∧ (x.value.halted = true ∨ Secure token x.value (log ++ x.log))

/-- A connection that is not open ignores the segment or changes its state only. -/
theorem Secure.afterSegment (h : Secure token s log) (hnot : ¬ (s.connections i).Manages)
    (huniform : c.Uniform) (hclosed : c.state = .established → c.onData ≠ some .management)
    (hfresh : c.state = .listen ∨ c.state = .synReceived → received i log = []) :
    Secure token (s.afterSegment i c interfaces) log := by
  have hsame := s.afterSegment_own i c interfaces
  have hsecure := h.vacate (afterSegment_around interfaces huniform)
    (fun j => .inl ⟨h.no_session hnot j, rfl⟩) (by rw [hsame]; exact hclosed)
    (by rw [hsame, List.append_nil]; exact hfresh)
  rw [List.append_nil] at hsecure
  exact hsecure

theorem react_reset (h : Secure token s log) (hsafe : Safe token log) (t : Telemetry)
    (frame : Buffer) (pos len : Nat) :
    Sound token log ((s.afterSegment i { s.connections i with state := .closed, active := false }
      interfaces).runCallbacks t i
      frame pos len ⟨{ s.connections i with state := .closed, active := false }, [], none, none,
        (s.connections i).onClose⟩) := by
  generalize hs' :
      s.afterSegment i { s.connections i with state := .closed, active := false } interfaces = s'
  have haround : Around i s s' [] := hs' ▸ afterSegment_around interfaces (h.services i)
  have hstate : (s'.connections i).state = .closed := by
    rw [← hs', afterSegment_own]
  have hclose := h.runClose haround (h.holds_self (by rw [← hs']; rfl)) (.inr hstate)
  unfold Sound runCallbacks
  simp only [runConnect, runData, value_bind, value_pure, log_bind, log_pure, List.append_nil]
  refine ⟨hsafe, ?_⟩
  split
  · rename_i hhalted
    exact .inl hhalted
  · rw [List.append_nil] at hclose
    exact .inr hclose

variable {es : List Event}

theorem Safe.outbound (h : Safe token log) (hes : ∀ e ∈ es, e.Outbound) : Safe token (log ++ es) :=
  h.append_unprivileged fun _ _ hmem => hes _ hmem

theorem Event.Outbound.spares {e : Event} (h : e.Outbound) (i : Fin 16) : e.Spares i :=
  h.executed.spares i

section Connecting

/-- Connection `i` has just been established in `s'`. -/
structure Connecting (s s' : Stack) (i : Fin 16) : Prop where
  around : Around i s s' []
  sessions : s'.sessions = s.sessions
  own : s'.connections i = { s.connections i with state := .established }
  state : (s.connections i).state = .synReceived
  active : (s.connections i).active = true

variable {s' : Stack}

theorem Secure.connecting_free (h : Secure token s log) (hnew : Connecting s s' i) (j : Fin 16) :
    (s.sessions j).conn ≠ some i := by
  refine h.no_session (fun hmanages => ?_) j
  have hest := hmanages.state
  rw [hnew.state] at hest
  cases hest

section

variable (h : Secure token s log) (hsafe : Safe token log) (hnew : Connecting s s' i)
include h hsafe hnew

theorem Secure.welcome
    (hdata : (s.connections i).onData = some .management) {j : Fin 16} (hidle : (s.sessions j).Idle)
    (texts : List (List Byte)) :
    Sound token log ((s'.setSession j ⟨some i, [], false, 0, true⟩).reply i texts) := by
  have hquiet := (s'.setSession j ⟨some i, [], false, 0, true⟩).reply_quiet i texts
  have hout := (s'.setSession j ⟨some i, [], false, 0, true⟩).reply_only i texts
  generalize (s'.setSession j ⟨some i, [], false, 0, true⟩).reply i texts = x at hquiet hout
  obtain ⟨seqNum, hconn⟩ := hquiet.own
  have hown : x.value.connections i = { s.connections i with state := .established, seqNum } := by
    rw [hconn]
    show { s'.connections i with seqNum } = _
    rw [hnew.own]
  have haround : Around i s x.value x.log := by
    refine hnew.around.beside ((s'.beside_setSession j _).trans hquiet.beside)
      (fun i' _ e he => (hout e he).spares i') ?_
    rw [hown]
    exact h.services i
  refine ⟨hsafe.outbound hout, .inr (h.attend (j := j) haround ?_ ?_ ?_ (.inl hidle))⟩
  · rw [hquiet.sessions, setSession_same]
    refine ⟨rfl, rfl, ?_, nofun⟩
    rw [pending_spared fun e he => (hout e he).spares i, pending, h.fresh i (.inr hnew.state)]
    rfl
  · rw [hown]
    exact ⟨hnew.active, rfl, hdata⟩
  · intro j' hne
    rw [hquiet.sessions, (@beside_setSession i s' j _).sessions j' hne, hnew.sessions]
    exact ⟨rfl, h.connecting_free hnew j'⟩

theorem Secure.turnAway (texts : List (List Byte)) :
    Sound token log (s'.reply i texts >>= fun s => s.close i) := by
  have hquiet := s'.reply_quiet i texts
  have hout := s'.reply_only i texts
  generalize s'.reply i texts = x at hquiet hout
  have hclosing := x.value.close_closing i
  have hout' : ∀ e ∈ (x >>= fun s => s.close i).log, e.Outbound :=
    List.forall_mem_append.mpr ⟨hout, x.value.close_only i⟩
  obtain ⟨_, hconn⟩ := hquiet.own
  obtain ⟨seqNum, hclosed⟩ := hclosing.own
  rw [hnew.own] at hconn
  rw [hconn, TcpConnection.shut, if_pos rfl] at hclosed
  have haround : Around i s (x >>= fun s => s.close i).value (x >>= fun s => s.close i).log := by
    refine hnew.around.beside (j := 0) (hquiet.beside.trans hclosing.beside)
      (fun i' _ e he => (hout' e he).spares i') ?_
    rw [value_bind, hclosed]
    exact h.services i
  refine ⟨hsafe.outbound hout',
    .inr (h.vacate_closed haround (fun j => .inl ⟨h.connecting_free hnew j, ?_⟩) ?_)⟩
  · rw [value_bind, hclosing.sessions, hquiet.sessions, hnew.sessions]
  · rw [value_bind, hclosed]
    exact .inl rfl

theorem onClientConnect_sound (hdata : (s.connections i).onData = some .management) :
    Sound token log (s'.onClientConnect i) := by
  have hfind : s'.findSession i = none := by
    cases hfind : s'.findSession i with
    | none => rfl
    | some j =>
      have hconn := (findSession_some hfind).2
      rw [hnew.sessions] at hconn
      exact absurd hconn (h.connecting_free hnew j)
  unfold onClientConnect allocateSession
  rw [hfind]
  cases hfree : (List.finRange 16).find? fun j => !(s'.sessions j).active with
  | some j =>
    have hinactive := List.find?_some hfree
    rw [hnew.sessions, Bool.not_eq_true'] at hinactive
    exact h.welcome hsafe hnew hdata (h.idle_of_inactive hinactive) _
  | none => exact h.turnAway hsafe hnew _

end

end Connecting

section Taking

theorem TcpConnection.taken_shape {seg : Segment} (hstate : c.state = .established) :
    ∃ seqNum ackNum,
    (c.taken seg).1 =
      { c with seqNum, ackNum, state := if seg.fin then .lastAck else .established } := by
  by_cases hfin : seg.fin
  · obtain ⟨seqNum, htaken⟩ := @taken_fin c seg hfin
    exact ⟨seqNum, _, by rw [htaken, if_pos hfin]⟩
  rw [taken_no_fin hfin, if_neg hfin, ← hstate]
  split
  · exact ⟨c.seqNum, _, rfl⟩
  · exact ⟨c.seqNum, c.ackNum, rfl⟩

variable {s' s'' : Stack} {es : List Event} {j : Fin 16}

theorem Stack.Working.uniform (h : Working token i j s' s'' log)
    (huniform : (s'.connections i).Uniform) : (s''.connections i).Uniform := by
  cases h.standing with
  | attending hconn _ =>
    obtain ⟨_, hown⟩ := hconn
    rw [hown]
    exact huniform
  | freed hconn _ =>
    unfold TcpConnection.Uniform
    rw [hconn.onData, hconn.onConnect, hconn.onClose]
    exact huniform

/-- The data of an attended connection is worked through; a FIN then ends the session. -/
theorem Secure.take_attended (h : Secure token s log) (haround : Around i s s' [])
    (hsessions : s'.sessions = s.sessions) (hconn : (s.sessions j).conn = some i) {fin : Bool}
    (hstate : (s'.connections i).state = if fin then .lastAck else .established)
    (hactive : (s'.connections i).active = true)
    (hdata : (s'.connections i).onData = some .management)
    (hworking : Working token i j s' s'' (log ++ es))
    (hspares : ∀ i', i' ≠ i → ∀ e ∈ es, e.Spares i') :
    Secure token (s''.runClose i (if fin then (s.connections i).onClose else none))
      (log ++ es) := by
  have haround' := haround.beside hworking.beside hspares (hworking.uniform haround.uniform)
  have halone : Alone i j s := fun j' hne hconn' => hne (h.unique hconn' hconn)
  have hothers : ∀ j', j' ≠ j → s''.sessions j' = s.sessions j' := fun j' hne =>
    (hworking.beside.sessions j' hne).trans (congrFun hsessions j')
  cases fin with
  | true =>
    refine h.runClose haround' (fun j' => ?_) ?_
    · by_cases hj : j' = j
      · subst hj
        refine .inr ⟨hconn, ?_⟩
        cases hworking.standing with
        | attending _ hsession => exact .inr ⟨hsession.active, hsession.conn⟩
        | freed _ hsession => exact .inl hsession
      · exact .inl ⟨halone j' hj, hothers j' hj⟩
    · cases hworking.standing with
      | attending hlives _ =>
        obtain ⟨_, hown⟩ := hlives
        rw [hown]
        exact .inl hstate
      | freed hleft _ => exact hleft.state
  | false =>
    show Secure token s'' (log ++ es)
    cases hworking.standing with
    | attending hlives hsession =>
      obtain ⟨_, hown⟩ := hlives
      refine h.attend (j := j) haround' hsession ?_ (fun j' hne => ⟨hothers j' hne, halone j' hne⟩)
        (.inr hconn)
      rw [hown]
      exact ⟨hactive, hstate, hdata⟩
    | freed hleft hsession =>
      refine h.vacate_closed haround' (fun j' => ?_) hleft.state
      by_cases hj : j' = j
      · subst hj
        exact .inr ⟨hconn, hsession⟩
      · exact .inl ⟨halone j' hj, hothers j' hj⟩

theorem react_taken (h : Secure token s log) (hsafe : Safe token log)
    (hactive : (s.connections i).active = true) (hstate : (s.connections i).state = .established)
    (seg : Segment) (sent : List Outgoing) (t : Telemetry) (frame : Buffer) (pos len : Nat) :
    Sound token log
      ((s.afterSegment i ((s.connections i).taken seg).1 interfaces).runCallbacks t i frame pos len
      ⟨((s.connections i).taken seg).1,
        sent, none, if 0 < seg.payloadLen then (s.connections i).onData else none,
        if seg.fin then (s.connections i).onClose else none⟩) := by
  obtain ⟨seqNum, ackNum, hshape⟩ := @TcpConnection.taken_shape (s.connections i) seg hstate
  generalize hs' : s.afterSegment i ((s.connections i).taken seg).1 interfaces = s'
  have hown : s'.connections i =
      { s.connections i with
        seqNum, ackNum, state := if seg.fin then .lastAck else .established } := by
    rw [← hs', afterSegment_own, hshape]
  have haround : Around i s s' [] := by
    rw [← hs']
    refine afterSegment_around interfaces ?_
    rw [hshape]
    exact h.services i
  have hsessions : s'.sessions = s.sessions := by
    rw [← hs']
    rfl
  have hfrom : (if 0 < seg.payloadLen then (s.connections i).onData else none) = none ∨
      (if 0 < seg.payloadLen then (s.connections i).onData else none) =
        (s.connections i).onData := by
    split
    · exact .inr rfl
    · exact .inl rfl
  generalize (if 0 < seg.payloadLen then (s.connections i).onData else none) = service at hfrom
  have hspares := fun i' (hne : i' ≠ i) => runData_spares s' t i frame pos len service hne
  unfold Sound runCallbacks
  simp only [runConnect, value_bind, value_pure, log_bind, log_pure, List.append_nil,
    List.nil_append]
  rcases h.services i with ⟨hdata, _, _⟩ | ⟨hforeign, _, hclose⟩
  · obtain ⟨j, hconn⟩ := h.attended i hstate hdata
    rw [hdata] at hfrom
    have hattends : (s'.sessions j).Attends token i log := by
      rw [hsessions]
      exact (h.of_conn hconn).1
    obtain ⟨hsafe', hworking⟩ := runData_working hattends hsafe
      (haround.adminToken.trans h.adminToken)
      (fun j' hne hconn' => hne (h.unique (hsessions ▸ hconn') hconn)) t frame pos len hfrom
    refine ⟨hsafe', ?_⟩
    split
    · rename_i hhalted
      exact .inl hhalted
    rename_i hhalted
    refine .inr
      (h.take_attended haround hsessions hconn ?_ ?_ ?_ (hworking.resolve_left hhalted) hspares)
    · rw [hown]
    · rw [hown]
      exact hactive
    · rw [hown]
      exact hdata
  · have hservice : service ≠ some .management := by
      rcases hfrom with rfl | rfl
      · exact nofun
      · exact hforeign
    obtain ⟨hvalue, hplain⟩ := runData_foreign s' t i frame pos len hservice
    refine ⟨hsafe.append_unprivileged fun i' command hmem => hplain _ hmem i' command rfl, ?_⟩
    have hsame : s'.runClose i (if seg.fin then (s.connections i).onClose else none) = s' := by
      unfold runClose
      split
      · rename_i hmanagement
        split at hmanagement
        · exact absurd hmanagement hclose
        · cases hmanagement
      · rfl
    rw [hvalue, hsame]
    have hkeep : (if s'.halted = true then s' else s') = s' := ite_self s'
    rw [hkeep]
    refine .inr (h.vacate { haround with spares := hspares }
      (fun j => .inl ⟨h.no_session (fun hmanages => hforeign hmanages.onData) j,
        congrFun hsessions j⟩) ?_ ?_)
    · rw [hown]
      exact fun _ => hforeign
    · rw [hown]
      split
      · rintro (hnew | hnew) <;> cases hnew
      · rintro (hnew | hnew) <;> cases hnew

end Taking

theorem runCallbacks_connect (s : Stack) (t : Telemetry) (i : Fin 16) (frame : Buffer)
    (pos len : Nat) (c : TcpConnection) (sent : List Outgoing) (service : Option Service) :
    s.runCallbacks t i frame pos len ⟨c, sent, service, none, none⟩ = s.runConnect i service := by
  unfold runCallbacks runData runClose
  simp only [ite_self]
  show Logged.mk (s.runConnect i service).value ((s.runConnect i service).log ++ ([] ++ [])) = _
  rw [List.append_nil, List.append_nil]

section

variable (h : Secure token s log)
include h

theorem react_sound (hsafe : Safe token log) (hactive : (s.connections i).active = true)
    (p : TcpPacket) (interfaces : Fin 4 → NetInterface) :
    Sound token log (s.react i p interfaces) := by
  have hreaction := (s.connections i).receive_reaction p.segment
  have hplain : ∀ {s' : Stack}, Secure token s' log → Sound token log (pure s') := by
    intro s' hsecure
    unfold Sound
    rw [log_pure, value_pure, List.append_nil]
    exact ⟨hsafe, .inr hsecure⟩
  unfold react
  generalize (s.connections i).receive p.segment = r at hreaction
  cases hreaction with
  | reset hrst => exact react_reset h hsafe _ _ _ _
  | opened hrst hstate hsyn =>
    obtain ⟨seqNum, hsent⟩ := TcpConnection.sendSegment_conn
      { s.connections i with ackNum := p.segment.seqNum + 1, state := .synReceived }
        (tcpFlagSyn ||| tcpFlagAck) []
    rw [runCallbacks_connect]
    refine hplain (h.afterSegment ?_ ?_ ?_ ?_)
    · exact fun hmanages => TcpState.noConfusion (hstate.symm.trans hmanages.state)
    · rw [hsent]
      exact h.services i
    · rw [hsent]
      exact fun hest => TcpState.noConfusion hest
    · exact fun _ => h.fresh i (.inl hstate)
  | connected hrst hstate hack =>
    have hnew : Connecting s
        (s.afterSegment i { s.connections i with state := .established } interfaces) i :=
      ⟨afterSegment_around interfaces (h.services i), rfl, s.afterSegment_own i _ interfaces,
        hstate, hactive⟩
    rw [runCallbacks_connect]
    rcases h.services i with ⟨hdata, hconnect, _⟩ | ⟨hforeign, hconnect, _⟩
    · change Sound token log
        ((s.afterSegment i { s.connections i with state := .established } interfaces).runConnect i
        (s.connections i).onConnect)
      generalize s.afterSegment i { s.connections i with state := .established } interfaces =
        s' at hnew ⊢
      rw [hconnect]
      exact onClientConnect_sound h hsafe hnew hdata
    unfold runConnect
    split
    · rename_i hmanagement
      exact absurd hmanagement hconnect
    · refine hplain (h.afterSegment ?_ (h.services i) (fun _ => hforeign) ?_)
      · exact fun hmanages => hforeign hmanages.onData
      · rintro (hstate' | hstate') <;> cases hstate'
  | taken hrst hstate => exact react_taken h hsafe hactive hstate _ _ _ _ _ _
  | acked hrst hstate hack =>
    rw [runCallbacks_connect]
    refine hplain (h.afterSegment ?_ (h.services i) ?_ ?_)
    · exact fun hmanages => TcpState.noConfusion (hstate.symm.trans hmanages.state)
    · exact fun hest => TcpState.noConfusion hest
    · rintro (hnew | hnew) <;> cases hnew
  | ignored hignores =>
    rw [runCallbacks_connect]
    refine hplain ?_
    have hsame : s.setConnection i (s.connections i) = s := by
      rw [setConnection, Function.update_eq_self]
    rw [hsame]
    exact { h with }

theorem openSlot_secure (hsafe : Safe token log) (hfree : s.freeSlot = some i) (k : Fin 4)
    (srcIp : Ipv4Address) (srcPort dstPort : BitVec 16) (l : Fin 8) :
    Secure token (s.openSlot i k srcIp srcPort dstPort (s.listeners l)) (log ++ [.opened i]) ∧
      Safe token (log ++ [.opened i]) := by
  have hslot := List.find?_some hfree
  simp only [Bool.or_eq_true, Bool.not_eq_true', beq_iff_eq] at hslot
  have hnot : ¬ (s.connections i).Manages := by
    intro hmanages
    rcases hslot with hactive | hstate
    · exact absurd (hactive.symm.trans hmanages.active) nofun
    · exact TcpState.noConfusion (hstate.symm.trans hmanages.state)
  have hown : (s.openSlot i k srcIp srcPort dstPort (s.listeners l)).connections i = _ :=
    setConnection_same s i _
  constructor
  · refine h.vacate ⟨fun i' hne => setConnection_other s _ hne, rfl, rfl, fun i' hne => ?_, ?_⟩
      (fun j => .inl ⟨h.no_session hnot j, rfl⟩) ?_ fun _ => received_opened
    · exact List.forall_mem_singleton.mpr (Ne.symm hne)
    · rw [hown]
      exact h.listeners l
    · rw [hown]
      exact fun hest => TcpState.noConfusion hest
  · refine hsafe.append_unprivileged fun _ _ hmem => ?_
    cases List.mem_singleton.mp hmem

theorem Secure.silent (hes : ∀ e ∈ es, e.Silent) : Secure token s (log ++ es) := by
  have hspares : ∀ i, ∀ e ∈ es, e.Spares i := fun i e he => (hes e he).spares i
  refine { h with sessions := fun j => ?_, fresh := fun i hstate => ?_ }
  · rcases h.sessions j with hidle | ⟨i, hattends, hmanages⟩
    · exact .inl hidle
    · exact .inr ⟨i, hattends.spared (hspares i), hmanages⟩
  · rw [received_spared (hspares i)]
    exact h.fresh i hstate

omit h in
theorem Safe.silent (h : Safe token log) (hes : ∀ e ∈ es, e.Silent) : Safe token (log ++ es) :=
  h.append_unprivileged fun _ _ hmem => hes _ hmem

omit h in
theorem Sound.after {x : Logged Event Stack} (h : Sound token (log ++ es) x) :
    Sound token log (x.after es) := by
  unfold Sound at h ⊢
  rw [log_after, value_after, ← List.append_assoc]
  exact h

theorem take_sound (hsafe : Safe token log) (p : TcpPacket) : Sound token log (s.take p) := by
  have harrival := s.take_arrival p
  generalize s.take p = x at harrival
  cases harrival with
  | dropped hes =>
    refine Sound.after ⟨?_, .inr ?_⟩
    · rw [log_pure, List.append_nil]
      exact hsafe.silent hes
    · rw [log_pure, List.append_nil]
      exact h.silent hes
  | found hes hfind =>
    exact (react_sound (h.silent hes) (hsafe.silent hes) (findConnection_some hfind).1 p _).after
  | @opened es es' i l interfaces hes hes' _ _ hfree =>
    obtain ⟨hsecure, hsafe'⟩ :=
      openSlot_secure (h.silent hes) (hsafe.silent hes) hfree p.netif p.srcIp p.srcPort p.dstPort l
    have hactive : ((s.openSlot i p.netif p.srcIp p.srcPort p.dstPort (s.listeners l)).connections
        i).active = true := by
      unfold openSlot
      rw [setConnection_same]
    have hsound := react_sound (hsecure.silent hes') (hsafe'.silent hes') hactive p interfaces
    rw [List.append_assoc, List.append_assoc] at hsound
    exact hsound.after

end

end LlamaOS.Net
