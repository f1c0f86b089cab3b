import LlamaOS.Net.SessionInvariant

/-!
# Callbacks of the management server

What the close and the data callback leave of the sessions.
-/

namespace LlamaOS.Net
open ByteBuffer Logged Stack

variable {token : List Byte} {s s' : Stack} {log es : List Event} {i j : Fin 16}

/-- The sessions but those of connection `i` are as they were, and those are free or still its
own. -/
def Holds (i : Fin 16) (s s' : Stack) : Prop :=
  ∀ j, (s.sessions j).conn ≠ some i ∧ s'.sessions j = s.sessions j ∨
    (s.sessions j).conn = some i ∧
      ((s'.sessions j).Idle ∨ (s'.sessions j).active = true ∧ (s'.sessions j).conn = some i)

theorem Secure.holds_self (h : Secure token s log) (hsessions : s'.sessions = s.sessions) :
    Holds i s s' := by
  intro j
  rw [hsessions]
  by_cases hconn : (s.sessions j).conn = some i
  · exact .inr ⟨hconn, .inr ⟨(h.of_conn hconn).1.active, hconn⟩⟩
  · exact .inl ⟨hconn, rfl⟩

theorem Secure.vacated_freeSession (h : Secure token s log) (hholds : Holds i s s') :
    Vacated i s (s'.freeSession i) := by
  intro j
  rcases freeSession_cases s' i with ⟨j', hfind, hfree⟩ | ⟨hfind, hfree⟩
  · rw [hfree]
    obtain ⟨_, hconn'⟩ := findSession_some hfind
    have hbefore : (s.sessions j').conn = some i := by
      rcases hholds j' with ⟨hne, hsame⟩ | ⟨hconn, _⟩
      · exact absurd (hsame ▸ hconn') hne
      · exact hconn
    by_cases hj : j = j'
    · subst hj
      rw [setSession_same]
      exact .inr ⟨hbefore, rfl, rfl⟩
    rw [(@beside_setSession i s' j' _).sessions j hj]
    rcases hholds j with hother | ⟨hconn, _⟩
    · exact .inl hother
    · exact absurd (h.unique hconn hbefore) hj
  · rw [hfree]
    rcases hholds j with hother | ⟨hconn, hidle | ⟨hactive, hown⟩⟩
    · exact .inl hother
    · exact .inr ⟨hconn, hidle⟩
    · exact absurd hown (findSession_none hfind j hactive)

theorem freeSession_around (haround : Around i s s' es) : Around i s (s'.freeSession i) es := by
  have hconnections := s'.freeSession_connections i
  have hrest : (s'.freeSession i).listeners = s'.listeners ∧ (s'.freeSession i).adminToken =
      s'.adminToken := by
    rcases freeSession_cases s' i with ⟨_, _, hfree⟩ | ⟨_, hfree⟩ <;> rw [hfree] <;>
      exact ⟨rfl, rfl⟩
  refine ⟨?_, hrest.1.trans haround.listeners, hrest.2.trans haround.adminToken, haround.spares, ?_⟩
  · rw [hconnections]
    exact haround.connections
  · rw [hconnections]
    exact haround.uniform

theorem Secure.runClose (h : Secure token s log) (haround : Around i s s' es)
    (hholds : Holds i s s')
    (hstate : (s'.connections i).state = .lastAck ∨ (s'.connections i).state = .closed) :
    Secure token (s'.runClose i (s.connections i).onClose) (log ++ es) := by
  rcases h.services i with ⟨_, _, hmanagement⟩ | ⟨hforeign, _, hother⟩
  · rw [hmanagement]
    show Secure token (s'.freeSession i) (log ++ es)
    refine h.vacate_closed (freeSession_around haround) (h.vacated_freeSession hholds) ?_
    rw [freeSession_connections]
    exact hstate
  · have hsame : s'.runClose i (s.connections i).onClose = s' := by
      unfold Stack.runClose
      split
      · rename_i hmanagement
        exact absurd hmanagement hother
      · rfl
    rw [hsame]
    have hnone := h.no_session (i := i) fun hmanages => hforeign hmanages.onData
    refine h.vacate_closed haround (fun j => ?_) hstate
    rcases hholds j with hother | ⟨hconn, _⟩
    · exact .inl hother
    · exact absurd hconn (hnone j)

variable {i' : Fin 16}

theorem Event.Own.spares (hne : i' ≠ i) (e : Event) (h : e.Own i) : e.Spares i' := by
  cases e with
  | input i₁ c =>
    obtain rfl : i₁ = i := h
    exact hne.symm
  | opened => exact h.elim
  | _ => trivial

theorem runData_spares (s : Stack) (t : Telemetry) (i : Fin 16) (frame : Buffer) (pos len : Nat)
    (service : Option Service) (hne : i' ≠ i) :
    ∀ e ∈ (s.runData t i frame pos len service).log, e.Spares i' := by
  unfold runData
  split
  · exact List.forall_mem_nil _
  split
  · refine List.forall_mem_cons.mpr ⟨trivial, List.forall_mem_cons.mpr ⟨trivial, ?_⟩⟩
    exact (s.onClientData_only t i _).imp (Event.Own.spares hne)
  · exact List.forall_mem_singleton.mpr trivial

theorem ClientSession.Attends.working (h : (s.sessions j).Attends token i log) :
    Working token i j s s log :=
  ⟨(Quiet.refl i s).beside, .attending ⟨(s.connections i).seqNum, rfl⟩ h⟩

theorem onClientData_working (hsession : (s.sessions j).Attends token i log)
    (hsafe : Safe token log) (htoken : s.adminToken = token) (halone : Alone i j s) (t : Telemetry)
    (bytes : List Byte) : Proceeds token i j s log (s.onClientData t i bytes) := by
  have halloc : s.allocateSession i = (some j, s) := by
    unfold allocateSession
    cases hfind : s.findSession i with
    | none => exact absurd hsession.conn (findSession_none hfind j hsession.active)
    | some j' =>
      have hj : j' = j := by
        by_contra hne
        exact halone j' hne (findSession_some hfind).2
      rw [hj]
  unfold onClientData
  split
  · exact hsession.working.proceeds_pure hsafe
  · rw [halloc]
    exact inputBytes_working htoken halone t bytes hsession.working hsafe

variable {service : Option Service}

theorem runData_working (hsession : (s.sessions j).Attends token i log) (hsafe : Safe token log)
    (htoken : s.adminToken = token) (halone : Alone i j s) (t : Telemetry) (frame : Buffer)
    (pos len : Nat) (hservice : service = none ∨ service = some .management) :
    Proceeds token i j s log (s.runData t i frame pos len service) := by
  rcases hservice with rfl | rfl
  · exact hsession.working.proceeds_pure hsafe
  have hspares : ∀ e ∈ [Event.data i (slice frame pos len), .read pos len], e.Spares i :=
    List.forall_mem_cons.mpr ⟨trivial, List.forall_mem_singleton.mpr trivial⟩
  have hsafe' : Safe token (log ++ [.data i (slice frame pos len), .read pos len]) := by
    refine hsafe.append_unprivileged fun _ _ hmem => ?_
    simp only [List.mem_cons, List.not_mem_nil, or_false] at hmem
    rcases hmem with hmem | hmem <;> cases hmem
  have hdata :=
    onClientData_working (hsession.spared hspares) hsafe' htoken halone t (slice frame pos len)
  rw [Proceeds, List.append_assoc] at hdata
  exact hdata

theorem runData_foreign (s : Stack) (t : Telemetry) (i : Fin 16) (frame : Buffer) (pos len : Nat)
    (hservice : service ≠ some .management) :
    (s.runData t i frame pos len service).value = s ∧
      ∀ e ∈ (s.runData t i frame pos len service).log, ∀ i' command,
        e ≠ .privileged i' command := by
  unfold runData
  split
  · exact ⟨rfl, List.forall_mem_nil _⟩
  · split
    · exact absurd rfl hservice
    · exact ⟨rfl, List.forall_mem_singleton.mpr fun _ _ => nofun⟩

end LlamaOS.Net
