import LlamaOS.Net.SessionLoop

/-!
# Sessions and connections

The invariant that ties the two tables together, and what has to be shown when one connection
has been worked on: its session has ended, or one attends it.
-/

namespace LlamaOS.Net
open Logged Stack

/-- All three callbacks are those of the management server, or none is. -/
def Uniform (onData onConnect onClose : Option Service) : Prop :=
  onData = some .management ∧ onConnect = some .management ∧ onClose = some .management ∨
    onData ≠ some .management ∧ onConnect ≠ some .management ∧ onClose ≠ some .management

/-- An open connection of the management console. -/
structure TcpConnection.Manages (c : TcpConnection) : Prop where
  active : c.active = true
  state : c.state = .established
  onData : c.onData = some .management

def TcpConnection.Uniform (c : TcpConnection) : Prop := Net.Uniform c.onData c.onConnect c.onClose

/-- The sessions belong to open connections and know what has come on them. -/
structure Secure (token : List Byte) (s : Stack) (log : List Event) : Prop where
  adminToken : s.adminToken = token
  listeners : ∀ l, Uniform (s.listeners l).onData (s.listeners l).onConnect (s.listeners l).onClose
  services : ∀ i, (s.connections i).Uniform
  sessions : ∀ j, (s.sessions j).Idle ∨ ∃ i, (s.sessions j).Attends token i log ∧
    (s.connections i).Manages
  unique : ∀ {j j' i}, (s.sessions j).conn = some i → (s.sessions j').conn = some i → j = j'
  attended : ∀ i, (s.connections i).state = .established →
    (s.connections i).onData = some .management → ∃ j, (s.sessions j).conn = some i
  fresh : ∀ i, (s.connections i).state = .listen ∨ (s.connections i).state = .synReceived →
    received i log = []

/-- Only connection `i` has been worked on. -/
structure Around (i : Fin 16) (s s' : Stack) (es : List Event) : Prop where
  connections : ∀ i', i' ≠ i → s'.connections i' = s.connections i'
  listeners : s'.listeners = s.listeners
  adminToken : s'.adminToken = s.adminToken
  spares : ∀ i', i' ≠ i → ∀ e ∈ es, e.Spares i'
  uniform : (s'.connections i).Uniform

section
variable {token : List Byte} {s s' : Stack} {log es : List Event} {i j : Fin 16}

theorem Around.beside {s₁ : Stack} (h : Around i s s₁ []) (hbeside : Beside i j s₁ s')
    (hspares : ∀ i', i' ≠ i → ∀ e ∈ es, e.Spares i') (huniform : (s'.connections i).Uniform) :
    Around i s s' es :=
  ⟨fun i' hne => (hbeside.connections i' hne).trans (h.connections i' hne),
    hbeside.listeners.trans h.listeners, hbeside.adminToken.trans h.adminToken, hspares, huniform⟩

theorem ClientSession.Attends.spared {session : ClientSession} (h : session.Attends token i log)
    (hes : ∀ e ∈ es, e.Spares i) : session.Attends token i (log ++ es) := by
  refine ⟨h.active, h.conn, ?_, ?_⟩
  · rw [pending_spared hes]
    exact h.cmdBuffer
  · rw [authorised_spared hes]
    exact h.authenticated

section

variable (h : Secure token s log)
include h

theorem Secure.of_conn (hconn : (s.sessions j).conn = some i) :
    (s.sessions j).Attends token i log ∧ (s.connections i).Manages := by
  rcases h.sessions j with hidle | ⟨i', hattends, hmanages⟩
  · exact absurd (hidle.conn.symm.trans hconn) nofun
  · obtain rfl : i' = i := Option.some.inj (hattends.conn.symm.trans hconn)
    exact ⟨hattends, hmanages⟩

theorem Secure.idle_of_inactive (hactive : (s.sessions j).active = false) :
    (s.sessions j).Idle := by
  rcases h.sessions j with hidle | ⟨i', hattends, _⟩
  · exact hidle
  · exact absurd (hattends.active.symm.trans hactive) nofun

theorem Secure.no_session (hnot : ¬ (s.connections i).Manages) (j : Fin 16) :
    (s.sessions j).conn ≠ some i := fun hconn => hnot (h.of_conn hconn).2

/-- The sessions of connection `i` have ended, the others are as they were. -/
def Vacated (i : Fin 16) (s s' : Stack) : Prop :=
  ∀ j, (s.sessions j).conn ≠ some i ∧ s'.sessions j = s.sessions j ∨ (s.sessions j).conn = some i ∧
    (s'.sessions j).Idle

/-- A session is kept that is of another connection, and one that was free or of connection `i`
is free or attends it. -/
theorem Secure.reseat (haround : Around i s s' es)
    (hsessions : ∀ j, (s.sessions j).conn ≠ some i ∧ s'.sessions j = s.sessions j ∨
      ((s.sessions j).Idle ∨ (s.sessions j).conn = some i) ∧ ((s'.sessions j).Idle ∨
      (s'.sessions j).Attends token i (log ++ es) ∧ (s'.connections i).Manages))
    (hunique : ∀ {j j'}, (s'.sessions j).conn = some i → (s'.sessions j').conn = some i → j = j')
    (hattended : (s'.connections i).state = .established →
      (s'.connections i).onData = some .management → ∃ j, (s'.sessions j).conn = some i)
    (hfresh : (s'.connections i).state = .listen ∨ (s'.connections i).state = .synReceived →
      received i (log ++ es) = []) : Secure token s' (log ++ es) := by
  have hother :
      ∀ {j i'}, i' ≠ i → ((s'.sessions j).conn = some i' ↔ (s.sessions j).conn = some i') := by
    intro j i' hi
    have hnot : ∀ {session : ClientSession}, session.Idle ∨ session.conn = some i →
        session.conn ≠ some i' := by
      rintro session (hidle | hconn) hconn'
      · exact absurd (hidle.conn.symm.trans hconn') nofun
      · exact hi (Option.some.inj (hconn'.symm.trans hconn))
    rcases hsessions j with ⟨_, hsame⟩ | ⟨hbefore, hafter⟩
    · rw [hsame]
    · exact iff_of_false (hnot (hafter.imp_right fun hattends => hattends.1.conn)) (hnot hbefore)
  refine ⟨haround.adminToken.trans h.adminToken, ?_, fun i' => ?_, fun j => ?_,
    fun {j j' i'} hj hj' => ?_, fun i' hstate hdata => ?_, fun i' hstate => ?_⟩
  · rw [haround.listeners]
    exact h.listeners
  · by_cases hi : i' = i
    · rw [hi]
      exact haround.uniform
    · rw [haround.connections i' hi]
      exact h.services i'
  · rcases hsessions j with ⟨hne, hsame⟩ | ⟨_, hidle | hattends⟩
    · rw [hsame]
      rcases h.sessions j with hidle | ⟨i', hattends, hmanages⟩
      · exact .inl hidle
      have hi : i' ≠ i := fun heq => hne (heq ▸ hattends.conn)
      refine .inr ⟨i', hattends.spared (haround.spares i' hi), ?_⟩
      rw [haround.connections i' hi]
      exact hmanages
    · exact .inl hidle
    · exact .inr ⟨i, hattends⟩
  · by_cases hi : i' = i
    · subst hi
      exact hunique hj hj'
    · exact h.unique ((hother hi).mp hj) ((hother hi).mp hj')
  · by_cases hi : i' = i
    · subst hi
      exact hattended hstate hdata
    · rw [haround.connections i' hi] at hstate hdata
      obtain ⟨j, hconn⟩ := h.attended i' hstate hdata
      exact ⟨j, (hother hi).mpr hconn⟩
  · by_cases hi : i' = i
    · subst hi
      exact hfresh hstate
    · rw [haround.connections i' hi] at hstate
      rw [received_spared (haround.spares i' hi)]
      exact h.fresh i' hstate

theorem Secure.vacate (haround : Around i s s' es) (hvacated : Vacated i s s')
    (hclosed : (s'.connections i).state = .established →
      (s'.connections i).onData ≠ some .management)
    (hfresh : (s'.connections i).state = .listen ∨ (s'.connections i).state = .synReceived →
      received i (log ++ es) = []) : Secure token s' (log ++ es) := by
  have hnone : ∀ j, (s'.sessions j).conn ≠ some i := by
    intro j
    rcases hvacated j with ⟨hne, hsame⟩ | ⟨_, hidle⟩
    · rw [hsame]
      exact hne
    · rw [hidle.conn]
      exact nofun
  refine h.reseat haround (fun j => ?_) (fun hj => absurd hj (hnone _))
    (fun hstate hdata => absurd hdata (hclosed hstate)) hfresh
  exact (hvacated j).imp_right fun ⟨hconn, hidle⟩ => ⟨.inr hconn, .inl hidle⟩

theorem Secure.vacate_closed (haround : Around i s s' es) (hvacated : Vacated i s s')
    (hstate : (s'.connections i).state = .lastAck ∨ (s'.connections i).state = .closed) :
    Secure token s' (log ++ es) := by
  refine h.vacate haround hvacated (fun hest => ?_) fun hnew => ?_
  · rw [hest] at hstate
    rcases hstate with hstate | hstate <;> cases hstate
  · rcases hstate with hstate | hstate <;> rw [hstate] at hnew <;> rcases hnew with hnew | hnew <;>
      cases hnew

theorem Secure.attend (haround : Around i s s' es)
    (hsession : (s'.sessions j).Attends token i (log ++ es)) (hmanages : (s'.connections i).Manages)
    (hothers : ∀ j', j' ≠ j → s'.sessions j' = s.sessions j' ∧ (s.sessions j').conn ≠ some i)
    (hbefore : (s.sessions j).Idle ∨ (s.sessions j).conn = some i) :
    Secure token s' (log ++ es) := by
  have hone : ∀ {j'}, (s'.sessions j').conn = some i → j' = j := by
    intro j' hconn
    by_contra hj
    obtain ⟨hsame, hne⟩ := hothers j' hj
    exact hne (hsame ▸ hconn)
  refine h.reseat haround (fun j' => ?_) (fun h₁ h₂ => (hone h₁).trans (hone h₂).symm)
    (fun _ _ => ⟨j, hsession.conn⟩) fun hnew => ?_
  · by_cases hj : j' = j
    · rw [hj]
      exact .inr ⟨hbefore, .inr ⟨hsession, hmanages⟩⟩
    · exact .inl (hothers j' hj).symm
  · rw [hmanages.state] at hnew
    rcases hnew with hnew | hnew <;> cases hnew

end

end

end LlamaOS.Net
