import LlamaOS.Net.SegmentGuards
import LlamaOS.Net.SessionReactions

/-!
# Who may use the management console

In every run the sessions of the management server follow their connections: a slot is only
initialised again after its session has been freed, so a right never passes from one incarnation
of a connection to the next.
-/

namespace LlamaOS.Net
open Logged Stack
open Threading (literal)

variable {token : List Byte} {s : Stack} {log : List Event} {i : Fin 16}

/-- Packets arrive one after the other, until a command halts the machine. -/
inductive Serving (s₀ : Stack) : Stack → List Event → Prop where
  | start : Serving s₀ s₀ []
  | step {s : Stack} {log : List Event} (p : TcpPacket) (h : Serving s₀ s log)
      (hrunning : s.halted = false) : Serving s₀ (s.take p).value (log ++ (s.take p).log)

theorem Serving.sound {s₀ s : Stack} {log : List Event} (h₀ : Secure token s₀ [])
    (hrun : Serving s₀ s log) : Safe token log ∧ (s.halted = true ∨ Secure token s log) := by
  induction hrun with
  | start =>
    refine ⟨fun before i command behind hlog => ?_, .inr h₀⟩
    cases before <;> cases hlog
  | @step s log p _ hrunning ih =>
    obtain ⟨hsafe, hsecure⟩ := ih
    refine take_sound (hsecure.resolve_left fun hhalted => ?_) hsafe p
    rw [hrunning] at hhalted
    cases hhalted

/-- A listener of another module. -/
structure Listener.Foreign (l : Listener) : Prop where
  onData : l.onData ≠ some .management
  onConnect : l.onConnect ≠ some .management
  onClose : l.onClose ≠ some .management

theorem initManagement_secure (hconnections : ∀ i, s.connections i = .reset)
    (hlisteners : ∀ l, (s.listeners l).Foreign) (port : BitVec 16)
    (tokenFile : Option (List Byte)) :
    Secure (s.initManagement port tokenFile).adminToken (s.initManagement port tokenFile) [] := by
  have hshape : ∃ s₁ : Stack,
      s.initManagement port tokenFile =
        (s₁.listen port (some .management) (some .management) (some .management)).2 ∧
        s₁.connections = s.connections ∧ s₁.listeners = s.listeners ∧ ∀ j,
          (s₁.sessions j).Idle := by
    unfold initManagement
    cases tokenFile with
    | none => exact ⟨_, rfl, rfl, rfl, fun _ => ⟨rfl, rfl⟩⟩
    | some bytes =>
      dsimp only
      split
      · exact ⟨_, rfl, rfl, rfl, fun _ => ⟨rfl, rfl⟩⟩
      · exact ⟨_, rfl, rfl, rfl, fun _ => ⟨rfl, rfl⟩⟩
  obtain ⟨s₁, hinit, hconn, hlist, hidle⟩ := hshape
  rw [hinit]
  have huniform :
      ∀ l, Uniform (s₁.listeners l).onData (s₁.listeners l).onConnect (s₁.listeners l).onClose := by
    intro l
    rw [hlist]
    exact .inr ⟨(hlisteners l).onData, (hlisteners l).onConnect, (hlisteners l).onClose⟩
  have hreset : ∀ i, s₁.connections i = .reset := fun i => by rw [hconn, hconnections]
  have hkept : (s₁.listen port (some .management) (some .management)
      (some .management)).2.connections = s₁.connections ∧
      (s₁.listen port (some .management) (some .management) (some .management)).2.sessions =
        s₁.sessions := by
    unfold Stack.listen
    split <;> exact ⟨rfl, rfl⟩
  refine ⟨rfl, fun l => ?_, fun i => ?_, fun j => ?_, fun {j j' i} hj _ => ?_, fun i hstate => ?_,
    fun i hstate => ?_⟩
  · unfold Stack.listen
    split
    · rename_i l' _
      by_cases hl : l = l'
      · subst hl
        dsimp only
        rw [Function.update_self]
        exact .inl ⟨rfl, rfl, rfl⟩
      · dsimp only
        rw [Function.update_of_ne hl]
        exact huniform l
    · exact huniform l
  · rw [hkept.1, hreset]
    exact .inr ⟨nofun, nofun, nofun⟩
  · rw [hkept.2]
    exact .inl (hidle j)
  · rw [hkept.2] at hj
    exact absurd ((hidle j).conn.symm.trans hj) nofun
  · rw [hkept.1, hreset] at hstate
    cases hstate
  · rw [hkept.1, hreset] at hstate
    rcases hstate with hstate | hstate <;> cases hstate

/-- Whenever a privileged command is executed for a connection, a complete line with the token
has come on the same incarnation of that connection. -/
theorem privileged_after_auth (hconnections : ∀ i, s.connections i = .reset)
    (hlisteners : ∀ l, (s.listeners l).Foreign) {port : BitVec 16} {tokenFile : Option (List Byte)}
    {s' : Stack} (hrun : Serving (s.initManagement port tokenFile) s' log)
    {before behind : List Event} {command : Command}
    (hlog : log = before ++ .privileged i command :: behind) :
    ∃ line ∈ Lines.complete 0x0A (received i before),
      AuthLine (s.initManagement port tokenFile).adminToken line :=
  (hrun.sound (initManagement_secure hconnections hlisteners port tokenFile)).1 before i
    command behind hlog

def consolePacket (flags : Byte) (payload : List Byte) : TcpPacket where
  telemetry := idleTelemetry
  netif := primary
  srcIp := .ofOctets 10 0 0 2
  frame := fun i => (blindSegment flags payload).bytes.getD i 0
  pos := 0
  len := 20 + payload.length

/-- The server on port 2222 with its built-in token. -/
def freshServer : Stack := initial.initManagement 2222 none

def indentedLogin : List Byte := literal "  auth llamaos-admin-secure\nstorage\n"

/-- The client connects and sends its lines in one segment. -/
def loginLog : List Event :=
  let opened := freshServer.take (consolePacket 0x02 [])
  let connected := opened.value.take (consolePacket 0x10 [])
  [] ++ opened.log ++ connected.log ++ (connected.value.take (consolePacket 0x18 indentedLogin)).log

def loginBefore : List Event := loginLog.takeWhile fun e => decide (e ≠ .privileged 0 .storage)

-- one evaluation of the run for all that is needed of it
theorem loginLog_facts :
    ((freshServer.take (consolePacket 0x02 [])).value.take (consolePacket 0x10 [])).value.halted =
      false ∧ loginLog = loginBefore ++ .privileged 0 .storage ::
        (loginLog.dropWhile fun e => decide (e ≠ .privileged 0 .storage)).tail ∧
      ∀ line ∈ Lines.complete 0x0A (received 0 loginBefore), ¬ literal "auth" <+: line := by
  decide +kernel

theorem loginLog_served : ∃ s, Serving freshServer s loginLog :=
  ⟨_, .step _ (.step _ (.step _ .start rfl) (by decide +kernel)) loginLog_facts.1⟩

theorem loginLog_authorised :
    ∃ behind, loginLog = loginBefore ++ .privileged 0 .storage :: behind ∧
      ∃ line ∈ Lines.complete 0x0A (received 0 loginBefore),
        AuthLine freshServer.adminToken line := by
  obtain ⟨s, hrun⟩ := loginLog_served
  have hforeign : ∀ l, (initial.listeners l).Foreign := by
    intro l
    constructor <;> intro h <;> cases h
  exact ⟨_, loginLog_facts.2.1,
    privileged_after_auth (fun _ => rfl) hforeign hrun loginLog_facts.2.1⟩

/-- The server skips spaces before `auth`: a command is executed after a line that does not start
with `auth` at all. -/
theorem indented_login_accepted :
    ∃ s before behind, Serving freshServer s (before ++ .privileged 0 .storage :: behind) ∧
      ∀ line ∈ Lines.complete 0x0A (received 0 before), ¬ literal "auth" <+: line := by
  obtain ⟨s, hrun⟩ := loginLog_served
  refine ⟨s, loginBefore, (loginLog.dropWhile fun e => decide (e ≠ .privileged 0 .storage)).tail,
    ?_, loginLog_facts.2.2⟩
  rw [← loginLog_facts.2.1]
  exact hrun

end LlamaOS.Net
