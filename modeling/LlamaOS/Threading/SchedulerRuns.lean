import LlamaOS.Threading.SchedulerCalls
import LlamaOS.Memory.DirectMap

/-!
# Runs of the scheduler

Calls in any order from the start on. `verify_invariants` succeeds after each of them. The memory
may be changed by others in between, so each call gets a machine of its own.
-/

namespace LlamaOS.Threading
open Memory

namespace Scheduler

inductive Op where
  | createThread (hasEntry : Bool) (name : Option (List (BitVec 8)))
  | yield
  | tick
  | exit
  | block (thread : Option Nat)
  | unblock (thread : Nat)
deriving DecidableEq

def perform (s : Scheduler) (m : Machine) : Op → Option (Scheduler × Machine)
  | .createThread hasEntry name =>
    if hasEntry then (s.createThread name m).map Prod.snd else some (s, m)
  | .yield => s.yield m
  | .tick => s.onTimerTick m
  | .exit => s.exit m
  | .block thread => s.block thread m
  | .unblock thread => some (s.unblock thread, m)

/-- The running thread exits if it is not the idle thread, and so for the thread to block, which has
not terminated; a thread to unblock is in use. -/
def Allowed (s : Scheduler) : Op → Prop
  | .exit => ∀ c, s.current = some c → (s.tcbPool c).isIdle = false
  | .block thread => ∀ t, (thread <|> s.current) = some t →
    s.Live t ∧ (s.tcbPool t).isIdle = false ∧ (s.tcbPool t).state ≠ .terminated
  | .unblock thread => s.Live thread
  | _ => True

/-- The call comes to `schedule` or is `exit`. -/
def Dispatches (s : Scheduler) : Op → Prop
  | .yield => True
  | .exit => True
  | .tick => ∃ c, s.current = some c ∧ s.Expires c
  | .block thread => (thread <|> s.current) = s.current
  | _ => False

/-- The ticks of the current thread when the call starts to choose. -/
def ticksAt (s : Scheduler) (op : Op) (c : Nat) : Nat :=
  if op = .tick then ((s.tcbPool c).ticksConsumed + 1) % 2 ^ 64 else (s.tcbPool c).ticksConsumed

/-- What a call does to the ready queue and to the current thread. -/
inductive Effect (s s' : Scheduler) (op : Op) (c : Nat) (l l' : List Nat) : Prop
  | other (hno : ¬ s.Dispatches op) (hcur : s'.current = some c)
      (hlist : (∃ back, l' = l ++ back) ∨ ∃ i, op = .block (some i) ∧ l' = l.erase i)
      (hticks : (s'.tcbPool c).ticksConsumed = s.ticksAt op c)
  | dispatch {s₁ : Scheduler} (hyes : s.Dispatches op)
      (hticks : (s₁.tcbPool c).ticksConsumed = s.ticksAt op c) (hout : Outcome s₁ s' c l l')

/-- A thread that has ended comes back only as a new thread in its control block. -/
def StaysEnded (s s' : Scheduler) (op : Op) : Prop :=
  ∀ i, (s.tcbPool i).state = .terminated →
    (s'.tcbPool i).state = .terminated ∨ ∃ hasEntry name, op = .createThread hasEntry name ∧
      s.freeTcb = some i

variable {s s' : Scheduler} {l l' : List Nat} {i c : Nat} {m m' : Machine} {op : Op}

theorem Ends.stays (h : Ends s s') : StaysEnded s s' op := fun i hi => Or.inl (h i hi)

theorem Live.not_free (h : s.Live i) : s.freeTcb ≠ some i := by
  intro hfind
  have hfree : (s.tcbPool i).active = false := by simpa using List.find?_some hfind
  rw [h.active] at hfree
  cases hfree

theorem Sound.step (h : Sound s l) (hcur : s.current = some c) (hop : s.Allowed op)
    (hrun : s.perform m op = some (s', m')) :
    ∃ l', Sound s' l' ∧ Effect s s' op c l l' ∧ StaysEnded s s' op := by
  obtain ⟨hlive, hstate⟩ := h.live hcur
  cases op with
  | createThread hasEntry name =>
    rw [perform] at hrun
    split at hrun
    · obtain ⟨⟨r, s₁, m₁⟩, hcreate, heq⟩ := Option.map_eq_some_iff.mp hrun
      cases heq
      obtain ⟨l', hsound, hback, hsame, hkeep⟩ := h.createThread hcreate
      refine ⟨l', hsound, .other id (hsame.trans hcur) (Or.inl hback) ?_, fun i hi => ?_⟩
      · rw [hkeep c hlive.not_free]
        rfl
      · by_cases hfree : s.freeTcb = some i
        · exact Or.inr ⟨hasEntry, name, rfl, hfree⟩
        · exact Or.inl (by rw [hkeep i hfree]; exact hi)
    · cases hrun
      exact ⟨l, h, .other id hcur (Or.inl ⟨[], (List.append_nil l).symm⟩) rfl, fun _ => Or.inl⟩
  | yield =>
    obtain ⟨l', hsound, hout, hends⟩ := h.schedule h.outside hcur hlive (Or.inl hstate) hrun
    exact ⟨l', hsound, .dispatch trivial rfl hout, hends.stays⟩
  | tick =>
    obtain ⟨l', hsound, hout, hends⟩ := h.onTimerTick hcur hrun
    refine ⟨l', hsound, ?_, hends.stays⟩
    have hticks : ((s.setTcb c (Scheduler.ticked (s.tcbPool c))).tcbPool c).ticksConsumed =
        s.ticksAt .tick c := by
      rw [setTcb_self]
      rfl
    split at hout
    · rename_i hexpires
      exact .dispatch ⟨c, hcur, hexpires⟩ hticks hout
    rename_i hexpires
    obtain ⟨rfl, rfl⟩ := hout
    refine .other ?_ hcur (Or.inl ⟨[], (List.append_nil _).symm⟩) hticks
    rintro ⟨c', hcur', hexpires'⟩
    exact hexpires (Option.some.inj (hcur'.symm.trans hcur) ▸ hexpires')
  | exit =>
    obtain ⟨l', hsound, hout, hends⟩ := h.exit hcur (h.ne_one (hop c hcur)) hrun
    refine ⟨l', hsound, .dispatch trivial ?_ hout, hends.stays⟩
    rw [setState, setTcb_self]
    rfl
  | block thread =>
    rw [perform, Scheduler.block] at hrun
    split at hrun
    · rename_i hnone
      rw [hcur] at hnone
      cases thread <;> cases hnone
    rename_i t htarget
    obtain ⟨_, hidle, hnot⟩ := hop t htarget
    split at hrun
    · rename_i hself
      obtain rfl : c = t := Option.some.inj (hcur.symm.trans hself)
      have hleave := h.leave hcur (h.ne_one hidle) .blocked (by decide) (by decide)
      obtain ⟨l', hsound, hout, hends⟩ := hleave.schedule h.outside hcur
        (hlive.of_alike (.setState s c .blocked)) (Or.inr (setState_state s c .blocked)) hrun
      refine ⟨l', hsound, .dispatch (htarget.trans hself.symm) ?_ hout,
        ((Ends.setState hnot _).trans hends).stays⟩
      rw [setState, setTcb_self]
      rfl
    · rename_i hother
      cases hrun
      have hct : c ≠ t := fun heq => hother (heq ▸ hcur)
      have hthread : thread = some t := by
        cases thread with
        | none => exact absurd htarget hother
        | some t' => exact htarget
      refine ⟨_, h.blockOther hother (h.ne_one hidle),
        .other (fun hself => hother (hself.symm.trans htarget)) hcur
        (Or.inr ⟨t, congrArg Op.block hthread, rfl⟩) ?_, (Ends.setState hnot .blocked).stays⟩
      rw [setState_ne hct]
      rfl
  | unblock thread =>
    cases hrun
    obtain ⟨l', hsound, hback, hsame, hkeep, hends⟩ := h.unblock hop
    refine ⟨l', hsound, .other id (hsame.trans hcur) (Or.inl hback) ?_, hends.stays⟩
    rw [hkeep c hcur]
    rfl

inductive Reachable : Scheduler → Prop
  | start {bottom top : Nat} {s : Scheduler} {m m' : Machine}
      (h : init bottom top m = some (true, s, m')) : Reachable s.start
  | step {s s' : Scheduler} {m m' : Machine} {op : Op} (h : Reachable s) (hop : s.Allowed op)
      (hrun : s.perform m op = some (s', m')) : Reachable s'

theorem Reachable.created (h : Reachable s) {name : Option (List (BitVec 8))} {r : Option Nat}
    (hrun : s.createThread name m = some (r, s', m')) : Reachable s' :=
  .step h (show s.Allowed (.createThread true name) from trivial)
    (congrArg (Option.map Prod.snd) hrun)

theorem init_sound {bottom top : Nat} (h : init bottom top m = some (true, s, m')) :
    Sound s.start [] ∧ s.current = some 0 ∧ (s.tcbPool 0).ticksConsumed = 0 := by
  obtain ⟨⟨res, m₁⟩, halloc, h⟩ := Option.bind_eq_some_iff.mp h
  cases res with
  | none => cases h
  | some result =>
    obtain ⟨stack, allocator⟩ := result
    obtain ⟨_, hpos, hslots⟩ := StackAllocator.allocateStack_slot halloc
    cases h
    have hqueue : ReadyQueue.Lists {} [] := ⟨trivial, rfl, by decide, by decide, rfl⟩
    have hnone : ¬ (0 : Int) ≤ -1 := by decide
    refine ⟨⟨⟨hqueue, List.nodup_nil, fun i => ?_, fun i _ => ?_, rfl, rfl, rfl, fun i _ => ?_,
      ⟨rfl, rfl, Int.not_le.mp hnone⟩, ⟨rfl, Or.inl rfl⟩, fun i _ => ?_, fun i _ j _ =>
        ?_, fun i _ => ?_⟩, rfl, 0, rfl,
      ⟨by decide, rfl⟩, rfl⟩, rfl, rfl⟩
    · rcases i with _ | _ | i <;> simp [start, setTcb]
    · rcases i with _ | _ | i <;> simp [start, setTcb]
    · rcases i with _ | _ | i <;> simp [start, setTcb]
    · rcases i with _ | _ | i
      · exact fun _ hslot => absurd hslot hnone
      · exact fun _ _ => hslots _ (Or.inr rfl)
      · exact fun hact => absurd hact (by simp [start, setTcb])
    · rcases i with _ | _ | i
      · exact fun _ _ hslot => absurd hslot hnone
      · rcases j with _ | _ | j
        · intro _ _ _ heq
          have heq' : stack.slotIndex = -1 := heq
          omega
        · exact fun _ _ _ _ => rfl
        · exact fun _ hact => absurd hact (by simp [start, setTcb])
      · exact fun hact => absurd hact (by simp [start, setTcb])
    · rcases i with _ | _ | i <;> simp [start, setTcb]

theorem Reachable.sound (h : Reachable s) : ∃ l, Sound s l := by
  induction h with
  | start h => exact ⟨[], (init_sound h).1⟩
  | step _ hop hrun ih =>
    obtain ⟨l, hl⟩ := ih
    obtain ⟨c, hcur, _⟩ := hl.current
    obtain ⟨l', hsound, _⟩ := hl.step hcur hop hrun
    exact ⟨l', hsound⟩

theorem Sound.verifyThread (h : Sound s l) (hi : i < maxThreads) : s.verifyThread i = true := by
  unfold Scheduler.verifyThread
  dsimp only
  cases hact : (s.tcbPool i).active with
  | false => rw [Bool.not_false, Bool.true_or]
  | true =>
    have hcontains : s.readyQueue.contains i = decide ((s.tcbPool i).state = .ready) := by
      rw [Bool.eq_iff_iff, decide_eq_true_eq, h.queue.contains_iff, h.mem i]
      simp [hi, hact]
    rw [hcontains, Bool.not_true, Bool.false_or, Bool.and_eq_true, Bool.and_eq_true,
      Bool.and_eq_true]
    refine ⟨⟨⟨?_, ?_⟩, ?_⟩, ?_⟩
    · cases (s.tcbPool i).state <;> rfl
    · cases (s.tcbPool i).state <;> cases (s.tcbPool i).isIdle <;> rfl
    · rw [Bool.not_eq_true', Bool.and_eq_false_imp]
      intro hterm
      refine beq_false_of_ne fun hcur => ?_
      rw [(h.live hcur).2] at hterm
      cases hterm
    · by_cases hslot : (s.tcbPool i).stack.slotIndex < 0
      · simp [hslot]
      have hused := h.slots i hi hact (by omega)
      have hbound : (s.tcbPool i).stack.slotIndex < maxStackSlots := by
        by_contra hbig
        rw [StackAllocator.isSlotInUse, if_pos (Or.inr (by omega))] at hused
        cases hused
      rw [Bool.or_eq_true, Bool.and_eq_true, Bool.and_eq_true, List.all_eq_true]
      refine Or.inr ⟨⟨decide_eq_true hbound, hused⟩, fun j hj => ?_⟩
      rw [List.mem_range'_1] at hj
      rw [Bool.not_eq_true', Bool.and_eq_false_imp]
      intro hother
      rw [Bool.and_eq_true, decide_eq_true_eq] at hother
      refine beq_false_of_ne fun heq => ?_
      have hji := h.apart j (by omega) i hi hother.1 hact hother.2 heq
      omega

theorem Sound.running_count (h : Sound s l) :
    ((List.range maxThreads).countP fun i => (s.tcbPool i).active && (s.tcbPool i).state ==
      .running) = 1 := by
  obtain ⟨c, hcur, hc, hrun⟩ := h.current
  have hone : (List.range maxThreads).count c = 1 :=
    List.count_eq_one_of_mem List.nodup_range (List.mem_range.mpr hc.bound)
  rw [← hone, List.count]
  refine List.countP_congr fun i hi => ?_
  rw [Bool.and_eq_true, beq_iff_eq, beq_iff_eq]
  constructor
  · rintro ⟨hact, hstate⟩
    exact Option.some.inj ((h.runs i (List.mem_range.mp hi) hact hstate).symm.trans hcur)
  · rintro rfl
    exact ⟨hc.active, hrun⟩

theorem Sound.verifyInvariants (h : Sound s l) : s.verifyInvariants = true := by
  obtain ⟨c, hcur, hc, hrun⟩ := h.current
  have hcl := h.current_notMem hcur
  have hnot : ∀ {i}, i ∉ l → s.readyQueue.contains i = false := fun hi =>
    Bool.eq_false_iff.mpr fun hin => hi (h.queue.contains_iff.mp hin)
  have hqueue : s.readyQueue.verifyInvariants (fun i => (s.tcbPool i).state)
      (fun i => (s.tcbPool i).isIdle) = true :=
    h.queue.verifyInvariants h.nodup fun t ht =>
        ⟨((h.mem t).mp ht).2.2, Bool.eq_false_iff.mpr fun hidle =>
      h.not_mem_one ((h.idleOnly t ((h.mem t).mp ht).1).mp hidle ▸ ht)⟩
  have hidle : (s.tcbPool 1).isIdle = true := (h.idleOnly 1 (by decide)).mpr rfl
  have hthreads : (List.range maxThreads).all s.verifyThread = true :=
    List.all_eq_true.mpr fun i hi => h.verifyThread (List.mem_range.mp hi)
  have halive : ((s.tcbPool 1).state != .terminated) = true := by
    rcases h.one.2 with hstate | hstate <;> rw [hstate] <;> rfl
  have hslot : (decide ((s.tcbPool c).stack.slotIndex < 0) ||
      s.stackAllocator.isSlotInUse (s.tcbPool c).stack.slotIndex) = true := by
    by_cases hneg : (s.tcbPool c).stack.slotIndex < 0
    · simp [hneg]
    · rw [h.slots c hc.bound hc.active (by omega), Bool.or_true]
  unfold Scheduler.verifyInvariants
  rw [hcur, h.idle, h.bootstrap]
  dsimp only
  rw [hc.active, hrun, h.running_count, hnot hcl, h.one.1, h.zero.1, hidle, h.zero.2.1, halive,
    hnot h.not_mem_one, hqueue, hthreads, hslot]
  rfl

/-- In every run from a successful `init` the self-check succeeds, and the thread that `schedule`
takes the processor from finds room in the queue. -/
theorem reachable_verified (h : Reachable s) : s.verifyInvariants = true ∧
    ∀ c s₁ m m₁, s.current = some c → (s.tcbPool c).isIdle = false →
      { s with inScheduler := true }.reclaimDeferredStacks m = some (s₁, m₁) →
      ∃ q, s₁.readyQueue.dequeue.2.enqueue c .ready = some q := by
  obtain ⟨l, hl⟩ := h.sound
  refine ⟨hl.verifyInvariants, fun c s₁ m m₁ hcur _ hreclaim => ?_⟩
  obtain ⟨h₁, hkept⟩ := (hl.inside true).reclaimDeferredStacks hreclaim
  obtain ⟨hlive, hrun⟩ := hl.live hcur
  have hcl := hl.current_notMem hcur
  have hroom := hl.room hlive.bound hcl
  cases l with
  | nil =>
    rw [h₁.queue.dequeue_nil]
    obtain ⟨q, hq, _⟩ := h₁.queue.enqueue hroom hcl
    exact ⟨q, hq⟩
  | cons t rest =>
    obtain ⟨q, hdeq, hq⟩ := h₁.queue.dequeue_cons
    rw [List.length_cons] at hroom
    obtain ⟨q', hq', _⟩ := hq.enqueue (by omega) fun hin => hcl (List.mem_cons_of_mem t hin)
    rw [hdeq]
    exact ⟨q', hq'⟩

/-- The thread with control block 2 has run and ended, and the bootstrap thread goes on; the next
call of the scheduler takes back the stack of the ended thread. -/
theorem sampleKernel_ended :
    ∃ s, Reachable s ∧ (s.tcbPool 2).state = .terminated ∧ s.current = some 0 ∧
    (s.tcbPool 0).isIdle = false ∧
    ∃ m s₁ m₁, { s with inScheduler := true }.reclaimDeferredStacks m = some (s₁, m₁) := by
  have hrun : ((init 0xFFFFFFFF80190000 0xFFFFFFFF801A0000 sampleKernel).bind fun r =>
      (r.2.1.start.createThread none r.2.2).bind fun r₁ => (r₁.2.1.schedule r₁.2.2).bind fun r₂ =>
        (r₂.1.exit r₂.2).map fun r₃ => r.1 && r₂.1.current == some 2 && !(r₂.1.tcbPool 2).isIdle &&
          (r₃.1.tcbPool 2).state == .terminated && r₃.1.current == some 0 &&
            !(r₃.1.tcbPool 0).isIdle &&
          ({ r₃.1 with inScheduler := true }.reclaimDeferredStacks r₃.2).isSome) = some true := by
    decide +kernel
  obtain ⟨⟨ok, s, m⟩, hinit, hrun⟩ := Option.bind_eq_some_iff.mp hrun
  obtain ⟨⟨r, s₁, m₁⟩, hcreate, hrun⟩ := Option.bind_eq_some_iff.mp hrun
  obtain ⟨⟨s₂, m₂⟩, hyield, hrun⟩ := Option.bind_eq_some_iff.mp hrun
  obtain ⟨⟨s₃, m₃⟩, hexit, hrun⟩ := Option.map_eq_some_iff.mp hrun
  simp only [Bool.and_eq_true, Bool.not_eq_true', beq_iff_eq] at hrun
  obtain ⟨⟨⟨⟨⟨⟨rfl, hcur⟩, hidle⟩, hend⟩, hback⟩, hboot⟩, hreclaim⟩ := hrun
  obtain ⟨⟨s₄, m₄⟩, hreclaim⟩ := Option.isSome_iff_exists.mp hreclaim
  have hyields : s₁.Allowed .yield := trivial
  have hcreated := (Reachable.start hinit).created hcreate
  have hrunning : Reachable s₂ := .step hcreated hyields hyield
  have hallowed : s₂.Allowed .exit := fun c hc => Option.some.inj (hcur.symm.trans hc) ▸ hidle
  exact ⟨s₃, .step hrunning hallowed hexit, hend, hback, hboot, m₃, s₄, m₄, hreclaim⟩

theorem sampleKernel_verified : ∃ s s₁ m m₁, Reachable s ∧ (s.tcbPool 2).state = .terminated ∧
    s.verifyInvariants = true ∧ { s with inScheduler := true }.reclaimDeferredStacks m =
      some (s₁, m₁) ∧
    ∃ q, s₁.readyQueue.dequeue.2.enqueue 0 .ready = some q := by
  obtain ⟨s, hreach, hend, hcur, hidle, m, s₁, m₁, hreclaim⟩ := sampleKernel_ended
  have hverified := reachable_verified hreach
  exact ⟨s, s₁, m, m₁, hreach, hend, hverified.1, hreclaim,
    hverified.2 0 s₁ m m₁ hcur hidle hreclaim⟩

/-- In every run only threads in use other than the idle thread wait in the queue, and a thread
that has ended does not come back before its control block is initialised again. -/
theorem ended_threads_stay (h : Reachable s) :
    (∀ i, s.readyQueue.contains i = true → (s.tcbPool i).active = true ∧
      (s.tcbPool i).isIdle = false) ∧
      ∀ op m s' m', s.Allowed op → s.perform m op = some (s', m') → StaysEnded s s' op := by
  obtain ⟨l, hl⟩ := h.sound
  refine ⟨fun i hi => ?_, fun op m s' m' hop hrun => ?_⟩
  · have hmem := hl.queue.contains_iff.mp hi
    obtain ⟨hbound, hactive, _⟩ := (hl.mem i).mp hmem
    refine ⟨hactive, Bool.eq_false_iff.mpr fun hidle => ?_⟩
    exact hl.not_mem_one ((hl.idleOnly i hbound).mp hidle ▸ hmem)
  · obtain ⟨c, hcur, _⟩ := hl.current
    obtain ⟨l', _, _, hends⟩ := hl.step hcur hop hrun
    exact hends

theorem sampleKernel_stays : ∃ s, Reachable s ∧ (s.tcbPool 2).state = .terminated ∧
    ∀ m s' m', s.perform m .yield = some (s', m') → StaysEnded s s' .yield := by
  obtain ⟨s, hreach, hend, _⟩ := sampleKernel_ended
  exact ⟨s, hreach, hend, fun m s' m' => (ended_threads_stay hreach).2 .yield m s' m' trivial⟩

/-- Blocking the ended thread and unblocking it makes it ready again. -/
theorem sampleKernel_revived : ∃ s, Reachable s ∧ (s.tcbPool 2).state = .terminated ∧
    ∀ m, ∃ s₁, s.perform m (.block (some 2)) = some (s₁, m) ∧
      ∃ s₂, s₁.perform m (.unblock 2) = some (s₂, m) ∧ (s₂.tcbPool 2).state = .ready := by
  obtain ⟨s, hreach, hend, hcur, _⟩ := sampleKernel_ended
  have hother : s.current ≠ some 2 := by
    rw [hcur]
    decide
  refine ⟨s, hreach, hend, fun m => ⟨_, if_neg hother, _, rfl, ?_⟩⟩
  unfold Scheduler.unblock
  rw [if_pos (setState_state _ 2 .blocked)]
  exact setState_state _ 2 .ready

end Scheduler

end LlamaOS.Threading
