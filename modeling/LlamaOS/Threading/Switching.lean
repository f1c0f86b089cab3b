import LlamaOS.Threading.SchedulerInvariant

/-!
# Switching threads

`schedule` takes the head of the ready queue, or the idle thread when the current thread cannot go
on, and puts the current thread back at the end.
-/

namespace LlamaOS.Threading
open Memory

namespace Scheduler

variable {s s' s₁ : Scheduler} {l l' rest : List Nat} {i c t next : Nat} {m m' : Machine}
  {q : ReadyQueue}

theorem switchTo_alike (s : Scheduler) (next : Nat) (m : Machine) :
    Alike s (s.switchTo next m).1 := by
  have hset :
      Alike s (s.setTcb next { s.tcbPool next with state := .running, ticksConsumed := 0 }) :=
    .setTcb s ⟨rfl, rfl, rfl, rfl, rfl⟩
  exact ⟨hset.threads, rfl, rfl, rfl, rfl⟩

theorem Alike.withQueue (s : Scheduler) (q : ReadyQueue) : Alike s { s with readyQueue := q } :=
  ⟨fun _ => .refl _, rfl, rfl, rfl, rfl⟩

/-- No other thread runs, so the selected one may. -/
theorem Base.switch (h : Base s l) (ha : Alike s s₁) (hqueue : s₁.readyQueue.Lists l')
    (hnodup : l'.Nodup)
    (hmem : ∀ i, i ∈ l' ↔ i ≠ next ∧ i < maxThreads ∧ (s₁.tcbPool i).active = true ∧
      (s₁.tcbPool i).state = .ready)
    (hstill : ∀ i < maxThreads, (s₁.tcbPool i).active = true → (s₁.tcbPool i).state ≠ .running)
    (hone : next ≠ 1 → (s₁.tcbPool 1).state = .idle) (hnext : s.Live next) (m : Machine) :
    Sound (s₁.switchTo next m).1 l' := by
  have hself : (s₁.switchTo next m).1.tcbPool next =
      { s₁.tcbPool next with state := .running, ticksConsumed := 0 } :=
    setTcb_self _ next _
  have hother : ∀ {j}, j ≠ next → (s₁.switchTo next m).1.tcbPool j = s₁.tcbPool j :=
    fun hj => setTcb_ne hj _ _
  have hswitched := ha.trans (switchTo_alike s₁ next m)
  refine ⟨h.of_alike hswitched hqueue hnodup (fun j => ?_) (fun j hj hact hrun => ?_) ?_, rfl,
    next, rfl, hnext.of_alike hswitched, by rw [hself]⟩
  · rw [hmem j]
    by_cases hj : j = next
    · rw [hj, hself]
      simp
    · rw [hother hj]
      simp [hj]
  · by_cases hjn : j = next
    · rw [hjn]
      rfl
    · rw [hother hjn] at hact hrun
      exact absurd hrun (hstill j hj hact)
  · by_cases hn : 1 = next
    · right
      rw [hn, hself]
    · left
      rw [hother hn]
      exact hone (Ne.symm hn)

theorem Base.dispatch (h : Base s l) (hcur : s.current = some c) (hc : s.Live c)
    (hstate : (s.tcbPool c).state ≠ .ready) (hq : q.Lists rest) (hrest : rest.Nodup)
    (hmem : ∀ i, i ∈ rest ↔ i ∈ l ∧ i ≠ next) (hnext : s.Live next) (hne : c ≠ next) (m : Machine) :
    Sound (({ s with readyQueue := q }.putBack c).switchTo next m).1
      (rest ++ if (s.tcbPool c).state = .running ∧ c ≠ 1 then [c] else []) := by
  have hcl := h.notMem_of_state hstate
  have hidle : (s.tcbPool c).isIdle = true ↔ c = 1 := h.idleOnly c hc.bound
  have honly : ∀ {i}, i < maxThreads → (s.tcbPool i).active = true →
      (s.tcbPool i).state = .running → i = c :=
    fun hi hact hrun => (Option.some.inj (hcur.symm.trans (h.runs _ hi hact hrun))).symm
  have hready : ∀ i, i ∈ rest ↔ i ≠ next ∧ i < maxThreads ∧ (s.tcbPool i).active = true ∧
      (s.tcbPool i).state = .ready := by
    intro i
    rw [hmem i, h.mem i, and_comm]
  unfold putBack
  by_cases hrun : (s.tcbPool c).state = .running
  · have hset : ∀ state : ThreadState, ∀ i < maxThreads, state ≠ .running →
        (({ s with readyQueue := q }.setState c state).tcbPool i).active = true →
        (({ s with readyQueue := q }.setState c state).tcbPool i).state ≠ .running := by
      intro state i hi hstate hact hstill
      by_cases hic : i = c
      · rw [hic, setState_state] at hstill
        exact hstate hstill
      · rw [setState_ne hic] at hact hstill
        exact hic (honly hi hact hstill)
    have halike : ∀ state, Alike s ({ s with readyQueue := q }.setState c state) := fun state =>
      (Alike.withQueue s q).trans (.setState _ c state)
    rw [if_neg (not_not.mpr hrun)]
    by_cases hc1 : c = 1
    · -- the idle thread never enters the queue
      rw [if_pos (hidle.mpr hc1), if_neg fun hboth => hboth.2 hc1, List.append_nil]
      refine h.switch (halike .idle) hq hrest (fun i => ?_) (hset .idle · · (by decide))
        (fun _ => ?_) hnext m
      · rw [hready i]
        by_cases hic : i = c
        · rw [hic, setState_state, hrun]
          simp
        · rw [setState_ne hic]
      · rw [← hc1]
        exact setState_state _ c _
    · have hcrest : c ∉ rest := fun hin => hcl ((hmem c).mp hin).1
      have hlen : rest.length < maxCapacity := by
        have hle := (List.subperm_of_subset hrest fun i hi => ((hmem i).mp hi).1).length_le
        have hroom := h.room hc.bound hcl
        omega
      obtain ⟨q', henq, hq'⟩ := hq.enqueue hlen hcrest
      have henq' : ({ s with readyQueue := q }.setState c .ready).readyQueue.enqueue c .ready =
        some q' := henq
      rw [if_neg (fun hid => hc1 (hidle.mp hid)), if_pos ⟨hrun, hc1⟩]
      dsimp only
      rw [henq', Option.getD_some]
      refine h.switch ((halike .ready).trans (.withQueue _ q')) hq' (nodup_snoc hrest hcrest)
        (fun i => ?_) (hset .ready · · (by decide)) (fun hn => ?_) hnext m
      · rw [List.mem_append, List.mem_singleton]
        by_cases hic : i = c
        · rw [hic, setState_state, ((halike .ready).threads c).active]
          simp [hne, hc.bound, hc.active]
        · rw [setState_ne hic, hready i]
          simp [hic]
      · have hstate1 :=
          h.one.2.resolve_right fun hrun1 => hc1 (honly (by decide) h.one.1 hrun1).symm
        exact (congrArg ThreadControlBlock.state (setState_ne (Ne.symm hc1) _ _)).trans hstate1
  · rw [if_pos hrun, if_neg fun hboth => hrun hboth.1, List.append_nil]
    refine h.switch (.withQueue s q) hq hrest hready (fun i hi hact hstill => ?_)
      (fun hn => ?_) hnext m
    · exact hrun (honly hi hact hstill ▸ hstill)
    · exact h.one.2.resolve_right fun hrun1 => hrun ((honly (by decide) h.one.1 hrun1) ▸ hrun1)

theorem putBack_ends (s : Scheduler) (c : Nat) : Ends s (s.putBack c) := by
  unfold putBack
  split
  · exact fun _ => id
  rename_i hrun
  have hlive : (s.tcbPool c).state ≠ .terminated := by
    rw [not_not.mp hrun]
    decide
  split
  · exact .setState hlive _
  · exact Ends.setState hlive .ready

theorem putBack_ne (h : t ≠ c) (s : Scheduler) : (s.putBack c).tcbPool t = s.tcbPool t := by
  unfold putBack
  split
  · rfl
  split
  · exact setState_ne h s _
  · exact setState_ne h s _

theorem switchTo_ends (h : (s.tcbPool t).state ≠ .terminated) (m : Machine) :
    Ends s (s.switchTo t m).1 :=
  Ends.setTcb s _ fun ht => absurd ht h

theorem dispatch_ends (hne : c ≠ t) (ht : (s.tcbPool t).state ≠ .terminated) (q : ReadyQueue)
    (m : Machine) : Ends s (({ s with readyQueue := q }.putBack c).switchTo t m).1 := by
  have hput : Ends s ({ s with readyQueue := q }.putBack c) :=
    putBack_ends { s with readyQueue := q } c
  have hsame : ({ s with readyQueue := q }.putBack c).tcbPool t = s.tcbPool t :=
    putBack_ne (Ne.symm hne) _
  exact hput.trans (switchTo_ends (by rw [hsame]; exact ht) m)

/-- What a dispatch does to the queue and to the current thread. -/
inductive Outcome (s s' : Scheduler) (c : Nat) : List Nat → List Nat → Prop
  | stays (hcur : s'.current = some c) (hsame : s'.tcbPool c = s.tcbPool c) : Outcome s s' c [] []
  | idles (hcur : s'.current = some 1) (hne : c ≠ 1) (hticks : (s'.tcbPool 1).ticksConsumed = 0) :
      Outcome s s' c [] []
  | takes {t : Nat} {rest back : List Nat} (hcur : s'.current = some t) (hne : c ≠ t)
      (hticks : (s'.tcbPool t).ticksConsumed = 0) : Outcome s s' c (t :: rest) (rest ++ back)

theorem Outcome.congr (hsame : s₁.tcbPool c = s.tcbPool c) (h : Outcome s₁ s' c l l') :
    Outcome s s' c l l' := by
  cases h with
  | stays hcur hstay => exact .stays hcur (hstay.trans hsame)
  | idles hcur hne hticks => exact .idles hcur hne hticks
  | takes hcur hne hticks => exact .takes hcur hne hticks

theorem switchTo_ticks (s : Scheduler) (next : Nat) (m : Machine) :
    ((s.switchTo next m).1.tcbPool next).ticksConsumed = 0 := by
  rw [switchTo, setTcb_self]

section

variable (h : Base s l)
include h

theorem Base.takeNext (hcur : s.current = some c) (hc : s.Live c)
    (hstate : (s.tcbPool c).state = .running ∨ (s.tcbPool c).state = .blocked ∨
      (s.tcbPool c).state = .terminated)
    (hstop : l = [] → (s.tcbPool c).state ≠ .running) (m : Machine) {ready : Option Nat}
    (hdeq : s.readyQueue.dequeue = (ready, q)) :
    ∃ t l', (ready <|> s.idleThread) = some t ∧ c ≠ t ∧
      Sound (({ s with readyQueue := q }.putBack c).switchTo t m).1 l' ∧
      Outcome s (({ s with readyQueue := q }.putBack c).switchTo t m).1 c l l' ∧
      Ends s (({ s with readyQueue := q }.putBack c).switchTo t m).1 := by
  have hnot : (s.tcbPool c).state ≠ .ready := by
    rcases hstate with hs | hs | hs <;> rw [hs] <;> decide
  cases l with
  | nil =>
    obtain ⟨rfl, rfl⟩ := Prod.mk.inj (h.queue.dequeue_nil.symm.trans hdeq)
    have hc1 : c ≠ 1 := by
      rintro rfl
      rcases h.one.2 with hidle | hrun
      · rw [hidle] at hstate
        simp at hstate
      · exact hstop rfl hrun
    have hmem : ∀ i, i ∈ ([] : List Nat) ↔ i ∈ ([] : List Nat) ∧ i ≠ 1 := by simp
    have hsound := h.dispatch hcur hc hnot h.queue h.nodup hmem h.live_idle hc1 m
    rw [if_neg fun hboth => hstop rfl hboth.1] at hsound
    have hlive : (s.tcbPool 1).state ≠ .terminated := by
      rcases h.one.2 with hs | hs <;> rw [hs] <;> decide
    exact ⟨1, [], h.idle, hc1, hsound, .idles rfl hc1 (switchTo_ticks _ _ _),
      dispatch_ends hc1 hlive _ m⟩
  | cons t rest =>
    obtain ⟨hfirst, hnodup⟩ := List.nodup_cons.mp h.nodup
    obtain ⟨q', hdeq', hq⟩ := h.queue.dequeue_cons
    obtain ⟨rfl, rfl⟩ := Prod.mk.inj (hdeq'.symm.trans hdeq)
    have ht : t ∈ t :: rest := List.mem_cons_self
    have hready := ((h.mem t).mp ht).2.2
    have hne : c ≠ t := fun heq => hnot (heq ▸ hready)
    refine ⟨t, _, rfl, hne, h.dispatch hcur hc hnot hq hnodup (fun i => ?_)
      (h.live_of_mem ht) hne m,
      .takes rfl hne (switchTo_ticks _ _ _), dispatch_ends hne (by rw [hready]; decide) _ m⟩
    rw [List.mem_cons]
    constructor
    · exact fun hi => ⟨Or.inr hi, fun heq => hfirst (heq ▸ hi)⟩
    · exact fun hi => hi.1.resolve_left hi.2

theorem Base.same (ha : Alike s s') (hpool : ∀ i, s'.tcbPool i = s.tcbPool i)
    (hqueue : s'.readyQueue = s.readyQueue) (hcur : s'.current = s.current) : Base s' l := by
  refine h.of_alike ha (hqueue ▸ h.queue) h.nodup (fun i => ?_) (fun i => ?_) ?_
  · rw [hpool i]
    exact h.mem i
  · rw [hpool i, hcur]
    exact h.runs i
  · rw [hpool 1]
    exact h.one.2

theorem Base.inside (b : Bool) : Base { s with inScheduler := b } l :=
  h.same ⟨fun _ => .refl _, rfl, rfl, rfl, rfl⟩ (fun _ => rfl) rfl rfl

theorem Base.dequeue_none (hdeq : s.readyQueue.dequeue = (none, q)) : l = [] := by
  cases l with
  | nil => rfl
  | cons t rest =>
    obtain ⟨q', hdeq', _⟩ := h.queue.dequeue_cons
    cases hdeq.symm.trans hdeq'

theorem Base.schedule (hout : s.inScheduler = false) (hcur : s.current = some c) (hc : s.Live c)
    (hstate : (s.tcbPool c).state = .running ∨ (s.tcbPool c).state = .blocked)
    (hrun : s.schedule m = some (s', m')) :
    ∃ l', Sound s' l' ∧ Outcome s s' c l l' ∧ Ends s s' := by
  rw [Scheduler.schedule, if_neg (by rw [h.started, hout]; decide)] at hrun
  obtain ⟨⟨s₁, m₁⟩, hreclaim, hrun⟩ := Option.bind_eq_some_iff.mp hrun
  obtain ⟨h₁, hkept⟩ := (h.inside true).reclaimDeferredStacks hreclaim
  have hends : Ends { s with inScheduler := true } s₁ := reclaimDeferredStacks_ends hreclaim
  have hcur₁ : s₁.current = some c := hkept.current.trans hcur
  have htcb : s₁.tcbPool c = s.tcbPool c := hkept.threads c (Or.inr hcur)
  have hc₁ : s₁.Live c := ⟨hc.bound, by rw [htcb]; exact hc.active⟩
  rw [← htcb] at hstate
  dsimp only at hrun
  cases hdeq : s₁.readyQueue.dequeue with
  | mk ready q =>
    rw [hdeq] at hrun
    obtain ⟨c', hc', hrun⟩ := Option.bind_eq_some_iff.mp hrun
    obtain rfl : c = c' := Option.some.inj (hcur₁.symm.trans hc')
    split at hrun
    · -- nobody else is ready
      rename_i hstay
      obtain ⟨rfl, hstays⟩ := hstay
      obtain rfl := h₁.dequeue_none hdeq
      obtain ⟨_, rfl⟩ := Prod.mk.inj (h₁.queue.dequeue_nil.symm.trans hdeq)
      have hrunning : (s₁.tcbPool c).state = .running := by
        rcases hstate with hs | hs
        · exact hs
        · rw [hs] at hstays
          simp at hstays
      cases hrun
      have hpool : ∀ i, (s₁.setState c .running).tcbPool i = s₁.tcbPool i := by
        intro i
        by_cases hic : i = c
        · rw [hic, setState, setTcb_self, ← hrunning]
        · exact setState_ne hic s₁ _
      refine ⟨[], ⟨h₁.same ⟨(Alike.setState s₁ c .running).threads, rfl, rfl, rfl, rfl⟩ hpool rfl
        rfl, rfl, c, hcur₁, ?_, ?_⟩,
        .stays hcur₁ ((hpool c).trans htcb),
          hends.trans (Ends.setState (by rw [hrunning]; decide) .running)⟩
      · exact ⟨hc.bound, (congrArg ThreadControlBlock.active (hpool c)).trans hc₁.active⟩
      · exact setState_state s₁ c .running
    · rename_i hleave
      have hstop : l = [] → (s₁.tcbPool c).state ≠ .running := by
        rintro rfl hrunning
        obtain ⟨rfl, _⟩ := Prod.mk.inj (h₁.queue.dequeue_nil.symm.trans hdeq)
        exact hleave ⟨rfl, Or.inl hrunning⟩
      obtain ⟨t, l', hnext, hne, hsound, houtcome, hends'⟩ :=
        h₁.takeNext hcur₁ hc₁ (hstate.imp_right Or.inl) hstop m₁ hdeq
      obtain ⟨t', ht', hrun⟩ := Option.bind_eq_some_iff.mp hrun
      obtain rfl : t = t' := Option.some.inj (hnext.symm.trans ht')
      rw [if_neg hne] at hrun
      cases hrun
      exact ⟨l', hsound, houtcome.congr htcb, hends.trans hends'⟩

end

end Scheduler

end LlamaOS.Threading
