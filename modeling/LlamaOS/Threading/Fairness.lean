import LlamaOS.Threading.SchedulerRuns

/-!
# Fairness

A ready thread moves one place forward at each dispatch until it runs, and a thread that does not
give up the processor loses it when its timeslice ends.
-/

namespace LlamaOS.Threading
open Memory

namespace Scheduler

variable {s s' : Scheduler} {l l' : List Nat} {k n t c : Nat} {m m' : Machine} {op : Op}

theorem position_erase {i : Nat} (hne : i ≠ t) : ∀ {l : List Nat} {k : Nat}, l[k]? = some t →
    ∃ k' ≤ k, (l.erase i)[k']? = some t := by
  intro l
  induction l with
  | nil => exact fun h => absurd h (by simp)
  | cons x l ih =>
    intro k h
    by_cases hx : x = i
    · subst hx
      rw [List.erase_cons_head]
      cases k with
      | zero => exact absurd (Option.some.inj h) hne
      | succ k => exact ⟨k, Nat.le_succ k, h⟩
    rw [List.erase_cons_tail (by simpa using hx)]
    cases k with
    | zero => exact ⟨0, Nat.le_refl 0, h⟩
    | succ k =>
      obtain ⟨k', hk', hget⟩ := ih h
      exact ⟨k' + 1, Nat.succ_le_succ hk', hget⟩

/-- After a call the thread runs, or it waits at most as far back as before; a dispatch moves it
forward. -/
theorem Effect.position (h : Effect s s' op c l l') (hat : l[k]? = some t)
    (hop : op ≠ .block (some t)) :
    s'.current = some t ∨ ∃ k' ≤ k, l'[k']? = some t ∧ (s.Dispatches op → k' < k) := by
  cases h with
  | other hno hcur hlist hticks =>
    rcases hlist with ⟨back, rfl⟩ | ⟨i, rfl, rfl⟩
    · obtain ⟨hk, _⟩ := List.getElem?_eq_some_iff.mp hat
      exact Or.inr
        ⟨k, Nat.le_refl k, by rw [List.getElem?_append_left hk, hat], fun hyes => absurd hyes hno⟩
    · have hne : i ≠ t := fun heq => hop (heq ▸ rfl)
      obtain ⟨k', hk', hget⟩ := position_erase hne hat
      exact Or.inr ⟨k', hk', hget, fun hyes => absurd hyes hno⟩
  | dispatch hyes hticks hout =>
    cases hout with
    | stays hcur hsame => cases hat
    | idles hcur hne hticks => cases hat
    | takes hcur hne hticks =>
      cases k with
      | zero =>
        cases hat
        exact Or.inl hcur
      | succ k =>
        rw [List.getElem?_cons_succ] at hat
        obtain ⟨hk, _⟩ := List.getElem?_eq_some_iff.mp hat
        exact Or.inr
          ⟨k, Nat.le_succ k, by rw [List.getElem?_append_left hk, hat], fun _ => Nat.lt_succ_self k⟩

/-- Calls with `n` dispatches in which nobody blocks the thread, and the states after each call. -/
inductive Trace (t : Nat) : Scheduler → Nat → List Scheduler → Prop
  | nil (s : Scheduler) : Trace t s 0 []
  | dispatch {s s' : Scheduler} {m m' : Machine} {op : Op} {n : Nat} {visited : List Scheduler}
      (hop : s.Allowed op)
      (hfree : op ≠ .block (some t)) (hrun : s.perform m op = some (s', m'))
        (hyes : s.Dispatches op)
      (rest : Trace t s' n visited) : Trace t s (n + 1) (s' :: visited)
  | other {s s' : Scheduler} {m m' : Machine} {op : Op} {n : Nat} {visited : List Scheduler}
      (hop : s.Allowed op)
      (hfree : op ≠ .block (some t)) (hrun : s.perform m op = some (s', m'))
        (hno : ¬ s.Dispatches op)
      (rest : Trace t s' n visited) : Trace t s n (s' :: visited)

theorem Trace.runs {visited : List Scheduler} (h : Trace t s n visited) :
    ∀ {l : List Nat} {k : Nat}, Sound s l →
    l[k]? = some t → k < n → ∃ s' ∈ visited, s'.current = some t := by
  induction h with
  | nil s => exact fun _ _ hk => absurd hk (Nat.not_lt_zero _)
  | dispatch hop hfree hrun hyes _ ih =>
    intro l k hl hat hk
    obtain ⟨c, hcur, _⟩ := hl.current
    obtain ⟨l', hl', heffect, _⟩ := hl.step hcur hop hrun
    rcases heffect.position hat hfree with hruns | ⟨k', _, hat', hless⟩
    · exact ⟨_, List.mem_cons_self, hruns⟩
    · obtain ⟨s₁, hmem, hruns⟩ :=
        ih hl' hat' (Nat.lt_of_lt_of_le (hless hyes) (Nat.lt_succ_iff.mp hk))
      exact ⟨s₁, List.mem_cons_of_mem _ hmem, hruns⟩
  | other hop hfree hrun hno _ ih =>
    intro l k hl hat hk
    obtain ⟨c, hcur, _⟩ := hl.current
    obtain ⟨l', hl', heffect, _⟩ := hl.step hcur hop hrun
    rcases heffect.position hat hfree with hruns | ⟨k', hle, hat', _⟩
    · exact ⟨_, List.mem_cons_self, hruns⟩
    · obtain ⟨s₁, hmem, hruns⟩ := ih hl' hat' (Nat.lt_of_le_of_lt hle hk)
      exact ⟨s₁, List.mem_cons_of_mem _ hmem, hruns⟩

/-- The thread has been the running one for `n` ticks since it got the processor. -/
inductive Burst (c : Nat) : Nat → Scheduler → Prop
  | boot {bottom top : Nat} {s : Scheduler} {m m' : Machine}
      (h : init bottom top m = some (true, s, m')) (hcur : s.current = some c) : Burst c 0 s.start
  | switched {s s' : Scheduler} {m m' : Machine} {op : Op} (h : Reachable s) (hop : s.Allowed op)
      (hrun : s.perform m op = some (s', m')) (hne : s.current ≠ some c)
        (hcur : s'.current = some c) : Burst c 0 s'
  | goes {s s' : Scheduler} {m m' : Machine} {op : Op} {n : Nat} (h : Burst c n s)
      (hop : s.Allowed op) (hrun : s.perform m op = some (s', m')) (hcur : s'.current = some c) :
      Burst c (if op = .tick then n + 1 else n) s'

/-- A thread that keeps the processor keeps its ticks; one that gets it starts with none. -/
theorem Effect.ticks {c' : Nat} (h : Effect s s' op c l l') (hcur' : s'.current = some c') :
    (s'.tcbPool c').ticksConsumed = if c' = c then s.ticksAt op c else 0 := by
  cases h with
  | other hno hcur hlist hticks =>
    obtain rfl := Option.some.inj (hcur.symm.trans hcur')
    rw [if_pos rfl, hticks]
  | dispatch hyes hticks hout =>
    cases hout with
    | stays hcur hsame =>
      obtain rfl := Option.some.inj (hcur.symm.trans hcur')
      rw [if_pos rfl, hsame, hticks]
    | idles hcur hne hzero =>
      obtain rfl := Option.some.inj (hcur.symm.trans hcur')
      rw [if_neg (Ne.symm hne), hzero]
    | takes hcur hne hzero =>
      obtain rfl := Option.some.inj (hcur.symm.trans hcur')
      rw [if_neg (Ne.symm hne), hzero]

theorem Burst.spec (h : Burst c n s) :
    Reachable s ∧ s.current = some c ∧ (s.tcbPool c).ticksConsumed = n % 2 ^ 64 := by
  induction h with
  | boot h hcur =>
    obtain ⟨_, hzero, hticks⟩ := init_sound h
    obtain rfl := Option.some.inj (hzero.symm.trans hcur)
    exact ⟨.start h, hcur, hticks⟩
  | switched h hop hrun hne hcur =>
    obtain ⟨l, hl⟩ := h.sound
    obtain ⟨c', hcur', _⟩ := hl.current
    obtain ⟨l', _, heffect, _⟩ := hl.step hcur' hop hrun
    refine ⟨.step h hop hrun, hcur, ?_⟩
    rw [heffect.ticks hcur, if_neg (by rintro rfl; exact hne hcur'), Nat.zero_mod]
  | goes h hop hrun hcur ih =>
    obtain ⟨hreach, hcur', hticks⟩ := ih
    obtain ⟨l, hl⟩ := hreach.sound
    obtain ⟨l', _, heffect, _⟩ := hl.step hcur' hop hrun
    refine ⟨.step hreach hop hrun, hcur, ?_⟩
    rw [heffect.ticks hcur, if_pos rfl, ticksAt, hticks]
    split
    · rw [Nat.mod_add_mod]
    · rfl

/-- The tick that ends the timeslice gives the processor to the head of the queue. -/
theorem Burst.expires (h : Burst c n s) (hfull : (s.tcbPool c).timesliceTicks ≤ n + 1)
    (hn : n + 1 < 2 ^ 64) (hready : s.readyQueue.count ≠ 0)
    (hrun : s.onTimerTick m = some (s', m')) :
    s'.current = s.readyQueue.entries s.readyQueue.head ∧ s'.current ≠ some c := by
  obtain ⟨hreach, hcur, hticks⟩ := h.spec
  obtain ⟨l, hl⟩ := hreach.sound
  obtain ⟨l', _, hout, _⟩ := hl.onTimerTick hcur hrun
  have hexpires : s.Expires c := by
    left
    change ((s.tcbPool c).ticksConsumed + 1) % 2 ^ 64 ≥ _
    rw [hticks, Nat.mod_add_mod, Nat.mod_eq_of_lt hn]
    exact hfull
  rw [if_pos hexpires] at hout
  cases hout with
  | stays => exact absurd hl.queue.count hready
  | idles => exact absurd hl.queue.count hready
  | takes hcur' hne =>
    rw [hcur', hl.queue.holds.1]
    exact ⟨rfl, fun heq => hne (Option.some.inj heq).symm⟩

/-- Round robin: from position `k` a thread runs at the latest at the dispatch number `k + 1`; a
thread that keeps the processor loses it with its timeslice when another one is ready. -/
theorem round_robin_fair (h : Reachable s) :
    (∀ k t n visited, s.readyQueue.At k t → Trace t s n visited → k < n → ∃ s' ∈ visited,
      s'.current = some t) ∧
      ∀ c n m s' m', Burst c n s → (s.tcbPool c).isIdle = false →
        (s.tcbPool c).timesliceTicks ≤ n + 1 →
        n + 1 < 2 ^ 64 → s.readyQueue.count ≠ 0 → s.onTimerTick m = some (s', m') →
        s'.current = s.readyQueue.entries s.readyQueue.head ∧ s'.current ≠ some c := by
  obtain ⟨l, hl⟩ := h.sound
  refine ⟨fun k t n visited hat htrace hk => htrace.runs hl (hl.queue.at_iff.mp hat) hk, ?_⟩
  exact fun c n m s' m' hburst _ hfull hn hready hrun => hburst.expires hfull hn hready hrun

/-- The bootstrap thread creates a thread and yields to it. -/
theorem sampleKernel_dispatched :
    ∃ s s', Reachable s ∧ s.readyQueue.At 0 2 ∧ Trace 2 s 1 [s'] ∧ s'.current = some 2 := by
  have hrun : ((init 0xFFFFFFFF80190000 0xFFFFFFFF801A0000 sampleKernel).bind fun r =>
      (r.2.1.start.createThread none r.2.2).bind fun r₁ => (r₁.2.1.schedule r₁.2.2).map fun _ =>
        (r.1, r₁.2.1.readyQueue.count, r₁.2.1.readyQueue.entries r₁.2.1.readyQueue.head,
          r₁.2.1.readyQueue.head)) =
      some (true, 1, some 2, 0) := by decide +kernel
  obtain ⟨⟨ok, s, m⟩, hinit, hrun⟩ := Option.bind_eq_some_iff.mp hrun
  obtain ⟨⟨r, s₁, m₁⟩, hcreate, hrun⟩ := Option.bind_eq_some_iff.mp hrun
  obtain ⟨⟨s₂, m₂⟩, hyield, hrun⟩ := Option.map_eq_some_iff.mp hrun
  obtain ⟨rfl, hcount, hentry, hhead⟩ : ok = true ∧ s₁.readyQueue.count = 1 ∧
      s₁.readyQueue.entries s₁.readyQueue.head = some 2 ∧ s₁.readyQueue.head = 0 := by
    simpa using hrun
  have hyields : s₁.Allowed .yield := trivial
  have hreach := (Reachable.start hinit).created hcreate
  have hat : s₁.readyQueue.At 0 2 := ⟨by omega, by rw [hhead] at hentry ⊢; exact hentry⟩
  have htrace : Trace 2 s₁ 1 [s₂] := .dispatch hyields (by decide) hyield trivial (.nil s₂)
  obtain ⟨s', hmem, hcur⟩ := (round_robin_fair hreach).1 0 2 1 [s₂] hat htrace (by decide)
  exact ⟨s₁, s₂, hreach, hat, htrace, List.mem_singleton.mp hmem ▸ hcur⟩

end Scheduler

end LlamaOS.Threading
