import LlamaOS.Threading.Scheduler
import LlamaOS.Shared.MonadicFold

/-!
# What the scheduler keeps

The ready queue lists the active threads that are ready, one thread runs, and the stack slots of
the active threads are different and in use. Every dispatch keeps this.
-/

namespace LlamaOS.Threading
open Memory

namespace StackAllocator

variable {a a' : StackAllocator} {info : ThreadStackInfo} {m m' : Machine}

theorem allocateStack_slot (h : a.allocateStack m = some (some (info, a'), m')) :
    a.isSlotInUse info.slotIndex = false ∧ 0 ≤ info.slotIndex ∧
      (∀ slot, a.isSlotInUse slot = true ∨ slot = info.slotIndex → a'.isSlotInUse slot = true) := by
  unfold allocateStack at h
  split at h
  · cases h
  split at h
  · cases h
  rename_i slot hslot
  have hfree : a.slotInUse slot = false := by simpa using List.find?_some hslot
  have hlt : slot < maxStackSlots := List.mem_range.mp (List.mem_of_find?_eq_some hslot)
  obtain ⟨⟨pa, m₁⟩, _, h⟩ := Option.bind_eq_some_iff.mp h
  dsimp only at h
  split at h
  · cases h
  obtain ⟨⟨ok, m₂⟩, _, h⟩ := Option.bind_eq_some_iff.mp h
  split at h
  · cases h
  cases h
  have hrange : ¬ ((slot : Int) < 0 ∨ (slot : Int) ≥ maxStackSlots) := by omega
  refine ⟨by rw [isSlotInUse, if_neg hrange]; exact hfree, Int.natCast_nonneg _,
    fun other hother => ?_⟩
  rw [isSlotInUse]
  rcases hother with hused | rfl
  · rw [isSlotInUse] at hused
    split at hused
    · cases hused
    rename_i hin
    rw [if_neg hin]
    dsimp only
    split
    · rfl
    · exact hused
  · rw [if_neg hrange]
    exact if_pos rfl

theorem freeStack_others {ok : Bool} (h : a.freeStack info m = some (ok, a', m')) {slot : Int}
    (hne : slot ≠ info.slotIndex) : a'.isSlotInUse slot = a.isSlotInUse slot := by
  unfold freeStack at h
  split at h
  · cases h
    rfl
  split at h
  · cases h
    rfl
  rename_i hrange
  split at h
  · cases h
    rfl
  obtain ⟨m₁, _, h⟩ := Option.bind_eq_some_iff.mp h
  cases h
  unfold isSlotInUse
  split
  · rfl
  · rename_i hslot
    exact if_neg (by omega)

end StackAllocator

namespace Scheduler

/-- Everything but the state of the current thread. -/
structure Base (s : Scheduler) (l : List Nat) : Prop where
  queue : s.readyQueue.Lists l
  nodup : l.Nodup
  mem : ∀ i, i ∈ l ↔ i < maxThreads ∧ (s.tcbPool i).active = true ∧ (s.tcbPool i).state = .ready
  runs : ∀ i < maxThreads, (s.tcbPool i).active = true → (s.tcbPool i).state = .running →
    s.current = some i
  started : s.running = true
  idle : s.idleThread = some 1
  bootstrap : s.bootstrapThread = some 0
  idleOnly : ∀ i < maxThreads, (s.tcbPool i).isIdle = true ↔ i = 1
  zero : (s.tcbPool 0).active = true ∧ (s.tcbPool 0).isBootstrap = true ∧
    (s.tcbPool 0).stack.slotIndex < 0
  one : (s.tcbPool 1).active = true ∧ ((s.tcbPool 1).state = .idle ∨ (s.tcbPool 1).state = .running)
  slots : ∀ i < maxThreads, (s.tcbPool i).active = true → 0 ≤ (s.tcbPool i).stack.slotIndex →
    s.stackAllocator.isSlotInUse (s.tcbPool i).stack.slotIndex = true
  apart : ∀ i < maxThreads, ∀ j < maxThreads, (s.tcbPool i).active = true →
    (s.tcbPool j).active = true →
    0 ≤ (s.tcbPool i).stack.slotIndex →
      (s.tcbPool i).stack.slotIndex = (s.tcbPool j).stack.slotIndex → i = j
  timeslice : ∀ i < maxThreads, (s.tcbPool i).timesliceTicks = defaultTimesliceTicks

/-- A thread of the pool that has not ended its life. -/
structure Live (s : Scheduler) (i : Nat) : Prop where
  bound : i < maxThreads
  active : (s.tcbPool i).active = true

/-- Between two calls the current thread runs. -/
structure Sound (s : Scheduler) (l : List Nat) : Prop extends Base s l where
  outside : s.inScheduler = false
  current : ∃ c, s.current = some c ∧ s.Live c ∧ (s.tcbPool c).state = .running

/-- Only the state and the ticks may have changed. -/
structure SameThread (t t' : ThreadControlBlock) : Prop where
  active : t'.active = t.active
  isIdle : t'.isIdle = t.isIdle
  isBootstrap : t'.isBootstrap = t.isBootstrap
  stack : t'.stack = t.stack
  timeslice : t'.timesliceTicks = t.timesliceTicks

structure Alike (s s' : Scheduler) : Prop where
  threads : ∀ i, SameThread (s.tcbPool i) (s'.tcbPool i)
  allocator : s'.stackAllocator = s.stackAllocator
  running : s'.running = s.running
  idle : s'.idleThread = s.idleThread
  bootstrap : s'.bootstrapThread = s.bootstrapThread

variable {s s' s₁ : Scheduler} {l l' : List Nat} {i c next : Nat} {m m' : Machine}

theorem nodup_snoc (h : l.Nodup) (hi : i ∉ l) : (l ++ [i]).Nodup := by
  rw [← List.concat_eq_append]
  exact h.concat hi

theorem SameThread.refl (t : ThreadControlBlock) : SameThread t t := ⟨rfl, rfl, rfl, rfl, rfl⟩

theorem Alike.trans (h : Alike s s₁) (h' : Alike s₁ s') : Alike s s' where
  threads i := by
    have ht := h.threads i
    have ht' := h'.threads i
    exact ⟨ht'.active.trans ht.active, ht'.isIdle.trans ht.isIdle,
      ht'.isBootstrap.trans ht.isBootstrap,
      ht'.stack.trans ht.stack, ht'.timeslice.trans ht.timeslice⟩
  allocator := h'.allocator.trans h.allocator
  running := h'.running.trans h.running
  idle := h'.idle.trans h.idle
  bootstrap := h'.bootstrap.trans h.bootstrap

theorem setTcb_self (s : Scheduler) (i : Nat) (t : ThreadControlBlock) :
    (s.setTcb i t).tcbPool i = t :=
  if_pos rfl

theorem setTcb_ne {j : Nat} (h : j ≠ i) (s : Scheduler) (t : ThreadControlBlock) :
    (s.setTcb i t).tcbPool j = s.tcbPool j := if_neg h

theorem setState_state (s : Scheduler) (i : Nat) (state : ThreadState) :
    ((s.setState i state).tcbPool i).state = state := by rw [setState, setTcb_self]

theorem setState_ne {j : Nat} (h : j ≠ i) (s : Scheduler) (state : ThreadState) :
    (s.setState i state).tcbPool j = s.tcbPool j := setTcb_ne h s _

/-- The threads that have ended are still so. -/
def Ends (s s' : Scheduler) : Prop :=
  ∀ i, (s.tcbPool i).state = .terminated → (s'.tcbPool i).state = .terminated

theorem Ends.trans (h : Ends s s₁) (h' : Ends s₁ s') : Ends s s' := fun i hi => h' i (h i hi)

theorem Ends.setTcb (s : Scheduler) (tcb : ThreadControlBlock)
    (h : (s.tcbPool i).state = .terminated → tcb.state = .terminated) :
    Ends s (s.setTcb i tcb) := by
  intro j hj
  by_cases hji : j = i
  · subst hji
    rw [setTcb_self]
    exact h hj
  · rw [setTcb_ne hji]
    exact hj

theorem Ends.setState (h : (s.tcbPool i).state ≠ .terminated) (state : ThreadState) :
    Ends s (s.setState i state) :=
  .setTcb s _ fun hi => absurd hi h

theorem Alike.setTcb (s : Scheduler) {t : ThreadControlBlock} (h : SameThread (s.tcbPool i) t) :
    Alike s (s.setTcb i t) := by
  refine ⟨fun j => ?_, rfl, rfl, rfl, rfl⟩
  by_cases hj : j = i
  · rw [hj, setTcb_self]
    exact h
  · rw [setTcb_ne hj]
    exact .refl _

theorem Alike.setState (s : Scheduler) (i : Nat) (state : ThreadState) :
    Alike s (s.setState i state) :=
  .setTcb s ⟨rfl, rfl, rfl, rfl, rfl⟩

theorem Live.of_alike (h : Alike s s') (hi : s.Live i) : s'.Live i :=
  ⟨hi.bound, (h.threads i).active.trans hi.active⟩

theorem reclaimThread_ends (hrun : s.reclaimThread i m = some (s', m')) : Ends s s' := by
  unfold Scheduler.reclaimThread at hrun
  dsimp only at hrun
  split at hrun
  · obtain ⟨⟨ok, a, m₁⟩, _, hrun⟩ := Option.bind_eq_some_iff.mp hrun
    cases hrun
    exact Ends.setTcb s _ id
  · cases hrun
    exact fun _ => id

theorem reclaimDeferredStacks_ends (hrun : s.reclaimDeferredStacks m = some (s', m')) :
    Ends s s' := by
  refine MonadicFold.invariant (P := fun r : Scheduler × Machine => Ends s r.1) ?_
    (fun _ => id) hrun
  rintro ⟨s₁, m₁⟩ i ⟨s₂, m₂⟩ _ hends hstep
  exact hends.trans (reclaimThread_ends hstep)

namespace Base

section

variable (h : Base s l)
include h

theorem of_alike (ha : Alike s s') (hqueue : s'.readyQueue.Lists l') (hnodup : l'.Nodup)
    (hmem : ∀ i, i ∈ l' ↔ i < maxThreads ∧ (s'.tcbPool i).active = true ∧
      (s'.tcbPool i).state = .ready)
    (hruns : ∀ i < maxThreads, (s'.tcbPool i).active = true → (s'.tcbPool i).state = .running →
      s'.current = some i)
    (hone : (s'.tcbPool 1).state = .idle ∨ (s'.tcbPool 1).state = .running) : Base s' l' where
  queue := hqueue
  nodup := hnodup
  mem := hmem
  runs := hruns
  started := ha.running.trans h.started
  idle := ha.idle.trans h.idle
  bootstrap := ha.bootstrap.trans h.bootstrap
  idleOnly i hi := by rw [(ha.threads i).isIdle, h.idleOnly i hi]
  zero := by
    have ht := ha.threads 0
    rw [ht.active, ht.isBootstrap, ht.stack]
    exact h.zero
  one := ⟨(ha.threads 1).active.trans h.one.1, hone⟩
  slots i hi := by
    rw [(ha.threads i).active, (ha.threads i).stack, ha.allocator]
    exact h.slots i hi
  apart i hi j hj := by
    rw [(ha.threads i).active, (ha.threads i).stack, (ha.threads j).active, (ha.threads j).stack]
    exact h.apart i hi j hj
  timeslice i hi := (ha.threads i).timeslice.trans (h.timeslice i hi)

theorem live_of_mem (hi : i ∈ l) : s.Live i := ⟨((h.mem i).mp hi).1, ((h.mem i).mp hi).2.1⟩

theorem live_idle : s.Live 1 := ⟨by decide, h.one.1⟩

theorem not_mem_one : 1 ∉ l := by
  intro hmem
  have hstate := ((h.mem 1).mp hmem).2.2
  rcases h.one.2 with hone | hone
  · rw [hone] at hstate
    cases hstate
  · rw [hone] at hstate
    cases hstate

theorem notMem_of_state (hi : (s.tcbPool i).state ≠ .ready) : i ∉ l :=
  fun hin => hi ((h.mem i).mp hin).2.2

theorem notMem_of_inactive (hi : (s.tcbPool i).active = false) : i ∉ l := by
  intro hin
  rw [((h.mem i).mp hin).2.1] at hi
  cases hi

theorem ne_one (hi : (s.tcbPool i).isIdle = false) : i ≠ 1 := by
  rintro rfl
  rw [(h.idleOnly 1 (by decide)).mpr rfl] at hi
  cases hi

theorem room (hi : i < maxThreads) (hnot : i ∉ l) : l.length < maxCapacity := by
  have hall : (i :: l) ⊆ List.range maxThreads := by
    intro j hj
    rw [List.mem_range]
    rcases List.mem_cons.mp hj with rfl | hj
    · exact hi
    · exact ((h.mem j).mp hj).1
  have hle := (List.subperm_of_subset (List.nodup_cons.mpr ⟨hnot, h.nodup⟩) hall).length_le
  exact hle

/-- Threads that have not terminated, and the current one, are as before. -/
structure Kept (s s' : Scheduler) : Prop where
  current : s'.current = s.current
  queue : s'.readyQueue = s.readyQueue
  inside : s'.inScheduler = s.inScheduler
  threads : ∀ i, (s.tcbPool i).state ≠ .terminated ∨ s.current = some i → s'.tcbPool i = s.tcbPool i

omit h in
theorem Kept.trans (h : Kept s s₁) (h' : Kept s₁ s') : Kept s s' where
  current := h'.current.trans h.current
  queue := h'.queue.trans h.queue
  inside := h'.inside.trans h.inside
  threads i hi := by
    have heq := h.threads i hi
    rw [← heq]
    exact h'.threads i (by rwa [heq, h.current])

theorem reclaimThread (hi : i < maxThreads) (hrun : s.reclaimThread i m = some (s', m')) :
    Base s' l ∧ Kept s s' := by
  unfold Scheduler.reclaimThread at hrun
  dsimp only at hrun
  split at hrun
  · rename_i hdead
    obtain ⟨hactive, hterm, hcur, hslot⟩ := hdead
    obtain ⟨⟨ok, a, m₁⟩, hfree, hrun⟩ := Option.bind_eq_some_iff.mp hrun
    cases hrun
    have hne : ∀ {j}, (s.tcbPool j).state ≠ .terminated → j ≠ i := fun hj heq => hj (heq ▸ hterm)
    have hone : 1 ≠ i := hne (by rcases h.one.2 with hs | hs <;> rw [hs] <;> decide)
    have hzero : 0 ≠ i := by
      rintro rfl
      exact absurd h.zero.2.2 (by omega)
    have hold : ∀ {j}, j ≠ i →
        (s.setTcb i { s.tcbPool i with stack := {}, active := false }).tcbPool j = s.tcbPool j :=
      fun hj => setTcb_ne hj s _
    have hgone : ∀ {j}, (if j = i then { s.tcbPool i with stack := {}, active := false }
        else s.tcbPool j).active = true → j ≠ i := by
      rintro j hj rfl
      rw [if_pos rfl] at hj
      cases hj
    refine ⟨⟨h.queue, h.nodup, fun j => ?_, fun j hj hact => ?_, h.started, h.idle, h.bootstrap,
      fun j hj => ?_, ?_, ?_,
      fun j hj hact => ?_, fun j hj k hk hact hact' => ?_, fun j hj => ?_⟩, rfl, rfl, rfl,
        fun j hj => hold ?_⟩
    · rw [h.mem j]
      by_cases hj : j = i
      · subst hj
        simp [Scheduler.setTcb, hterm]
      · rw [setTcb_ne hj]
    · have hji := hgone hact
      rw [setTcb_ne hji] at hact ⊢
      exact h.runs j hj hact
    · by_cases hji : j = i
      · subst hji
        rw [setTcb_self]
        exact h.idleOnly j hj
      · rw [setTcb_ne hji]
        exact h.idleOnly j hj
    · rw [setTcb_ne hzero]
      exact h.zero
    · rw [setTcb_ne hone]
      exact h.one
    · have hji := hgone hact
      rw [setTcb_ne hji] at hact ⊢
      intro hpos
      have hused := h.slots j hj hact hpos
      exact (StackAllocator.freeStack_others hfree fun heq => hji
        (h.apart j hj i hi hact hactive hpos heq)).trans hused
    · have hji := hgone hact
      have hki := hgone hact'
      rw [setTcb_ne hji] at hact ⊢
      rw [setTcb_ne hki] at hact' ⊢
      exact h.apart j hj k hk hact hact'
    · by_cases hji : j = i
      · subst hji
        rw [setTcb_self]
        exact h.timeslice j hj
      · rw [setTcb_ne hji]
        exact h.timeslice j hj
    · rintro rfl
      rcases hj with hj | hj
      · exact hj hterm
      · exact hcur hj
  · cases hrun
    exact ⟨h, rfl, rfl, rfl, fun _ _ => rfl⟩

theorem reclaimDeferredStacks (hrun : s.reclaimDeferredStacks m = some (s', m')) :
    Base s' l ∧ Kept s s' := by
  refine MonadicFold.invariant (P := fun r : Scheduler × Machine => Base r.1 l ∧ Kept s r.1) ?_
    ⟨h, rfl, rfl, rfl, fun _ _ => rfl⟩ hrun
  rintro ⟨s₁, m₁⟩ i ⟨s₂, m₂⟩ hi ⟨hbase, hkept⟩ hstep
  obtain ⟨hbase', hkept'⟩ := hbase.reclaimThread (List.mem_range.mp hi) hstep
  exact ⟨hbase', hkept.trans hkept'⟩

end

end Base

end Scheduler

end LlamaOS.Threading
