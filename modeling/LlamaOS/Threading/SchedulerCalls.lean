import LlamaOS.Threading.Switching

/-!
# The calls of the scheduler

What each call does to the ready queue and to the current thread; all of them keep the invariant.
-/

namespace LlamaOS.Threading
open Memory

namespace Scheduler

variable {s s' : Scheduler} {l l' : List Nat} {i c : Nat} {m m' : Machine}

section

variable (h : Sound s l) (hcur : s.current = some c)
include h hcur

theorem Sound.live : s.Live c ∧ (s.tcbPool c).state = .running := by
  obtain ⟨c', hcur', hc⟩ := h.current
  obtain rfl : c' = c := Option.some.inj (hcur'.symm.trans hcur)
  exact hc

theorem Sound.leave (hwork : c ≠ 1) (state : ThreadState)
    (hready : state ≠ .ready) (hrunning : state ≠ .running) : Base (s.setState c state) l := by
  have hrun := (h.live hcur).2
  refine h.of_alike (.setState s c state) h.queue h.nodup (fun i => ?_)
    (fun i hi hact hstill => ?_) ?_
  · rw [h.mem i]
    by_cases hic : i = c
    · rw [hic, setState_state, hrun]
      simp [hready]
    · rw [setState_ne hic]
  · by_cases hic : i = c
    · rw [hic, setState_state] at hstill
      exact absurd hstill hrunning
    · rw [setState_ne hic] at hact hstill
      exact h.runs i hi hact hstill
  · rw [setState_ne (Ne.symm hwork)]
    exact h.one.2

theorem Sound.exit (hwork : c ≠ 1) (hrun : s.exit m = some (s', m')) :
    ∃ l', Sound s' l' ∧ Outcome (s.setState c .terminated) s' c l l' ∧ Ends s s' := by
  have hleave := h.leave hcur hwork .terminated (by decide) (by decide)
  obtain ⟨c', hc', hrun⟩ := Option.bind_eq_some_iff.mp hrun
  obtain rfl : c = c' := Option.some.inj (hcur.symm.trans hc')
  obtain ⟨⟨s₁, m₁⟩, hreclaim, hrun⟩ := Option.bind_eq_some_iff.mp hrun
  obtain ⟨h₁, hkept⟩ := (hleave.inside true).reclaimDeferredStacks hreclaim
  have hset : Ends s (s.setState c .terminated) := Ends.setTcb s _ fun _ => rfl
  have hends : Ends { s.setState c .terminated with inScheduler := true } s₁ :=
    reclaimDeferredStacks_ends hreclaim
  have htcb : s₁.tcbPool c = (s.setState c .terminated).tcbPool c := hkept.threads c (Or.inr hcur)
  have hc₁ : s₁.Live c := ⟨(h.live hcur).1.bound, by
    rw [htcb, ((Alike.setState s c .terminated).threads c).active]
    exact (h.live hcur).1.active⟩
  have hstate : (s₁.tcbPool c).state = .terminated := by rw [htcb, setState_state]
  dsimp only at hrun
  cases hdeq : s₁.readyQueue.dequeue with
  | mk ready q =>
    rw [hdeq] at hrun
    obtain ⟨t, l', hnext, _, hsound, houtcome, hends'⟩ := h₁.takeNext (hkept.current.trans hcur) hc₁
      (Or.inr (Or.inr hstate)) (fun _ => by rw [hstate]; decide) m₁ hdeq
    rw [putBack, if_pos (by rw [hstate]; decide)] at hsound houtcome hends'
    obtain ⟨t', ht', hrun⟩ := Option.bind_eq_some_iff.mp hrun
    obtain rfl : t = t' := Option.some.inj (hnext.symm.trans ht')
    cases hrun
    exact ⟨l', hsound, houtcome.congr htcb, hset.trans (hends.trans hends')⟩

theorem Sound.ticked : Sound (s.setTcb c (ticked (s.tcbPool c))) l := by
  have halike : Alike s (s.setTcb c (Scheduler.ticked (s.tcbPool c))) :=
    .setTcb s ⟨rfl, rfl, rfl, rfl, rfl⟩
  have hstate : ∀ i, ((s.setTcb c (Scheduler.ticked (s.tcbPool c))).tcbPool i).state =
      (s.tcbPool i).state := by
    intro i
    by_cases hic : i = c
    · rw [hic, setTcb_self]
      rfl
    · rw [setTcb_ne hic]
  refine ⟨h.of_alike halike h.queue h.nodup (fun i => ?_) (fun i => ?_) ?_, h.outside, c, hcur,
    (h.live hcur).1.of_alike halike, ?_⟩
  · rw [hstate i, (halike.threads i).active]
    exact h.mem i
  · rw [hstate i, (halike.threads i).active]
    exact h.runs i
  · rw [hstate 1]
    exact h.one.2
  · rw [hstate c]
    exact (h.live hcur).2

theorem Sound.onTimerTick (hrun : s.onTimerTick m = some (s', m')) :
    ∃ l', Sound s' l' ∧
      (if s.Expires c then Outcome (s.setTcb c (Scheduler.ticked (s.tcbPool c))) s' c l l'
      else s' = s.setTcb c (Scheduler.ticked (s.tcbPool c)) ∧ l' = l) ∧ Ends s s' := by
  have hends : Ends s (s.setTcb c (Scheduler.ticked (s.tcbPool c))) := .setTcb s _ id
  have hticked := h.ticked hcur
  rw [Scheduler.onTimerTick, if_neg (by rw [h.started, h.outside]; decide)] at hrun
  split at hrun
  · rename_i hnone
    cases hnone.symm.trans hcur
  rename_i c' hc'
  obtain rfl : c = c' := Option.some.inj (hcur.symm.trans hc')
  split at hrun
  · rename_i hexpires
    obtain ⟨l', hsound, houtcome, hends'⟩ := hticked.schedule hticked.outside hcur
      (hticked.live hcur).1 (Or.inl (hticked.live hcur).2) hrun
    exact ⟨l', hsound, by rwa [if_pos hexpires], hends.trans hends'⟩
  · rename_i hexpires
    cases hrun
    exact ⟨l, hticked, by rw [if_neg hexpires]; exact ⟨rfl, rfl⟩, hends⟩

theorem Sound.current_notMem : c ∉ l := h.notMem_of_state (by rw [(h.live hcur).2]; decide)

end

theorem Sound.blockOther (h : Sound s l) (hne : s.current ≠ some i) (hwork : i ≠ 1) :
    Sound ({ s with readyQueue := (s.readyQueue.remove i).getD s.readyQueue }.setState i .blocked)
      (l.erase i) := by
  obtain ⟨c, hcur, hc, hrun⟩ := h.current
  have hci : c ≠ i := fun heq => hne (heq ▸ hcur)
  have halike : Alike s
      ({ s with readyQueue := (s.readyQueue.remove i).getD s.readyQueue }.setState i .blocked) :=
    (Alike.withQueue s _).trans (.setState _ i .blocked)
  refine ⟨h.of_alike halike (h.queue.remove h.nodup i).2 (h.nodup.erase i) (fun j => ?_)
    (fun j hj hact hstill => ?_) ?_, h.outside, c, hcur, hc.of_alike halike, ?_⟩
  · rw [h.nodup.mem_erase_iff, h.mem j]
    by_cases hji : j = i
    · rw [hji, setState_state]
      simp
    · rw [setState_ne hji]
      simp [hji]
  · by_cases hji : j = i
    · rw [hji, setState_state] at hstill
      cases hstill
    · rw [setState_ne hji] at hact hstill
      exact h.runs j hj hact hstill
  · rw [setState_ne (Ne.symm hwork)]
    exact h.one.2
  · rw [setState_ne hci]
    exact hrun

theorem Sound.unblock (h : Sound s l) (hi : s.Live i) :
    ∃ l', Sound (s.unblock i) l' ∧ (∃ back, l' = l ++ back) ∧ (s.unblock i).current = s.current ∧
      (∀ c, s.current = some c → (s.unblock i).tcbPool c = s.tcbPool c) ∧ Ends s (s.unblock i) := by
  unfold Scheduler.unblock
  split
  · rename_i hblocked
    obtain ⟨c, hcur, hc, hrun⟩ := h.current
    have hnot : i ∉ l := h.notMem_of_state (by rw [hblocked]; decide)
    have hci : c ≠ i := by
      rintro rfl
      cases hrun.symm.trans hblocked
    have hone : 1 ≠ i := by
      rintro rfl
      exact absurd h.one.2 (by rw [hblocked]; decide)
    obtain ⟨q, henq, hq⟩ := h.queue.enqueue (h.room hi.bound hnot) hnot
    have henq' : (s.setState i .ready).readyQueue.enqueue i .ready = some q := henq
    have halike : Alike s { s.setState i .ready with readyQueue := q } :=
      (Alike.setState s i .ready).trans (.withQueue _ q)
    have hkeep : ∀ c, s.current = some c → (s.setState i .ready).tcbPool c = s.tcbPool c :=
        fun c' hc' =>
      setState_ne (Option.some.inj (hcur.symm.trans hc') ▸ hci) s _
    dsimp only
    rw [henq', Option.getD_some]
    refine ⟨l ++ [i],
      ⟨h.of_alike halike hq (nodup_snoc h.nodup hnot) (fun j => ?_) (fun j hj hact hstill => ?_) ?_,
      h.outside, c, hcur, hc.of_alike halike, ?_⟩, ⟨[i], rfl⟩, rfl, hkeep,
      Ends.setState (by rw [hblocked]; decide) .ready⟩
    · rw [List.mem_append, List.mem_singleton, h.mem j]
      change _ ↔ j < maxThreads ∧ ((s.setState i .ready).tcbPool j).active = true ∧
        ((s.setState i .ready).tcbPool j).state = .ready
      by_cases hji : j = i
      · rw [hji, setState_state, ((Alike.setState s i .ready).threads i).active]
        simp [hi.bound, hi.active]
      · rw [setState_ne hji]
        simp [hji]
    · by_cases hji : j = i
      · rw [hji, setState_state] at hstill
        cases hstill
      · rw [setState_ne hji] at hact hstill
        exact h.runs j hj hact hstill
    · exact (congrArg (fun t : ThreadControlBlock => t.state = .idle ∨ t.state = .running)
        (setState_ne hone s .ready)).mpr h.one.2
    · exact (congrArg ThreadControlBlock.state (setState_ne hci s .ready)).trans hrun
  · exact ⟨l, h, ⟨[], (List.append_nil l).symm⟩, rfl, fun _ _ => rfl, fun _ => id⟩

theorem setTcb_twice (s : Scheduler) (i : Nat) (t t' : ThreadControlBlock) :
    ((s.setTcb i t).setTcb i t').tcbPool = (s.setTcb i t').tcbPool := by
  funext j
  by_cases hj : j = i
  · rw [hj, setTcb_self, setTcb_self]
  · rw [setTcb_ne hj, setTcb_ne hj, setTcb_ne hj]

theorem Sound.fill (h : Sound s l) (hi : i < maxThreads) (hlow : 2 ≤ i)
    (hfree : (s.tcbPool i).active = false) {t : ThreadControlBlock} (hidle : t.isIdle = false)
    (hslice : t.timesliceTicks = defaultTimesliceTicks)
    (hpool : s'.tcbPool = (s.setTcb i t).tcbPool) (hrunning : s'.running = s.running)
    (hinside : s'.inScheduler = s.inScheduler) (hcurrent : s'.current = s.current)
    (hids : s'.idleThread = s.idleThread ∧ s'.bootstrapThread = s.bootstrapThread)
    (hold : ∀ slot, s.stackAllocator.isSlotInUse slot = true →
      s'.stackAllocator.isSlotInUse slot = true)
    (hnew : t.active = true → t.state = .ready ∧ s.stackAllocator.isSlotInUse t.stack.slotIndex =
      false ∧ s'.stackAllocator.isSlotInUse t.stack.slotIndex = true)
    (hqueue : s'.readyQueue.Lists l') (hnodup : l'.Nodup)
    (hmem : ∀ j, j ∈ l' ↔ j ∈ l ∨ j = i ∧ t.active = true) : Sound s' l' := by
  have hself : s'.tcbPool i = t := by rw [hpool, setTcb_self]
  have hother : ∀ {j}, j ≠ i → s'.tcbPool j = s.tcbPool j := fun hj => by rw [hpool, setTcb_ne hj]
  have hil := h.notMem_of_inactive hfree
  obtain ⟨c, hcur, hc, hrun⟩ := h.current
  have hci : c ≠ i := by
    rintro rfl
    rw [hc.active] at hfree
    cases hfree
  have hclash : ∀ {j}, j < maxThreads → (s.tcbPool j).active = true →
      0 ≤ (s.tcbPool j).stack.slotIndex →
      t.active = true → (s.tcbPool j).stack.slotIndex ≠ t.stack.slotIndex := by
    intro j hj hact hpos htact heq
    rw [← heq, h.slots j hj hact hpos] at hnew
    cases (hnew htact).2.1
  refine ⟨⟨hqueue, hnodup, fun j => ?_, fun j hj hact hstill => ?_, hrunning.trans h.started,
    hids.1.trans h.idle,
    hids.2.trans h.bootstrap, fun j hj => ?_, ?_, ?_, fun j hj hact hpos =>
      ?_, fun j hj k hk hact hact' hpos heq => ?_,
    fun j hj => ?_⟩, hinside.trans h.outside, c, hcurrent.trans hcur, ⟨hc.bound, ?_⟩, ?_⟩
  · rw [hmem j]
    by_cases hji : j = i
    · subst hji
      rw [hself]
      simp only [hil, hi, true_and, false_or]
      exact ⟨fun hact => ⟨hact, (hnew hact).1⟩, fun hboth => hboth.1⟩
    · rw [hother hji, h.mem j]
      simp [hji]
  · by_cases hji : j = i
    · subst hji
      rw [hself] at hact hstill
      rw [(hnew hact).1] at hstill
      cases hstill
    · rw [hother hji] at hact hstill
      rw [hcurrent]
      exact h.runs j hj hact hstill
  · by_cases hji : j = i
    · subst hji
      rw [hself, hidle]
      simp only [Bool.false_eq_true, false_iff]
      omega
    · rw [hother hji]
      exact h.idleOnly j hj
  · rw [hother (by omega)]
    exact h.zero
  · rw [hother (by omega)]
    exact h.one
  · by_cases hji : j = i
    · subst hji
      rw [hself] at hact ⊢
      exact (hnew hact).2.2
    · rw [hother hji] at hact hpos ⊢
      exact hold _ (h.slots j hj hact hpos)
  · by_cases hji : j = i
    · by_cases hki : k = i
      · rw [hji, hki]
      · rw [hji, hself] at hact hpos heq
        rw [hother hki] at hact' heq
        exact absurd heq.symm (hclash hk hact' (heq ▸ hpos) hact)
    rw [hother hji] at hact hpos heq
    by_cases hki : k = i
    · rw [hki, hself] at hact' heq
      exact absurd heq (hclash hj hact hpos hact')
    · rw [hother hki] at hact' heq
      exact h.apart j hj k hk hact hact' hpos heq
  · by_cases hji : j = i
    · rw [hji, hself, hslice]
    · rw [hother hji]
      exact h.timeslice j hj
  · rw [hother hci]
    exact hc.active
  · rw [hother hci]
    exact hrun

theorem Sound.createThread (h : Sound s l) {name : Option (List (BitVec 8))} {r : Option Nat}
    (hrun : s.createThread name m = some (r, s', m')) :
    ∃ l', Sound s' l' ∧ (∃ back, l' = l ++ back) ∧ s'.current = s.current ∧
      ∀ j, s.freeTcb ≠ some j → s'.tcbPool j = s.tcbPool j := by
  unfold Scheduler.createThread at hrun
  split at hrun
  · cases hrun
    exact ⟨l, h, ⟨[], (List.append_nil l).symm⟩, rfl, fun _ _ => rfl⟩
  rename_i i hfind
  have hfree : (s.tcbPool i).active = false := by simpa using List.find?_some hfind
  have hrange := List.mem_range'_1.mp (List.mem_of_find?_eq_some hfind)
  have hi : i < maxThreads := by
    omega
  have hkeep : ∀ t j, s.freeTcb ≠ some j → (s.setTcb i t).tcbPool j = s.tcbPool j := fun t j hj =>
    setTcb_ne (fun heq : j = i => hj (by rw [heq]; exact hfind)) s t
  have hil := h.notMem_of_inactive hfree
  obtain ⟨⟨res, m₁⟩, halloc, hrun⟩ := Option.bind_eq_some_iff.mp hrun
  cases res with
  | none =>
    cases hrun
    refine ⟨l, h.fill hi hrange.1 hfree rfl rfl rfl rfl rfl rfl ⟨rfl, rfl⟩ (fun _ hslot => hslot)
      (by simp) h.queue h.nodup (fun j => ?_), ⟨[], (List.append_nil l).symm⟩, rfl, hkeep {}⟩
    simp
  | some result =>
    obtain ⟨stack, allocator⟩ := result
    obtain ⟨hunused, _, hslots⟩ := StackAllocator.allocateStack_slot halloc
    obtain ⟨q, henq, hq⟩ := h.queue.enqueue (h.room hi hil) hil
    dsimp only [allocateId] at hrun
    split at hrun
    · rename_i hfull
      cases hfull.symm.trans henq
    rename_i q' hq'
    obtain rfl := Option.some.inj (henq.symm.trans hq')
    cases hrun
    have hpool := setTcb_twice s i {}
    refine ⟨l ++ [i], h.fill hi hrange.1 hfree ?_ ?_ (hpool _) rfl rfl rfl ⟨rfl, rfl⟩
      (fun slot hslot => hslots slot (Or.inl hslot))
        (fun _ => ⟨rfl, hunused, hslots _ (Or.inr rfl)⟩) hq
      (nodup_snoc h.nodup hil)
      (fun j => ?_), ⟨[i], rfl⟩, rfl, fun j hj => (congrFun (hpool _) j).trans (hkeep _ j hj)⟩
    · rfl
    · rfl
    · simp

end Scheduler

end LlamaOS.Threading
