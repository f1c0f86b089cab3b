import LlamaOS.Shared.RingBuffer

/-!
# The ready queue

`ReadyQueue` of the scheduler: a ring of 64 thread pointers. A thread is its index in the pool of
control blocks, and the states of the threads come from there. The ring stands for a list.
-/

namespace LlamaOS.Threading
open RingBuffer

inductive ThreadState where
  | created
  | ready
  | running
  | blocked
  | terminated
  | idle
deriving DecidableEq

abbrev maxCapacity : Nat := 64

structure ReadyQueue where
  entries : Nat → Option Nat := fun _ => none
  head : Nat := 0
  tail : Nat := 0
  count : Nat := 0

namespace ReadyQueue

/-- The loop of `contains` over the `n` entries from `idx` on. -/
def containsFrom (q : ReadyQueue) (thread : Nat) : Nat → Nat → Bool
  | 0, _ => false
  | n + 1, idx => q.entries idx == some thread || q.containsFrom thread n ((idx + 1) % maxCapacity)

def contains (q : ReadyQueue) (thread : Nat) : Bool := q.containsFrom thread q.count q.head

def enqueue (q : ReadyQueue) (thread : Nat) (state : ThreadState) : Option ReadyQueue :=
  if state ≠ .ready then none
  else if q.count ≥ maxCapacity then none
  else if q.contains thread then none
  else some
    { q with
      entries := fun i => if i = q.tail then some thread else q.entries i
      tail := (q.tail + 1) % maxCapacity
      count := q.count + 1 }

def dequeue (q : ReadyQueue) : Option Nat × ReadyQueue :=
  if q.count = 0 then (none, q)
  else
    (q.entries q.head,
      { q with
        entries := setCell q.entries q.head none
        head := (q.head + 1) % maxCapacity
        count := q.count - 1 })

/-- The loop of `remove` from the entry at `idx` on; the inner loop closes the gap. `none` stands
for `false`. -/
def removeFrom (q : ReadyQueue) (thread : Nat) : Nat → Nat → Option ReadyQueue
  | 0, _ => none
  | left + 1, idx =>
    if q.entries idx = some thread then
      let tail := if q.tail = 0 then maxCapacity - 1 else q.tail - 1
      some
        { q with
          entries := setCell (shift maxCapacity q.entries left idx) tail none
          tail := tail
          count := q.count - 1 }
    else q.removeFrom thread left ((idx + 1) % maxCapacity)

def remove (q : ReadyQueue) (thread : Nat) : Option ReadyQueue := q.removeFrom thread q.count q.head

/-- The loop of `verify_invariants` over the `n` entries from `idx` on. -/
def verifyFrom (q : ReadyQueue) (state : Nat → ThreadState) (isIdle : Nat → Bool) : Nat → Nat → Bool
  | 0, _ => true
  | n + 1, idx =>
    match q.entries idx with
    | none => false
    | some entry =>
      decide (state entry = .ready) && !isIdle entry && !q.containsFrom entry n
        ((idx + 1) % maxCapacity) && q.verifyFrom state isIdle n ((idx + 1) % maxCapacity)

def verifyInvariants (q : ReadyQueue) (state : Nat → ThreadState) (isIdle : Nat → Bool) : Bool :=
  decide (q.count ≤ maxCapacity) && decide ((q.head + q.count) % maxCapacity = q.tail) &&
    q.verifyFrom state isIdle q.count q.head

structure Lists (q : ReadyQueue) (l : List Nat) : Prop where
  holds : Holds maxCapacity q.entries l q.head
  count : q.count = l.length
  room : l.length ≤ maxCapacity
  head : q.head < maxCapacity
  tail : q.tail = (q.head + l.length) % maxCapacity

variable {q : ReadyQueue} {l : List Nat} {thread : Nat}

theorem containsFrom_iff {pos : Nat} (h : Holds maxCapacity q.entries l pos) :
    q.containsFrom thread l.length pos = true ↔ thread ∈ l := by
  induction l generalizing pos with
  | nil => simp [containsFrom]
  | cons t l ih =>
    rw [List.length_cons, containsFrom, h.1, Bool.or_eq_true, ih h.2, List.mem_cons, beq_iff_eq,
      Option.some_inj, eq_comm]

/-- The thread at a position, from the head on. -/
def At (q : ReadyQueue) (k thread : Nat) : Prop :=
  k < q.count ∧ q.entries ((q.head + k) % maxCapacity) = some thread

namespace Lists

theorem at_iff (h : q.Lists l) {k : Nat} : q.At k thread ↔ l[k]? = some thread := by
  have hcell : ∀ {l : List Nat} {pos k : Nat}, pos < maxCapacity →
      Holds maxCapacity q.entries l pos → k < l.length →
      q.entries ((pos + k) % maxCapacity) = l[k]? := by
    intro l
    induction l with
    | nil => exact fun _ _ hk => absurd hk (Nat.not_lt_zero _)
    | cons t l ih =>
      intro pos k hpos hholds hk
      cases k with
      | zero => rw [Nat.add_zero, Nat.mod_eq_of_lt hpos, hholds.1, List.getElem?_cons_zero]
      | succ k =>
        rw [← next_wrap, ih (next_lt hpos) hholds.2 (Nat.lt_of_succ_lt_succ hk),
          List.getElem?_cons_succ]
  rw [At, h.count]
  constructor
  · rintro ⟨hk, hentry⟩
    rw [← hcell h.head h.holds hk, hentry]
  · intro hsome
    obtain ⟨hk, _⟩ := List.getElem?_eq_some_iff.mp hsome
    exact ⟨hk, by rw [hcell h.head h.holds hk, hsome]⟩

theorem contains_iff (h : q.Lists l) : q.contains thread = true ↔ thread ∈ l := by
  rw [ReadyQueue.contains, h.count]
  exact containsFrom_iff h.holds

theorem enqueue (h : q.Lists l) (hroom : l.length < maxCapacity) (hnew : thread ∉ l) :
    ∃ q', q.enqueue thread .ready = some q' ∧ q'.Lists (l ++ [thread]) := by
  have hcontains : ¬ q.contains thread = true := fun hin => hnew (h.contains_iff.mp hin)
  refine ⟨{ q with
    entries := setCell q.entries q.tail (some thread), tail := (q.tail + 1) % maxCapacity, count :=
      q.count + 1 },
    ?_, ?_, ?_, ?_, h.head, ?_⟩
  · rw [ReadyQueue.enqueue, if_neg (fun hne => hne rfl), if_neg (by rw [h.count]; omega),
      if_neg hcontains]
    rfl
  · have hpush := h.holds.push h.head hroom thread
    rwa [← h.tail] at hpush
  · rw [List.length_append, ← h.count]
    rfl
  · rw [List.length_append]
    exact hroom
  · rw [h.tail, List.length_append, Nat.mod_add_mod, Nat.add_assoc]
    rfl

theorem enqueue_none (h : q.Lists l) {state : ThreadState}
    (hno : ¬ (state = .ready ∧ l.length < maxCapacity ∧ thread ∉ l)) :
    q.enqueue thread state = none := by
  rw [ReadyQueue.enqueue, h.count]
  split
  · rfl
  split
  · rfl
  rename_i hready hroom
  refine if_pos (h.contains_iff.mpr ?_)
  by_contra hnew
  exact hno ⟨not_not.mp hready, Nat.lt_of_not_le hroom, hnew⟩

theorem dequeue_nil (h : q.Lists []) : q.dequeue = (none, q) := if_pos h.count

theorem dequeue_cons (h : q.Lists (thread :: l)) :
    ∃ q', q.dequeue = (some thread, q') ∧ q'.Lists l := by
  have hcount := h.count
  have hroom := h.room
  rw [List.length_cons] at hcount hroom
  refine ⟨{ q with
    entries := setCell q.entries q.head none, head := (q.head + 1) % maxCapacity, count :=
      q.count - 1 },
    ?_, h.holds.pop h.head hroom, ?_, by omega, next_lt h.head, ?_⟩
  · rw [ReadyQueue.dequeue, if_neg (by omega), h.holds.1]
  · dsimp only
    omega
  · rw [h.tail, List.length_cons, next_wrap]

/-- What `remove` leaves when it meets the thread behind the part `done` of the list. -/
theorem removeFrom {done rest : List Nat} (h : q.Lists (done ++ rest)) (hmem : thread ∈ rest)
    (hnodup : rest.Nodup) :
    ∃ q', q.removeFrom thread rest.length ((q.head + done.length) % maxCapacity) = some q' ∧
      q'.Lists (done ++ rest.erase thread) := by
  induction rest generalizing done with
  | nil => cases hmem
  | cons t rest ih =>
    have hhead := h.head
    have hroom := h.room
    have hcount := h.count
    rw [List.length_append, List.length_cons] at hroom hcount
    obtain ⟨hdone, hcell, hrest⟩ := (Holds.append h.head).mp h.holds
    rw [List.length_cons, ReadyQueue.removeFrom, hcell]
    by_cases heq : t = thread
    · subst heq
      rw [if_pos rfl, List.erase_cons_head]
      have htail : (if q.tail = 0 then maxCapacity - 1 else q.tail - 1) =
          (q.head + (done.length + rest.length)) % maxCapacity := by
        rw [h.tail, List.length_append, List.length_cons]
        simp only [maxCapacity] at hhead hroom ⊢
        split <;> omega
      have hlt : (q.head + done.length) % maxCapacity < maxCapacity := Nat.mod_lt _ (by decide)
      have hshift := Holds.shift ⟨hcell, hrest⟩ hlt (by omega)
      have hkeep : Holds maxCapacity
          (shift maxCapacity q.entries rest.length ((q.head + done.length) % maxCapacity))
          done q.head := by
        refine hdone.congr (fun i hi => shift_outside hlt fun j hj => ?_) h.head
        rw [Nat.mod_add_mod, Nat.add_assoc]
        exact wrap_ne h.head (by omega) (by omega)
      refine ⟨_, rfl, ?_, ?_, ?_, h.head, ?_⟩
      · rw [htail]
        exact Holds.update ((Holds.append h.head).mpr ⟨hkeep, hshift⟩) h.head
          (Nat.le_of_eq List.length_append) (by omega) none
      · dsimp only
        rw [List.length_append]
        omega
      · rw [List.length_append]
        omega
      · rw [htail, List.length_append]
    · have hne : ¬ some t = some thread := fun hsome => heq (Option.some.inj hsome)
      have hsplit : done ++ t :: rest = (done ++ [t]) ++ rest := (List.append_cons done t rest)
      have hin : thread ∈ rest := (List.mem_cons.mp hmem).resolve_left (Ne.symm heq)
      obtain ⟨q', hq', hlists⟩ := ih (hsplit ▸ h) hin (List.nodup_cons.mp hnodup).2
      refine ⟨q', ?_, ?_⟩
      · rw [if_neg hne, ← hq', List.length_append, Nat.mod_add_mod, ← Nat.add_assoc]
        rfl
      · rwa [List.erase_cons_tail (by simpa using heq), List.append_cons]

theorem removeFrom_none {pos : Nat} (h : Holds maxCapacity q.entries l pos) (hnot : thread ∉ l) :
    q.removeFrom thread l.length pos = none := by
  induction l generalizing pos with
  | nil => rfl
  | cons t l ih =>
    rw [List.mem_cons, not_or] at hnot
    rw [List.length_cons, ReadyQueue.removeFrom, h.1,
      if_neg fun hsome => hnot.1 (Option.some.inj hsome).symm]
    exact ih h.2 hnot.2

theorem remove (h : q.Lists l) (hnodup : l.Nodup) (thread : Nat) :
    (q.remove thread).isSome = decide (thread ∈ l) ∧
      ((q.remove thread).getD q).Lists (l.erase thread) := by
  rw [ReadyQueue.remove, h.count]
  by_cases hmem : thread ∈ l
  · have hnil : q.Lists ([] ++ l) := h
    obtain ⟨q', hq', hlists⟩ := hnil.removeFrom hmem hnodup
    rw [List.length_nil, Nat.add_zero, Nat.mod_eq_of_lt h.head] at hq'
    rw [hq', decide_eq_true hmem]
    exact ⟨rfl, hlists⟩
  · rw [removeFrom_none h.holds hmem, List.erase_of_not_mem hmem, decide_eq_false hmem]
    exact ⟨rfl, h⟩

theorem verifyInvariants (h : q.Lists l) (hnodup : l.Nodup) {state : Nat → ThreadState}
    {isIdle : Nat → Bool} (hstate : ∀ t ∈ l, state t = .ready ∧ isIdle t = false) :
    q.verifyInvariants state isIdle = true := by
  have hloop : ∀ {l : List Nat} {pos : Nat}, Holds maxCapacity q.entries l pos → l.Nodup →
      (∀ t ∈ l, state t = .ready ∧ isIdle t = false) →
        q.verifyFrom state isIdle l.length pos = true := by
    intro l
    induction l with
    | nil => exact fun _ _ _ => rfl
    | cons t l ih =>
      intro pos hholds hnodup hstate
      obtain ⟨hnot, hnodup⟩ := List.nodup_cons.mp hnodup
      obtain ⟨hready, hidle⟩ := hstate t List.mem_cons_self
      have hcontains : q.containsFrom t l.length ((pos + 1) % maxCapacity) = false :=
        Bool.eq_false_iff.mpr fun hin => hnot ((containsFrom_iff hholds.2).mp hin)
      rw [List.length_cons, verifyFrom, hholds.1]
      simp only [hready, hidle, hcontains, decide_true, Bool.not_false, Bool.and_self,
        Bool.true_and]
      exact ih hholds.2 hnodup fun t ht => hstate t (List.mem_cons_of_mem _ ht)
  rw [ReadyQueue.verifyInvariants, h.count, hloop h.holds hnodup hstate, h.tail]
  simp only [h.room, decide_true, Bool.and_self]

end Lists

/-- A call of an operation. The pointer to a thread may be null. -/
inductive Call where
  | enqueue (thread : Option Nat) (state : ThreadState)
  | dequeue
  | remove (thread : Option Nat)

/-- What a call returns and the queue after it. -/
def Call.run : Call → ReadyQueue → (Bool ⊕ Option Nat) × ReadyQueue
  | .enqueue none _, q => (.inl false, q)
  | .enqueue (some thread) state, q =>
    (.inl (q.enqueue thread state).isSome, (q.enqueue thread state).getD q)
  | .dequeue, q => (.inr q.dequeue.1, q.dequeue.2)
  | .remove none, q => (.inl false, q)
  | .remove (some thread), q => (.inl (q.remove thread).isSome, (q.remove thread).getD q)

/-- The same call on the list of the threads. -/
def Call.onList : Call → List Nat → (Bool ⊕ Option Nat) × List Nat
  | .enqueue none _, l => (.inl false, l)
  | .enqueue (some thread) state, l =>
    if state = .ready ∧ l.length < maxCapacity ∧ thread ∉ l then (.inl true, l ++ [thread])
    else (.inl false, l)
  | .dequeue, l => (.inr l.head?, l.tail)
  | .remove none, l => (.inl false, l)
  | .remove (some thread), l => (.inl (decide (thread ∈ l)), l.erase thread)

/-- The answers to a sequence of calls and the state after it. -/
def runCalls {σ β : Type} (step : Call → σ → β × σ) : List Call → σ → List β × σ
  | [], s => ([], s)
  | call :: calls, s =>
    let rest := runCalls step calls (step call s).2
    ((step call s).1 :: rest.1, rest.2)

theorem Call.run_lists (call : Call) (h : q.Lists l) (hnodup : l.Nodup) :
    (call.run q).1 = (call.onList l).1 ∧ (call.run q).2.Lists (call.onList l).2 ∧
      (call.onList l).2.Nodup := by
  cases call with
  | enqueue thread state =>
    cases thread with
    | none => exact ⟨rfl, h, hnodup⟩
    | some thread =>
      rw [Call.run, Call.onList]
      by_cases hok : state = .ready ∧ l.length < maxCapacity ∧ thread ∉ l
      · obtain ⟨rfl, hroom, hnew⟩ := hok
        obtain ⟨q', hq', hlists⟩ := h.enqueue hroom hnew
        rw [if_pos ⟨rfl, hroom, hnew⟩, hq']
        exact ⟨rfl, hlists,
          List.perm_append_comm.nodup_iff.mpr (List.nodup_cons.mpr ⟨hnew, hnodup⟩)⟩
      · rw [if_neg hok, h.enqueue_none hok]
        exact ⟨rfl, h, hnodup⟩
  | dequeue =>
    rw [Call.run, Call.onList]
    cases l with
    | nil =>
      rw [h.dequeue_nil]
      exact ⟨rfl, h, hnodup⟩
    | cons t l =>
      obtain ⟨q', hq', hlists⟩ := h.dequeue_cons
      rw [hq']
      exact ⟨rfl, hlists, (List.nodup_cons.mp hnodup).2⟩
  | remove thread =>
    cases thread with
    | none => exact ⟨rfl, h, hnodup⟩
    | some thread =>
      obtain ⟨hfound, hlists⟩ := h.remove hnodup thread
      exact ⟨congrArg _ hfound, hlists, hnodup.erase _⟩

/-- Every sequence of calls does to the ring what it does to a list without duplicates. -/
theorem calls_refine_list (calls : List Call) (h : q.Lists l) (hnodup : l.Nodup) :
    (runCalls Call.run calls q).1 = (runCalls Call.onList calls l).1 ∧
      (runCalls Call.run calls q).2.Lists (runCalls Call.onList calls l).2 ∧
      (runCalls Call.onList calls l).2.Nodup ∧ (runCalls Call.onList calls l).2.length ≤
        maxCapacity ∧
      ((runCalls Call.run calls q).2.head + (runCalls Call.run calls q).2.count) % maxCapacity =
        (runCalls Call.run calls q).2.tail := by
  induction calls generalizing q l with
  | nil =>
    refine ⟨rfl, h, hnodup, h.room, ?_⟩
    exact (congrArg (fun n => (q.head + n) % maxCapacity) h.count).trans h.tail.symm
  | cons call calls ih =>
    obtain ⟨hanswer, hlists, hnodup⟩ := call.run_lists h hnodup
    obtain ⟨hanswers, hrest⟩ := ih hlists hnodup
    exact ⟨congrArg₂ List.cons hanswer hanswers, hrest⟩

theorem wrapped_calls_refine_list :
    ReadyQueue.Lists { head := 63, tail := 63 } [] ∧
      (runCalls Call.run [.enqueue (some 1) .ready, .enqueue (some 2) .ready,
        .remove (some 1), .dequeue]
        { head := 63, tail := 63 }).1 = [.inl true, .inl true, .inl true, .inr (some 2)] := by
  have hlists : ReadyQueue.Lists { head := 63, tail := 63 } [] :=
    ⟨trivial, rfl, by decide, by decide, rfl⟩
  exact ⟨hlists, (calls_refine_list _ hlists List.nodup_nil).1.trans rfl⟩

end ReadyQueue

end LlamaOS.Threading
