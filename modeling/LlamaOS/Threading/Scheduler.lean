import LlamaOS.Threading.ReadyQueue
import LlamaOS.Threading.StackAllocator

/-!
# The scheduler

The pool of control blocks, the ready queue and the stack allocator, with `create_thread`,
`schedule`, `exit`, `block`, `unblock`, the timer tick, the deferred reclamation of stacks and the
self-check `verify_invariants`. A thread is its index in the pool. Interrupts are off inside each
call. Entry point, register context, priority and the counters that only the diagnostics read are
left out. A result of `none` is a page fault.
-/

namespace LlamaOS.Threading
open Memory

/-- The bytes of an ASCII literal before its terminator. -/
def literal (text : String) : List (BitVec 8) := text.toList.map fun c => BitVec.ofNat 8 c.toNat

def strncpy (src : List (BitVec 8)) (count : Nat) : List (BitVec 8) :=
  let copied := (src.takeWhile (· ≠ 0)).take count
  copied ++ List.replicate (count - copied.length) 0

theorem strncpy_length (src : List (BitVec 8)) (count : Nat) :
    (strncpy src count).length = count := by
  simp only [strncpy, List.length_append, List.length_replicate, List.length_take]
  omega

abbrev maxThreads : Nat := 64
abbrev threadNameMaxLen : Nat := 32
abbrev defaultTimesliceTicks : Nat := 2

structure ThreadControlBlock where
  id : Nat := 0
  name : List (BitVec 8) := List.replicate threadNameMaxLen 0
  state : ThreadState := .created
  stack : ThreadStackInfo := {}
  ticksConsumed : Nat := 0
  timesliceTicks : Nat := defaultTimesliceTicks
  isIdle : Bool := false
  isBootstrap : Bool := false
  active : Bool := false
  cr3 : Nat := 0
deriving DecidableEq

structure Scheduler where
  tcbPool : Nat → ThreadControlBlock := fun _ => {}
  readyQueue : ReadyQueue := {}
  stackAllocator : StackAllocator := {}
  current : Option Nat := none
  idleThread : Option Nat := none
  bootstrapThread : Option Nat := none
  nextId : Nat := 1
  running : Bool := false
  inScheduler : Bool := false
  totalThreads : Nat := 0
  activeThreads : Nat := 0
  terminatedThreads : Nat := 0
  stackPagesAllocated : Nat := 0
  stackPagesReclaimed : Nat := 0
  rsp0 : Nat := 0

namespace Scheduler

def setTcb (s : Scheduler) (i : Nat) (tcb : ThreadControlBlock) : Scheduler :=
  { s with tcbPool := fun j => if j = i then tcb else s.tcbPool j }

/-- The first two blocks belong to the bootstrap and the idle thread. -/
def freeTcb (s : Scheduler) : Option Nat :=
  (List.range' 2 (maxThreads - 2)).find? fun i => !(s.tcbPool i).active

/-- `ThreadId` has 32 bits, and the identifiers of the first two threads are not given out again. -/
def allocateId (s : Scheduler) : Nat × Scheduler :=
  let next := (s.nextId + 1) % 2 ^ 32
  (s.nextId, { s with nextId := if next = 0 then 3 else next })

/-- The outer `none` is a page fault, the inner one the null pointer. -/
def createThread (s : Scheduler) (name : Option (List (BitVec 8))) (m : Machine) :
    Option (Option Nat × Scheduler × Machine) :=
  match s.freeTcb with
  | none => some (none, s, m)
  | some i => do
    let s := s.setTcb i {}
    match ← s.stackAllocator.allocateStack m with
    | (none, m) => return (none, s, m)
    | (some (stack, allocator), m) =>
      let (id, s) := { s with stackAllocator := allocator }.allocateId
      let tcb : ThreadControlBlock :=
        { id := id
          name := strncpy (name.getD (literal "thread")) threadNameMaxLen
          state := .ready
          stack := stack
          active := true }
      let s := s.setTcb i tcb
      match s.readyQueue.enqueue i tcb.state with
      | none => do
        let (_, allocator, m) ← s.stackAllocator.freeStack stack m
        return (none, { s with stackAllocator := allocator }.setTcb i { tcb with active := false },
          m)
      | some queue =>
        return (some i,
          { s with
            readyQueue := queue
            totalThreads := s.totalThreads + 1
            activeThreads := s.activeThreads + 1
            stackPagesAllocated := s.stackPagesAllocated + stackUsablePages }, m)

end Scheduler

namespace StackAllocator

def isSlotInUse (a : StackAllocator) (slot : Int) : Bool :=
  if slot < 0 ∨ slot ≥ maxStackSlots then false else a.slotInUse slot.toNat

end StackAllocator

namespace Scheduler

def setState (s : Scheduler) (i : Nat) (state : ThreadState) : Scheduler :=
  s.setTcb i { s.tcbPool i with state := state }

/-- The flag says whether the idle thread got its stack. -/
def init (kernelStackBottom kernelStackTop : Nat) (m : Machine) :
    Option (Bool × Scheduler × Machine) := do
  let bootstrap : ThreadControlBlock :=
    { id := 1
      name := strncpy (literal "bootstrap") threadNameMaxLen
      state := .running
      isBootstrap := true
      active := true
      stack :=
        { usableBytes := 65536, stackBottom := kernelStackBottom, stackTop := kernelStackTop } }
  let idle : ThreadControlBlock :=
    { id := 2, name := strncpy (literal "idle") threadNameMaxLen, state := .idle, isIdle := true,
      active := true }
  let s : Scheduler :=
    { stackAllocator := .init, current := some 0, bootstrapThread := some 0, totalThreads := 1,
      activeThreads := 1 }
  let s := (s.setTcb 0 bootstrap).setTcb 1 idle
  match ← s.stackAllocator.allocateStack m with
  | (none, m) => return (false, s, m)
  | (some (stack, allocator), m) =>
    return (true,
      { s with
        stackAllocator := allocator
        idleThread := some 1
        totalThreads := s.totalThreads + 1
        activeThreads := s.activeThreads + 1
        stackPagesAllocated := s.stackPagesAllocated + stackUsablePages
        nextId := 3 }.setTcb 1 { idle with stack := stack }, m)

def start (s : Scheduler) : Scheduler := { s with running := true }

/-- The body of the loop of `reclaim_deferred_stacks`. -/
def reclaimThread (s : Scheduler) (i : Nat) (m : Machine) : Option (Scheduler × Machine) :=
  let t := s.tcbPool i
  if t.active = true ∧ t.state = .terminated ∧ s.current ≠ some i ∧ 0 ≤ t.stack.slotIndex then do
    let (_, allocator, m) ← s.stackAllocator.freeStack t.stack m
    return ({ s with
      stackAllocator := allocator
      stackPagesReclaimed := s.stackPagesReclaimed + stackUsablePages
      terminatedThreads := s.terminatedThreads + 1
      activeThreads := s.activeThreads - 1 }.setTcb i { t with stack := {}, active := false }, m)
  else some (s, m)

def reclaimDeferredStacks (s : Scheduler) (m : Machine) : Option (Scheduler × Machine) :=
  (List.range maxThreads).foldlM (fun r i => r.1.reclaimThread i r.2) (s, m)

def switchTo (s : Scheduler) (next : Nat) (m : Machine) : Scheduler × Machine :=
  let t := s.tcbPool next
  let targetCr3 := if t.cr3 ≠ 0 then t.cr3 else m.vmm.rootPml4Paddr
  ({ s with
    current := some next
    rsp0 := if t.stack.stackTop ≠ 0 then t.stack.stackTop else s.rsp0
    inScheduler := false }.setTcb next { t with state := .running, ticksConsumed := 0 },
    if targetCr3 ≠ 0 then { m with cr3 := targetCr3 } else m)

/-- What `schedule` does with the thread it takes the processor from. -/
def putBack (s : Scheduler) (cur : Nat) : Scheduler :=
  if (s.tcbPool cur).state ≠ .running then s
  else if (s.tcbPool cur).isIdle then s.setState cur .idle
  else
    let s := s.setState cur .ready
    { s with readyQueue := (s.readyQueue.enqueue cur .ready).getD s.readyQueue }

def schedule (s : Scheduler) (m : Machine) : Option (Scheduler × Machine) :=
  if !s.running || s.inScheduler then some (s, m)
  else do
    let (s, m) ← { s with inScheduler := true }.reclaimDeferredStacks m
    let (ready, queue) := s.readyQueue.dequeue
    let s := { s with readyQueue := queue }
    -- without a current thread the switch stores the old context through a null pointer
    let cur ← s.current
    if ready = none ∧ ((s.tcbPool cur).state = .running ∨ (s.tcbPool cur).state = .ready) then
      return ({ s.setState cur .running with inScheduler := false }, m)
    let next ← ready <|> s.idleThread
    if cur = next then return ({ s.setState cur .running with inScheduler := false }, m)
    return (s.putBack cur).switchTo next m

def exit (s : Scheduler) (m : Machine) : Option (Scheduler × Machine) := do
  let cur ← s.current
  let (s, m) ← { s.setState cur .terminated with inScheduler := true }.reclaimDeferredStacks m
  let (ready, queue) := s.readyQueue.dequeue
  let next ← ready <|> s.idleThread
  return { s with readyQueue := queue }.switchTo next m

/-- The counter of voluntary yields is left out. -/
def yield (s : Scheduler) (m : Machine) : Option (Scheduler × Machine) := s.schedule m

/-- No thread stands for the current one. -/
def block (s : Scheduler) (thread : Option Nat) (m : Machine) : Option (Scheduler × Machine) :=
  match thread <|> s.current with
  | none => some (s, m)
  | some target =>
    if s.current = some target then (s.setState target .blocked).schedule m
    else
      some ({ s with readyQueue := (s.readyQueue.remove target).getD s.readyQueue }.setState
        target .blocked, m)

def unblock (s : Scheduler) (thread : Nat) : Scheduler :=
  if (s.tcbPool thread).state = .blocked then
    let s := s.setState thread .ready
    { s with readyQueue := (s.readyQueue.enqueue thread .ready).getD s.readyQueue }
  else s

/-- The counter of the current thread after this tick. -/
def ticked (t : ThreadControlBlock) : ThreadControlBlock :=
  { t with ticksConsumed := (t.ticksConsumed + 1) % 2 ^ 64 }

/-- The tick takes the processor from the thread. -/
def Expires (s : Scheduler) (cur : Nat) : Prop :=
  (ticked (s.tcbPool cur)).ticksConsumed ≥ (s.tcbPool cur).timesliceTicks ∨
    (s.tcbPool cur).isIdle = true ∧ s.readyQueue.count ≠ 0

instance (s : Scheduler) (cur : Nat) : Decidable (s.Expires cur) :=
  inferInstanceAs (Decidable (_ ∨ _))

def onTimerTick (s : Scheduler) (m : Machine) : Option (Scheduler × Machine) :=
  if !s.running || s.inScheduler then some (s, m)
  else
    match s.current with
    | none => some (s, m)
    | some cur =>
      let s' := s.setTcb cur (ticked (s.tcbPool cur))
      if s.Expires cur then s'.schedule m else some (s', m)

def verifyThread (s : Scheduler) (i : Nat) : Bool :=
  let t := s.tcbPool i
  !t.active ||
    (!(t.state == .terminated || t.state == .blocked) || !s.readyQueue.contains i) &&
    (!(t.state == .ready && !t.isIdle) || s.readyQueue.contains i) &&
    !(t.state == .terminated && s.current == some i) &&
    (decide (t.stack.slotIndex < 0) ||
      decide (t.stack.slotIndex < maxStackSlots) &&
        s.stackAllocator.isSlotInUse t.stack.slotIndex &&
        (List.range' (i + 1) (maxThreads - (i + 1))).all fun j =>
          !((s.tcbPool j).active && decide (0 ≤ (s.tcbPool j).stack.slotIndex) &&
            (s.tcbPool j).stack.slotIndex == t.stack.slotIndex))

def verifyInvariants (s : Scheduler) : Bool :=
  match s.current, s.idleThread, s.bootstrapThread with
  | some cur, some idle, some bootstrap =>
    (s.tcbPool cur).active && (s.tcbPool cur).state == .running &&
      ((List.range maxThreads).countP fun i =>
        (s.tcbPool i).active && (s.tcbPool i).state == .running) == 1 &&
      !s.readyQueue.contains cur &&
      ((s.tcbPool idle).active && (s.tcbPool bootstrap).active) &&
      ((s.tcbPool idle).isIdle && (s.tcbPool bootstrap).isBootstrap) &&
      (s.tcbPool idle).state != .terminated &&
      !s.readyQueue.contains idle &&
      s.readyQueue.verifyInvariants (fun i => (s.tcbPool i).state)
        (fun i => (s.tcbPool i).isIdle) &&
      (List.range maxThreads).all s.verifyThread &&
      (decide ((s.tcbPool cur).stack.slotIndex < 0) ||
        s.stackAllocator.isSlotInUse (s.tcbPool cur).stack.slotIndex)
  | _, _, _ => false

end Scheduler

end LlamaOS.Threading
