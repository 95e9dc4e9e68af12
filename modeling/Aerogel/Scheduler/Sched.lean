import Aerogel.Foundations.Word
import Aerogel.Machine
import Mathlib.Logic.Function.Basic

/-! # Threads and the scheduler: `thread.c` and `sched.c`

The run queue is a circular doubly linked list through the thread records themselves, entered at
`run_queue_head`. The current thread is not in it while it runs. Pointers to thread records are
`ThreadPtr`, a null pointer is `none`; a store through a null pointer is skipped, which the ring
invariant shows never to happen. A thread's name, stack and saved stack pointer are left out:
nothing here depends on them. `pit_ticks()` is an argument, `now`. -/

namespace Aerogel

/-- `thread_state_t`. -/
inductive ThreadState
  | ready | running | blocked | sleeping | zombie
  deriving DecidableEq, Repr

/-- The address of a thread record: the static `idle_tcb`, or memory from `kmalloc`. -/
inductive ThreadPtr
  | idleTcb
  | heap (addr : Nat)
  deriving DecidableEq, Repr

/-- `thread_t`. -/
structure Thread where
  /-- `id`. -/
  id : Nat
  /-- `state`. -/
  state : ThreadState
  /-- `wake_tick`. -/
  wakeTick : Nat
  /-- `quantum_remaining`. -/
  quantumRemaining : Nat
  /-- `next`. -/
  next : Option ThreadPtr
  /-- `prev`. -/
  prev : Option ThreadPtr
  deriving DecidableEq, Repr

/-- A record filled with zero bytes; `THREAD_READY` is 0. -/
def Thread.zero : Thread :=
  { id := 0, state := .ready, wakeTick := 0, quantumRemaining := 0, next := none, prev := none }

namespace Thread

/-- `t->state = v`. -/
def setState (v : ThreadState) (t : Thread) : Thread := { t with state := v }

/-- `t->wake_tick = v`. -/
def setWakeTick (v : Nat) (t : Thread) : Thread := { t with wakeTick := v }

/-- `t->quantum_remaining = v`. -/
def setQuantum (v : Nat) (t : Thread) : Thread := { t with quantumRemaining := v }

/-- `t->next = v`. -/
def setNext (v : Option ThreadPtr) (t : Thread) : Thread := { t with next := v }

/-- `t->prev = v`. -/
def setPrev (v : Option ThreadPtr) (t : Thread) : Thread := { t with prev := v }

end Thread

/-- `SCHED_QUANTUM_TICKS`. -/
def schedQuantumTicks : Nat := 10

/-- The thread records and the static variables of `thread.c` and `sched.c`. -/
structure Sched where
  /-- The thread records. -/
  tcb : ThreadPtr → Thread
  /-- `run_queue_head`. -/
  runQueueHead : Option ThreadPtr
  /-- `need_resched`. -/
  needResched : Bool
  /-- `current_thread`. -/
  currentThread : Option ThreadPtr
  /-- `next_id`. -/
  nextId : Nat
  /-- `nthreads`. -/
  nthreads : Nat

namespace Sched

/-- Change the record at `t`. -/
def modify (s : Sched) (t : ThreadPtr) (f : Thread → Thread) : Sched :=
  { s with tcb := Function.update s.tcb t (f (s.tcb t)) }

/-- Change the record behind a pointer that may be null. -/
def modifyAt (s : Sched) (p : Option ThreadPtr) (f : Thread → Thread) : Sched :=
  match p with
  | none => s
  | some t => s.modify t f

/-- `t->state`. -/
def state (s : Sched) (t : ThreadPtr) : ThreadState := (s.tcb t).state

end Sched

/-! ## The run queue -/

/-- `enqueue`. -/
def enqueue (s : Sched) (t : ThreadPtr) : Sched :=
  let s := s.modify t (.setState .ready)
  match s.runQueueHead with
  | none =>
    let s := { s with runQueueHead := some t }
    let s := s.modify t (.setPrev (some t))
    s.modify t (.setNext (some t))
  | some h =>
    let s := s.modify t (.setPrev (s.tcb h).prev)
    let s := s.modify t (.setNext (some h))
    -- `h->prev` is the last thread of the ring
    let s := s.modifyAt (s.tcb h).prev (.setNext (some t))
    s.modify h (.setPrev (some t))

/-- `t->prev->next = t->next; t->next->prev = t->prev;`. -/
def bypass (s : Sched) (t : ThreadPtr) : Sched :=
  let s := s.modifyAt (s.tcb t).prev (.setNext (s.tcb t).next)
  s.modifyAt (s.tcb t).next (.setPrev (s.tcb t).prev)

/-- `t->next = t->prev = NULL;`. -/
def detach (s : Sched) (t : ThreadPtr) : Sched :=
  (s.modify t (.setPrev none)).modify t (.setNext none)

/-- `dequeue_next`: the thread taken out, if any, and the state afterwards. -/
def dequeueNext (s : Sched) : Option ThreadPtr × Sched :=
  match s.runQueueHead with
  | none => (none, s)
  | some t =>
    if (s.tcb t).next = some t then (some t, detach { s with runQueueHead := none } t)
    else (some t, detach (bypass { s with runQueueHead := (s.tcb t).next } t) t)

/-- `sched_remove`. -/
def schedRemove (s : Sched) (t : ThreadPtr) : Sched :=
  if (s.tcb t).next = none then s
  else if (s.tcb t).next = some t then detach { s with runQueueHead := none } t
  else
    -- removing the head moves the entry of the ring on
    let s := if s.runQueueHead = some t then { s with runQueueHead := (s.tcb t).next } else s
    detach (bypass s t) t

/-- `sched_add`. -/
def schedAdd (s : Sched) (t : ThreadPtr) : Sched := enqueue s t

/-! ## Switching -/

/-- `sched_yield`. After `switch_context` it is `next` that executes. -/
def schedYield (s : Sched) : Sched :=
  match dequeueNext s with
  | (none, s) => { s with needResched := false }
  | (some next, s) =>
    match s.currentThread with
    | none => s
    | some cur =>
      -- a caller that sleeps or has exited is not put back
      let s := if s.state cur = .running then enqueue (s.modify cur (.setState .ready)) cur else s
      let s := s.modify cur (.setQuantum schedQuantumTicks)
      let s := s.modify next (.setState .running)
      let s := s.modify next (.setQuantum schedQuantumTicks)
      { s with needResched := false, currentThread := some next }

/-- `sched_sleep`. -/
def schedSleep (s : Sched) (ms now : Nat) : Sched :=
  match s.currentThread with
  | none => s
  | some cur =>
    let s := s.modify cur (.setState .sleeping)
    let s := s.modify cur (.setWakeTick ((now + ms / 10) % 2 ^ 64))
    schedYield (schedRemove s cur)

/-- `sched_wake`. -/
def schedWake (s : Sched) (t : ThreadPtr) : Sched :=
  if s.state t = .sleeping ∨ s.state t = .blocked then
    enqueue (s.modify t (.setState .ready)) t
  else s

/-- The loop of `sched_tick` from thread `t` on, until it is back at `start`. -/
def tickScan (now : Nat) (start : ThreadPtr) : Nat → ThreadPtr → Sched → Except Halt Sched
  | 0, _, _ => .error .diverges
  | fuel + 1, t, s =>
    -- a thread is readied where it stands, in the ring
    let s := if s.state t = .sleeping ∧ (s.tcb t).wakeTick ≤ now then
        s.modify t (.setState .ready) else s
    match (s.tcb t).next with
    | none => .ok s
    | some t => if t = start then .ok s else tickScan now start fuel t s

/-- The quantum accounting of `sched_tick` for the current thread. -/
def chargeQuantum (s : Sched) (cur : ThreadPtr) : Sched :=
  let s := if 0 < (s.tcb cur).quantumRemaining then
      s.modify cur (.setQuantum ((s.tcb cur).quantumRemaining - 1)) else s
  if (s.tcb cur).quantumRemaining = 0 then { s with needResched := true } else s

/-- `sched_tick`. -/
def schedTick (fuel now : Nat) (s : Sched) : Except Halt Sched :=
  match s.currentThread with
  | none => .ok s
  | some cur =>
    let s := chargeQuantum s cur
    match s.runQueueHead with
    | none => .ok s
    | some t => tickScan now t fuel t s

/-! ## Threads -/

/-- `thread_init_idle`. -/
def threadInitIdle (s : Sched) : Sched :=
  let idle := { Thread.zero with
    id := s.nextId, state := .running, quantumRemaining := schedQuantumTicks }
  { s with
    tcb := Function.update s.tcb .idleTcb idle
    nextId := (s.nextId + 1) % 2 ^ 32
    currentThread := some .idleTcb
    nthreads := (s.nthreads + 1) % 2 ^ 32 }

/-- `sched_init`. -/
def schedInit (s : Sched) : Sched := threadInitIdle { s with runQueueHead := none }

/-- `thread_create`, with the address `kmalloc` returns for the record. -/
def threadCreate (s : Sched) (addr : Nat) : Sched :=
  let t := { Thread.zero with
    id := s.nextId, state := .ready, quantumRemaining := schedQuantumTicks }
  { s with
    tcb := Function.update s.tcb (.heap addr) t
    nextId := (s.nextId + 1) % 2 ^ 32
    nthreads := (s.nthreads + 1) % 2 ^ 32 }

/-- `thread_exit`; the caller does not come back from its last switch. -/
def threadExit (s : Sched) : Sched :=
  match s.currentThread with
  | none => s
  | some t =>
    let s := s.modify t (.setState .zombie)
    schedYield { s with nthreads := wsub 32 s.nthreads 1 }

/-- The static variables before `sched_init`. -/
def Sched.static : Sched where
  tcb := fun _ => Thread.zero
  runQueueHead := none
  needResched := false
  currentThread := none
  nextId := 0
  nthreads := 0

end Aerogel
