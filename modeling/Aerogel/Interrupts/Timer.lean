import Aerogel.Foundations.Run
import Aerogel.Scheduler.SchedSpec

/-! # The timer interrupt: `isr.c`, `pit.c` and `kmain.c`

`kmain` registers its own handler for the timer's vector 32, which calls `sched_tick`, and then calls
`pit_init`, which registers another one for the same vector. The table has one entry per vector, so in
every run after that a timer interrupt counts the tick and does nothing else (`TimerInv.dispatch`). -/

namespace Aerogel

/-- The handlers the kernel registers. -/
inductive Handler
  /-- `pit_handler` of `kmain.c`. -/
  | kmainPit
  /-- `pit_handler` of `pit.c`. -/
  | pit
  /-- `kb_handler`. -/
  | keyboard
  /-- `mouse_handler`. -/
  | mouse
  deriving DecidableEq, Repr

/-- What interrupts can see: the table of `isr.c`, the counters of `pit.c` and the scheduler. -/
structure Kernel where
  /-- `handlers`. -/
  handlers : Nat → Option Handler
  /-- `tick_count`. -/
  tickCount : Nat
  /-- `ticks_per_ms`. -/
  ticksPerMs : Nat
  /-- The scheduler. -/
  sched : Sched

/-! ## The code -/

/-- `isr_init`, without the interrupt controller and the descriptor table. -/
def isrInit (k : Kernel) : Kernel := { k with handlers := fun _ => none }

/-- `isr_register`. -/
def isrRegister (k : Kernel) (num : Nat) (h : Handler) : Kernel :=
  { k with handlers := Function.update k.handlers num (some h) }

/-- `pit_init`, without the ports of the timer. -/
def pitInit (k : Kernel) (hz : Nat) : Kernel :=
  let k := { k with ticksPerMs := hz / 1000 }
  -- 100 Hz is less than one tick in a millisecond
  let k := if k.ticksPerMs = 0 then { k with ticksPerMs := 1 } else k
  isrRegister k 32 .pit

/-- Call a handler. Those of keyboard and mouse only touch their own driver's state. -/
def Handler.run (fuel : Nat) (k : Kernel) : Handler → Except Halt Kernel
  | .kmainPit => (schedTick fuel k.tickCount k.sched).map fun s => { k with sched := s }
  | .pit => .ok { k with tickCount := (k.tickCount + 1) % 2 ^ 64 }
  | .keyboard | .mouse => .ok k

/-- The text with which `isr_dispatch` panics on an exception without a handler. -/
def exceptionText : Target → String
  | .x86 => "Exception #%u: %s  err=%x  eip=%x  cs=%x"
  | .x86_64 => "Exception #%u: %s  err=%x  rip=%x"

/-- `isr_dispatch`. The end-of-interrupt command goes to a port. -/
def isrDispatch (T : Target) (fuel : Nat) (k : Kernel) (num : Nat) : Except Halt Kernel :=
  match k.handlers num with
  | some h => h.run fuel k
  | none => if num < 32 then .error (.panic (exceptionText T) num) else .ok k

/-- The static variables before `kmain`. -/
def Kernel.static : Kernel where
  handlers := fun _ => none
  tickCount := 0
  ticksPerMs := 0
  sched := .static

/-- The interrupt part of `kmain`: `isr_init(); isr_register(32, pit_handler); pit_init(100);`. -/
def kmainInterrupts : Kernel :=
  pitInit (isrRegister (isrInit .static) 32 .kmainPit) 100

/-! ## Runs after initialisation -/

/-- What happens from then on: the rest of `kmain`'s initialisation, calls of threads, interrupts. -/
inductive KernelOp
  | keyboardInit
  | mouseInit
  | schedInit
  | create (addr : Nat)
  | add (t : ThreadPtr)
  | yield
  | sleep (ms : Nat)
  | exit
  | wake (t : ThreadPtr)
  | interrupt (num : Nat)
  deriving DecidableEq, Repr

/-- Perform the operation. -/
def KernelOp.exec (T : Target) (fuel : Nat) (k : Kernel) : KernelOp → Except Halt Kernel
  | .keyboardInit => .ok (isrRegister k 33 .keyboard)
  | .mouseInit => .ok (isrRegister k 44 .mouse)
  | .schedInit => .ok { k with sched := Aerogel.schedInit k.sched }
  | .create addr => .ok { k with sched := threadCreate k.sched addr }
  | .add t => .ok { k with sched := schedAdd k.sched t }
  | .yield => .ok { k with sched := schedYield k.sched }
  | .sleep ms => .ok { k with sched := schedSleep k.sched ms k.tickCount }
  | .exit => .ok { k with sched := threadExit k.sched }
  | .wake t => .ok { k with sched := schedWake k.sched t }
  | .interrupt num => isrDispatch T fuel k num

/-- One step: an operation that returns. -/
def KernelStep (T : Target) (k : Kernel) (op : KernelOp) (k' : Kernel) : Prop :=
  ∃ fuel, op.exec T fuel k = .ok k'

/-! ## What the timer is for -/

/-- What a timer interrupt should do: count the tick, charge the current thread's quantum, and hand the
processor to another thread when the quantum is used up and somebody waits. -/
structure TimerDrives (k k' : Kernel) : Prop where
  /-- The tick is counted. -/
  counted : k'.tickCount = (k.tickCount + 1) % 2 ^ 64
  /-- The current thread is charged as `sched_tick` does it, unless it has lost the processor. -/
  charged : ∀ cur, k.sched.currentThread = some cur →
    ((chargeQuantum k.sched cur).tcb cur).quantumRemaining ≠ 0 ∨ k.sched.runQueueHead = none →
      (k'.sched.tcb cur).quantumRemaining =
          ((chargeQuantum k.sched cur).tcb cur).quantumRemaining ∧
        k'.sched.needResched = (chargeQuantum k.sched cur).needResched
  /-- A used-up quantum costs the processor if somebody waits. -/
  preempted : ∀ cur, k.sched.currentThread = some cur →
    ((chargeQuantum k.sched cur).tcb cur).quantumRemaining = 0 → k.sched.runQueueHead ≠ none →
      k'.sched.currentThread ≠ some cur

/-- The current thread's quantum is full. -/
def FullQuantum (s : Sched) : Prop :=
  ∀ cur, s.currentThread = some cur → (s.tcb cur).quantumRemaining = schedQuantumTicks

/-- What holds in every run: `pit_init` has taken the vector, and nobody is ever charged. -/
structure TimerInv (k : Kernel) : Prop where
  /-- The timer's vector belongs to `pit.c`. -/
  vector : k.handlers 32 = some .pit
  /-- The handler of `kmain.c` is not registered any more. -/
  replaced : ∀ num, k.handlers num ≠ some .kmainPit
  /-- The current thread's quantum is full. -/
  full : FullQuantum k.sched

/-! ## Quanta stay full -/

variable {s s' : Sched} {k k' : Kernel} {T : Target}

namespace FullQuantum

/-- Only the current thread and the quanta matter. -/
theorem congr (h : FullQuantum s) (hcur : s'.currentThread = s.currentThread)
    (hq : ∀ x, (s'.info x).quantumRemaining = (s.info x).quantumRemaining) : FullQuantum s' :=
  fun cur hc => (hq cur).trans (h cur (hcur ▸ hc))

/-- Changing a record without touching its quantum. -/
theorem modify (h : FullQuantum s) (t : ThreadPtr) {f : Thread → Thread}
    (hf : ∀ r : Thread, (f r).quantumRemaining = r.quantumRemaining) :
    FullQuantum (s.modify t f) := by
  refine h.congr rfl fun x => ?_
  rw [Sched.info_modify]
  by_cases hx : x = t
  · rw [if_pos hx, hx]
    exact hf _
  · rw [if_neg hx]

/-- `enqueue` does not touch quanta. -/
theorem enqueue (h : FullQuantum s) (t : ThreadPtr) : FullQuantum (Aerogel.enqueue s t) := by
  refine h.congr (enqueue_currentThread s t) fun x => ?_
  rw [info_enqueue]
  by_cases hx : x = t
  · rw [if_pos hx, hx]
    rfl
  · rw [if_neg hx]

/-- `sched_yield` hands the next thread a full quantum. -/
theorem yield (h : FullQuantum s) : FullQuantum (schedYield s) := by
  have hcur := dequeueNext_currentThread s
  have hinfo := info_dequeueNext s
  unfold schedYield
  rcases hdeq : dequeueNext s with ⟨next, s₁⟩
  rw [hdeq] at hcur hinfo
  cases next with
  | none => exact h.congr hcur fun x => congrArg Thread.quantumRemaining (hinfo x)
  | some next =>
      cases hc : s₁.currentThread with
      | none => exact fun cur hcur' => by simp [hc] at hcur'
      | some cur =>
          simp only [hc]
          -- the next thread's quantum is the last thing set
          rintro _ ⟨⟩
          simp only [Sched.modify_tcb, if_true, Thread.setQuantum]

/-- `sched_sleep` switches to a thread with a full quantum, or stays. -/
theorem sleep (h : FullQuantum s) (ms now : Nat) : FullQuantum (schedSleep s ms now) := by
  unfold schedSleep
  cases s.currentThread with
  | none => exact h
  | some cur =>
      have hasleep := (h.modify cur (f := .setState .sleeping) fun _ => rfl).modify cur
        (f := .setWakeTick ((now + ms / 10) % 2 ^ 64)) fun _ => rfl
      refine (hasleep.congr (schedRemove_currentThread _ cur) fun x => ?_).yield
      rw [info_schedRemove]

/-- The number of threads does not matter. -/
theorem withNthreads (h : FullQuantum s) (n : Nat) : FullQuantum { s with nthreads := n } := h

/-- `thread_exit` switches to a thread with a full quantum, or stays. -/
theorem exit (h : FullQuantum s) : FullQuantum (threadExit s) := by
  unfold threadExit
  cases s.currentThread with
  | none => exact h
  | some cur =>
      exact ((h.modify cur (f := .setState .zombie) fun _ => rfl).withNthreads _).yield

/-- `sched_wake` does not touch quanta. -/
theorem wake (h : FullQuantum s) (t : ThreadPtr) : FullQuantum (schedWake s t) := by
  unfold schedWake
  split
  · exact (h.modify t (f := .setState .ready) fun _ => rfl).enqueue t
  · exact h

/-- `sched_init` starts the idle thread with a full quantum. -/
theorem init (s : Sched) : FullQuantum (schedInit s) := by
  rintro _ ⟨⟩
  simp only [schedInit, threadInitIdle, Function.update_self]

/-- `thread_create` gives the new thread a full quantum. -/
theorem create (h : FullQuantum s) (addr : Nat) : FullQuantum (threadCreate s addr) := by
  intro cur hcur
  simp only [threadCreate]
  by_cases hc : cur = .heap addr
  · rw [hc, Function.update_self]
  · rw [Function.update_of_ne hc]
    exact h cur hcur

end FullQuantum

/-! ## Timer interrupts -/

namespace TimerInv

/-- The invariant holds when `pit_init` has returned. -/
theorem boot : TimerInv kmainInterrupts where
  vector := rfl
  replaced := by
    intro num
    simp only [kmainInterrupts, pitInit, isrRegister, isrInit]
    by_cases hnum : num = 32
    · rw [hnum]
      decide
    · simp [hnum]
  full := by
    intro cur hcur
    cases hcur

/-- `isr_dispatch` of the timer's vector counts the tick and does nothing else. -/
theorem dispatch (h : TimerInv k) (fuel : Nat) :
    isrDispatch T fuel k 32 = .ok { k with tickCount := (k.tickCount + 1) % 2 ^ 64 } := by
  simp only [isrDispatch, h.vector, Handler.run]

/-- Registering a device's handler for another vector. -/
theorem register (h : TimerInv k) {num : Nat} (hnum : num ≠ 32) {hd : Handler}
    (hhd : hd ≠ .kmainPit) : TimerInv (isrRegister k num hd) where
  vector := by
    simp only [isrRegister, Function.update_of_ne (Ne.symm hnum), h.vector]
  replaced := by
    intro n
    simp only [isrRegister, Function.update_apply]
    split
    · simpa using hhd
    · exact h.replaced n
  full := h.full

/-- An interrupt does not touch the scheduler. -/
theorem interrupt (h : TimerInv k) {fuel num : Nat} (hrun : isrDispatch T fuel k num = .ok k') :
    TimerInv k' := by
  rw [isrDispatch] at hrun
  cases hhd : k.handlers num with
  | none =>
      rw [hhd] at hrun
      by_cases hnum : num < 32
      · rw [if_pos hnum] at hrun
        cases hrun
      · rw [if_neg hnum] at hrun
        cases hrun
        exact h
  | some hd =>
      rw [hhd] at hrun
      cases hd with
      | kmainPit => exact absurd hhd (h.replaced num)
      | pit =>
          cases hrun
          exact ⟨h.vector, h.replaced, h.full⟩
      | keyboard =>
          cases hrun
          exact h
      | mouse =>
          cases hrun
          exact h

/-- Every step keeps the invariant. -/
theorem step {op : KernelOp} (h : TimerInv k) (hstep : KernelStep T k op k') : TimerInv k' := by
  obtain ⟨fuel, hexec⟩ := hstep
  cases op with
  | keyboardInit =>
      cases hexec
      exact h.register (by decide) (by decide)
  | mouseInit =>
      cases hexec
      exact h.register (by decide) (by decide)
  | schedInit =>
      cases hexec
      exact ⟨h.vector, h.replaced, .init k.sched⟩
  | create addr =>
      cases hexec
      exact ⟨h.vector, h.replaced, h.full.create addr⟩
  | add t =>
      cases hexec
      exact ⟨h.vector, h.replaced, h.full.enqueue t⟩
  | yield =>
      cases hexec
      exact ⟨h.vector, h.replaced, h.full.yield⟩
  | sleep ms =>
      cases hexec
      exact ⟨h.vector, h.replaced, h.full.sleep ms k.tickCount⟩
  | exit =>
      cases hexec
      exact ⟨h.vector, h.replaced, h.full.exit⟩
  | wake t =>
      cases hexec
      exact ⟨h.vector, h.replaced, h.full.wake t⟩
  | interrupt num => exact h.interrupt hexec

end TimerInv

/-- With a full quantum and a current thread, counting the tick is not enough. -/
theorem TimerInv.drives_iff (h : TimerInv k) :
    TimerDrives k { k with tickCount := (k.tickCount + 1) % 2 ^ 64 } ↔
      k.sched.currentThread = none := by
  constructor
  · intro hd
    cases hcur : k.sched.currentThread with
    | none => rfl
    | some cur =>
        have hfull := h.full cur hcur
        -- `sched_tick` would have taken one tick off the full quantum
        have hcharged : ((chargeQuantum k.sched cur).tcb cur).quantumRemaining =
            schedQuantumTicks - 1 := by
          simp [chargeQuantum, hfull, Thread.setQuantum, schedQuantumTicks]
        have := (hd.charged cur hcur (Or.inl (by rw [hcharged]; decide))).1
        rw [hcharged] at this
        exact absurd (hfull.symm.trans this) (by decide)
  · intro hnone
    refine ⟨rfl, fun cur hcur => ?_, fun cur hcur => ?_⟩
    · rw [hnone] at hcur
      cases hcur
    · rw [hnone] at hcur
      cases hcur

/-- In every state of every run after `pit_init` a timer interrupt returns, and it drives the scheduler
exactly while there is no current thread, that is, before `sched_init`. -/
theorem timerDrives_iff (T : Target) (k : Kernel) (h : Reachable (KernelStep T) kmainInterrupts k) :
    (∃ fuel k', isrDispatch T fuel k 32 = .ok k') ∧
      ∀ fuel k', isrDispatch T fuel k 32 = .ok k' →
        (TimerDrives k k' ↔ k.sched.currentThread = none) := by
  have hinv : TimerInv k := h.invariant (fun _ _ _ hk hstep => hk.step hstep) .boot
  refine ⟨⟨0, _, hinv.dispatch 0⟩, fun fuel k' hrun => ?_⟩
  rw [hinv.dispatch fuel] at hrun
  cases hrun
  exact hinv.drives_iff

/-- Before `sched_init` there is nothing to schedule. -/
theorem timerDrives_beforeSchedInit :
    ∃ fuel k', isrDispatch .x86 fuel kmainInterrupts 32 = .ok k' ∧ TimerDrives kmainInterrupts k' := by
  obtain ⟨⟨fuel, k', hrun⟩, hiff⟩ := timerDrives_iff .x86 kmainInterrupts (.refl _)
  exact ⟨fuel, k', hrun, (hiff fuel k' hrun).mpr rfl⟩

/-- The shell is started the way `kmain` does it, and the next timer interrupt does not charge it. -/
theorem shell_not_charged :
    ∃ k, Run (KernelStep .x86) kmainInterrupts
        [.keyboardInit, .mouseInit, .schedInit, .create 16, .add (.heap 16), .yield] k ∧
      ∃ fuel k', isrDispatch .x86 fuel k 32 = .ok k' ∧ ¬ TimerDrives k k' := by
  let s := schedYield (schedAdd (threadCreate (schedInit .static) 16) (.heap 16))
  let k : Kernel :=
    { isrRegister (isrRegister kmainInterrupts 33 .keyboard) 44 .mouse with sched := s }
  have hrun : Run (KernelStep .x86) kmainInterrupts
      [.keyboardInit, .mouseInit, .schedInit, .create 16, .add (.heap 16), .yield] k :=
    .cons ⟨0, rfl⟩ (.cons ⟨0, rfl⟩ (.cons ⟨0, rfl⟩ (.cons ⟨0, rfl⟩ (.cons ⟨0, rfl⟩
      (.single ⟨0, rfl⟩)))))
  have hinv : TimerInv k := hrun.invariant (fun _ _ _ hk hstep => hk.step hstep) .boot
  have hcur : k.sched.currentThread = some (.heap 16) := by decide
  refine ⟨k, hrun, 0, _, hinv.dispatch 0, fun hd => ?_⟩
  rw [hinv.drives_iff.mp hd] at hcur
  cases hcur

end Aerogel
