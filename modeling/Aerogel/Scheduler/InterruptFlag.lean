import Aerogel.Scheduler.ContextSwitch
import Aerogel.Scheduler.SchedRuns

/-! # The interrupt flag across switches

`sched_yield` clears the interrupt flag and sets it again at its end, but `switch_context` does not
save the flag: whoever the switch lands in has to set it. A thread that was suspended in `sched_yield`
does; one that is entered for the first time goes from `thread_trampoline` into its own code with the
flag clear. `interrupts_iff` says for every run in which of the two the last switch was. -/

namespace Aerogel

/-! ## The model -/

/-- Where `switch_context` returns to in a thread. -/
inductive ResumePoint
  /-- `thread_trampoline`, as `thread_create` has it. -/
  | trampoline
  /-- The end of `sched_yield`, behind the call of `switch_context`. -/
  | afterSwitch
  deriving DecidableEq, Repr

/-- The scheduler with the processor's interrupt flag. -/
structure FlagRun extends SchedRun where
  /-- The return address in the frame that each thread has left on its stack. -/
  resume : ThreadPtr → ResumePoint
  /-- The interrupt flag. -/
  interrupts : Bool

namespace FlagRun

/-- `cli`. -/
def cli (r : FlagRun) : FlagRun := { r with interrupts := false }

/-- `sti`. -/
def sti (r : FlagRun) : FlagRun := { r with interrupts := true }

/-- The frame that `switch_context` leaves behind for the current thread. -/
def suspend (r : FlagRun) : FlagRun :=
  match r.sched.currentThread with
  | none => r
  | some cur => { r with resume := Function.update r.resume cur .afterSwitch }

end FlagRun

/-- `sched_yield`, up to where a thread executes its own code again. -/
def schedYieldFlag (r : FlagRun) : FlagRun :=
  let r := r.cli
  match (dequeueNext r.sched).1 with
  | none => { r with sched := schedYield r.sched }.sti
  | some next =>
    -- `next->esp` is an argument of `switch_context`: its frame is the one from before the call
    let entry := r.resume next
    let r := { r with sched := schedYield r.sched, resume := r.suspend.resume }
    match entry with
    -- `thread_trampoline` calls `fn`
    | .trampoline => r
    -- the `sti` at the end of `sched_yield`
    | .afterSwitch => r.sti

/-- The scheduler's state when the current thread's `sched_sleep` calls `sched_yield`. -/
def sleepEntry (s : Sched) (ms now : Nat) : Sched :=
  match s.currentThread with
  | none => s
  | some cur =>
    let s := s.modify cur (.setState .sleeping)
    let s := s.modify cur (.setWakeTick ((now + ms / 10) % 2 ^ 64))
    schedRemove s cur

/-- The scheduler's state when the current thread's `thread_exit` calls `sched_yield`. -/
def exitEntry (s : Sched) : Sched :=
  match s.currentThread with
  | none => s
  | some t =>
    let s := s.modify t (.setState .zombie)
    { s with nthreads := wsub 32 s.nthreads 1 }

/-- A call by the current thread. -/
inductive ThreadCall
  | create (addr : Nat)
  | add (t : ThreadPtr)
  | yield
  | sleep (ms now : Nat)
  | exit
  deriving DecidableEq, Repr

namespace ThreadCall

/-- The call as an operation of the scheduler. -/
def toOp : ThreadCall → SchedOp
  | .create addr => .create addr
  | .add t => .add t
  | .yield => .yield
  | .sleep ms now => .sleep ms now
  | .exit => .exit

/-- Perform the call. -/
def exec (r : FlagRun) : ThreadCall → FlagRun
  | .create addr => { r with
      sched := threadCreate r.sched addr
      created := insert (.heap addr) r.created
      resume := Function.update r.resume (.heap addr) .trampoline }
  | .add t => { r with sched := schedAdd r.sched t, added := insert t r.added }
  | .yield => schedYieldFlag r
  | .sleep ms now => schedYieldFlag { r with sched := sleepEntry r.sched ms now }
  | .exit => schedYieldFlag { r with sched := exitEntry r.sched }

/-- The state in which the call enters `sched_yield`, if it does. -/
def yieldEntry (r : FlagRun) : ThreadCall → Option Sched
  | .create _ | .add _ => none
  | .yield => some r.sched
  | .sleep ms now => some (sleepEntry r.sched ms now)
  | .exit => some (exitEntry r.sched)

/-- The call ends in `sched_yield`. -/
def Yields : ThreadCall → Prop
  | .create _ | .add _ => False
  | .yield | .sleep _ _ | .exit => True

/-- The call switches to a thread that has never run. -/
def EntersFresh (r : FlagRun) (c : ThreadCall) : Prop :=
  ∃ s next, c.yieldEntry r = some s ∧ (dequeueNext s).1 = some next ∧ r.resume next = .trampoline

end ThreadCall

/-- The scheduler after `sched_init`; `kmain` has executed `sti`. -/
def flagBoot : FlagRun :=
  { schedBoot with resume := fun _ => .afterSwitch, interrupts := true }

/-- The run's last `sched_yield` has switched to a thread that had never run. -/
def FirstEntry (r : FlagRun) (calls : List ThreadCall) : Prop :=
  ∃ pre c post, calls = pre ++ c :: post ∧ c.EntersFresh (pre.foldl ThreadCall.exec r) ∧
    ∀ d ∈ post, ¬ d.Yields

/-! ## The layers below -/

variable {r : FlagRun}

/-- Without the flag, `sched_yield` is that of the scheduler. -/
theorem schedYieldFlag_toSchedRun (r : FlagRun) :
    (schedYieldFlag r).toSchedRun = { r.toSchedRun with sched := schedYield r.sched } := by
  unfold schedYieldFlag
  dsimp only
  split
  · rfl
  · split <;> rfl

/-- `sched_sleep` is its first part and then `sched_yield`. -/
theorem schedSleep_eq {s : Sched} {cur : ThreadPtr} (hcur : s.currentThread = some cur)
    (ms now : Nat) : schedSleep s ms now = schedYield (sleepEntry s ms now) := by
  unfold schedSleep sleepEntry
  rw [hcur]

/-- `thread_exit` is its first part and then `sched_yield`. -/
theorem threadExit_eq {s : Sched} {cur : ThreadPtr} (hcur : s.currentThread = some cur) :
    threadExit s = schedYield (exitEntry s) := by
  unfold threadExit exitEntry
  rw [hcur]

/-- Without the flag, a call is the operation of the scheduler. -/
theorem exec_toSchedRun {cur : ThreadPtr} (hcur : r.sched.currentThread = some cur)
    (c : ThreadCall) (fuel : Nat) : c.toOp.exec fuel r.toSchedRun = .ok (c.exec r).toSchedRun := by
  cases c with
  | create addr => rfl
  | add t => rfl
  | yield =>
      change Except.ok _ = Except.ok (schedYieldFlag r).toSchedRun
      rw [schedYieldFlag_toSchedRun]
  | sleep ms now =>
      change Except.ok _ = Except.ok (schedYieldFlag _).toSchedRun
      rw [schedYieldFlag_toSchedRun, schedSleep_eq hcur]
  | exit =>
      change Except.ok _ = Except.ok (schedYieldFlag _).toSchedRun
      rw [schedYieldFlag_toSchedRun, threadExit_eq hcur]

namespace Context

variable {T : Target} {ι : Type} [DecidableEq ι] {P : Places T ι} {K : CodeAddrs T}

/-- The return address in a thread's frame is one of two places. -/
def Ctx.resumePoint : Ctx T → ResumePoint
  | .fresh _ _ => .trampoline
  | .called _ _ _ => .afterSwitch

/-- A switch lands where the frame of the thread says. -/
theorem pc_of_switch {s v : Sys T ι} {i : ι} {d : Ctx T} {pc : Word T} (h : SysInv P K s)
    (hd : s.ctx i = some d) (hstep : SysStep P K s (.switch i pc) v) :
    (d.resumePoint = .trampoline ∧ v.cpu.pc = K.threadTrampoline) ∨
      ∃ regs sp pc', d = .called regs sp pc' ∧ d.resumePoint = .afterSwitch ∧ v.cpu.pc = pc' := by
  have hres := resumed_of_suspended h hd (.nil s) (fun _ hmem => nomatch hmem) hstep
  cases d with
  | fresh fn arg => exact Or.inl ⟨rfl, hres.1⟩
  | called regs sp pc' => exact Or.inr ⟨regs, sp, pc', rfl, rfl, hres.1⟩

end Context

/-! ## The flag -/

/-- `sched_yield` that finds nobody sets the flag before it returns. -/
theorem schedYieldFlag_of_none (h : (dequeueNext r.sched).1 = none) :
    (schedYieldFlag r).interrupts = true := by
  have hcli : (dequeueNext r.cli.sched).1 = none := h
  rw [schedYieldFlag, hcli]
  rfl

/-- `sched_yield` that finds somebody leaves the flag to the thread that goes on. -/
theorem schedYieldFlag_of_some {next : ThreadPtr} (h : (dequeueNext r.sched).1 = some next) :
    (schedYieldFlag r).interrupts = decide (r.resume next = .afterSwitch) := by
  have hcli : (dequeueNext r.cli.sched).1 = some next := h
  have hres : r.cli.resume next = r.resume next := rfl
  rw [schedYieldFlag, hcli]
  dsimp only
  rw [hres]
  cases r.resume next <;> rfl

/-- After `sched_yield` the flag is set unless a thread is entered for the first time. -/
theorem interrupts_schedYieldFlag (r : FlagRun) :
    (schedYieldFlag r).interrupts = true ↔
      ¬ ∃ next, (dequeueNext r.sched).1 = some next ∧ r.resume next = .trampoline := by
  cases hnext : (dequeueNext r.sched).1 with
  | none =>
      refine iff_of_true (schedYieldFlag_of_none hnext) ?_
      rintro ⟨next, heq, -⟩
      cases heq
  | some next =>
      rw [schedYieldFlag_of_some hnext, decide_eq_true_iff]
      constructor
      · rintro hafter ⟨t, heq, htramp⟩
        cases heq
        rw [hafter] at htramp
        cases htramp
      · intro hnot
        cases hres : r.resume next with
        | trampoline => exact absurd ⟨next, rfl, hres⟩ hnot
        | afterSwitch => rfl

namespace ThreadCall

/-- Only calls of `sched_yield` switch. -/
theorem EntersFresh.yields {c : ThreadCall} (h : c.EntersFresh r) : c.Yields := by
  obtain ⟨s, next, hentry, -⟩ := h
  cases c with
  | create addr => cases hentry
  | add t => cases hentry
  | yield => trivial
  | sleep ms now => trivial
  | exit => trivial

/-- A call that yields leaves the flag set unless it enters a thread for the first time. -/
theorem interrupts_of_yields {c : ThreadCall} (h : c.Yields) :
    (c.exec r).interrupts = true ↔ ¬ c.EntersFresh r := by
  have hentry : ∃ s, c.yieldEntry r = some s ∧ c.exec r = schedYieldFlag { r with sched := s } := by
    cases c with
    | create addr => exact h.elim
    | add t => exact h.elim
    | yield => exact ⟨_, rfl, rfl⟩
    | sleep ms now => exact ⟨_, rfl, rfl⟩
    | exit => exact ⟨_, rfl, rfl⟩
  obtain ⟨s, hs, hexec⟩ := hentry
  rw [hexec, interrupts_schedYieldFlag]
  refine not_congr ⟨fun ⟨next, h₁, h₂⟩ => ⟨s, next, hs, h₁, h₂⟩, ?_⟩
  rintro ⟨s', next, hs', h₁, h₂⟩
  obtain rfl : s = s' := Option.some.inj (hs.symm.trans hs')
  exact ⟨next, h₁, h₂⟩

/-- Other calls leave the flag alone. -/
theorem interrupts_of_not_yields {c : ThreadCall} (h : ¬ c.Yields) :
    (c.exec r).interrupts = r.interrupts := by
  cases c with
  | create addr => rfl
  | add t => rfl
  | yield => exact absurd trivial h
  | sleep ms now => exact absurd trivial h
  | exit => exact absurd trivial h

end ThreadCall

/-- The last call decides whether it is a first entry when it yields. -/
theorem firstEntry_concat_of_yields {calls : List ThreadCall} {c : ThreadCall} (h : c.Yields) :
    FirstEntry r (calls ++ [c]) ↔ c.EntersFresh (calls.foldl ThreadCall.exec r) := by
  constructor
  · rintro ⟨pre, d, post, heq, hfresh, hpost⟩
    rcases List.eq_nil_or_concat' post with rfl | ⟨post', e, rfl⟩
    · obtain ⟨rfl, hd⟩ := List.append_inj' heq rfl
      cases hd
      exact hfresh
    · -- the last call would be among those that do not yield
      rw [← List.cons_append, ← List.append_assoc] at heq
      obtain ⟨-, he⟩ := List.append_inj' heq rfl
      cases he
      exact absurd h (hpost c (by simp))
  · exact fun hfresh => ⟨calls, c, [], rfl, hfresh, fun _ hd => nomatch hd⟩

/-- Otherwise the calls before it do. -/
theorem firstEntry_concat_of_not_yields {calls : List ThreadCall} {c : ThreadCall}
    (h : ¬ c.Yields) : FirstEntry r (calls ++ [c]) ↔ FirstEntry r calls := by
  constructor
  · rintro ⟨pre, d, post, heq, hfresh, hpost⟩
    rcases List.eq_nil_or_concat' post with rfl | ⟨post', e, rfl⟩
    · obtain ⟨rfl, hd⟩ := List.append_inj' heq rfl
      cases hd
      exact absurd hfresh.yields h
    · rw [← List.cons_append, ← List.append_assoc] at heq
      obtain ⟨hcalls, -⟩ := List.append_inj' heq rfl
      exact ⟨pre, d, post', hcalls, hfresh, fun x hx => hpost x (List.mem_append_left _ hx)⟩
  · rintro ⟨pre, d, post, rfl, hfresh, hpost⟩
    refine ⟨pre, d, post ++ [c], by simp, hfresh, fun x hx => ?_⟩
    rcases List.mem_append.mp hx with hx | hx
    · exact hpost x hx
    · rw [List.mem_singleton.mp hx]
      exact h

/-- In every state of every run from `kmain` on, interrupts are enabled exactly when the last
`sched_yield`, if there was one, has not entered a thread for the first time. -/
theorem interrupts_iff (calls : List ThreadCall) :
    (calls.foldl ThreadCall.exec flagBoot).interrupts = true ↔ ¬ FirstEntry flagBoot calls := by
  induction calls using List.reverseRecOn with
  | nil =>
      refine iff_of_true rfl ?_
      rintro ⟨pre, c, post, heq, -⟩
      exact absurd heq.symm (List.append_ne_nil_of_right_ne_nil _ (List.cons_ne_nil _ _))
  | append_singleton calls c ih =>
      rw [List.foldl_append, List.foldl_cons, List.foldl_nil]
      by_cases hc : c.Yields
      · rw [ThreadCall.interrupts_of_yields hc, firstEntry_concat_of_yields hc]
      · rw [ThreadCall.interrupts_of_not_yields hc, firstEntry_concat_of_not_yields hc]
        exact ih

/-- The first thread that `kmain` starts is entered with interrupts disabled. -/
theorem interrupts_disabled_in_first_thread :
    let r := [ThreadCall.create 0x1000, .add (.heap 0x1000), .yield].foldl ThreadCall.exec flagBoot
    r.sched.currentThread = some (.heap 0x1000) ∧ r.interrupts = false :=
  ⟨rfl, rfl⟩

end Aerogel
