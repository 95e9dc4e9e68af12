import Aerogel.Scheduler.InterruptFlag
import Aerogel.Scheduler.Refinement

/-! # When `sched_sleep` returns

`sched_sleep` marks its caller as sleeping, takes it out of the ring and yields. When there is nobody to
yield to, `sched_yield` returns without looking at the caller's state: the caller goes on, marked as
sleeping, and a later `sched_wake` puts it into the ring while it runs. Here the scheduler also notes
which threads are inside `sched_sleep` and whether they have been woken since; `sleepBlocks_iff` says that
in a run every sleeper that comes back has been woken and runs, and no thread is switched to itself,
exactly when every call of `sched_sleep` has found another thread in the ring. -/

namespace Aerogel

/-! ## The model -/

/-- The scheduler with a note of its sleepers. -/
structure SleepRun extends SchedRun where
  /-- The threads inside `sched_sleep`. -/
  asleep : ThreadPtr → Bool
  /-- The threads that have been made ready since they called `sched_sleep` last. -/
  woken : ThreadPtr → Bool

/-- What can be seen of a call. -/
inductive SleepEvent
  /-- `switch_context` is called for the two threads. -/
  | switch (cur next : ThreadPtr)
  /-- `sched_sleep` returns to its caller: whether that was woken since the call, and its state. -/
  | returns (t : ThreadPtr) (woken : Bool) (state : ThreadState)
  deriving DecidableEq, Repr

/-- A sleeper comes back only when it was woken and runs, and a switch is to another thread. -/
def SleepEvent.Ok : SleepEvent → Prop
  | .switch cur next => next ≠ cur
  | .returns _ woken state => woken = true ∧ state = .running

instance (e : SleepEvent) : Decidable e.Ok :=
  match e with
  | .switch cur next => inferInstanceAs (Decidable (next ≠ cur))
  | .returns _ woken state => inferInstanceAs (Decidable (woken = true ∧ state = .running))

/-- `sched_yield`, up to where a thread executes its own code again. If that thread was inside
`sched_sleep`, its call returns. -/
def schedYieldSleep (r : SleepRun) : SleepRun × List SleepEvent :=
  let switches := match (dequeueNext r.sched).1, r.sched.currentThread with
    | some next, some cur => [.switch cur next]
    | _, _ => []
  let s := schedYield r.sched
  match s.currentThread with
  | none => ({ r with sched := s }, switches)
  | some t =>
    if r.asleep t then
      ({ r with sched := s, asleep := Function.update r.asleep t false },
        switches ++ [.returns t (r.woken t) (s.state t)])
    else ({ r with sched := s }, switches)

/-- The current thread enters `sched_sleep`. -/
def SleepRun.fallAsleep (r : SleepRun) (ms now : Nat) : SleepRun :=
  match r.sched.currentThread with
  | none => r
  | some cur => { r with
      sched := sleepEntry r.sched ms now
      asleep := Function.update r.asleep cur true
      woken := Function.update r.woken cur false }

/-- The scheduler has moved on. -/
def SleepRun.moveTo (r : SleepRun) (r' : SchedRun) : SleepRun :=
  { r' with asleep := r.asleep, woken := r.woken }

/-- The scheduler has moved on, and threads that it has made ready have been woken. -/
def SleepRun.wakeTo (r : SleepRun) (r' : SchedRun) : SleepRun :=
  { r' with
    asleep := r.asleep
    woken := fun t => r.woken t || (r.sched.state t ≠ .ready && r'.sched.state t = .ready) }

/-- Perform an operation. -/
def SchedOp.execSleep (fuel : Nat) (r : SleepRun) : SchedOp → Except Halt (SleepRun × List SleepEvent)
  | .yield => .ok (schedYieldSleep r)
  | .sleep ms now => .ok (schedYieldSleep (r.fallAsleep ms now))
  | .exit => .ok (schedYieldSleep { r with sched := exitEntry r.sched })
  | .wake t => (SchedOp.exec fuel r.toSchedRun (.wake t)).map fun r' => (r.wakeTo r', [])
  | .tick now => (SchedOp.exec fuel r.toSchedRun (.tick now)).map fun r' => (r.wakeTo r', [])
  | .create addr => (SchedOp.exec fuel r.toSchedRun (.create addr)).map fun r' => (r.moveTo r', [])
  | .add t => (SchedOp.exec fuel r.toSchedRun (.add t)).map fun r' => (r.moveTo r', [])

/-- One step: an allowed operation that returns, with what can be seen of it. -/
def SleepStep (r : SleepRun) (a : SchedOp × List SleepEvent) (r' : SleepRun) : Prop :=
  a.1.Allowed r.toSchedRun ∧ ∃ fuel, a.1.execSleep fuel r = .ok (r', a.2)

/-- The state after `sched_init`. -/
def sleepBoot : SleepRun := { schedBoot with asleep := fun _ => false, woken := fun _ => false }

/-- A call of `sched_sleep` finds a thread in the ring. -/
def SchedOp.SleepFinds (s : Sched) : SchedOp → Prop
  | .sleep _ _ => s.runQueueHead ≠ none
  | _ => True

instance (s : Sched) (op : SchedOp) : Decidable (op.SleepFinds s) :=
  match op with
  | .sleep _ _ => inferInstanceAs (Decidable (s.runQueueHead ≠ none))
  | .create _ | .add _ | .yield | .exit | .wake _ | .tick _ => inferInstanceAs (Decidable True)

/-- A step in which `sched_sleep` finds a thread in the ring. -/
def FindsStep (r : SleepRun) (a : SchedOp × List SleepEvent) (r' : SleepRun) : Prop :=
  SleepStep r a r' ∧ a.1.SleepFinds r.sched

/-! ## The layer below -/

variable {r r' : SleepRun} {v : View} {t : ThreadPtr} {op : SchedOp} {es : List SleepEvent}

/-- What `sched_sleep` notes of its caller. -/
theorem SleepRun.fallAsleep_eq {cur : ThreadPtr} (hcur : r.sched.currentThread = some cur)
    (ms now : Nat) : r.fallAsleep ms now = { r with
      sched := sleepEntry r.sched ms now
      asleep := Function.update r.asleep cur true
      woken := Function.update r.woken cur false } := by
  rw [fallAsleep, hcur]

/-- Without the notes, `sched_yield` is that of the scheduler. -/
theorem schedYieldSleep_toSchedRun (r : SleepRun) :
    (schedYieldSleep r).1.toSchedRun = { r.toSchedRun with sched := schedYield r.sched } := by
  rw [schedYieldSleep]
  dsimp only
  split
  · rfl
  · split <;> rfl

/-- Without the notes, an operation is that of the scheduler. -/
theorem exec_of_execSleep {cur : ThreadPtr} (hcur : r.sched.currentThread = some cur) {fuel : Nat}
    (h : op.execSleep fuel r = .ok (r', es)) : op.exec fuel r.toSchedRun = .ok r'.toSchedRun := by
  have hplain : ∀ {op : SchedOp} {f : SchedRun → SleepRun}, (∀ r', (f r').toSchedRun = r') →
      (op.exec fuel r.toSchedRun).map (fun r' => (f r', ([] : List SleepEvent))) = .ok (r', es) →
      op.exec fuel r.toSchedRun = .ok r'.toSchedRun := by
    intro op f hf hrun
    cases hop : op.exec fuel r.toSchedRun with
    | error e =>
        rw [hop] at hrun
        cases hrun
    | ok r₁ =>
        rw [hop] at hrun
        cases hrun
        rw [hf]
  have hyield : ∀ {r₀ : SleepRun}, schedYieldSleep r₀ = (r', es) →
      r'.toSchedRun = { r₀.toSchedRun with sched := schedYield r₀.sched } := by
    intro r₀ hrun
    rw [← schedYieldSleep_toSchedRun, hrun]
  cases op with
  | yield => rw [hyield (Except.ok.inj h), SchedOp.exec]
  | sleep ms now =>
      rw [hyield (Except.ok.inj h), SleepRun.fallAsleep_eq hcur, SchedOp.exec,
        schedSleep_eq hcur ms now]
  | exit => rw [hyield (Except.ok.inj h), SchedOp.exec, threadExit_eq hcur]
  | wake t => exact hplain (fun _ => rfl) h
  | tick now => exact hplain (fun _ => rfl) h
  | create addr => exact hplain (fun _ => rfl) h
  | add t => exact hplain (fun _ => rfl) h

/-! ## `sched_yield` seen through the view -/

/-- `dequeue_next` returns the head of the ring. -/
theorem Viewed.dequeueNext_fst {s : Sched} (h : Viewed s v) : (dequeueNext s).1 = v.ring.head? := by
  cases hring : v.ring with
  | nil =>
      have hq : Queued s [] := hring ▸ h.queued
      rw [hq.takeHead_nil]
      rfl
  | cons t l =>
      obtain ⟨s', hdeq, -⟩ := h.takeHead hring
      rw [hdeq]
      rfl

/-- `sched_yield` with nobody in the ring returns to its caller. -/
theorem schedYieldSleep_of_nil (h : Viewed r.sched v) (hring : v.ring = []) :
    (schedYieldSleep r).2 =
        (if r.asleep v.current then [.returns v.current (r.woken v.current) (v.state v.current)]
          else []) ∧
      (schedYieldSleep r).1.woken = r.woken ∧
      (r.asleep v.current = false → (schedYieldSleep r).1.asleep = r.asleep) := by
  have hswitch : v.switch = v := by rw [View.switch, hring]
  have hnext := h.yield fun _ => hring ▸ List.not_mem_nil
  rw [hswitch] at hnext
  rw [schedYieldSleep, hnext.current, h.dequeueNext_fst, hring]
  cases hasleep : r.asleep v.current <;> simp [hasleep, hnext.state]

/-- `sched_yield` with a thread in the ring switches to it. -/
theorem schedYieldSleep_of_cons (h : Viewed r.sched v)
    (hout : v.state v.current = .running → v.current ∉ v.ring) {l : List ThreadPtr}
    (hring : v.ring = t :: l) :
    (schedYieldSleep r).2 = .switch v.current t ::
        (if r.asleep t then [.returns t (r.woken t) .running] else []) ∧
      (schedYieldSleep r).1.woken = r.woken ∧
      (schedYieldSleep r).1.asleep = Function.update r.asleep t false := by
  have hnext := h.yield hout
  obtain ⟨-, hcur, hstate⟩ := View.switch_cons hring
  have hrunning : (schedYield r.sched).state t = .running := by
    rw [hnext.state, hstate, if_pos rfl]
  rw [schedYieldSleep, hnext.current, h.dequeueNext_fst, hring, h.current, hcur]
  cases hasleep : r.asleep t with
  | true => simp [hasleep, hrunning]
  | false =>
      refine ⟨by simp [hasleep], by simp [hasleep], ?_⟩
      simp only [hasleep, Bool.false_eq_true, if_false]
      rw [← hasleep, Function.update_eq_self]

/-! ## The invariant -/

/-- What the notes say when a thread executes its own code. -/
structure Settled (r : SleepRun) (v : View) : Prop where
  /-- The current thread is not in the ring. -/
  out : v.current ∉ v.ring
  /-- It runs, or it has exited and found nobody to yield to. -/
  awake : v.state v.current = .running ∨ v.state v.current = .zombie
  /-- It is not inside `sched_sleep`. -/
  current : r.asleep v.current = false
  /-- Sleepers take part in scheduling. -/
  member : ∀ t, r.asleep t = true → r.Member t
  /-- Sleepers in the ring have been woken. -/
  woken : ∀ t ∈ v.ring, r.asleep t = true → r.woken t = true

/-- A switch to the head of the ring is to another thread, and if that was inside `sched_sleep` it has
been woken. -/
theorem Settled.switch (h : Viewed r.sched v) (hnodup : v.ring.Nodup) (hout : v.current ∉ v.ring)
    (hback : v.state v.current = .running → r.asleep v.current = false)
    (hmember : ∀ t, r.asleep t = true → r.Member t)
    (hwoken : ∀ t ∈ v.ring, r.asleep t = true → r.woken t = true) (hne : v.ring ≠ []) :
    (∀ e ∈ (schedYieldSleep r).2, e.Ok) ∧ Settled (schedYieldSleep r).1 v.switch := by
  obtain ⟨t, l, hring⟩ := List.exists_cons_of_ne_nil hne
  obtain ⟨hevents, hwoken', hasleep'⟩ := schedYieldSleep_of_cons h (fun _ => hout) hring
  obtain ⟨hring', hcur', hstate'⟩ := View.switch_cons hring
  have hmem : t ∈ v.ring := hring ▸ List.mem_cons_self
  have htl : t ∉ l := by
    rw [hring] at hnodup
    exact (List.nodup_cons.mp hnodup).1
  have hne' : t ≠ v.current := fun heq => hout (heq ▸ hmem)
  have hmember' : (schedYieldSleep r).1.toSchedRun.Member = r.toSchedRun.Member := by
    rw [schedYieldSleep_toSchedRun]
    rfl
  constructor
  · rw [hevents]
    intro e he
    rcases List.mem_cons.mp he with rfl | he
    · exact hne'
    · split_ifs at he with hasleep
      · rw [List.mem_singleton.mp he]
        exact ⟨hwoken t hmem hasleep, rfl⟩
      · cases he
  · refine ⟨?_, Or.inl ?_, ?_, fun x hx => ?_, fun x hx hasleep => ?_⟩
    · rw [hcur', hring', List.mem_append, not_or]
      refine ⟨htl, ?_⟩
      split_ifs
      · simpa using hne'
      · simp
    · rw [hcur', hstate', if_pos rfl]
    · rw [hcur', hasleep', Function.update_self]
    · rw [hasleep'] at hx
      rw [hmember']
      refine hmember x ?_
      by_cases hxt : x = t
      · rw [hxt, Function.update_self] at hx
        cases hx
      · rwa [Function.update_of_ne hxt] at hx
    · rw [hasleep'] at hasleep
      rw [hwoken']
      by_cases hxt : x = t
      · rw [hxt, Function.update_self] at hasleep
        cases hasleep
      · rw [Function.update_of_ne hxt] at hasleep
        rw [hring', List.mem_append] at hx
        rcases hx with hx | hx
        · exact hwoken x (hring ▸ List.mem_cons_of_mem t hx) hasleep
        · -- the caller goes to the tail only when it runs, and then it is awake
          split_ifs at hx with hrun
          · rw [List.mem_singleton.mp hx, hback hrun] at hasleep
            cases hasleep
          · cases hx

/-- The view when `sched_sleep` calls `sched_yield`. -/
theorem Viewed.sleepEntry {s : Sched} (h : Viewed s v) (ms now : Nat) :
    Viewed (sleepEntry s ms now)
      { v.put v.current .sleeping with ring := v.ring.erase v.current } := by
  rw [Aerogel.sleepEntry, h.current]
  have hwake := (h.put v.current .sleeping).hidden v.current
    (f := .setWakeTick ((now + ms / 10) % 2 ^ 64)) fun _ => ⟨rfl, rfl, rfl⟩
  exact hwake.remove v.current

/-- The view when `thread_exit` calls `sched_yield`. -/
theorem Viewed.exitEntry {s : Sched} (h : Viewed s v) :
    Viewed (exitEntry s) (v.put v.current .zombie) := by
  rw [Aerogel.exitEntry, h.current]
  exact (h.put v.current .zombie).congr rfl rfl fun _ => ⟨rfl, rfl, rfl⟩

/-- What holds in every state of a run in which `sched_sleep` has always found a thread in the ring. -/
structure SleepInv (r : SleepRun) (v : View) : Prop where
  /-- The scheduler is in order. -/
  ring : RingInv r.toSchedRun v
  /-- The notes are in order. -/
  settled : Settled r v

namespace SleepInv

/-- The invariant holds after `sched_init`. -/
theorem boot : SleepInv sleepBoot View.boot where
  ring := .boot
  settled := by
    refine ⟨List.not_mem_nil, Or.inl rfl, rfl, fun t ht => ?_, fun t ht => ?_⟩
    · cases ht
    · cases ht

/-- A call of `sched_sleep` finds a thread when the ring is not empty. -/
theorem sleepFinds_iff (h : SleepInv r v) (ms now : Nat) :
    (SchedOp.sleep ms now).SleepFinds r.sched ↔ v.ring ≠ [] := by
  rw [SchedOp.SleepFinds, h.ring.viewed.queued.head, Ne, List.head?_eq_none_iff]

/-- The notes when the current thread yields, exits or not, and nobody is in the ring. -/
theorem settled_of_nil {r₀ : SleepRun} {v₀ : View} (h : Viewed r₀.sched v₀) (hring : v₀.ring = [])
    (hawake : v₀.state v₀.current = .running ∨ v₀.state v₀.current = .zombie)
    (hcur : r₀.asleep v₀.current = false) (hmember : ∀ t, r₀.asleep t = true → r₀.Member t) :
    (∀ e ∈ (schedYieldSleep r₀).2, e.Ok) ∧ Settled (schedYieldSleep r₀).1 v₀.switch := by
  obtain ⟨hevents, -, hasleep⟩ := schedYieldSleep_of_nil h hring
  have hswitch : v₀.switch = v₀ := by rw [View.switch, hring]
  have hasleep := hasleep hcur
  rw [hcur] at hevents
  refine ⟨fun e he => ?_, ?_⟩
  · rw [hevents] at he
    cases he
  · rw [hswitch]
    refine ⟨hring ▸ List.not_mem_nil, hawake, by rw [hasleep, hcur], fun t ht => ?_, fun t ht => ?_⟩
    · rw [hasleep] at ht
      rw [schedYieldSleep_toSchedRun]
      exact hmember t ht
    · rw [hring] at ht
      cases ht

/-- `sched_yield` and `thread_exit`, which enter `sched_yield` with the notes as they are. -/
theorem settled_of_yield (h : SleepInv r v) {s₀ : Sched} {v₀ : View} (hv : Viewed s₀ v₀)
    (hring : v₀.ring = v.ring) (hcur : v₀.current = v.current)
    (hawake : v₀.state v₀.current = .running ∨ v₀.state v₀.current = .zombie) :
    (∀ e ∈ (schedYieldSleep { r with sched := s₀ }).2, e.Ok) ∧
      Settled (schedYieldSleep { r with sched := s₀ }).1 v₀.switch := by
  have hasleep : r.asleep v₀.current = false := hcur ▸ h.settled.current
  by_cases hnil : v.ring = []
  · exact @settled_of_nil { r with sched := s₀ } v₀ hv (hring.trans hnil) hawake hasleep
      h.settled.member
  · refine @Settled.switch { r with sched := s₀ } v₀ hv (hring ▸ h.ring.ok.nodup) ?_
      (fun _ => hasleep) h.settled.member ?_ (hring ▸ hnil)
    · rw [hring, hcur]
      exact h.settled.out
    · rw [hring]
      exact h.settled.woken

/-- `sched_sleep` with a thread in the ring. -/
theorem settled_of_sleep (h : SleepInv r v) (ms now : Nat) (hne : v.ring ≠ []) :
    (∀ e ∈ (schedYieldSleep (r.fallAsleep ms now)).2, e.Ok) ∧
      Settled (schedYieldSleep (r.fallAsleep ms now)).1 (v.exec (.sleep ms now)) := by
  have herase : v.ring.erase v.current = v.ring := List.erase_of_not_mem h.settled.out
  have hentry := h.ring.viewed.sleepEntry ms now
  rw [SleepRun.fallAsleep_eq h.ring.viewed.current, View.exec]
  rw [herase] at hentry ⊢
  refine Settled.switch hentry h.ring.ok.nodup h.settled.out (fun hrun => ?_) (fun t ht => ?_)
    (fun t ht hasleep => ?_) hne
  · rw [View.put_current, View.put_state, if_pos rfl] at hrun
    cases hrun
  · by_cases hcur : t = v.current
    · rw [hcur]
      exact h.ring.ok.current_member
    · dsimp only at ht
      rw [Function.update_of_ne hcur] at ht
      exact h.settled.member t ht
  · have hcur : t ≠ v.current := fun heq => h.settled.out (heq ▸ ht)
    dsimp only at hasleep ⊢
    rw [Function.update_of_ne hcur] at hasleep ⊢
    exact h.settled.woken t ht hasleep

/-- `sched_sleep` with nobody in the ring returns at once to a caller that nobody has woken. -/
theorem not_ok_of_sleep (h : SleepInv r v) (ms now : Nat) (hnil : v.ring = []) :
    ¬ ∀ e ∈ (schedYieldSleep (r.fallAsleep ms now)).2, e.Ok := by
  have hentry := h.ring.viewed.sleepEntry ms now
  rw [hnil, List.erase_nil] at hentry
  have hfall := SleepRun.fallAsleep_eq h.ring.viewed.current ms now
  have hsched : (r.fallAsleep ms now).sched = Aerogel.sleepEntry r.sched ms now := by rw [hfall]
  rw [← hsched] at hentry
  obtain ⟨hevents, -⟩ := schedYieldSleep_of_nil hentry rfl
  intro hok
  rw [hevents, hfall] at hok
  simp only [View.put_current, Function.update_self, if_true] at hok
  exact absurd (hok _ List.mem_cons_self).1 Bool.false_ne_true

/-- A thread that was not added is neither the current one nor a sleeper. -/
theorem ne_of_not_added (h : SleepInv r v) (hidle : t ≠ .idleTcb) (ha : t ∉ r.added) :
    v.current ≠ t ∧ r.asleep t = false := by
  obtain ⟨hm, -⟩ := h.ring.not_member hidle ha
  refine ⟨fun heq => hm (heq ▸ h.ring.ok.current_member), ?_⟩
  rw [← Bool.not_eq_true]
  exact fun hasleep => hm (h.settled.member t hasleep)

/-- `thread_create` keeps the notes. -/
theorem settled_of_create (h : SleepInv r v) {addr : Nat} (hnew : .heap addr ∉ r.created)
    (s : Sched) : Settled
      (r.moveTo { r.toSchedRun with sched := s, created := insert (.heap addr) r.created })
      (v.exec (.create addr)) := by
  obtain ⟨hcur, -⟩ := h.ne_of_not_added (t := .heap addr) (fun h => ThreadPtr.noConfusion h)
    fun hmem => hnew (h.ring.added_created hmem)
  refine ⟨h.settled.out, ?_, h.settled.current, h.settled.member, h.settled.woken⟩
  rw [View.exec, View.put_state, View.put_current, if_neg hcur]
  exact h.settled.awake

/-- `sched_add` keeps the notes. -/
theorem settled_of_add (h : SleepInv r v) (hcreated : t ∈ r.created) (hadd : t ∉ r.added)
    (s : Sched) : Settled (r.moveTo { r.toSchedRun with sched := s, added := insert t r.added })
      (v.exec (.add t)) := by
  have hidle : t ≠ .idleTcb := fun ht => h.ring.idle_created (ht ▸ hcreated)
  obtain ⟨hcur, hasleep⟩ := h.ne_of_not_added hidle hadd
  refine ⟨fun hmem => ?_, ?_, h.settled.current, fun x hx => ?_, fun x hx hx' => ?_⟩
  · rcases List.mem_append.mp hmem with hmem | hmem
    · exact h.settled.out hmem
    · exact hcur (List.mem_singleton.mp hmem)
  · rw [View.exec, View.append_state]
    change (if v.current = t then _ else _) = _ ∨ (if v.current = t then _ else _) = _
    rw [if_neg hcur]
    exact h.settled.awake
  · exact (h.settled.member x hx).imp_left fun hx => Finset.mem_insert_of_mem hx
  · rcases List.mem_append.mp hx with hx | hx
    · exact h.settled.woken x hx hx'
    · rw [List.mem_singleton.mp hx] at hx'
      exact absurd (hasleep.symm.trans hx') Bool.false_ne_true

/-- Who was woken stays woken. -/
theorem woken_wakeTo {r₁ : SchedRun} (hw : r.woken t = true) : (r.wakeTo r₁).woken t = true := by
  rw [SleepRun.wakeTo]
  simp only [hw, Bool.true_or]

/-- `sched_tick` wakes nobody and moves nobody. -/
theorem settled_of_tick (h : SleepInv r v) {fuel now : Nat} {r₁ : SchedRun}
    (hrun : SchedOp.exec fuel r.toSchedRun (.tick now) = .ok r₁) :
    Settled (r.wakeTo r₁) (v.exec (.tick now)) := by
  have hmember : r₁.Member = r.toSchedRun.Member := by
    rw [SchedOp.exec] at hrun
    cases hs : schedTick fuel now r.sched with
    | error e =>
        rw [hs] at hrun
        cases hrun
    | ok s =>
        rw [hs] at hrun
        cases hrun
        rfl
  refine ⟨h.settled.out, h.settled.awake, h.settled.current, ?_,
    fun x hx hx' => woken_wakeTo (h.settled.woken x hx hx')⟩
  change ∀ t, r.asleep t = true → r₁.Member t
  rw [hmember]
  exact h.settled.member

/-- `sched_wake` notes whom it wakes. -/
theorem settled_of_wake (h : SleepInv r v) (t : ThreadPtr) :
    Settled (r.wakeTo { r.toSchedRun with sched := schedWake r.sched t }) (v.exec (.wake t)) := by
  rw [View.exec]
  by_cases ht : v.state t = .sleeping ∨ v.state t = .blocked
  · rw [if_pos ht]
    have hcur : v.current ≠ t := by
      rintro rfl
      rcases h.settled.awake with hs | hs <;> rcases ht with ht | ht <;>
        exact ThreadState.noConfusion (hs.symm.trans ht)
    have hready : (schedWake r.sched t).state t = .ready := by
      rw [schedWake, h.ring.viewed.state, if_pos ht, state_enqueue, if_pos rfl]
    refine ⟨fun hmem => ?_, ?_, h.settled.current, h.settled.member, fun x hx hx' => ?_⟩
    · rcases List.mem_append.mp hmem with hmem | hmem
      · exact h.settled.out hmem
      · exact hcur (List.mem_singleton.mp hmem)
    · rw [View.append_state]
      change (if v.current = t then _ else _) = _ ∨ (if v.current = t then _ else _) = _
      rw [if_neg hcur]
      exact h.settled.awake
    · rcases List.mem_append.mp hx with hx | hx
      · exact woken_wakeTo (h.settled.woken x hx hx')
      · rw [List.mem_singleton.mp hx, SleepRun.wakeTo]
        have hnot : r.sched.state t ≠ .ready := by
          rw [h.ring.viewed.state]
          rcases ht with ht | ht <;> simp [ht]
        simp [hready, hnot]
  · rw [if_neg ht]
    exact ⟨h.settled.out, h.settled.awake, h.settled.current, h.settled.member,
      fun x hx hx' => woken_wakeTo (h.settled.woken x hx hx')⟩

/-- Every step: what can be seen of it is in order exactly when it is no `sched_sleep` with nobody in the
ring, and then the invariant is kept. -/
theorem step (h : SleepInv r v) (hstep : SleepStep r (op, es) r') :
    ((∀ e ∈ es, e.Ok) ↔ op.SleepFinds r.sched) ∧
      (op.SleepFinds r.sched → SleepInv r' (v.exec op)) := by
  obtain ⟨hallow, fuel, hexec⟩ := hstep
  have hring : RingInv r'.toSchedRun (v.exec op) :=
    h.ring.step ⟨hallow, fuel, exec_of_execSleep h.ring.viewed.current hexec⟩
  -- all calls but `sched_sleep` are in order
  have hdone : op.SleepFinds r.sched → (∀ e ∈ es, e.Ok) ∧ Settled r' (v.exec op) →
      ((∀ e ∈ es, e.Ok) ↔ op.SleepFinds r.sched) ∧
        (op.SleepFinds r.sched → SleepInv r' (v.exec op)) :=
    fun hfinds hok => ⟨iff_of_true hok.1 hfinds, fun _ => ⟨hring, hok.2⟩⟩
  have hnone : ∀ e ∈ ([] : List SleepEvent), e.Ok := fun e he => absurd he List.not_mem_nil
  cases op with
  | create addr =>
      cases hexec
      exact hdone trivial ⟨hnone, h.settled_of_create hallow _⟩
  | add t =>
      cases hexec
      exact hdone trivial ⟨hnone, h.settled_of_add hallow.1 hallow.2 _⟩
  | wake t =>
      cases hexec
      exact hdone trivial ⟨hnone, h.settled_of_wake t⟩
  | tick now =>
      rw [SchedOp.execSleep] at hexec
      cases htick : SchedOp.exec fuel r.toSchedRun (.tick now) with
      | error e =>
          rw [htick] at hexec
          cases hexec
      | ok r₁ =>
          rw [htick] at hexec
          cases hexec
          exact hdone trivial ⟨hnone, h.settled_of_tick htick⟩
  | yield =>
      have hok := h.settled_of_yield h.ring.viewed rfl rfl h.settled.awake
      have hrun : schedYieldSleep r = (r', es) := Except.ok.inj hexec
      rw [hrun] at hok
      exact hdone trivial hok
  | exit =>
      have hok := h.settled_of_yield h.ring.viewed.exitEntry rfl rfl
        (Or.inr (by rw [View.put_current, View.put_state, if_pos rfl]))
      have hrun : schedYieldSleep { r with sched := exitEntry r.sched } = (r', es) :=
        Except.ok.inj hexec
      rw [hrun] at hok
      exact hdone trivial hok
  | sleep ms now =>
      have hrun : schedYieldSleep (r.fallAsleep ms now) = (r', es) := Except.ok.inj hexec
      by_cases hnil : v.ring = []
      · have hbad := h.not_ok_of_sleep ms now hnil
        rw [hrun] at hbad
        have hfinds : ¬ (SchedOp.sleep ms now).SleepFinds r.sched :=
          fun hfinds => (h.sleepFinds_iff ms now).mp hfinds hnil
        exact ⟨iff_of_false hbad hfinds, fun hf => absurd hf hfinds⟩
      · have hok := h.settled_of_sleep ms now hnil
        rw [hrun] at hok
        exact hdone ((h.sleepFinds_iff ms now).mpr hnil) hok

end SleepInv

/-! ## Runs -/

/-- In a run whose steps have let `sched_sleep` find a thread, everything seen is in order. -/
theorem SleepInv.ok_of_run {as : List (SchedOp × List SleepEvent)} {r₀ : SleepRun}
    (hrun : Run FindsStep r₀ as r) (hinv : ∃ v, SleepInv r₀ v) : ∀ a ∈ as, ∀ e ∈ a.2, e.Ok := by
  induction hrun with
  | nil => exact fun a ha => absurd ha List.not_mem_nil
  | cons hstep _ ih =>
      obtain ⟨v, hv⟩ := hinv
      obtain ⟨hiff, hnext⟩ := hv.step hstep.1
      intro a ha
      rcases List.mem_cons.mp ha with rfl | ha
      · exact hiff.mpr hstep.2
      · exact ih ⟨_, hnext hstep.2⟩ a ha

/-- A run in which everything seen is in order has let `sched_sleep` find a thread in all its steps. -/
theorem SleepInv.finds_of_ok {as : List (SchedOp × List SleepEvent)} {r₀ : SleepRun}
    (hrun : Run SleepStep r₀ as r) (hinv : ∃ v, SleepInv r₀ v)
    (hok : ∀ a ∈ as, ∀ e ∈ a.2, e.Ok) : Run FindsStep r₀ as r := by
  induction hrun with
  | nil => exact .nil _
  | cons hstep _ ih =>
      obtain ⟨v, hv⟩ := hinv
      obtain ⟨hiff, hnext⟩ := hv.step hstep
      have hfinds := hiff.mp (hok _ List.mem_cons_self)
      exact .cons ⟨hstep, hfinds⟩
        (ih ⟨_, hnext hfinds⟩ fun a ha => hok a (List.mem_cons_of_mem _ ha))

/-- In every run from `sched_init` on, `sched_sleep` returns only to threads that were woken and run, and
no thread is switched to itself, if and only if every call of `sched_sleep` finds a thread in the ring. -/
theorem sleepBlocks_iff {as : List (SchedOp × List SleepEvent)} {r : SleepRun}
    (hrun : Run SleepStep sleepBoot as r) :
    (∀ a ∈ as, ∀ e ∈ a.2, e.Ok) ↔ Run FindsStep sleepBoot as r :=
  ⟨fun hok => SleepInv.finds_of_ok hrun ⟨_, .boot⟩ hok,
    fun hfinds => SleepInv.ok_of_run hfinds ⟨_, .boot⟩⟩

/-- A thread is made, sleeps while the idle thread runs, and comes back when it was woken. -/
theorem sleepBlocks_two_threads : ∃ as r, Run SleepStep sleepBoot as r ∧
    as.map Prod.fst = [.create 16, .add (.heap 16), .yield, .sleep 50 7, .wake (.heap 16), .yield] ∧
    .returns (.heap 16) true .running ∈ as.flatMap Prod.snd ∧ ∀ a ∈ as, ∀ e ∈ a.2, e.Ok := by
  let r₂ : SleepRun := { sleepBoot with
    sched := schedAdd (threadCreate schedBoot.sched 16) (.heap 16)
    created := {.heap 16}
    added := {.heap 16} }
  let r₃ := (schedYieldSleep r₂).1
  let r₄ := (schedYieldSleep (r₃.fallAsleep 50 7)).1
  let r₅ := r₄.wakeTo { r₄.toSchedRun with sched := schedWake r₄.sched (.heap 16) }
  have hrun : Run FindsStep sleepBoot
      [(.create 16, []), (.add (.heap 16), []), (.yield, (schedYieldSleep r₂).2),
        (.sleep 50 7, (schedYieldSleep (r₃.fallAsleep 50 7)).2), (.wake (.heap 16), []),
        (.yield, (schedYieldSleep r₅).2)] (schedYieldSleep r₅).1 :=
    .cons ⟨⟨by decide, 0, rfl⟩, trivial⟩ (.cons (t := r₂) ⟨⟨by decide, 0, rfl⟩, trivial⟩
      (.cons (t := r₃) ⟨⟨trivial, 0, rfl⟩, trivial⟩
        (.cons (t := r₄) ⟨⟨trivial, 0, rfl⟩, by decide⟩
          (.cons (t := r₅) ⟨⟨by decide, 0, rfl⟩, trivial⟩ (.single ⟨⟨trivial, 0, rfl⟩, trivial⟩)))))
  have hsteps : Run SleepStep sleepBoot _ _ := hrun.mono fun _ _ _ hstep => hstep.1
  exact ⟨_, _, hsteps, rfl, by decide, (sleepBlocks_iff hsteps).mpr hrun⟩

/-- The idle thread sleeps alone: the call returns at once, and when it is woken later the next yield
switches from the idle thread to itself. -/
theorem idle_sleep_not_blocked : (∃ r, Run SleepStep sleepBoot
      [(.sleep 50 7, [.returns .idleTcb false .sleeping]), (.wake .idleTcb, []),
        (.yield, [.switch .idleTcb .idleTcb])] r) ∧
    ¬ SleepEvent.Ok (.returns .idleTcb false .sleeping) ∧
    ¬ SleepEvent.Ok (.switch .idleTcb .idleTcb) := by
  let r₁ := (schedYieldSleep (sleepBoot.fallAsleep 50 7)).1
  let r₂ := r₁.wakeTo { r₁.toSchedRun with sched := schedWake r₁.sched .idleTcb }
  refine ⟨⟨(schedYieldSleep r₂).1, ?_⟩, by decide, by decide⟩
  exact .cons (t := r₁) ⟨trivial, 0, rfl⟩ (.cons (t := r₂) ⟨by decide, 0, rfl⟩
    (.single ⟨trivial, 0, rfl⟩))

end Aerogel
