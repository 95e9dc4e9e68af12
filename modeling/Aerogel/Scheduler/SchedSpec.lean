import Aerogel.Scheduler.RunQueue

/-! # What each scheduler operation does

A `View` is the scheduler's state with the ring read as a list: the list, the current thread and the
thread states. Each operation of `thread.c` and `sched.c` acts on views, and `Viewed` carries that over to
the linked records, so that what follows never looks at links. -/

namespace Aerogel

/-- The scheduler's state with the ring read as a list. -/
structure View where
  /-- The ring, from `run_queue_head` on. -/
  ring : List ThreadPtr
  /-- The current thread. -/
  current : ThreadPtr
  /-- The state of every thread. -/
  state : ThreadPtr → ThreadState

namespace View

/-- Set the state of a thread. -/
def put (v : View) (t : ThreadPtr) (st : ThreadState) : View :=
  { v with state := Function.update v.state t st }

@[simp] theorem put_ring (v : View) (t : ThreadPtr) (st : ThreadState) :
    (v.put t st).ring = v.ring := rfl

@[simp] theorem put_current (v : View) (t : ThreadPtr) (st : ThreadState) :
    (v.put t st).current = v.current := rfl

@[simp] theorem put_state (v : View) (t : ThreadPtr) (st : ThreadState) (x : ThreadPtr) :
    (v.put t st).state x = if x = t then st else v.state x :=
  Function.update_apply v.state t st x

/-- Make a thread ready and append it to the ring. -/
def append (v : View) (t : ThreadPtr) : View := { v.put t .ready with ring := v.ring ++ [t] }

@[simp] theorem append_state (v : View) (t x : ThreadPtr) :
    (v.append t).state x = if x = t then .ready else v.state x :=
  put_state v t .ready x

/-- What `sched_yield` does: the head runs, and the caller goes to the tail if it was running. -/
def switch (v : View) : View :=
  match v.ring with
  | [] => v
  | t :: l =>
    let v := { v with ring := l }
    let v := if v.state v.current = .running then v.append v.current else v
    { v.put t .running with current := t }

end View

/-- The scheduler's state looks like the view. -/
structure Viewed (s : Sched) (v : View) : Prop where
  /-- The ring lists the view's threads. -/
  queued : Queued s v.ring
  /-- The current thread is the view's. -/
  current : s.currentThread = some v.current
  /-- The states are the view's. -/
  state : ∀ x, s.state x = v.state x

variable {s s' : Sched} {v : View} {l : List ThreadPtr} {t cur : ThreadPtr}

namespace Sched

theorem state_eq_info (s : Sched) (x : ThreadPtr) : s.state x = (s.info x).state := rfl

/-- A change to one record changes its own state only. -/
theorem state_modify (s : Sched) (t : ThreadPtr) (f : Thread → Thread) (x : ThreadPtr) :
    (s.modify t f).state x = if x = t then (f (s.tcb t)).state else s.state x := by
  rw [state, modify_tcb]
  split <;> rfl

@[simp] theorem state_modify_setState (s : Sched) (t : ThreadPtr) (v : ThreadState)
    (x : ThreadPtr) : (s.modify t (.setState v)).state x = if x = t then v else s.state x :=
  state_modify s t _ x

end Sched

@[simp] theorem state_enqueue (s : Sched) (t x : ThreadPtr) :
    (enqueue s t).state x = if x = t then .ready else s.state x := by
  rw [Sched.state_eq_info, info_enqueue]
  split <;> rfl

@[simp] theorem state_dequeueNext (s : Sched) (x : ThreadPtr) :
    (dequeueNext s).2.state x = s.state x := by
  rw [Sched.state_eq_info, info_dequeueNext, ← Sched.state_eq_info]

@[simp] theorem state_schedRemove (s : Sched) (t x : ThreadPtr) :
    (schedRemove s t).state x = s.state x := by
  rw [Sched.state_eq_info, info_schedRemove, ← Sched.state_eq_info]

/-! ## Operations on views -/

namespace Viewed

/-- Only the head, the current thread, links and states matter. -/
theorem congr (h : Viewed s v) (hhead : s'.runQueueHead = s.runQueueHead)
    (hcur : s'.currentThread = s.currentThread)
    (htcb : ∀ x, (s'.tcb x).next = (s.tcb x).next ∧ (s'.tcb x).prev = (s.tcb x).prev ∧
      (s'.tcb x).state = (s.tcb x).state) : Viewed s' v where
  queued := h.queued.congr hhead fun x => ⟨(htcb x).1, (htcb x).2.1⟩
  current := hcur.trans h.current
  state := fun x => (htcb x).2.2.trans (h.state x)

/-- Setting a state. -/
theorem put (h : Viewed s v) (t : ThreadPtr) (st : ThreadState) :
    Viewed (s.modify t (.setState st)) (v.put t st) where
  queued := h.queued.modify t fun _ => ⟨rfl, rfl⟩
  current := h.current
  state := by
    intro x
    rw [Sched.state_modify_setState, View.put_state, h.state]

/-- Setting a quantum or a wake-up time does not show. -/
theorem hidden (h : Viewed s v) (t : ThreadPtr) {f : Thread → Thread}
    (hf : ∀ r : Thread, (f r).next = r.next ∧ (f r).prev = r.prev ∧ (f r).state = r.state) :
    Viewed (s.modify t f) v := by
  refine h.congr rfl rfl fun x => ?_
  rw [Sched.modify_tcb]
  by_cases hx : x = t
  · rw [if_pos hx, hx]
    exact hf _
  · rw [if_neg hx]
    exact ⟨rfl, rfl, rfl⟩

/-- `enqueue` appends. -/
theorem append (h : Viewed s v) (ht : t ∉ v.ring) : Viewed (enqueue s t) (v.append t) where
  queued := h.queued.append ht
  current := (enqueue_currentThread s t).trans h.current
  state := by
    intro x
    rw [state_enqueue, View.append_state, h.state]

/-- Readying a thread first makes no difference to `enqueue`. -/
theorem append_ready (h : Viewed s v) (ht : t ∉ v.ring) :
    Viewed (enqueue (s.modify t (.setState .ready)) t) (v.append t) := by
  have happ := (h.put t .ready).append ht
  rwa [View.append, View.put, View.put, Function.update_idem] at happ

/-- `sched_remove` deletes. -/
theorem remove (h : Viewed s v) (t : ThreadPtr) :
    Viewed (schedRemove s t) { v with ring := v.ring.erase t } where
  queued := h.queued.remove t
  current := (schedRemove_currentThread s t).trans h.current
  state := fun x => (state_schedRemove s t x).trans (h.state x)

/-- `dequeue_next` takes the head. -/
theorem takeHead (h : Viewed s v) (hring : v.ring = t :: l) :
    ∃ s', dequeueNext s = (some t, s') ∧ Viewed s' { v with ring := l } := by
  obtain ⟨s', hdeq, hq⟩ := (hring ▸ h.queued).takeHead
  refine ⟨s', hdeq, hq, ?_, fun x => ?_⟩
  · have hcur := dequeueNext_currentThread s
    rw [hdeq] at hcur
    exact hcur.trans h.current
  · have hstate := state_dequeueNext s x
    rw [hdeq] at hstate
    exact hstate.trans (h.state x)

/-- `sched_yield`. A running caller must not be in the ring. -/
theorem yield (h : Viewed s v) (hout : v.state v.current = .running → v.current ∉ v.ring) :
    Viewed (schedYield s) v.switch := by
  unfold View.switch
  cases hring : v.ring with
  | nil =>
      have hq : Queued s [] := hring ▸ h.queued
      rw [schedYield, hq.takeHead_nil]
      exact h.congr rfl rfl fun _ => ⟨rfl, rfl, rfl⟩
  | cons t l =>
      obtain ⟨s₁, hdeq, h₁⟩ := h.takeHead hring
      have hcur₁ : s₁.currentThread = some v.current := h₁.current
      have hstate₁ : s₁.state v.current = v.state v.current := h₁.state _
      rw [schedYield, hdeq]
      simp only [hcur₁, hstate₁]
      -- the caller is put back or not; quanta and `need_resched` do not show
      have hback : Viewed
          (if v.state v.current = .running then
            enqueue (s₁.modify v.current (.setState .ready)) v.current else s₁)
          (if v.state v.current = .running then
            ({ v with ring := l } : View).append v.current else { v with ring := l }) := by
        split
        · rename_i hrun
          refine h₁.append_ready fun hmem => hout hrun ?_
          rw [hring]
          exact List.mem_cons_of_mem t hmem
        · exact h₁
      have hnext := ((hback.hidden v.current (f := .setQuantum schedQuantumTicks)
        fun _ => ⟨rfl, rfl, rfl⟩).put t .running).hidden t (f := .setQuantum schedQuantumTicks)
        fun _ => ⟨rfl, rfl, rfl⟩
      exact ⟨hnext.queued.congr rfl fun _ => ⟨rfl, rfl⟩, rfl, hnext.state⟩

/-- `sched_sleep`. -/
theorem sleep (h : Viewed s v) (ms now : Nat) : Viewed (schedSleep s ms now)
    ({ v.put v.current .sleeping with ring := v.ring.erase v.current } : View).switch := by
  rw [schedSleep, h.current]
  have hasleep := (((h.put v.current .sleeping).hidden v.current
    (f := .setWakeTick ((now + ms / 10) % 2 ^ 64)) fun _ => ⟨rfl, rfl, rfl⟩).remove v.current)
  -- a sleeping caller is not put back into the ring
  refine hasleep.yield fun hrun => ?_
  simp only [View.put, Function.update_self] at hrun
  exact ThreadState.noConfusion hrun

/-- `thread_exit`. -/
theorem exit (h : Viewed s v) : Viewed (threadExit s) (v.put v.current .zombie).switch := by
  rw [threadExit, h.current]
  have hgone : Viewed { s.modify v.current (.setState .zombie) with
      nthreads := wsub 32 s.nthreads 1 } (v.put v.current .zombie) :=
    (h.put v.current .zombie).congr rfl rfl fun _ => ⟨rfl, rfl, rfl⟩
  refine hgone.yield fun hrun => ?_
  simp only [View.put, Function.update_self] at hrun
  exact ThreadState.noConfusion hrun

/-- `sched_wake` of a thread that sleeps or is blocked, and so is not in the ring. -/
theorem wake (h : Viewed s v) (ht : v.state t = .sleeping ∨ v.state t = .blocked)
    (hout : t ∉ v.ring) : Viewed (schedWake s t) (v.append t) := by
  rw [schedWake, h.state, if_pos ht]
  exact h.append_ready hout

/-- `sched_wake` of any other thread. -/
theorem wake_skip (h : Viewed s v) (ht : ¬ (v.state t = .sleeping ∨ v.state t = .blocked)) :
    schedWake s t = s := by
  rw [schedWake, h.state, if_neg ht]

/-- `thread_create` at an address outside the ring. -/
theorem create (h : Viewed s v) {addr : Nat} (hout : .heap addr ∉ v.ring) :
    Viewed (threadCreate s addr) (v.put (.heap addr) .ready) := by
  have hne : ∀ x, x ≠ .heap addr → (threadCreate s addr).tcb x = s.tcb x := by
    intro x hx
    exact Function.update_of_ne hx _ _
  have hnew : ((threadCreate s addr).tcb (.heap addr)).next = none ∧
      (threadCreate s addr).state (.heap addr) = .ready := by
    simp only [threadCreate, Sched.state, Function.update_self, Thread.zero, and_self]
  refine ⟨⟨h.queued.head, ?_, h.queued.nodup, fun x hx => ?_⟩, h.current, fun x => ?_⟩
  -- the new record is none of the ring's
  · have hring : ∀ x ∈ v.ring, (threadCreate s addr).tcb x = s.tcb x :=
      fun x hx => hne x fun hxa => hout (hxa ▸ hx)
    exact h.queued.cycle.congr (fun x hx => by simp only [hring x hx])
      fun x hx => by simp only [hring x hx]
  · by_cases hxa : x = .heap addr
    · rw [hxa]
      exact hnew.1
    · rw [hne x hxa]
      exact h.queued.off x hx
  · rw [View.put_state]
    by_cases hxa : x = .heap addr
    · rw [if_pos hxa, hxa]
      exact hnew.2
    · rw [if_neg hxa, Sched.state, hne x hxa]
      exact h.state x

end Viewed

/-! ## `sched_tick` -/

/-- Quantum accounting keeps links, states and the current thread. -/
theorem chargeQuantum_frame (s : Sched) (cur : ThreadPtr) :
    (chargeQuantum s cur).runQueueHead = s.runQueueHead ∧
      (chargeQuantum s cur).currentThread = s.currentThread ∧
      ∀ x, (chargeQuantum s cur).tcb x =
        (s.tcb x).setQuantum ((chargeQuantum s cur).tcb x).quantumRemaining := by
  have hset : ∀ (v : Nat) (x : ThreadPtr), (s.modify cur (.setQuantum v)).tcb x =
      (s.tcb x).setQuantum ((s.modify cur (.setQuantum v)).tcb x).quantumRemaining := by
    intro v x
    rw [Sched.modify_tcb]
    by_cases hx : x = cur
    · rw [if_pos hx, hx]
      rfl
    · rw [if_neg hx]
      rfl
  unfold chargeQuantum
  simp only
  by_cases hq : 0 < (s.tcb cur).quantumRemaining
  · simp only [if_pos hq]
    split <;> exact ⟨rfl, rfl, hset _⟩
  · simp only [if_neg hq]
    split <;> exact ⟨rfl, rfl, fun _ => rfl⟩

/-- In a ring the successor of a thread is in the ring. -/
theorem Queued.next_mem (hq : Queued s l) (ht : t ∈ l) :
    ∃ n ∈ l, (s.tcb t).next = some n := by
  obtain ⟨a, b, rfl⟩ := List.append_of_mem ht
  have hnext := hq.cycle.next_eq
  rw [show (s.tcb t).next = firstOr b (a ++ t :: b).head? from hnext]
  cases b with
  | nil =>
      refine ⟨(a ++ [t]).head (by simp), List.head_mem _, ?_⟩
      rw [firstOr_nil, List.head?_eq_some_head]
  | cons n b => exact ⟨n, by simp, rfl⟩

/-- Without sleepers in the ring the loop of `sched_tick` changes nothing, if it ends. -/
theorem Queued.tickScan_eq (hq : Queued s l) (hawake : ∀ x ∈ l, s.state x ≠ .sleeping)
    {now fuel : Nat} {start : ThreadPtr} (ht : t ∈ l)
    (hrun : tickScan now start fuel t s = .ok s') : s' = s := by
  induction fuel generalizing t with
  | zero => cases hrun
  | succ fuel ih =>
      obtain ⟨n, hn, hnext⟩ := hq.next_mem ht
      have hskip : ¬ (s.state t = .sleeping ∧ (s.tcb t).wakeTick ≤ now) :=
        fun h => hawake t ht h.1
      rw [tickScan, if_neg hskip] at hrun
      simp only [hnext] at hrun
      by_cases hstart : n = start
      · rw [if_pos hstart] at hrun
        cases hrun
        rfl
      · rw [if_neg hstart] at hrun
        exact ih hn hrun

/-- The loop of `sched_tick` gets back to where it started. -/
theorem Queued.tickScan_ok (hq : Queued s l) (hawake : ∀ x ∈ l, s.state x ≠ .sleeping)
    {now fuel : Nat} {start : ThreadPtr} {a b : List ThreadPtr} (hl : l = a ++ t :: b)
    (hstart : l.head? = some start) (hfuel : b.length < fuel) :
    tickScan now start fuel t s = .ok s := by
  induction b generalizing a t fuel with
  | nil =>
      obtain ⟨fuel, rfl⟩ : ∃ k, fuel = k + 1 := ⟨fuel - 1, by omega⟩
      have hnext := (hl ▸ hq.cycle).next_eq
      simp only [firstOr_nil, ← hl, hstart] at hnext
      rw [tickScan, if_neg fun h => hawake t (by simp [hl]) h.1]
      simp only [hnext, if_true]
  | cons n b ih =>
      obtain ⟨fuel, rfl⟩ : ∃ k, fuel = k + 1 := ⟨fuel - 1, by omega⟩
      have hnext := (hl ▸ hq.cycle).next_eq
      simp only [firstOr_cons] at hnext
      have hne : n ≠ start := by
        -- `start` is at the front, `n` comes after `t`
        rintro rfl
        have hnodup := hq.nodup
        rw [hl] at hnodup hstart
        cases a with
        | nil =>
            cases hstart
            simp at hnodup
        | cons h a =>
            cases hstart
            simp at hnodup
      rw [tickScan, if_neg fun h => hawake t (by simp [hl]) h.1]
      simp only [hnext, if_neg hne]
      exact ih (a := a ++ [t]) (by simp [hl]) (by simpa using hfuel)

/-- A frame for the parts of the state that `chargeQuantum` leaves alone. -/
theorem Queued.charge (hq : Queued s l) (cur : ThreadPtr) :
    Queued (chargeQuantum s cur) l := by
  obtain ⟨hhead, -, htcb⟩ := chargeQuantum_frame s cur
  refine hq.congr hhead fun x => ?_
  rw [htcb]
  exact ⟨rfl, rfl⟩

@[simp] theorem state_chargeQuantum (s : Sched) (cur x : ThreadPtr) :
    (chargeQuantum s cur).state x = s.state x := by
  rw [Sched.state, (chargeQuantum_frame s cur).2.2]
  rfl

/-- `sched_tick` returns, and without sleepers in the ring it only charges the current thread. -/
theorem Viewed.tick (h : Viewed s v) (hawake : ∀ x ∈ v.ring, v.state x ≠ .sleeping) (now : Nat) :
    (∃ fuel, schedTick fuel now s = .ok (chargeQuantum s v.current)) ∧
      ∀ fuel s', schedTick fuel now s = .ok s' → s' = chargeQuantum s v.current := by
  have hq := h.queued.charge v.current
  have hawake' : ∀ x ∈ v.ring, (chargeQuantum s v.current).state x ≠ .sleeping := by
    intro x hx
    rw [state_chargeQuantum, h.state]
    exact hawake x hx
  have hhead := hq.head
  cases hring : v.ring with
  | nil =>
      have htick : ∀ fuel, schedTick fuel now s = .ok (chargeQuantum s v.current) := by
        intro fuel
        simp only [schedTick, h.current, hhead, hring, List.head?_nil]
      refine ⟨⟨0, htick 0⟩, fun fuel s' hrun => ?_⟩
      rw [htick] at hrun
      cases hrun
      rfl
  | cons t l =>
      have htick : ∀ fuel, schedTick fuel now s =
          tickScan now t fuel t (chargeQuantum s v.current) := by
        intro fuel
        simp only [schedTick, h.current, hhead, hring, List.head?_cons]
      refine ⟨⟨l.length + 1, ?_⟩, fun fuel s' hrun => ?_⟩
      · rw [htick]
        exact hq.tickScan_ok hawake' (hring.trans (List.nil_append _).symm)
          (by rw [hring, List.head?_cons]) (Nat.lt_succ_self _)
      · rw [htick] at hrun
        exact hq.tickScan_eq hawake' (by simp [hring]) hrun

/-- Charging the current thread does not show. -/
theorem Viewed.charge (h : Viewed s v) (cur : ThreadPtr) : Viewed (chargeQuantum s cur) v where
  queued := h.queued.charge cur
  current := (chargeQuantum_frame s cur).2.1.trans h.current
  state := fun x => (state_chargeQuantum s cur x).trans (h.state x)

end Aerogel
