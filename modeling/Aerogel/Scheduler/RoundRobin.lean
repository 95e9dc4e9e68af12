import Aerogel.Scheduler.Refinement

/-! # The scheduler's invariant and its order

Two consequences of the refinement. `SchedWellFormed` is what the ring and the thread states look like in
every state of a run, and `RoundRobin` says when a waiting thread gets the processor. -/

namespace Aerogel

variable {r r' : SchedRun} {f : Fifo ThreadPtr}

/-! ## The state invariant -/

/-- The ring lists `l` and fits the thread states. -/
structure SchedWellFormed (r : SchedRun) (l : List ThreadPtr) : Prop where
  /-- The ring is entered at its first thread, and empty if there is none. -/
  head : r.sched.runQueueHead = l.head?
  /-- `next` and `prev` form a ring. -/
  ring : DCycle (fun t => (r.sched.tcb t).next) (fun t => (r.sched.tcb t).prev) l
  /-- No thread is in the ring twice. -/
  nodup : l.Nodup
  /-- The current thread is running, and not in the ring. -/
  current : ∃ c, r.sched.currentThread = some c ∧ r.sched.state c = .running ∧ c ∉ l
  /-- The idle thread is current or in the ring. -/
  idle : r.sched.currentThread = some .idleTcb ∨ .idleTcb ∈ l
  /-- An added thread is in the ring exactly when it is ready. -/
  added_iff : ∀ t ∈ r.added, t ∈ l ↔ r.sched.state t = .ready
  /-- Sleeping and exited threads are not in the ring. -/
  off : ∀ t, r.sched.state t = .sleeping ∨ r.sched.state t = .zombie → t ∉ l

/-- A state that refines a queue is well formed, and the ring is the queue. -/
theorem Refines.wellFormed (h : Refines f r) : SchedWellFormed r f.queue := by
  obtain ⟨v, hinv, hview⟩ := h
  have hstate := hinv.viewed.state
  have hcur := hinv.viewed.current
  have hq := hinv.viewed.queued
  rw [hview.ring] at hq
  refine ⟨hq.head, hq.cycle, hq.nodup, ⟨v.current, hcur, ?_, ?_⟩, ?_, fun t ht => ?_, fun t ht => ?_⟩
  · rw [hstate, hview.running]
  · rw [← hview.ring]
    exact hview.current_notMem
  · rw [hcur, hview.current]
    exact hview.idle.imp_left (congrArg some)
  · rw [hview.queue_iff, hstate]
    exact and_iff_right (Or.inl ht)
  · rw [hview.queue_iff, ← hstate]
    rintro ⟨-, hready⟩
    rw [hready] at ht
    exact ht.elim (fun h => ThreadState.noConfusion h) fun h => ThreadState.noConfusion h

/-- Every state of every run in which the idle thread stays is well formed. -/
theorem schedWellFormed_of_reachable (r : SchedRun) (h : Reachable StrictStep schedBoot r) :
    ∃ l, SchedWellFormed r l := by
  obtain ⟨ops, hrun⟩ := h
  exact ⟨_, (Refines.boot.run hrun).wellFormed⟩

/-- A thread is made and added, and the idle thread yields to it. -/
theorem schedWellFormed_firstYield :
    ∃ r l, Run StrictStep schedBoot [.create 16, .add (.heap 16), .yield] r ∧ SchedWellFormed r l := by
  obtain ⟨r, hrun⟩ : ∃ r, Run StrictStep schedBoot [.create 16, .add (.heap 16), .yield] r :=
    ⟨_, .cons ⟨trivial, by decide, 0, rfl⟩
      (.cons ⟨trivial, by decide, 0, rfl⟩
        (.single ⟨trivial, trivial, 0, rfl⟩))⟩
  obtain ⟨l, hl⟩ := schedWellFormed_of_reachable r ⟨_, hrun⟩
  exact ⟨r, l, hrun, hl⟩

/-! ## The order -/

/-- A run with `n` switches: steps after which another thread is current. -/
inductive SwitchRun : SchedRun → Nat → SchedRun → Prop
  /-- Nothing happens. -/
  | nil (r : SchedRun) : SwitchRun r 0 r
  /-- A step without a switch. -/
  | stay {r r₁ r₂ : SchedRun} {op : SchedOp} {n : Nat} : StrictStep r op r₁ →
      r₁.sched.currentThread = r.sched.currentThread → SwitchRun r₁ n r₂ → SwitchRun r n r₂
  /-- A step with a switch. -/
  | switch {r r₁ r₂ : SchedRun} {op : SchedOp} {n : Nat} : StrictStep r op r₁ →
      r₁.sched.currentThread ≠ r.sched.currentThread → SwitchRun r₁ n r₂ → SwitchRun r (n + 1) r₂

/-- Both run the same thread. -/
theorem Refines.current (h : Refines f r) : r.sched.currentThread = some f.current := by
  obtain ⟨v, hinv, hview⟩ := h
  rw [hinv.viewed.current, hview.current]

/-- A waiting thread is not the current one. -/
theorem Refines.current_notMem (h : Refines f r) : f.current ∉ f.queue := by
  obtain ⟨v, -, hview⟩ := h
  rw [← hview.current, ← hview.ring]
  exact hview.current_notMem

/-- Another thread is current after a step exactly when the queue switches. -/
theorem Refines.switch_iff {op : SchedOp} (h : Refines f r) (hstep : StrictStep r op r') :
    r'.sched.currentThread ≠ r.sched.currentThread ↔ f.Switches op.toFifo := by
  rw [(h.step hstep).current, h.current]
  constructor
  · intro hne
    by_contra hop
    exact hne (congrArg some (Fifo.exec_of_not_switch hop).1)
  · intro hop heq
    -- the head was waiting, so it is not the thread that ran before
    obtain ⟨t, q, hq⟩ := List.exists_cons_of_ne_nil hop.ne_nil
    rw [(Fifo.exec_of_switch hq hop).1] at heq
    apply h.current_notMem
    rw [← Option.some.inj heq, hq]
    exact List.mem_cons_self

/-- A run with `n` switches is a run of the queue with `n` switches. -/
theorem Refines.switchRun {n : Nat} (h : Refines f r) (hrun : SwitchRun r n r') :
    ∃ ops, Refines (f.run ops) r' ∧ f.switches ops = n := by
  induction hrun generalizing f with
  | nil => exact ⟨[], h, rfl⟩
  | @stay r r₁ r₂ op n hstep hsame _ ih =>
      obtain ⟨ops, href, hn⟩ := ih (h.step hstep)
      have hop : ¬ f.Switches op.toFifo := fun hop => (h.switch_iff hstep).mpr hop hsame
      refine ⟨op.toFifo :: ops, href, ?_⟩
      rw [Fifo.switches, if_neg hop, Nat.zero_add, hn]
  | @switch r r₁ r₂ op n hstep hother _ ih =>
      obtain ⟨ops, href, hn⟩ := ih (h.step hstep)
      refine ⟨op.toFifo :: ops, href, ?_⟩
      rw [Fifo.switches, if_pos ((h.switch_iff hstep).mp hother), hn, Nat.add_comm]

/-- The state after `ops` is that of the queue, and the queue's order is the order of service. -/
structure RoundRobin (ops : List SchedOp) (r : SchedRun) : Prop where
  /-- The ring refines a first-in, first-out queue. -/
  refines : Refines (fifoBoot.run (ops.map SchedOp.toFifo)) r
  /-- The ring lists threads such that the one in place `i` has moved up by one with each of the first
  `i` switches, waiting all the while, and is current after the next one. -/
  served : ∃ l, Queued r.sched l ∧ ∀ i t, l[i]? = some t →
    (∀ n r', SwitchRun r n r' → n ≤ i → r'.sched.currentThread ≠ some t ∧
      ∃ l', Queued r'.sched l' ∧ l'[i - n]? = some t) ∧
    ∀ r' op r'', SwitchRun r i r' → StrictStep r' op r'' →
      r''.sched.currentThread ≠ r'.sched.currentThread → r''.sched.currentThread = some t

/-- The scheduler serves its threads in turn. -/
theorem roundRobin_of_run (ops : List SchedOp) (r : SchedRun)
    (h : Run StrictStep schedBoot ops r) : RoundRobin ops r := by
  have href := Refines.boot.run h
  refine ⟨href, _, href.queued, fun i t ht => ⟨fun n r' hrun hle => ?_, fun r' op r'' hrun hstep hsw => ?_⟩⟩
  · obtain ⟨as, href', rfl⟩ := href.switchRun hrun
    -- the thread still waits, and who waits is not current
    have hpos := Fifo.position_run ht hle
    refine ⟨fun hcur => ?_, _, href'.queued, hpos⟩
    rw [href'.current] at hcur
    apply href'.current_notMem
    rw [Option.some.inj hcur]
    exact List.mem_of_getElem? hpos
  · obtain ⟨as, href', hn⟩ := href.switchRun hrun
    rw [(href'.step hstep).current]
    exact congrArg some (Fifo.current_of_switch ht hn ((href'.switch_iff hstep).mp hsw))

/-- Two threads wait in turn. -/
theorem roundRobin_twoThreads :
    ∃ r, Run StrictStep schedBoot
      [.create 16, .add (.heap 16), .create 32, .add (.heap 32), .yield, .sleep 20 0] r ∧
      RoundRobin [.create 16, .add (.heap 16), .create 32, .add (.heap 32), .yield, .sleep 20 0] r := by
  obtain ⟨r, hrun⟩ : ∃ r, Run StrictStep schedBoot
      [.create 16, .add (.heap 16), .create 32, .add (.heap 32), .yield, .sleep 20 0] r :=
    ⟨_, .cons ⟨trivial, by decide, 0, rfl⟩
      (.cons ⟨trivial, by decide, 0, rfl⟩
      (.cons ⟨trivial, by decide, 0, rfl⟩
      (.cons ⟨trivial, by decide, 0, rfl⟩
      (.cons ⟨trivial, trivial, 0, rfl⟩
      (.single ⟨by decide, trivial, 0, rfl⟩)))))⟩
  exact ⟨r, hrun, roundRobin_of_run _ r hrun⟩

end Aerogel
