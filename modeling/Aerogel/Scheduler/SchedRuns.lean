import Aerogel.Foundations.Run
import Aerogel.Scheduler.SchedSpec
import Mathlib.Data.Finset.Insert

/-! # Runs of the scheduler

After `sched_init` threads are created and added, the current thread yields, sleeps or exits, others
are woken, and the timer ticks. `RingInv` holds in every state of every such run, also when the idle
thread itself sleeps or exits: the ring is well formed, its threads are ready or have exited, and a
sleeping thread is never in it. -/

namespace Aerogel

/-! ## Runs -/

/-- The scheduler together with the threads made so far. -/
structure SchedRun where
  /-- The scheduler's state. -/
  sched : Sched
  /-- The threads made by `thread_create`. -/
  created : Finset ThreadPtr
  /-- The threads given to `sched_add`. -/
  added : Finset ThreadPtr

/-- What happens in a run. `yield`, `sleep` and `exit` are calls by the current thread; `now` is what
`pit_ticks()` returns. -/
inductive SchedOp
  | create (addr : Nat)
  | add (t : ThreadPtr)
  | yield
  | sleep (ms now : Nat)
  | exit
  | wake (t : ThreadPtr)
  | tick (now : Nat)
  deriving DecidableEq, Repr

namespace SchedOp

/-- The contract of the calls: `kmalloc` returns unused memory, a thread is added once, and pointers
point to threads. -/
def Allowed (r : SchedRun) : SchedOp → Prop
  | .create addr => .heap addr ∉ r.created
  | .add t => t ∈ r.created ∧ t ∉ r.added
  | .wake t => t = .idleTcb ∨ t ∈ r.created
  | .yield | .sleep _ _ | .exit | .tick _ => True

instance (r : SchedRun) (op : SchedOp) : Decidable (op.Allowed r) :=
  match op with
  | .create addr => inferInstanceAs (Decidable (ThreadPtr.heap addr ∉ r.created))
  | .add t => inferInstanceAs (Decidable (t ∈ r.created ∧ t ∉ r.added))
  | .wake t => inferInstanceAs (Decidable (t = .idleTcb ∨ t ∈ r.created))
  | .yield | .sleep _ _ | .exit | .tick _ => inferInstanceAs (Decidable True)

/-- The idle thread neither sleeps nor exits. -/
def NotByIdle (r : SchedRun) : SchedOp → Prop
  | .sleep _ _ | .exit => r.sched.currentThread ≠ some .idleTcb
  | .create _ | .add _ | .yield | .wake _ | .tick _ => True

instance (r : SchedRun) (op : SchedOp) : Decidable (op.NotByIdle r) :=
  match op with
  | .sleep _ _ | .exit => inferInstanceAs (Decidable (r.sched.currentThread ≠ some .idleTcb))
  | .create _ | .add _ | .yield | .wake _ | .tick _ => inferInstanceAs (Decidable True)

/-- Perform the operation. -/
def exec (fuel : Nat) (r : SchedRun) : SchedOp → Except Halt SchedRun
  | .create addr => .ok { r with
      sched := threadCreate r.sched addr, created := insert (.heap addr) r.created }
  | .add t => .ok { r with sched := schedAdd r.sched t, added := insert t r.added }
  | .yield => .ok { r with sched := schedYield r.sched }
  | .sleep ms now => .ok { r with sched := schedSleep r.sched ms now }
  | .exit => .ok { r with sched := threadExit r.sched }
  | .wake t => .ok { r with sched := schedWake r.sched t }
  | .tick now => (schedTick fuel now r.sched).map fun s => { r with sched := s }

end SchedOp

/-- One step: an allowed operation that returns. -/
def SchedStep (r : SchedRun) (op : SchedOp) (r' : SchedRun) : Prop :=
  op.Allowed r ∧ ∃ fuel, op.exec fuel r = .ok r'

/-- The state after `sched_init`. -/
def schedBoot : SchedRun := { sched := schedInit .static, created := ∅, added := ∅ }

/-- What an operation does to the view. -/
def View.exec (v : View) : SchedOp → View
  | .create addr => v.put (.heap addr) .ready
  | .add t => v.append t
  | .yield => v.switch
  | .sleep _ _ =>
    ({ v.put v.current .sleeping with ring := v.ring.erase v.current } : View).switch
  | .exit => (v.put v.current .zombie).switch
  | .wake t => if v.state t = .sleeping ∨ v.state t = .blocked then v.append t else v
  | .tick _ => v

/-! ## Threads that take part in scheduling -/

/-- What holds of a view, given which threads take part in scheduling. -/
structure RingOk (member : ThreadPtr → Prop) (v : View) : Prop where
  /-- No thread is in the ring twice. -/
  nodup : v.ring.Nodup
  /-- Threads in the ring are ready, or have exited while queued. -/
  ring_state : ∀ t ∈ v.ring, v.state t = .ready ∨ v.state t = .zombie
  /-- Threads in the ring take part. -/
  ring_member : ∀ t ∈ v.ring, member t
  /-- The current thread takes part. -/
  current_member : member v.current
  /-- Threads that do not take part are as `thread_create` leaves them. -/
  fresh : ∀ t, ¬ member t → v.state t = .ready

namespace RingOk

variable {member : ThreadPtr → Prop} {v : View} {t : ThreadPtr}

/-- Sleeping threads are not in the ring. -/
theorem not_sleeping (h : RingOk member v) (ht : t ∈ v.ring) : v.state t ≠ .sleeping := by
  rcases h.ring_state t ht with hs | hs <;> rw [hs] <;> exact fun h => ThreadState.noConfusion h

/-- A running thread is not in the ring. -/
theorem not_running (h : RingOk member v) (hrun : v.state t = .running) : t ∉ v.ring := by
  intro ht
  rcases h.ring_state t ht with hs | hs <;> rw [hs] at hrun <;> exact ThreadState.noConfusion hrun

/-- More threads take part. -/
theorem mono {member' : ThreadPtr → Prop} (h : RingOk member v) (hm : ∀ t, member t → member' t) :
    RingOk member' v where
  nodup := h.nodup
  ring_state := h.ring_state
  ring_member := fun t ht => hm t (h.ring_member t ht)
  current_member := hm _ h.current_member
  fresh := fun t ht => h.fresh t fun hmt => ht (hm t hmt)

/-- A thread is made. -/
theorem create (h : RingOk member v) (ht : t ∉ v.ring) : RingOk member (v.put t .ready) where
  nodup := h.nodup
  ring_state := by
    intro x hx
    have hxt : x ≠ t := fun hxt => ht (hxt ▸ hx)
    rw [View.put_state, if_neg hxt]
    exact h.ring_state x hx
  ring_member := h.ring_member
  current_member := h.current_member
  fresh := by
    intro x hx
    rw [View.put_state]
    split
    · rfl
    · exact h.fresh x hx

/-- A thread that takes part is appended. -/
theorem append (h : RingOk member v) (hm : member t) (ht : t ∉ v.ring) :
    RingOk member (v.append t) where
  nodup := by
    refine List.nodup_append.mpr ⟨h.nodup, by simp, fun a ha b hb => ?_⟩
    rw [List.mem_singleton.mp hb]
    exact fun hab => ht (hab ▸ ha)
  ring_state := by
    intro x hx
    rw [View.append_state]
    split
    · exact Or.inl rfl
    · rename_i hxt
      rcases List.mem_append.mp hx with hx | hx
      · exact h.ring_state x hx
      · exact absurd (List.mem_singleton.mp hx) hxt
  ring_member := by
    intro x hx
    rcases List.mem_append.mp hx with hx | hx
    · exact h.ring_member x hx
    · exact List.mem_singleton.mp hx ▸ hm
  current_member := h.current_member
  fresh := by
    intro x hx
    rw [View.append_state]
    split
    · rfl
    · exact h.fresh x hx

/-- The current thread changes its state for good and leaves the ring, or dies in it. -/
theorem putCurrent (h : RingOk member v) {st : ThreadState} {ring : List ThreadPtr}
    (hsub : ring.Sublist v.ring) (hst : st = .zombie ∨ v.current ∉ ring) :
    RingOk member { v.put v.current st with ring := ring } where
  nodup := h.nodup.sublist hsub
  ring_state := by
    intro x hx
    change (v.put v.current st).state x = _ ∨ (v.put v.current st).state x = _
    rw [View.put_state]
    by_cases hxc : x = v.current
    · rw [if_pos hxc]
      exact Or.inr (hst.resolve_right fun hout => hout (hxc ▸ hx))
    · rw [if_neg hxc]
      exact h.ring_state x (hsub.subset hx)
  ring_member := fun x hx => h.ring_member x (hsub.subset hx)
  current_member := h.current_member
  fresh := by
    intro x hx
    have hxc : x ≠ v.current := fun hxc => hx (hxc ▸ h.current_member)
    change (v.put v.current st).state x = _
    rw [View.put_state, if_neg hxc]
    exact h.fresh x hx

/-- The head of the ring runs. -/
theorem runHead (h : RingOk member v) (hm : member t) (ht : t ∉ v.ring) :
    RingOk member { v.put t .running with current := t } where
  nodup := h.nodup
  ring_state := by
    intro x hx
    have hxt : x ≠ t := fun hxt => ht (hxt ▸ hx)
    change (v.put t .running).state x = _ ∨ (v.put t .running).state x = _
    rw [View.put_state, if_neg hxt]
    exact h.ring_state x hx
  ring_member := h.ring_member
  current_member := hm
  fresh := by
    intro x hx
    have hxt : x ≠ t := fun hxt => hx (hxt ▸ hm)
    change (v.put t .running).state x = _
    rw [View.put_state, if_neg hxt]
    exact h.fresh x hx

/-- A switch. -/
theorem switch (h : RingOk member v) : RingOk member v.switch := by
  unfold View.switch
  cases hring : v.ring with
  | nil => exact h
  | cons t l =>
      have hnodup := h.nodup
      rw [hring, List.nodup_cons] at hnodup
      have hm : member t := h.ring_member t (by simp [hring])
      have htail : RingOk member { v with ring := l } := by
        refine ⟨hnodup.2, fun x hx => ?_, fun x hx => ?_, h.current_member, h.fresh⟩
        · exact h.ring_state x (hring ▸ List.mem_cons_of_mem t hx)
        · exact h.ring_member x (hring ▸ List.mem_cons_of_mem t hx)
      simp only
      by_cases hrun : v.state v.current = .running
      · rw [if_pos hrun]
        -- the caller goes to the tail, and is not the head
        have hout := h.not_running hrun
        rw [hring, List.mem_cons, not_or] at hout
        refine (htail.append h.current_member hout.2).runHead hm fun hmem => ?_
        rcases List.mem_append.mp hmem with hmem | hmem
        · exact hnodup.1 hmem
        · exact hout.1 (List.mem_singleton.mp hmem).symm
      · rw [if_neg hrun]
        exact htail.runHead hm hnodup.1

end RingOk

/-! ## The invariant of all runs -/

/-- The thread takes part in scheduling: it was added, or it is the idle thread. -/
def SchedRun.Member (r : SchedRun) (t : ThreadPtr) : Prop := t ∈ r.added ∨ t = .idleTcb

/-- The run's state looks like the view, and the view is fine. -/
structure RingInv (r : SchedRun) (v : View) : Prop where
  /-- The records look like the view. -/
  viewed : Viewed r.sched v
  /-- The view is fine. -/
  ok : RingOk r.Member v
  /-- Only threads that exist are added. -/
  added_created : r.added ⊆ r.created
  /-- The idle thread is not made by `thread_create`. -/
  idle_created : .idleTcb ∉ r.created

/-- The view after `sched_init`: the idle thread runs. -/
def View.boot : View where
  ring := []
  current := .idleTcb
  state := fun t => if t = .idleTcb then .running else .ready

namespace RingInv

variable {r r' : SchedRun} {v : View} {t : ThreadPtr} {op : SchedOp}

/-- The invariant holds after `sched_init`. -/
theorem boot : RingInv schedBoot View.boot where
  viewed := by
    refine ⟨⟨rfl, trivial, List.nodup_nil, fun t _ => ?_⟩, rfl, fun t => ?_⟩
    · cases t <;> rfl
    · cases t <;> rfl
  ok := by
    refine ⟨List.nodup_nil, fun t ht => absurd ht List.not_mem_nil,
      fun t ht => absurd ht List.not_mem_nil, Or.inr rfl, fun t ht => ?_⟩
    exact if_neg fun hidle => ht (Or.inr hidle)
  added_created := Finset.Subset.refl _
  idle_created := Finset.notMem_empty _

/-- A thread that was not added does not take part, nor is it in the ring. -/
theorem not_member (h : RingInv r v) (hidle : t ≠ .idleTcb) (ha : t ∉ r.added) :
    ¬ r.Member t ∧ t ∉ v.ring := by
  have hm : ¬ r.Member t := fun hm => hm.elim ha hidle
  exact ⟨hm, fun ht => hm (h.ok.ring_member t ht)⟩

/-- Every step of a run acts on the view and keeps the invariant. -/
theorem step (h : RingInv r v) (hstep : SchedStep r op r') : RingInv r' (v.exec op) := by
  obtain ⟨hallow, fuel, hexec⟩ := hstep
  cases op with
  | create addr =>
      cases hexec
      -- the address is unused, so no thread of the ring is overwritten
      have hadd : .heap addr ∉ r.added := fun hmem => hallow (h.added_created hmem)
      obtain ⟨-, hout⟩ := h.not_member (fun h => ThreadPtr.noConfusion h) hadd
      refine ⟨h.viewed.create hout, h.ok.create hout, ?_, ?_⟩
      · exact h.added_created.trans (Finset.subset_insert _ _)
      · rw [Finset.mem_insert, not_or]
        exact ⟨fun h => ThreadPtr.noConfusion h, h.idle_created⟩
  | add t =>
      cases hexec
      obtain ⟨hcreated, hadd⟩ := hallow
      have hidle : t ≠ .idleTcb := fun ht => h.idle_created (ht ▸ hcreated)
      obtain ⟨-, hout⟩ := h.not_member hidle hadd
      refine ⟨h.viewed.append hout, ?_, ?_, h.idle_created⟩
      · refine (h.ok.mono fun x hx => ?_).append (Or.inl (Finset.mem_insert_self _ _)) hout
        exact hx.imp_left fun hx => Finset.mem_insert_of_mem hx
      · exact Finset.insert_subset hcreated h.added_created
  | yield =>
      cases hexec
      exact ⟨h.viewed.yield h.ok.not_running, h.ok.switch, h.added_created, h.idle_created⟩
  | sleep ms now =>
      cases hexec
      refine ⟨h.viewed.sleep ms now, (h.ok.putCurrent List.erase_sublist (Or.inr ?_)).switch,
        h.added_created, h.idle_created⟩
      exact h.ok.nodup.not_mem_erase
  | exit =>
      cases hexec
      exact ⟨h.viewed.exit, (h.ok.putCurrent (List.Sublist.refl _) (Or.inl rfl)).switch,
        h.added_created, h.idle_created⟩
  | wake t =>
      cases hexec
      rw [View.exec]
      by_cases ht : v.state t = .sleeping ∨ v.state t = .blocked
      · -- a thread that sleeps is not in the ring, and it takes part
        rw [if_pos ht]
        have hout : t ∉ v.ring := by
          intro hmem
          rcases h.ok.ring_state t hmem with hs | hs <;> rcases ht with ht | ht <;>
            exact ThreadState.noConfusion (hs.symm.trans ht)
        have hm : r.Member t := by
          by_contra hm
          have hs := h.ok.fresh t hm
          rcases ht with ht | ht <;> exact ThreadState.noConfusion (hs.symm.trans ht)
        exact ⟨h.viewed.wake ht hout, h.ok.append hm hout, h.added_created, h.idle_created⟩
      · rw [if_neg ht]
        refine ⟨?_, h.ok, h.added_created, h.idle_created⟩
        rw [h.viewed.wake_skip ht]
        exact h.viewed
  | tick now =>
      cases htick : schedTick fuel now r.sched with
      | error e =>
          rw [SchedOp.exec, htick] at hexec
          cases hexec
      | ok s =>
          rw [SchedOp.exec, htick] at hexec
          cases hexec
          -- nobody in the ring sleeps, so the scan changes nothing
          obtain rfl := (h.viewed.tick (fun x hx => h.ok.not_sleeping hx) now).2 fuel s htick
          exact ⟨h.viewed.charge _, h.ok, h.added_created, h.idle_created⟩

/-- The invariant holds in every state of every run. -/
theorem of_reachable (h : Reachable SchedStep schedBoot r) : ∃ v, RingInv r v :=
  h.invariant (I := fun r => ∃ v, RingInv r v) (fun _ _ _ ⟨_, hr⟩ hstep => ⟨_, hr.step hstep⟩)
    ⟨_, boot⟩

end RingInv

end Aerogel
