import Aerogel.Foundations.RoundRobin
import Aerogel.Scheduler.SchedRuns

/-! # The scheduler is first-in, first-out

As long as the idle thread neither sleeps nor exits, the scheduler refines the abstract `Fifo`: the ring
is the queue, and a thread's state says where it is. Every step of the code is the step of the queue
that `SchedOp.toFifo` names. The representation invariant and the round-robin order follow. -/

namespace Aerogel

/-- A step in which the idle thread neither sleeps nor exits. -/
def StrictStep (r : SchedRun) (op : SchedOp) (r' : SchedRun) : Prop :=
  op.NotByIdle r ∧ SchedStep r op r'

/-- What an operation means for the queue. -/
def SchedOp.toFifo : SchedOp → FifoOp ThreadPtr
  | .create _ | .tick _ => .pass
  | .add t => .arrive t
  | .wake t => .wake t
  | .yield => .yield
  | .sleep _ _ => .sleep
  | .exit => .exit

/-- The queue after `sched_init`. -/
def fifoBoot : Fifo ThreadPtr := { queue := [], current := .idleTcb, asleep := ∅, gone := ∅ }

/-- The view shows the queue, and a thread's state says where it is. -/
structure FifoView (member : ThreadPtr → Prop) (f : Fifo ThreadPtr) (v : View) : Prop where
  /-- The ring is the queue. -/
  ring : v.ring = f.queue
  /-- Both run the same thread. -/
  current : v.current = f.current
  /-- The queue holds the ready threads that take part. -/
  queue_iff : ∀ t, t ∈ f.queue ↔ member t ∧ v.state t = .ready
  /-- The current thread is the running one. -/
  current_iff : ∀ t, t = f.current ↔ v.state t = .running
  /-- Sleeping threads are asleep. -/
  asleep_iff : ∀ t, t ∈ f.asleep ↔ v.state t = .sleeping
  /-- Exited threads are gone. -/
  gone_iff : ∀ t, t ∈ f.gone ↔ v.state t = .zombie
  /-- No thread is blocked. -/
  not_blocked : ∀ t, v.state t ≠ .blocked
  /-- The idle thread runs or waits to run. -/
  idle : f.current = .idleTcb ∨ .idleTcb ∈ f.queue

/-- `sched_yield` with a head to run. -/
theorem View.switch_cons {v : View} {t : ThreadPtr} {l : List ThreadPtr} (hring : v.ring = t :: l) :
    v.switch.ring = l ++ (if v.state v.current = .running then [v.current] else []) ∧
      v.switch.current = t ∧
      ∀ x, v.switch.state x = if x = t then .running
        else if x = v.current ∧ v.state v.current = .running then .ready else v.state x := by
  unfold View.switch
  rw [hring]
  by_cases hrun : v.state v.current = .running
  · rw [if_pos hrun]
    simp only [hrun, and_true]
    refine ⟨rfl, trivial, fun x => ?_⟩
    exact (View.put_state _ t .running x).trans (if_congr Iff.rfl rfl (View.append_state _ _ x))
  · rw [if_neg hrun]
    simp only [hrun, and_false, if_false]
    exact ⟨(List.append_nil l).symm, trivial, fun x => View.put_state _ t .running x⟩

namespace FifoView

variable {member : ThreadPtr → Prop} {f : Fifo ThreadPtr} {v : View} {t : ThreadPtr}

/-- Both start alike. -/
theorem boot : FifoView schedBoot.Member fifoBoot View.boot where
  ring := rfl
  current := rfl
  queue_iff := by
    intro t
    simp [fifoBoot, SchedRun.Member, schedBoot, View.boot]
  current_iff := by
    intro t
    simp [fifoBoot, View.boot]
  asleep_iff := by
    intro t
    simp only [fifoBoot, View.boot, Finset.notMem_empty, false_iff]
    split <;> exact fun h => ThreadState.noConfusion h
  gone_iff := by
    intro t
    simp only [fifoBoot, View.boot, Finset.notMem_empty, false_iff]
    split <;> exact fun h => ThreadState.noConfusion h
  not_blocked := by
    intro t
    simp only [View.boot]
    split <;> exact fun h => ThreadState.noConfusion h
  idle := Or.inl rfl

/-- A thread arrives that did not take part before. -/
theorem arrive {member' : ThreadPtr → Prop} (h : FifoView member f v)
    (hmem : ∀ x, member' x ↔ x = t ∨ member x) (hfresh : v.state t = .ready) :
    FifoView member' (f.exec (.arrive t)) (v.append t) := by
  have hstate : ∀ x, (v.append t).state x = v.state x := by
    intro x
    rw [View.append_state]
    by_cases hx : x = t
    · rw [if_pos hx, hx, hfresh]
    · rw [if_neg hx]
  refine ⟨?_, h.current, fun x => ?_, ?_, ?_, ?_, ?_, ?_⟩
  · exact congrArg (· ++ [t]) h.ring
  · rw [hstate, hmem, Fifo.exec, List.mem_append, h.queue_iff, List.mem_singleton]
    by_cases hx : x = t
    · simp [hx, hfresh]
    · simp [hx]
  · exact fun x => hstate x ▸ h.current_iff x
  · exact fun x => hstate x ▸ h.asleep_iff x
  · exact fun x => hstate x ▸ h.gone_iff x
  · exact fun x => hstate x ▸ h.not_blocked x
  · exact h.idle.imp_right fun hidle => List.mem_append_left _ hidle

/-- A sleeping thread is woken. -/
theorem wake (h : FifoView member f v) (hm : member t) (ht : v.state t = .sleeping) :
    FifoView member (f.exec (.wake t)) (v.append t) := by
  rw [Fifo.exec, if_pos ((h.asleep_iff t).mpr ht)]
  refine ⟨congrArg (· ++ [t]) h.ring, h.current, fun x => ?_, fun x => ?_, fun x => ?_, fun x => ?_,
    fun x => ?_, h.idle.imp_right fun hidle => List.mem_append_left _ hidle⟩
  all_goals rw [View.append_state]
  · rw [List.mem_append, h.queue_iff, List.mem_singleton]
    by_cases hx : x = t
    · simp [hx, hm]
    · simp [hx]
  · have hcur := h.current_iff x
    by_cases hx : x = t
    · rw [if_pos hx]
      rw [hx, ht] at hcur
      rw [hx, hcur]
      simp
    · rw [if_neg hx]
      exact hcur
  · rw [Finset.mem_erase, h.asleep_iff]
    by_cases hx : x = t <;> simp [hx]
  · have hgone := h.gone_iff x
    by_cases hx : x = t
    · rw [if_pos hx]
      rw [hx, ht] at hgone
      rw [hx, hgone]
      simp
    · rw [if_neg hx]
      exact hgone
  · by_cases hx : x = t
    · simp [hx]
    · rw [if_neg hx]
      exact h.not_blocked x

/-- The running thread is the view's current one. -/
theorem running (h : FifoView member f v) : v.state v.current = .running := by
  rw [h.current, ← h.current_iff]

/-- The running thread yields to the head. -/
theorem yield (h : FifoView member f v) (hm : member v.current) (hnodup : v.ring.Nodup) :
    FifoView member (f.exec .yield) v.switch := by
  have hrun := h.running
  cases hq : f.queue with
  | nil =>
      have hring : v.ring = [] := h.ring.trans hq
      have hf : f.exec .yield = f := by simp only [Fifo.exec, Fifo.next, hq]
      have hv : v.switch = v := by simp only [View.switch, hring]
      rw [hf, hv]
      exact h
  | cons t l =>
      have hring : v.ring = t :: l := h.ring.trans hq
      obtain ⟨hring', hcur', hstate'⟩ := View.switch_cons hring
      obtain ⟨-, hcur, hqueue, hcurrent, hasleep, hgone, hblocked, hidle⟩ := h
      simp only [Fifo.exec, Fifo.next, hq]
      -- the head runs, the caller is ready at the tail, and nobody else moves
      refine ⟨?_, hcur', fun x => ?_, fun x => ?_, fun x => ?_, fun x => ?_, fun x => ?_, ?_⟩
      all_goals grind

/-- The running thread is not in the ring. -/
theorem current_notMem (h : FifoView member f v) : v.current ∉ v.ring := by
  rw [h.ring, h.queue_iff, h.running]
  exact fun hh => ThreadState.noConfusion hh.2

/-- The running thread leaves for good or falls asleep, and the head runs. -/
theorem leave (h : FifoView member f v) (hnodup : v.ring.Nodup) (hidle : v.current ≠ .idleTcb)
    {st : ThreadState} (hst : st = .sleeping ∨ st = .zombie) {asleep gone : Finset ThreadPtr}
    (hasleep' : ∀ x, x ∈ asleep ↔ (x = f.current ∧ st = .sleeping) ∨ x ∈ f.asleep)
    (hgone' : ∀ x, x ∈ gone ↔ (x = f.current ∧ st = .zombie) ∨ x ∈ f.gone) :
    FifoView member (({ f with asleep := asleep, gone := gone } : Fifo ThreadPtr).next [])
      (v.put v.current st).switch := by
  have hrun := h.running
  -- the idle thread is in the queue, so there is a head
  obtain ⟨t, l, hq⟩ : ∃ t l, f.queue = t :: l :=
    List.exists_cons_of_ne_nil (List.ne_nil_of_mem (h.idle.resolve_left (h.current ▸ hidle)))
  have hring : (v.put v.current st).ring = t :: l := h.ring.trans hq
  obtain ⟨hring', hcur', hstate'⟩ := View.switch_cons hring
  simp only [View.put_state, View.put_current, View.put_ring] at hring hring' hstate'
  obtain ⟨-, hcur, hqueue, hcurrent, hasleep, hgone, hblocked, hidle'⟩ := h
  simp only [Fifo.next, hq]
  refine ⟨?_, hcur', fun x => ?_, fun x => ?_, fun x => ?_, fun x => ?_, fun x => ?_, ?_⟩
  all_goals grind

/-- Every step of the code is the step of the queue. -/
theorem step {r r' : SchedRun} {op : SchedOp} (h : FifoView r.Member f v) (hinv : RingInv r v)
    (hstep : StrictStep r op r') : FifoView r'.Member (f.exec op.toFifo) (v.exec op) := by
  obtain ⟨hnot, hallow, fuel, hexec⟩ := hstep
  have hcur : r.sched.currentThread = some v.current := hinv.viewed.current
  cases op with
  | create addr =>
      cases hexec
      have hadd : .heap addr ∉ r.added := fun hmem => hallow (hinv.added_created hmem)
      obtain ⟨hm, -⟩ := hinv.not_member (fun h => ThreadPtr.noConfusion h) hadd
      -- a new thread takes no part yet: the queue does not see it
      have hready := hinv.ok.fresh _ hm
      have hsame : v.put (.heap addr) .ready = v := by
        rw [View.put, ← hready, Function.update_eq_self]
      rw [View.exec, hsame]
      exact h
  | add t =>
      cases hexec
      obtain ⟨hcreated, hadd⟩ := hallow
      obtain ⟨hm, -⟩ := hinv.not_member (fun ht => hinv.idle_created (ht ▸ hcreated)) hadd
      refine h.arrive (fun x => ?_) (hinv.ok.fresh t hm)
      simp only [SchedRun.Member, Finset.mem_insert, or_assoc]
  | yield =>
      cases hexec
      exact h.yield hinv.ok.current_member hinv.ok.nodup
  | sleep ms now =>
      cases hexec
      rw [View.exec, List.erase_of_not_mem h.current_notMem]
      exact h.leave hinv.ok.nodup (fun hidle => hnot (hcur.trans (congrArg some hidle)))
        (Or.inl rfl) (fun x => by simp) (fun x => by simp)
  | exit =>
      cases hexec
      exact h.leave hinv.ok.nodup (fun hidle => hnot (hcur.trans (congrArg some hidle)))
        (Or.inr rfl) (fun x => by simp) (fun x => by simp)
  | wake t =>
      cases hexec
      rw [View.exec]
      by_cases ht : v.state t = .sleeping ∨ v.state t = .blocked
      · rw [if_pos ht]
        have hsleep := ht.resolve_right (h.not_blocked t)
        -- who sleeps has run, so it takes part
        refine h.wake ?_ hsleep
        by_contra hm
        exact ThreadState.noConfusion ((hinv.ok.fresh t hm).symm.trans hsleep)
      · have hnotasleep : t ∉ f.asleep := fun hmem => ht (Or.inl ((h.asleep_iff t).mp hmem))
        rw [if_neg ht, SchedOp.toFifo, Fifo.exec, if_neg hnotasleep]
        exact h
  | tick now =>
      cases htick : schedTick fuel now r.sched with
      | error e =>
          rw [SchedOp.exec, htick] at hexec
          cases hexec
      | ok s =>
          rw [SchedOp.exec, htick] at hexec
          cases hexec
          exact h

end FifoView

/-- The run's state is that of the queue. -/
def Refines (f : Fifo ThreadPtr) (r : SchedRun) : Prop :=
  ∃ v, RingInv r v ∧ FifoView r.Member f v

namespace Refines

variable {f : Fifo ThreadPtr} {r r' : SchedRun}

/-- The ring lists the queue. -/
theorem queued (h : Refines f r) : Queued r.sched f.queue := by
  obtain ⟨v, hinv, hview⟩ := h
  rw [← hview.ring]
  exact hinv.viewed.queued

/-- Both start alike. -/
theorem boot : Refines fifoBoot schedBoot := ⟨View.boot, .boot, .boot⟩

/-- One step of the code is one step of the queue. -/
theorem step {op : SchedOp} (h : Refines f r) (hstep : StrictStep r op r') :
    Refines (f.exec op.toFifo) r' := by
  obtain ⟨v, hinv, hview⟩ := h
  exact ⟨_, hinv.step hstep.2, hview.step hinv hstep⟩

/-- A run of the code is a run of the queue. -/
theorem run {ops : List SchedOp} (h : Refines f r) (hrun : Run StrictStep r ops r') :
    Refines (f.run (ops.map SchedOp.toFifo)) r' := by
  induction hrun generalizing f with
  | nil => exact h
  | cons hstep _ ih => exact ih (h.step hstep)

end Refines

end Aerogel
