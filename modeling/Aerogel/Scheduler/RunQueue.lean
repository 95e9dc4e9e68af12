import Aerogel.Foundations.LinkedSegment
import Aerogel.Scheduler.Sched
import Mathlib.Data.List.Nodup

/-! # The run queue as a list

`Queued s l` says that the ring entered at `run_queue_head` lists the threads `l`, each once, and that
every other thread is unlinked. `enqueue` appends, `dequeue_next` takes the head and `sched_remove`
deletes. None of them touches anything but links and the state of an enqueued thread; `info`, a
thread record without its links, carries that half of their specification. -/

namespace Aerogel

variable {s : Sched} {l r : List ThreadPtr} {t h z : ThreadPtr}

namespace Sched

/-! ## Changing one record -/

@[simp] theorem modify_tcb (s : Sched) (t : ThreadPtr) (f : Thread → Thread) (x : ThreadPtr) :
    (s.modify t f).tcb x = if x = t then f (s.tcb t) else s.tcb x :=
  Function.update_apply s.tcb t _ x

@[simp] theorem modify_runQueueHead (s : Sched) (t : ThreadPtr) (f : Thread → Thread) :
    (s.modify t f).runQueueHead = s.runQueueHead := rfl

@[simp] theorem modify_currentThread (s : Sched) (t : ThreadPtr) (f : Thread → Thread) :
    (s.modify t f).currentThread = s.currentThread := rfl

@[simp] theorem modifyAt_some (s : Sched) (t : ThreadPtr) (f : Thread → Thread) :
    s.modifyAt (some t) f = s.modify t f := rfl

@[simp] theorem modifyAt_runQueueHead (s : Sched) (p : Option ThreadPtr) (f : Thread → Thread) :
    (s.modifyAt p f).runQueueHead = s.runQueueHead := by
  cases p <;> rfl

@[simp] theorem modifyAt_currentThread (s : Sched) (p : Option ThreadPtr) (f : Thread → Thread) :
    (s.modifyAt p f).currentThread = s.currentThread := by
  cases p <;> rfl

end Sched

/-- A thread record without its links. -/
def Thread.strip (t : Thread) : Thread := { t with next := none, prev := none }

@[simp] theorem Thread.strip_setNext (v : Option ThreadPtr) (t : Thread) :
    (t.setNext v).strip = t.strip := rfl

@[simp] theorem Thread.strip_setPrev (v : Option ThreadPtr) (t : Thread) :
    (t.setPrev v).strip = t.strip := rfl

namespace Sched

/-- What is known of a thread besides its links. -/
def info (s : Sched) (t : ThreadPtr) : Thread := (s.tcb t).strip

/-- A change to one record changes its own information only. -/
theorem info_modify (s : Sched) (t : ThreadPtr) (f : Thread → Thread) (x : ThreadPtr) :
    (s.modify t f).info x = if x = t then (f (s.tcb t)).strip else s.info x := by
  rw [info, modify_tcb]
  split <;> rfl

@[simp] theorem info_modify_setNext (s : Sched) (t : ThreadPtr) (v : Option ThreadPtr)
    (x : ThreadPtr) : (s.modify t (.setNext v)).info x = s.info x := by
  rw [info_modify]
  by_cases hx : x = t
  · rw [if_pos hx, Thread.strip_setNext, hx, info]
  · rw [if_neg hx]

@[simp] theorem info_modify_setPrev (s : Sched) (t : ThreadPtr) (v : Option ThreadPtr)
    (x : ThreadPtr) : (s.modify t (.setPrev v)).info x = s.info x := by
  rw [info_modify]
  by_cases hx : x = t
  · rw [if_pos hx, Thread.strip_setPrev, hx, info]
  · rw [if_neg hx]

@[simp] theorem info_modifyAt_setNext (s : Sched) (p v : Option ThreadPtr) (x : ThreadPtr) :
    (s.modifyAt p (.setNext v)).info x = s.info x := by
  cases p with
  | none => rfl
  | some t => exact info_modify_setNext s t v x

@[simp] theorem info_modifyAt_setPrev (s : Sched) (p v : Option ThreadPtr) (x : ThreadPtr) :
    (s.modifyAt p (.setPrev v)).info x = s.info x := by
  cases p with
  | none => rfl
  | some t => exact info_modify_setPrev s t v x

end Sched

/-! ## The ring -/

/-- The ring at `run_queue_head` lists `l`, and all other threads are unlinked. -/
structure Queued (s : Sched) (l : List ThreadPtr) : Prop where
  /-- The ring is entered at its first thread. -/
  head : s.runQueueHead = l.head?
  /-- Forward and backward links form a ring. -/
  cycle : DCycle (fun t => (s.tcb t).next) (fun t => (s.tcb t).prev) l
  /-- No thread is in the ring twice. -/
  nodup : l.Nodup
  /-- Threads outside the ring are unlinked. -/
  off : ∀ t ∉ l, (s.tcb t).next = none

/-- Only the head and the links matter. -/
theorem Queued.congr {s' : Sched} (hq : Queued s l) (hhead : s'.runQueueHead = s.runQueueHead)
    (hlinks : ∀ t, (s'.tcb t).next = (s.tcb t).next ∧ (s'.tcb t).prev = (s.tcb t).prev) :
    Queued s' l where
  head := hhead.trans hq.head
  cycle := hq.cycle.congr (fun t _ => (hlinks t).1) (fun t _ => (hlinks t).2)
  nodup := hq.nodup
  off := fun t ht => (hlinks t).1.trans (hq.off t ht)

/-- Changing a record without touching its links keeps the ring. -/
theorem Queued.modify (hq : Queued s l) (t : ThreadPtr) {f : Thread → Thread}
    (hf : ∀ r : Thread, (f r).next = r.next ∧ (f r).prev = r.prev) : Queued (s.modify t f) l := by
  refine hq.congr rfl fun x => ?_
  rw [Sched.modify_tcb]
  by_cases hx : x = t
  · rw [if_pos hx, hx]
    exact hf _
  · rw [if_neg hx]
    exact ⟨rfl, rfl⟩

/-! ## `enqueue` -/

/-- `enqueue` into an empty ring. -/
theorem enqueue_of_empty (hhead : s.runQueueHead = none) (x : ThreadPtr) :
    ((enqueue s t).tcb x).next = (if x = t then some t else (s.tcb x).next) ∧
      ((enqueue s t).tcb x).prev = (if x = t then some t else (s.tcb x).prev) ∧
      (enqueue s t).runQueueHead = some t := by
  simp only [enqueue, Sched.modify_runQueueHead, hhead, Sched.modify_tcb]
  by_cases hx : x = t <;> simp [hx, Thread.setNext, Thread.setPrev, Thread.setState]

/-- `enqueue` into a ring with first thread `h` and last thread `z`. -/
theorem enqueue_of_cons (hhead : s.runQueueHead = some h) (hprev : (s.tcb h).prev = some z)
    (hth : h ≠ t) (htz : z ≠ t) (x : ThreadPtr) :
    ((enqueue s t).tcb x).next =
        (if x = z then some t else if x = t then some h else (s.tcb x).next) ∧
      ((enqueue s t).tcb x).prev =
        (if x = h then some t else if x = t then some z else (s.tcb x).prev) ∧
      (enqueue s t).runQueueHead = some h := by
  simp only [enqueue, Sched.modify_runQueueHead, hhead, Sched.modify_tcb, if_neg hth, hprev,
    Thread.setNext, Thread.setPrev, Thread.setState, Sched.modifyAt_some]
  split_ifs <;> simp_all

/-- The first thread of a ring is linked back to the last one. -/
theorem Queued.prev_head (hq : Queued s (h :: l)) :
    (s.tcb h).prev = (h :: l).getLast? :=
  hq.cycle.1

/-- `enqueue` appends. -/
theorem Queued.append (hq : Queued s l) (ht : t ∉ l) : Queued (enqueue s t) (l ++ [t]) := by
  have hnodup : (l ++ [t]).Nodup := by
    rw [List.nodup_append]
    refine ⟨hq.nodup, by simp, fun a ha b hb => ?_⟩
    rw [List.mem_singleton.mp hb]
    exact fun h => ht (h ▸ ha)
  cases l with
  | nil =>
      have henq := enqueue_of_empty (t := t) (show s.runQueueHead = none from hq.head)
      refine ⟨(henq t).2.2, DCycle.cons_iff.mpr ⟨?_, ?_, trivial⟩, hnodup, fun x hx => ?_⟩
      · exact (henq t).2.1.trans (if_pos rfl)
      · exact (henq t).1.trans (if_pos rfl)
      · rw [(henq x).1, if_neg (by simpa using hx)]
        exact hq.off x (by simp)
  | cons h l =>
      obtain ⟨z, hz⟩ : ∃ z, (h :: l).getLast? = some z := by simp [List.getLast?_cons]
      have hzmem : z ∈ h :: l := List.mem_of_getLast? hz
      have henq := enqueue_of_cons (t := t) (show s.runQueueHead = some h from hq.head)
        (hq.prev_head.trans hz) (fun hh => ht (by simp [hh])) (fun hh => ht (hh ▸ hzmem))
      refine ⟨(henq t).2.2, ?_, hnodup, fun x hx => ?_⟩
      -- `enqueue` links `t` between the last and the first thread
      · have hne : ∀ a ∈ h :: l, a ≠ t := fun a ha hat => ht (hat ▸ ha)
        refine hq.cycle.pushBack hq.nodup rfl hz ?_ ?_ ?_ ?_ ?_ ?_
        · simp only [(henq t).1, if_neg (Ne.symm (hne z hzmem)), if_true]
        · simp only [(henq t).2.1, if_neg (Ne.symm (hne h (by simp))), if_true]
        · simp only [(henq z).1, if_true]
        · simp only [(henq h).2.1, if_true]
        · intro a ha haz
          simp only [(henq a).1, if_neg haz, if_neg (hne a ha)]
        · intro a ha hah
          simp only [(henq a).2.1, if_neg hah, if_neg (hne a ha)]
      · have hx' : x ∉ h :: l ∧ x ≠ t := by
          simp only [List.mem_append, List.mem_singleton, not_or] at hx
          exact hx
        have hxz : x ≠ z := fun h => hx'.1 (h ▸ hzmem)
        rw [(henq x).1, if_neg hxz, if_neg hx'.2]
        exact hq.off x hx'.1

/-- Besides links, `enqueue` makes its thread ready. -/
theorem info_enqueue (s : Sched) (t x : ThreadPtr) :
    (enqueue s t).info x = if x = t then (s.info t).setState .ready else s.info x := by
  have hready : (s.modify t (.setState .ready)).info x =
      if x = t then (s.info t).setState .ready else s.info x :=
    Sched.info_modify s t _ x
  unfold enqueue
  cases hhead : s.runQueueHead with
  | none =>
      simp only [Sched.modify_runQueueHead, hhead, Sched.info_modify_setNext,
        Sched.info_modify_setPrev]
      exact hready
  | some h =>
      simp only [Sched.modify_runQueueHead, hhead, Sched.info_modify_setNext,
        Sched.info_modify_setPrev, Sched.info_modifyAt_setNext]
      exact hready

@[simp] theorem enqueue_currentThread (s : Sched) (t : ThreadPtr) :
    (enqueue s t).currentThread = s.currentThread := by
  unfold enqueue
  simp only [Sched.modify_runQueueHead]
  split <;> simp

/-! ## Taking a thread out -/

/-- `bypass` and `detach` of a thread between `p` and `n`. -/
theorem detach_bypass {p n : ThreadPtr} (hprev : (s.tcb t).prev = some p)
    (hnext : (s.tcb t).next = some n) (hp : p ≠ t) (x : ThreadPtr) :
    ((detach (bypass s t) t).tcb x).next =
        (if x = t then none else if x = p then some n else (s.tcb x).next) ∧
      ((detach (bypass s t) t).tcb x).prev =
        (if x = t then none else if x = n then some p else (s.tcb x).prev) := by
  simp only [detach, bypass, hprev, hnext, Sched.modifyAt_some, Sched.modify_tcb, if_neg hp.symm,
    Thread.setNext, Thread.setPrev]
  split_ifs <;> simp_all

/-- Taking a thread out of a ring with other threads in it. -/
theorem Queued.takeOut (hq : Queued s (l ++ t :: r)) (hne : l ++ r ≠ []) {hd : Option ThreadPtr}
    (hhd : hd = (l ++ r).head?) :
    Queued (detach (bypass { s with runQueueHead := hd } t) t) (l ++ r) := by
  obtain ⟨ht, hnodup⟩ : t ∉ l ++ r ∧ (l ++ r).Nodup :=
    List.nodup_cons.mp (List.nodup_middle.mp hq.nodup)
  have hrot : DCycle (fun t => (s.tcb t).next) (fun t => (s.tcb t).prev) (t :: (r ++ l)) := by
    have := hq.cycle.rotate
    rwa [List.cons_append] at this
  obtain ⟨hprev, hnext, -⟩ := DCycle.cons_iff.mp hrot
  -- in a ring of at least two threads both neighbours are other threads
  have hlr : r ++ l ≠ [] := by
    intro h
    rw [List.append_eq_nil_iff] at h
    exact hne (by rw [h.1, h.2]; rfl)
  obtain ⟨n, hn⟩ : ∃ n, (r ++ l).head? = some n := ⟨_, List.head?_eq_some_head hlr⟩
  obtain ⟨p, hp⟩ : ∃ p, (r ++ l).getLast? = some p := ⟨_, List.getLast?_eq_some_getLast hlr⟩
  have hmem : ∀ a, a ∈ r ++ l → a ∈ l ++ r := by
    intro a ha
    rw [List.mem_append] at ha ⊢
    exact ha.symm
  have hpmem := hmem p (List.mem_of_getLast? hp)
  rw [lastOr, hp, Option.some_or] at hprev
  rw [firstOr, hn, Option.some_or] at hnext
  have hlinks := detach_bypass (s := { s with runQueueHead := hd }) hprev hnext
    (fun h => ht (h ▸ hpmem))
  have hoff : ∀ a ∈ l ++ r, a ≠ t := fun a ha h => ht (h ▸ ha)
  refine ⟨?_, ?_, hnodup, fun x hx => ?_⟩
  · rw [← hhd]
    simp [detach, bypass]
  · refine hq.cycle.unlink hq.nodup hne hprev hnext ?_ ?_ ?_ ?_
    · simp only [(hlinks p).1, if_neg (hoff p hpmem), if_true]
    · have hnmem := hmem n (List.mem_of_mem_head? hn)
      simp only [(hlinks n).2, if_neg (hoff n hnmem), if_true]
    · intro a ha hap
      simp only [(hlinks a).1, if_neg (hoff a ha), if_neg hap]
    · intro a ha han
      simp only [(hlinks a).2, if_neg (hoff a ha), if_neg han]
  · rw [(hlinks x).1]
    by_cases hxt : x = t
    · rw [if_pos hxt]
    · have hxp : x ≠ p := fun h => hx (h ▸ hpmem)
      rw [if_neg hxt, if_neg hxp]
      exact hq.off x (by
        simp only [List.mem_append, List.mem_cons] at hx ⊢
        tauto)

/-- Taking the only thread out. -/
theorem Queued.takeLast (hq : Queued s [t]) :
    Queued (detach { s with runQueueHead := none } t) [] := by
  refine ⟨rfl, trivial, List.nodup_nil, fun x _ => ?_⟩
  simp only [detach, Sched.modify_tcb]
  by_cases hx : x = t
  · rw [if_pos hx, Thread.setNext]
  · rw [if_neg hx, if_neg hx]
    exact hq.off x (by simpa using hx)

/-- The thread behind the head, or the head again when it is alone. -/
theorem Queued.next_head (hq : Queued s (t :: l)) : (s.tcb t).next = firstOr l (some t) :=
  (DCycle.cons_iff.mp hq.cycle).2.1

/-- `dequeue_next` takes the head. -/
theorem Queued.takeHead (hq : Queued s (t :: l)) :
    ∃ s', dequeueNext s = (some t, s') ∧ Queued s' l := by
  have hhead : s.runQueueHead = some t := hq.head
  have hnext := hq.next_head
  cases l with
  | nil =>
      refine ⟨_, ?_, hq.takeLast⟩
      rw [dequeueNext, hhead]
      exact if_pos hnext
  | cons n l =>
      have hnt : n ≠ t := by
        rintro rfl
        exact (List.nodup_cons.mp hq.nodup).1 (by simp)
      refine ⟨_, ?_, hq.takeOut (l := []) (by simp) hnext⟩
      rw [dequeueNext, hhead]
      exact if_neg (by rw [hnext]; simpa using hnt)

/-- `dequeue_next` finds nothing in an empty ring. -/
theorem Queued.takeHead_nil (hq : Queued s []) : dequeueNext s = (none, s) := by
  rw [dequeueNext, show s.runQueueHead = none from hq.head]

/-- `sched_remove` of a thread inside the ring. -/
theorem Queued.remove_middle (hq : Queued s (l ++ t :: r)) :
    Queued (schedRemove s t) (l ++ r) := by
  have hrot : DCycle (fun t => (s.tcb t).next) (fun t => (s.tcb t).prev) (t :: (r ++ l)) := by
    have := hq.cycle.rotate
    rwa [List.cons_append] at this
  obtain ⟨-, hnext, -⟩ := DCycle.cons_iff.mp hrot
  have ht : t ∉ l ++ r := (List.nodup_cons.mp (List.nodup_middle.mp hq.nodup)).1
  by_cases hne : l ++ r = []
  · obtain ⟨rfl, rfl⟩ := List.append_eq_nil_iff.mp hne
    replace hnext : (s.tcb t).next = some t := hnext
    rw [schedRemove, if_neg (by rw [hnext]; simp), if_pos hnext]
    exact hq.takeLast
  -- with other threads around, the successor is one of them
  · obtain ⟨n, hn⟩ : ∃ n, (s.tcb t).next = some n ∧ n ≠ t := by
      have hrl : r ++ l ≠ [] := fun h => hne (by simpa [and_comm] using h)
      refine ⟨(r ++ l).head hrl, ?_, fun h => ht ?_⟩
      · rw [hnext, firstOr, List.head?_eq_some_head hrl, Option.some_or]
      · have := List.head_mem hrl
        rw [h, List.mem_append] at this
        exact List.mem_append.mpr this.symm
    rw [schedRemove, if_neg (by rw [hn.1]; simp),
      if_neg (by rw [hn.1]; simpa using hn.2)]
    cases l with
    | nil =>
        -- the head itself is removed: the ring is entered at its successor
        have hhead : s.runQueueHead = some t := hq.head
        rw [if_pos hhead]
        refine hq.takeOut hne ?_
        rw [hnext, List.append_nil, firstOr]
        cases r with
        | nil => exact absurd rfl hne
        | cons n r => rfl
    | cons h l =>
        have hhead : s.runQueueHead = some h := hq.head
        have hht : h ≠ t := fun h => ht (by simp [h])
        rw [if_neg (by rw [hhead]; simpa using hht)]
        exact hq.takeOut hne hhead

/-- `sched_remove` deletes its thread from the ring, if it is there. -/
theorem Queued.remove (hq : Queued s l) (t : ThreadPtr) :
    Queued (schedRemove s t) (l.erase t) := by
  by_cases ht : t ∈ l
  · obtain ⟨a, b, rfl, hta⟩ := List.eq_append_cons_of_mem ht
    rw [List.erase_append_right _ hta, List.erase_cons_head]
    exact hq.remove_middle
  · rw [schedRemove, if_pos (hq.off t ht), List.erase_of_not_mem ht]
    exact hq

/-! ## What taking out leaves alone -/

@[simp] theorem info_bypass (s : Sched) (t x : ThreadPtr) : (bypass s t).info x = s.info x := by
  simp only [bypass, Sched.info_modifyAt_setNext, Sched.info_modifyAt_setPrev]

@[simp] theorem info_detach (s : Sched) (t x : ThreadPtr) : (detach s t).info x = s.info x := by
  simp only [detach, Sched.info_modify_setNext, Sched.info_modify_setPrev]

@[simp] theorem info_withHead (s : Sched) (hd : Option ThreadPtr) (x : ThreadPtr) :
    ({ s with runQueueHead := hd } : Sched).info x = s.info x := rfl

/-- `dequeue_next` changes links only. -/
theorem info_dequeueNext (s : Sched) (x : ThreadPtr) : (dequeueNext s).2.info x = s.info x := by
  unfold dequeueNext
  split
  · rfl
  · split <;> simp

/-- `sched_remove` changes links only. -/
theorem info_schedRemove (s : Sched) (t x : ThreadPtr) : (schedRemove s t).info x = s.info x := by
  unfold schedRemove
  split
  · rfl
  split
  · simp
  · simp only [info_detach, info_bypass]
    split <;> rfl

@[simp] theorem dequeueNext_currentThread (s : Sched) :
    (dequeueNext s).2.currentThread = s.currentThread := by
  unfold dequeueNext
  split
  · rfl
  · split <;> simp [detach, bypass]

@[simp] theorem schedRemove_currentThread (s : Sched) (t : ThreadPtr) :
    (schedRemove s t).currentThread = s.currentThread := by
  unfold schedRemove
  split
  · rfl
  split
  · simp [detach]
  · simp only [detach, bypass, Sched.modify_currentThread, Sched.modifyAt_currentThread]
    split <;> rfl

end Aerogel
