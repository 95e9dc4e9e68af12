import Mathlib.Data.Finset.Insert
import Mathlib.Data.Finset.Erase

/-! # First-in, first-out scheduling

An abstract scheduler over any type of threads: one thread runs, the others wait in a queue, sleep,
or have left. Arriving and waking threads go to the tail, and so does the running thread when it
yields; a switch runs the head. `Fifo.position_run` says that a waiting thread advances by one place
with every switch and by nothing else, and `Fifo.current_of_switch` that it runs when it has become
the head. -/

namespace Aerogel

variable {α : Type*}

/-- The state of a first-in, first-out scheduler. -/
structure Fifo (α : Type*) where
  /-- The waiting threads, next one first. -/
  queue : List α
  /-- The running thread. -/
  current : α
  /-- The sleeping threads. -/
  asleep : Finset α
  /-- The threads that have left. -/
  gone : Finset α

/-- What happens to the scheduler. -/
inductive FifoOp (α : Type*)
  /-- Nothing. -/
  | pass
  /-- A new thread arrives. -/
  | arrive (t : α)
  /-- A thread is woken, if it sleeps. -/
  | wake (t : α)
  /-- The running thread lets others run. -/
  | yield
  /-- The running thread goes to sleep. -/
  | sleep
  /-- The running thread leaves. -/
  | exit

namespace Fifo

/-- The head runs, and `back` goes to the tail; nothing happens if nobody waits. -/
def next (f : Fifo α) (back : List α) : Fifo α :=
  match f.queue with
  | [] => f
  | t :: q => { f with queue := q ++ back, current := t }

/-- The operation hands the processor to another thread. -/
def Switches (f : Fifo α) : FifoOp α → Prop
  | .yield | .sleep | .exit => f.queue ≠ []
  | .pass | .arrive _ | .wake _ => False

instance (f : Fifo α) (op : FifoOp α) : Decidable (f.Switches op) :=
  match op with
  | .yield => inferInstanceAs (Decidable (f.queue ≠ []))
  | .sleep => inferInstanceAs (Decidable (f.queue ≠ []))
  | .exit => inferInstanceAs (Decidable (f.queue ≠ []))
  | .pass => inferInstanceAs (Decidable False)
  | .arrive _ => inferInstanceAs (Decidable False)
  | .wake _ => inferInstanceAs (Decidable False)

/-- There is somebody to switch to. -/
theorem Switches.ne_nil {f : Fifo α} {op : FifoOp α} (h : f.Switches op) : f.queue ≠ [] := by
  cases op with
  | pass => exact h.elim
  | arrive _ => exact h.elim
  | wake _ => exact h.elim
  | yield => exact h
  | sleep => exact h
  | exit => exact h

variable [DecidableEq α]

/-- Perform one operation. -/
def exec (f : Fifo α) : FifoOp α → Fifo α
  | .pass => f
  | .arrive t => { f with queue := f.queue ++ [t] }
  | .wake t =>
    if t ∈ f.asleep then { f with queue := f.queue ++ [t], asleep := f.asleep.erase t } else f
  | .yield => f.next [f.current]
  | .sleep => { f with asleep := insert f.current f.asleep }.next []
  | .exit => { f with gone := insert f.current f.gone }.next []

/-- Perform a sequence of operations. -/
def run (f : Fifo α) (ops : List (FifoOp α)) : Fifo α := ops.foldl exec f

/-- The number of switches in a sequence of operations. -/
def switches (f : Fifo α) : List (FifoOp α) → Nat
  | [] => 0
  | op :: ops => (if f.Switches op then 1 else 0) + (f.exec op).switches ops

/-- A switch runs the head and moves everybody else up by one. -/
theorem exec_of_switch {f : Fifo α} {op : FifoOp α} {t : α} {q : List α} (hq : f.queue = t :: q)
    (hop : f.Switches op) :
    (f.exec op).current = t ∧ ∃ back, (f.exec op).queue = q ++ back := by
  cases op with
  | pass => exact hop.elim
  | arrive _ => exact hop.elim
  | wake _ => exact hop.elim
  | yield => exact ⟨by simp [exec, next, hq], [f.current], by simp [exec, next, hq]⟩
  | sleep => exact ⟨by simp [exec, next, hq], [], by simp [exec, next, hq]⟩
  | exit => exact ⟨by simp [exec, next, hq], [], by simp [exec, next, hq]⟩

/-- Any other operation leaves everybody in place. -/
theorem exec_of_not_switch {f : Fifo α} {op : FifoOp α} (hop : ¬ f.Switches op) :
    (f.exec op).current = f.current ∧ ∃ back, (f.exec op).queue = f.queue ++ back := by
  cases op with
  | pass => exact ⟨rfl, [], (List.append_nil _).symm⟩
  | arrive t => exact ⟨rfl, [t], rfl⟩
  | wake t =>
      simp only [exec]
      split
      · exact ⟨rfl, [t], rfl⟩
      · exact ⟨rfl, [], (List.append_nil _).symm⟩
  | yield =>
      have hnil : f.queue = [] := not_not.mp hop
      exact ⟨by simp [exec, next, hnil], [], by simp [exec, next, hnil]⟩
  | sleep =>
      have hnil : f.queue = [] := not_not.mp hop
      exact ⟨by simp [exec, next, hnil], [], by simp [exec, next, hnil]⟩
  | exit =>
      have hnil : f.queue = [] := not_not.mp hop
      exact ⟨by simp [exec, next, hnil], [], by simp [exec, next, hnil]⟩

/-- The place of a waiting thread after one operation. -/
theorem position_exec {f : Fifo α} {op : FifoOp α} {i : Nat} {t : α} (ht : f.queue[i]? = some t)
    (hle : (if f.Switches op then 1 else 0) ≤ i) :
    (f.exec op).queue[i - if f.Switches op then 1 else 0]? = some t := by
  by_cases hop : f.Switches op
  · rw [if_pos hop] at hle ⊢
    cases hq : f.queue with
    | nil => simp [hq] at ht
    | cons a q =>
        obtain ⟨-, back, hback⟩ := exec_of_switch hq hop
        obtain ⟨i, rfl⟩ : ∃ j, i = j + 1 := ⟨i - 1, by omega⟩
        rw [hq, List.getElem?_cons_succ] at ht
        rw [hback, Nat.add_sub_cancel]
        exact List.getElem?_append_left (List.getElem?_eq_some_iff.mp ht).1 ▸ ht
  · rw [if_neg hop, Nat.sub_zero]
    obtain ⟨-, back, hback⟩ := exec_of_not_switch hop
    rw [hback]
    exact List.getElem?_append_left (List.getElem?_eq_some_iff.mp ht).1 ▸ ht

/-- A waiting thread advances by one place with every switch, whatever else happens. -/
theorem position_run {f : Fifo α} {ops : List (FifoOp α)} {i : Nat} {t : α}
    (ht : f.queue[i]? = some t) (hle : f.switches ops ≤ i) :
    (f.run ops).queue[i - f.switches ops]? = some t := by
  induction ops generalizing f i with
  | nil => exact ht
  | cons op ops ih =>
      rw [switches] at hle ⊢
      have hfirst : (f.exec op).queue[i - if f.Switches op then 1 else 0]? = some t :=
        position_exec ht (by omega)
      rw [← Nat.sub_sub]
      exact ih hfirst (by omega)

/-- The thread in place `i` is the one that the switch after `i` others makes current. -/
theorem current_of_switch {f : Fifo α} {ops : List (FifoOp α)} {op : FifoOp α} {i : Nat} {t : α}
    (ht : f.queue[i]? = some t) (hops : f.switches ops = i) (hop : (f.run ops).Switches op) :
    ((f.run ops).exec op).current = t := by
  have hhead := position_run ht (le_of_eq hops)
  rw [hops, Nat.sub_self] at hhead
  cases hq : (f.run ops).queue with
  | nil => simp [hq] at hhead
  | cons a q =>
      rw [hq] at hhead
      cases hhead
      exact (exec_of_switch hq hop).1

end Fifo

end Aerogel
