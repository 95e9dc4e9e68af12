import Mathlib.Data.Nat.ModEq
import Mathlib.Logic.Function.Basic

/-! # Queues in a circular array

A queue in an array of `N` slots, between two indices: `tail` is the slot of its first item, `head` the
slot behind its last one, both modulo `N`. One slot always stays free, so that equal indices mean an
empty queue. `Holds` says which items the array holds; its lemmas are the tests for empty and full and
the two updates. -/

namespace Aerogel

namespace RingQueue

variable {α : Type} {N tail head : Nat} {buf : Nat → α} {q : List α} {x : α}

/-- The slots of the array from `tail` up to `head` hold the items `q`. -/
structure Holds (N : Nat) (buf : Nat → α) (tail head : Nat) (q : List α) : Prop where
  /-- The tail is an index. -/
  tail_lt : tail < N
  /-- One slot is free. -/
  length_lt : q.length < N
  /-- The head is where the items end. -/
  head_eq : head = (tail + q.length) % N
  /-- Each item lies in its slot. -/
  slot : ∀ (i : Nat) (h : i < q.length), buf ((tail + i) % N) = q[i]

/-- Slots less than `N` apart are different. -/
theorem mod_ne_mod {a i j : Nat} (hij : i < j) (hj : j < i + N) : (a + i) % N ≠ (a + j) % N := by
  intro heq
  have hdvd : N ∣ (a + j) - (a + i) := (Nat.modEq_iff_dvd' (by omega)).mp heq
  have hle := Nat.le_of_dvd (by omega) hdvd
  omega

/-- An array without items. -/
theorem Holds.empty (buf : Nat → α) (h : tail < N) : Holds N buf tail tail [] :=
  ⟨h, by rw [List.length_nil]; omega, (Nat.mod_eq_of_lt h).symm, fun _ hi => nomatch hi⟩

/-- The head is an index. -/
theorem Holds.head_lt (h : Holds N buf tail head q) : head < N := by
  have := h.tail_lt
  rw [h.head_eq]
  exact Nat.mod_lt _ (by omega)

/-- The indices are equal when there is nothing between them, and only then. -/
theorem Holds.head_eq_tail_iff (h : Holds N buf tail head q) : head = tail ↔ q = [] := by
  constructor
  · intro heq
    by_contra hne
    have hpos : 0 < q.length := List.length_pos_iff.mpr hne
    have hlt := h.length_lt
    apply mod_ne_mod (a := tail) hpos (show q.length < 0 + N by omega)
    rw [← h.head_eq, heq, Nat.add_zero, Nat.mod_eq_of_lt h.tail_lt]
  · rintro rfl
    rw [h.head_eq]
    exact Nat.mod_eq_of_lt h.tail_lt

/-- The slot behind the head. -/
theorem Holds.next_eq (h : Holds N buf tail head q) :
    (head + 1) % N = (tail + (q.length + 1)) % N := by
  rw [h.head_eq, Nat.mod_add_mod, Nat.add_assoc]

/-- The slot behind the head is the tail when `N - 1` items are there, and only then. -/
theorem Holds.next_eq_tail_iff (h : Holds N buf tail head q) :
    (head + 1) % N = tail ↔ q.length + 1 = N := by
  have hlt := h.length_lt
  rw [h.next_eq]
  constructor
  · intro heq
    by_contra hne
    apply mod_ne_mod (N := N) (a := tail) (show 0 < q.length + 1 by omega) (by omega)
    rw [heq, Nat.add_zero, Nat.mod_eq_of_lt h.tail_lt]
  · intro heq
    rw [heq, Nat.add_mod_right, Nat.mod_eq_of_lt h.tail_lt]

/-- Writing the slot at the head and moving the head on adds an item behind the others. -/
theorem Holds.push (h : Holds N buf tail head q) (hroom : (head + 1) % N ≠ tail) (x : α) :
    Holds N (Function.update buf head x) tail ((head + 1) % N) (q ++ [x]) := by
  have hlt := h.length_lt
  have hlen : (q ++ [x]).length = q.length + 1 := List.length_append
  have hroom' : q.length + 1 ≠ N := fun heq => hroom (h.next_eq_tail_iff.mpr heq)
  refine ⟨h.tail_lt, by omega, by rw [h.next_eq, hlen], fun i hi => ?_⟩
  rcases Nat.lt_or_ge i q.length with hi' | hi'
  · have hne : (tail + i) % N ≠ head := by
      rw [h.head_eq]
      exact mod_ne_mod hi' (by omega)
    rw [Function.update_of_ne hne, List.getElem_append_left hi']
    exact h.slot i hi'
  · obtain rfl : i = q.length := by omega
    rw [← h.head_eq, Function.update_self, List.getElem_concat_length rfl]

/-- The first item lies at the tail. -/
theorem Holds.front (h : Holds N buf tail head (x :: q)) : buf tail = x := by
  have hslot := h.slot 0 (Nat.succ_pos _)
  rwa [Nat.add_zero, Nat.mod_eq_of_lt h.tail_lt] at hslot

/-- Moving the tail on takes the first item out. -/
theorem Holds.pop (h : Holds N buf tail head (x :: q)) :
    Holds N buf ((tail + 1) % N) head q := by
  have hlt := h.length_lt
  rw [List.length_cons] at hlt
  refine ⟨Nat.mod_lt _ (by omega), by omega, ?_, fun i hi => ?_⟩
  · rw [h.head_eq, Nat.mod_add_mod, List.length_cons, Nat.add_right_comm, Nat.add_assoc]
  · have hslot := h.slot (i + 1) (Nat.succ_lt_succ hi)
    rw [Nat.mod_add_mod, Nat.add_right_comm, Nat.add_assoc]
    exact hslot

end RingQueue

end Aerogel
