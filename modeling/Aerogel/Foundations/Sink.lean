import Aerogel.Foundations.ByteMemory
import Mathlib.Logic.Function.Basic

/-! # Bounded output

A sink takes characters one after the other. Its cursor moves on with every character, but only those in front
of `stop` are stored. `feed` takes a whole text; the lemmas say what is in memory afterwards. -/

namespace Aerogel

/-- Output on its way to a buffer. -/
structure Sink where
  /-- Memory. -/
  mem : Mem
  /-- Where the next character goes. -/
  cur : Nat
  /-- Nothing is stored from here on. -/
  stop : Nat
  /-- The characters taken so far. -/
  taken : List UInt8
  /-- The addresses stored to so far. -/
  stores : List Nat

namespace Sink

/-- Store at the cursor. -/
def store (s : Sink) (c : UInt8) : Sink :=
  { s with mem := Function.update s.mem s.cur c, stores := s.stores ++ [s.cur] }

/-- Take a character. -/
def put (s : Sink) (c : UInt8) : Sink :=
  let s' := if s.cur < s.stop then s.store c else s
  { s' with cur := s'.cur + 1, taken := s'.taken ++ [c] }

/-- Take a text. -/
def feed (s : Sink) (text : List UInt8) : Sink := text.foldl put s

variable (s : Sink) (c : UInt8) (text text' : List UInt8) {a i : Nat}

/-- A character in front of `stop` is stored. -/
theorem put_of_lt (h : s.cur < s.stop) : s.put c =
    ⟨Function.update s.mem s.cur c, s.cur + 1, s.stop, s.taken ++ [c], s.stores ++ [s.cur]⟩ := by
  rw [put, if_pos h]
  rfl

/-- A character behind it is counted. -/
theorem put_of_le (h : s.stop ≤ s.cur) :
    s.put c = ⟨s.mem, s.cur + 1, s.stop, s.taken ++ [c], s.stores⟩ := by
  rw [put, if_neg (not_lt.mpr h)]

@[simp] theorem cur_put : (s.put c).cur = s.cur + 1 := by
  obtain h | h := lt_or_ge s.cur s.stop
  · rw [put_of_lt s c h]
  · rw [put_of_le s c h]

@[simp] theorem stop_put : (s.put c).stop = s.stop := by
  obtain h | h := lt_or_ge s.cur s.stop
  · rw [put_of_lt s c h]
  · rw [put_of_le s c h]

@[simp] theorem taken_put : (s.put c).taken = s.taken ++ [c] := by
  obtain h | h := lt_or_ge s.cur s.stop
  · rw [put_of_lt s c h]
  · rw [put_of_le s c h]

/-- Only the byte at the cursor may change. -/
theorem mem_put_of_ne (ha : a ≠ s.cur) : (s.put c).mem a = s.mem a := by
  obtain h | h := lt_or_ge s.cur s.stop
  · rw [put_of_lt s c h]
    exact Function.update_of_ne ha ..
  · rw [put_of_le s c h]

/-- Nothing behind `stop` changes. -/
theorem mem_put_of_le (ha : s.stop ≤ a) : (s.put c).mem a = s.mem a := by
  obtain h | h := lt_or_ge s.cur s.stop
  · exact mem_put_of_ne s c (by omega)
  · rw [put_of_le s c h]

/-- Stores are in front of `stop`. -/
theorem mem_stores_put (ha : a ∈ (s.put c).stores) : a ∈ s.stores ∨ a = s.cur ∧ a < s.stop := by
  obtain h | h := lt_or_ge s.cur s.stop
  · rw [put_of_lt s c h, List.mem_append, List.mem_singleton] at ha
    rcases ha with ha | rfl
    · exact .inl ha
    · exact .inr ⟨rfl, h⟩
  · rw [put_of_le s c h] at ha
    exact .inl ha

@[simp] theorem feed_nil : s.feed [] = s := rfl

theorem feed_cons : s.feed (c :: text) = (s.put c).feed text := rfl

theorem feed_append : s.feed (text ++ text') = (s.feed text).feed text' := List.foldl_append

@[simp] theorem cur_feed : (s.feed text).cur = s.cur + text.length := by
  induction text generalizing s with
  | nil => rfl
  | cons c text ih =>
      rw [feed_cons, ih, cur_put, List.length_cons]
      omega

@[simp] theorem stop_feed : (s.feed text).stop = s.stop := by
  induction text generalizing s with
  | nil => rfl
  | cons c text ih => rw [feed_cons, ih, stop_put]

@[simp] theorem taken_feed : (s.feed text).taken = s.taken ++ text := by
  induction text generalizing s with
  | nil => rw [feed_nil, List.append_nil]
  | cons c text ih => rw [feed_cons, ih, taken_put, List.append_assoc, List.singleton_append]

/-- Bytes in front of the cursor and behind `stop` stay. -/
theorem mem_feed_of_outside (ha : a < s.cur ∨ s.stop ≤ a) : (s.feed text).mem a = s.mem a := by
  induction text generalizing s with
  | nil => rfl
  | cons c text ih =>
      rw [feed_cons, ih]
      · rcases ha with ha | ha
        · exact mem_put_of_ne s c (by omega)
        · exact mem_put_of_le s c ha
      · rw [cur_put, stop_put]
        omega

/-- The characters that fit are in memory. -/
theorem mem_feed (hi : i < text.length) (hroom : s.cur + i < s.stop) :
    (s.feed text).mem (s.cur + i) = text.getD i 0 := by
  induction text generalizing s i with
  | nil => exact absurd hi (Nat.not_lt_zero i)
  | cons c text ih =>
      rw [feed_cons]
      cases i with
      | zero =>
          rw [mem_feed_of_outside _ _ (.inl (by rw [cur_put]; omega)), put_of_lt s c hroom]
          exact Function.update_self ..
      | succ i =>
          have hrest := ih (s.put c) (Nat.lt_of_succ_lt_succ hi) (by rw [cur_put, stop_put]; omega)
          rw [cur_put, show s.cur + 1 + i = s.cur + (i + 1) by omega] at hrest
          exact hrest

/-- Stores are between the cursor and `stop`. -/
theorem mem_stores_feed (ha : a ∈ (s.feed text).stores) :
    a ∈ s.stores ∨ s.cur ≤ a ∧ a < s.stop := by
  induction text generalizing s with
  | nil => exact .inl ha
  | cons c text ih =>
      rw [feed_cons] at ha
      rcases ih _ ha with h | h
      · rcases mem_stores_put s c h with h | h
        · exact .inl h
        · exact .inr ⟨h.1.ge, h.2⟩
      · rw [cur_put, stop_put] at h
        exact .inr ⟨by omega, h.2⟩

end Sink

end Aerogel
