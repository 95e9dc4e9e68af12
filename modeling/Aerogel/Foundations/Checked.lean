import Mathlib.Data.List.Basic
import Mathlib.Data.Nat.Bitwise

/-! # Programs that may panic

A computation of type `Except Panic α` returns a value or panics. The buffer operations are the ones
of a language that checks every access: reading and writing one byte, taking a range, copying into a
range of the same length, and arithmetic that must not leave its type. `Returns x Q` says that `x`
returns a value with the property `Q`. Inside their bounds the operations are those of lists. -/

namespace Aerogel

/-- Why a program panics. -/
inductive Panic
  /-- An index or a range outside a buffer. -/
  | bounds
  /-- A copy between ranges of different lengths. -/
  | lengthMismatch
  /-- A result that does not fit its type. -/
  | overflow
  deriving DecidableEq, Repr

/-- The program returns a value that satisfies `Q`. -/
def Returns {α : Type} (x : Except Panic α) (Q : α → Prop) : Prop := ∃ a, x = .ok a ∧ Q a

/-! ## Buffers -/

/-- `b[i]`. -/
def readAt (b : List UInt8) (i : Nat) : Except Panic UInt8 :=
  match b[i]? with
  | some v => .ok v
  | none => .error .bounds

/-- `b[i] = v`. -/
def writeAt (b : List UInt8) (i : Nat) (v : UInt8) : Except Panic (List UInt8) :=
  if i < b.length then .ok (b.set i v) else .error .bounds

/-- `b[lo..hi]`. -/
def slice (b : List UInt8) (lo hi : Nat) : Except Panic (List UInt8) :=
  if lo ≤ hi ∧ hi ≤ b.length then .ok ((b.take hi).drop lo) else .error .bounds

/-- `b[lo..hi].copy_from_slice(src)`. -/
def copyInto (b : List UInt8) (lo hi : Nat) (src : List UInt8) : Except Panic (List UInt8) :=
  if lo ≤ hi ∧ hi ≤ b.length then
    if hi - lo = src.length then .ok (b.take lo ++ src ++ b.drop hi) else .error .lengthMismatch
  else .error .bounds

/-- `a + b` in an unsigned type of `bits` bits. -/
def addChecked (bits a b : Nat) : Except Panic Nat :=
  if a + b < 2 ^ bits then .ok (a + b) else .error .overflow

/-- `a * b` in an unsigned type of `bits` bits. -/
def mulChecked (bits a b : Nat) : Except Panic Nat :=
  if a * b < 2 ^ bits then .ok (a * b) else .error .overflow

variable {b src : List UInt8} {i lo hi : Nat}

/-- What follows a value that was returned. -/
theorem ok_bind {α β : Type} (a : α) (f : α → Except Panic β) : (Except.ok a >>= f) = f a := rfl

/-- Reading inside the buffer gives the byte there. -/
theorem readAt_eq (h : i < b.length) : readAt b i = .ok (b.getD i 0) := by
  rw [readAt, List.getD_eq_getElem?_getD, List.getElem?_eq_getElem h]
  rfl

/-- A range inside the buffer. -/
theorem slice_eq (h₁ : lo ≤ hi) (h₂ : hi ≤ b.length) : slice b lo hi = .ok ((b.take hi).drop lo) :=
  if_pos ⟨h₁, h₂⟩

/-! ## Buffers that are filled from the front -/

variable {done rest : List UInt8}

/-- Copying behind what was written so far. -/
theorem copyInto_next (hlo : lo = done.length) (hhi : hi = lo + src.length) (h : src.length ≤ rest.length) :
    copyInto (done ++ rest) lo hi src = .ok (done ++ src ++ rest.drop src.length) := by
  have hlen : hi ≤ (done ++ rest).length := by
    rw [List.length_append]
    omega
  rw [copyInto, if_pos ⟨by omega, hlen⟩, if_pos (by omega), hhi, hlo, List.take_left, List.drop_append,
    List.drop_eq_nil_of_le (by omega), List.nil_append, Nat.add_sub_cancel_left]

/-- Writing a byte there. -/
theorem writeAt_next (hi : i = done.length) (v : UInt8) (h : 1 ≤ rest.length) :
    writeAt (done ++ rest) i v = .ok (done ++ [v] ++ rest.drop 1) := by
  obtain ⟨w, rest, rfl⟩ := List.exists_cons_of_length_pos h
  have hlen : i < (done ++ w :: rest).length := by
    rw [List.length_append, List.length_cons]
    omega
  rw [writeAt, if_pos hlen, hi, List.set_append_right _ _ le_rfl, Nat.sub_self]
  simp

/-- A whole buffer is replaced. -/
theorem copyInto_self (h : b.length = src.length) : copyInto b 0 b.length src = .ok src := by
  have := @copyInto_next src 0 b.length [] b rfl (by omega) h.ge
  rw [List.nil_append, List.nil_append, ← h, List.drop_length, List.append_nil] at this
  exact this

/-- The front part of a buffer. -/
theorem slice_front (h : hi = done.length) : slice (done ++ rest) 0 hi = .ok done := by
  rw [slice, if_pos ⟨Nat.zero_le _, by rw [List.length_append]; omega⟩, h, List.take_left, List.drop_zero]

/-- The part of a buffer behind a place. -/
theorem slice_back (hlo : lo ≤ b.length) : slice b lo b.length = .ok (b.drop lo) := by
  rw [slice, if_pos ⟨hlo, le_rfl⟩, List.take_length]

end Aerogel
