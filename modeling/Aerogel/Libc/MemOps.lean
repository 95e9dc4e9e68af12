import Aerogel.Foundations.ByteMemory
import Mathlib.Logic.Function.Basic

/-! # Memory operations of the freestanding libc

The byte loops of `string.c` that the kernel's allocators rely on, as loops, with their effect on
every byte of memory. `memcpy` is a copy as long as it does not overwrite what it still has to read
(`memcpy_apply`); `memmove` chooses its direction so that this never happens (`memmove_copies`). -/

namespace Aerogel

/-- `memset`: the loop writes the low byte of `c` at `dst`, `dst + 1`, and so on. -/
def memset (m : Mem) (dst c : Nat) : Nat → Mem
  | 0 => m
  | n + 1 => memset (Function.update m dst (UInt8.ofNat c)) (dst + 1) c n

/-- `memcpy`: the loop copies one byte at a time, upwards. -/
def memcpy (m : Mem) (dst src : Nat) : Nat → Mem
  | 0 => m
  | n + 1 => memcpy (Function.update m dst (m src)) (dst + 1) (src + 1) n

/-- The second loop of `memmove`: one byte at a time, downwards, from the ends `d` and `s` of the ranges. -/
def copyDown (m : Mem) (d s : Nat) : Nat → Mem
  | 0 => m
  | n + 1 => copyDown (Function.update m (d - 1) (m (s - 1))) (d - 1) (s - 1) n

/-- `memmove`: upwards with the loop of `memcpy` to a lower address, downwards otherwise. -/
def memmove (m : Mem) (dst src n : Nat) : Mem :=
  if dst < src then memcpy m dst src n else copyDown m (dst + n) (src + n) n

/-- `memset` writes its range and nothing else. -/
theorem memset_apply (m : Mem) (dst c n x : Nat) :
    memset m dst c n x = if dst ≤ x ∧ x < dst + n then UInt8.ofNat c else m x := by
  induction n generalizing m dst with
  | zero => rw [memset, if_neg (by omega)]
  | succ n ih =>
      rw [memset, ih]
      by_cases hx : x = dst
      · subst hx
        rw [if_neg (by omega), if_pos (by omega), Function.update_self]
      · rw [Function.update_of_ne hx]
        exact if_congr (by omega) rfl rfl

/-- The fields of a record that was cleared are 0. -/
theorem get_memset_zero {F : Type} (L : StructLayout F) (m : Mem) (a : Nat) (f : F) :
    L.get (memset m a 0 L.size) a f = 0 := by
  have hinside := L.inside f
  refine Mem.load_eq_zero fun x h₁ h₂ => ?_
  rw [memset_apply, if_pos (by omega)]
  rfl

/-- `memcpy` changes no byte outside its destination. -/
theorem memcpy_apply_of_outside (m : Mem) {dst src n x : Nat} (h : x < dst ∨ dst + n ≤ x) :
    memcpy m dst src n x = m x := by
  induction n generalizing m dst src with
  | zero => rfl
  | succ n ih =>
      rw [memcpy, ih _ (by omega), Function.update_of_ne (by omega)]

/-- `memcpy` to a lower address, or to a range behind the source. -/
theorem memcpy_apply (m : Mem) {dst src n : Nat} (h : dst ≤ src ∨ src + n ≤ dst) (x : Nat) :
    memcpy m dst src n x = if dst ≤ x ∧ x < dst + n then m (src + (x - dst)) else m x := by
  induction n generalizing m dst src with
  | zero => rw [memcpy, if_neg (by omega)]
  | succ n ih =>
      rw [memcpy, ih _ (by omega)]
      by_cases hx : x = dst
      · subst hx
        rw [if_neg (by omega), if_pos (by omega), Function.update_self, Nat.sub_self, Nat.add_zero]
      · rw [Function.update_of_ne hx]
        refine ite_congr (propext (by omega)) (fun hin => ?_) fun _ => rfl
        -- what is still to be read lies above `dst`, or below it
        rw [Function.update_of_ne (by omega), show src + 1 + (x - (dst + 1)) = src + (x - dst) by omega]

/-- `memcpy` between ranges that do not overlap copies every byte. -/
theorem memcpy_apply_of_disjoint (m : Mem) {dst src n i : Nat} (hdisj : dst + n ≤ src ∨ src + n ≤ dst)
    (hi : i < n) : memcpy m dst src n (dst + i) = m (src + i) := by
  rw [memcpy_apply m (by omega), if_pos (by omega), Nat.add_sub_cancel_left]

/-- The downward loop of `memmove` to a higher address. -/
theorem copyDown_apply (m : Mem) {dst src n : Nat} (h : src ≤ dst) (x : Nat) :
    copyDown m (dst + n) (src + n) n x =
      if dst ≤ x ∧ x < dst + n then m (src + (x - dst)) else m x := by
  induction n generalizing m with
  | zero => rw [copyDown, if_neg (by omega)]
  | succ n ih =>
      rw [copyDown, ← Nat.add_assoc, ← Nat.add_assoc, Nat.add_sub_cancel, Nat.add_sub_cancel, ih]
      by_cases hx : x = dst + n
      · rw [hx, if_neg (by omega), if_pos (by omega), Function.update_self, Nat.add_sub_cancel_left]
      · rw [Function.update_of_ne hx]
        refine ite_congr (propext (by omega)) (fun hin => ?_) fun _ => rfl
        -- what is still to be read lies below `dst + n`
        rw [Function.update_of_ne (by omega)]

/-- The effect of `memmove` on every byte, whatever the ranges. -/
theorem memmove_apply (m : Mem) (dst src n x : Nat) :
    memmove m dst src n x = if dst ≤ x ∧ x < dst + n then m (src + (x - dst)) else m x := by
  rw [memmove]
  by_cases h : dst < src
  · rw [if_pos h, memcpy_apply m (Or.inl h.le)]
  · rw [if_neg h, copyDown_apply m (not_lt.mp h)]

/-- `memmove` copies the bytes that the source held before the call, however the ranges lie, and changes
no other byte; `memcpy` does the same between ranges that do not overlap. -/
theorem memmove_copies (m : Mem) (dst src n : Nat) :
    (∀ i, i < n → memmove m dst src n (dst + i) = m (src + i)) ∧
    (∀ x, x < dst ∨ dst + n ≤ x → memmove m dst src n x = m x) ∧
    (dst + n ≤ src ∨ src + n ≤ dst → memcpy m dst src n = memmove m dst src n) := by
  refine ⟨fun i hi => ?_, fun x hx => ?_, fun hdisj => funext fun x => ?_⟩
  · rw [memmove_apply, if_pos (by omega), Nat.add_sub_cancel_left]
  · rw [memmove_apply, if_neg (by omega)]
  · rw [memmove_apply, memcpy_apply m (by omega)]

end Aerogel
