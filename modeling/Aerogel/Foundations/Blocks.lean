import Mathlib.Data.List.Flatten
import Mathlib.Data.List.Range

/-! # Concatenations of blocks of one length

`(List.range k).flatMap block` is the concatenation of `k` blocks. When all of them have the same
length, position `j` of it is position `j % b` of block `j / b`. -/

namespace Aerogel

variable {α : Type*} {block : Nat → List α} {b : Nat}

/-- The length of a concatenation of blocks. -/
theorem blocks_length (hlen : ∀ i, (block i).length = b) (k : Nat) :
    ((List.range k).flatMap block).length = k * b := by
  simp [List.length_flatMap, hlen]

/-- A position in a concatenation of blocks. -/
theorem blocks_getElem? (hlen : ∀ i, (block i).length = b) {k j : Nat} (hj : j < k * b) :
    ((List.range k).flatMap block)[j]? = (block (j / b))[j % b]? := by
  induction k with
  | zero => omega
  | succ k ih =>
      rw [List.range_succ, List.flatMap_append, List.flatMap_singleton]
      by_cases hlast : j < k * b
      · rw [List.getElem?_append_left (by rwa [blocks_length hlen]), ih hlast]
      · -- the position is in the last block
        rw [List.getElem?_append_right (by rw [blocks_length hlen]; omega), blocks_length hlen]
        obtain ⟨r, rfl⟩ : ∃ r, j = k * b + r := ⟨j - k * b, by omega⟩
        have hr : r < b := by rw [Nat.succ_mul] at hj; omega
        rw [Nat.add_sub_cancel_left, Nat.mul_add_mod_of_lt hr, Nat.mul_comm,
          Nat.mul_add_div (by omega), Nat.div_eq_of_lt hr, Nat.add_zero]

end Aerogel
