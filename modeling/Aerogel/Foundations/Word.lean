import Mathlib.Data.Nat.Bitwise

/-! # Fixed-width arithmetic on natural numbers

Machine words are natural numbers with explicit reduction modulo a power of two. `wsub` is
subtraction with borrow, `clearLow` is a bitwise "and" with the complement of `2 ^ k - 1` taken in a
given width, the way C programs round an address down; `clearLow_eq` gives its arithmetic meaning. -/

namespace Aerogel

/-- Subtraction modulo `2 ^ bits`. -/
def wsub (bits a b : Nat) : Nat := (a + (2 ^ bits - b % 2 ^ bits)) % 2 ^ bits

/-- Subtraction that does not borrow is ordinary subtraction. -/
theorem wsub_of_le {bits a b : Nat} (hab : b ≤ a) (ha : a < 2 ^ bits) : wsub bits a b = a - b := by
  rw [wsub, Nat.mod_eq_of_lt (lt_of_le_of_lt hab ha),
    show a + (2 ^ bits - b) = (a - b) + 2 ^ bits by omega, Nat.add_mod_right,
    Nat.mod_eq_of_lt (by omega)]

/-- Subtraction that borrows wraps around once. -/
theorem wsub_of_lt {bits a b : Nat} (hab : a < b) (hb : b < 2 ^ bits) :
    wsub bits a b = a + 2 ^ bits - b := by
  rw [wsub, Nat.mod_eq_of_lt hb, Nat.mod_eq_of_lt (by omega)]
  omega

/-- Clear the low `k` bits and every bit from `bits` on: `x & ~(2 ^ k - 1)` with the complement
taken in a word of `bits` bits. -/
def clearLow (bits k x : Nat) : Nat := x &&& (2 ^ bits - 2 ^ k)

/-- Clearing the low bits rounds the word down to a multiple of `2 ^ k`. -/
theorem clearLow_eq {bits k : Nat} (h : k ≤ bits) (x : Nat) :
    clearLow bits k x = x % 2 ^ bits / 2 ^ k * 2 ^ k := by
  have hmask : 2 ^ bits - 2 ^ k = 2 ^ k * (2 ^ (bits - k) - 1) := by
    rw [Nat.mul_sub, Nat.mul_one, ← Nat.pow_add, Nat.add_sub_cancel' h]
  apply Nat.eq_of_testBit_eq
  intro i
  rw [clearLow, hmask, Nat.testBit_and, Nat.testBit_two_pow_mul, Nat.testBit_two_pow_sub_one,
    Nat.mul_comm (x % 2 ^ bits / 2 ^ k), Nat.testBit_two_pow_mul, Nat.testBit_div_two_pow,
    Nat.testBit_mod_two_pow]
  by_cases hk : k ≤ i
  · have h₁ : i - k < bits - k ↔ i < bits := by omega
    simp [hk, h₁, Nat.sub_add_cancel hk, Bool.and_comm]
  · simp [hk]

/-- Rounding down a value that fits the word. -/
theorem clearLow_of_lt {bits k x : Nat} (h : k ≤ bits) (hx : x < 2 ^ bits) :
    clearLow bits k x = x / 2 ^ k * 2 ^ k := by
  rw [clearLow_eq h, Nat.mod_eq_of_lt hx]

end Aerogel
