import Mathlib.Data.Nat.Bitwise
import Mathlib.Tactic.Linarith
import Mathlib.Tactic.Ring

/-! # Steps of a digital line

A line that goes `n` steps in one direction and `b ≤ n` in another takes its minor steps one by one:
`minorAt n b k` is their number after `k` major steps, rounded from `k * b / n`. `lineError` is what a
program keeps in place of the fraction; it stays between 0 and `n`, and a minor step is due when it is
below `b` (`minorAt_succ`). -/

namespace Aerogel

/-- The minor steps that belong to `k` of `n` major steps, when there are `b` in the end. -/
def minorAt (n b k : Int) : Int := (k * b + (n - 1 - n / 2)) / n

/-- The error term after `k` major steps. -/
def lineError (n b k : Int) : Int := n / 2 - k * b + minorAt n b k * n

variable {n b k j : Int}

/-- The error term stays in its range. -/
theorem lineError_mem (hn : 0 < n) (b k : Int) : 0 ≤ lineError n b k ∧ lineError n b k < n := by
  have hdiv := Int.emod_add_ediv_mul (k * b + (n - 1 - n / 2)) n
  have hlow := Int.emod_nonneg (k * b + (n - 1 - n / 2)) hn.ne'
  have hhigh := Int.emod_lt_of_pos (k * b + (n - 1 - n / 2)) hn
  rw [lineError, minorAt]
  constructor <;> linarith

/-- No other number of minor steps has its error term there. -/
theorem eq_minorAt (hn : 0 < n) (hlow : 0 ≤ n / 2 - k * b + j * n) (hhigh : n / 2 - k * b + j * n < n) :
    j = minorAt n b k := by
  obtain ⟨hlow', hhigh'⟩ := lineError_mem hn b k
  rw [lineError] at hlow' hhigh'
  have hdiff : ∀ i i' : Int, n / 2 - k * b + i * n < n → 0 ≤ n / 2 - k * b + i' * n → i ≤ i' := by
    intro i i' h₁ h₂
    by_contra hlt
    have hmul : (i' + 1) * n ≤ i * n := Int.mul_le_mul_of_nonneg_right (by omega) hn.le
    rw [Int.add_mul, Int.one_mul] at hmul
    omega
  exact le_antisymm (hdiff j _ hhigh hlow') (hdiff _ j hhigh' hlow)

@[simp] theorem minorAt_zero (hn : 0 ≤ n) (b : Int) : minorAt n b 0 = 0 := by
  rw [minorAt, Int.zero_mul, Int.zero_add]
  rcases hn.eq_or_lt with rfl | hn
  · exact Int.ediv_zero _
  · exact Int.ediv_eq_zero_of_lt (by omega) (by omega)

@[simp] theorem lineError_zero (hn : 0 ≤ n) (b : Int) : lineError n b 0 = n / 2 := by
  rw [lineError, minorAt_zero hn, Int.zero_mul, Int.zero_mul, Int.sub_zero, Int.add_zero]

/-- All minor steps are taken in the end. -/
theorem minorAt_self (hn : 0 < n) (b : Int) : minorAt n b n = b := by
  have hmul : n / 2 - n * b + b * n = n / 2 := by
    rw [Int.mul_comm b]
    omega
  exact (eq_minorAt hn (by omega) (by omega)).symm

/-- A diagonal line. -/
theorem minorAt_diagonal (hn : 0 < n) (k : Int) : minorAt n n k = k :=
  (eq_minorAt hn (by omega) (by omega)).symm

/-- A minor step is due when the error term is below `b`. -/
theorem minorAt_succ (hb : 0 ≤ b) (hbn : b ≤ n) (hn : 0 < n) (k : Int) :
    minorAt n b (k + 1) = minorAt n b k + if lineError n b k < b then 1 else 0 := by
  obtain ⟨hlow, hhigh⟩ := lineError_mem hn b k
  symm
  split_ifs with hdue
  · have herr : n / 2 - (k + 1) * b + (minorAt n b k + 1) * n = lineError n b k - b + n := by
      rw [lineError]
      ring
    exact eq_minorAt hn (by omega) (by omega)
  · have herr : n / 2 - (k + 1) * b + (minorAt n b k + 0) * n = lineError n b k - b := by
      rw [lineError]
      ring
    exact eq_minorAt hn (by omega) (by omega)

/-- What the error term becomes. -/
theorem lineError_succ (hb : 0 ≤ b) (hbn : b ≤ n) (hn : 0 < n) (k : Int) :
    lineError n b (k + 1) = lineError n b k - b + if lineError n b k < b then n else 0 := by
  rw [lineError, minorAt_succ hb hbn hn]
  split_ifs
  · rw [lineError]
    ring
  · rw [lineError]
    ring

/-- The minor steps stay between none and all. -/
theorem minorAt_mem (hb : 0 ≤ b) (hn : 0 < n) (hk : 0 ≤ k) (hkn : k ≤ n) :
    0 ≤ minorAt n b k ∧ minorAt n b k ≤ b := by
  obtain ⟨hlow, hhigh⟩ := lineError_mem hn b k
  rw [lineError] at hlow hhigh
  have hkb : 0 ≤ k * b := Int.mul_nonneg hk hb
  have hnb : k * b ≤ n * b := Int.mul_le_mul_of_nonneg_right hkn hb
  constructor
  · by_contra hneg
    have hmul : minorAt n b k * n ≤ -1 * n := Int.mul_le_mul_of_nonneg_right (by omega) hn.le
    omega
  · by_contra hmore
    have hmul : (b + 1) * n ≤ minorAt n b k * n := Int.mul_le_mul_of_nonneg_right (by omega) hn.le
    rw [Int.add_mul, Int.one_mul, Int.mul_comm b] at hmul
    omega

/-- A point of the line is at most half a step away from `k * b / n`. -/
theorem minorAt_near (hn : 0 < n) (b k : Int) : 2 * |minorAt n b k * n - k * b| ≤ n := by
  obtain ⟨hlow, hhigh⟩ := lineError_mem hn b k
  rw [lineError] at hlow hhigh
  have habs : |minorAt n b k * n - k * b| ≤ n / 2 := abs_le.mpr ⟨by omega, by omega⟩
  omega

end Aerogel
