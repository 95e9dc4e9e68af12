import Mathlib.Data.List.Basic
import Mathlib.Data.Nat.Bitwise

/-! # One's-complement sums

The sum that Internet headers are protected with: bytes are taken in pairs as 16-bit words, an odd byte at the
end as the upper half of one, and the words are added with the carry brought back to the low end. All
such sums come from the plain one (`onesSum_eq`), so that inserting the complement of a sum in place of a
zero word gives a sum of `0xFFFF` (`onesSum_insert`). -/

namespace Aerogel

/-- Addition of 16-bit numbers with end-around carry. -/
def onesAdd (a b : Nat) : Nat := if a + b < 2 ^ 16 then a + b else a + b - (2 ^ 16 - 1)

/-- The one's-complement sum of the 16-bit words of a message. -/
def onesSum : List UInt8 → Nat
  | [] => 0
  | [a] => a.toNat * 256
  | a :: b :: rest => onesAdd (a.toNat * 256 + b.toNat) (onesSum rest)

/-- The plain sum of the words. -/
def wordSum : List UInt8 → Nat
  | [] => 0
  | [a] => a.toNat * 256
  | a :: b :: rest => a.toNat * 256 + b.toNat + wordSum rest

/-- What is left of a sum when all carries are brought back. -/
def endAround (s : Nat) : Nat := if s = 0 then 0 else (s - 1) % (2 ^ 16 - 1) + 1

theorem endAround_le (s : Nat) : endAround s ≤ 0xFFFF := by
  unfold endAround
  split_ifs <;> omega

theorem endAround_of_lt {s : Nat} (h : s < 2 ^ 16) : endAround s = s := by
  unfold endAround
  split_ifs <;> omega

/-- Bringing back the carry of a sum once changes nothing. -/
theorem endAround_fold (s : Nat) : endAround (s % 2 ^ 16 + s / 2 ^ 16) = endAround s := by
  unfold endAround
  split_ifs <;> omega

theorem onesAdd_endAround {a : Nat} (ha : a < 2 ^ 16) (s : Nat) :
    onesAdd a (endAround s) = endAround (a + s) := by
  unfold onesAdd endAround
  split_ifs <;> omega

/-- The one's-complement sum is the plain sum without its carries. -/
theorem onesSum_eq (data : List UInt8) : onesSum data = endAround (wordSum data) := by
  induction data using onesSum.induct with
  | case1 => rfl
  | case2 a =>
      have ha := a.toNat_lt
      rw [onesSum, wordSum, endAround_of_lt (by omega)]
  | case3 a b rest ih =>
      have ha := a.toNat_lt
      have hb := b.toNat_lt
      rw [onesSum, wordSum, ih, onesAdd_endAround (by omega)]

theorem onesSum_le (data : List UInt8) : onesSum data ≤ 0xFFFF := by
  rw [onesSum_eq]
  exact endAround_le _

/-- A message behind whole words. -/
theorem wordSum_append {pre : List UInt8} (h : pre.length % 2 = 0) (post : List UInt8) :
    wordSum (pre ++ post) = wordSum pre + wordSum post := by
  induction pre using wordSum.induct with
  | case1 => rw [List.nil_append, wordSum, Nat.zero_add]
  | case2 a => simp at h
  | case3 a b rest ih =>
      have hrest : rest.length % 2 = 0 := by
        rw [List.length_cons, List.length_cons] at h
        omega
      rw [List.cons_append, List.cons_append, wordSum, wordSum, ih hrest]
      omega

/-- Adding the complement of a sum fills all bits. -/
theorem endAround_fill (s : Nat) : endAround (s + (0xFFFF - endAround s)) = 0xFFFF := by
  by_cases hs : s = 0
  · rw [hs]
    rfl
  · have hdiv := Nat.div_add_mod (s - 1) (2 ^ 16 - 1)
    have hmod := Nat.mod_lt (s - 1) (show 0 < 2 ^ 16 - 1 by decide)
    have hsum : endAround s = (s - 1) % (2 ^ 16 - 1) + 1 := if_neg hs
    -- the sum becomes a multiple of 0xFFFF
    have hnext : s + (0xFFFF - endAround s) - 1 = (2 ^ 16 - 1) * ((s - 1) / (2 ^ 16 - 1)) + 0xFFFE := by
      rw [hsum]
      generalize (s - 1) / (2 ^ 16 - 1) = q at hdiv
      generalize (s - 1) % (2 ^ 16 - 1) = r at hdiv hmod
      omega
    calc endAround (s + (0xFFFF - endAround s))
        = (s + (0xFFFF - endAround s) - 1) % (2 ^ 16 - 1) + 1 := if_neg (by omega)
      _ = 0xFFFE % (2 ^ 16 - 1) + 1 := by rw [hnext, Nat.mul_add_mod]
      _ = 0xFFFF := rfl

/-- A word that makes up for the sum of the others. -/
theorem onesSum_insert {pre : List UInt8} (h : pre.length % 2 = 0) (post : List UInt8) {a b : UInt8}
    (hab : a.toNat * 256 + b.toNat = 0xFFFF - onesSum (pre ++ ([0, 0] ++ post))) :
    onesSum (pre ++ ([a, b] ++ post)) = 0xFFFF := by
  have hold : wordSum (pre ++ ([0, 0] ++ post)) = wordSum pre + wordSum post := by
    rw [wordSum_append h, List.cons_append, List.cons_append, List.nil_append, wordSum]
    simp
  have hnew : wordSum (pre ++ ([a, b] ++ post)) =
      wordSum (pre ++ ([0, 0] ++ post)) + (a.toNat * 256 + b.toNat) := by
    rw [hold, wordSum_append h, List.cons_append, List.cons_append, List.nil_append, wordSum]
    omega
  rw [onesSum_eq] at hab ⊢
  rw [hnew, hab, endAround_fill]

end Aerogel
