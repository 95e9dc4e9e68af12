import Mathlib.Data.Nat.Digits.Lemmas

/-! # Positional numerals

Digits with the most significant one first. `hornerFrom base acc ds` reads them behind a number read so far;
a number read in this way only grows (`le_hornerFrom`). An `IsNumeral base n ds` has no zero in front of other
digits, so that every number has exactly one numeral, `numeralDigits base n` (`IsNumeral.eq_numeralDigits`). -/

namespace Aerogel

/-- The number that is read when the digits `ds` come behind those of `acc`. -/
def hornerFrom (base acc : Nat) (ds : List Nat) : Nat := ds.foldl (fun acc d => acc * base + d) acc

/-- The digits of a number. -/
def numeralDigits (base n : Nat) : List Nat := if n = 0 then [0] else (Nat.digits base n).reverse

/-- The digits `ds` are the canonical representation of `n`. -/
structure IsNumeral (base n : Nat) (ds : List Nat) : Prop where
  /-- They are digits. -/
  lt_base : ∀ d ∈ ds, d < base
  /-- Their value is the number. -/
  value : hornerFrom base 0 ds = n
  /-- There is a digit. -/
  ne_nil : ds ≠ []
  /-- Only the number 0 begins with a zero, and it has no other digit. -/
  leading : ds.head? = some 0 → ds = [0]

variable {base n acc d : Nat} {ds : List Nat}

@[simp] theorem hornerFrom_nil (base acc : Nat) : hornerFrom base acc [] = acc := rfl

@[simp] theorem hornerFrom_cons (base acc d : Nat) (ds : List Nat) :
    hornerFrom base acc (d :: ds) = hornerFrom base (acc * base + d) ds := rfl

/-- Further digits never make a number smaller. -/
theorem le_hornerFrom (hbase : 0 < base) (acc : Nat) (ds : List Nat) : acc ≤ hornerFrom base acc ds := by
  induction ds generalizing acc with
  | nil => exact le_rfl
  | cons d ds ih =>
      calc acc ≤ acc * base + d := (Nat.le_mul_of_pos_right acc hbase).trans (Nat.le_add_right _ d)
        _ ≤ hornerFrom base (acc * base + d) ds := ih _

/-- The value of digits that are listed from the least significant one on. -/
theorem hornerFrom_reverse (base : Nat) (ds : List Nat) :
    hornerFrom base 0 ds.reverse = Nat.ofDigits base ds := by
  rw [hornerFrom, List.foldl_reverse, Nat.ofDigits_eq_foldr]
  congr
  funext d acc
  exact (Nat.add_comm _ _).trans (congrArg (d + ·) (Nat.mul_comm acc base))

/-- The digits of a number are its canonical representation. -/
theorem isNumeral_numeralDigits (hbase : 1 < base) (n : Nat) : IsNumeral base n (numeralDigits base n) := by
  rw [numeralDigits]
  split_ifs with hn
  · subst hn
    exact ⟨fun d hd => by rw [List.mem_singleton.mp hd]; omega, Nat.zero_mul base, List.cons_ne_nil _ _,
      fun _ => rfl⟩
  · have hne : Nat.digits base n ≠ [] := Nat.digits_ne_nil_iff_ne_zero.mpr hn
    refine ⟨fun d hd => Nat.digits_lt_base hbase (List.mem_reverse.mp hd), ?_, ?_, fun hzero => ?_⟩
    · rw [hornerFrom_reverse, Nat.ofDigits_digits]
    · exact fun h => hne (List.reverse_eq_nil_iff.mp h)
    · -- the most significant digit of a positive number is not 0
      rw [List.head?_reverse, List.getLast?_eq_getLast_of_ne_nil hne, Option.some.injEq] at hzero
      exact absurd hzero (Nat.getLast_digit_ne_zero base hn)

/-- There is no other canonical representation. -/
theorem IsNumeral.eq_numeralDigits (hbase : 1 < base) (h : IsNumeral base n ds) :
    ds = numeralDigits base n := by
  obtain ⟨d, rest, rfl⟩ := List.exists_cons_of_ne_nil h.ne_nil
  rw [numeralDigits]
  by_cases hd : d = 0
  · -- the numeral is `0`
    have hzero : d :: rest = [0] := h.leading (by rw [hd, List.head?_cons])
    have hvalue := h.value
    rw [hzero] at hvalue ⊢
    rw [if_pos (hvalue.symm.trans (Nat.zero_mul base))]
  · have hn : n ≠ 0 := by
      have hle := le_hornerFrom (show 0 < base by omega) (0 * base + d) rest
      have hvalue := h.value
      rw [hornerFrom_cons] at hvalue
      omega
    have hvalue : Nat.ofDigits base (d :: rest).reverse = n := by
      rw [← hornerFrom_reverse, List.reverse_reverse, h.value]
    have hdigits := Nat.digits_ofDigits base hbase (d :: rest).reverse
      (fun l hl => h.lt_base l (List.mem_reverse.mp hl)) fun hne => by
        rw [List.getLast_reverse]
        exact hd
    rw [hvalue] at hdigits
    rw [if_neg hn, hdigits, List.reverse_reverse]

end Aerogel
