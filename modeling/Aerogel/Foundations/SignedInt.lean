import Mathlib.Data.Int.Range
import Mathlib.Data.Nat.Bitwise
import Mathlib.Tactic.Ring

/-! # Signed integers and the loops that count with them

A signed result that does not fit its type leaves a C program without a meaning: `signedInt bits v` is `v`,
or that error. `forInt lo hi body` is the loop `for (int i = lo; i < hi; i++)` of a body that may stop;
`forInt_foldl` is for bodies that go through a list of items, one after the other. -/

namespace Aerogel

/-- Why a program has no result. -/
inductive Stuck
  /-- A signed result that does not fit its type. -/
  | overflow
  /-- A loop that does not end. -/
  | diverges
  deriving DecidableEq, Repr

/-- The values of a signed type of `bits` bits. -/
def FitsSigned (bits : Nat) (v : Int) : Prop := -2 ^ (bits - 1) ≤ v ∧ v < 2 ^ (bits - 1)

instance (bits : Nat) (v : Int) : Decidable (FitsSigned bits v) := inferInstanceAs (Decidable (_ ∧ _))

/-- The result `v` of an operation in a signed type of `bits` bits. -/
def signedInt (bits : Nat) (v : Int) : Except Stuck Int :=
  if FitsSigned bits v then .ok v else .error .overflow

theorem signedInt_eq {bits : Nat} {v : Int} (h : FitsSigned bits v) : signedInt bits v = .ok v := if_pos h

/-- What follows a result. -/
theorem ok_andThen {ε α β : Type} (a : α) (f : α → Except ε β) : (Except.ok a >>= f) = f a := rfl

/-! ## Loops -/

variable {ε σ α : Type}

/-- Iterations `i`, `i + 1`, …, of which `rem` remain. -/
def forIntFrom (body : Int → σ → Except ε σ) : (rem : Nat) → Int → σ → Except ε σ
  | 0, _, s => .ok s
  | rem + 1, i, s => do
    let s ← body i s
    forIntFrom body rem (i + 1) s

/-- The loop over `i` from `lo` to `hi`, exclusive. -/
def forInt (lo hi : Int) (body : Int → σ → Except ε σ) (s : σ) : Except ε σ :=
  forIntFrom body (hi - lo).toNat lo s

theorem range_of_le {lo hi : Int} (h : hi ≤ lo) : Int.range lo hi = [] := by
  rw [Int.range, Int.toNat_of_nonpos (by omega), List.range_zero, List.map_nil]

theorem range_of_lt {lo hi : Int} (h : lo < hi) : Int.range lo hi = lo :: Int.range (lo + 1) hi := by
  rw [Int.range, Int.range, show (hi - lo).toNat = (hi - (lo + 1)).toNat + 1 by omega,
    List.range_succ_eq_map, List.map_cons, List.map_map]
  congr 1
  · exact Int.add_zero lo
  · refine List.map_congr_left fun i _ => ?_
    change lo + ((i + 1 : Nat) : Int) = lo + 1 + (i : Int)
    omega

/-- A loop whose iterations go through their items goes through all of them, in order. -/
theorem forInt_foldl {step : σ → α → σ} {lo hi : Int} {items : Int → List α} {body : Int → σ → Except ε σ}
    (h : ∀ i, lo ≤ i → i < hi → ∀ s, body i s = .ok ((items i).foldl step s)) (s : σ) :
    forInt lo hi body s = .ok (((Int.range lo hi).flatMap items).foldl step s) := by
  rw [forInt]
  induction hrem : (hi - lo).toNat generalizing lo s with
  | zero =>
      rw [range_of_le (by omega)]
      rfl
  | succ rem ih =>
      rw [forIntFrom, h lo le_rfl (by omega), ok_andThen, range_of_lt (by omega), List.flatMap_cons,
        List.foldl_append]
      exact ih (fun i h₁ h₂ => h i (by omega) h₂) _ (by omega)

end Aerogel
