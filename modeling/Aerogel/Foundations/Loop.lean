import Mathlib.Order.Lattice

/-! # Counted loops

`forRange lo hi f s` is the loop `for (i = lo; i < hi; i++) s = f(i, s)`. `forRange_induction` is its
invariant rule: what holds at `lo` and is carried over every iteration holds when the loop ends. -/

namespace Aerogel

variable {σ : Type*}

/-- Iterations `i`, `i + 1`, …, of which `rem` remain. -/
def forFrom (f : Nat → σ → σ) : (rem i : Nat) → σ → σ
  | 0, _, s => s
  | rem + 1, i, s => forFrom f rem (i + 1) (f i s)

/-- The loop over `i` from `lo` to `hi`, exclusive. -/
def forRange (lo hi : Nat) (f : Nat → σ → σ) (s : σ) : σ := forFrom f (hi - lo) lo s

/-- The invariant rule, at the iteration that comes next. -/
theorem forFrom_induction {f : Nat → σ → σ} {P : Nat → σ → Prop} {rem i : Nat} {s : σ} (h : P i s)
    (hstep : ∀ j s, i ≤ j → j < i + rem → P j s → P (j + 1) (f j s)) :
    P (i + rem) (forFrom f rem i s) := by
  induction rem generalizing i s with
  | zero => exact h
  | succ rem ih =>
      rw [forFrom, show i + (rem + 1) = i + 1 + rem by omega]
      apply ih (hstep i s le_rfl (by omega) h)
      intro j s h₁ h₂
      exact hstep j s (by omega) (by omega)

/-- The invariant rule: `P i s` says that `s` is right when iteration `i` comes next. -/
theorem forRange_induction {f : Nat → σ → σ} {P : Nat → σ → Prop} {lo hi : Nat} {s : σ}
    (h : P lo s) (hstep : ∀ i s, lo ≤ i → i < hi → P i s → P (i + 1) (f i s)) :
    P (max lo hi) (forRange lo hi f s) := by
  rw [forRange, show max lo hi = lo + (hi - lo) by omega]
  apply forFrom_induction h
  intro j s h₁ h₂
  exact hstep j s h₁ (by omega)

/-- A map that carries every iteration of one loop to that of another carries the loops. -/
theorem forRange_hom {τ : Type*} {f : Nat → σ → σ} {f' : Nat → τ → τ} (g : σ → τ)
    (h : ∀ i s, g (f i s) = f' i (g s)) (lo hi : Nat) (s : σ) :
    g (forRange lo hi f s) = forRange lo hi f' (g s) := by
  rw [forRange, forRange]
  generalize hi - lo = rem
  induction rem generalizing lo s with
  | zero => rfl
  | succ rem ih => rw [forFrom, forFrom, ih, h]

/-- A loop whose iteration `i` changes position `i` of what is observed, by `g`, and nothing else
changes every position of its range once. -/
theorem forRange_pointwise {β : Type*} {f : Nat → σ → σ} {obs : σ → Nat → β} {g : β → β}
    (hf : ∀ i s j, obs (f i s) j = if j = i then g (obs s j) else obs s j)
    (lo hi : Nat) (s : σ) (q : Nat) :
    obs (forRange lo hi f s) q = if lo ≤ q ∧ q < hi then g (obs s q) else obs s q := by
  have hrange : lo ≤ q ∧ q < max lo hi ↔ lo ≤ q ∧ q < hi := by omega
  rw [← if_congr hrange rfl rfl]
  refine forRange_induction
    (P := fun i t => obs t q = if lo ≤ q ∧ q < i then g (obs s q) else obs s q) ?_ ?_
  · rw [if_neg (by omega)]
  · intro i t hlo _ ht
    rw [hf, ht]
    by_cases hq : q = i
    · -- the iteration of `q` itself: no earlier one has touched it
      rw [if_pos hq, if_neg (by omega), if_pos (by omega)]
    · rw [if_neg hq]
      exact if_congr (by omega) rfl rfl

end Aerogel
