import Aerogel.Foundations.Run
import Mathlib.Data.List.ReduceOption

/-! # Runs with steps that do not count

`Interleaved step noise` lets unlabelled steps of `noise` happen between the labelled ones of `step`. If a
relation survives noise on its left side, and steps on the left are matched by equal steps on the right,
then the noise can be left out of every run (`Run.erase`). -/

namespace Aerogel

universe u v

variable {σ : Type u} {ι : Type v} {step : σ → ι → σ → Prop} {noise : σ → σ → Prop}

/-- A step with its label, or a step of noise. -/
inductive Interleaved (step : σ → ι → σ → Prop) (noise : σ → σ → Prop) : σ → Option ι → σ → Prop
  /-- A step. -/
  | step {s t : σ} {a : ι} : step s a t → Interleaved step noise s (some a) t
  /-- Noise. -/
  | noise {s t : σ} : noise s t → Interleaved step noise s none t

/-- What a run does with noise, it does without: the same labels, to a state in relation. -/
theorem Run.erase {R : σ → σ → Prop}
    (hstep : ∀ s a s' u, R s u → step s a s' → ∃ u', step u a u' ∧ R s' u')
    (hnoise : ∀ s s' u, R s u → noise s s' → R s' u) {s s' u : σ} {as : List (Option ι)}
    (h : Run (Interleaved step noise) s as s') (hR : R s u) :
    ∃ u', Run step u as.reduceOption u' ∧ R s' u' := by
  induction h generalizing u with
  | nil s => exact ⟨u, .nil u, hR⟩
  | cons h _ ih =>
      cases h with
      | step h =>
          obtain ⟨v, hv, hRv⟩ := hstep _ _ _ _ hR h
          obtain ⟨u', hrun, hR'⟩ := ih hRv
          exact ⟨u', .cons hv hrun, hR'⟩
      | noise h => exact ih (hnoise _ _ _ hR h)

end Aerogel
