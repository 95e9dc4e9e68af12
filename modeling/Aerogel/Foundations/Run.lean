/-! # Labelled runs and their invariants

A system is given by a step relation `step : σ → ι → σ → Prop`: from state `s`, the labelled
operation `a` may lead to state `t`. A `Run` is a finite sequence of such steps. The rules below
turn one-step facts into facts about every reachable state. -/

namespace Aerogel

universe u v

variable {σ : Type u} {ι : Type v} {step : σ → ι → σ → Prop}

/-- A finite run of `step` from one state to another, with the list of operations it performs. -/
inductive Run (step : σ → ι → σ → Prop) : σ → List ι → σ → Prop
  /-- The empty run stays where it is. -/
  | nil (s : σ) : Run step s [] s
  /-- One step followed by a run. -/
  | cons {s t u : σ} {a : ι} {as : List ι} :
      step s a t → Run step t as u → Run step s (a :: as) u

/-- The states some run from `s₀` ends in. -/
def Reachable (step : σ → ι → σ → Prop) (s₀ s : σ) : Prop := ∃ as, Run step s₀ as s

namespace Run

/-- The empty run only reaches its own start. -/
@[simp] theorem nil_iff {s t : σ} : Run step s [] t ↔ t = s := by
  constructor
  · rintro ⟨⟩; rfl
  · rintro rfl; exact .nil _

/-- A single step is a run. -/
theorem single {s t : σ} {a : ι} (h : step s a t) : Run step s [a] t := .cons h (.nil t)

/-- Runs compose. -/
theorem append {s t u : σ} {as bs : List ι} (h₁ : Run step s as t) (h₂ : Run step t bs u) :
    Run step s (as ++ bs) u := by
  induction h₁ with
  | nil => exact h₂
  | cons h _ ih => exact .cons h (ih h₂)

/-- A run of one relation is a run of any other that allows its steps. -/
theorem mono {step' : σ → ι → σ → Prop} (hstep : ∀ s a t, step s a t → step' s a t) {s t : σ}
    {as : List ι} (h : Run step s as t) : Run step' s as t := by
  induction h with
  | nil => exact .nil _
  | cons h _ ih => exact .cons (hstep _ _ _ h) ih

/-- Steps that are matched, one by one, in another system make runs that are matched. -/
theorem simulate {τ : Type u} {step' : τ → ι → τ → Prop} {R : σ → τ → Prop}
    (hstep : ∀ s a s' t, R s t → step s a s' → ∃ t', step' t a t' ∧ R s' t') {s s' : σ} {t : τ}
    {as : List ι} (h : Run step s as s') (hR : R s t) : ∃ t', Run step' t as t' ∧ R s' t' := by
  induction h generalizing t with
  | nil s => exact ⟨t, .nil t, hR⟩
  | cons h _ ih =>
      obtain ⟨u, hu, hRu⟩ := hstep _ _ _ _ hR h
      obtain ⟨t', hrun, hR'⟩ := ih hRu
      exact ⟨t', .cons hu hrun, hR'⟩

/-- Two systems whose steps match both ways have the same runs. -/
theorem exists_iff {τ : Type u} {step' : τ → ι → τ → Prop} {R : σ → τ → Prop}
    (hstep : ∀ s a s' t, R s t → step s a s' → ∃ t', step' t a t' ∧ R s' t')
    (hback : ∀ s a t t', R s t → step' t a t' → ∃ s', step s a s' ∧ R s' t') {s : σ} {t : τ}
    (hR : R s t) (as : List ι) : (∃ s', Run step s as s') ↔ ∃ t', Run step' t as t' := by
  constructor
  · rintro ⟨s', h⟩
    obtain ⟨t', h', -⟩ := h.simulate hstep hR
    exact ⟨t', h'⟩
  · rintro ⟨t', h⟩
    obtain ⟨s', h', -⟩ := h.simulate (R := fun t s => R s t)
      (fun t a t' s hR h => hback s a t t' hR h) hR
    exact ⟨s', h'⟩

/-- The invariant rule: what every step preserves, every run preserves. -/
theorem invariant {I : σ → Prop} (hstep : ∀ s a t, I s → step s a t → I t)
    {s t : σ} {as : List ι} (h : Run step s as t) (hs : I s) : I t := by
  induction h with
  | nil => exact hs
  | cons h _ ih => exact ih (hstep _ _ _ hs h)

/-- The invariant rule for runs whose operations all satisfy `P`. -/
theorem invariant_of_forall {I : σ → Prop} {P : ι → Prop}
    (hstep : ∀ s a t, I s → P a → step s a t → I t) {s t : σ} {as : List ι} (h : Run step s as t)
    (hP : ∀ a ∈ as, P a) (hs : I s) : I t := by
  induction h with
  | nil => exact hs
  | cons h _ ih =>
      refine ih (fun a ha => hP a (.tail _ ha)) (hstep _ _ _ hs (hP _ (.head _)) h)

end Run

namespace Reachable

/-- Every state reaches itself. -/
theorem refl (s : σ) : Reachable step s s := ⟨[], .nil s⟩

/-- Reachability is closed under one more step. -/
theorem tail {s t u : σ} {a : ι} (h : Reachable step s t) (hstep : step t a u) :
    Reachable step s u := by
  obtain ⟨as, hr⟩ := h
  exact ⟨as ++ [a], hr.append (.single hstep)⟩

/-- The invariant rule for reachable states: it holds initially and every step keeps it. -/
theorem invariant {I : σ → Prop} (hstep : ∀ s a t, I s → step s a t → I t)
    {s₀ s : σ} (h : Reachable step s₀ s) (h₀ : I s₀) : I s := by
  obtain ⟨as, hr⟩ := h
  exact hr.invariant hstep h₀

end Reachable

end Aerogel
