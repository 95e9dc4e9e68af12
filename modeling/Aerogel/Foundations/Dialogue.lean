import Mathlib.Data.List.Basic
import Mathlib.Data.List.Infix

/-! # Programs that ask and devices that answer

A program asks questions, each of which may depend on the answers to the earlier ones, and keeps a record of
them in its state. What it is told is a function of the number of the question and of the question itself
(`Replies`), whoever is behind it. `Asks` is what such a program can do, and is kept by putting programs
together: with two sets of answers it does the same, or at some place it asked the same and was told different
things.

A device with a state of its own answers a row of questions one after another (`Answered`). So a program
that talks to it can do only one thing (`Asks.unique`), and if the device gives one and the same answer to
every question that the program asks, its state does not matter (`Asks.steady`). -/

namespace Aerogel

/-- The answer to the question with a number. -/
abbrev Replies (Q A : Type) := Nat → Q → A

variable {Q A σ ε α β τ : Type} {asked : σ → List Q} {f g : Replies Q A} {s t : σ}

/-- From number `n` on the same was asked for a while, and then a question was answered differently. -/
def Parted (asked : σ → List Q) (f g : Replies Q A) (n : Nat) (s t : σ) : Prop :=
  ∃ pre q post post', n ≤ pre.length ∧ asked s = pre ++ q :: post ∧ asked t = pre ++ q :: post' ∧
    f pre.length q ≠ g pre.length q

/-- What comes later does not matter. -/
theorem Parted.mono {n n' : Nat} {s' t' : σ} (h : Parted asked f g n s t) (hn : n' ≤ n)
    (hs : asked s <+: asked s') (ht : asked t <+: asked t') : Parted asked f g n' s' t' := by
  obtain ⟨pre, q, post, post', hle, hs', ht', hne⟩ := h
  obtain ⟨rest, hs⟩ := hs
  obtain ⟨rest', ht⟩ := ht
  refine ⟨pre, q, post ++ rest, post' ++ rest', hn.trans hle, ?_, ?_, hne⟩
  · rw [← hs, hs', List.append_assoc, List.cons_append]
  · rw [← ht, ht', List.append_assoc, List.cons_append]

/-- A program that learns nothing but the answers to its questions. -/
structure Asks (asked : σ → List Q) (p : Replies Q A → σ → Except ε (α × σ)) : Prop where
  /-- No question is forgotten. -/
  grows : ∀ f s r, p f s = .ok r → asked s <+: asked r.2
  /-- With the same answers it does the same. -/
  same : ∀ f g s r t, p f s = .ok r → p g s = .ok t → r = t ∨ Parted asked f g (asked s).length r.2 t.2

namespace Asks

/-- A program that asks nothing. -/
theorem silent {p : σ → Except ε (α × σ)} (h : ∀ s r, p s = .ok r → asked r.2 = asked s) :
    Asks asked fun (_ : Replies Q A) s => p s where
  grows _ s r hr := by rw [h s r hr]
  same _ _ s r t hr ht := .inl (Except.ok.inj (hr.symm.trans ht))

/-- A result. -/
theorem pure (a : α) : Asks asked fun (_ : Replies Q A) s => (Except.ok (a, s) : Except ε (α × σ)) :=
  silent fun s r h => by rw [← Except.ok.inj h]

/-- An error. -/
theorem error (e : ε) : Asks asked fun (_ : Replies Q A) (_ : σ) => (Except.error e : Except ε (α × σ)) :=
  silent fun _ _ h => nomatch h

/-- One question. -/
theorem ask (q : σ → Q) (k : σ → A → α × σ) (h : ∀ s a, asked (k s a).2 = asked s ++ [q s]) :
    Asks asked fun f s => (Except.ok (k s (f (asked s).length (q s))) : Except ε (α × σ)) where
  grows f s r hr := by
    rw [← Except.ok.inj hr, h]
    exact List.prefix_append _ _
  same f g s r t hr ht := by
    obtain rfl := Except.ok.inj hr
    obtain rfl := Except.ok.inj ht
    by_cases hsame : f (asked s).length (q s) = g (asked s).length (q s)
    · rw [hsame]
      exact .inl rfl
    · exact .inr ⟨asked s, q s, [], [], le_refl _, h s _, h s _, hsame⟩

/-- One program after another. -/
theorem bind {p : Replies Q A → σ → Except ε (α × σ)} {k : α → Replies Q A → σ → Except ε (β × σ)}
    (hp : Asks asked p) (hk : ∀ a, Asks asked (k a)) : Asks asked fun f s => (p f s).bind fun r => k r.1 f r.2 where
  grows f s r hr := by
    cases hfirst : p f s with
    | error e =>
        rw [hfirst] at hr
        exact nomatch hr
    | ok r₁ =>
        rw [hfirst] at hr
        exact (hp.grows f s r₁ hfirst).trans ((hk r₁.1).grows f r₁.2 r hr)
  same f g s r t hr ht := by
    cases hf : p f s with
    | error e =>
        rw [hf] at hr
        exact nomatch hr
    | ok r₁ =>
        cases hg : p g s with
        | error e =>
            rw [hg] at ht
            exact nomatch ht
        | ok t₁ =>
            rw [hf] at hr
            rw [hg] at ht
            have hr₁ := (hk r₁.1).grows f r₁.2 r hr
            have ht₁ := (hk t₁.1).grows g t₁.2 t ht
            rcases hp.same f g s r₁ t₁ hf hg with rfl | hparted
            · refine ((hk r₁.1).same f g r₁.2 r t hr ht).imp_right fun hparted => ?_
              exact hparted.mono (hp.grows f s r₁ hf).length_le (List.prefix_refl _) (List.prefix_refl _)
            · exact .inr (hparted.mono (le_refl _) hr₁ ht₁)

/-- A program may be written differently. -/
theorem congr {p p' : Replies Q A → σ → Except ε (α × σ)} (hp : Asks asked p) (h : ∀ f s, p' f s = p f s) :
    Asks asked p' := by
  have heq : p' = p := funext fun f => funext fun s => h f s
  rw [heq]
  exact hp

/-- Its result may be looked at differently. -/
theorem map {p : Replies Q A → σ → Except ε (α × σ)} (hp : Asks asked p) (k : α → β) :
    Asks asked fun f s => (p f s).bind fun r => Except.ok (k r.1, r.2) :=
  hp.bind fun a => pure (k a)

end Asks

/-! ## Devices -/

/-- A device answers the questions from number `n` on, and changes its state meanwhile. -/
def Answered (device : τ → Q → A × τ) (f : Replies Q A) : Nat → List Q → τ → τ → Prop
  | _, [], b, b' => b' = b
  | n, q :: qs, b, b' => f n q = (device b q).1 ∧ Answered device f (n + 1) qs (device b q).2 b'

variable {device : τ → Q → A × τ} {b b' : τ} {qs : List Q} {n : Nat}

/-- The device has answered the first questions before it is asked another one. -/
theorem Answered.split {pre post : List Q} {q : Q} (h : Answered device f n (pre ++ q :: post) b b') :
    ∃ b₁, Answered device f n pre b b₁ ∧ f (n + pre.length) q = (device b₁ q).1 := by
  induction pre generalizing n b with
  | nil => exact ⟨b, rfl, h.1⟩
  | cons q₀ pre ih =>
      obtain ⟨b₁, hpre, hq⟩ := ih h.2
      refine ⟨b₁, ⟨h.1, hpre⟩, ?_⟩
      rw [List.length_cons, ← hq, Nat.add_right_comm, Nat.add_assoc]

/-- It moves on by itself. -/
theorem Answered.eq {b₁ b₂ : τ} (h₁ : Answered device f n qs b b₁) (h₂ : Answered device g n qs b b₂) : b₁ = b₂ := by
  induction qs generalizing n b with
  | nil => exact (show b₁ = b from h₁).trans (show b₂ = b from h₂).symm
  | cons q qs ih => exact ih h₁.2 h₂.2

/-- A device that answers what it should keeps doing so. -/
theorem answered_of_steady {I : τ → Prop} {P : Q → Prop} {answer : Q → A}
    (hstep : ∀ b q, I b → P q → (device b q).1 = answer q ∧ I (device b q).2) (hI : I b) (hP : ∀ q ∈ qs, P q) :
    ∃ b', Answered device (fun _ => answer) n qs b b' ∧ I b' := by
  induction qs generalizing n b with
  | nil => exact ⟨b, rfl, hI⟩
  | cons q qs ih =>
      obtain ⟨hq, hI'⟩ := hstep b q hI (hP q (.head _))
      obtain ⟨b', hrest, hb'⟩ := @ih _ (n + 1) hI' fun q' hq' => hP q' (.tail _ hq')
      exact ⟨b', ⟨hq.symm, hrest⟩, hb'⟩

/-- The questions that a run has asked. -/
def newlyAsked (asked : σ → List Q) (s t : σ) : List Q := (asked t).drop (asked s).length

namespace Asks

variable {p : Replies Q A → σ → Except ε (α × σ)} {r r' : α × σ} {b₁ b₂ : τ}

/-- Two runs that the same device has answered are one. -/
theorem unique (hp : Asks asked p) (hr : p f s = .ok r) (hr' : p g s = .ok r')
    (hf : Answered device f (asked s).length (newlyAsked asked s r.2) b b₁)
    (hg : Answered device g (asked s).length (newlyAsked asked s r'.2) b b₂) : r = r' ∧ b₁ = b₂ := by
  rcases hp.same f g s r r' hr hr' with rfl | ⟨pre, q, post, post', hle, hasked, hasked', hne⟩
  · exact ⟨rfl, hf.eq hg⟩
  · exfalso
    -- the device was in one state when it was asked `q`
    have hdrop : ∀ rest, (pre ++ q :: rest).drop (asked s).length = pre.drop (asked s).length ++ q :: rest :=
      fun rest => List.drop_append_of_le_length hle
    rw [newlyAsked, hasked, hdrop] at hf
    rw [newlyAsked, hasked', hdrop] at hg
    obtain ⟨c₁, hpre₁, hq₁⟩ := hf.split
    obtain ⟨c₂, hpre₂, hq₂⟩ := hg.split
    have hlen : (asked s).length + (pre.drop (asked s).length).length = pre.length := by
      rw [List.length_drop]
      omega
    rw [hlen] at hq₁ hq₂
    exact hne (hq₁.trans ((hpre₁.eq hpre₂) ▸ hq₂.symm))

/-- A device that gives one answer to each of the questions is no more than these answers. -/
theorem steady {I : τ → Prop} {P : Q → Prop} {answer : Q → A} (hp : Asks asked p)
    (hstep : ∀ b q, I b → P q → (device b q).1 = answer q ∧ I (device b q).2) (hI : I b)
    (hr : p (fun _ => answer) s = .ok r) (hP : ∀ q ∈ newlyAsked asked s r.2, P q) :
    (∃ b', Answered device (fun _ => answer) (asked s).length (newlyAsked asked s r.2) b b') ∧
    ∀ g r' b', p g s = .ok r' → Answered device g (asked s).length (newlyAsked asked s r'.2) b b' →
      r' = r ∧ I b' := by
  obtain ⟨b₁, hanswered, hb₁⟩ := answered_of_steady (n := (asked s).length) hstep hI hP
  refine ⟨⟨b₁, hanswered⟩, fun g r' b' hr' hg => ?_⟩
  obtain ⟨hresult, hstate⟩ := hp.unique hr' hr hg hanswered
  rw [hstate]
  exact ⟨hresult, hb₁⟩

end Asks

end Aerogel
