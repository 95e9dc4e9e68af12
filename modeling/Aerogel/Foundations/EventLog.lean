import Mathlib.Data.List.Basic

/-! # What stands before the events of a log

A log is a list of events, oldest first. `Before p Q log` says that whatever stands before an event with
property `p` has property `Q`. It is taken apart where the log is (`before_append`), so that a loop only has to
look at the events of its round. -/

namespace Aerogel

variable {α : Type} {p : α → Prop} {Q : List α → Prop}

/-- What stands before an event with property `p` has property `Q`. -/
def Before (p : α → Prop) (Q : List α → Prop) (log : List α) : Prop :=
  ∀ pre e post, log = pre ++ e :: post → p e → Q pre

/-- An event in the log is an old one, or a new one. -/
theorem split_log {log new pre post : List α} {e : α} (h : log ++ new = pre ++ e :: post) :
    (∃ post', log = pre ++ e :: post' ∧ post = post' ++ new) ∨
      ∃ pre', new = pre' ++ e :: post ∧ pre = log ++ pre' := by
  rcases List.append_eq_append_iff.mp h with ⟨pre', hpre, hnew⟩ | ⟨rest, hlog, hrest⟩
  · exact Or.inr ⟨pre', hnew, hpre⟩
  · cases rest with
    | nil => exact Or.inr ⟨[], hrest.symm, by rw [hlog, List.append_nil, List.append_nil]⟩
    | cons e' rest =>
        obtain ⟨rfl, rfl⟩ := List.cons.inj hrest
        exact Or.inl ⟨rest, hlog, rfl⟩

@[simp] theorem before_nil : Before p Q [] := fun _ _ _ h => absurd h (by simp)

/-- The new events see the old ones as well. -/
theorem before_append (log new : List α) :
    Before p Q (log ++ new) ↔ Before p Q log ∧ Before p (fun pre => Q (log ++ pre)) new := by
  constructor
  · intro h
    refine ⟨fun pre e post hlog => h pre e (post ++ new) ?_, fun pre e post hnew => h (log ++ pre) e post ?_⟩
    · rw [hlog, List.append_assoc, List.cons_append]
    · rw [hnew, List.append_assoc]
  · rintro ⟨hold, hnew⟩ pre e post h he
    rcases split_log h with ⟨post', hlog, -⟩ | ⟨pre', hsplit, rfl⟩
    · exact hold pre e post' hlog he
    · exact hnew pre' e post hsplit he

@[simp] theorem before_singleton (e : α) : Before p Q [e] ↔ (p e → Q []) := by
  refine ⟨fun h => h [] e [] rfl, fun h pre e' post hlog he => ?_⟩
  cases pre with
  | nil =>
      obtain ⟨rfl, -⟩ := List.cons.inj hlog
      exact h he
  | cons e'' pre => simp at hlog

/-- Two new events. -/
theorem before_append_pair (log : List α) (e e' : α) :
    Before p Q (log ++ [e, e']) ↔ Before p Q log ∧ (p e → Q log) ∧ (p e' → Q (log ++ [e])) := by
  rw [← List.singleton_append, before_append, before_append, before_singleton, before_singleton,
    List.append_nil, List.append_nil]

end Aerogel
