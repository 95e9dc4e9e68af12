import Mathlib.Data.List.TakeWhile

/-! # Words of a line

`words sep l` are the maximal runs of items other than `sep`, in order. The lemmas take a line apart at
its front, the way a scanner meets it: a separator, or a word and what follows. -/

namespace Aerogel

variable {α : Type*} [DecidableEq α] {sep : α}

/-- The maximal runs of items that are not separators. -/
def words (sep : α) (l : List α) : List (List α) := (l.splitOn sep).filter (!·.isEmpty)

@[simp] theorem words_nil : words sep [] = [] := rfl

/-- A separator at the front belongs to no word. -/
@[simp] theorem words_cons_sep (l : List α) : words sep (sep :: l) = words sep l := by
  rw [words, ← List.nil_append (sep :: l), List.splitOn_append_cons_of_beq [] l (beq_self_eq_true sep),
    List.splitOn_nil, List.filter_append]
  rfl

/-- A line without separators is a word. -/
theorem words_eq_singleton {w : List α} (hw : sep ∉ w) (hne : w ≠ []) : words sep w = [w] := by
  rw [words, List.splitOn_eq_singleton hw]
  exact List.filter_cons_of_pos (by simpa using hne)

/-- A word and what follows. -/
theorem words_append_sep {w : List α} (hw : sep ∉ w) (hne : w ≠ []) (l : List α) :
    words sep (w ++ sep :: l) = w :: words sep l := by
  rw [words, List.splitOn_append_cons_of_beq w l (beq_self_eq_true sep), List.filter_append]
  have hword := words_eq_singleton hw hne
  rw [words] at hword
  rw [hword]
  rfl

/-- Separators at the front belong to no word. -/
theorem words_dropWhile (l : List α) : words sep (l.dropWhile (· == sep)) = words sep l := by
  induction l with
  | nil => rfl
  | cons c l ih =>
      by_cases hc : c = sep
      · rw [hc, List.dropWhile_cons_of_pos (by simp), ih, words_cons_sep]
      · rw [List.dropWhile_cons_of_neg (by simpa using hc)]

/-- A line that does not begin with a separator has none, or goes on with one behind its first word. -/
theorem word_cases {l : List α} (hhead : l.head? ≠ some sep) :
    sep ∉ l ∧ l.dropWhile (· != sep) = [] ∨
    ∃ w t, l = w ++ sep :: t ∧ w ≠ [] ∧ sep ∉ w ∧ l.dropWhile (· != sep) = sep :: t := by
  have hsplit := List.takeWhile_append_dropWhile (p := (· != sep)) (l := l)
  have hword : sep ∉ l.takeWhile (· != sep) := fun hmem => by simpa using List.mem_takeWhile_imp hmem
  cases hrest : l.dropWhile (· != sep) with
  | nil =>
      rw [hrest, List.append_nil] at hsplit
      rw [hsplit] at hword
      exact .inl ⟨hword, rfl⟩
  | cons d t =>
      have hd : d = sep := by
        have := List.head?_dropWhile_not (· != sep) l
        rw [hrest] at this
        simpa using this
      rw [hrest, hd] at hsplit
      refine .inr ⟨_, t, hsplit.symm, fun hnil => hhead ?_, hword, by rw [hd]⟩
      rw [← hsplit, hnil]
      rfl

/-- What is behind the separators at the front does not begin with one. -/
theorem head?_dropWhile_ne (l : List α) : (l.dropWhile (· == sep)).head? ≠ some sep := by
  have := List.head?_dropWhile_not (· == sep) l
  intro heq
  rw [heq] at this
  simp at this

end Aerogel
