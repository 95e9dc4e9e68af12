import Mathlib.Data.List.Induction
import Mathlib.Logic.Basic

/-! # Radix trees of tables

A table has one entry per index, and an entry may lead to another table. `walk` follows a path of
indices from the root. A family of tables is a tree down to depth `d` when no table is reached by two
paths; then changing one entry is only noticed by the paths through it. `walk_write` and `walk_link`
say what the two elementary updates do to every path: overwriting an entry without changing where it
leads, and hanging a fresh table without children below an entry that led nowhere. -/

namespace Aerogel

namespace Radix

variable {τ κ ε : Type*} (child : ε → Option τ)

/-- The table that a path of indices leads to, from table `t`. -/
def walk (e : τ → κ → ε) (t : τ) : List κ → Option τ
  | [] => some t
  | i :: p => (child (e t i)).bind fun t' => walk e t' p

/-- The entry that the path's table holds at the index. -/
def entryAt (e : τ → κ → ε) (root : τ) (p : List κ) (i : κ) : Option ε :=
  (walk child e root p).map fun t => e t i

/-- No table is reached by two paths of length at most `d`. -/
def IsTree (e : τ → κ → ε) (root : τ) (d : Nat) : Prop :=
  ∀ p q t, p.length ≤ d → q.length ≤ d →
    walk child e root p = some t → walk child e root q = some t → p = q

/-- The tables reached by paths of length at most `d` hold the same in `e'` as in `e`, apart from
entry `i` of table `t`. -/
def AgreeBut (e e' : τ → κ → ε) (root : τ) (d : Nat) (t : τ) (i : κ) : Prop :=
  ∀ q u j, q.length ≤ d → walk child e root q = some u → ¬ (u = t ∧ j = i) → e' u j = e u j

variable {child} {e e' : τ → κ → ε} {root t f : τ} {p : List κ} {i : κ} {d : Nat}

/-- The empty path stays at the root. -/
@[simp] theorem walk_nil : walk child e root [] = some root := rfl

/-- The last index of a path is looked up in the table the rest leads to. -/
theorem walk_concat (q : List κ) (j : κ) :
    walk child e root (q ++ [j]) = (walk child e root q).bind fun u => child (e u j) := by
  induction q generalizing root with
  | nil => simp [walk]
  | cons k q ih =>
      rw [List.cons_append, walk, walk, Option.bind_assoc]
      congr 1
      funext u
      exact ih

/-- Walking one index further. -/
theorem walk_concat_of_eq_some {q : List κ} {u : τ} (h : walk child e root q = some u) (j : κ) :
    walk child e root (q ++ [j]) = child (e u j) := by
  rw [walk_concat, h, Option.bind_some]

/-- An entry is read in the table its path leads to. -/
theorem entryAt_of_walk {q : List κ} {u : τ} (h : walk child e root q = some u) (j : κ) :
    entryAt child e root q j = some (e u j) := by
  rw [entryAt, h, Option.map_some]

/-! ## Overwriting an entry -/

/-- Paths only depend on where the entries of the tables above their ends lead. -/
theorem walk_congr (h : ∀ q u j, q.length < d → walk child e root q = some u →
      child (e' u j) = child (e u j)) {q : List κ} (hq : q.length ≤ d) :
    walk child e' root q = walk child e root q := by
  induction q using List.reverseRec with
  | nil => rfl
  | append_singleton q j ih =>
      rw [List.length_append, List.length_singleton] at hq
      rw [walk_concat, walk_concat, ih (by omega)]
      cases hu : walk child e root q with
      | none => rfl
      | some u => rw [Option.bind_some, Option.bind_some, h q u j (by omega) hu]

/-- Where the reached tables hold the same, every entry is the same. -/
theorem entryAt_congr (h : ∀ q u j, q.length ≤ d → walk child e root q = some u → e' u j = e u j)
    {q : List κ} (hq : q.length ≤ d) (j : κ) :
    entryAt child e' root q j = entryAt child e root q j := by
  have hwalk : walk child e' root q = walk child e root q := by
    refine walk_congr (d := d) (fun q u j hlt hu => ?_) hq
    rw [h q u j (Nat.le_of_lt hlt) hu]
  rw [entryAt, entryAt, hwalk]
  cases hu : walk child e root q with
  | none => rfl
  | some u => rw [Option.map_some, Option.map_some, h q u j hq hu]

/-- An entry that still leads where it led, or whose table is at the bottom, moves no table. -/
theorem walk_write (htree : IsTree child e root d) (hp : walk child e root p = some t)
    (hd : p.length ≤ d) (hagree : AgreeBut child e e' root d t i)
    (hchild : p.length < d → child (e' t i) = child (e t i)) {q : List κ} (hq : q.length ≤ d) :
    walk child e' root q = walk child e root q := by
  refine walk_congr (fun q u j hlt hu => ?_) hq
  by_cases hut : u = t ∧ j = i
  · -- a path through the entry has `p` in front
    obtain ⟨rfl, rfl⟩ := hut
    have hpq : p = q := htree p q u hd (Nat.le_of_lt hlt) hp hu
    exact hchild (hpq ▸ hlt)
  · rw [hagree q u j (Nat.le_of_lt hlt) hu hut]

/-- The entries after such a write. -/
theorem entryAt_write (htree : IsTree child e root d) (hp : walk child e root p = some t)
    (hd : p.length ≤ d) (hagree : AgreeBut child e e' root d t i)
    (hchild : p.length < d → child (e' t i) = child (e t i)) {q : List κ} (hq : q.length ≤ d)
    (j : κ) : (q = p ∧ j = i ∧ entryAt child e' root q j = some (e' t i)) ∨
      (¬ (q = p ∧ j = i) ∧ entryAt child e' root q j = entryAt child e root q j) := by
  have hwalk := walk_write htree hp hd hagree hchild hq
  by_cases hqp : q = p ∧ j = i
  · obtain ⟨rfl, rfl⟩ := hqp
    exact Or.inl ⟨rfl, rfl, entryAt_of_walk (hwalk.trans hp) j⟩
  · refine Or.inr ⟨hqp, ?_⟩
    rw [entryAt, entryAt, hwalk]
    cases hu : walk child e root q with
    | none => rfl
    | some u =>
        rw [Option.map_some, Option.map_some, hagree q u j hq hu ?_]
        rintro ⟨rfl, rfl⟩
        exact hqp ⟨htree q p u hq hd hu hp, rfl⟩

/-- Such a write keeps the tree. -/
theorem IsTree.write (htree : IsTree child e root d) (hp : walk child e root p = some t)
    (hd : p.length ≤ d) (hagree : AgreeBut child e e' root d t i)
    (hchild : p.length < d → child (e' t i) = child (e t i)) : IsTree child e' root d := by
  intro q r u hq hr hqu hru
  rw [walk_write htree hp hd hagree hchild hq] at hqu
  rw [walk_write htree hp hd hagree hchild hr] at hru
  exact htree q r u hq hr hqu hru

/-! ## Hanging a fresh table below an entry -/

/-- A fresh table without children below an entry that led nowhere adds exactly one path. -/
theorem walk_link [DecidableEq κ] (htree : IsTree child e root d)
    (hp : walk child e root p = some t) (hd : p.length < d)
    (hagree : AgreeBut child e e' root d t i) (hnone : child (e t i) = none)
    (hlink : child (e' t i) = some f) (hleaf : ∀ j, child (e' f j) = none) {q : List κ}
    (hq : q.length ≤ d) :
    walk child e' root q = if q = p ++ [i] then some f else walk child e root q := by
  induction q using List.reverseRec with
  | nil => rw [if_neg (by simp), walk_nil, walk_nil]
  | append_singleton q j ih =>
      rw [List.length_append, List.length_singleton] at hq
      rw [walk_concat, ih (by omega)]
      by_cases hqp : q = p ++ [i]
      · -- below the fresh table there is nothing, neither before nor after
        have hlen : q ++ [j] ≠ p ++ [i] := by
          rw [hqp]
          simp
        rw [if_pos hqp, if_neg hlen, Option.bind_some, hleaf, walk_concat, hqp,
          walk_concat_of_eq_some hp, hnone, Option.bind_none]
      · rw [if_neg hqp]
        cases hu : walk child e root q with
        | none =>
            have hne : q ++ [j] ≠ p ++ [i] := by
              intro h
              obtain ⟨rfl, -⟩ := List.append_inj' h rfl
              rw [hp] at hu
              exact Option.some_ne_none t hu
            rw [if_neg hne, walk_concat, hu, Option.bind_none, Option.bind_none]
        | some u =>
            rw [Option.bind_some]
            by_cases hut : u = t ∧ j = i
            · obtain ⟨rfl, rfl⟩ := hut
              have hqp' : q = p := htree q p u (by omega) (by omega) hu hp
              rw [if_pos (by rw [hqp']), hlink]
            · have hne : q ++ [j] ≠ p ++ [i] := by
                intro h
                obtain ⟨rfl, hji⟩ := List.append_inj' h rfl
                rw [hp] at hu
                exact hut ⟨(Option.some.inj hu).symm, List.singleton_inj.mp hji⟩
              rw [if_neg hne, walk_concat_of_eq_some hu, hagree q u j (by omega) hu hut]

/-- A fresh table keeps the tree. -/
theorem IsTree.link [DecidableEq κ] (htree : IsTree child e root d)
    (hp : walk child e root p = some t) (hd : p.length < d)
    (hagree : AgreeBut child e e' root d t i) (hnone : child (e t i) = none)
    (hlink : child (e' t i) = some f) (hleaf : ∀ j, child (e' f j) = none)
    (hfresh : ∀ q : List κ, q.length ≤ d → walk child e root q ≠ some f) :
    IsTree child e' root d := by
  intro q r u hq hr hqu hru
  rw [walk_link htree hp hd hagree hnone hlink hleaf hq] at hqu
  rw [walk_link htree hp hd hagree hnone hlink hleaf hr] at hru
  by_cases hqp : q = p ++ [i]
  · by_cases hrp : r = p ++ [i]
    · rw [hqp, hrp]
    · rw [if_pos hqp] at hqu
      rw [if_neg hrp] at hru
      exact absurd (hru.trans hqu.symm) (hfresh r hr)
  · rw [if_neg hqp] at hqu
    by_cases hrp : r = p ++ [i]
    · rw [if_pos hrp] at hru
      exact absurd (hqu.trans hru.symm) (hfresh q hq)
    · rw [if_neg hrp] at hru
      exact htree q r u hq hr hqu hru

/-- The entries after hanging a fresh table. -/
theorem entryAt_link [DecidableEq κ] (htree : IsTree child e root d)
    (hp : walk child e root p = some t) (hd : p.length < d)
    (hagree : AgreeBut child e e' root d t i) (hnone : child (e t i) = none)
    (hlink : child (e' t i) = some f) (hleaf : ∀ j, child (e' f j) = none) {q : List κ}
    (hq : q.length ≤ d) (j : κ) :
    (q = p ++ [i] ∧ entryAt child e' root q j = some (e' f j)) ∨
      (q = p ∧ j = i ∧ entryAt child e' root q j = some (e' t i)) ∨
      (q ≠ p ++ [i] ∧ ¬ (q = p ∧ j = i) ∧
        entryAt child e' root q j = entryAt child e root q j) := by
  have hwalk := walk_link htree hp hd hagree hnone hlink hleaf hq
  by_cases hqp : q = p ++ [i]
  · rw [if_pos hqp] at hwalk
    exact Or.inl ⟨hqp, entryAt_of_walk hwalk j⟩
  · rw [if_neg hqp] at hwalk
    right
    by_cases hqi : q = p ∧ j = i
    · obtain ⟨rfl, rfl⟩ := hqi
      exact Or.inl ⟨rfl, rfl, entryAt_of_walk (hwalk.trans hp) j⟩
    · refine Or.inr ⟨hqp, hqi, ?_⟩
      rw [entryAt, entryAt, hwalk]
      cases hu : walk child e root q with
      | none => rfl
      | some u =>
          rw [Option.map_some, Option.map_some, hagree q u j hq hu ?_]
          rintro ⟨rfl, rfl⟩
          exact hqi ⟨htree q p u hq (by omega) hu hp, rfl⟩

end Radix

end Aerogel
