import Mathlib.Data.List.Nodup

/-! # Listings and lookups

A listing gives the nodes of a directory by index, a lookup finds a node by name and takes the first one
that has it. `LooksUp` says how the two go together: looking up the name of a listed node finds the first
node listed under that name, and it finds every listed node exactly when the names are pairwise different.
A lookup may fail. -/

namespace Aerogel

variable {Node Name ε : Type}

/-- Every listed node is found by its name. -/
def ListedFound (readdir : Nat → Except ε (Option Node)) (finddir : Node → Except ε (Option Node)) :
    Prop :=
  ∀ i n, readdir i = .ok (some n) → finddir n = .ok (some n)

/-- Of a directory: `readdir` by index, `finddir` of the name of a node, and the names. -/
structure LooksUp (readdir : Nat → Except ε (Option Node)) (name : Node → Name)
    (finddir : Node → Except ε (Option Node)) : Prop where
  /-- The first node with the name is found. -/
  first : ∀ i n, readdir i = .ok (some n) → ∃ j e, j ≤ i ∧ readdir j = .ok (some e) ∧
    name e = name n ∧ (∀ k < j, ∀ x, readdir k = .ok (some x) → name x ≠ name n) ∧
    finddir n = .ok (some e)
  /-- Every listed node is found by its name exactly when no other has the name. -/
  agree_iff : ListedFound readdir finddir ↔
    ∀ i j a b, readdir i = .ok (some a) → readdir j = .ok (some b) → i ≠ j → name a ≠ name b

/-- A directory that lists two nodes under one name does not find the second. -/
theorem LooksUp.not_listedFound {readdir : Nat → Except ε (Option Node)} {name : Node → Name}
    {finddir : Node → Except ε (Option Node)} (h : LooksUp readdir name finddir) {a b : Node}
    (ha : readdir 0 = .ok (some a)) (hb : readdir 1 = .ok (some b)) (hname : name a = name b) :
    ¬ ListedFound readdir finddir := fun hfound =>
  h.agree_iff.mp hfound 0 1 a b ha hb Nat.zero_ne_one hname

variable [DecidableEq Name] {l : List Node}

/-- The first node of a list with a name. -/
def findNamed (name : Node → Name) (l : List Node) (x : Name) : Option Node :=
  l.find? fun n => name n = x

theorem findNamed_cons_of_eq {name : Node → Name} {x : Name} {n : Node} (h : name n = x) :
    findNamed name (n :: l) x = some n :=
  List.find?_cons_of_pos (decide_eq_true h)

theorem findNamed_cons_of_ne {name : Node → Name} {x : Name} {n : Node} (h : name n ≠ x) :
    findNamed name (n :: l) x = findNamed name l x :=
  List.find?_cons_of_neg (by simpa using h)

theorem mem_of_findNamed {name : Node → Name} {x : Name} {n : Node} (h : findNamed name l x = some n) :
    n ∈ l :=
  List.mem_of_find?_eq_some h

/-- Looking up the name of a node of the list finds the first node with that name. -/
theorem findNamed_getElem? (name : Node → Name) {i : Nat} {n : Node} (hi : l[i]? = some n) :
    ∃ j e, j ≤ i ∧ l[j]? = some e ∧ name e = name n ∧
      (∀ k < j, ∀ x, l[k]? = some x → name x ≠ name n) ∧ findNamed name l (name n) = some e := by
  obtain ⟨e, he⟩ : ∃ e, findNamed name l (name n) = some e := by
    refine Option.isSome_iff_exists.mp (List.find?_isSome.mpr ⟨n, List.mem_of_getElem? hi, ?_⟩)
    exact decide_eq_true rfl
  obtain ⟨hname, j, hj, rfl, hbefore⟩ := List.find?_eq_some_iff_getElem.mp he
  have hne : ∀ k < j, ∀ x, l[k]? = some x → name x ≠ name n := by
    intro k hk x hx
    obtain ⟨hlt, rfl⟩ := List.getElem?_eq_some_iff.mp hx
    simpa using hbefore k hk
  refine ⟨j, l[j], ?_, List.getElem?_eq_getElem hj, of_decide_eq_true hname, hne, he⟩
  by_contra hlt
  exact hne i (Nat.not_le.mp hlt) n hi rfl

/-- In a list without repetitions the lookups find what is listed exactly when the names are pairwise
different. -/
theorem findNamed_self_iff (name : Node → Name) (hl : l.Nodup) :
    (∀ (i : Nat) n, l[i]? = some n → findNamed name l (name n) = some n) ↔
      ∀ (i j : Nat) a b, l[i]? = some a → l[j]? = some b → i ≠ j → name a ≠ name b := by
  constructor
  · intro hself i j a b ha hb hij hname
    have hab : some a = some b := by
      rw [← hself i a ha, ← hself j b hb, hname]
    obtain ⟨hi, rfl⟩ := List.getElem?_eq_some_iff.mp ha
    obtain ⟨hj, rfl⟩ := List.getElem?_eq_some_iff.mp hb
    exact hij ((hl.getElem_inj_iff).mp (Option.some.inj hab))
  · intro hne i n hi
    obtain ⟨j, e, -, hj, hname, -, he⟩ := findNamed_getElem? name hi
    by_cases hij : j = i
    · subst hij
      rw [he, ← hj, hi]
    · exact absurd hname (hne j i e n hj hi hij)

/-- A directory whose calls read a list without repetitions, and search it from the front. -/
theorem looksUp_of_list {readdir : Nat → Except ε (Option Node)} {name : Node → Name}
    {finddir : Node → Except ε (Option Node)} (hl : l.Nodup) (hread : ∀ i, readdir i = .ok l[i]?)
    (hfind : ∀ n ∈ l, finddir n = .ok (findNamed name l (name n))) :
    LooksUp readdir name finddir where
  first i n hi := by
    simp only [hread, Except.ok.injEq] at hi ⊢
    obtain ⟨j, e, hji, hj, hname, hne, he⟩ := findNamed_getElem? name hi
    refine ⟨j, e, hji, hj, hname, hne, ?_⟩
    rw [hfind n (List.mem_of_getElem? hi), he]
  agree_iff := by
    simp only [ListedFound, hread, Except.ok.injEq]
    rw [← findNamed_self_iff name hl]
    refine forall_congr' fun i => forall_congr' fun n => imp_congr_right fun hi => ?_
    rw [hfind n (List.mem_of_getElem? hi), Except.ok.injEq]

end Aerogel
