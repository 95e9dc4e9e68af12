import Aerogel.Foundations.Listing
import Mathlib.Data.List.Basic
import Mathlib.Data.List.Induction
import Mathlib.Data.List.Find

/-! # Trees of named nodes

The nodes of a tree are numbered in the order in which they were made, and none ever goes away. Each has a
name and is a leaf with data or a directory with the numbers of its entries. Names may repeat: a lookup
takes the first entry that has the name, a walk looks up one name after the other. New nodes are entered
behind the others, so that a walk that arrives somewhere arrives there ever after (`walk_make`). -/

namespace Aerogel

variable {Name α : Type}

/-- What a node holds. -/
inductive Content (α : Type)
  /-- A directory, with the numbers of its entries. -/
  | dir (entries : List Nat)
  /-- A leaf, with its data. -/
  | leaf (data : α)

namespace Content

/-- One more entry. -/
def enter (n : Nat) : Content α → Content α
  | .dir es => .dir (es ++ [n])
  | .leaf a => .leaf a

/-- Other data. -/
def edit (g : α → α) : Content α → Content α
  | .dir es => .dir es
  | .leaf a => .leaf (g a)

/-- The entries, of which a leaf has none. -/
def entries : Content α → List Nat
  | .dir es => es
  | .leaf _ => []

@[simp] theorem entries_edit (c : Content α) (g : α → α) : (c.edit g).entries = c.entries := by
  cases c <;> rfl

end Content

/-- The nodes by their numbers. -/
abbrev NameTree (Name α : Type) := List (Name × Content α)

namespace NameTree

variable (t : NameTree Name α) {i j p n : Nat} {x y : Name} {xs ys : List Name} {c : Content α}

/-- The entries of a node. -/
def entries (i : Nat) : List Nat := (t[i]?.map fun e => e.2.entries).getD []

/-- A new node that nobody lists. -/
def add (x : Name) (c : Content α) : NameTree Name α := t ++ [(x, c)]

/-- Enter a node into a directory. -/
def link (p n : Nat) : NameTree Name α := t.modify p fun e => (e.1, e.2.enter n)

/-- A new node in a directory. -/
def make (p : Nat) (x : Name) (c : Content α) : NameTree Name α := (t.add x c).link p t.length

/-- Change the data of a leaf. -/
def update (i : Nat) (g : α → α) : NameTree Name α := t.modify i fun e => (e.1, e.2.edit g)

/-- The name of a node. -/
def nameOf (i : Nat) : Option Name := t[i]?.map Prod.fst

section Lookups

variable [DecidableEq Name]

/-- The first entry of a directory with a name. -/
def child (i : Nat) (x : Name) : Option Nat := (t.entries i).find? fun j => t.nameOf j = some x

/-- One lookup after the other. -/
def walk (i : Nat) (xs : List Name) : Option Nat := xs.foldlM t.child i

@[simp] theorem walk_nil : t.walk i [] = some i := rfl

theorem walk_cons : t.walk i (x :: xs) = (t.child i x).bind fun j => t.walk j xs := List.foldlM_cons

theorem walk_append : t.walk i (xs ++ ys) = (t.walk i xs).bind fun j => t.walk j ys := List.foldlM_append

/-- A last lookup. -/
theorem walk_concat : t.walk i (xs ++ [x]) = (t.walk i xs).bind fun j => t.child j x := by
  rw [walk_append]
  refine Option.bind_congr fun j _ => ?_
  rw [walk_cons]
  exact Option.bind_fun_some _

end Lookups

/-! ## Trees that were grown -/

/-- Entries are younger than their directory and exist; no node is listed twice. -/
structure Grown : Prop where
  /-- Entries are younger, and exist. -/
  younger : ∀ i, ∀ j ∈ t.entries i, i < j ∧ j < t.length
  /-- A directory lists a node once. -/
  nodup : ∀ i, (t.entries i).Nodup
  /-- A node has one parent. -/
  parent : ∀ i i' j, j ∈ t.entries i → j ∈ t.entries i' → i = i'

variable {t}

/-- Outside the tree there are no entries. -/
theorem entries_of_le (h : t.length ≤ i) : t.entries i = [] := by
  rw [entries, List.getElem?_eq_none h]
  rfl

theorem lt_of_mem_entries (h : j ∈ t.entries i) : i < t.length := by
  by_contra hle
  rw [entries_of_le (Nat.le_of_not_lt hle)] at h
  exact List.not_mem_nil h

theorem Grown.nil : Grown ([] : NameTree Name α) where
  younger i j h := absurd h (by simp [entries])
  nodup i := by simp [entries]
  parent i i' j h := absurd h (by simp [entries])

section Grown

variable [DecidableEq Name]

/-- A child has the name, and is younger. -/
theorem Grown.of_child (h : t.Grown) (hc : t.child i x = some j) :
    i < j ∧ j < t.length ∧ t.nameOf j = some x := by
  obtain ⟨h₁, h₂⟩ := h.younger i j (List.mem_of_find?_eq_some hc)
  have hname := List.find?_some hc
  exact ⟨h₁, h₂, of_decide_eq_true hname⟩

/-- Walks lead to younger nodes, so there are no cycles. -/
theorem Grown.walk_le (h : t.Grown) (hw : t.walk i xs = some j) : i + xs.length ≤ j := by
  induction xs generalizing i with
  | nil =>
      cases hw
      exact Nat.le_refl _
  | cons x xs ih =>
      rw [walk_cons] at hw
      obtain ⟨k, hk, hw⟩ := Option.bind_eq_some_iff.mp hw
      have hlt := (h.of_child hk).1
      have hle := ih hw
      rw [List.length_cons]
      omega

theorem Grown.walk_lt (h : t.Grown) (hi : i < t.length) (hw : t.walk i xs = some j) : j < t.length := by
  rcases List.eq_nil_or_concat xs with rfl | ⟨ys, y, rfl⟩
  · cases hw
    exact hi
  · rw [List.concat_eq_append, walk_concat] at hw
    obtain ⟨k, -, hk⟩ := Option.bind_eq_some_iff.mp hw
    exact (h.of_child hk).2.1

/-- There is one walk to a node at most. -/
theorem Grown.walk_inj (h : t.Grown) (hx : t.walk i xs = some j) (hy : t.walk i ys = some j) : xs = ys := by
  induction xs using List.reverseRecOn generalizing j ys with
  | nil =>
      cases hx
      have hle := h.walk_le hy
      exact (List.length_eq_zero_iff.mp (by omega)).symm
  | append_singleton xs x ih =>
      rw [walk_concat] at hx
      obtain ⟨k, hk, hkj⟩ := Option.bind_eq_some_iff.mp hx
      have hlt := (h.of_child hkj).1
      rcases List.eq_nil_or_concat ys with rfl | ⟨zs, z, rfl⟩
      · cases hy
        have hle := h.walk_le hk
        omega
      · rw [List.concat_eq_append, walk_concat] at hy
        obtain ⟨l, hl, hlj⟩ := Option.bind_eq_some_iff.mp hy
        obtain rfl := h.parent k l j (List.mem_of_find?_eq_some hkj) (List.mem_of_find?_eq_some hlj)
        have hxz : some x = some z := (h.of_child hkj).2.2.symm.trans (h.of_child hlj).2.2
        rw [ih hk hl, Option.some.inj hxz, List.concat_eq_append]

end Grown

/-! ## New nodes -/

theorem length_make : (t.make p x c).length = t.length + 1 := by
  rw [make, link, List.length_modify, add, List.length_append, List.length_singleton]

theorem getElem?_link : (t.link p n)[i]? = t[i]?.map fun e => if p = i then (e.1, e.2.enter n) else e := by
  rw [link, List.getElem?_modify, Option.map_eq_map]

theorem nameOf_link : (t.link p n).nameOf i = t.nameOf i := by
  rw [nameOf, getElem?_link, Option.map_map, nameOf]
  congr 1
  funext e
  exact (apply_ite Prod.fst _ _ _).trans (ite_self _)

theorem nameOf_add : (t.add x c).nameOf i = if i = t.length then some x else t.nameOf i := by
  rw [nameOf, nameOf, add]
  split_ifs with hi
  · rw [hi, List.getElem?_concat_length]
    rfl
  · rw [List.getElem?_append]
    split_ifs with hlt
    · rfl
    · rw [List.getElem?_eq_none (by simp only [List.length_singleton]; omega),
        List.getElem?_eq_none (Nat.le_of_not_lt hlt)]

theorem nameOf_make : (t.make p x c).nameOf i = if i = t.length then some x else t.nameOf i := by
  rw [make, nameOf_link, nameOf_add]

theorem entries_add : (t.add x c).entries i = if i = t.length then c.entries else t.entries i := by
  rw [entries, entries, add]
  split_ifs with hi
  · rw [hi, List.getElem?_concat_length]
    rfl
  · rw [List.getElem?_append]
    split_ifs with hlt
    · rfl
    · rw [List.getElem?_eq_none (by simp only [List.length_singleton]; omega),
        List.getElem?_eq_none (Nat.le_of_not_lt hlt)]

theorem entries_link (es : List Nat) (hp : t[p]?.map Prod.snd = some (.dir es)) :
    (t.link p n).entries i = if i = p then es ++ [n] else t.entries i := by
  obtain ⟨e, he, hdir⟩ := Option.map_eq_some_iff.mp hp
  rw [entries, entries, getElem?_link]
  by_cases hi : i = p
  · subst hi
    simp only [he, if_true, Option.map_some, hdir]
    rfl
  · simp only [Ne.symm hi, hi, if_false]
    cases t[i]? <;> rfl

/-- The node `i` is a directory with these entries. -/
def IsDir (t : NameTree Name α) (i : Nat) (es : List Nat) : Prop := t[i]?.map Prod.snd = some (.dir es)

theorem IsDir.entries_eq {es : List Nat} (h : t.IsDir i es) : t.entries i = es := by
  obtain ⟨e, he, hdir⟩ := Option.map_eq_some_iff.mp h
  rw [entries, he, Option.map_some, hdir]
  rfl

theorem IsDir.lt {es : List Nat} (h : t.IsDir i es) : i < t.length := by
  obtain ⟨e, he, -⟩ := Option.map_eq_some_iff.mp h
  exact (List.getElem?_eq_some_iff.mp he).1

theorem IsDir.add {es : List Nat} (h : t.IsDir i es) (x : Name) (c : Content α) : (t.add x c).IsDir i es := by
  rw [IsDir, NameTree.add, List.getElem?_append_left h.lt]
  exact h

/-- The entries after a new node was made in a directory. -/
theorem entries_make {es : List Nat} (hp : t.IsDir p es) (hc : c.entries = []) :
    (t.make p x c).entries i = if i = p then es ++ [t.length] else t.entries i := by
  rw [make, entries_link es (hp.add x c), entries_add]
  split_ifs with h₁ h₂
  · rfl
  · rw [hc, h₂, entries_of_le (Nat.le_refl _)]
  · rfl

theorem Grown.add (h : t.Grown) (x : Name) (hc : c.entries = []) : (t.add x c).Grown := by
  have hlen : (t.add x c).length = t.length + 1 := by
    rw [NameTree.add, List.length_append, List.length_singleton]
  have hent : ∀ i, (t.add x c).entries i = t.entries i := by
    intro i
    rw [entries_add]
    split_ifs with hi
    · rw [hc, hi, entries_of_le (Nat.le_refl _)]
    · rfl
  refine ⟨fun i j hj => ?_, fun i => ?_, fun i i' j hj hj' => ?_⟩
  · rw [hent] at hj
    have hlt := h.younger i j hj
    omega
  · rw [hent]
    exact h.nodup i
  · rw [hent] at hj hj'
    exact h.parent i i' j hj hj'

theorem Grown.make {es : List Nat} (h : t.Grown) (hp : t.IsDir p es) (x : Name) (hc : c.entries = []) :
    (t.make p x c).Grown := by
  have hes := hp.entries_eq
  -- the new number is in no directory yet
  have hnew : ∀ i, t.length ∉ t.entries i := fun i hmem => Nat.lt_irrefl _ (h.younger i _ hmem).2
  refine ⟨fun i j hj => ?_, fun i => ?_, fun i i' j hj hj' => ?_⟩
  · rw [length_make]
    rw [entries_make hp hc] at hj
    split_ifs at hj with hi
    · rcases List.mem_append.mp hj with hj | hj
      · have hlt := h.younger p j (hes ▸ hj)
        omega
      · rw [List.mem_singleton] at hj
        have hlt := hp.lt
        omega
    · have hlt := h.younger i j hj
      omega
  · rw [entries_make hp hc]
    split_ifs with hi
    · refine List.nodup_append.mpr ⟨hes ▸ h.nodup p, List.nodup_singleton _, fun a ha b hb hab => ?_⟩
      rw [List.mem_singleton] at hb
      exact hnew p (hes ▸ hb ▸ hab ▸ ha)
    · exact h.nodup i
  · -- a node that was listed before is not the new one
    have hold : ∀ k, j ∈ (t.make p x c).entries k → (j ∈ t.entries k ∨ k = p ∧ j = t.length) := by
      intro k hk
      rw [entries_make hp hc] at hk
      split_ifs at hk with hkp
      · rcases List.mem_append.mp hk with hk | hk
        · exact .inl (by rw [hkp, hes]; exact hk)
        · exact .inr ⟨hkp, List.mem_singleton.mp hk⟩
      · exact .inl hk
    rcases hold i hj with hi | ⟨rfl, rfl⟩ <;> rcases hold i' hj' with hi' | ⟨rfl, hnum⟩
    · exact h.parent i i' j hi hi'
    · exact absurd (hnum ▸ hi) (hnew i)
    · exact absurd hi' (hnew i')
    · rfl

theorem getElem?_update (n : Nat) (g : α → α) :
    (t.update n g)[i]? = t[i]?.map fun e => if n = i then (e.1, e.2.edit g) else e := by
  rw [update, List.getElem?_modify, Option.map_eq_map]

theorem nameOf_update (n : Nat) (g : α → α) : (t.update n g).nameOf i = t.nameOf i := by
  rw [nameOf, getElem?_update, Option.map_map, nameOf]
  congr 1
  funext e
  exact (apply_ite Prod.fst _ _ _).trans (ite_self _)

theorem entries_update (n : Nat) (g : α → α) : (t.update n g).entries i = t.entries i := by
  rw [entries, getElem?_update, Option.map_map, entries]
  congr 2
  funext e
  rw [Function.comp_apply, apply_ite Prod.snd, apply_ite Content.entries, Content.entries_edit, ite_self]

theorem Grown.update (h : t.Grown) (n : Nat) (g : α → α) : (t.update n g).Grown := by
  have hlen : (t.update n g).length = t.length := List.length_modify _ _ _
  refine ⟨fun i j hj => ?_, fun i => ?_, fun i i' j hj hj' => ?_⟩
  · rw [entries_update] at hj
    rw [hlen]
    exact h.younger i j hj
  · rw [entries_update]
    exact h.nodup i
  · rw [entries_update] at hj hj'
    exact h.parent i i' j hj hj'

section Walks

variable [DecidableEq Name]

/-- In a tree with a new node the old entries are found first. -/
theorem child_make {es : List Nat} (h : t.Grown) (hp : t.IsDir p es) (hc : c.entries = []) :
    (t.make p x c).child i y =
      if i = p then (t.child p y).or (if x = y then some t.length else none) else t.child i y := by
  have hnames : ∀ k, ∀ j ∈ t.entries k,
      decide ((t.make p x c).nameOf j = some y) = decide (t.nameOf j = some y) := by
    intro k j hj
    have hlt := (h.younger k j hj).2
    rw [nameOf_make, if_neg (by omega)]
  have hlast : [t.length].find? (fun j => decide ((t.make p x c).nameOf j = some y)) =
      if x = y then some t.length else none := by
    rw [List.find?_singleton, nameOf_make, if_pos rfl]
    by_cases hxy : x = y <;> simp [hxy]
  rw [child, entries_make hp hc]
  by_cases hi : i = p
  · have hold := List.find?_congr fun j hj => hnames p j (hp.entries_eq.symm ▸ hj)
    rw [if_pos hi, if_pos hi, List.find?_append, hlast, child, hp.entries_eq, hold]
  · rw [if_neg hi, if_neg hi]
    exact List.find?_congr fun j hj => hnames i j hj

/-- What was found is still found. -/
theorem child_make_of_some {es : List Nat} (h : t.Grown) (hp : t.IsDir p es) (hc : c.entries = [])
    (hj : t.child i y = some j) : (t.make p x c).child i y = some j := by
  rw [child_make h hp hc]
  by_cases hi : i = p
  · rw [if_pos hi, ← hi, hj, Option.some_or]
  · rw [if_neg hi, hj]

/-- Every walk arrives where it arrived before. -/
theorem walk_make {es : List Nat} (h : t.Grown) (hp : t.IsDir p es) (hc : c.entries = [])
    (hw : t.walk i ys = some j) : (t.make p x c).walk i ys = some j := by
  induction ys generalizing i with
  | nil => exact hw
  | cons y ys ih =>
      rw [walk_cons] at hw ⊢
      obtain ⟨k, hk, hw⟩ := Option.bind_eq_some_iff.mp hw
      rw [child_make_of_some h hp hc hk]
      exact ih hw

/-- One more name leads to the new node, unless there was an entry with the name. -/
theorem walk_make_concat {es : List Nat} (h : t.Grown) (hp : t.IsDir p es) (hc : c.entries = [])
    (hw : t.walk i xs = some p) : (t.make p x c).walk i (xs ++ [x]) = (t.child p x).or (some t.length) := by
  rw [walk_concat, walk_make h hp hc hw, Option.bind_some, child_make h hp hc, if_pos rfl, if_pos rfl]

/-- A new node that nobody lists is on no walk. -/
theorem walk_add (h : t.Grown) (x : Name) (c : Content α) (hw : t.walk i ys = some j) :
    (t.add x c).walk i ys = some j := by
  induction ys generalizing i with
  | nil => exact hw
  | cons y ys ih =>
      rw [walk_cons] at hw ⊢
      obtain ⟨k, hk, hw⟩ := Option.bind_eq_some_iff.mp hw
      have hchild : (t.add x c).child i y = some k := by
        have hi := lt_of_mem_entries (List.mem_of_find?_eq_some hk)
        rw [child, entries_add, if_neg (by omega), ← hk]
        refine List.find?_congr fun l hl => ?_
        have hlt := (h.younger i l hl).2
        rw [nameOf_add, if_neg (by omega)]
      rw [hchild]
      exact ih hw

/-- Data have nothing to do with walks. -/
theorem walk_update (n : Nat) (g : α → α) : (t.update n g).walk i ys = t.walk i ys := by
  have hchild : ∀ k z, (t.update n g).child k z = t.child k z := by
    intro k z
    rw [child, child, entries_update]
    exact List.find?_congr fun l _ => by rw [nameOf_update]
  induction ys generalizing i with
  | nil => rfl
  | cons y ys ih =>
      rw [walk_cons, walk_cons, hchild]
      exact Option.bind_congr fun k _ => ih

end Walks

end NameTree

end Aerogel
