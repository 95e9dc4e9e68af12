import Mathlib.Data.List.Chain

/-! # Doubly linked segments and rings

Nodes of an arbitrary type carry a forward link `next` and a backward link `prev`, both possibly
null. `DSeg next prev p l n` says that the nodes of `l` are linked both ways in the order of the
list, entered from `p` and left towards `n`; a null-terminated list is `DSeg next prev none l none`.
`DCycle next prev l` closes the segment on itself. Pointer programs rewrite a few links at the ends
of a segment, so everything rests on splitting a segment (`DSeg.append_iff`), keeping it where the
links agree (`DSeg.congr`) and rewriting its two outer links (`DSeg.reEnd`). -/

namespace Aerogel

universe u

variable {α : Type u}

/-- The node a walk enters: the first of `l`, or `n` when `l` is empty. -/
def firstOr (l : List α) (n : Option α) : Option α := l.head?.or n

/-- The node a walk leaves: the last of `l`, or `p` when `l` is empty. -/
def lastOr (p : Option α) (l : List α) : Option α := l.getLast?.or p

@[simp] theorem firstOr_nil (n : Option α) : firstOr [] n = n := rfl

@[simp] theorem firstOr_cons (a : α) (l : List α) (n : Option α) :
    firstOr (a :: l) n = some a := rfl

@[simp] theorem lastOr_nil (p : Option α) : lastOr p ([] : List α) = p := rfl

@[simp] theorem lastOr_cons (p : Option α) (a : α) (l : List α) :
    lastOr p (a :: l) = lastOr (some a) l := by
  cases l with
  | nil => rfl
  | cons b l => simp [lastOr, List.getLast?_cons]

@[simp] theorem lastOr_append_singleton (p : Option α) (l : List α) (z : α) :
    lastOr p (l ++ [z]) = some z := by
  simp [lastOr]

theorem firstOr_append (l r : List α) (n : Option α) :
    firstOr (l ++ r) n = firstOr l (firstOr r n) := by
  cases l <;> rfl

/-- The nodes of `l` are doubly linked in order, entered from `p` and left towards `n`. -/
def DSeg (next prev : α → Option α) : Option α → List α → Option α → Prop
  | _, [], _ => True
  | p, a :: l, n => prev a = p ∧ next a = firstOr l n ∧ DSeg next prev (some a) l n

section Segments

variable {next prev next' prev' : α → Option α}

@[simp] theorem DSeg.nil (p n : Option α) : DSeg next prev p [] n := trivial

@[simp] theorem DSeg.cons_iff {p n : Option α} {a : α} {l : List α} :
    DSeg next prev p (a :: l) n ↔
      prev a = p ∧ next a = firstOr l n ∧ DSeg next prev (some a) l n := Iff.rfl

/-- A segment splits at any point: the left part leaves towards the right part, the right part is
entered from the left one. -/
theorem DSeg.append_iff {p n : Option α} {l r : List α} :
    DSeg next prev p (l ++ r) n ↔
      DSeg next prev p l (firstOr r n) ∧ DSeg next prev (lastOr p l) r n := by
  induction l generalizing p with
  | nil => simp
  | cons a l ih =>
      rw [List.cons_append, DSeg.cons_iff, DSeg.cons_iff, ih, firstOr_append, lastOr_cons]
      simp only [and_assoc]

/-- A segment only depends on the links of its own nodes. -/
theorem DSeg.congr {p n : Option α} {l : List α} (h : DSeg next prev p l n)
    (hnext : ∀ a ∈ l, next' a = next a) (hprev : ∀ a ∈ l, prev' a = prev a) :
    DSeg next' prev' p l n := by
  induction l generalizing p with
  | nil => trivial
  | cons a l ih =>
      obtain ⟨h₁, h₂, h₃⟩ := h
      refine ⟨(hprev a (by simp)).trans h₁, (hnext a (by simp)).trans h₂, ?_⟩
      exact ih h₃ (fun b hb => hnext b (by simp [hb])) (fun b hb => hprev b (by simp [hb]))

/-- Rewriting the outer links: when only the backward link of the first node and the forward link
of the last one change, the segment is entered and left through the new links. -/
theorem DSeg.reEnd {p n p' n' : Option α} {l : List α} (h : DSeg next prev p l n)
    (hfirst : ∀ a, l.head? = some a → prev' a = p')
    (hlast : ∀ a, l.getLast? = some a → next' a = n')
    (hprev : ∀ a ∈ l.tail, prev' a = prev a) (hnext : ∀ a ∈ l.dropLast, next' a = next a) :
    DSeg next' prev' p' l n' := by
  induction l generalizing p p' with
  | nil => trivial
  | cons a l ih =>
      obtain ⟨-, h₂, h₃⟩ := h
      refine ⟨hfirst a rfl, ?_, ?_⟩
      · cases l with
        | nil => exact hlast a rfl
        | cons b l => rw [hnext a (by simp), h₂]; rfl
      · refine ih h₃ ?_ ?_ ?_ ?_
        · -- the second node's backward link is an inner link, so it still names `a`
          intro b hb
          cases l with
          | nil => cases hb
          | cons c l =>
              cases hb
              rw [hprev _ (by simp)]
              exact h₃.1
        · intro b hb
          cases l with
          | nil => cases hb
          | cons c l => exact hlast b (by rw [List.getLast?_cons_cons]; exact hb)
        · intro b hb
          exact hprev b (List.mem_of_mem_tail hb)
        · intro b hb
          cases l with
          | nil => cases hb
          | cons c l => exact hnext b (by simp only [List.dropLast_cons_cons]; exact List.mem_cons_of_mem _ hb)

/-- The forward link of a node inside a segment names its successor in the list. -/
theorem DSeg.next_eq {p n : Option α} {l r : List α} {a : α}
    (h : DSeg next prev p (l ++ a :: r) n) : next a = firstOr r n :=
  (DSeg.append_iff.mp h).2.2.1

/-- The backward link of a node inside a segment names its predecessor in the list. -/
theorem DSeg.prev_eq {p n : Option α} {l r : List α} {a : α}
    (h : DSeg next prev p (l ++ a :: r) n) : prev a = lastOr p l :=
  (DSeg.append_iff.mp h).2.1

/-- Neighbours of a segment are linked to each other. -/
theorem DSeg.isChain {p n : Option α} {l : List α} (h : DSeg next prev p l n) :
    l.IsChain fun a b => next a = some b ∧ prev b = some a := by
  induction l generalizing p with
  | nil => exact .nil
  | cons a l ih =>
      refine List.isChain_cons.mpr ⟨fun b hb => ?_, ih h.2.2⟩
      cases l with
      | nil => cases hb
      | cons c l => cases hb; exact ⟨h.2.1, h.2.2.1⟩

end Segments

/-! ## Rings -/

/-- The nodes of `l` form a ring: the segment leaves towards its own first node and is entered
from its own last one. -/
def DCycle (next prev : α → Option α) (l : List α) : Prop :=
  DSeg next prev l.getLast? l l.head?

section Rings

variable {next prev next' prev' : α → Option α}

@[simp] theorem DCycle.nil : DCycle next prev [] := trivial

/-- A ring with a distinguished node `t`: `t` is linked to both ends of the remaining segment, or
to itself when it is alone. -/
theorem DCycle.cons_iff {t : α} {l : List α} :
    DCycle next prev (t :: l) ↔
      prev t = lastOr (some t) l ∧ next t = firstOr l (some t) ∧
        DSeg next prev (some t) l (some t) := by
  have hlast : (t :: l).getLast? = lastOr (some t) l := by
    cases l with
    | nil => rfl
    | cons b l => simp [lastOr, List.getLast?_cons]
  rw [DCycle, DSeg.cons_iff, hlast]
  rfl

/-- A ring may be read from any of its nodes. -/
theorem DCycle.rotate {l r : List α} (h : DCycle next prev (l ++ r)) :
    DCycle next prev (r ++ l) := by
  cases l with
  | nil => simpa using h
  | cons a l =>
      cases r with
      | nil => simpa using h
      | cons b r =>
          -- each half is entered from the last node of the other one in both readings
          rw [DCycle, DSeg.append_iff] at h ⊢
          obtain ⟨hl, hr⟩ := h
          refine ⟨?_, ?_⟩
          · have h₁ : ((b :: r) ++ a :: l).getLast? = lastOr ((a :: l ++ b :: r).getLast?) (a :: l) := by
              rw [List.getLast?_append]
              rfl
            rw [h₁]
            exact hr
          · have h₂ : lastOr ((b :: r ++ a :: l).getLast?) (b :: r) = (a :: l ++ b :: r).getLast? := by
              simp [lastOr, List.getLast?_append, List.getLast?_cons]
            rw [h₂]
            exact hl

/-- A ring only depends on the links of its own nodes. -/
theorem DCycle.congr {l : List α} (h : DCycle next prev l)
    (hnext : ∀ a ∈ l, next' a = next a) (hprev : ∀ a ∈ l, prev' a = prev a) :
    DCycle next' prev' l :=
  DSeg.congr h hnext hprev

/-- Linking a new node `t` between the last and the first node of a nonempty ring puts it at the
tail. -/
theorem DCycle.pushBack {h z t : α} {l : List α} (hc : DCycle next prev l) (hnd : l.Nodup)
    (hhead : l.head? = some h) (hlast : l.getLast? = some z)
    (htn : next' t = some h) (htp : prev' t = some z) (hzn : next' z = some t)
    (hhp : prev' h = some t) (hnext : ∀ a ∈ l, a ≠ z → next' a = next a)
    (hprev : ∀ a ∈ l, a ≠ h → prev' a = prev a) : DCycle next' prev' (l ++ [t]) := by
  -- read from `t` on, the new ring is `t` and the old one as a segment
  refine DCycle.rotate (l := [t]) (r := l) ?_
  rw [List.singleton_append, DCycle.cons_iff]
  refine ⟨by simp [lastOr, hlast, htp], by simp [firstOr, hhead, htn], ?_⟩
  refine DSeg.reEnd hc ?_ ?_ ?_ ?_
  · intro a ha
    obtain rfl : h = a := Option.some.inj (hhead.symm.trans ha)
    exact hhp
  · intro a ha
    obtain rfl : z = a := Option.some.inj (hlast.symm.trans ha)
    exact hzn
  · intro a ha
    refine hprev a (List.mem_of_mem_tail ha) ?_
    rintro rfl
    cases l with
    | nil => cases ha
    | cons b l =>
        cases hhead
        exact (List.nodup_cons.mp hnd).1 ha
  · intro a ha
    refine hnext a (List.dropLast_subset _ ha) ?_
    rintro rfl
    obtain ⟨l', rfl⟩ : ∃ l', l = l' ++ [a] := List.getLast?_eq_some_iff.mp hlast
    rw [List.dropLast_concat] at ha
    exact (List.nodup_append.mp hnd).2.2 a ha a (by simp) rfl

/-- Linking the two neighbours of `t` with each other takes `t` out of a ring of more than one
node. -/
theorem DCycle.unlink {p n t : α} {l r : List α} (hc : DCycle next prev (l ++ t :: r))
    (hnd : (l ++ t :: r).Nodup) (hne : l ++ r ≠ []) (hp : prev t = some p) (hn : next t = some n)
    (hpn : next' p = some n) (hnp : prev' n = some p)
    (hnext : ∀ a ∈ l ++ r, a ≠ p → next' a = next a)
    (hprev : ∀ a ∈ l ++ r, a ≠ n → prev' a = prev a) : DCycle next' prev' (l ++ r) := by
  -- read from `t` on, what remains is a segment between its two neighbours
  have hrot : DCycle next prev (t :: (r ++ l)) := by
    have h := DCycle.rotate (l := l) (r := t :: r) hc
    simpa using h
  have hndw : (r ++ l).Nodup := by
    have h : (l ++ r).Nodup := by
      refine hnd.sublist ?_
      exact List.Sublist.append_left (List.sublist_cons_self t r) l
    exact List.perm_append_comm.nodup_iff.mp h
  refine DCycle.rotate (l := r) (r := l) ?_
  obtain ⟨h₁, h₂, h₃⟩ := DCycle.cons_iff.mp hrot
  have hmem : ∀ {a}, a ∈ r ++ l → a ∈ l ++ r := by
    intro a ha; simp only [List.mem_append] at ha ⊢; exact ha.symm
  have hne' : r ++ l ≠ [] := by
    intro h; simp only [List.append_eq_nil_iff] at h; exact hne (by simp [h.1, h.2])
  obtain ⟨w, z, hw⟩ : ∃ w z, r ++ l = w ++ [z] := by
    exact ⟨_, _, (List.dropLast_append_getLast hne').symm⟩
  obtain ⟨b, v, hv⟩ : ∃ b v, r ++ l = b :: v := List.exists_cons_of_ne_nil hne'
  -- `p` and `n` are the ends of that segment
  have hz : p = z := by
    rw [hp, hw, lastOr_append_singleton] at h₁
    exact Option.some.inj h₁
  have hb : n = b := by
    rw [hn, hv, firstOr_cons] at h₂
    exact Option.some.inj h₂
  subst hz hb
  refine DSeg.reEnd h₃ ?_ ?_ ?_ ?_
  · intro a ha
    rw [hv] at ha
    cases ha
    rw [hnp, hw]
    simp
  · intro a ha
    rw [hw, List.getLast?_concat] at ha
    cases ha
    rw [hpn, hv]
    rfl
  · intro a ha
    refine hprev a (hmem (List.mem_of_mem_tail ha)) ?_
    rintro rfl
    rw [hv] at ha hndw
    exact (List.nodup_cons.mp hndw).1 ha
  · intro a ha
    refine hnext a (hmem (List.dropLast_subset _ ha)) ?_
    rintro rfl
    rw [hw, List.dropLast_concat] at ha
    rw [hw] at hndw
    exact (List.nodup_append.mp hndw).2.2 a ha a (by simp) rfl

end Rings

end Aerogel
