import Mathlib.Data.List.Range
import Mathlib.Logic.Function.Basic

/-! # Grids of cells and windows onto rows

`gridOf w h f` reads `h` rows of `w` cells from a flat array `f`, and `lastRows h rows` is the window
onto the last `h` of a list of rows. Writing one cell, scrolling up by one row and starting a new page
do the same to both, which is what relates a screen to the history it shows. -/

namespace Aerogel

variable {α : Type*} {w h r c : Nat} {f f' : Nat → α} {v : α}

/-! ## Grids -/

/-- The grid of `h` rows of `w` cells that a flat array holds. -/
def gridOf (w h : Nat) (f : Nat → α) : List (List α) :=
  (List.range h).map fun r => (List.range w).map fun c => f (r * w + c)

@[simp] theorem length_gridOf : (gridOf w h f).length = h := by
  simp [gridOf]

/-- A row of the grid. -/
theorem gridOf_getElem (hr : r < (gridOf w h f).length) :
    (gridOf w h f)[r] = (List.range w).map fun c => f (r * w + c) := by
  simp [gridOf]

/-- Cells of different rows or columns have different indices. -/
theorem cell_index_inj {r' c' : Nat} (hc : c < w) (hc' : c' < w) :
    r' * w + c' = r * w + c ↔ r' = r ∧ c' = c := by
  constructor
  · intro heq
    have hw : 0 < w := by omega
    have hdiv := congrArg (· / w) heq
    have hmod := congrArg (· % w) heq
    simp only [Nat.mul_comm _ w, Nat.mul_add_div hw, Nat.mul_add_mod, Nat.div_eq_of_lt hc,
      Nat.div_eq_of_lt hc', Nat.mod_eq_of_lt hc, Nat.mod_eq_of_lt hc'] at hdiv hmod
    exact ⟨hdiv, hmod⟩
  · rintro ⟨rfl, rfl⟩
    rfl

/-- Writing one cell. -/
theorem gridOf_update (hc : c < w) :
    gridOf w h (Function.update f (r * w + c) v) = (gridOf w h f).modify r fun row => row.set c v := by
  apply List.ext_getElem
  · simp
  · intro i h₁ h₂
    rw [length_gridOf] at h₁
    rw [List.getElem_modify, gridOf_getElem, gridOf_getElem]
    apply List.ext_getElem
    · split <;> simp
    · intro j h₃ h₄
      have hjw : j < w := by simpa using h₃
      rw [List.getElem_map, List.getElem_range]
      by_cases hi : r = i
      · subst hi
        simp only [if_true, List.getElem_set, List.getElem_map, List.getElem_range]
        by_cases hj : c = j
        · subst hj
          rw [Function.update_self, if_pos rfl]
        · rw [if_neg hj, Function.update_of_ne]
          exact fun heq => hj ((cell_index_inj hc hjw).mp heq).2.symm
      · simp only [if_neg hi, List.getElem_map, List.getElem_range]
        rw [Function.update_of_ne]
        exact fun heq => hi ((cell_index_inj hc hjw).mp heq).1.symm

/-- Moving every row up by one. -/
theorem gridOf_scroll (hmove : ∀ r c, r < h → c < w → f' (r * w + c) = f ((r + 1) * w + c))
    (hblank : ∀ c, c < w → f' (h * w + c) = v) :
    gridOf w (h + 1) f' = (gridOf w (h + 1) f).tail ++ [List.replicate w v] := by
  have htail : (gridOf w (h + 1) f).tail =
      (List.range h).map fun r => (List.range w).map fun c => f ((r + 1) * w + c) := by
    rw [gridOf, List.range_succ_eq_map, List.map_cons, List.tail_cons, List.map_map]
    rfl
  rw [htail, gridOf, List.range_succ, List.map_append, List.map_singleton]
  congr 1
  · apply List.map_congr_left
    intro r hr
    apply List.map_congr_left
    intro c hc
    exact hmove r c (List.mem_range.mp hr) (List.mem_range.mp hc)
  · congr 1
    apply List.eq_replicate_iff.mpr
    refine ⟨by simp, fun x hx => ?_⟩
    obtain ⟨c, hc, rfl⟩ := List.mem_map.mp hx
    exact hblank c (List.mem_range.mp hc)

/-- The same value in every cell. -/
theorem gridOf_const (hf : ∀ i, i < w * h → f i = v) :
    gridOf w h f = List.replicate h (List.replicate w v) := by
  apply List.eq_replicate_iff.mpr
  refine ⟨length_gridOf, fun row hrow => ?_⟩
  obtain ⟨r, hr, rfl⟩ := List.mem_map.mp hrow
  apply List.eq_replicate_iff.mpr
  refine ⟨by simp, fun x hx => ?_⟩
  obtain ⟨c, hc, rfl⟩ := List.mem_map.mp hx
  rw [List.mem_range] at hr hc
  refine hf _ ?_
  calc r * w + c < r * w + w := by omega
    _ = (r + 1) * w := by rw [Nat.succ_mul]
    _ ≤ h * w := Nat.mul_le_mul_right w hr
    _ = w * h := Nat.mul_comm h w

/-! ## Windows -/

/-- The last `h` of a list of rows. -/
def lastRows (h : Nat) (rows : List α) : List α := rows.drop (rows.length - h)

/-- Changing a row inside the window. -/
theorem lastRows_modify {rows : List α} {g : α → α} (hh : h ≤ rows.length) :
    lastRows h (rows.modify (rows.length - h + r) g) = (lastRows h rows).modify r g := by
  rw [lastRows, lastRows, List.length_modify]
  apply List.ext_getElem
  · simp
  · intro i h₁ h₂
    simp only [List.getElem_drop, List.getElem_modify]
    exact if_congr (by omega) rfl rfl

/-- A new row at the end pushes the first one out of the window. -/
theorem lastRows_concat {rows : List α} {x : α} (hh : h + 1 ≤ rows.length) :
    lastRows (h + 1) (rows ++ [x]) = (lastRows (h + 1) rows).tail ++ [x] := by
  rw [lastRows, lastRows, List.tail_drop, List.length_append, List.length_singleton,
    List.drop_append_of_le_length (by omega)]
  congr 2
  omega

/-- A new page fills the window. -/
theorem lastRows_append_page {rows page : List α} (hp : page.length = h) :
    lastRows h (rows ++ page) = page := by
  rw [lastRows, List.length_append, hp, Nat.add_sub_cancel, List.drop_left]

end Aerogel
