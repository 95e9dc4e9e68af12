import Aerogel.Drivers.Framebuffer
import Aerogel.Foundations.LineSteps
import Mathlib.Algebra.Order.Field.Basic
import Mathlib.Algebra.Order.Ring.Rat
import Mathlib.Data.List.Chain
import Mathlib.Data.List.Range
import Mathlib.Tactic.FieldSimp

/-! # `fb_line` draws a digital line

The loop of `fb_line` ends when both coordinates are those of the endpoint at the same time. They are:
its variables after `k` rounds are those of the digital line with as many minor steps as belong to `k`
major ones (`Line.vars`), whichever of the two directions is the major one, and the error term has the
sign of the case. -/

namespace Aerogel

namespace Framebuffer

/-- The constants of the loop. -/
structure Line where
  /-- The starting point. -/
  x0 : Int
  /-- Its row. -/
  y0 : Int
  /-- `ax`. -/
  ax : Int
  /-- `ay`. -/
  ay : Int
  /-- `sx`. -/
  sx : Int
  /-- `sy`. -/
  sy : Int
  /-- The starting point is not far out. -/
  start_mem : (-2 ^ 29 < x0 ∧ x0 < 2 ^ 29) ∧ -2 ^ 29 < y0 ∧ y0 < 2 ^ 29
  /-- The extent of the line. -/
  extent_mem : (0 ≤ ax ∧ ax < 2 ^ 30) ∧ 0 ≤ ay ∧ ay < 2 ^ 30
  /-- Steps to the right or to the left. -/
  sx_eq : sx = 1 ∨ sx = -1
  /-- Steps down or up. -/
  sy_eq : sy = 1 ∨ sy = -1

namespace Line

variable (l : Line)

/-- The variables after `k` rounds. -/
def vars (k : Int) : LineVars :=
  if l.ay < l.ax then ⟨l.x0 + k * l.sx, l.y0 + minorAt l.ax l.ay k * l.sy, lineError l.ax l.ay k⟩
  else ⟨l.x0 + minorAt l.ay l.ax k * l.sx, l.y0 + k * l.sy, -lineError l.ay l.ax k⟩

/-- The variables in front of the loop. -/
theorem vars_zero : l.vars 0 = ⟨l.x0, l.y0, (if l.ax > l.ay then l.ax else -l.ay).tdiv 2⟩ := by
  obtain ⟨⟨hax, -⟩, hay, -⟩ := l.extent_mem
  rw [vars]
  split_ifs
  · rw [minorAt_zero hax, lineError_zero hax, Int.zero_mul, Int.zero_mul, Int.add_zero, Int.add_zero,
      Int.tdiv_eq_ediv_of_nonneg hax]
  · rw [minorAt_zero hay, lineError_zero hay, Int.zero_mul, Int.zero_mul, Int.add_zero, Int.add_zero,
      Int.neg_tdiv, Int.tdiv_eq_ediv_of_nonneg hay]

/-- The number of rounds. -/
def rounds : Nat := (max l.ax l.ay).toNat

/-- A coordinate on the way. -/
theorem coordinate_fits {z s j : Int} (hz : -2 ^ 29 < z ∧ z < 2 ^ 29) (hs : s = 1 ∨ s = -1) (hj : 0 ≤ j)
    (hj' : j < 2 ^ 30) : cInt (z + j * s) = .ok (z + j * s) := by
  rcases hs with rfl | rfl
  · exact cInt_eq (by omega) (by omega)
  · exact cInt_eq (by omega) (by omega)

theorem moveX_eq {ay sx : Int} {v : LineVars} (h₁ : -2 ^ 31 ≤ v.err - ay) (h₂ : v.err - ay < 2 ^ 31)
    (h : cInt (v.x + sx) = .ok (v.x + sx)) : moveX ay sx v = .ok ⟨v.x + sx, v.y, v.err - ay⟩ := by
  rw [moveX, cInt_eq h₁ h₂, ok_andThen, h]
  rfl

theorem moveY_eq {ax sy : Int} {v : LineVars} (h₁ : -2 ^ 31 ≤ v.err + ax) (h₂ : v.err + ax < 2 ^ 31)
    (h : cInt (v.y + sy) = .ok (v.y + sy)) : moveY ax sy v = .ok ⟨v.x, v.y + sy, v.err + ax⟩ := by
  rw [moveY, cInt_eq h₁ h₂, ok_andThen, h]
  rfl

theorem step_coordinate (z j s : Int) : z + j * s + s = z + (j + 1) * s := by ring

theorem cInt_neg_ax : cInt (-l.ax) = .ok (-l.ax) := by
  obtain ⟨⟨hax, hax'⟩, -⟩ := l.extent_mem
  exact cInt_eq (by omega) (by omega)

/-- On a line that is not steep every round moves `x`. -/
theorem lineStep_of_lt (hmajor : l.ay < l.ax) {k : Int} (hk : 0 ≤ k) (hlt : k < l.ax) :
    lineStep l.ax l.ay l.sx l.sy (l.vars k) = .ok (l.vars (k + 1)) := by
  obtain ⟨⟨hax, hax'⟩, hay, hay'⟩ := l.extent_mem
  have hpos : 0 < l.ax := by omega
  obtain ⟨hlow, hhigh⟩ := lineError_mem hpos l.ay k
  have hsucc := minorAt_succ hay hmajor.le hpos k
  have herr := lineError_succ hay hmajor.le hpos k
  obtain ⟨hj, hj'⟩ := minorAt_mem hay hpos (show 0 ≤ k + 1 by omega) (by omega)
  have hx := coordinate_fits l.start_mem.1 l.sx_eq (show 0 ≤ k + 1 by omega) (by omega)
  have hy := coordinate_fits l.start_mem.2 l.sy_eq hj (by omega)
  rw [← step_coordinate] at hx
  rw [lineStep, l.cInt_neg_ax, ok_andThen, vars, vars, if_pos hmajor, if_pos hmajor]
  dsimp only
  rw [if_pos (by omega), moveX_eq (by dsimp only; omega) (by dsimp only; omega) hx, ok_andThen]
  by_cases hdue : lineError l.ax l.ay k < l.ay
  · rw [if_pos hdue] at hsucc herr
    rw [hsucc, ← step_coordinate] at hy
    rw [if_pos hdue, moveY_eq (by dsimp only; omega) (by dsimp only; omega) hy, step_coordinate, step_coordinate,
      hsucc, herr]
  · rw [if_neg hdue, Int.add_zero] at hsucc herr
    rw [if_neg hdue, step_coordinate, hsucc, herr]
    rfl

/-- On any other line every round moves `y`, and the error term has the other sign. -/
theorem lineStep_of_le (hmajor : l.ax ≤ l.ay) {k : Int} (hk : 0 ≤ k) (hlt : k < l.ay) :
    lineStep l.ax l.ay l.sx l.sy (l.vars k) = .ok (l.vars (k + 1)) := by
  obtain ⟨⟨hax, hax'⟩, hay, hay'⟩ := l.extent_mem
  have hpos : 0 < l.ay := by omega
  obtain ⟨hlow, hhigh⟩ := lineError_mem hpos l.ax k
  have hsucc := minorAt_succ hax hmajor hpos k
  have herr := lineError_succ hax hmajor hpos k
  obtain ⟨hj, hj'⟩ := minorAt_mem hax hpos (show 0 ≤ k + 1 by omega) (by omega)
  have hx := coordinate_fits l.start_mem.1 l.sx_eq hj (by omega)
  have hy := coordinate_fits l.start_mem.2 l.sy_eq (show 0 ≤ k + 1 by omega) (by omega)
  rw [← step_coordinate] at hy
  rw [lineStep, l.cInt_neg_ax, ok_andThen, vars, vars, if_neg (not_lt.mpr hmajor), if_neg (not_lt.mpr hmajor)]
  dsimp only
  have hmove : -lineError l.ay l.ax k < l.ay := by omega
  by_cases hdue : lineError l.ay l.ax k < l.ax
  · rw [if_pos hdue] at hsucc herr
    rw [hsucc, ← step_coordinate] at hx
    rw [if_pos (by omega), moveX_eq (by dsimp only; omega) (by dsimp only; omega) hx, ok_andThen, if_pos hmove,
      moveY_eq (by dsimp only; omega) (by dsimp only; omega) hy]
    dsimp only
    rw [step_coordinate, step_coordinate, hsucc,
      show -lineError l.ay l.ax k - l.ay + l.ax = -lineError l.ay l.ax (k + 1) by omega]
  · rw [if_neg hdue, Int.add_zero] at hsucc herr
    rw [if_neg (by omega), pure_bind, if_pos hmove, moveY_eq (by dsimp only; omega) (by dsimp only; omega) hy]
    dsimp only
    rw [step_coordinate, hsucc, show -lineError l.ay l.ax k + l.ax = -lineError l.ay l.ax (k + 1) by omega]

/-- One round takes the next step of the digital line. -/
theorem lineStep_vars {k : Int} (hk : 0 ≤ k) (hlt : k < max l.ax l.ay) :
    lineStep l.ax l.ay l.sx l.sy (l.vars k) = .ok (l.vars (k + 1)) := by
  by_cases hmajor : l.ay < l.ax
  · exact l.lineStep_of_lt hmajor hk (by omega)
  · exact l.lineStep_of_le (not_lt.mp hmajor) hk (by omega)

/-- The point that is drawn after `k` rounds. -/
def point (k : Nat) : Int × Int := ((l.vars k).x, (l.vars k).y)

/-- The points of the line. -/
def points : List (Int × Int) := (List.range (l.rounds + 1)).map l.point

/-- A line that is not steep. -/
theorem point_of_le (h : l.ay ≤ l.ax) (hpos : 0 < l.ax) (k : Nat) :
    l.point k = (l.x0 + k * l.sx, l.y0 + minorAt l.ax l.ay k * l.sy) := by
  rw [point, vars]
  by_cases hmajor : l.ay < l.ax
  · rw [if_pos hmajor]
  · -- on a diagonal both coordinates are major
    have hdiag : l.ay = l.ax := le_antisymm h (not_lt.mp hmajor)
    rw [if_neg hmajor, hdiag, minorAt_diagonal hpos]

/-- A line that is not flat. -/
theorem point_of_ge (h : l.ax ≤ l.ay) (k : Nat) :
    l.point k = (l.x0 + minorAt l.ay l.ax k * l.sx, l.y0 + k * l.sy) := by
  rw [point, vars, if_neg (not_lt.mpr h)]

theorem rounds_eq : (l.rounds : Int) = max l.ax l.ay := Int.toNat_of_nonneg (le_max_of_le_left l.extent_mem.1.1)

/-- The line begins at its starting point. -/
theorem point_zero : l.point 0 = (l.x0, l.y0) := by
  obtain ⟨⟨hax, -⟩, hay, -⟩ := l.extent_mem
  by_cases hmajor : l.ay < l.ax
  · rw [point_of_le l hmajor.le (by omega), Nat.cast_zero, minorAt_zero hax, Int.zero_mul, Int.zero_mul,
      Int.add_zero, Int.add_zero]
  · rw [point_of_ge l (not_lt.mp hmajor), Nat.cast_zero, minorAt_zero hay, Int.zero_mul, Int.zero_mul,
      Int.add_zero, Int.add_zero]

/-- The line ends at its endpoint. -/
theorem point_rounds : l.point l.rounds = (l.x0 + l.ax * l.sx, l.y0 + l.ay * l.sy) := by
  obtain ⟨⟨hax, -⟩, hay, -⟩ := l.extent_mem
  by_cases hmajor : l.ay < l.ax
  · rw [point_of_le l hmajor.le (by omega), rounds_eq, max_eq_left hmajor.le, minorAt_self (by omega)]
  · have hle : l.ax ≤ l.ay := not_lt.mp hmajor
    rw [point_of_ge l hle, rounds_eq, max_eq_right hle]
    rcases hay.eq_or_lt with h0 | hpos
    · rw [← h0, minorAt_zero le_rfl, show l.ax = 0 by omega]
    · rw [minorAt_self hpos]

/-- No other point of the line is its endpoint. -/
theorem point_ne {k : Nat} (hk : k < l.rounds) : l.point k ≠ l.point l.rounds := by
  intro heq
  obtain ⟨⟨hax, -⟩, hay, -⟩ := l.extent_mem
  -- the major coordinates differ
  have hmul : ∀ s : Int, s = 1 ∨ s = -1 → (k : Int) * s ≠ l.rounds * s := by
    rintro s (rfl | rfl) <;> omega
  by_cases hmajor : l.ay < l.ax
  · rw [point_of_le l hmajor.le (by omega), point_of_le l hmajor.le (by omega), Prod.mk.injEq] at heq
    exact hmul _ l.sx_eq (Int.add_left_cancel heq.1)
  · rw [point_of_ge l (not_lt.mp hmajor), point_of_ge l (not_lt.mp hmajor), Prod.mk.injEq] at heq
    exact hmul _ l.sy_eq (Int.add_left_cancel heq.2)

variable {T : Target} {fb : FbInfo}

/-- The loop draws the rest of the line. -/
theorem lineLoop_eq (c : UInt32) {k fuel : Nat} (hk : k ≤ l.rounds) (hfuel : l.rounds - k < fuel) (s : Screen) :
    lineLoop T fb l.ax l.ay l.sx l.sy (l.x0 + l.ax * l.sx) (l.y0 + l.ay * l.sy) c fuel (l.vars k) s =
      .ok (plotAll T fb s ((List.range' k (l.rounds + 1 - k)).map fun i => ⟨(l.point i).1, (l.point i).2, c⟩)) := by
  have hrounds := l.rounds_eq
  have hend : ∀ i : Nat, (l.vars i).x = l.x0 + l.ax * l.sx ∧ (l.vars i).y = l.y0 + l.ay * l.sy ↔
      l.point i = l.point l.rounds := fun i => by rw [point_rounds, point, Prod.mk.injEq]
  induction hrem : l.rounds - k generalizing k fuel s with
  | zero =>
      obtain ⟨fuel, rfl⟩ : ∃ n, fuel = n + 1 := ⟨fuel - 1, by omega⟩
      obtain rfl : k = l.rounds := by omega
      rw [lineLoop, if_pos ((hend _).mpr rfl), Nat.add_sub_cancel_left]
      rfl
  | succ rem ih =>
      obtain ⟨fuel, rfl⟩ : ∃ n, fuel = n + 1 := ⟨fuel - 1, by omega⟩
      rw [lineLoop, if_neg fun h => l.point_ne (show k < l.rounds by omega) ((hend _).mp h),
        l.lineStep_vars (Int.natCast_nonneg k) (by omega), ok_andThen, ← Nat.cast_succ,
        ih (by omega) (by omega) _ (by omega), show l.rounds + 1 - k = l.rounds + 1 - (k + 1) + 1 by omega,
        List.range'_succ, List.map_cons]
      rfl

end Line

/-- The points of a line from one endpoint to the other. -/
structure IsLine (x0 y0 x1 y1 : Int) (points : List (Int × Int)) : Prop where
  /-- Their number. -/
  count : points.length = max (x1 - x0).natAbs (y1 - y0).natAbs + 1
  /-- The first one. -/
  first : points.head? = some (x0, y0)
  /-- The last one. -/
  last : points.getLast? = some (x1, y1)
  /-- Both coordinates change by at most 1 from one to the next. -/
  adjacent : points.IsChain fun p q => |q.1 - p.1| ≤ 1 ∧ |q.2 - p.2| ≤ 1
  /-- The major one changes by exactly 1. -/
  major : points.IsChain fun p q => (|y1 - y0| ≤ |x1 - x0| → |q.1 - p.1| = 1) ∧
    (|x1 - x0| ≤ |y1 - y0| → |q.2 - p.2| = 1)
  /-- In the other direction they are at most half a pixel away from the ideal line. -/
  near : ∀ p ∈ points,
    (|y1 - y0| ≤ |x1 - x0| → |(p.2 : ℚ) - (y0 + (y1 - y0) / (x1 - x0) * (p.1 - x0))| ≤ 1 / 2) ∧
    (|x1 - x0| ≤ |y1 - y0| → |(p.1 : ℚ) - (x0 + (x1 - x0) / (y1 - y0) * (p.2 - y0))| ≤ 1 / 2)

namespace Line

variable (l : Line)

theorem isChain_points {R : Int × Int → Int × Int → Prop}
    (h : ∀ k < l.rounds, R (l.point k) (l.point (k + 1))) : l.points.IsChain R := by
  rw [points, List.isChain_map, List.isChain_range_succ]
  exact h

/-- One step to the side. -/
theorem abs_step (z i : Int) {s : Int} (hs : s = 1 ∨ s = -1) : |z + (i + 1) * s - (z + i * s)| = 1 := by
  rcases hs with rfl | rfl
  · rw [show z + (i + 1) * 1 - (z + i * 1) = 1 by omega, abs_one]
  · rw [show z + (i + 1) * -1 - (z + i * -1) = -1 by omega, abs_neg, abs_one]

/-- One step or none. -/
theorem abs_minorStep {n b : Int} (hb : 0 ≤ b) (hbn : b ≤ n) (hn : 0 < n) (z k : Int) {s : Int}
    (hs : s = 1 ∨ s = -1) : |z + minorAt n b (k + 1) * s - (z + minorAt n b k * s)| ≤ 1 := by
  rw [minorAt_succ hb hbn hn]
  split_ifs
  · exact (abs_step z _ hs).le
  · rw [Int.add_zero, Int.sub_self, abs_zero]
    exact Int.one_nonneg

/-- From one point to the next, on a line that is not steep. -/
theorem point_succ_of_le (h : l.ay ≤ l.ax) {k : Nat} (hk : k < l.rounds) :
    |(l.point (k + 1)).1 - (l.point k).1| = 1 ∧ |(l.point (k + 1)).2 - (l.point k).2| ≤ 1 := by
  have hrounds := l.rounds_eq
  have hpos : 0 < l.ax := by omega
  rw [point_of_le l h hpos, point_of_le l h hpos, Nat.cast_succ]
  exact ⟨abs_step _ _ l.sx_eq, abs_minorStep l.extent_mem.2.1 h hpos _ _ l.sy_eq⟩

/-- The same on a line that is not flat. -/
theorem point_succ_of_ge (h : l.ax ≤ l.ay) {k : Nat} (hk : k < l.rounds) :
    |(l.point (k + 1)).1 - (l.point k).1| ≤ 1 ∧ |(l.point (k + 1)).2 - (l.point k).2| = 1 := by
  have hrounds := l.rounds_eq
  have hpos : 0 < l.ay := by omega
  rw [point_of_ge l h, point_of_ge l h, Nat.cast_succ]
  exact ⟨abs_minorStep l.extent_mem.1.1 h hpos _ _ l.sx_eq, abs_step _ _ l.sy_eq⟩

/-- Half a pixel, as a fraction. -/
theorem near_ideal {n b k j : Int} (hn : 0 < n) (h : 2 * |j * n - k * b| ≤ n) (z w : Int) {s t : Int}
    (hs : s = 1 ∨ s = -1) (ht : t = 1 ∨ t = -1) :
    |((z + j * s : Int) : ℚ) - (z + ((z + b * s : Int) - z) / ((w + n * t : Int) - w) * ((w + k * t : Int) - w))| ≤
      1 / 2 := by
  have hn' : (0 : ℚ) < n := Int.cast_pos.mpr hn
  have hcast : 2 * |(j : ℚ) * n - k * b| ≤ n := by exact_mod_cast h
  have hfraction : ((z + j * s : Int) : ℚ) -
      (z + ((z + b * s : Int) - z) / ((w + n * t : Int) - w) * ((w + k * t : Int) - w)) =
      s * ((j * n - k * b) / n) := by
    push_cast
    rw [add_sub_cancel_left, add_sub_cancel_left, add_sub_cancel_left]
    rcases ht with rfl | rfl
    · field_simp
      ring
    · field_simp
      ring
  have hsign : |(s : ℚ)| = 1 := by
    rcases hs with rfl | rfl
    · rw [Int.cast_one, abs_one]
    · rw [Int.cast_neg, Int.cast_one, abs_neg, abs_one]
  rw [hfraction, abs_mul, hsign, one_mul, abs_div, abs_of_pos hn', div_le_div_iff₀ hn' two_pos]
  linarith

/-- The points are those of a line. -/
theorem isLine_points : IsLine l.x0 l.y0 (l.x0 + l.ax * l.sx) (l.y0 + l.ay * l.sy) l.points := by
  obtain ⟨⟨hax, -⟩, hay, -⟩ := l.extent_mem
  have hrounds := l.rounds_eq
  have habs : ∀ (z b s : Int), 0 ≤ b → (s = 1 ∨ s = -1) → |z + b * s - z| = b := by
    rintro z b s hb (rfl | rfl)
    · rw [show z + b * 1 - z = b by omega, abs_of_nonneg hb]
    · rw [show z + b * -1 - z = -b by omega, abs_neg, abs_of_nonneg hb]
  have hx := habs l.x0 l.ax l.sx hax l.sx_eq
  have hy := habs l.y0 l.ay l.sy hay l.sy_eq
  refine ⟨?_, ?_, ?_, isChain_points l fun k hk => ?_, isChain_points l fun k hk => ?_, ?_⟩
  · have hx' := Int.natCast_natAbs (l.x0 + l.ax * l.sx - l.x0)
    have hy' := Int.natCast_natAbs (l.y0 + l.ay * l.sy - l.y0)
    rw [points, List.length_map, List.length_range]
    rw [hx] at hx'
    rw [hy] at hy'
    omega
  · rw [points, List.range_succ_eq_map, List.map_cons, List.head?_cons, point_zero]
  · rw [points, List.range_succ, List.map_append, List.map_singleton, List.getLast?_concat, point_rounds]
  · rcases le_total l.ay l.ax with h | h
    · obtain ⟨h₁, h₂⟩ := l.point_succ_of_le h hk
      exact ⟨h₁.le, h₂⟩
    · obtain ⟨h₁, h₂⟩ := l.point_succ_of_ge h hk
      exact ⟨h₁, h₂.le⟩
  · rw [hx, hy]
    exact ⟨fun h => (l.point_succ_of_le h hk).1, fun h => (l.point_succ_of_ge h hk).2⟩
  · intro p hp
    obtain ⟨k, hk, rfl⟩ := List.mem_map.mp hp
    rw [hx, hy]
    rcases (Nat.zero_le l.rounds).eq_or_lt with h0 | hpos
    · -- a single point
      have hk0 : k = 0 := by
        have := List.mem_range.mp hk
        omega
      rw [hk0, point_zero]
      simp
    · refine ⟨fun h => ?_, fun h => ?_⟩
      · rw [point_of_le l h (by omega)]
        exact near_ideal (by omega) (minorAt_near (by omega) _ _) _ _ l.sy_eq l.sx_eq
      · rw [point_of_ge l h]
        exact near_ideal (by omega) (minorAt_near (by omega) _ _) _ _ l.sx_eq l.sy_eq

/-- The line between two endpoints. -/
def between (x0 y0 x1 y1 : Int) (h₀ : |x0| < 2 ^ 29 ∧ |y0| < 2 ^ 29) (h₁ : |x1| < 2 ^ 29 ∧ |y1| < 2 ^ 29) :
    Line where
  x0 := x0
  y0 := y0
  ax := |x1 - x0|
  ay := |y1 - y0|
  sx := if x1 - x0 < 0 then -1 else 1
  sy := if y1 - y0 < 0 then -1 else 1
  start_mem := ⟨abs_lt.mp h₀.1, abs_lt.mp h₀.2⟩
  extent_mem := by
    rw [abs_lt, abs_lt] at h₀ h₁
    exact ⟨⟨abs_nonneg _, abs_lt.mpr (by omega)⟩, abs_nonneg _, abs_lt.mpr (by omega)⟩
  sx_eq := by split_ifs <;> simp
  sy_eq := by split_ifs <;> simp

end Line

/-- The absolute value, as the code takes it. -/
theorem cInt_abs {d : Int} (h : |d| < 2 ^ 30) : (if d < 0 then cInt (-d) else pure d) = .ok |d| := by
  rw [abs_lt] at h
  split_ifs with hneg
  · rw [cInt_eq (by omega) (by omega), abs_of_neg hneg]
  · rw [abs_of_nonneg (not_lt.mp hneg)]
    rfl

theorem add_abs_mul_sign (z w : Int) : z + |w - z| * (if w - z < 0 then -1 else 1) = w := by
  split_ifs with hneg
  · rw [abs_of_neg hneg]
    omega
  · rw [abs_of_nonneg (not_lt.mp hneg)]
    omega

/-- `fb_line` terminates, without an overflow, after one call of `fb_pixel` for every point of the line
between its endpoints. -/
theorem fbLine_isLine (T : Target) (fb : FbInfo) {x0 y0 x1 y1 : Int} (h₀ : |x0| < 2 ^ 29 ∧ |y0| < 2 ^ 29)
    (h₁ : |x1| < 2 ^ 29 ∧ |y1| < 2 ^ 29) (c : UInt32) (s : Screen) :
    ∃ points s', IsLine x0 y0 x1 y1 points ∧ s'.calls = s.calls ++ points ∧
      ∀ fuel, points.length ≤ fuel → fbLine T fb fuel x0 y0 x1 y1 c s = .ok s' := by
  let l := Line.between x0 y0 x1 y1 h₀ h₁
  have hx : l.x0 + l.ax * l.sx = x1 := add_abs_mul_sign x0 x1
  have hy : l.y0 + l.ay * l.sy = y1 := add_abs_mul_sign y0 y1
  have hline := l.isLine_points
  rw [hx, hy] at hline
  refine ⟨l.points,
    plotAll T fb s ((List.range' 0 (l.rounds + 1 - 0)).map fun i => ⟨(l.point i).1, (l.point i).2, c⟩),
    hline, ?_, fun fuel hfuel => ?_⟩
  · rw [calls_plotAll, List.map_map, Nat.sub_zero, ← List.range_eq_range']
    rfl
  · have hrounds : l.rounds - 0 < fuel := by
      rw [Line.points, List.length_map, List.length_range] at hfuel
      omega
    have hloop := @Line.lineLoop_eq l T fb c 0 fuel (Nat.zero_le _) hrounds s
    rw [hx, hy, Nat.cast_zero, Line.vars_zero] at hloop
    obtain ⟨⟨hax, hax'⟩, hay, hay'⟩ := l.extent_mem
    have herr : (if l.ax > l.ay then pure l.ax else cInt (-l.ay)) =
        Except.ok (if l.ax > l.ay then l.ax else -l.ay) := by
      split_ifs
      · rfl
      · exact cInt_eq (by omega) (by omega)
    rw [abs_lt, abs_lt] at h₀ h₁
    rw [fbLine, cInt_eq (by omega) (by omega), ok_andThen, cInt_eq (by omega) (by omega), ok_andThen, cInt_abs hax',
      ok_andThen, cInt_abs hay', ok_andThen]
    change (if l.ax > l.ay then pure l.ax else cInt (-l.ay)) >>= _ = _
    rw [herr, ok_andThen]
    exact hloop

/-- The line from (0, 0) to (5, -2) has six points. -/
theorem fbLine_isLine_shallow : ∃ points s', IsLine 0 0 5 (-2) points ∧
    s'.calls = (Screen.start fun _ => 0).calls ++ points ∧ ∀ fuel, points.length ≤ fuel →
      fbLine .x86 ⟨0xE0000000, 2560, 640, 480, 32⟩ fuel 0 0 5 (-2) 0xFFFFFF (.start fun _ => 0) = .ok s' :=
  fbLine_isLine .x86 ⟨0xE0000000, 2560, 640, 480, 32⟩ (by decide) (by decide) 0xFFFFFF (.start fun _ => 0)

end Framebuffer

end Aerogel
