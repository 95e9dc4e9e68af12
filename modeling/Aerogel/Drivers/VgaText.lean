import Aerogel.Foundations.Grid
import Aerogel.Foundations.Loop
import Mathlib.Tactic.Linarith

/-! # The VGA text console `vga_text.c`

The console writes characters into the 2000 cells at `VGA_BASE` and keeps the cursor in static
variables; what does not fit is scrolled out at the top, in place and row by row. `Terminal` is what
it stands for: a list of rows that only grows, with the same rules for control characters.
`screen_of_calls` relates the two: in every run the screen is the last 25 rows of the terminal. -/

namespace Aerogel

/-! ## The driver -/

/-- `vga_color_t`. -/
inductive VgaColor
  | black | blue | green | cyan | red | magenta | brown | lightGray
  | darkGray | lightBlue | lightGreen | lightCyan | lightRed | lightMagenta | yellow | white
  deriving DecidableEq, Repr

/-- The number of a colour. -/
def VgaColor.value : VgaColor → UInt32
  | .black => 0 | .blue => 1 | .green => 2 | .cyan => 3
  | .red => 4 | .magenta => 5 | .brown => 6 | .lightGray => 7
  | .darkGray => 8 | .lightBlue => 9 | .lightGreen => 10 | .lightCyan => 11
  | .lightRed => 12 | .lightMagenta => 13 | .yellow => 14 | .white => 15

/-- The console: video memory, the CRT controller and the static variables of `vga_text.c`. -/
structure Vga where
  /-- `VGA_BASE[i]`. -/
  base : Int → UInt16
  /-- The indices that were stored to, the latest first. -/
  written : List Int
  /-- The register that the CRT controller has selected. -/
  crtcAddr : UInt8
  /-- The registers of the CRT controller. -/
  crtc : UInt8 → UInt8
  /-- `vga_row`. -/
  row : Int
  /-- `vga_col`. -/
  col : Int
  /-- `vga_attr`. -/
  attr : UInt8

namespace Vga

/-- `VGA_BASE[i] = v`. -/
def poke (g : Vga) (i : Int) (v : UInt16) : Vga :=
  { g with base := Function.update g.base i v, written := i :: g.written }

/-- `outb` to one of the two ports of the CRT controller. -/
def outb (g : Vga) (port : UInt16) (value : UInt8) : Vga :=
  if port = 0x3D4 then { g with crtcAddr := value }
  else if port = 0x3D5 then { g with crtc := Function.update g.crtc g.crtcAddr value }
  else g

end Vga

/-- `VGA_COLS`. -/
def vgaCols : Nat := 80

/-- `VGA_ROWS`. -/
def vgaRows : Nat := 25

/-- `make_attr`. -/
def makeAttr (fg bg : VgaColor) : UInt8 := ((bg.value <<< 4) ||| (fg.value &&& 0x0F)).toUInt8

/-- A cell with this character and attribute. -/
def vgaCell (c attr : UInt8) : UInt16 := c.toUInt16 ||| (attr.toUInt16 <<< 8)

/-- `update_cursor`. -/
def updateCursor (g : Vga) : Vga :=
  let pos := UInt16.ofInt (g.row * vgaCols + g.col)
  (((g.outb 0x3D4 0x0E).outb 0x3D5 (pos >>> 8).toUInt8).outb 0x3D4 0x0F).outb 0x3D5
    (pos &&& 0xFF).toUInt8

/-- `scroll`. -/
def scroll (g : Vga) : Vga :=
  let blank := vgaCell 0x20 g.attr
  let g := forRange 1 vgaRows (fun r g =>
    forRange 0 vgaCols (fun c g => g.poke ((r - 1) * vgaCols + c) (g.base (r * vgaCols + c))) g) g
  forRange 0 vgaCols (fun c g => g.poke ((vgaRows - 1) * vgaCols + c) blank) g

/-- `vga_clear`. -/
def vgaClear (g : Vga) : Vga :=
  let blank := vgaCell 0x20 g.attr
  let g := forRange 0 (vgaCols * vgaRows) (fun i g => g.poke i blank) g
  updateCursor { g with row := 0, col := 0 }

/-- `vga_init`. -/
def vgaInit (g : Vga) : Vga :=
  let g := vgaClear { g with attr := makeAttr .lightGray .black }
  let g := (g.outb 0x3D4 0x0A).outb 0x3D5 0x0E
  let g := (g.outb 0x3D4 0x0B).outb 0x3D5 0x0F
  updateCursor g

/-- `vga_set_color`. -/
def vgaSetColor (g : Vga) (fg bg : VgaColor) : Vga := { g with attr := makeAttr fg bg }

/-- The part of `vga_putc` before the test for the last row. -/
def putcBody (g : Vga) (c : UInt8) : Vga :=
  if c = 0x0A then { g with col := 0, row := g.row + 1 }
  else if c = 0x0D then { g with col := 0 }
  else if c = 0x08 then
    if 0 < g.col then
      let g := { g with col := g.col - 1 }
      g.poke (g.row * vgaCols + g.col) (vgaCell 0x20 g.attr)
    else g
  else if c = 0x09 then
    -- `& ~7` rounds down to a multiple of 8
    let g := { g with col := (g.col + 8) / 8 * 8 }
    if (vgaCols : Int) ≤ g.col then { g with col := 0, row := g.row + 1 } else g
  else
    let g := g.poke (g.row * vgaCols + g.col) (vgaCell c g.attr)
    let g := { g with col := g.col + 1 }
    if (vgaCols : Int) ≤ g.col then { g with col := 0, row := g.row + 1 } else g

/-- The test for the last row: below it the screen is scrolled. -/
def scrollAtEnd (g : Vga) : Vga :=
  if (vgaRows : Int) ≤ g.row then { scroll g with row := vgaRows - 1 } else g

/-- `vga_putc`. -/
def vgaPutc (g : Vga) (c : UInt8) : Vga := updateCursor (scrollAtEnd (putcBody g c))

/-- `vga_puts`: the loop ends at the terminator. -/
def vgaPuts (g : Vga) : List UInt8 → Vga
  | [] => g
  | c :: s => if c = 0 then g else vgaPuts (vgaPutc g c) s

/-- A call of the console. -/
inductive VgaCall
  | putc (c : UInt8)
  | puts (s : List UInt8)
  | setColor (fg bg : VgaColor)
  | clear

/-- Perform a call. -/
def VgaCall.exec (g : Vga) : VgaCall → Vga
  | .putc c => vgaPutc g c
  | .puts s => vgaPuts g s
  | .setColor fg bg => vgaSetColor g fg bg
  | .clear => vgaClear g

/-- The console before `vga_init`: the static variables have their initial values. -/
def vgaStart (base : Int → UInt16) (crtcAddr : UInt8) (crtc : UInt8 → UInt8) : Vga :=
  { base, written := [], crtcAddr, crtc, row := 0, col := 0, attr := 0x0F }

/-- The 25 rows of 80 cells that are shown. -/
def screen (g : Vga) : List (List UInt16) := gridOf vgaCols vgaRows fun i => g.base i

/-! ## The terminal it stands for -/

/-- A terminal whose rows are never dropped. -/
structure Terminal where
  /-- All rows, from the first one on. -/
  rows : List (List UInt16)
  /-- The row of the cursor, counted from the first one. -/
  row : Nat
  /-- The column of the cursor. -/
  col : Nat
  /-- The current attribute. -/
  attr : UInt8

namespace Terminal

/-- An empty row in an attribute. -/
def blankRow (attr : UInt8) : List UInt16 := List.replicate vgaCols (vgaCell 0x20 attr)

/-- Write a cell of the cursor's row. -/
def put (t : Terminal) (col : Nat) (v : UInt16) : Terminal :=
  { t with rows := t.rows.modify t.row fun row => row.set col v }

/-- Go to the start of the next row; below the last one a new row appears. -/
def newline (t : Terminal) : Terminal :=
  { t with
    rows := if t.row + 1 < t.rows.length then t.rows else t.rows ++ [blankRow t.attr]
    row := t.row + 1
    col := 0 }

/-- Go to a column of the same row, or to the next row if there is no such column. -/
def moveTo (t : Terminal) (col : Nat) : Terminal :=
  if col < vgaCols then { t with col := col } else t.newline

/-- One character. -/
def putc (t : Terminal) (c : UInt8) : Terminal :=
  if c = 0x0A then t.newline
  else if c = 0x0D then { t with col := 0 }
  else if c = 0x08 then
    if t.col = 0 then t else { t.put (t.col - 1) (vgaCell 0x20 t.attr) with col := t.col - 1 }
  else if c = 0x09 then t.moveTo ((t.col / 8 + 1) * 8)
  else (t.put t.col (vgaCell c t.attr)).moveTo (t.col + 1)

/-- A new page of empty rows. -/
def clear (t : Terminal) : Terminal :=
  { t with
    rows := t.rows ++ List.replicate vgaRows (blankRow t.attr)
    row := t.rows.length
    col := 0 }

/-- The terminal after `vga_init`. -/
def init : Terminal :=
  let attr := makeAttr .lightGray .black
  { rows := List.replicate vgaRows (blankRow attr), row := 0, col := 0, attr }

/-- Perform a call; a string is its characters in front of the terminator, one after the other. -/
def exec (t : Terminal) : VgaCall → Terminal
  | .putc c => t.putc c
  | .puts s => (s.takeWhile (· ≠ 0)).foldl putc t
  | .setColor fg bg => { t with attr := makeAttr fg bg }
  | .clear => t.clear

end Terminal

/-! ## What drawing does -/

variable {g g' : Vga} {t : Terminal}

/-- An index of one of the 2000 cells. -/
def InScreen (i : Int) : Prop := 0 ≤ i ∧ i < 2000

/-- Drawing changes cells of the screen only; the cursor and the attribute stay. -/
structure Draws (g g' : Vga) : Prop where
  /-- The row stays. -/
  row : g'.row = g.row
  /-- The column stays. -/
  col : g'.col = g.col
  /-- The attribute stays. -/
  attr : g'.attr = g.attr
  /-- Only cells of the screen are stored to. -/
  written : (∀ i ∈ g.written, InScreen i) → ∀ i ∈ g'.written, InScreen i

namespace Draws

/-- Drawing nothing. -/
theorem refl (g : Vga) : Draws g g := ⟨rfl, rfl, rfl, id⟩

/-- Drawing twice. -/
theorem trans {g'' : Vga} (h : Draws g g') (h' : Draws g' g'') : Draws g g'' :=
  ⟨h'.row.trans h.row, h'.col.trans h.col, h'.attr.trans h.attr, h'.written ∘ h.written⟩

/-- Storing into a cell of the screen. -/
theorem poke (g : Vga) {i : Int} (hi : InScreen i) (v : UInt16) : Draws g (g.poke i v) := by
  refine ⟨rfl, rfl, rfl, fun h j hj => ?_⟩
  rcases List.mem_cons.mp hj with rfl | hj
  · exact hi
  · exact h j hj

/-- Drawing in a loop. -/
theorem forRange {lo hi : Nat} {f : Nat → Vga → Vga} (g : Vga)
    (hf : ∀ i g, lo ≤ i → i < hi → Draws g (f i g)) : Draws g (forRange lo hi f g) :=
  forRange_induction (P := fun _ g' => Draws g g') (refl g)
    fun i g' h₁ h₂ h => h.trans (hf i g' h₁ h₂)

end Draws

/-- The cell of row `r` and column `c`. -/
def cellAt (g : Vga) (r c : Nat) : UInt16 := g.base ((r * vgaCols + c : Nat) : Int)

/-- Storing into a cell changes this cell. -/
theorem cellAt_poke {r c r' c' : Nat} {v : UInt16} (hc : c < vgaCols) (hc' : c' < vgaCols) :
    cellAt (g.poke ((r * vgaCols + c : Nat) : Int) v) r' c' =
      if r' = r ∧ c' = c then v else cellAt g r' c' := by
  change Function.update g.base _ v _ = _
  rw [Function.update_apply]
  exact if_congr (by rw [Int.natCast_inj]; exact cell_index_inj hc hc') rfl rfl

/-- The index of a cell, as the loops compute it. -/
theorem index_eq (r c : Nat) : (r * vgaCols + c : Int) = ((r * vgaCols + c : Nat) : Int) := by
  push_cast
  rfl

/-- The index of the cell above. -/
theorem index_above {r : Nat} (hr : 0 < r) (c : Nat) :
    ((r - 1) * vgaCols + c : Int) = (((r - 1) * vgaCols + c : Nat) : Int) := by
  unfold vgaCols
  omega

/-- Cells inside the screen. -/
theorem inScreen_index {r c : Nat} (hr : r < vgaRows) (hc : c < vgaCols) :
    InScreen ((r * vgaCols + c : Nat) : Int) := by
  unfold InScreen vgaCols vgaRows at *
  omega

/-- The inner loop of `scroll` copies one row onto the one above it. -/
theorem copyRow_spec {r r' c' : Nat} (hr : 0 < r) (hc' : c' < vgaCols) :
    cellAt (forRange 0 vgaCols
      (fun c g => g.poke ((r - 1) * vgaCols + c) (g.base (r * vgaCols + c))) g) r' c' =
      if r' + 1 = r then cellAt g r c' else cellAt g r' c' := by
  have h := @forRange_induction _
    (fun c g => g.poke ((r - 1) * vgaCols + c) (g.base (r * vgaCols + c)))
    (fun c g' => ∀ r' c', c' < vgaCols →
      cellAt g' r' c' = if r' + 1 = r ∧ c' < c then cellAt g r c' else cellAt g r' c')
    0 vgaCols g (fun r' c' _ => by rw [if_neg (by omega)]) ?_
  · rw [h r' c' hc']
    exact if_congr (by simp [hc']) rfl rfl
  · intro c g' _ hc hg' r' c' hc'
    -- the cell that is copied has not been overwritten
    have hread : g'.base (r * vgaCols + c) = cellAt g r c := by
      rw [index_eq]
      exact (hg' r c hc).trans (if_neg (by omega))
    rw [index_above hr, hread, cellAt_poke hc hc', hg' r' c' hc']
    by_cases hcell : r' = r - 1 ∧ c' = c
    · rw [if_pos hcell, if_pos (by omega), hcell.2]
    · rw [if_neg hcell]
      exact if_congr (by omega) rfl rfl

/-- The loops of `scroll` move every row up by one. -/
theorem copyRows_spec {r' c' : Nat} (hr' : r' + 1 < vgaRows) (hc' : c' < vgaCols) :
    cellAt (forRange 1 vgaRows (fun r g => forRange 0 vgaCols
      (fun c g => g.poke ((r - 1) * vgaCols + c) (g.base (r * vgaCols + c))) g) g) r' c' =
      cellAt g (r' + 1) c' := by
  have h := @forRange_induction _
    (fun r g => forRange 0 vgaCols
      (fun c g => g.poke ((r - 1) * vgaCols + c) (g.base (r * vgaCols + c))) g)
    (fun r g' => ∀ r' c', c' < vgaCols →
      cellAt g' r' c' = if r' + 1 < r then cellAt g (r' + 1) c' else cellAt g r' c')
    1 vgaRows g (fun r' c' _ => by rw [if_neg (by omega)]) ?_
  · rw [h r' c' hc']
    exact if_pos hr'
  · intro r g' hr _ hg' r' c' hc'
    have hread : cellAt g' r c' = cellAt g r c' := (hg' r c' hc').trans (if_neg (by omega))
    rw [copyRow_spec (by omega) hc', hread, hg' r' c' hc']
    by_cases hrow : r' + 1 = r
    · rw [if_pos hrow, if_pos (by omega), hrow]
    · rw [if_neg hrow]
      exact if_congr (by omega) rfl rfl

/-- The last loop of `scroll` blanks the last row. -/
theorem blankLast_spec {blank : UInt16} {r' c' : Nat} (hc' : c' < vgaCols) :
    cellAt (forRange 0 vgaCols (fun c g => g.poke ((vgaRows - 1) * vgaCols + c) blank) g) r' c' =
      if r' = vgaRows - 1 then blank else cellAt g r' c' := by
  have h := @forRange_induction _ (fun c g => g.poke ((vgaRows - 1) * vgaCols + c) blank)
    (fun c g' => ∀ r' c', c' < vgaCols →
      cellAt g' r' c' = if r' = vgaRows - 1 ∧ c' < c then blank else cellAt g r' c')
    0 vgaCols g (fun r' c' _ => by rw [if_neg (by omega)]) ?_
  · rw [h r' c' hc']
    exact if_congr (by simp [hc']) rfl rfl
  · intro c g' _ hc hg' r' c' hc'
    rw [index_above (by decide), cellAt_poke hc hc', hg' r' c' hc']
    by_cases hcell : r' = vgaRows - 1 ∧ c' = c
    · rw [if_pos hcell, if_pos (by omega)]
    · rw [if_neg hcell]
      exact if_congr (by omega) rfl rfl

/-- `scroll` drops the first row of the screen and appends an empty one. -/
theorem screen_scroll (g : Vga) :
    screen (scroll g) = (screen g).tail ++ [Terminal.blankRow g.attr] := by
  refine gridOf_scroll (h := 24) (fun r c hr hc => ?_) (fun c hc => ?_)
  · refine (blankLast_spec hc).trans ?_
    rw [if_neg (by unfold vgaRows; omega)]
    exact copyRows_spec (by unfold vgaRows; omega) hc
  · exact (blankLast_spec hc).trans (if_pos rfl)

/-- `scroll` only draws. -/
theorem draws_scroll (g : Vga) : Draws g (scroll g) := by
  refine Draws.trans (Draws.forRange g fun r g hr hr' => ?_) (Draws.forRange _ fun c g _ hc => ?_)
  · refine Draws.forRange g fun c g _ hc => ?_
    rw [index_above (by omega)]
    exact Draws.poke g (inScreen_index (by omega) hc) _
  · rw [index_above (by decide)]
    exact Draws.poke g (inScreen_index (by decide) hc) _

/-- The loop of `vga_clear` fills the screen. -/
theorem fill_spec (g : Vga) (v : UInt16) {i : Nat} (hi : i < vgaCols * vgaRows) :
    (forRange 0 (vgaCols * vgaRows) (fun i g => g.poke i v) g).base i = v := by
  have hloop := @forRange_pointwise _ _ (fun i g => Vga.poke g i v)
    (fun (g : Vga) (i : Nat) => g.base i) (fun _ => v) ?_ 0 (vgaCols * vgaRows) g i
  · rw [hloop, if_pos ⟨Nat.zero_le i, hi⟩]
  intro i g j
  change Function.update g.base _ _ _ = _
  rw [Function.update_apply]
  exact if_congr Int.natCast_inj rfl rfl

/-- The loop of `vga_clear` only draws. -/
theorem draws_fill (g : Vga) (v : UInt16) :
    Draws g (forRange 0 (vgaCols * vgaRows) (fun i g => g.poke i v) g) := by
  refine Draws.forRange g fun i g _ hi => Draws.poke g ⟨Int.natCast_nonneg i, ?_⟩ v
  unfold vgaCols vgaRows at hi
  omega

/-- Clearing makes every row empty and moves the cursor to the first cell. -/
theorem vgaClear_spec (g : Vga) : ∃ g', vgaClear g = updateCursor { g' with row := 0, col := 0 } ∧
    Draws g g' ∧ screen g' = List.replicate vgaRows (Terminal.blankRow g.attr) :=
  ⟨_, rfl, draws_fill g _, gridOf_const fun _ hi => fill_spec g _ hi⟩

/-! ## The simulation -/

/-- The console shows the end of the terminal. -/
structure Shows (g : Vga) (t : Terminal) : Prop where
  /-- The screen is the last 25 rows. -/
  screen : Aerogel.screen g = lastRows vgaRows t.rows
  /-- There are at least 25 rows. -/
  page : vgaRows ≤ t.rows.length
  /-- The row is one of the screen. -/
  row_bounds : 0 ≤ g.row ∧ g.row < vgaRows
  /-- The column is one of the screen. -/
  col_bounds : 0 ≤ g.col ∧ g.col < vgaCols
  /-- The cursor is in the same row. -/
  row : (t.row : Int) = (t.rows.length - vgaRows : Nat) + g.row
  /-- The cursor is in the same column. -/
  col : (t.col : Int) = g.col
  /-- The attribute is the same. -/
  attr : t.attr = g.attr
  /-- Only cells of the screen were stored to. -/
  written : ∀ i ∈ g.written, InScreen i

namespace Shows

/-- Writing a cell of the cursor's row. -/
theorem put (h : Shows g t) {c : Nat} (hc : c < vgaCols) (v : UInt16) :
    Shows (g.poke (g.row * vgaCols + c) v) (t.put c v) := by
  obtain ⟨r, hr⟩ := Int.eq_ofNat_of_zero_le h.row_bounds.1
  have hlt : r < vgaRows := by
    have := h.row_bounds.2
    omega
  have hrow : t.row = t.rows.length - vgaRows + r := by
    have := h.row
    omega
  have hdraws : Draws g (g.poke (g.row * vgaCols + c) v) := by
    rw [hr, index_eq]
    exact .poke g (inScreen_index hlt hc) v
  refine ⟨?_, ?_, h.row_bounds, h.col_bounds, ?_, h.col, h.attr, hdraws.written h.written⟩
  · rw [Terminal.put, hrow, lastRows_modify h.page, ← h.screen, hr, index_eq]
    refine Eq.trans ?_ (gridOf_update hc)
    rw [Aerogel.screen]
    congr 1
    funext i
    change Function.update g.base _ v _ = _
    rw [Function.update_apply, Function.update_apply]
    exact if_congr Int.natCast_inj rfl rfl
  · rw [Terminal.put, List.length_modify]
    exact h.page
  · rw [Terminal.put, List.length_modify]
    exact h.row

/-- Moving within the row. -/
theorem setCol (h : Shows g t) {c : Nat} (hc : c < vgaCols) :
    Shows { g with col := c } { t with col := c } where
  screen := h.screen
  page := h.page
  row_bounds := h.row_bounds
  col_bounds := ⟨Int.natCast_nonneg c, Int.ofNat_lt.mpr hc⟩
  row := h.row
  col := rfl
  attr := h.attr
  written := h.written

/-- Nothing is scrolled while the row is on the screen. -/
theorem scrollAtEnd_eq (h : Shows g t) : scrollAtEnd g = g :=
  if_neg (Int.not_le.mpr h.row_bounds.2)

/-- Going below the last row: the console has scrolled and a row appears. -/
theorem appear (h : Shows g t) (hlast : t.rows.length ≤ t.row + 1) {g' : Vga}
    (hdraws : Draws { g with col := 0, row := g.row + 1 } g')
    (hscroll : Aerogel.screen g' = (Aerogel.screen g).tail ++ [Terminal.blankRow g.attr]) :
    Shows { g' with row := vgaRows - 1 }
      { t with rows := t.rows ++ [Terminal.blankRow t.attr], row := t.row + 1, col := 0 } where
  screen := by
    change Aerogel.screen g' = lastRows (24 + 1) (t.rows ++ [Terminal.blankRow t.attr])
    rw [hscroll, h.screen, lastRows_concat h.page, h.attr]
    rfl
  page := by
    have := h.page
    rw [List.length_append]
    omega
  row_bounds := ⟨show (0 : Int) ≤ vgaRows - 1 by decide, show (vgaRows : Int) - 1 < vgaRows by omega⟩
  col_bounds := by
    rw [hdraws.col]
    exact ⟨le_rfl, show (0 : Int) < vgaCols by decide⟩
  row := by
    have hpage := h.page
    have hrow := h.row
    have hbounds := h.row_bounds
    rw [List.length_append, List.length_singleton]
    simp only
    omega
  col := hdraws.col.symm
  attr := h.attr.trans hdraws.attr.symm
  written := hdraws.written h.written

/-- Going to the next row. -/
theorem newline (h : Shows g t) :
    Shows (scrollAtEnd { g with col := 0, row := g.row + 1 }) t.newline := by
  have hrow := h.row
  have hpage := h.page
  have hbounds := h.row_bounds
  by_cases hlast : t.row + 1 < t.rows.length
  · -- there is a row below
    have hstay : g.row + 1 < vgaRows := by omega
    rw [scrollAtEnd, if_neg (Int.not_le.mpr hstay), Terminal.newline, if_pos hlast]
    exact
      { screen := h.screen
        page := h.page
        row_bounds := ⟨show 0 ≤ g.row + 1 by omega, hstay⟩
        col_bounds := ⟨le_rfl, show (0 : Int) < vgaCols by decide⟩
        row := show ((t.row + 1 : Nat) : Int) = (t.rows.length - vgaRows : Nat) + (g.row + 1) by
          omega
        col := rfl
        attr := h.attr
        written := h.written }
  · have hend : (vgaRows : Int) ≤ g.row + 1 := by omega
    rw [scrollAtEnd, if_pos hend, Terminal.newline, if_neg hlast]
    exact h.appear (Nat.not_lt.mp hlast) (draws_scroll _) (screen_scroll _)

/-- Moving to a column, or to the next row behind the last one. -/
theorem moveTo (h : Shows g t) (c : Nat) :
    Shows (scrollAtEnd (if (vgaCols : Int) ≤ c then { g with col := 0, row := g.row + 1 }
      else { g with col := c })) (t.moveTo c) := by
  by_cases hc : c < vgaCols
  · have hset := h.setCol hc
    rw [if_neg (by omega), hset.scrollAtEnd_eq, Terminal.moveTo, if_pos hc]
    exact hset
  · rw [if_pos (by omega), Terminal.moveTo, if_neg hc]
    exact h.newline

/-- The registers of the hardware do not matter. -/
theorem outb (h : Shows g t) (port : UInt16) (value : UInt8) : Shows (g.outb port value) t := by
  unfold Vga.outb
  split
  · exact ⟨h.screen, h.page, h.row_bounds, h.col_bounds, h.row, h.col, h.attr, h.written⟩
  · split
    · exact ⟨h.screen, h.page, h.row_bounds, h.col_bounds, h.row, h.col, h.attr, h.written⟩
    · exact h

/-- Moving the hardware's cursor. -/
theorem updateCursor (h : Shows g t) : Shows (updateCursor g) t :=
  (((h.outb _ _).outb _ _).outb _ _).outb _ _

/-- Where nothing has to be scrolled. -/
theorem stay (h : Shows g t) : Shows (scrollAtEnd g) t := by
  rw [h.scrollAtEnd_eq]
  exact h

/-- A backspace within the row. -/
theorem backspace (h : Shows g t) (h0 : t.col ≠ 0) :
    Shows (({ g with col := g.col - 1 } : Vga).poke (g.row * vgaCols + (g.col - 1))
      (vgaCell 0x20 g.attr))
      { t.put (t.col - 1) (vgaCell 0x20 t.attr) with col := t.col - 1 } := by
  have hcol := h.col
  have hbounds := h.col_bounds
  have hback : g.col - 1 = ((t.col - 1 : Nat) : Int) := by omega
  have hlt : t.col - 1 < vgaCols := by omega
  rw [hback, h.attr]
  exact (h.setCol hlt).put hlt _

/-- A tabulator. -/
theorem tab (h : Shows g t) :
    Shows (scrollAtEnd (if (vgaCols : Int) ≤ (g.col + 8) / 8 * 8
      then { g with col := 0, row := g.row + 1 } else { g with col := (g.col + 8) / 8 * 8 }))
      (t.moveTo ((t.col / 8 + 1) * 8)) := by
  have hcol := h.col
  have htab : (g.col + 8) / 8 * 8 = (((t.col / 8 + 1) * 8 : Nat) : Int) := by omega
  rw [htab]
  exact h.moveTo _

/-- Any other character. -/
theorem glyph (h : Shows g t) (c : UInt8) :
    Shows (scrollAtEnd (if (vgaCols : Int) ≤ g.col + 1
      then { g.poke (g.row * vgaCols + g.col) (vgaCell c g.attr) with col := 0, row := g.row + 1 }
      else { g.poke (g.row * vgaCols + g.col) (vgaCell c g.attr) with col := g.col + 1 }))
      ((t.put t.col (vgaCell c t.attr)).moveTo (t.col + 1)) := by
  have hbounds := h.col_bounds
  have hcol := h.col
  have hnext : g.col + 1 = ((t.col + 1 : Nat) : Int) := by omega
  have hlt : t.col < vgaCols := by omega
  rw [hnext, ← hcol, ← h.attr]
  exact (h.put hlt _).moveTo _

/-- `vga_putc` puts the character. -/
theorem putc (h : Shows g t) (c : UInt8) : Shows (vgaPutc g c) (t.putc c) := by
  apply updateCursor
  have hcol := h.col
  unfold putcBody Terminal.putc
  by_cases hn : c = 0x0A
  · rw [if_pos hn, if_pos hn]
    exact h.newline
  rw [if_neg hn, if_neg hn]
  by_cases hr : c = 0x0D
  · rw [if_pos hr, if_pos hr]
    exact (h.setCol (c := 0) (by decide)).stay
  rw [if_neg hr, if_neg hr]
  by_cases hb : c = 0x08
  · rw [if_pos hb, if_pos hb]
    by_cases h0 : t.col = 0
    · rw [if_neg (by omega), if_pos h0]
      exact h.stay
    · rw [if_pos (by omega), if_neg h0]
      exact (h.backspace h0).stay
  rw [if_neg hb, if_neg hb]
  by_cases ht : c = 0x09
  · rw [if_pos ht, if_pos ht]
    exact h.tab
  · rw [if_neg ht, if_neg ht]
    exact h.glyph c

/-- `vga_puts` puts the characters in front of the terminator. -/
theorem puts (h : Shows g t) (s : List UInt8) :
    Shows (vgaPuts g s) ((s.takeWhile (· ≠ 0)).foldl Terminal.putc t) := by
  induction s generalizing g t with
  | nil => exact h
  | cons c s ih =>
      rw [vgaPuts]
      by_cases hc : c = 0
      · subst hc
        exact h
      · rw [if_neg hc, List.takeWhile_cons_of_pos (by simpa using hc), List.foldl_cons]
        exact ih (h.putc c)

/-- A console whose screen has just been cleared shows a new page of the terminal. -/
theorem of_page {g' : Vga} {rows : List (List UInt16)} {attr : UInt8}
    (hscreen : Aerogel.screen g' = List.replicate vgaRows (Terminal.blankRow attr))
    (hattr : g'.attr = attr) (hwritten : ∀ i ∈ g'.written, InScreen i) (hrow : g'.row = 0)
    (hcol : g'.col = 0) :
    Shows g'
      { rows := rows ++ List.replicate vgaRows (Terminal.blankRow attr), row := rows.length
        col := 0, attr } where
  screen := by
    rw [hscreen, lastRows_append_page List.length_replicate]
  page := by
    rw [List.length_append, List.length_replicate]
    omega
  row_bounds := by
    rw [hrow]
    exact ⟨le_rfl, by decide⟩
  col_bounds := by
    rw [hcol]
    exact ⟨le_rfl, by decide⟩
  row := by
    rw [List.length_append, List.length_replicate, Nat.add_sub_cancel, hrow, Int.add_zero]
  col := hcol.symm
  attr := hattr.symm
  written := hwritten

/-- `vga_clear` starts a new page. -/
theorem clear (h : Shows g t) : Shows (vgaClear g) t.clear := by
  obtain ⟨g', heq, hdraws, hscreen⟩ := vgaClear_spec g
  rw [heq]
  apply updateCursor
  exact of_page (h.attr ▸ hscreen) (hdraws.attr.trans h.attr.symm) (hdraws.written h.written) rfl rfl

/-- Every call keeps the console in step with the terminal. -/
theorem exec (h : Shows g t) (call : VgaCall) : Shows (call.exec g) (t.exec call) := by
  cases call with
  | putc c => exact h.putc c
  | puts s => exact h.puts s
  | setColor fg bg =>
      exact ⟨h.screen, h.page, h.row_bounds, h.col_bounds, h.row, h.col, rfl, h.written⟩
  | clear => exact h.clear

/-- After `vga_init` the screen is the first page. -/
theorem init (base : Int → UInt16) (crtcAddr : UInt8) (crtc : UInt8 → UInt8) :
    Shows (vgaInit (vgaStart base crtcAddr crtc)) .init := by
  obtain ⟨g', heq, hdraws, hscreen⟩ :=
    vgaClear_spec { vgaStart base crtcAddr crtc with attr := makeAttr .lightGray .black }
  have hpage := @of_page { g' with row := 0, col := 0 } [] _ hscreen hdraws.attr
    (hdraws.written fun _ hi => nomatch hi) rfl rfl
  rw [vgaInit, heq]
  exact ((((hpage.updateCursor.outb _ _).outb _ _).outb _ _).outb _ _).updateCursor

/-- In every run the console shows the end of the terminal. -/
theorem calls (base : Int → UInt16) (crtcAddr : UInt8) (crtc : UInt8 → UInt8)
    (cs : List VgaCall) :
    Shows (cs.foldl VgaCall.exec (vgaInit (vgaStart base crtcAddr crtc)))
      (cs.foldl Terminal.exec .init) := by
  suffices hstep : ∀ g t, Shows g t →
      Shows (cs.foldl VgaCall.exec g) (cs.foldl Terminal.exec t) from hstep _ _ (init ..)
  induction cs with
  | nil => exact fun _ _ h => h
  | cons c cs ih => exact fun g t h => ih _ _ (h.exec c)

end Shows

/-! ## The hardware's cursor -/

/-- The CRT controller shows the cursor where the driver has it. -/
def CursorShown (g : Vga) : Prop :=
  (((g.crtc 0x0E).toNat * 256 + (g.crtc 0x0F).toNat : Nat) : Int) = g.row * vgaCols + g.col

/-- The two bytes of a position give it back. -/
theorem bytes_of_pos (pos : UInt16) :
    (pos >>> 8).toUInt8.toNat * 256 + (pos &&& 0xFF).toUInt8.toNat = pos.toNat := by
  have hlt := pos.toNat_lt
  have hhigh : (pos >>> 8).toUInt8.toNat = pos.toNat / 256 := by
    simp only [UInt16.toNat_toUInt8, UInt16.toNat_shiftRight, Nat.shiftRight_eq_div_pow]
    change pos.toNat / 2 ^ 8 % 2 ^ 8 = pos.toNat / 256
    omega
  have hlow : (pos &&& 0xFF).toUInt8.toNat = pos.toNat % 256 := by
    simp only [UInt16.toNat_toUInt8, UInt16.toNat_and]
    change (pos.toNat &&& 2 ^ 8 - 1) % 2 ^ 8 = pos.toNat % 256
    rw [Nat.and_two_pow_sub_one_eq_mod, Nat.mod_mod]
  rw [hhigh, hlow]
  omega

/-- After `update_cursor` the cursor is shown, if it is on the screen. -/
theorem cursorShown_updateCursor (h : Shows (updateCursor g) t) :
    CursorShown (updateCursor g) := by
  have hrow : 0 ≤ g.row ∧ g.row < 25 := h.row_bounds
  have hcol : 0 ≤ g.col ∧ g.col < 80 := h.col_bounds
  have hpos : ((UInt16.ofInt (g.row * vgaCols + g.col)).toNat : Int) = g.row * vgaCols + g.col := by
    change ((UInt16.ofNat ((g.row * 80 + g.col) % 2 ^ 16).toNat).toNat : Int) = g.row * 80 + g.col
    rw [UInt16.toNat_ofNat']
    omega
  refine Eq.trans ?_ hpos
  exact congrArg Nat.cast (bytes_of_pos _)

/-- After every call the cursor is shown. -/
theorem cursorShown_exec (h : Shows g t) (hg : CursorShown g) (call : VgaCall) :
    CursorShown (call.exec g) := by
  cases call with
  | putc c => exact cursorShown_updateCursor (h.putc c)
  | puts s =>
      induction s generalizing g t with
      | nil => exact hg
      | cons c s ih =>
          change CursorShown (if c = 0 then g else vgaPuts (vgaPutc g c) s)
          split
          · exact hg
          · exact ih (h.putc c) (cursorShown_updateCursor (h.putc c))
  | setColor fg bg => exact hg
  | clear =>
      have hclear := h.clear
      obtain ⟨g', heq, -⟩ := vgaClear_spec g
      change CursorShown (vgaClear g)
      rw [heq] at hclear ⊢
      exact cursorShown_updateCursor hclear

/-- In every run the hardware's cursor is the driver's. -/
theorem cursorShown_of_calls (base : Int → UInt16) (crtcAddr : UInt8) (crtc : UInt8 → UInt8)
    (cs : List VgaCall) :
    CursorShown (cs.foldl VgaCall.exec (vgaInit (vgaStart base crtcAddr crtc))) := by
  suffices hstep : ∀ g t, Shows g t → CursorShown g → CursorShown (cs.foldl VgaCall.exec g) from
    hstep _ _ (.init base crtcAddr crtc) (cursorShown_updateCursor (.init base crtcAddr crtc))
  induction cs with
  | nil => exact fun _ _ _ hg => hg
  | cons c cs ih => exact fun g t h hg => ih _ _ (h.exec c) (cursorShown_exec h hg c)

/-! ## The screen -/

/-- After `vga_init` and any calls: the cursor is on the screen, only cells of the screen were stored
to, and the screen is the last 25 rows of the terminal after the same calls. -/
theorem screen_of_calls (base : Int → UInt16) (crtcAddr : UInt8) (crtc : UInt8 → UInt8)
    (cs : List VgaCall) :
    let g := cs.foldl VgaCall.exec (vgaInit (vgaStart base crtcAddr crtc))
    let t := cs.foldl Terminal.exec .init
    (0 ≤ g.row ∧ g.row < 25) ∧ (0 ≤ g.col ∧ g.col < 80) ∧
      (∀ i ∈ g.written, 0 ≤ i ∧ i < 2000) ∧ screen g = lastRows 25 t.rows := by
  have h := Shows.calls base crtcAddr crtc cs
  exact ⟨h.row_bounds, h.col_bounds, h.written, h.screen⟩

end Aerogel
