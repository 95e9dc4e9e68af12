import Aerogel.Foundations.SignedInt
import Aerogel.Foundations.ByteMemory
import Aerogel.Machine
import Mathlib.Data.List.Basic
import Mathlib.Logic.Function.Basic

/-! # Drawing into the framebuffer

The primitives of `framebuffer.c` all end in `fb_pixel`, which stores one pixel of 24 or 32 bits if its
coordinates, narrowed to 16 bits, are on the screen. Arithmetic on `int` coordinates is checked. Every
primitive is a walk through its pixels (`plotAll`), so that what is true of a list of pixels is true of
all of them. -/

namespace Aerogel

namespace Framebuffer

/-! ## `framebuffer.c` -/

/-- `fb_info_t`. -/
structure FbInfo where
  /-- `addr`. -/
  addr : UInt32
  /-- `pitch`: the bytes of a row. -/
  pitch : UInt32
  /-- `width`. -/
  width : UInt16
  /-- `height`. -/
  height : UInt16
  /-- `bpp`: the bits of a pixel. -/
  bpp : UInt8
  deriving DecidableEq, Repr

/-- Memory, and what was drawn. -/
structure Screen where
  /-- Memory. -/
  mem : Mem
  /-- The calls of `fb_pixel`. -/
  calls : List (Int × Int)
  /-- Those that passed the test and stored their pixel. -/
  drawn : List (Int × Int)
  /-- The addresses stored to. -/
  stores : List Nat

/-- Nothing is drawn yet. -/
def Screen.start (m : Mem) : Screen := ⟨m, [], [], []⟩

/-- The result of an operation on `int`s. -/
def cInt (v : Int) : Except Stuck Int := signedInt 32 v

/-- One byte is stored. -/
def Screen.poke (s : Screen) (a : Nat) (b : UInt8) : Screen :=
  { s with mem := Function.update s.mem a b, stores := s.stores ++ [a] }

variable (T : Target)

/-- Bytes are stored from the pointer `p` on. -/
def Screen.pokes : Screen → Nat → List UInt8 → Screen
  | s, _, [] => s
  | s, p, b :: bytes => (s.poke (p % 2 ^ T.wordBits) b).pokes (p + 1) bytes

/-- The bytes of a colour, blue first. -/
def colourBytes (c : UInt32) : List UInt8 :=
  [c.toUInt8, (c >>> 8).toUInt8, (c >>> 16).toUInt8, (c >>> 24).toUInt8]

variable (fb : FbInfo)

/-- The address of a pixel: the arithmetic is that of `u32`. -/
def FbInfo.place (n : Nat) (x y : Int) : UInt32 :=
  fb.addr + UInt32.ofInt y * fb.pitch + UInt32.ofInt x * UInt32.ofNat n

/-- `put_pixel_32` and `put_pixel_24`, with `n` bytes for a pixel. -/
def putPixel (n : Nat) (x y : Int) (c : UInt32) (s : Screen) : Screen :=
  if UInt16.ofInt x ≥ fb.width ∨ UInt16.ofInt y ≥ fb.height then s
  else { s with drawn := s.drawn ++ [(x, y)] }.pokes T (fb.place n x y).toNat ((colourBytes c).take n)

/-- `put_pixel_32`. -/
def putPixel32 (x y : Int) (c : UInt32) (s : Screen) : Screen := putPixel T fb 4 x y c s

/-- `put_pixel_24`. -/
def putPixel24 (x y : Int) (c : UInt32) (s : Screen) : Screen := putPixel T fb 3 x y c s

/-- `fb_pixel`. -/
def fbPixel (x y : Int) (c : UInt32) (s : Screen) : Screen :=
  let s := { s with calls := s.calls ++ [(x, y)] }
  if fb.bpp = 32 then putPixel32 T fb x y c s else putPixel24 T fb x y c s

/-- The bytes of a pixel. -/
def FbInfo.bytes : Nat := if fb.bpp = 32 then 4 else 3

/-- The test of `put_pixel_32` and `put_pixel_24`. -/
def FbInfo.Shows (x y : Int) : Prop := UInt16.ofInt x < fb.width ∧ UInt16.ofInt y < fb.height

instance (x y : Int) : Decidable (fb.Shows x y) := inferInstanceAs (Decidable (_ ∧ _))

/-- The addresses that a pixel is stored to. -/
def FbInfo.addresses (x y : Int) : List Nat :=
  (List.range fb.bytes).map fun i => ((fb.place fb.bytes x y).toNat + i) % 2 ^ T.wordBits

/-- `fb_hline`. -/
def fbHline (x y len : Int) (c : UInt32) : Screen → Except Stuck Screen :=
  forInt 0 len fun i s => do
    let xi ← cInt (x + i)
    return fbPixel T fb xi y c s

/-- `fb_vline`. -/
def fbVline (x y len : Int) (c : UInt32) : Screen → Except Stuck Screen :=
  forInt 0 len fun i s => do
    let yi ← cInt (y + i)
    return fbPixel T fb x yi c s

/-- `fb_rect`. -/
def fbRect (x y w h : Int) (c : UInt32) (s : Screen) : Except Stuck Screen := do
  let bottom ← cInt (y + h)
  forInt y bottom (fun row s => fbHline T fb x row w c s) s

/-- `fb_rect_outline`. -/
def fbRectOutline (x y w h t : Int) (c : UInt32) (s : Screen) : Except Stuck Screen := do
  let s ← fbRect T fb x y w t c s
  let bottom ← cInt (y + h)
  let bottom ← cInt (bottom - t)
  let s ← fbRect T fb x bottom w t c s
  let s ← fbRect T fb x y t h c s
  let right ← cInt (x + w)
  let right ← cInt (right - t)
  fbRect T fb right y t h c s

/-- The variables of `fb_line` that its loop changes. -/
structure LineVars where
  /-- `x0`. -/
  x : Int
  /-- `y0`. -/
  y : Int
  /-- `err`. -/
  err : Int

/-- `err -= ay; x0 += sx;`. -/
def moveX (ay sx : Int) (v : LineVars) : Except Stuck LineVars := do
  let err ← cInt (v.err - ay)
  let x ← cInt (v.x + sx)
  return { v with err := err, x := x }

/-- `err += ax; y0 += sy;`. -/
def moveY (ax sy : Int) (v : LineVars) : Except Stuck LineVars := do
  let err ← cInt (v.err + ax)
  let y ← cInt (v.y + sy)
  return { v with err := err, y := y }

/-- One round of the loop, behind the test. -/
def lineStep (ax ay sx sy : Int) (v : LineVars) : Except Stuck LineVars := do
  let e2 := v.err
  let low ← cInt (-ax)
  let v ← (if e2 > low then moveX ay sx v else pure v)
  if e2 < ay then moveY ax sy v else pure v

/-- The loop of `fb_line`. -/
def lineLoop (ax ay sx sy x1 y1 : Int) (c : UInt32) : Nat → LineVars → Screen → Except Stuck Screen
  | 0, _, _ => .error .diverges
  | fuel + 1, v, s => do
    let s := fbPixel T fb v.x v.y c s
    if v.x = x1 ∧ v.y = y1 then return s
    else
      let v ← lineStep ax ay sx sy v
      lineLoop ax ay sx sy x1 y1 c fuel v s

/-- `fb_line`. -/
def fbLine (fuel : Nat) (x0 y0 x1 y1 : Int) (c : UInt32) (s : Screen) : Except Stuck Screen := do
  let dx ← cInt (x1 - x0)
  let dy ← cInt (y1 - y0)
  let ax ← (if dx < 0 then cInt (-dx) else pure dx)
  let ay ← (if dy < 0 then cInt (-dy) else pure dy)
  let sx := if dx < 0 then -1 else 1
  let sy := if dy < 0 then -1 else 1
  let e ← (if ax > ay then pure ax else cInt (-ay))
  lineLoop T fb ax ay sx sy x1 y1 c fuel ⟨x0, y0, e.tdiv 2⟩ s

/-! ## Text -/

/-- `font_8x16`: the sixteen rows of every glyph, the top row in the highest byte. -/
def font8x16 : List Nat :=
  List.replicate 33 0 ++ [
    0x0000183C3C1818001800000000000000, 0x00006666240000000000000000000000,
    0x00006C6CFE6CFE6C6C00000000000000, 0x0000183E033E303E1800000000000000,
    0x00006333180C06336300000000000000, 0x00001C361C6E3B336E00000000000000,
    0x000018180C0000000000000000000000, 0x0000180C0606060C1800000000000000,
    0x0000060C1818180C0600000000000000, 0x000000663CFF3C660000000000000000,
    0x00000018187E18180000000000000000, 0x0000000000000018180C000000000000,
    0x00000000007E00000000000000000000, 0x00000000000000181800000000000000,
    0x00006030180C06030100000000000000, 0x00003C66766E66663C00000000000000,
    0x0000181C181818187E00000000000000, 0x00003C666030180C7E00000000000000,
    0x00003C66603860663C00000000000000, 0x000030383C367F303000000000000000,
    0x00007E063E6060663C00000000000000, 0x0000380C063E66663C00000000000000,
    0x00007E6030180C0C0C00000000000000, 0x00003C66663C66663C00000000000000,
    0x00003C66667C60301C00000000000000, 0x00000018180018180000000000000000,
    0x00000018180018180C00000000000000, 0x000030180C060C183000000000000000,
    0x000000007E007E000000000000000000, 0x0000060C1830180C0600000000000000,
    0x00003C66603018001800000000000000, 0x00003C667A7A7A063C00000000000000,
    0x0000183C667E66666600000000000000, 0x00003E66663E66663E00000000000000,
    0x00003C66060606663C00000000000000, 0x00001E36666666361E00000000000000,
    0x00007E06063E06067E00000000000000, 0x00007E06063E06060600000000000000,
    0x00003C66067666663C00000000000000, 0x00006666667E66666600000000000000,
    0x00003C18181818183C00000000000000, 0x00007830303033331E00000000000000,
    0x000066361E0E1E366600000000000000, 0x00000606060606067E00000000000000,
    0x000063777F6B63636300000000000000, 0x000063676F7B73636300000000000000,
    0x00003C66666666663C00000000000000, 0x00003E66663E06060600000000000000,
    0x00003C6666666E3C7000000000000000, 0x00003E66663E36666600000000000000,
    0x00003C66061C60663C00000000000000, 0x00007E18181818181800000000000000,
    0x00006666666666663C00000000000000, 0x0000666666663C3C1800000000000000,
    0x00006363636B7F776300000000000000, 0x000063361C1C1C366300000000000000,
    0x00006666663C18181800000000000000, 0x00007E30180C06067E00000000000000,
    0x00001E06060606061E00000000000000, 0x000003060C1830604000000000000000,
    0x00001E18181818181E00000000000000, 0x0000081C366300000000000000000000,
    0x0000000000000000FF00000000000000, 0x00000C0C180000000000000000000000,
    0x000000003C607C667C00000000000000, 0x000006063E6666663E00000000000000,
    0x000000003C0606663C00000000000000, 0x000060607C6666667C00000000000000,
    0x000000003C667E063C00000000000000, 0x0000380C0C3E0C0C0C00000000000000,
    0x000000007C66667C603C000000000000, 0x000006063E6666666600000000000000,
    0x000018001E1818183C00000000000000, 0x000018001E181818180E000000000000,
    0x0000060666361E366600000000000000, 0x00001C18181818183C00000000000000,
    0x00000000337F7F6B6300000000000000, 0x000000003E6666666600000000000000,
    0x000000003C6666663C00000000000000, 0x000000003E66663E0606000000000000,
    0x000000007C66667C6060000000000000, 0x000000003E0606060600000000000000,
    0x000000007C063C603E00000000000000, 0x000018187E1818187000000000000000,
    0x00000000666666667C00000000000000, 0x000000006666663C1800000000000000,
    0x00000000636B7F362200000000000000, 0x00000000663C183C6600000000000000,
    0x000000006666667C603C000000000000, 0x000000007E30180C7E00000000000000,
    0x0000380C0C070C0C3800000000000000, 0x00001818180018181800000000000000,
    0x0000070C0C380C0C0700000000000000, 0x00006E3B000000000000000000000000,
    0x0000FFFFFFFFFFFFFFFF000000000000]

/-- `font_8x16[idx][row]`. -/
def glyphRow (idx : UInt8) (row : Int) : UInt8 :=
  UInt8.ofNat (font8x16.getD idx.toNat 0 >>> (8 * (15 - row.toNat)))

/-- The inner loop of `fb_char`. -/
def charRow (x y : Int) (bits : UInt8) (row : Int) (fg bg : UInt32) : Screen → Except Stuck Screen :=
  forInt 0 8 fun col s => do
    let color := if bits.toNat &&& (0x80 >>> col.toNat) ≠ 0 then fg else bg
    let px ← cInt (x + col)
    let py ← cInt (y + row)
    return fbPixel T fb px py color s

/-- `fb_char`. -/
def fbChar (x y : Int) (ch : UInt8) (fg bg : UInt32) : Screen → Except Stuck Screen :=
  let idx := if ch ≥ 128 then 0x3F else ch
  forInt 0 16 fun row s =>
    let bits := glyphRow idx row
    charRow T fb x y bits row fg bg s

/-- `fb_string`, with the characters of the string in front of its NUL. -/
def fbString (x y : Int) (fg bg : UInt32) : List UInt8 → Screen → Except Stuck Screen
  | [], s => .ok s
  | ch :: text, s => do
    let s ← fbChar T fb x y ch fg bg s
    let x ← cInt (x + 8)
    fbString x y fg bg text s

/-! ## Walks through pixels -/

/-- A call of `fb_pixel`. -/
structure Pixel where
  /-- The column. -/
  x : Int
  /-- The row. -/
  y : Int
  /-- The colour. -/
  c : UInt32

/-- The coordinates of a pixel. -/
def Pixel.point (p : Pixel) : Int × Int := (p.x, p.y)

/-- `fb_pixel` for one pixel after the other. -/
def plotAll (s : Screen) (pixels : List Pixel) : Screen :=
  pixels.foldl (fun s p => fbPixel T fb p.x p.y p.c s) s

variable {T fb}

theorem cInt_eq {v : Int} (h₁ : -2 ^ 31 ≤ v) (h₂ : v < 2 ^ 31) : cInt v = .ok v := signedInt_eq ⟨h₁, h₂⟩

@[simp] theorem calls_pokes (s : Screen) (p : Nat) (bytes : List UInt8) :
    (s.pokes T p bytes).calls = s.calls := by
  induction bytes generalizing s p with
  | nil => rfl
  | cons b bytes ih => exact ih _ _

@[simp] theorem calls_putPixel (n : Nat) (x y : Int) (c : UInt32) (s : Screen) :
    (putPixel T fb n x y c s).calls = s.calls := by
  rw [putPixel]
  split_ifs
  · rfl
  · rw [calls_pokes]

@[simp] theorem calls_fbPixel (x y : Int) (c : UInt32) (s : Screen) :
    (fbPixel T fb x y c s).calls = s.calls ++ [(x, y)] := by
  rw [fbPixel]
  split_ifs
  · exact calls_putPixel ..
  · exact calls_putPixel ..

/-- A walk calls `fb_pixel` once for every pixel. -/
theorem calls_plotAll (s : Screen) (pixels : List Pixel) :
    (plotAll T fb s pixels).calls = s.calls ++ pixels.map Pixel.point := by
  rw [plotAll]
  induction pixels generalizing s with
  | nil => rw [List.foldl_nil, List.map_nil, List.append_nil]
  | cons p pixels ih =>
      rw [List.foldl_cons, ih, calls_fbPixel, List.append_assoc, List.map_cons]
      rfl

theorem pokes_drawn (s : Screen) (p : Nat) (bytes : List UInt8) : (s.pokes T p bytes).drawn = s.drawn := by
  induction bytes generalizing s p with
  | nil => rfl
  | cons b bytes ih => exact ih _ _

theorem pokes_stores (s : Screen) (p : Nat) (bytes : List UInt8) : (s.pokes T p bytes).stores =
    s.stores ++ (List.range bytes.length).map fun i => (p + i) % 2 ^ T.wordBits := by
  induction bytes generalizing s p with
  | nil => exact (List.append_nil _).symm
  | cons b bytes ih =>
      rw [Screen.pokes, ih, List.length_cons, List.range_succ_eq_map, List.map_cons, List.map_map]
      have hnext : ∀ i, p + 1 + i = p + (i + 1) := fun i => by omega
      simp only [hnext]
      exact List.append_assoc ..

/-- A byte that is not stored to keeps its value. -/
theorem pokes_mem_of_notMem (s : Screen) {p a : Nat} {bytes : List UInt8}
    (ha : a ∉ (List.range bytes.length).map fun i => (p + i) % 2 ^ T.wordBits) :
    (s.pokes T p bytes).mem a = s.mem a := by
  induction bytes generalizing s p with
  | nil => rfl
  | cons b bytes ih =>
      rw [List.length_cons, List.range_succ_eq_map, List.map_cons, List.map_map, List.mem_cons, not_or] at ha
      have hnext : ∀ i, p + 1 + i = p + (i + 1) := fun i => by omega
      rw [Screen.pokes, ih]
      · exact Function.update_of_ne ha.1 ..
      · simp only [hnext]
        exact ha.2

/-- `fb_pixel` stores the bytes of its pixel, if that passes the test, and nothing else. -/
theorem fbPixel_eq (x y : Int) (c : UInt32) (s : Screen) : fbPixel T fb x y c s =
    if fb.Shows x y then
      ({ s with calls := s.calls ++ [(x, y)], drawn := s.drawn ++ [(x, y)] } : Screen).pokes T
        (fb.place fb.bytes x y).toNat ((colourBytes c).take fb.bytes)
    else { s with calls := s.calls ++ [(x, y)] } := by
  have hshows : fb.Shows x y ↔ ¬ (UInt16.ofInt x ≥ fb.width ∨ UInt16.ofInt y ≥ fb.height) := by
    rw [FbInfo.Shows, not_or, ge_iff_le, ge_iff_le, UInt16.not_le, UInt16.not_le]
  rw [fbPixel, FbInfo.bytes]
  split_ifs with hbpp h h
  · rw [putPixel32, putPixel, if_neg (hshows.mp h)]
  · rw [putPixel32, putPixel, if_pos (not_not.mp (mt hshows.mpr h))]
  · rw [putPixel24, putPixel, if_neg (hshows.mp h)]
  · rw [putPixel24, putPixel, if_pos (not_not.mp (mt hshows.mpr h))]

theorem length_take_colourBytes (fb : FbInfo) (c : UInt32) : ((colourBytes c).take fb.bytes).length = fb.bytes := by
  rw [FbInfo.bytes]
  split_ifs <;> rfl

theorem drawn_fbPixel (x y : Int) (c : UInt32) (s : Screen) :
    (fbPixel T fb x y c s).drawn = s.drawn ++ if fb.Shows x y then [(x, y)] else [] := by
  rw [fbPixel_eq]
  split_ifs
  · exact pokes_drawn ..
  · exact (List.append_nil _).symm

theorem stores_fbPixel (x y : Int) (c : UInt32) (s : Screen) :
    (fbPixel T fb x y c s).stores = s.stores ++ if fb.Shows x y then fb.addresses T x y else [] := by
  rw [fbPixel_eq]
  split_ifs
  · rw [pokes_stores, length_take_colourBytes]
    rfl
  · exact (List.append_nil _).symm

/-- What is drawn in a walk. -/
theorem mem_drawn_plotAll {s : Screen} {pixels : List Pixel} {q : Int × Int} :
    q ∈ (plotAll T fb s pixels).drawn ↔ q ∈ s.drawn ∨ ∃ p ∈ pixels, fb.Shows p.x p.y ∧ p.point = q := by
  rw [plotAll]
  induction pixels generalizing s with
  | nil => simp
  | cons p pixels ih =>
      rw [List.foldl_cons, ih, drawn_fbPixel, List.mem_append, List.exists_mem_cons_iff, or_assoc]
      refine or_congr_right (or_congr_left ?_)
      split_ifs with h
      · rw [List.mem_singleton, Pixel.point]
        exact ⟨fun hq => ⟨h, hq.symm⟩, fun hq => hq.2.symm⟩
      · exact iff_of_false List.not_mem_nil fun hq => h hq.1

/-- What is stored to in a walk. -/
theorem mem_stores_plotAll {s : Screen} {pixels : List Pixel} {a : Nat} :
    a ∈ (plotAll T fb s pixels).stores ↔
      a ∈ s.stores ∨ ∃ p ∈ pixels, fb.Shows p.x p.y ∧ a ∈ fb.addresses T p.x p.y := by
  rw [plotAll]
  induction pixels generalizing s with
  | nil => simp
  | cons p pixels ih =>
      rw [List.foldl_cons, ih, stores_fbPixel, List.mem_append, List.exists_mem_cons_iff, or_assoc]
      refine or_congr_right (or_congr_left ?_)
      split_ifs with h
      · exact (and_iff_right h).symm
      · exact iff_of_false List.not_mem_nil fun hq => h hq.1

/-- Memory that is not stored to keeps its contents. -/
theorem mem_plotAll_of_notMem {s : Screen} {pixels : List Pixel} {a : Nat}
    (ha : a ∉ (plotAll T fb s pixels).stores) : (plotAll T fb s pixels).mem a = s.mem a := by
  rw [mem_stores_plotAll, not_or] at ha
  obtain ⟨-, ha⟩ := ha
  rw [plotAll]
  induction pixels generalizing s with
  | nil => rfl
  | cons p pixels ih =>
      rw [List.exists_mem_cons_iff, not_or, not_and] at ha
      rw [List.foldl_cons, ih ha.2, fbPixel_eq]
      split_ifs with h
      · rw [pokes_mem_of_notMem _ (by rw [length_take_colourBytes]; exact ha.1 h)]
      · rfl

end Framebuffer

end Aerogel
