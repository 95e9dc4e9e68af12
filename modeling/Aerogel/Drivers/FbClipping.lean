import Aerogel.Drivers.Framebuffer
import Aerogel.Foundations.Grid

/-! # Clipping in `framebuffer.c`

A call should store the visible pixels that it covers, and nothing outside the framebuffer (`Confined`).
`fb_pixel` tests its coordinates after narrowing them to 16 bits, so a pixel that is a multiple of 65536
columns or rows away from the screen passes the test; `confined_iff` says that these pixels, and those
whose addresses need more than 32 bits, are all that can go wrong. -/

namespace Aerogel

namespace Framebuffer

/-! ## Calls -/

/-- A call of one of the primitives. -/
inductive FbCall
  /-- `fb_pixel`. -/
  | pixel (x y : Int) (c : UInt32)
  /-- `fb_hline`. -/
  | hline (x y len : Int) (c : UInt32)
  /-- `fb_vline`. -/
  | vline (x y len : Int) (c : UInt32)
  /-- `fb_rect`. -/
  | rect (x y w h : Int) (c : UInt32)
  /-- `fb_rect_outline`. -/
  | rectOutline (x y w h t : Int) (c : UInt32)
  /-- `fb_char`. -/
  | char (x y : Int) (ch : UInt8) (fg bg : UInt32)
  /-- `fb_string`. -/
  | string (x y : Int) (text : List UInt8) (fg bg : UInt32)

/-- Carry out a call. -/
def FbCall.run (T : Target) (fb : FbInfo) : FbCall → Screen → Except Stuck Screen
  | pixel x y c, s => .ok (fbPixel T fb x y c s)
  | hline x y len c, s => fbHline T fb x y len c s
  | vline x y len c, s => fbVline T fb x y len c s
  | rect x y w h c, s => fbRect T fb x y w h c s
  | rectOutline x y w h t c, s => fbRectOutline T fb x y w h t c s
  | char x y ch fg bg, s => fbChar T fb x y ch fg bg s
  | string x y text fg bg, s => fbString T fb x y fg bg text s

/-- A point of a rectangle. -/
def InRect (x y w h : Int) (px py : Int) : Prop := (x ≤ px ∧ px < x + w) ∧ y ≤ py ∧ py < y + h

/-- The points that a call covers. -/
def FbCall.Covers : FbCall → Int → Int → Prop
  | pixel x y _ => InRect x y 1 1
  | hline x y len _ => InRect x y len 1
  | vline x y len _ => InRect x y 1 len
  | rect x y w h _ => InRect x y w h
  -- the upper, the lower, the left and the right side
  | rectOutline x y w h t _ => fun px py => InRect x y w t px py ∨ InRect x (y + h - t) w t px py ∨
      InRect x y t h px py ∨ InRect (x + w - t) y t h px py
  | char x y _ _ _ => InRect x y 8 16
  | string x y text _ _ => InRect x y (8 * text.length) 16

/-- `i` runs over the values in front of `n`, and its sums with `z` are `int`s. -/
def Adds (z n : Int) : Prop := ∀ i, 0 ≤ i → i < n → FitsSigned 32 (z + i)

/-- The sums of `fb_rect`. -/
def RectFits (x y w h : Int) : Prop := FitsSigned 32 (y + h) ∧ (0 < h → Adds x w)

/-- The sums of `fb_string`. -/
def StringFits (x y : Int) : Nat → Prop
  | 0 => True
  | n + 1 => Adds x 8 ∧ Adds y 16 ∧ FitsSigned 32 (x + 8) ∧ StringFits (x + 8) y n

/-- The sums of a call do not overflow `int`. -/
def FbCall.SumsFit : FbCall → Prop
  | pixel _ _ _ => True
  | hline x _ len _ => Adds x len
  | vline _ y len _ => Adds y len
  | rect x y w h _ => RectFits x y w h
  | rectOutline x y w h t _ => RectFits x y w t ∧ FitsSigned 32 (y + h) ∧ FitsSigned 32 (y + h - t) ∧
      RectFits x (y + h - t) w t ∧ RectFits x y t h ∧ FitsSigned 32 (x + w) ∧ FitsSigned 32 (x + w - t) ∧
      RectFits (x + w - t) y t h
  | char x y _ _ _ => Adds x 8 ∧ Adds y 16
  | string x y text _ _ => StringFits x y text.length

/-! ## Calls are walks -/

/-- The pixels of `fb_hline`. -/
def hlinePixels (x y len : Int) (c : UInt32) : List Pixel := (Int.range 0 len).flatMap fun i => [⟨x + i, y, c⟩]

/-- The pixels of `fb_vline`. -/
def vlinePixels (x y len : Int) (c : UInt32) : List Pixel := (Int.range 0 len).flatMap fun i => [⟨x, y + i, c⟩]

/-- The pixels of `fb_rect`. -/
def rectPixels (x y w h : Int) (c : UInt32) : List Pixel :=
  (Int.range y (y + h)).flatMap fun row => hlinePixels x row w c

/-- The pixels of a row of a character. -/
def charRowPixels (x y : Int) (bits : UInt8) (row : Int) (fg bg : UInt32) : List Pixel :=
  (Int.range 0 8).flatMap fun col =>
    [⟨x + col, y + row, if bits.toNat &&& (0x80 >>> col.toNat) ≠ 0 then fg else bg⟩]

/-- The pixels of `fb_char`. -/
def charPixels (x y : Int) (ch : UInt8) (fg bg : UInt32) : List Pixel :=
  (Int.range 0 16).flatMap fun row =>
    charRowPixels x y (glyphRow (if ch ≥ 128 then 0x3F else ch) row) row fg bg

/-- The pixels of `fb_string`. -/
def stringPixels (x y : Int) (fg bg : UInt32) : List UInt8 → List Pixel
  | [] => []
  | ch :: text => charPixels x y ch fg bg ++ stringPixels (x + 8) y fg bg text

/-- The pixels of a call, in the order in which they are drawn. -/
def FbCall.pixels : FbCall → List Pixel
  | pixel x y c => [⟨x, y, c⟩]
  | hline x y len c => hlinePixels x y len c
  | vline x y len c => vlinePixels x y len c
  | rect x y w h c => rectPixels x y w h c
  | rectOutline x y w h t c => rectPixels x y w t c ++ rectPixels x (y + h - t) w t c ++ rectPixels x y t h c ++
      rectPixels (x + w - t) y t h c
  | char x y ch fg bg => charPixels x y ch fg bg
  | string x y text fg bg => stringPixels x y fg bg text

variable {T : Target} {fb : FbInfo}

theorem plotAll_append (s : Screen) (pixels pixels' : List Pixel) :
    plotAll T fb s (pixels ++ pixels') = plotAll T fb (plotAll T fb s pixels) pixels' := List.foldl_append

/-- A loop whose iterations are walks. -/
theorem forInt_plotAll {lo hi : Int} {items : Int → List Pixel} {body : Int → Screen → Except Stuck Screen}
    (h : ∀ i, lo ≤ i → i < hi → ∀ s, body i s = .ok (plotAll T fb s (items i))) (s : Screen) :
    forInt lo hi body s = .ok (plotAll T fb s ((Int.range lo hi).flatMap items)) := forInt_foldl h s

theorem fbHline_eq {x y len : Int} (h : Adds x len) (c : UInt32) (s : Screen) :
    fbHline T fb x y len c s = .ok (plotAll T fb s (hlinePixels x y len c)) :=
  forInt_plotAll (fun i h₁ h₂ s => by rw [cInt, signedInt_eq (h i h₁ h₂)]; rfl) s

theorem fbVline_eq {x y len : Int} (h : Adds y len) (c : UInt32) (s : Screen) :
    fbVline T fb x y len c s = .ok (plotAll T fb s (vlinePixels x y len c)) :=
  forInt_plotAll (fun i h₁ h₂ s => by rw [cInt, signedInt_eq (h i h₁ h₂)]; rfl) s

theorem fbRect_eq {x y w h : Int} (hfit : RectFits x y w h) (c : UInt32) (s : Screen) :
    fbRect T fb x y w h c s = .ok (plotAll T fb s (rectPixels x y w h c)) := by
  rw [fbRect, cInt, signedInt_eq hfit.1, ok_andThen, rectPixels]
  apply forInt_plotAll
  intro row h₁ h₂ s
  exact fbHline_eq (hfit.2 (by omega)) c s

theorem charRow_eq {x y row : Int} (hx : Adds x 8) (hy : FitsSigned 32 (y + row)) (bits : UInt8) (fg bg : UInt32)
    (s : Screen) : charRow T fb x y bits row fg bg s = .ok (plotAll T fb s (charRowPixels x y bits row fg bg)) := by
  rw [charRow, charRowPixels]
  apply forInt_plotAll
  intro col h₁ h₂ s
  rw [cInt, signedInt_eq (hx col h₁ h₂), ok_andThen, cInt, signedInt_eq hy, ok_andThen]
  rfl

theorem fbChar_eq {x y : Int} (hx : Adds x 8) (hy : Adds y 16) (ch : UInt8) (fg bg : UInt32) (s : Screen) :
    fbChar T fb x y ch fg bg s = .ok (plotAll T fb s (charPixels x y ch fg bg)) := by
  rw [fbChar, charPixels]
  apply forInt_plotAll
  intro row h₁ h₂ s
  exact charRow_eq hx (hy row h₁ h₂) _ fg bg s

theorem fbString_eq {x y : Int} {text : List UInt8} (h : StringFits x y text.length) (fg bg : UInt32) (s : Screen) :
    fbString T fb x y fg bg text s = .ok (plotAll T fb s (stringPixels x y fg bg text)) := by
  induction text generalizing x s with
  | nil => rfl
  | cons ch text ih =>
      obtain ⟨hx, hy, hnext, hrest⟩ := h
      rw [fbString, fbChar_eq hx hy, ok_andThen, cInt, signedInt_eq hnext, ok_andThen, ih hrest, stringPixels,
        plotAll_append]

/-- A call whose sums fit walks through its pixels. -/
theorem FbCall.run_eq {call : FbCall} (h : call.SumsFit) (s : Screen) :
    call.run T fb s = .ok (plotAll T fb s call.pixels) := by
  cases call with
  | pixel x y c => rfl
  | hline x y len c => exact fbHline_eq h c s
  | vline x y len c => exact fbVline_eq h c s
  | rect x y w h' c => exact fbRect_eq h c s
  | rectOutline x y w h' t c =>
      obtain ⟨htop, hsum, hbottom, hlower, hleft, hsum', hright, hright'⟩ := h
      change fbRectOutline T fb x y w h' t c s = _
      rw [fbRectOutline, fbRect_eq htop, ok_andThen, cInt, signedInt_eq hsum, ok_andThen, cInt,
        signedInt_eq hbottom, ok_andThen, fbRect_eq hlower, ok_andThen, fbRect_eq hleft, ok_andThen, cInt,
        signedInt_eq hsum', ok_andThen, cInt, signedInt_eq hright, ok_andThen, fbRect_eq hright']
      simp only [FbCall.pixels, plotAll_append]
  | char x y ch fg bg => exact fbChar_eq h.1 h.2 ch fg bg s
  | string x y text fg bg => exact fbString_eq h fg bg s

/-! ## What the walks cover -/

variable {x y px py : Int}

theorem mem_hlinePixels {len : Int} {c : UInt32} :
    (∃ p ∈ hlinePixels x y len c, p.point = (px, py)) ↔ InRect x y len 1 px py := by
  simp only [hlinePixels, List.mem_flatMap, List.mem_singleton, Int.mem_range_iff, InRect, Pixel.point,
    Prod.mk.injEq]
  constructor
  · rintro ⟨p, ⟨i, hi, rfl⟩, rfl, rfl⟩
    dsimp only
    omega
  · intro h
    exact ⟨_, ⟨px - x, by omega, rfl⟩, by dsimp only; omega, by dsimp only; omega⟩

theorem mem_vlinePixels {len : Int} {c : UInt32} :
    (∃ p ∈ vlinePixels x y len c, p.point = (px, py)) ↔ InRect x y 1 len px py := by
  simp only [vlinePixels, List.mem_flatMap, List.mem_singleton, Int.mem_range_iff, InRect, Pixel.point,
    Prod.mk.injEq]
  constructor
  · rintro ⟨p, ⟨i, hi, rfl⟩, rfl, rfl⟩
    dsimp only
    omega
  · intro h
    exact ⟨_, ⟨py - y, by omega, rfl⟩, by dsimp only; omega, by dsimp only; omega⟩

theorem mem_rectPixels {w h : Int} {c : UInt32} :
    (∃ p ∈ rectPixels x y w h c, p.point = (px, py)) ↔ InRect x y w h px py := by
  have hrow : ∀ row, (∃ p ∈ hlinePixels x row w c, p.point = (px, py)) ↔ InRect x row w 1 px py := fun _ =>
    mem_hlinePixels
  simp only [rectPixels, List.mem_flatMap, Int.mem_range_iff]
  constructor
  · rintro ⟨p, ⟨row, hr, hp⟩, hpoint⟩
    have := (hrow row).mp ⟨p, hp, hpoint⟩
    simp only [InRect] at this ⊢
    omega
  · intro hin
    obtain ⟨p, hp, hpoint⟩ := (hrow py).mpr (by simp only [InRect] at hin ⊢; omega)
    exact ⟨p, ⟨py, hin.2, hp⟩, hpoint⟩

theorem mem_charPixels {ch : UInt8} {fg bg : UInt32} :
    (∃ p ∈ charPixels x y ch fg bg, p.point = (px, py)) ↔ InRect x y 8 16 px py := by
  simp only [charPixels, charRowPixels, List.mem_flatMap, List.mem_singleton, Int.mem_range_iff, InRect,
    Pixel.point, Prod.mk.injEq]
  constructor
  · rintro ⟨p, ⟨row, hrow, col, hcol, rfl⟩, rfl, rfl⟩
    dsimp only
    omega
  · intro h
    exact ⟨_, ⟨py - y, by omega, px - x, by omega, rfl⟩, by dsimp only; omega, by dsimp only; omega⟩

theorem mem_stringPixels {fg bg : UInt32} {text : List UInt8} :
    (∃ p ∈ stringPixels x y fg bg text, p.point = (px, py)) ↔ InRect x y (8 * text.length) 16 px py := by
  induction text generalizing x with
  | nil =>
      refine iff_of_false (fun ⟨p, hp, _⟩ => List.not_mem_nil hp) fun h => ?_
      have := h.1
      rw [List.length_nil, Nat.cast_zero] at this
      omega
  | cons ch text ih =>
      simp only [stringPixels, List.mem_append, or_and_right, exists_or, mem_charPixels, ih, InRect,
        List.length_cons]
      push_cast
      omega

/-- The pixels of a call are the points that it covers. -/
theorem FbCall.mem_pixels (call : FbCall) : (∃ p ∈ call.pixels, p.point = (px, py)) ↔ call.Covers px py := by
  cases call with
  | pixel x y c =>
      simp only [FbCall.pixels, List.mem_singleton, exists_eq_left, Pixel.point, Prod.mk.injEq, FbCall.Covers,
        InRect]
      omega
  | hline x y len c => exact mem_hlinePixels
  | vline x y len c => exact mem_vlinePixels
  | rect x y w h c => exact mem_rectPixels
  | rectOutline x y w h t c =>
      simp only [FbCall.pixels, List.mem_append, or_and_right, exists_or, mem_rectPixels, FbCall.Covers, or_assoc]
  | char x y ch fg bg => exact mem_charPixels
  | string x y text fg bg => exact mem_stringPixels

/-! ## Pixels in memory -/

/-- The pixel is on the screen. -/
def FbInfo.Visible (fb : FbInfo) (x y : Int) : Prop := (0 ≤ x ∧ x < fb.width.toNat) ∧ 0 ≤ y ∧ y < fb.height.toNat

/-- Where a visible pixel lies. -/
def FbInfo.offset (fb : FbInfo) (x y : Int) : Nat :=
  fb.addr.toNat + y.toNat * fb.pitch.toNat + x.toNat * fb.bytes

/-- It can be addressed: it begins below the 4 GiB that a `u32` can say and ends inside the address space. -/
def FbInfo.Addressable (T : Target) (fb : FbInfo) (x y : Int) : Prop :=
  fb.offset x y < 2 ^ 32 ∧ fb.offset x y + fb.bytes ≤ 2 ^ T.wordBits

/-- A call that should cover these points has drawn in memory what it should. -/
structure Confined (fb : FbInfo) (m : Mem) (covers : Int → Int → Prop) (s : Screen) : Prop where
  /-- Stores are to the framebuffer. -/
  inside : ∀ a ∈ s.stores, fb.addr.toNat ≤ a ∧ a < fb.addr.toNat + fb.height.toNat * fb.pitch.toNat
  /-- A pixel that is drawn is on the screen and covered. -/
  drawn : ∀ x y, (x, y) ∈ s.drawn → fb.Visible x y ∧ covers x y
  /-- A visible pixel that is covered is written, with all of its bytes. -/
  changed : ∀ x y, fb.Visible x y → covers x y → ∀ i < fb.bytes, fb.offset x y + i ∈ s.stores
  /-- Any other visible pixel is not. -/
  kept : ∀ x y, fb.Visible x y → ¬ covers x y → ∀ i < fb.bytes, fb.offset x y + i ∉ s.stores
  /-- Memory that is not stored to is as it was. -/
  frame : ∀ a ∉ s.stores, s.mem a = m a

theorem bytes_pos (fb : FbInfo) : 0 < fb.bytes := by
  rw [FbInfo.bytes]
  split_ifs <;> decide

/-- A visible pixel passes the test. -/
theorem FbInfo.Visible.shows (h : fb.Visible x y) : fb.Shows x y := by
  obtain ⟨⟨hx, hx'⟩, hy, hy'⟩ := h
  have hw := fb.width.toNat_lt
  have hh := fb.height.toNat_lt
  rw [FbInfo.Shows, UInt16.lt_iff_toNat_lt, UInt16.lt_iff_toNat_lt, UInt16.ofInt, UInt16.ofInt, UInt16.toNat_ofNat',
    UInt16.toNat_ofNat']
  omega

/-- The address that is computed for a visible pixel. -/
theorem toNat_place (h : fb.Visible x y) : (fb.place fb.bytes x y).toNat = fb.offset x y % 2 ^ 32 := by
  obtain ⟨⟨hx, hx'⟩, hy, hy'⟩ := h
  have hw := fb.width.toNat_lt
  have hh := fb.height.toNat_lt
  have hbytes : fb.bytes < 2 ^ 32 := by
    rw [FbInfo.bytes]
    split_ifs <;> decide
  have hcoord : ∀ z : Int, 0 ≤ z → z < 65536 → (UInt32.ofInt z).toNat = z.toNat := by
    intro z h₁ h₂
    rw [UInt32.ofInt, UInt32.toNat_ofNat']
    omega
  rw [FbInfo.place, FbInfo.offset, UInt32.toNat_add, UInt32.toNat_add, UInt32.toNat_mul, UInt32.toNat_mul,
    hcoord x hx (by omega), hcoord y hy (by omega), UInt32.toNat_ofNat', Nat.mod_eq_of_lt hbytes]
  simp only [Nat.add_mod_mod, Nat.mod_add_mod]

/-- The bytes of a pixel that can be addressed. -/
theorem mem_addresses (h : fb.Visible x y) (ha : fb.Addressable T x y) {a : Nat} :
    a ∈ fb.addresses T x y ↔ ∃ i < fb.bytes, fb.offset x y + i = a := by
  rw [FbInfo.addresses, List.mem_map, toNat_place h, Nat.mod_eq_of_lt ha.1]
  refine exists_congr fun i => ?_
  rw [List.mem_range]
  refine and_congr_right fun hi => ?_
  rw [Nat.mod_eq_of_lt (by have := ha.2; omega)]

/-- A pixel of which the last byte is stored can be addressed. -/
theorem addressable_of_mem {px py : Int} (h : fb.offset x y + (fb.bytes - 1) ∈ fb.addresses T px py) :
    fb.Addressable T x y := by
  have hpos := bytes_pos fb
  rw [FbInfo.addresses, List.mem_map] at h
  obtain ⟨i, hi, heq⟩ := h
  rw [List.mem_range] at hi
  have hplace := (fb.place fb.bytes px py).toNat_lt
  have hle := Nat.mod_le ((fb.place fb.bytes px py).toNat + i) (2 ^ T.wordBits)
  have hlt := Nat.mod_lt ((fb.place fb.bytes px py).toNat + i) (Nat.two_pow_pos T.wordBits)
  exact ⟨by omega, by omega⟩

/-- The bytes of a visible pixel are inside its row. -/
theorem row_byte_lt (hpitch : fb.width.toNat * fb.bytes ≤ fb.pitch.toNat) (h : fb.Visible x y) {i : Nat}
    (hi : i < fb.bytes) : x.toNat * fb.bytes + i < fb.pitch.toNat := by
  obtain ⟨⟨hx, hx'⟩, -⟩ := h
  have hmul : (x.toNat + 1) * fb.bytes ≤ fb.width.toNat * fb.bytes := Nat.mul_le_mul_right _ (by omega)
  rw [Nat.succ_mul] at hmul
  omega

/-- The rows are inside the framebuffer. -/
theorem offset_lt (hpitch : fb.width.toNat * fb.bytes ≤ fb.pitch.toNat) (h : fb.Visible x y) {i : Nat}
    (hi : i < fb.bytes) : fb.offset x y + i < fb.addr.toNat + fb.height.toNat * fb.pitch.toNat := by
  have hrow := row_byte_lt hpitch h hi
  obtain ⟨-, hy, hy'⟩ := h
  have hmul : (y.toNat + 1) * fb.pitch.toNat ≤ fb.height.toNat * fb.pitch.toNat :=
    Nat.mul_le_mul_right _ (by omega)
  rw [Nat.succ_mul] at hmul
  rw [FbInfo.offset]
  omega

/-- Different visible pixels have different bytes. -/
theorem eq_of_offset_eq (hpitch : fb.width.toNat * fb.bytes ≤ fb.pitch.toNat) {px py : Int} (h : fb.Visible x y)
    (hp : fb.Visible px py) {i j : Nat} (hi : i < fb.bytes) (hj : j < fb.bytes)
    (heq : fb.offset x y + i = fb.offset px py + j) : x = px ∧ y = py := by
  rw [FbInfo.offset, FbInfo.offset] at heq
  have hflat : y.toNat * fb.pitch.toNat + (x.toNat * fb.bytes + i) =
      py.toNat * fb.pitch.toNat + (px.toNat * fb.bytes + j) := by omega
  obtain ⟨hrow, hbyte⟩ := (cell_index_inj (row_byte_lt hpitch hp hj) (row_byte_lt hpitch h hi)).mp hflat
  obtain ⟨hcol, -⟩ := (cell_index_inj hj hi).mp hbyte
  obtain ⟨⟨hx, -⟩, hy, -⟩ := h
  obtain ⟨⟨hpx, -⟩, hpy, -⟩ := hp
  exact ⟨by omega, by omega⟩

/-! ## What can go wrong -/

/-- A walk is confined if all pixels that pass the test are visible and can be addressed. -/
theorem confined_plotAll (hpitch : fb.width.toNat * fb.bytes ≤ fb.pitch.toNat) (m : Mem) {pixels : List Pixel}
    {covers : Int → Int → Prop} (hcovers : ∀ px py, (∃ p ∈ pixels, p.point = (px, py)) ↔ covers px py)
    (h : ∀ px py, covers px py → fb.Shows px py → fb.Visible px py ∧ fb.Addressable T px py) :
    Confined fb m covers (plotAll T fb (.start m) pixels) := by
  have hpixel : ∀ p ∈ pixels, covers p.x p.y := fun p hp => (hcovers _ _).mp ⟨p, hp, rfl⟩
  have hstore : ∀ a, a ∈ (plotAll T fb (.start m) pixels).stores ↔
      ∃ p ∈ pixels, fb.Shows p.x p.y ∧ ∃ i < fb.bytes, fb.offset p.x p.y + i = a := by
    intro a
    rw [mem_stores_plotAll, or_iff_right (show a ∉ (Screen.start m).stores from List.not_mem_nil)]
    refine exists_congr fun p => and_congr_right fun hp => and_congr_right fun hs => ?_
    obtain ⟨hv, ha⟩ := h _ _ (hpixel p hp) hs
    exact mem_addresses hv ha
  constructor
  case inside =>
    intro a ha
    obtain ⟨p, hp, hs, i, hi, rfl⟩ := (hstore a).mp ha
    have hv := (h _ _ (hpixel p hp) hs).1
    refine ⟨?_, offset_lt hpitch hv hi⟩
    rw [FbInfo.offset]
    omega
  case drawn =>
    intro px py hq
    rw [mem_drawn_plotAll, or_iff_right (show _ ∉ (Screen.start m).drawn from List.not_mem_nil)] at hq
    obtain ⟨p, hp, hs, hpoint⟩ := hq
    obtain ⟨rfl, rfl⟩ := Prod.mk.inj hpoint
    exact ⟨(h _ _ (hpixel p hp) hs).1, hpixel p hp⟩
  case changed =>
    intro px py hv hc i hi
    obtain ⟨p, hp, hpoint⟩ := (hcovers px py).mpr hc
    obtain ⟨rfl, rfl⟩ := Prod.mk.inj hpoint
    exact (hstore _).mpr ⟨p, hp, hv.shows, i, hi, rfl⟩
  case kept =>
    intro px py hv hc i hi hmem
    obtain ⟨p, hp, hs, j, hj, heq⟩ := (hstore _).mp hmem
    -- the byte belongs to one pixel only
    obtain ⟨rfl, rfl⟩ := eq_of_offset_eq hpitch (h _ _ (hpixel p hp) hs).1 hv hj hi heq
    exact hc (hpixel p hp)
  case frame =>
    intro a ha
    exact mem_plotAll_of_notMem ha

/-- A walk that is confined has no other pixels that pass the test. -/
theorem Confined.visible {m : Mem} {pixels : List Pixel} {covers : Int → Int → Prop}
    (hcovers : ∀ px py, (∃ p ∈ pixels, p.point = (px, py)) ↔ covers px py)
    (h : Confined fb m covers (plotAll T fb (.start m) pixels)) {px py : Int} (hc : covers px py)
    (hs : fb.Shows px py) : fb.Visible px py ∧ fb.Addressable T px py := by
  have hpos := bytes_pos fb
  obtain ⟨p, hp, hpoint⟩ := (hcovers px py).mpr hc
  obtain ⟨rfl, rfl⟩ := Prod.mk.inj hpoint
  have hv := (h.drawn p.x p.y (mem_drawn_plotAll.mpr (.inr ⟨p, hp, hs, rfl⟩))).1
  have hlast := h.changed p.x p.y hv hc (fb.bytes - 1) (by omega)
  rw [mem_stores_plotAll, or_iff_right (show _ ∉ (Screen.start m).stores from List.not_mem_nil)] at hlast
  obtain ⟨q, -, -, hq⟩ := hlast
  exact ⟨hv, addressable_of_mem hq⟩

/-- Every call whose sums are `int`s returns; it is confined if and only if every pixel that it covers and
that passes the test is on the screen and can be addressed. -/
theorem confined_iff (T : Target) (fb : FbInfo) (hpitch : fb.width.toNat * fb.bytes ≤ fb.pitch.toNat)
    (call : FbCall) (hsums : call.SumsFit) (m : Mem) : ∃ s, call.run T fb (.start m) = .ok s ∧
      (Confined fb m call.Covers s ↔
        ∀ px py, call.Covers px py → fb.Shows px py → fb.Visible px py ∧ fb.Addressable T px py) := by
  have hcovers : ∀ px py, (∃ p ∈ call.pixels, p.point = (px, py)) ↔ call.Covers px py := fun _ _ => call.mem_pixels
  refine ⟨_, call.run_eq hsums _, fun h px py hc hs => ?_, fun h => ?_⟩
  · exact h.visible hcovers hc hs
  · exact confined_plotAll hpitch m hcovers h

/-- Close to the screen the test is right. -/
theorem FbInfo.Shows.visible (h : fb.Shows x y) (hx : (fb.width.toNat : Int) - 65536 ≤ x ∧ x < 65536)
    (hy : (fb.height.toNat : Int) - 65536 ≤ y ∧ y < 65536) : fb.Visible x y := by
  obtain ⟨h₁, h₂⟩ := h
  have hw := fb.width.toNat_lt
  have hh := fb.height.toNat_lt
  rw [UInt16.lt_iff_toNat_lt, UInt16.ofInt, UInt16.toNat_ofNat'] at h₁ h₂
  exact ⟨⟨by omega, by omega⟩, by omega, by omega⟩

/-- The pixels of a framebuffer in 32-bit memory can be addressed. -/
theorem addressable_of_le (hpitch : fb.width.toNat * fb.bytes ≤ fb.pitch.toNat)
    (hmem : fb.addr.toNat + fb.height.toNat * fb.pitch.toNat ≤ 2 ^ 32) (h : fb.Visible x y) :
    fb.Addressable T x y := by
  have hpos := bytes_pos fb
  have hlast := offset_lt hpitch h (show fb.bytes - 1 < fb.bytes by omega)
  have hword := T.two_pow_32_le
  exact ⟨by omega, by omega⟩

/-- A rectangle that leaves the screen on the left and at the bottom is clipped. -/
theorem confined_iff_corner : ∃ s,
    (FbCall.rect (-5) 470 20 30 0xFFFFFF).run .x86_64 ⟨0xE0000000, 2560, 640, 480, 32⟩ (.start fun _ => 0) =
      .ok s ∧
    Confined ⟨0xE0000000, 2560, 640, 480, 32⟩ (fun _ => 0) (FbCall.rect (-5) 470 20 30 0xFFFFFF).Covers s := by
  have hsums : (FbCall.rect (-5) 470 20 30 0xFFFFFF).SumsFit :=
    ⟨by decide, fun _ i h₁ h₂ => ⟨by omega, by omega⟩⟩
  obtain ⟨s, hrun, hiff⟩ := confined_iff .x86_64 ⟨0xE0000000, 2560, 640, 480, 32⟩ (by decide) _ hsums fun _ => 0
  refine ⟨s, hrun, hiff.mpr fun px py hc hs => ?_⟩
  obtain ⟨hx, hy⟩ := hc
  have hw : (640 : UInt16).toNat = 640 := rfl
  have hh : (480 : UInt16).toNat = 480 := rfl
  have hv := hs.visible (by dsimp only; omega) (by dsimp only; omega)
  exact ⟨hv, addressable_of_le (by decide) (by decide) hv⟩

/-- The pixel in column 0 and row 65536 of a screen with 480 rows is stored, 160 MiB behind the first. -/
theorem farPixel_not_confined : ∃ s, (FbCall.pixel 0 65536 0xFFFFFF).run .x86 ⟨0xE0000000, 2560, 640, 480, 32⟩
      (.start fun _ => 0) = .ok s ∧
    0xE0000000 + 65536 * 2560 ∈ s.stores ∧
    ¬ Confined ⟨0xE0000000, 2560, 640, 480, 32⟩ (fun _ => 0) (FbCall.pixel 0 65536 0xFFFFFF).Covers s := by
  have hmem : 0xE0000000 + 65536 * 2560 ∈
      (fbPixel .x86 ⟨0xE0000000, 2560, 640, 480, 32⟩ 0 65536 0xFFFFFF (.start fun _ => 0)).stores := by decide
  refine ⟨_, rfl, hmem, fun h => ?_⟩
  exact absurd (h.inside _ hmem).2 (by decide)

end Framebuffer

end Aerogel
