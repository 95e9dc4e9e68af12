import Aerogel.Foundations.Numerals
import Aerogel.Foundations.SignedInt
import Aerogel.Libc.PrintfSafety

/-! # Printing numbers and reading them back

`atol` of `stdlib.c` with its arithmetic in the type `long`, where a result that does not fit is an error. It
reads the digits of a canonical numeral in the order of `hornerFrom`, so that no intermediate result is above the
value (`atolDigits_eq`). `vsnprintf` prints canonical numerals, and `atol` is its inverse
(`atol_vsnprintf`). -/

namespace Aerogel

namespace Printf

/-! ## `stdlib.c` -/

/-- The first loop of `atol`: blanks and tabs are passed. -/
def skipBlanks (m : Mem) : Nat → Nat → Except Stuck Nat
  | 0, _ => .error .diverges
  | fuel + 1, s => if m s = 0x20 ∨ m s = 0x09 then skipBlanks m fuel (s + 1) else .ok s

/-- The sign, and where the digits begin. -/
def readSign (m : Mem) (s : Nat) : Int × Nat :=
  if m s = 0x2D then (-1, s + 1) else if m s = 0x2B then (1, s + 1) else (1, s)

variable (T : Target)

/-- The last loop of `atol`: `result = result * 10 + (*s++ - '0')`. -/
def atolDigits (m : Mem) : Nat → Nat → Int → Except Stuck Int
  | 0, _, _ => .error .diverges
  | fuel + 1, s, result =>
    if 0x30 ≤ m s ∧ m s ≤ 0x39 then do
      let product ← signedInt T.wordBits (result * 10)
      let result ← signedInt T.wordBits (product + ((m s).toNat - 0x30))
      atolDigits m fuel (s + 1) result
    else .ok result

/-- `atol`. -/
def atol (fuel : Nat) (m : Mem) (s : Nat) : Except Stuck Int := do
  let s ← skipBlanks m fuel s
  let (sign, s) := readSign m s
  let result ← atolDigits T m fuel s 0
  signedInt T.wordBits (sign * result)

/-- `atoi`: the result of `atol` as an `int`. -/
def atoi (fuel : Nat) (m : Mem) (s : Nat) : Except Stuck Int := do
  let v ← atol T fuel m s
  return v.bmod (2 ^ 32)

/-! ## Canonical texts -/

/-- The canonical representation of a number, in digits of this case. -/
def IsNumeralText (base : Nat) (upper : Bool) (n : Nat) (text : List UInt8) : Prop :=
  ∃ ds, IsNumeral base n ds ∧ text = ds.map (digit upper)

/-- The canonical decimal form of an integer: the digits of its absolute value, behind a `'-'` if it is
negative. -/
def IsDecimal (v : Int) (text : List UInt8) : Prop :=
  ∃ digits, IsNumeralText 10 false v.natAbs digits ∧ text = if v < 0 then 0x2D :: digits else digits

/-- The word in which a `long` is passed. -/
def longWord (v : Int) : Nat := (v % 2 ^ T.wordBits).toNat

/-- The format `%c` prints the argument `word` as `text`, wherever the format and the buffer are, if the buffer
is large enough. -/
def PrintsAs (c : UInt8) (word : Nat) (text : List UInt8) : Prop :=
  ∀ (m : Mem) (buf size fmt : Nat) (ap : VaList), StrOutside m buf (buf + size) fmt [0x25, c] →
    ap 0 % 2 ^ T.wordBits = word → text.length < size →
    ∃ r, PrintsSafely (fun fuel => vsnprintf T fuel m buf size fmt ap) buf size text r ∧ CStr r.mem buf text

variable {T} {m : Mem} {a : Nat} {v : Int} {base n : Nat} {upper : Bool} {text : List UInt8}

/-- A character for a digit up to 9. -/
theorem toNat_digit {d : Nat} (hd : d < 10) (upper : Bool) : (digit upper d).toNat = 0x30 + d := by
  rw [digit, if_pos hd, UInt8.toNat_ofNat', Nat.mod_eq_of_lt (by omega)]

/-- No digit is a NUL. -/
theorem digit_ne_zero {d : Nat} (hd : d < 16) (upper : Bool) : digit upper d ≠ 0 := by
  have h : ∀ d < 16, ∀ upper, digit upper d ≠ 0 := by decide
  exact h d hd upper

/-- What is printed is the canonical representation. -/
theorem isNumeralText_numeral (hbase : 1 < base) (upper : Bool) (n : Nat) :
    IsNumeralText base upper n (numeral base upper n) := by
  refine ⟨numeralDigits base n, isNumeral_numeralDigits hbase n, ?_⟩
  rw [numeral, numeralDigits]
  split_ifs
  · rfl
  · rfl

namespace IsNumeralText

theorem zero_notMem (h : IsNumeralText base upper n text) (hbase : base ≤ 16) : 0 ∉ text := by
  obtain ⟨ds, hds, rfl⟩ := h
  intro hzero
  obtain ⟨d, hd, hchar⟩ := List.mem_map.mp hzero
  exact digit_ne_zero ((hds.lt_base d hd).trans_le hbase) upper hchar

/-- A number has one canonical representation. -/
theorem eq_numeral (h : IsNumeralText base upper n text) (hbase : 1 < base) : text = numeral base upper n := by
  obtain ⟨ds, hds, rfl⟩ := h
  obtain ⟨ds', hds', heq⟩ := isNumeralText_numeral hbase upper n
  rw [heq, hds.eq_numeralDigits hbase, hds'.eq_numeralDigits hbase]

end IsNumeralText

/-- No text is longer than the array `tmp`. -/
theorem length_numeral_le (hbase : 10 ≤ base) (upper : Bool) (hn : n < 2 ^ 64) :
    (numeral base upper n).length ≤ 32 := by
  have hlen := length_tmpDigits_le hbase upper hn
  rw [tmpDigits_eq (by omega), List.length_map] at hlen
  rw [numeral]
  split_ifs
  · decide
  · rw [List.length_map, List.length_reverse]
    exact hlen

/-- `%d` yields the canonical decimal form of every `long` but `LONG_MIN`. -/
theorem isDecimal_signed (h₁ : -2 ^ (T.wordBits - 1) < v) (h₂ : v < 2 ^ (T.wordBits - 1)) :
    IsDecimal v (signed T.wordBits (longWord T v)) := by
  refine ⟨numeral 10 false v.natAbs, isNumeralText_numeral (by decide) false _, ?_⟩
  have hword : (2 ^ (T.wordBits - 1) ≤ longWord T v ↔ v < 0) ∧
      (v < 0 → 2 ^ T.wordBits - longWord T v = v.natAbs) ∧ (¬ v < 0 → longWord T v = v.natAbs) := by
    rw [longWord]
    cases T <;> simp only [Target.wordBits, Nat.reduceSub, Nat.reducePow, Int.reducePow] at h₁ h₂ ⊢ <;> omega
  rw [signed]
  by_cases hneg : v < 0
  · rw [if_pos (hword.1.mpr hneg), if_pos hneg, hword.2.1 hneg]
  · rw [if_neg fun h => hneg (hword.1.mp h), if_neg hneg, hword.2.2 hneg]

theorem IsDecimal.zero_notMem (h : IsDecimal v text) : 0 ∉ text := by
  obtain ⟨digits, hdigits, rfl⟩ := h
  have hnul := hdigits.zero_notMem (by decide)
  split_ifs
  · exact List.not_mem_cons_of_ne_of_not_mem (by decide) hnul
  · exact hnul

/-- A sign and the digits. -/
theorem IsDecimal.length_le (h : IsDecimal v text) (hv : v.natAbs < 2 ^ 64) : text.length ≤ 33 := by
  obtain ⟨digits, hdigits, rfl⟩ := h
  have hlen := length_numeral_le (le_refl 10) false hv
  rw [← hdigits.eq_numeral (by decide)] at hlen
  split_ifs
  · rw [List.length_cons]
    omega
  · omega

/-! ## Printing -/

/-- A directive on its own prints what it yields. -/
theorem printsAs_of_conversion {c : UInt8} {word : Nat} (hnul : 0 ∉ text) (hlen : text.length < 2 ^ 31)
    (hconv : ∀ m lo hi ap, ap 0 % 2 ^ T.wordBits = word → Conversion T m lo hi c ap text ap.rest) :
    PrintsAs T c word text := by
  rintro m buf size fmt ap ⟨hfmt, hout⟩ hword hsize
  rw [List.length_cons, List.length_singleton] at hout
  have hdone : Output T m buf (buf + size) (fmt + 2) ap.rest [] (fmt + 2) := .done (by omega) hfmt.2.2.2.2
  have hyield := Output.directive (by omega) hfmt.1 (by rw [hfmt.2.2.1]; exact hconv m _ _ ap hword) hdone
  rw [List.append_nil] at hyield
  obtain ⟨reads, -, hrun⟩ := vsnprintf_eq hyield
  have hsafe := printsSafely_of_fits hrun hsize hlen
  have hmin : min text.length (size - 1) = text.length := by omega
  refine ⟨_, hsafe, cStr_iff.mpr ⟨chars_of_getD hnul fun i hi => ?_, ?_⟩⟩
  · exact hsafe.chars i (by rw [hmin]; exact hi)
  · have hend := hsafe.nul
    rwa [hmin] at hend

/-- `%u`, `%x` and `%X` print canonical representations. -/
theorem printsAs_numeral {c : UInt8} (hbase : 10 ≤ base) (hbase' : base ≤ 16) (hn : n < 2 ^ T.wordBits)
    (hconv : ∀ m lo hi ap, Conversion T m lo hi c ap (numeral base upper (ap 0 % 2 ^ T.wordBits)) ap.rest) :
    ∃ text, IsNumeralText base upper n text ∧ PrintsAs T c n text := by
  have htext := isNumeralText_numeral (show 1 < base by omega) upper n
  have hn' : n < 2 ^ 64 := hn.trans_le (by cases T <;> decide)
  have hlen := length_numeral_le hbase upper hn'
  refine ⟨_, htext, printsAs_of_conversion (htext.zero_notMem hbase') (by omega) fun m lo hi ap hap => ?_⟩
  rw [← hap]
  exact hconv m lo hi ap

/-! ## Reading -/

/-- The last loop of `atol` reads the digits up to the NUL, if their number is a `long`. -/
theorem atolDigits_eq {ds : List Nat} {acc fuel : Nat} (hds : ∀ d ∈ ds, d < 10)
    (hstr : CStr m a (ds.map (digit false))) (hmax : hornerFrom 10 acc ds < 2 ^ (T.wordBits - 1))
    (hfuel : ds.length < fuel) : atolDigits T m fuel a acc = .ok (hornerFrom 10 acc ds) := by
  induction ds generalizing a acc fuel with
  | nil =>
      obtain ⟨fuel, rfl⟩ : ∃ k, fuel = k + 1 := ⟨fuel - 1, by omega⟩
      rw [atolDigits, show m a = 0 from hstr]
      rfl
  | cons d ds ih =>
      obtain ⟨fuel, rfl⟩ : ∃ k, fuel = k + 1 := ⟨fuel - 1, by omega⟩
      rw [List.length_cons] at hfuel
      have hd : d < 10 := hds d List.mem_cons_self
      have hchar : (m a).toNat = 0x30 + d := by rw [hstr.1, toNat_digit hd]
      have hdigit : 0x30 ≤ m a ∧ m a ≤ 0x39 := by
        rw [UInt8.le_iff_toNat_le, UInt8.le_iff_toNat_le, hchar]
        exact ⟨Nat.le_add_right _ _, by change 0x30 + d ≤ 0x39; omega⟩
      -- everything on the way is below the value of all digits
      have hle := le_hornerFrom (show 0 < 10 by decide) (acc * 10 + d) ds
      rw [hornerFrom_cons] at hmax
      have hbound : (((acc * 10 + d : Nat) : Int)) < 2 ^ (T.wordBits - 1) := by exact_mod_cast hle.trans_lt hmax
      have hproduct : signedInt T.wordBits ((acc : Int) * 10) = .ok ((acc : Int) * 10) :=
        signedInt_eq ⟨by omega, by omega⟩
      have hsum : signedInt T.wordBits ((acc : Int) * 10 + ((m a).toNat - 0x30)) =
          .ok ((acc * 10 + d : Nat) : Int) := by
        have hval : (acc : Int) * 10 + (((0x30 + d : Nat) : Int) - 0x30) = ((acc * 10 + d : Nat) : Int) := by omega
        rw [hchar, hval]
        exact signedInt_eq ⟨by omega, hbound⟩
      rw [atolDigits, if_pos hdigit, hproduct, ok_andThen, hsum, ok_andThen, hornerFrom_cons]
      exact ih (fun e he => hds e (List.mem_cons_of_mem d he)) hstr.2.2 hmax (by omega)

/-- `atol` of a string that does not begin with a blank: the sign is read, then the digits. -/
theorem atol_of_sign {ds : List Nat} {fuel s : Nat} {sign : Int} (hblank : ¬ (m a = 0x20 ∨ m a = 0x09))
    (hsign : readSign m a = (sign, s)) (hds : ∀ d ∈ ds, d < 10) (hstr : CStr m s (ds.map (digit false)))
    (hmax : hornerFrom 10 0 ds < 2 ^ (T.wordBits - 1)) (hfuel : ds.length < fuel) :
    atol T fuel m a = signedInt T.wordBits (sign * hornerFrom 10 0 ds) := by
  obtain ⟨fuel, rfl⟩ : ∃ k, fuel = k + 1 := ⟨fuel - 1, by omega⟩
  rw [atol, skipBlanks, if_neg hblank, ok_andThen, hsign]
  change (atolDigits T m (fuel + 1) s ((0 : Nat) : Int) >>= _) = _
  rw [atolDigits_eq hds hstr hmax hfuel, ok_andThen]

/-- `atol` of the canonical decimal form of a `long` returns it, without an overflow on the way, unless it is
`LONG_MIN`. -/
theorem atol_eq {fuel : Nat} (h₁ : -2 ^ (T.wordBits - 1) < v) (h₂ : v < 2 ^ (T.wordBits - 1))
    (htext : IsDecimal v text) (hstr : CStr m a text) (hfuel : text.length < fuel) :
    atol T fuel m a = .ok v := by
  obtain ⟨digits, ⟨ds, hds, rfl⟩, rfl⟩ := htext
  have hmax : hornerFrom 10 0 ds < 2 ^ (T.wordBits - 1) := by
    have habs : ((v.natAbs : Nat) : Int) < 2 ^ (T.wordBits - 1) := by omega
    rw [hds.value]
    exact_mod_cast habs
  by_cases hneg : v < 0
  · rw [if_pos hneg] at hstr hfuel
    rw [List.length_cons, List.length_map] at hfuel
    have hblank : ¬ (m a = 0x20 ∨ m a = 0x09) := by
      rw [hstr.1]
      decide
    rw [atol_of_sign hblank (if_pos hstr.1) hds.lt_base hstr.2.2 hmax (by omega), hds.value,
      show -1 * ((v.natAbs : Nat) : Int) = v by omega]
    exact signedInt_eq ⟨h₁.le, h₂⟩
  · rw [if_neg hneg] at hstr hfuel
    rw [List.length_map] at hfuel
    -- the first character is a digit
    obtain ⟨d, rest, rfl⟩ := List.exists_cons_of_ne_nil hds.ne_nil
    have hchar : (m a).toNat = 0x30 + d := by rw [hstr.1, toNat_digit (hds.lt_base d List.mem_cons_self)]
    have hother : ∀ c : UInt8, c.toNat < 0x30 → m a ≠ c := by
      rintro c hc rfl
      omega
    have hblank : ¬ (m a = 0x20 ∨ m a = 0x09) := not_or.mpr ⟨hother _ (by decide), hother _ (by decide)⟩
    have hsign : readSign m a = (1, a) := by
      rw [readSign, if_neg (hother _ (by decide)), if_neg (hother _ (by decide))]
    rw [atol_of_sign hblank hsign hds.lt_base hstr hmax hfuel, hds.value,
      show 1 * ((v.natAbs : Nat) : Int) = v by omega]
    exact signedInt_eq ⟨h₁.le, h₂⟩

/-- So does `atoi` if the number is an `int`. -/
theorem atoi_eq {fuel : Nat} (h₁ : -2 ^ (T.wordBits - 1) < v) (h₂ : v < 2 ^ (T.wordBits - 1))
    (hint : FitsSigned 32 v) (htext : IsDecimal v text) (hstr : CStr m a text) (hfuel : text.length < fuel) :
    atoi T fuel m a = .ok v := by
  rw [atoi, atol_eq h₁ h₂ htext hstr hfuel, ok_andThen]
  refine congrArg Except.ok (Int.bmod_eq_of_le ?_ ?_)
  · exact hint.1
  · exact hint.2

/-! ## The round trip -/

/-- Every `long` but `LONG_MIN` is printed by `%d` in its canonical decimal form, of which `atol` returns the
number again without an overflow. Every `unsigned long` is printed by `%u`, `%x` and `%X` in its canonical
representation, and no number has more digits than `tmp` has bytes. -/
theorem atol_vsnprintf (T : Target) :
    (∀ v : Int, -2 ^ (T.wordBits - 1) < v → v < 2 ^ (T.wordBits - 1) →
      ∃ text, IsDecimal v text ∧ PrintsAs T 0x64 (longWord T v) text ∧
        ∀ (m : Mem) (a fuel : Nat), CStr m a text → text.length < fuel → atol T fuel m a = .ok v) ∧
    (∀ n, n < 2 ^ T.wordBits →
      (∃ text, IsNumeralText 10 false n text ∧ PrintsAs T 0x75 n text) ∧
      (∃ text, IsNumeralText 16 false n text ∧ PrintsAs T 0x78 n text) ∧
      ∃ text, IsNumeralText 16 true n text ∧ PrintsAs T 0x58 n text) ∧
    ∀ base, base = 10 ∨ base = 16 → ∀ (upper : Bool) (n : Nat), n < 2 ^ T.wordBits →
      (tmpDigits base upper n).length ≤ 32 := by
  refine ⟨fun v h₁ h₂ => ?_, fun n hn => ⟨?_, ?_, ?_⟩, fun base hbase upper n hn => ?_⟩
  · have htext := isDecimal_signed h₁ h₂
    have habs : v.natAbs < 2 ^ 64 := by
      cases T <;> simp only [Target.wordBits, Nat.reduceSub, Int.reducePow] at h₁ h₂ <;> omega
    have hlen := htext.length_le habs
    refine ⟨_, htext, ?_, fun m a fuel hstr hfuel => atol_eq h₁ h₂ htext hstr hfuel⟩
    refine printsAs_of_conversion htext.zero_notMem (by omega) fun m lo hi ap hap => ?_
    rw [← hap]
    exact .int ap
  · exact printsAs_numeral (by decide) (by decide) hn fun m lo hi ap => .uint ap
  · exact printsAs_numeral (by decide) (by decide) hn fun m lo hi ap => .hex ap
  · exact printsAs_numeral (by decide) (by decide) hn fun m lo hi ap => .upperHex ap
  · exact length_tmpDigits_le (by omega) upper (hn.trans_le (by cases T <;> decide))

/-- -42 is printed to 16 bytes at 0x1000 and read from there. -/
theorem atol_vsnprintf_negative : ∃ text r, IsDecimal (-42) text ∧
    PrintsSafely (fun fuel => vsnprintf .x86 fuel (withFormat [0x25, 0x64]) 0x1000 16 0x2000
      fun _ => 2 ^ 32 - 42) 0x1000 16 text r ∧ atol .x86 16 r.mem 0x1000 = .ok (-42) := by
  obtain ⟨text, htext, hprints, hatol⟩ := (atol_vsnprintf .x86).1 (-42) (by decide) (by decide)
  have hsize : text.length < 16 := by
    obtain ⟨digits, hdigits, rfl⟩ := htext
    rw [hdigits.eq_numeral (by decide)]
    decide
  have hfmt : StrOutside (withFormat [0x25, 0x64]) 0x1000 (0x1000 + 16) 0x2000 [0x25, 0x64] :=
    ⟨⟨rfl, by decide, rfl, by decide, rfl⟩, .inr (by decide)⟩
  obtain ⟨r, hsafe, hstr⟩ := hprints _ 0x1000 16 0x2000 (fun _ => 2 ^ 32 - 42) hfmt (by decide) hsize
  exact ⟨text, r, htext, hsafe, hatol _ _ _ hstr hsize⟩

end Printf

end Aerogel
