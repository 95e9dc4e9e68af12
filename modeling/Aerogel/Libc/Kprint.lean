import Aerogel.Libc.PrintfSafety

/-! # What `kprintf` prints

`render` is what a format string makes of its arguments, as a function on lists: the directives are those of
`vsnprintf`, with no field widths, so that the `2` of `%02x` is printed. `kprint` is `kprintf` together with a
backend that prints the string it is called with; `kprint_eq` says that the backend gets the rendered text. -/

namespace Aerogel

namespace Printf

/-! ## Rendering -/

/-- An argument of `kprintf`. -/
inductive Arg
  /-- A number. -/
  | word (n : Nat)
  /-- A string. -/
  | str (s : List UInt8)

/-- What a directive makes of the arguments, and the arguments that are left; `none` if it does not fit them. -/
def convert (T : Target) (c : UInt8) (args : List Arg) : Option (List UInt8 × List Arg) :=
  if c = 0x25 then some ([0x25], args)
  else if c ∉ [0x63, 0x73, 0x64, 0x75, 0x78, 0x58, 0x70] then some ([0x3F], args)
  else
    match args with
    | [] => none
    | .str s :: args => if c = 0x73 then some (s, args) else none
    | .word n :: args =>
      if c = 0x63 then some ([UInt8.ofNat n], args)
      else if c = 0x64 then some (signed T.wordBits (n % 2 ^ T.wordBits), args)
      else if c = 0x75 then some (numeral 10 false (n % 2 ^ T.wordBits), args)
      else if c = 0x78 then some (numeral 16 false (n % 2 ^ T.wordBits), args)
      else if c = 0x58 then some (numeral 16 true (n % 2 ^ T.wordBits), args)
      else if c = 0x70 then some ([0x30, 0x78] ++ numeral 16 false (n % 2 ^ T.wordBits), args)
      else none

/-- What a format makes of its arguments; `none` if they do not fit, or if it ends with a `%`. -/
def render (T : Target) : List UInt8 → List Arg → Option (List UInt8)
  | [], _ => some []
  | [c], _ => if c = 0x25 then none else some [c]
  | c :: d :: s, args =>
    if c = 0x25 then (convert T d args).bind fun p => (render T s p.2).map (p.1 ++ ·)
    else (render T (d :: s) args).map (c :: ·)

/-- The characters of a literal. -/
def ascii (s : String) : List UInt8 := s.toList.map fun c => UInt8.ofNat c.toNat

variable {T : Target} {m m' : Mem} {lo hi : Nat} {ap : VaList} {s text : List UInt8} {args : List Arg}

/-- Characters in their places, with a NUL behind them. -/
theorem cStr_of_getD {a : Nat} (hnul : 0 ∉ s) (hchars : ∀ i < s.length, m (a + i) = s.getD i 0)
    (hend : m (a + s.length) = 0) : CStr m a s := by
  induction s generalizing a with
  | nil => exact hend
  | cons c s ih =>
      rw [List.mem_cons, not_or] at hnul
      rw [List.length_cons] at hchars hend
      refine ⟨hchars 0 (Nat.succ_pos _), Ne.symm hnul.1, ih hnul.2 (fun i hi => ?_) ?_⟩
      · have hi' := hchars (i + 1) (by omega)
        rwa [List.getD_cons_succ, ← Nat.add_assoc, Nat.add_right_comm] at hi'
      · rwa [← Nat.add_assoc, Nat.add_right_comm] at hend

/-- The arguments stand where `va_arg` finds them, and the strings lie outside the buffer. -/
def Passed (T : Target) (m : Mem) (lo hi : Nat) (ap : VaList) : List Arg → Prop
  | [] => True
  | .word n :: args => ap 0 = n ∧ Passed T m lo hi ap.rest args
  | .str s :: args => StrOutside m lo hi (ap 0 % 2 ^ T.wordBits) s ∧ Passed T m lo hi ap.rest args

/-- The directives do what `convert` says. -/
theorem conversion_of_convert {c : UInt8} {piece : List UInt8} {rest : List Arg}
    (h : convert T c args = some (piece, rest)) (hargs : Passed T m lo hi ap args) :
    ∃ ap', Conversion T m lo hi c ap piece ap' ∧ Passed T m lo hi ap' rest := by
  unfold convert at h
  by_cases hpct : c = 0x25
  · rw [if_pos hpct] at h
    obtain ⟨rfl, rfl⟩ := Prod.mk.inj (Option.some.inj h)
    rw [hpct]
    exact ⟨ap, .percent ap, hargs⟩
  rw [if_neg hpct] at h
  by_cases hother : c ∉ [0x63, 0x73, 0x64, 0x75, 0x78, 0x58, 0x70]
  · rw [if_pos hother] at h
    obtain ⟨rfl, rfl⟩ := Prod.mk.inj (Option.some.inj h)
    refine ⟨ap, .other ap fun hmem => ?_, hargs⟩
    have hlast : c ∈ [0x63, 0x73, 0x64, 0x75, 0x78, 0x58, 0x70] ++ [(0x25 : UInt8)] := hmem
    rcases List.mem_append.mp hlast with hmem | hmem
    · exact hother hmem
    · exact hpct (List.mem_singleton.mp hmem)
  rw [if_neg hother] at h
  -- the others take an argument
  cases args with
  | nil => exact nomatch h
  | cons a args =>
      cases a with
      | str s =>
          obtain ⟨hstr, hrest⟩ := hargs
          dsimp only at h
          split_ifs at h with hc
          obtain ⟨rfl, rfl⟩ := Prod.mk.inj (Option.some.inj h)
          rw [hc]
          exact ⟨ap.rest, .str hstr, hrest⟩
      | word n =>
          obtain ⟨rfl, hrest⟩ := hargs
          dsimp only at h
          split_ifs at h with hc hc hc hc hc hc
          all_goals
            obtain ⟨rfl, rfl⟩ := Prod.mk.inj (Option.some.inj h)
            rw [hc]
          · exact ⟨ap.rest, .char ap, hrest⟩
          · exact ⟨ap.rest, .int ap, hrest⟩
          · exact ⟨ap.rest, .uint ap, hrest⟩
          · exact ⟨ap.rest, .hex ap, hrest⟩
          · exact ⟨ap.rest, .upperHex ap, hrest⟩
          · exact ⟨ap.rest, .pointer ap, hrest⟩

/-- A format that renders yields the rendered text. -/
theorem rendered_of_render (h : render T s args = some text) (hargs : Passed T m lo hi ap args) :
    Rendered T m lo hi s ap text ∧ complete s = true := by
  fun_induction render T s args generalizing ap text with
  | case1 args =>
      rw [← Option.some.inj h]
      exact ⟨.nil ap, rfl⟩
  | case2 => exact nomatch h
  | case3 c args hc =>
      -- the last character
      rw [← Option.some.inj h]
      exact ⟨.char hc (.nil ap), by rwa [complete, bne_iff_ne]⟩
  | case4 args d s ih =>
      -- a directive and the rest of the format
      obtain ⟨⟨piece, rest⟩, hconvert, hrest⟩ := Option.bind_eq_some_iff.mp h
      obtain ⟨text', hrender, rfl⟩ := Option.map_eq_some_iff.mp hrest
      obtain ⟨ap', hconv, hargs'⟩ := conversion_of_convert hconvert hargs
      obtain ⟨hrendered, hcomplete⟩ := ih (piece, rest) hrender hargs'
      exact ⟨.directive hconv hrendered, by rwa [complete, if_pos rfl]⟩
  | case5 c d s args hc ih =>
      obtain ⟨text', hrender, rfl⟩ := Option.map_eq_some_iff.mp h
      obtain ⟨hrendered, hcomplete⟩ := ih hrender hargs
      exact ⟨.char hc hrendered, by rwa [complete, if_neg hc]⟩

/-! ## Printing -/

/-- A call of `kprintf` whose locals are at `frame`, with a backend that prints the string it is given: memory
afterwards, and the text that was printed. -/
def kprint (T : Target) (fuel : Nat) (m : Mem) (frame fmt : Nat) (ap : VaList) :
    Except Halt (Mem × List UInt8) := do
  let r ← kprintf T fuel m frame fmt ap true
  match r.2 with
  | none => return (r.1.mem, [])
  | some buf => do
    let text ← readStr r.1.mem fuel buf
    return (r.1.mem, text)

/-- A text of up to 1023 characters is printed, and memory outside the buffer is as it was. -/
theorem kprint_eq {frame fmt : Nat} (hfmt : CStr m fmt s) (hout : fmt + s.length < frame ∨ frame + 1024 ≤ fmt)
    (hrender : render T s args = some text) (hargs : Passed T m frame (frame + 1024) ap args)
    (hlen : text.length < 1024) (hnul : 0 ∉ text) :
    ∃ m', Terminates (fun fuel => kprint T fuel m frame fmt ap) (m', text) ∧
      ∀ x, x < frame ∨ frame + 1024 ≤ x → m' x = m x := by
  obtain ⟨hrendered, hcomplete⟩ := rendered_of_render hrender hargs
  have houtput := hrendered.output hcomplete hfmt hout
  obtain ⟨reads, -, N, hrun⟩ := vsnprintf_eq houtput
  have hreturns : Terminates (fun fuel => vsnprintf T fuel m frame 1024 fmt ap) (printed m frame 1024 text reads) :=
    ⟨N, hrun⟩
  have hsafe := printsSafely_of_fits hreturns hlen (by omega)
  -- the text is not cut, and has its NUL behind it
  have hmin : min text.length (1024 - 1) = text.length := by omega
  have hstr : CStr (printed m frame 1024 text reads).mem frame text := by
    refine cStr_of_getD hnul (fun i hi => ?_) ?_
    · exact hsafe.chars i (by rwa [hmin])
    · have hend := hsafe.nul
      rwa [hmin] at hend
  refine ⟨(printed m frame 1024 text reads).mem, ⟨max N (text.length + 1), fun fuel hfuel => ?_⟩, fun x hx => ?_⟩
  · change kprint T fuel m frame fmt ap = _
    rw [kprint, kprintf, printTo, show vsnprintf T fuel m frame 1024 fmt ap = _ from
      hrun fuel ((le_max_left ..).trans hfuel)]
    change (readStr _ fuel frame >>= _) = _
    rw [hstr.readStr_eq (by omega)]
    rfl
  · rw [printed_of_pos (by decide)]
    dsimp only
    rw [Function.update_of_ne (by omega)]
    refine Sink.mem_feed_of_outside _ _ ?_
    dsimp only
    omega

end Printf

end Aerogel
