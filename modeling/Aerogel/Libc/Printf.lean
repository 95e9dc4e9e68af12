import Aerogel.Foundations.Sink
import Aerogel.Libc.Strings
import Mathlib.Data.Nat.Digits.Lemmas

/-! # `vsnprintf`

`printf.c` reads a format string character by character and emits one text for every directive.
`Output` says what a format yields under the rules of the code, and `vsnprintfLoop_eq` that the
loop feeds the buffer with that text; what happens to the buffer is then a matter of the bounded
sink alone. Addresses are numbers: an output that runs around the address space is longer than an
`int` can say. -/

namespace Aerogel

namespace Printf

/-- `va_list`: the words that the next `va_arg`s find. -/
abbrev VaList := Nat → Nat

/-- What is left after a `va_arg`. -/
def VaList.rest (ap : VaList) : VaList := fun i => ap (i + 1)

/-! ## `printf.c` -/

/-- `emit_str`: everything up to the NUL at the end of the string. -/
def emitStr (s : Sink) : Nat → Nat → Except Halt Sink
  | 0, _ => .error .diverges
  | fuel + 1, p => if s.mem p = 0 then .ok s else emitStr (s.put (s.mem p)) fuel (p + 1)

/-- `digits[i]`, lower-case or upper-case. -/
def digit (upper : Bool) (i : Nat) : UInt8 :=
  if i < 10 then UInt8.ofNat (0x30 + i) else UInt8.ofNat ((if upper then 0x41 else 0x61) + (i - 10))

/-- The loop that fills `tmp`: the digits of `val` from the last one on. -/
def tmpDigits (base : Nat) (upper : Bool) (val : Nat) : List UInt8 :=
  if 0 < val ∧ 1 < base then digit upper (val % base) :: tmpDigits base upper (val / base) else []
termination_by val
decreasing_by
  rename_i h
  exact Nat.div_lt_self h.1 h.2

/-- `emit_uint`. -/
def emitUint (s : Sink) (val base : Nat) (upper : Bool) : Sink :=
  if val = 0 then s.put 0x30 else (tmpDigits base upper val).reverse.foldl Sink.put s

/-- The locals of `vsnprintf`. -/
structure Locals where
  /-- `cur` and `end`, and memory. -/
  out : Sink
  /-- `fmt`. -/
  fmt : Nat
  /-- `ap`. -/
  ap : VaList
  /-- Where the format was read. -/
  reads : List Nat

variable (T : Target)

/-- One directive of the `switch`. -/
def directive (fuel : Nat) (c : UInt8) (out : Sink) (ap : VaList) : Except Halt (Sink × VaList) :=
  let word := ap 0 % 2 ^ T.wordBits
  if c = 0x63 then .ok (out.put (UInt8.ofNat (ap 0)), ap.rest)
  else if c = 0x73 then do
    let out ← emitStr out fuel word
    return (out, ap.rest)
  else if c = 0x64 then
    -- a `long` below 0 is negated
    if 2 ^ (T.wordBits - 1) ≤ word then .ok (emitUint (out.put 0x2D) (2 ^ T.wordBits - word) 10 false, ap.rest)
    else .ok (emitUint out word 10 false, ap.rest)
  else if c = 0x75 then .ok (emitUint out word 10 false, ap.rest)
  else if c = 0x78 then .ok (emitUint out word 16 false, ap.rest)
  else if c = 0x58 then .ok (emitUint out word 16 true, ap.rest)
  else if c = 0x70 then .ok (emitUint ((out.put 0x30).put 0x78) word 16 false, ap.rest)
  else if c = 0x25 then .ok (out.put 0x25, ap)
  else .ok (out.put 0x3F, ap)

/-- The loop of `vsnprintf`. -/
def vsnprintfLoop (strFuel : Nat) : Nat → Locals → Except Halt Locals
  | 0, _ => .error .diverges
  | fuel + 1, v =>
    let c := v.out.mem v.fmt
    let v := { v with reads := v.reads ++ [v.fmt] }
    if c = 0 then .ok v
    else if c ≠ 0x25 then vsnprintfLoop strFuel fuel { v with out := v.out.put c, fmt := v.fmt + 1 }
    else do
      let fmt := v.fmt + 1
      let (out, ap) ← directive T strFuel (v.out.mem fmt) v.out v.ap
      -- `*fmt++`: the directive is passed whatever it is
      vsnprintfLoop strFuel fuel ⟨out, fmt + 1, ap, v.reads ++ [fmt]⟩

/-- What `vsnprintf` leaves behind. -/
structure Printed where
  /-- Memory. -/
  mem : Mem
  /-- The result, an `int`. -/
  ret : Int
  /-- The addresses stored to. -/
  stores : List Nat
  /-- The characters emitted. -/
  taken : List UInt8
  /-- Where the format was read. -/
  reads : List Nat

/-- `vsnprintf`. -/
def vsnprintf (fuel : Nat) (m : Mem) (buf size fmt : Nat) (ap : VaList) : Except Halt Printed := do
  let v ← vsnprintfLoop T fuel fuel ⟨⟨m, buf, buf + size - 1, [], []⟩, fmt, ap, []⟩
  let out := if size > 0 then v.out.store 0 else v.out
  return ⟨out.mem, ((out.cur - buf : Nat) : Int).bmod (2 ^ 32), out.stores, out.taken, v.reads⟩

/-- The body that `kprintf` and `kvprintf` share, with `buf` at `frame`: the pointer is what
`kprint_backend` is called with, if it is set. -/
def printTo (fuel : Nat) (m : Mem) (frame fmt : Nat) (ap : VaList) (backend : Bool) :
    Except Halt (Printed × Option Nat) := do
  let r ← vsnprintf T fuel m frame 1024 fmt ap
  return (r, if backend then some frame else none)

/-- `kprintf`. -/
def kprintf (fuel : Nat) (m : Mem) (frame fmt : Nat) (ap : VaList) (backend : Bool) :
    Except Halt (Printed × Option Nat) := printTo T fuel m frame fmt ap backend

/-- `kvprintf`. -/
def kvprintf (fuel : Nat) (m : Mem) (frame fmt : Nat) (ap : VaList) (backend : Bool) :
    Except Halt (Printed × Option Nat) := printTo T fuel m frame fmt ap backend

/-! ## What a format yields -/

/-- A number in a base, `"0"` for 0. -/
def numeral (base : Nat) (upper : Bool) (val : Nat) : List UInt8 :=
  if val = 0 then [0x30] else (Nat.digits base val).reverse.map (digit upper)

/-- A signed number in decimal. -/
def signed (bits word : Nat) : List UInt8 :=
  if 2 ^ (bits - 1) ≤ word then 0x2D :: numeral 10 false (2 ^ bits - word) else numeral 10 false word

/-- A string that lies outside the addresses from `lo` to `hi`. -/
def StrOutside (m : Mem) (lo hi a : Nat) (s : List UInt8) : Prop :=
  CStr m a s ∧ (a + s.length < lo ∨ hi ≤ a)

/-- What a directive yields, and the arguments that are left. The strings that it reads are
outside the buffer. -/
inductive Conversion (m : Mem) (lo hi : Nat) : UInt8 → VaList → List UInt8 → VaList → Prop
  /-- `%c`. -/
  | char (ap : VaList) : Conversion m lo hi 0x63 ap [UInt8.ofNat (ap 0)] ap.rest
  /-- `%s`. -/
  | str {ap : VaList} {s : List UInt8} : StrOutside m lo hi (ap 0 % 2 ^ T.wordBits) s →
      Conversion m lo hi 0x73 ap s ap.rest
  /-- `%d`. -/
  | int (ap : VaList) : Conversion m lo hi 0x64 ap (signed T.wordBits (ap 0 % 2 ^ T.wordBits)) ap.rest
  /-- `%u`. -/
  | uint (ap : VaList) : Conversion m lo hi 0x75 ap (numeral 10 false (ap 0 % 2 ^ T.wordBits)) ap.rest
  /-- `%x`. -/
  | hex (ap : VaList) : Conversion m lo hi 0x78 ap (numeral 16 false (ap 0 % 2 ^ T.wordBits)) ap.rest
  /-- `%X`. -/
  | upperHex (ap : VaList) : Conversion m lo hi 0x58 ap (numeral 16 true (ap 0 % 2 ^ T.wordBits)) ap.rest
  /-- `%p`. -/
  | pointer (ap : VaList) :
      Conversion m lo hi 0x70 ap ([0x30, 0x78] ++ numeral 16 false (ap 0 % 2 ^ T.wordBits)) ap.rest
  /-- `%%`. -/
  | percent (ap : VaList) : Conversion m lo hi 0x25 ap [0x25] ap
  /-- Any other character. -/
  | other {c : UInt8} (ap : VaList) : c ∉ [0x63, 0x73, 0x64, 0x75, 0x78, 0x58, 0x70, 0x25] →
      Conversion m lo hi c ap [0x3F] ap

/-- The format at `fmt` yields `text` and ends at `stop`: the byte behind a `%` is its directive,
whatever it is. Nothing that is read lies in the buffer, the addresses from `lo` to `hi`. -/
inductive Output (m : Mem) (lo hi : Nat) : Nat → VaList → List UInt8 → Nat → Prop
  /-- The NUL. -/
  | done {fmt : Nat} {ap : VaList} : (fmt < lo ∨ hi ≤ fmt) → m fmt = 0 → Output m lo hi fmt ap [] fmt
  /-- A character. -/
  | char {fmt stop : Nat} {ap : VaList} {text : List UInt8} : (fmt < lo ∨ hi ≤ fmt) → m fmt ≠ 0 →
      m fmt ≠ 0x25 → Output m lo hi (fmt + 1) ap text stop → Output m lo hi fmt ap (m fmt :: text) stop
  /-- A directive. -/
  | directive {fmt stop : Nat} {ap ap' : VaList} {piece text : List UInt8} : (fmt + 1 < lo ∨ hi ≤ fmt) →
      m fmt = 0x25 → Conversion T m lo hi (m (fmt + 1)) ap piece ap' →
      Output m lo hi (fmt + 2) ap' text stop → Output m lo hi fmt ap (piece ++ text) stop

/-! ## The loop feeds the buffer -/

/-- A sink for the addresses from `lo` to `hi` of the memory `m`. -/
structure OnBuffer (m : Mem) (lo hi : Nat) (s : Sink) : Prop where
  /-- It does not go back. -/
  low : lo ≤ s.cur
  /-- It stops in time. -/
  high : s.stop ≤ hi
  /-- The rest of memory is as it was. -/
  outside : ∀ a, a < lo ∨ hi ≤ a → s.mem a = m a

variable {T} {m : Mem} {lo hi : Nat}

/-- A sink stays on its buffer. -/
theorem OnBuffer.feed {s : Sink} (h : OnBuffer m lo hi s) (text : List UInt8) :
    OnBuffer m lo hi (s.feed text) := by
  have hlow := h.low
  have hhigh := h.high
  refine ⟨by rw [Sink.cur_feed]; omega, by rw [Sink.stop_feed]; omega, fun a ha => ?_⟩
  rw [Sink.mem_feed_of_outside _ _ (by omega), h.outside a ha]

theorem OnBuffer.put {s : Sink} (h : OnBuffer m lo hi s) (c : UInt8) : OnBuffer m lo hi (s.put c) :=
  h.feed [c]

/-- `emit_str` emits the string. -/
theorem emitStr_eq {s : Sink} {p : Nat} {str : List UInt8} (hs : OnBuffer m lo hi s)
    (h : StrOutside m lo hi p str) {fuel : Nat} (hfuel : str.length < fuel) :
    emitStr s fuel p = .ok (s.feed str) := by
  obtain ⟨hstr, hout⟩ := h
  induction str generalizing s p fuel with
  | nil =>
      obtain ⟨fuel, rfl⟩ : ∃ k, fuel = k + 1 := ⟨fuel - 1, by omega⟩
      rw [List.length_nil, Nat.add_zero] at hout
      rw [emitStr, hs.outside p hout, if_pos (show m p = 0 from hstr), Sink.feed_nil]
  | cons c str ih =>
      obtain ⟨fuel, rfl⟩ : ∃ k, fuel = k + 1 := ⟨fuel - 1, by omega⟩
      rw [List.length_cons] at hfuel hout
      rw [emitStr, hs.outside p (by omega), hstr.1, if_neg hstr.2.1, Sink.feed_cons]
      exact ih (hs.put c) (by omega) hstr.2.2 (by omega)

/-- `tmp` holds the digits. -/
theorem tmpDigits_eq {base : Nat} (hbase : 1 < base) (upper : Bool) (val : Nat) :
    tmpDigits base upper val = (Nat.digits base val).map (digit upper) := by
  induction val using Nat.strong_induction_on with
  | _ val ih =>
      rw [tmpDigits]
      split_ifs with h
      · rw [ih _ (Nat.div_lt_self h.1 hbase), Nat.digits_def' hbase h.1, List.map_cons]
      · have hval : val = 0 := by omega
        rw [hval, Nat.digits_zero, List.map_nil]

/-- `tmp` has room for every number: at most 32 digits for 64 bits, in base 10 and in base 16. -/
theorem length_tmpDigits_le {base val : Nat} (hbase : 10 ≤ base) (upper : Bool) (hval : val < 2 ^ 64) :
    (tmpDigits base upper val).length ≤ 32 := by
  rw [tmpDigits_eq (by omega), List.length_map, Nat.digits_length_le_iff (by omega)]
  calc val < 2 ^ 64 := hval
    _ ≤ 10 ^ 32 := by decide
    _ ≤ base ^ 32 := Nat.pow_le_pow_left hbase 32

/-- `emit_uint` emits the number. -/
theorem emitUint_eq {base : Nat} (hbase : 1 < base) (s : Sink) (val : Nat) (upper : Bool) :
    emitUint s val base upper = s.feed (numeral base upper val) := by
  rw [emitUint, numeral]
  split_ifs with h
  · rfl
  · rw [tmpDigits_eq hbase, List.map_reverse]
    rfl

/-- Every directive emits what it yields. -/
theorem directive_eq {c : UInt8} {ap ap' : VaList} {piece : List UInt8}
    (h : Conversion T m lo hi c ap piece ap') : ∃ N, ∀ fuel, N ≤ fuel → ∀ s, OnBuffer m lo hi s →
      directive T fuel c s ap = .ok (s.feed piece, ap') := by
  cases h with
  | char => exact ⟨0, fun fuel _ s _ => rfl⟩
  | str hstr =>
      refine ⟨piece.length + 1, fun fuel hfuel s hs => ?_⟩
      rw [directive, if_neg (by decide), if_pos rfl, emitStr_eq hs hstr hfuel]
      rfl
  | int =>
      refine ⟨0, fun fuel _ s _ => ?_⟩
      rw [directive, if_neg (by decide), if_neg (by decide), if_pos rfl, signed]
      split_ifs
      · rw [emitUint_eq (by decide), Sink.feed_cons]
      · rw [emitUint_eq (by decide)]
  | uint =>
      refine ⟨0, fun fuel _ s _ => ?_⟩
      change Except.ok (emitUint s _ 10 false, ap.rest) = _
      rw [emitUint_eq (by decide)]
  | hex =>
      refine ⟨0, fun fuel _ s _ => ?_⟩
      change Except.ok (emitUint s _ 16 false, ap.rest) = _
      rw [emitUint_eq (by decide)]
  | upperHex =>
      refine ⟨0, fun fuel _ s _ => ?_⟩
      change Except.ok (emitUint s _ 16 true, ap.rest) = _
      rw [emitUint_eq (by decide)]
  | pointer =>
      refine ⟨0, fun fuel _ s _ => ?_⟩
      change Except.ok (emitUint ((s.put 0x30).put 0x78) _ 16 false, ap.rest) = _
      rw [emitUint_eq (by decide), Sink.feed_append]
      rfl
  | percent => exact ⟨0, fun fuel _ s _ => rfl⟩
  | other ap hc =>
      refine ⟨0, fun fuel _ s _ => ?_⟩
      simp only [List.mem_cons, List.not_mem_nil, or_false, not_or] at hc
      rw [directive, if_neg hc.1, if_neg hc.2.1, if_neg hc.2.2.1, if_neg hc.2.2.2.1, if_neg hc.2.2.2.2.1,
        if_neg hc.2.2.2.2.2.1, if_neg hc.2.2.2.2.2.2.1, if_neg hc.2.2.2.2.2.2.2]
      rfl

/-- A format ends behind its beginning. -/
theorem Output.le {fmt stop : Nat} {ap : VaList} {text : List UInt8}
    (h : Output T m lo hi fmt ap text stop) : fmt ≤ stop := by
  induction h with
  | done _ _ => exact le_rfl
  | char _ _ _ _ ih => omega
  | directive _ _ _ _ ih => omega

/-- The loop ends at a NUL. -/
theorem loop_nul (k fuel : Nat) {s : Sink} {fmt : Nat} (ap : VaList) (reads : List Nat)
    (h : s.mem fmt = 0) :
    vsnprintfLoop T k (fuel + 1) ⟨s, fmt, ap, reads⟩ = .ok ⟨s, fmt, ap, reads ++ [fmt]⟩ := by
  rw [vsnprintfLoop]
  exact if_pos h

/-- It emits a character. -/
theorem loop_char (k fuel : Nat) {s : Sink} {fmt : Nat} (ap : VaList) (reads : List Nat)
    (hnul : s.mem fmt ≠ 0)
    (hpct : s.mem fmt ≠ 0x25) : vsnprintfLoop T k (fuel + 1) ⟨s, fmt, ap, reads⟩ =
      vsnprintfLoop T k fuel ⟨s.put (s.mem fmt), fmt + 1, ap, reads ++ [fmt]⟩ := by
  rw [vsnprintfLoop]
  exact (if_neg hnul).trans (if_pos hpct)

/-- It carries out a directive. -/
theorem loop_directive (k fuel : Nat) {s : Sink} {fmt : Nat} (ap : VaList) (reads : List Nat)
    (hpct : s.mem fmt = 0x25) : vsnprintfLoop T k (fuel + 1) ⟨s, fmt, ap, reads⟩ =
      directive T k (s.mem (fmt + 1)) s ap >>= fun p =>
        vsnprintfLoop T k fuel ⟨p.1, fmt + 2, p.2, reads ++ [fmt] ++ [fmt + 1]⟩ := by
  rw [vsnprintfLoop]
  exact (if_neg (by rw [hpct]; decide)).trans (if_neg (not_not.mpr hpct))

/-- A format is read up to its end, and the buffer is fed with what it yields. -/
theorem vsnprintfLoop_eq {fmt stop : Nat} {ap : VaList} {text : List UInt8}
    (h : Output T m lo hi fmt ap text stop) : ∃ N ap' reads', (∀ a ∈ reads', fmt ≤ a ∧ a ≤ stop) ∧
      ∀ strFuel fuel, N ≤ strFuel → N ≤ fuel → ∀ s reads, OnBuffer m lo hi s →
        vsnprintfLoop T strFuel fuel ⟨s, fmt, ap, reads⟩ =
          .ok ⟨s.feed text, stop, ap', reads ++ reads'⟩ := by
  induction h with
  | @done fmt ap hout hnul =>
      refine ⟨1, ap, [fmt], fun a ha => ?_, fun strFuel fuel _ hfuel s reads hs => ?_⟩
      · rw [List.mem_singleton.mp ha]
        exact ⟨le_rfl, le_rfl⟩
      · obtain ⟨fuel, rfl⟩ : ∃ k, fuel = k + 1 := ⟨fuel - 1, by omega⟩
        rw [loop_nul _ _ _ _ (by rw [hs.outside fmt hout, hnul]), Sink.feed_nil]
  | @char fmt stop ap text hout hnul hpct hrest ih =>
      obtain ⟨N, ap', reads', hreads, hloop⟩ := ih
      have hle := hrest.le
      refine ⟨N + 1, ap', fmt :: reads', fun a ha => ?_, fun strFuel fuel hstr hfuel s reads hs => ?_⟩
      · rcases List.mem_cons.mp ha with rfl | ha
        · omega
        · have := hreads a ha
          omega
      · obtain ⟨fuel, rfl⟩ : ∃ k, fuel = k + 1 := ⟨fuel - 1, by omega⟩
        have hmem := hs.outside fmt hout
        rw [loop_char _ _ _ _ (by rw [hmem]; exact hnul) (by rw [hmem]; exact hpct),
          hloop strFuel fuel (by omega) (by omega) _ _ (hs.put _), hmem, Sink.feed_cons,
          List.append_assoc, List.singleton_append]
  | @directive fmt stop ap ap₁ piece text hout hpct hconv hrest ih =>
      obtain ⟨N, ap', reads', hreads, hloop⟩ := ih
      obtain ⟨M, hdirective⟩ := directive_eq hconv
      have hle := hrest.le
      refine ⟨max M N + 1, ap', fmt :: (fmt + 1) :: reads', fun a ha => ?_,
        fun strFuel fuel hstr hfuel s reads hs => ?_⟩
      · rcases List.mem_cons.mp ha with rfl | ha
        · omega
        · rcases List.mem_cons.mp ha with rfl | ha
          · omega
          · have := hreads a ha
            omega
      · obtain ⟨fuel, rfl⟩ : ∃ k, fuel = k + 1 := ⟨fuel - 1, by omega⟩
        have hmem := hs.outside fmt (by omega)
        rw [loop_directive _ _ _ _ (by rw [hmem]; exact hpct), hs.outside (fmt + 1) (by omega),
          hdirective strFuel (by omega) s hs]
        change vsnprintfLoop T strFuel fuel ⟨s.feed piece, fmt + 2, ap₁, _⟩ = _
        rw [hloop strFuel fuel (by omega) (by omega) _ _ (hs.feed _), Sink.feed_append, List.append_assoc,
          List.append_assoc]
        rfl

end Printf

end Aerogel
