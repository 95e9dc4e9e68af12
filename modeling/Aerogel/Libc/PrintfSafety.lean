import Aerogel.Libc.Printf

/-! # What `vsnprintf` writes and what it reads

The buffer gets as many characters as fit, but the NUL goes to the cursor, which may be behind the
buffer: the stores are inside if and only if the whole output fits (`vsnprintf_inBounds_iff`). The
format is read up to its NUL unless it ends with a `%`, which takes the NUL for its directive
(`vsnprintf_readsFormat_iff`). -/

namespace Aerogel

namespace Printf

variable {T : Target} {m : Mem} {buf size fmt stop : Nat} {ap : VaList} {full : List UInt8}

/-- With enough fuel, a call returns `r`. -/
def Terminates {α : Type} (run : Nat → Except Halt α) (r : α) : Prop := ∃ N, ∀ fuel, N ≤ fuel →
    run fuel = .ok r

/-- A call has one result. -/
theorem Terminates.unique {α : Type} {run : Nat → Except Halt α} {r r' : α} (h : Terminates run r)
    (h' : Terminates run r') : r = r' := by
  obtain ⟨N, hN⟩ := h
  obtain ⟨M, hM⟩ := h'
  have heq := (hN (max N M) (le_max_left N M)).symm.trans (hM (max N M) (le_max_right N M))
  exact Except.ok.inj heq

/-! ## The buffer -/

/-- The call prints safely when its full output is `full`: every store is inside the buffer, which
then holds a NUL behind the characters that fit, and the result is the full length. -/
structure PrintsSafely (run : Nat → Except Halt Printed) (buf size : Nat) (full : List UInt8)
    (r : Printed) :
    Prop where
  /-- It returns. -/
  returns : Terminates run r
  /-- Stores. -/
  inBounds : ∀ a ∈ r.stores, buf ≤ a ∧ a < buf + size
  /-- The characters. -/
  chars : ∀ i < min full.length (size - 1), r.mem (buf + i) = full.getD i 0
  /-- The terminator. -/
  nul : r.mem (buf + min full.length (size - 1)) = 0
  /-- The result. -/
  ret : r.ret = full.length

/-- What a call with this full output leaves behind, except for where the format was read. -/
def printed (m : Mem) (buf size : Nat) (full : List UInt8) (reads : List Nat) : Printed :=
  let out := (⟨m, buf, buf + size - 1, [], []⟩ : Sink).feed full
  let out := if size > 0 then out.store 0 else out
  ⟨out.mem, (full.length : Int).bmod (2 ^ 32), out.stores, full, reads⟩

theorem ret_printed (m : Mem) (buf size : Nat) (full : List UInt8) (reads : List Nat) :
    (printed m buf size full reads).ret = (full.length : Int).bmod (2 ^ 32) := by
  rw [printed]

/-- A call emits the full output and then stores the NUL at the cursor. -/
theorem vsnprintf_eq (h : Output T m buf (buf + size) fmt ap full stop) :
    ∃ reads, (∀ a ∈ reads, fmt ≤ a ∧ a ≤ stop) ∧
      Terminates (fun fuel => vsnprintf T fuel m buf size fmt ap) (printed m buf size full reads) := by
  obtain ⟨N, ap', reads, hreads, hloop⟩ := vsnprintfLoop_eq h
  refine ⟨reads, hreads, N, fun fuel hfuel => ?_⟩
  have hs : OnBuffer m buf (buf + size) ⟨m, buf, buf + size - 1, [], []⟩ :=
    ⟨le_rfl, Nat.sub_le _ _, fun _ _ => rfl⟩
  have hcur : ((⟨m, buf, buf + size - 1, [], []⟩ : Sink).feed full).cur - buf = full.length := by
    rw [Sink.cur_feed]
    exact Nat.add_sub_cancel_left buf _
  have htaken : ((⟨m, buf, buf + size - 1, [], []⟩ : Sink).feed full).taken = full := by
    rw [Sink.taken_feed, List.nil_append]
  change vsnprintf T fuel m buf size fmt ap = _
  rw [vsnprintf, hloop fuel fuel hfuel hfuel _ _ hs]
  change Except.ok _ = _
  dsimp only [printed]
  rw [List.nil_append]
  -- the store moves nothing but memory
  split_ifs
  · rw [Sink.store, hcur, htaken]
  · rw [hcur, htaken]

/-- The sink when the NUL is stored. -/
theorem printed_of_pos (hsize : 0 < size) (m : Mem) (buf : Nat) (full : List UInt8) (reads : List Nat) :
    printed m buf size full reads =
      let out := ((⟨m, buf, buf + size - 1, [], []⟩ : Sink).feed full)
      ⟨Function.update out.mem (buf + full.length) 0, (full.length : Int).bmod (2 ^ 32),
        out.stores ++ [buf + full.length], full, reads⟩ := by
  have hcur := Sink.cur_feed ⟨m, buf, buf + size - 1, [], []⟩ full
  dsimp only at hcur
  rw [printed]
  dsimp only
  rw [if_pos hsize, Sink.store, hcur]

/-- A text that fits is stored with a NUL behind it. -/
theorem printsSafely_of_fits {run : Nat → Except Halt Printed} {reads : List Nat}
    (hrun : Terminates run (printed m buf size full reads)) (hfits : full.length < size)
    (hint : full.length < 2 ^ 31) : PrintsSafely run buf size full (printed m buf size full reads) := by
  have hmin : min full.length (size - 1) = full.length := by omega
  have hsize : 0 < size := by omega
  refine ⟨hrun, fun a ha => ?_, fun i hi => ?_, ?_, ?_⟩
  · -- the characters, and the NUL
    rw [printed_of_pos hsize, List.mem_append, List.mem_singleton] at ha
    rcases ha with ha | rfl
    · rcases Sink.mem_stores_feed _ _ ha with h | h
      · exact absurd h List.not_mem_nil
      · exact ⟨h.1, lt_of_lt_of_le h.2 (Nat.sub_le _ _)⟩
    · exact ⟨Nat.le_add_right _ _, Nat.add_lt_add_left hfits buf⟩
  · rw [hmin] at hi
    rw [printed_of_pos hsize]
    dsimp only
    rw [Function.update_of_ne (by omega)]
    exact Sink.mem_feed ⟨m, buf, buf + size - 1, [], []⟩ full hi (by change buf + i < buf + size - 1; omega)
  · rw [hmin, printed_of_pos hsize]
    exact Function.update_self ..
  · rw [ret_printed]
    apply Int.bmod_eq_of_le <;> omega

/-- Nothing else is safe: the NUL of a longer text is stored behind the buffer. -/
theorem PrintsSafely.fits {run : Nat → Except Halt Printed} {reads : List Nat} {r : Printed}
    (hsize : 0 < size)
    (h : PrintsSafely run buf size full r) (hrun : Terminates run (printed m buf size full reads)) :
    full.length < size ∧ full.length < 2 ^ 31 := by
  obtain rfl := hrun.unique h.returns
  constructor
  · have hnul : buf + full.length ∈ (printed m buf size full reads).stores := by
      rw [printed_of_pos hsize]
      exact List.mem_append_right _ (List.mem_singleton.mpr rfl)
    have := (h.inBounds _ hnul).2
    omega
  · have hret := h.ret
    have hlt := @Int.bmod_lt full.length (2 ^ 32) (Nat.two_pow_pos 32)
    rw [ret_printed] at hret
    omega

/-- What `kprintf` and `kvprintf` do is what `vsnprintf` does with a buffer of 1024 bytes. -/
theorem terminates_printTo {backend : Bool} {r : Printed}
    (h : Terminates (fun fuel => vsnprintf T fuel m buf 1024 fmt ap) r) :
    Terminates (fun fuel => (printTo T fuel m buf fmt ap backend).map Prod.fst) r := by
  obtain ⟨N, hN⟩ := h
  refine ⟨N, fun fuel hfuel => ?_⟩
  change (printTo T fuel m buf fmt ap backend).map Prod.fst = _
  rw [printTo, show vsnprintf T fuel m buf 1024 fmt ap = _ from hN fuel hfuel]
  rfl

/-- `vsnprintf` prints safely if and only if the whole output and its NUL fit the buffer, and the
length an `int`; `kprintf` and `kvprintf` if and only if the output has fewer than 1024
characters. -/
theorem vsnprintf_inBounds_iff (T : Target) {m : Mem} {buf size fmt stop : Nat} {ap : VaList}
    {full : List UInt8} (hsize : 0 < size) (hout : Output T m buf (buf + size) fmt ap full stop) :
    ((∃ r, PrintsSafely (fun fuel => vsnprintf T fuel m buf size fmt ap) buf size full r) ↔
      full.length < size ∧ full.length < 2 ^ 31) ∧
    ∀ frame stop' backend, Output T m frame (frame + 1024) fmt ap full stop' →
      ((∃ r, PrintsSafely (fun fuel => (kprintf T fuel m frame fmt ap backend).map Prod.fst) frame 1024 full r) ↔
        full.length < 1024) ∧
      ((∃ r, PrintsSafely (fun fuel => (kvprintf T fuel m frame fmt ap backend).map Prod.fst) frame 1024 full r) ↔
        full.length < 1024) := by
  obtain ⟨reads, -, hrun⟩ := vsnprintf_eq hout
  refine ⟨⟨fun ⟨r, hr⟩ => hr.fits hsize hrun, fun h => ⟨_, printsSafely_of_fits hrun h.1 h.2⟩⟩, ?_⟩
  intro frame stop' backend hout'
  obtain ⟨reads', -, hrun'⟩ := vsnprintf_eq hout'
  have hboth := @terminates_printTo T m frame fmt ap backend _ hrun'
  have hiff : (∃ r, PrintsSafely (fun fuel => (printTo T fuel m frame fmt ap backend).map Prod.fst) frame 1024
      full r) ↔ full.length < 1024 :=
    ⟨fun ⟨r, hr⟩ => (hr.fits (by decide) hboth).1, fun h => ⟨_, printsSafely_of_fits hboth h (by omega)⟩⟩
  exact ⟨hiff, hiff⟩

/-- Memory with the characters `s` at 0x2000. -/
def withFormat (s : List UInt8) : Mem := fun a => if 0x2000 ≤ a then s.getD (a - 0x2000) 0 else 0

/-- `"%u"` for 7, in a buffer of four bytes and in those of `kprintf` and `kvprintf`. -/
theorem vsnprintf_inBounds_iff_number :
    (∃ r, PrintsSafely (fun fuel => vsnprintf .x86 fuel (withFormat [0x25, 0x75]) 0x1000 4 0x2000 fun _ => 7)
      0x1000 4 [0x37] r) ∧
    ∃ r, PrintsSafely (fun fuel => (kprintf .x86 fuel (withFormat [0x25, 0x75]) 0x1000 0x2000 (fun _ => 7)
      true).map Prod.fst) 0x1000 1024 [0x37] r := by
  have hseven : numeral 10 false (7 % 2 ^ Target.x86.wordBits) ++ [] = [0x37] := by decide
  have hout : ∀ hi ≤ 0x2000, Output .x86 (withFormat [0x25, 0x75]) 0x1000 hi 0x2000 (fun _ => 7) [0x37] 0x2002 := by
    intro hi hhi
    rw [← hseven]
    exact .directive (.inr hhi) rfl (.uint _) (.done (.inr (by omega)) rfl)
  have h := vsnprintf_inBounds_iff .x86 (by decide) (hout (0x1000 + 4) (by decide))
  exact ⟨h.1.mpr (by decide), (h.2 0x1000 0x2002 true (hout _ (by decide))).1.mpr (by decide)⟩

/-- `"abcd"` does not fit a buffer of four bytes: the NUL is stored behind it. -/
theorem fourChars_not_printsSafely :
    Output .x86_64 (withFormat [0x61, 0x62, 0x63, 0x64]) 0x1000 (0x1000 + 4) 0x2000 (fun _ => 0)
      [0x61, 0x62, 0x63, 0x64] 0x2004 ∧
    ¬ ∃ r, PrintsSafely (fun fuel =>
      vsnprintf .x86_64 fuel (withFormat [0x61, 0x62, 0x63, 0x64]) 0x1000 4 0x2000 fun _ => 0) 0x1000 4
      [0x61, 0x62, 0x63, 0x64] r := by
  have hout : Output .x86_64 (withFormat [0x61, 0x62, 0x63, 0x64]) 0x1000 (0x1000 + 4) 0x2000 (fun _ => 0)
      [0x61, 0x62, 0x63, 0x64] 0x2004 :=
    .char (by decide) (by decide) (by decide) (.char (by decide) (by decide) (by decide)
      (.char (by decide) (by decide) (by decide) (.char (by decide) (by decide) (by decide)
        (.done (by decide) rfl))))
  refine ⟨hout, ?_⟩
  rintro ⟨r, hr⟩
  obtain ⟨reads, -, hrun⟩ := vsnprintf_eq hout
  exact absurd (hr.fits (by decide) hrun).1 (by decide)

/-! ## The format -/

/-- Every `%` in the format is followed by the character of its directive. -/
def complete : List UInt8 → Bool
  | [] => true
  | [c] => c != 0x25
  | c :: d :: s => if c = 0x25 then complete s else complete (d :: s)

/-- What a format should yield: one result for every directive, a `%` at the end included, and
every other character as it is. -/
inductive Rendered (T : Target) (m : Mem) (lo hi : Nat) : List UInt8 → VaList → List UInt8 → Prop
  /-- The end. -/
  | nil (ap : VaList) : Rendered T m lo hi [] ap []
  /-- A character. -/
  | char {c : UInt8} {s : List UInt8} {ap : VaList} {text : List UInt8} : c ≠ 0x25 →
      Rendered T m lo hi s ap text → Rendered T m lo hi (c :: s) ap (c :: text)
  /-- A directive. -/
  | directive {c : UInt8} {s : List UInt8} {ap ap' : VaList} {piece text : List UInt8} :
      Conversion T m lo hi c ap piece ap' → Rendered T m lo hi s ap' text →
      Rendered T m lo hi (0x25 :: c :: s) ap (piece ++ text)
  /-- A `%` at the end counts as an unknown directive. -/
  | incomplete (ap : VaList) : Rendered T m lo hi [0x25] ap [0x3F]

/-- The call reads the format, `len` characters at `fmt`, up to its NUL and no further, and emits
`text`. -/
structure ReadsFormat (run : Nat → Except Halt Printed) (fmt len : Nat) (text : List UInt8)
    (r : Printed) :
    Prop where
  /-- It returns. -/
  returns : Terminates run r
  /-- It stays inside the format. -/
  inside : ∀ a ∈ r.reads, fmt ≤ a ∧ a ≤ fmt + len
  /-- What it emits. -/
  taken : r.taken = text

variable {lo hi : Nat} {s text : List UInt8}

/-- A format that is complete yields what it should. -/
theorem Rendered.output (h : Rendered T m lo hi s ap text) (hcomplete : complete s = true)
    (hfmt : CStr m fmt s)
    (hout : fmt + s.length < lo ∨ hi ≤ fmt) : Output T m lo hi fmt ap text (fmt + s.length) := by
  induction h generalizing fmt with
  | nil ap => exact .done hout hfmt
  | @char c s ap text hc _ ih =>
      have hrest : complete s = true := by
        cases s with
        | nil => rfl
        | cons d s => rwa [complete, if_neg hc] at hcomplete
      rw [List.length_cons] at hout
      have hnul : m fmt ≠ 0 := hfmt.head_ne_zero (List.cons_ne_nil _ _)
      have hind := ih hrest hfmt.2.2 (by omega)
      rw [List.length_cons, show fmt + (s.length + 1) = fmt + 1 + s.length by omega]
      rw [← hfmt.1]
      exact .char (by omega) hnul (by rw [hfmt.1]; exact hc) hind
  | @directive c s ap ap' piece text hconv _ ih =>
      have hrest : complete s = true := by rwa [complete, if_pos rfl] at hcomplete
      rw [List.length_cons, List.length_cons] at hout
      have hind := ih hrest hfmt.2.2.2.2 (by omega)
      rw [List.length_cons, List.length_cons,
        show fmt + (s.length + 1 + 1) = fmt + 1 + 1 + s.length by omega]
      exact .directive (by omega) hfmt.1 (by rw [hfmt.2.2.1]; exact hconv) hind
  | incomplete ap => exact absurd hcomplete (by decide)

/-- Where the loop reads the format stays on record. -/
theorem mem_reads {k fuel : Nat} {v v' : Locals} (h : vsnprintfLoop T k fuel v = .ok v') :
    v.fmt ∈ v'.reads ∧ ∀ a ∈ v.reads, a ∈ v'.reads := by
  induction fuel generalizing v with
  | zero => cases h
  | succ fuel ih =>
      obtain ⟨s, fmt, ap, reads⟩ := v
      have hlast : fmt ∈ reads ++ [fmt] := List.mem_append_right _ (List.mem_singleton.mpr rfl)
      by_cases hnul : s.mem fmt = 0
      · rw [loop_nul _ _ _ _ hnul] at h
        cases h
        exact ⟨hlast, fun a ha => List.mem_append_left _ ha⟩
      · by_cases hpct : s.mem fmt = 0x25
        · rw [loop_directive _ _ _ _ hpct] at h
          obtain ⟨p, -, hrest⟩ := bind_eq_ok.mp h
          have hind := (ih hrest).2
          exact ⟨hind _ (List.mem_append_left _ hlast),
            fun a ha => hind _ (List.mem_append_left _ (List.mem_append_left _ ha))⟩
        · rw [loop_char _ _ _ _ hnul hpct] at h
          have hind := (ih h).2
          exact ⟨hind _ hlast, fun a ha => hind _ (List.mem_append_left _ ha)⟩

/-- Behind an incomplete directive the loop reads on. -/
theorem Rendered.reads_behind (h : Rendered T m lo hi s ap text) (hincomplete : complete s = false)
    (hfmt : CStr m fmt s) (hout : fmt + s.length < lo ∨ hi ≤ fmt) :
    ∃ N, ∀ k fuel, N ≤ k → N ≤ fuel → ∀ out reads v, OnBuffer m lo hi out →
      vsnprintfLoop T k fuel ⟨out, fmt, ap, reads⟩ = .ok v → fmt + s.length + 1 ∈ v.reads := by
  induction h generalizing fmt with
  | nil ap => cases hincomplete
  | @char c s ap text hc _ ih =>
      have hrest : complete s = false := by
        cases s with
        | nil =>
            rw [complete, bne_eq_false_iff_eq] at hincomplete
            exact absurd hincomplete hc
        | cons d s => rwa [complete, if_neg hc] at hincomplete
      rw [List.length_cons] at hout
      obtain ⟨N, hN⟩ := ih hrest hfmt.2.2 (by omega)
      refine ⟨N + 1, fun k fuel hk hfuel out reads v hbuf hrun => ?_⟩
      obtain ⟨fuel, rfl⟩ : ∃ n, fuel = n + 1 := ⟨fuel - 1, by omega⟩
      have hmem : out.mem fmt = c := by rw [hbuf.outside fmt (by omega), hfmt.1]
      rw [loop_char _ _ _ _ (by rw [hmem]; exact hfmt.2.1) (by rw [hmem]; exact hc)] at hrun
      rw [List.length_cons, show fmt + (s.length + 1) + 1 = fmt + 1 + s.length + 1 by omega]
      exact hN k fuel (by omega) (by omega) _ _ v (hbuf.put _) hrun
  | @directive c s ap ap' piece text hconv _ ih =>
      have hrest : complete s = false := by rwa [complete, if_pos rfl] at hincomplete
      rw [List.length_cons, List.length_cons] at hout
      obtain ⟨N, hN⟩ := ih hrest hfmt.2.2.2.2 (by omega)
      obtain ⟨M, hM⟩ := directive_eq hconv
      refine ⟨max M N + 1, fun k fuel hk hfuel out reads v hbuf hrun => ?_⟩
      obtain ⟨fuel, rfl⟩ : ∃ n, fuel = n + 1 := ⟨fuel - 1, by omega⟩
      have hmem : out.mem fmt = 0x25 := by rw [hbuf.outside fmt (by omega), hfmt.1]
      rw [loop_directive _ _ _ _ hmem, hbuf.outside (fmt + 1) (by omega), hfmt.2.2.1,
        hM k (by omega) out hbuf] at hrun
      rw [List.length_cons, List.length_cons,
        show fmt + (s.length + 1 + 1) + 1 = fmt + 2 + s.length + 1 by omega]
      exact hN k fuel (by omega) (by omega) _ _ v (hbuf.feed _) hrun
  | incomplete ap =>
      refine ⟨1, fun k fuel _ hfuel out reads v hbuf hrun => ?_⟩
      obtain ⟨fuel, rfl⟩ : ∃ n, fuel = n + 1 := ⟨fuel - 1, by omega⟩
      rw [List.length_singleton] at hout
      have hmem : out.mem fmt = 0x25 := by rw [hbuf.outside fmt (by omega), hfmt.1]
      -- the NUL is the directive, and the byte behind it comes next
      rw [loop_directive _ _ _ _ hmem] at hrun
      obtain ⟨p, -, hrest⟩ := bind_eq_ok.mp hrun
      exact (mem_reads hrest).1

/-- A format that is read up to its NUL only is complete. -/
theorem ReadsFormat.complete {r : Printed}
    (h : ReadsFormat (fun fuel => vsnprintf T fuel m buf size fmt ap) fmt s.length text r)
    (hfmt : CStr m fmt s)
    (hout : fmt + s.length < buf ∨ buf + size ≤ fmt) (htext : Rendered T m buf (buf + size) s ap text) :
    complete s = true := by
  obtain ⟨⟨N, hN⟩, hinside, -⟩ := h
  by_contra hincomplete
  rw [Bool.not_eq_true] at hincomplete
  obtain ⟨M, hM⟩ := htext.reads_behind hincomplete hfmt hout
  have hrun : vsnprintf T (max M N) m buf size fmt ap = .ok r := hN _ (le_max_right M N)
  rw [vsnprintf] at hrun
  obtain ⟨v, hloop, hr⟩ := bind_eq_ok.mp hrun
  have hmem := hM _ _ (le_max_left M N) (le_max_left M N) _ _ v ⟨le_rfl, Nat.sub_le _ _, fun _ _ => rfl⟩ hloop
  have hreads : r.reads = v.reads := by
    cases hr
    rfl
  rw [← hreads] at hmem
  have := (hinside _ hmem).2
  omega

/-- `vsnprintf` terminates, reads its format exactly to the NUL and emits what the format should
yield, if and only if the format does not end in the middle of a directive. -/
theorem vsnprintf_readsFormat_iff (T : Target) {m : Mem} {buf size fmt : Nat} {ap : VaList}
    {s text : List UInt8} (hfmt : CStr m fmt s) (hout : fmt + s.length < buf ∨ buf + size ≤ fmt)
    (htext : Rendered T m buf (buf + size) s ap text) :
    (∃ r, ReadsFormat (fun fuel => vsnprintf T fuel m buf size fmt ap) fmt s.length text r) ↔
      complete s = true := by
  constructor
  · rintro ⟨r, hr⟩
    exact hr.complete hfmt hout htext
  · intro hcomplete
    obtain ⟨reads, hreads, hrun⟩ := vsnprintf_eq (htext.output hcomplete hfmt hout)
    exact ⟨_, hrun, hreads, rfl⟩

/-- `"5%%"` is read to its end. -/
theorem vsnprintf_readsFormat_iff_percent : (∃ r, ReadsFormat (fun fuel =>
      vsnprintf .x86 fuel (withFormat [0x35, 0x25, 0x25]) 0x1000 16 0x2000 fun _ => 0) 0x2000 3 [0x35, 0x25] r) ↔
    complete [0x35, 0x25, 0x25] = true := by
  have hfmt : CStr (withFormat [0x35, 0x25, 0x25]) 0x2000 [0x35, 0x25, 0x25] :=
    ⟨rfl, by decide, rfl, by decide, rfl, by decide, rfl⟩
  exact vsnprintf_readsFormat_iff .x86 hfmt (by decide) (.char (by decide) (.directive (.percent _) (.nil _)))

/-- `"5%"` is not: the byte behind its NUL is read. -/
theorem danglingPercent_not_readsFormat : CStr (withFormat [0x35, 0x25]) 0x2000 [0x35, 0x25] ∧
    ∀ text, Rendered .x86_64 (withFormat [0x35, 0x25]) 0x1000 (0x1000 + 16) [0x35, 0x25] (fun _ => 0) text →
      ¬ ∃ r, ReadsFormat (fun fuel =>
        vsnprintf .x86_64 fuel (withFormat [0x35, 0x25]) 0x1000 16 0x2000 fun _ => 0) 0x2000 2 text r := by
  have hfmt : CStr (withFormat [0x35, 0x25]) 0x2000 [0x35, 0x25] := ⟨rfl, by decide, rfl, by decide, rfl⟩
  refine ⟨hfmt, fun text htext => ?_⟩
  rintro ⟨r, hr⟩
  have hcomplete := @ReadsFormat.complete .x86_64 _ _ 16 _ _ [0x35, 0x25] _ r hr hfmt (by decide) htext
  exact absurd hcomplete (by decide)

end Printf

end Aerogel
