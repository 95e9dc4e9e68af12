import Mathlib.Data.List.Basic
import Mathlib.Data.List.ReduceOption
import Aerogel.Drivers.Ps2Keyboard

/-! # Lines typed by the user

`readline` of the shell and `readln` of the setup wizard are the same loop over key events with
buffers of different sizes. `edit` is the editor they stand for. The loop differs from it in one
case: a backspace on an empty line passes the guard for characters and is stored.
`lineEditing_iff` says which sequences of events are not affected. -/

namespace Aerogel

namespace LineEditor

open Keyboard (KeyEvent)

/-! ## The loop -/

/-- The variables of a reader, and what it did. -/
structure Reader where
  /-- `buf`, `readln_buf`. -/
  buf : List UInt8
  /-- `buf_len`, `readln_len`. -/
  len : Nat
  /-- The characters echoed on the screen. -/
  echo : List UInt8
  /-- The indices stored to. -/
  stores : List Nat

/-- `buf[i] = c`. -/
def Reader.store (r : Reader) (i : Nat) (c : UInt8) : Reader :=
  { r with buf := r.buf.set i c, stores := r.stores ++ [i] }

/-- The loop with room for `cap` characters, on what `keyboard_poll` answers: `none` if there is
no event. It returns at a newline or a carriage return. -/
def readLoop (cap : Nat) : List (Option KeyEvent) → Reader → Option Reader
  | [], _ => none
  | none :: polls, r => readLoop cap polls r
  | some e :: polls, r =>
    if e.pressed = false then readLoop cap polls r
    else if e.ascii = 0x0A ∨ e.ascii = 0x0D then
      some (({ r with echo := r.echo ++ [0x0A] } : Reader).store r.len 0)
    else if e.ascii = 0x08 ∧ r.len > 0 then
      readLoop cap polls { r with len := r.len - 1, echo := r.echo ++ [0x08] }
    else if e.ascii ≠ 0 ∧ r.len < cap then
      let r' := r.store r.len e.ascii
      readLoop cap polls { r' with len := r'.len + 1, echo := r'.echo ++ [e.ascii] }
    else readLoop cap polls r

/-- An empty line in a buffer of `size` bytes. -/
def Reader.start (size : Nat) : Reader := ⟨List.replicate size 0, 0, [], []⟩

/-- `readline` of the shell. -/
def readline (polls : List (Option KeyEvent)) : Option Reader := readLoop (256 - 1) polls (.start 256)

/-- `readln` of the setup wizard. -/
def readln (polls : List (Option KeyEvent)) : Option Reader := readLoop 63 polls (.start 64)

/-! ## The editor -/

/-- One character: backspace takes the last one away, any other is appended if there is room. -/
def edit (cap : Nat) (line : List UInt8) (c : UInt8) : List UInt8 :=
  if c = 0x08 then line.dropLast else if line.length < cap then line ++ [c] else line

/-- The event ends the line. -/
def isEnter (e : KeyEvent) : Bool := e.pressed && (e.ascii == 0x0A || e.ascii == 0x0D)

/-- The characters typed before the line ends. -/
def typed (polls : List (Option KeyEvent)) : List UInt8 :=
  ((polls.reduceOption.takeWhile (!isEnter ·)).filter fun e => e.pressed && e.ascii != 0).map KeyEvent.ascii

/-- The line that the events stand for. -/
def expected (cap : Nat) (polls : List (Option KeyEvent)) : List UInt8 :=
    (typed polls).foldl (edit cap) []

/-- The loop has left `line` in its buffer: it returned, all stores were inside the buffer, and
the line stands there with a NUL behind it. -/
structure Leaves (cap : Nat) (result : Option Reader) (line : List UInt8) (r : Reader) : Prop where
  /-- The loop returned. -/
  returned : result = some r
  /-- The stores. -/
  inBounds : ∀ i ∈ r.stores, i < cap + 1
  /-- The line is in the buffer. -/
  held : ∃ rest, r.buf = line ++ 0 :: rest
  /-- The NUL is its first. -/
  nul : 0 ∉ line

/-! ## Stray backspaces -/

/-- What became of a backspace that was typed on an empty line. -/
inductive Stray
  /-- There is none, or it was taken away again. -/
  | gone
  /-- It stands in front of the line. -/
  | ahead
  /-- It does, and has cost the line a character: the buffer was full. -/
  | displacing
  deriving DecidableEq

/-- One character, with the length that the line should have. -/
def Stray.step (cap : Nat) : Nat × Stray → UInt8 → Nat × Stray
  | (n, .gone), c => if c = 0x08 then (n - 1, if n = 0 then .ahead else .gone)
    else (min (n + 1) cap, .gone)
  | (n, .ahead), c =>
    if c = 0x08 then (n - 1, if n = 0 then .gone else .ahead)
    else (n + 1, if n + 1 < cap then .ahead else .displacing)
  | (n, .displacing), c =>
    if c = 0x08 then (n - 1, if n ≤ 1 then .gone else .displacing) else (min (n + 1) cap, .displacing)

/-- What is left of a stray backspace at the end of the line. -/
def stray (cap : Nat) (chars : List UInt8) : Stray := (chars.foldl (Stray.step cap) (0, .gone)).2

/-- What the loop does to the line. -/
def rawEdit (cap : Nat) (line : List UInt8) (c : UInt8) : List UInt8 :=
  if c = 0x08 ∧ line ≠ [] then line.dropLast else if line.length < cap then line ++ [c] else line

/-- How the loop's line and the expected one differ. -/
inductive Differ (cap : Nat) : List UInt8 → List UInt8 → Nat × Stray → Prop
  /-- They do not. -/
  | gone {line : List UInt8} : line.length ≤ cap → Differ cap line line (line.length, .gone)
  /-- The loop's line begins with a backspace. -/
  | ahead {line : List UInt8} : line.length < cap → Differ cap (0x08 :: line) line (line.length, .ahead)
  /-- It does, and the last character is missing. -/
  | displacing {line raw : List UInt8} : raw.length + 1 = line.length → line.length ≤ cap →
      Differ cap (0x08 :: raw) line (line.length, .displacing)

variable {cap : Nat}

/-- Every character keeps track of the difference. -/
theorem Differ.step (hcap : 0 < cap) {raw line : List UInt8} {st : Nat × Stray}
    (h : Differ cap raw line st)
    (c : UInt8) : Differ cap (rawEdit cap raw c) (edit cap line c) (Stray.step cap st c) := by
  have hsnoc : ∀ l : List UInt8, (l ++ [c]).length = l.length + 1 := fun l => List.length_append
  have hpos : ∀ {l : List UInt8}, l ≠ [] → l.length ≠ 0 := fun hl h0 => hl (List.length_eq_zero_iff.mp h0)
  cases h with
  | gone hlen =>
      -- both lines are `raw`
      by_cases hc : c = 0x08
      · by_cases hline : raw = []
        · rw [rawEdit, if_neg fun h => h.2 hline, edit, if_pos hc, Stray.step, if_pos hc, hline, hc,
            if_pos (show [].length < cap from hcap)]
          exact .ahead hcap
        · rw [rawEdit, if_pos ⟨hc, hline⟩, edit, if_pos hc, Stray.step, if_pos hc, if_neg (hpos hline),
            ← List.length_dropLast]
          exact .gone (by rw [List.length_dropLast]; omega)
      · rw [rawEdit, if_neg fun h => hc h.1, edit, if_neg hc, Stray.step, if_neg hc]
        split_ifs with hroom
        · rw [Nat.min_eq_left (show raw.length + 1 ≤ cap from hroom), ← hsnoc]
          exact .gone (by rw [hsnoc]; exact hroom)
        · rw [Nat.min_eq_right (by omega), show cap = raw.length by omega]
          exact .gone le_rfl
  | ahead hlen =>
      by_cases hc : c = 0x08
      · by_cases hline : line = []
        · -- the stray backspace is taken away again
          rw [rawEdit, if_pos ⟨hc, List.cons_ne_nil _ _⟩, edit, if_pos hc, Stray.step, if_pos hc, hline]
          exact .gone (Nat.zero_le _)
        · rw [rawEdit, if_pos ⟨hc, List.cons_ne_nil _ _⟩, edit, if_pos hc, Stray.step, if_pos hc,
            if_neg (hpos hline), List.dropLast_cons_of_ne_nil hline, ← List.length_dropLast]
          exact .ahead (by rw [List.length_dropLast]; omega)
      · rw [rawEdit, if_neg fun h => hc h.1, edit, if_neg hc, if_pos hlen, Stray.step, if_neg hc,
          List.length_cons, ← hsnoc]
        split_ifs with hroom
        · exact .ahead hroom
        · exact .displacing (hsnoc line).symm (by rw [hsnoc]; omega)
  | @displacing line raw hraw hlen =>
      by_cases hc : c = 0x08
      · rw [rawEdit, if_pos ⟨hc, List.cons_ne_nil _ _⟩, edit, if_pos hc, Stray.step, if_pos hc]
        by_cases hline : raw = []
        · have hone : line.length = 1 := by rw [← hraw, hline]; rfl
          have hnil : line.dropLast = [] :=
            List.length_eq_zero_iff.mp (by rw [List.length_dropLast, hone])
          rw [hline, hnil, hone]
          exact .gone (Nat.zero_le _)
        · have hraw' := hpos hline
          rw [if_neg (by omega), List.dropLast_cons_of_ne_nil hline, ← List.length_dropLast]
          exact .displacing (by rw [List.length_dropLast, List.length_dropLast]; omega)
            (by rw [List.length_dropLast]; omega)
      · rw [rawEdit, if_neg fun h => hc h.1, edit, if_neg hc, Stray.step, if_neg hc,
          List.length_cons, hraw]
        split_ifs with hroom
        · rw [Nat.min_eq_left (show line.length + 1 ≤ cap from hroom), ← hsnoc, List.cons_append]
          exact .displacing (by rw [hsnoc, hsnoc]; omega) (by rw [hsnoc]; exact hroom)
        · rw [Nat.min_eq_right (by omega), show cap = line.length by omega]
          exact .displacing hraw le_rfl

/-- The editor never puts a backspace into a line. -/
theorem backspace_notMem_edit {line : List UInt8} (h : 0x08 ∉ line)
    (c : UInt8) : 0x08 ∉ edit cap line c := by
  rw [edit]
  split_ifs with hc
  · exact fun hmem => h (List.dropLast_subset line hmem)
  · rw [List.mem_append, List.mem_singleton, not_or]
    exact ⟨h, fun heq => hc heq.symm⟩
  · exact h

/-- The lines are equal when no stray backspace is left. -/
theorem Differ.eq_iff {raw line : List UInt8} {st : Nat × Stray} (h : Differ cap raw line st)
    (hline : 0x08 ∉ line) : raw = line ↔ st.2 = .gone := by
  cases h with
  | gone _ => exact iff_of_true rfl rfl
  | ahead _ =>
      refine iff_of_false (fun heq => hline ?_) (show Stray.ahead ≠ .gone by decide)
      rw [← heq]
      exact List.mem_cons_self
  | displacing _ _ =>
      refine iff_of_false (fun heq => hline ?_) (show Stray.displacing ≠ .gone by decide)
      rw [← heq]
      exact List.mem_cons_self

/-- The loop leaves the expected line if and only if no stray backspace is left. -/
theorem foldl_rawEdit_eq_iff (hcap : 0 < cap) (chars : List UInt8) :
    chars.foldl (rawEdit cap) [] = chars.foldl (edit cap) [] ↔ stray cap chars = .gone := by
  have hrel : Differ cap (chars.foldl (rawEdit cap) []) (chars.foldl (edit cap) [])
      (chars.foldl (Stray.step cap) (0, .gone)) ∧ 0x08 ∉ chars.foldl (edit cap) [] := by
    suffices h : ∀ raw line st, Differ cap raw line st → 0x08 ∉ line →
        Differ cap (chars.foldl (rawEdit cap) raw) (chars.foldl (edit cap) line)
          (chars.foldl (Stray.step cap) st) ∧ 0x08 ∉ chars.foldl (edit cap) line from
      h [] [] (0, .gone) (.gone (Nat.zero_le _)) List.not_mem_nil
    induction chars with
    | nil => exact fun raw line st h hline => ⟨h, hline⟩
    | cons c chars ih => exact fun raw line st h hline => ih _ _ _ (h.step hcap c) (backspace_notMem_edit hline c)
  exact hrel.1.eq_iff hrel.2

/-! ## The buffer -/

/-- The reader's buffer holds `raw`; what stands behind it are bytes of characters that were taken
away. -/
structure Reader.Holds (cap : Nat) (r : Reader) (raw : List UInt8) : Prop where
  /-- The length. -/
  len : r.len = raw.length
  /-- There was room. -/
  fits : raw.length ≤ cap
  /-- The characters. -/
  held : ∃ rest, r.buf = raw ++ rest ∧ raw.length + rest.length = cap + 1
  /-- The stores. -/
  inBounds : ∀ i ∈ r.stores, i < cap + 1
  /-- There is no NUL among them. -/
  nul : 0 ∉ raw

/-- The next event of a line. -/
theorem typed_some (e : KeyEvent) (polls : List (Option KeyEvent)) : typed (some e :: polls) =
    if isEnter e then [] else if e.pressed && e.ascii != 0 then e.ascii :: typed polls
      else typed polls := by
  rw [typed, List.reduceOption_cons_of_some, List.takeWhile_cons]
  cases isEnter e with
  | true => rfl
  | false =>
      rw [Bool.not_false, if_pos rfl, if_neg Bool.false_ne_true, List.filter_cons]
      split_ifs <;> rfl

/-- Taking the last character away moves only the index. -/
theorem Reader.Holds.dropLast {r : Reader} {raw : List UInt8} (h : r.Holds cap raw) (hraw : raw ≠ [])
    (echo : List UInt8) : Reader.Holds cap { r with len := r.len - 1, echo := echo } raw.dropLast := by
  obtain ⟨rest, hbuf, hlen⟩ := h.held
  have hpos := List.length_pos_iff.mpr hraw
  have hfits := h.fits
  refine ⟨?_, ?_, ⟨raw.getLast hraw :: rest, ?_, ?_⟩, h.inBounds, fun h0 => h.nul (List.dropLast_subset raw h0)⟩
  · rw [List.length_dropLast, ← h.len]
  · rw [List.length_dropLast]
    omega
  · rw [hbuf, List.append_cons, List.dropLast_append_getLast]
  · rw [List.length_dropLast, List.length_cons]
    omega

/-- A character is stored behind the line. -/
theorem Reader.Holds.store {r : Reader} {raw : List UInt8} (h : r.Holds cap raw) (c : UInt8) :
    (∀ i ∈ (r.store r.len c).stores, i < cap + 1) ∧
      ∃ rest, (r.store r.len c).buf = raw ++ c :: rest ∧ raw.length + (rest.length + 1) = cap + 1 := by
  obtain ⟨rest, hbuf, hlen⟩ := h.held
  have hfits := h.fits
  obtain ⟨d, rest, rfl⟩ : ∃ d rest', rest = d :: rest' :=
    List.exists_cons_of_length_pos (by omega)
  rw [List.length_cons] at hlen
  refine ⟨fun i hi => ?_, rest, ?_, hlen⟩
  · rcases List.mem_append.mp hi with hi | hi
    · exact h.inBounds i hi
    · rw [List.mem_singleton.mp hi, h.len]
      omega
  · change r.buf.set r.len c = _
    rw [hbuf, h.len, List.set_append_right _ _ le_rfl, Nat.sub_self]
    rfl

/-- A character overwrites whatever stood behind the line. -/
theorem Reader.Holds.append {r : Reader} {raw : List UInt8} (h : r.Holds cap raw) {c : UInt8}
    (hzero : c ≠ 0) (hroom : r.len < cap) (echo : List UInt8) :
    Reader.Holds cap { r.store r.len c with len := (r.store r.len c).len + 1, echo := echo } (raw ++ [c]) := by
  obtain ⟨hbounds, rest, hbuf, hrestlen⟩ := h.store c
  have hsnoc : (raw ++ [c]).length = raw.length + 1 := List.length_append
  refine ⟨?_, ?_, ⟨rest, ?_, ?_⟩, hbounds, fun h0 => ?_⟩
  · rw [hsnoc, ← h.len]
    rfl
  · rw [hsnoc, ← h.len]
    exact hroom
  · rw [← List.append_cons]
    exact hbuf
  · rw [hsnoc]
    omega
  · rcases List.mem_append.mp h0 with h0 | h0
    · exact h.nul h0
    · exact hzero (List.mem_singleton.mp h0).symm

/-- The loop leaves the line that its steps make, with a NUL behind it. -/
theorem readLoop_eq {polls : List (Option KeyEvent)} (henter : ∃ e ∈ polls.reduceOption, isEnter e)
    {r : Reader} {raw : List UInt8} (h : r.Holds cap raw) :
    ∃ r', Leaves cap (readLoop cap polls r) ((typed polls).foldl (rawEdit cap) raw) r' := by
  induction polls generalizing r raw with
  | nil =>
      obtain ⟨e, he, -⟩ := henter
      cases he
  | cons p polls ih =>
      cases p with
      | none =>
          obtain ⟨e, he, hent⟩ := henter
          rw [List.reduceOption_cons_of_none] at he
          exact ih ⟨e, he, hent⟩ h
      | some e =>
          rw [List.reduceOption_cons_of_some] at henter
          have hrest : isEnter e = false → ∃ e ∈ polls.reduceOption, isEnter e := by
            intro hno
            obtain ⟨e', he', hent⟩ := henter
            rcases List.mem_cons.mp he' with rfl | he'
            · rw [hno] at hent
              cases hent
            · exact ⟨e', he', hent⟩
          rw [typed_some, readLoop]
          by_cases hpressed : e.pressed = false
          · have hno : isEnter e = false := by rw [isEnter, hpressed, Bool.false_and]
            rw [if_pos hpressed, hno, hpressed, if_neg Bool.false_ne_true, Bool.false_and,
              if_neg Bool.false_ne_true]
            exact ih (hrest hno) h
          rw [Bool.not_eq_false] at hpressed
          rw [if_neg (ne_of_eq_of_ne hpressed (Ne.symm Bool.false_ne_true)), hpressed, Bool.true_and]
          by_cases hent : e.ascii = 0x0A ∨ e.ascii = 0x0D
          · -- the NUL goes behind the line
            have hyes : isEnter e = true := by simpa [isEnter, hpressed] using hent
            obtain ⟨hbounds, rest, hbuf, -⟩ := h.store 0
            rw [if_pos hent, if_pos hyes]
            exact ⟨_, rfl, hbounds, ⟨rest, hbuf⟩, h.nul⟩
          have hno : isEnter e = false := by simpa [isEnter, hpressed] using hent
          rw [if_neg hent, if_neg (ne_of_eq_of_ne hno Bool.false_ne_true)]
          have hlen : r.len > 0 ↔ raw ≠ [] := by rw [h.len, gt_iff_lt, List.length_pos_iff]
          by_cases hback : e.ascii = 0x08 ∧ r.len > 0
          · rw [if_pos hback, hback.1, if_pos (show ((0x08 : UInt8) != 0) = true from rfl),
              List.foldl_cons, rawEdit, if_pos ⟨rfl, hlen.mp hback.2⟩]
            exact ih (hrest hno) (h.dropLast (hlen.mp hback.2) _)
          rw [if_neg hback]
          by_cases hzero : e.ascii = 0
          · rw [if_neg fun hc => hc.1 hzero, hzero, if_neg (by decide)]
            exact ih (hrest hno) h
          have hedit : rawEdit cap raw e.ascii = if raw.length < cap then raw ++ [e.ascii] else raw :=
            if_neg fun hc => hback ⟨hc.1, hlen.mpr hc.2⟩
          rw [if_pos (bne_iff_ne.mpr hzero), List.foldl_cons, hedit, ← h.len]
          by_cases hroom : r.len < cap
          · rw [if_pos hroom, if_pos ⟨hzero, hroom⟩]
            exact ih (hrest hno) (h.append hzero hroom _)
          · rw [if_neg hroom, if_neg fun hc => hroom hc.2]
            exact ih (hrest hno) h

/-- The line in front of a buffer's first NUL is one line. -/
theorem Leaves.unique {result : Option Reader} {line line' : List UInt8} {r r' : Reader}
    (h : Leaves cap result line r) (h' : Leaves cap result line' r') : line = line' := by
  have hr : r = r' := Option.some_injective _ (h.returned.symm.trans h'.returned)
  obtain ⟨rest, hbuf⟩ := h.held
  obtain ⟨rest', hbuf'⟩ := h'.held
  rw [← hr, hbuf] at hbuf'
  have hupto : ∀ {l rest : List UInt8}, 0 ∉ l → (l ++ 0 :: rest).takeWhile (· != 0) = l := by
    intro l rest hl
    have hne : ∀ c ∈ l, (c != 0) = true := fun c hc => bne_iff_ne.mpr fun h0 => hl (by rwa [h0] at hc)
    rw [List.takeWhile_append_of_pos hne, List.takeWhile_cons_of_neg (by decide), List.append_nil]
  rw [← hupto h.nul, hbuf', hupto h'.nul]

/-- Both readers start with an empty line. -/
theorem Reader.holds_start (cap : Nat) : (Reader.start (cap + 1)).Holds cap [] :=
  ⟨rfl, Nat.zero_le _, ⟨List.replicate (cap + 1) 0, rfl, by rw [List.length_replicate]; exact Nat.zero_add _⟩,
    fun _ h => absurd h List.not_mem_nil, List.not_mem_nil⟩

/-- The loop from an empty line. -/
theorem readLoop_leaves_iff (hcap : 0 < cap) {polls : List (Option KeyEvent)}
    (henter : ∃ e ∈ polls.reduceOption, isEnter e) :
    (∃ r, Leaves cap (readLoop cap polls (.start (cap + 1))) (expected cap polls) r) ↔
      stray cap (typed polls) = .gone := by
  obtain ⟨r', hr'⟩ := readLoop_eq henter (Reader.holds_start cap)
  rw [← foldl_rawEdit_eq_iff hcap]
  constructor
  · rintro ⟨r, hr⟩
    exact hr'.unique hr
  · intro heq
    rw [expected, ← heq]
    exact ⟨r', hr'⟩

end LineEditor

end Aerogel
