import Aerogel.Libc.MemOps
import Aerogel.Machine

/-! # NUL-terminated strings

`CStr m a s` says that memory holds the characters `s` and a terminating NUL from address `a` on. The
string functions of `string.c` that paths go through are loops over memory; those that look for the end
of a string carry fuel, since nothing but the string ends them. -/

namespace Aerogel

/-- Memory holds the string `s` at `a`. -/
def CStr (m : Mem) : Nat → List UInt8 → Prop
  | a, [] => m a = 0
  | a, c :: s => m a = c ∧ c ≠ 0 ∧ CStr m (a + 1) s

/-- Memory holds the characters `s` at `a`, whatever stands behind them. -/
def Chars (m : Mem) : Nat → List UInt8 → Prop
  | _, [] => True
  | a, c :: s => m a = c ∧ c ≠ 0 ∧ Chars m (a + 1) s

/-- Read the string at `a`, the way a callee does with a `const char *`. -/
def readStr (m : Mem) : Nat → Nat → Except Halt (List UInt8)
  | 0, _ => .error .diverges
  | fuel + 1, a => if m a = 0 then .ok [] else (readStr m fuel (a + 1)).map (m a :: ·)

/-- `strchr`: the address of the first `c` in the string at `s`, if any. -/
def strchr (m : Mem) (c : UInt8) : Nat → Nat → Except Halt (Option Nat)
  | 0, _ => .error .diverges
  | fuel + 1, s =>
    if m s = 0 then .ok (if c = 0 then some s else none)
    else if m s = c then .ok (some s)
    else strchr m c fuel (s + 1)

/-- `strcmp` of the string at `a` in the first memory and the one at `b` in the second, which is the same
one unless strings are kept as values. -/
def strcmp (m m' : Mem) : Nat → Nat → Nat → Except Halt Int
  | 0, _, _ => .error .diverges
  | fuel + 1, a, b =>
    if m a ≠ 0 ∧ m a = m' b then strcmp m m' fuel (a + 1) (b + 1)
    else .ok ((m a).toNat - (m' b).toNat)

/-- The string at `a`, cut off after `n` characters. -/
def strAt (m : Mem) (a : Nat) : Nat → List UInt8
  | 0 => []
  | n + 1 => if m a = 0 then [] else m a :: strAt m (a + 1) n

/-- The first loop of `strncpy`: memory, `d` and `n` when it ends. The byte that ends it is stored but
not counted. -/
def strncpyLoop (m : Mem) (d s : Nat) : Nat → Mem × Nat × Nat
  | 0 => (m, d, 0)
  | n + 1 =>
    -- `*d++ = *s++` stores before the test
    let m' := Function.update m d (m s)
    if m s ≠ 0 then strncpyLoop m' (d + 1) (s + 1) n else (m', d + 1, n + 1)

/-- `strncpy`. -/
def strncpy (m : Mem) (dst src n : Nat) : Mem :=
  let (m, d, n) := strncpyLoop m dst src n
  memset m d 0 n

variable {m m' : Mem} {a : Nat} {s w : List UInt8}

/-- A string is characters with a NUL behind them. -/
theorem cStr_iff : CStr m a s ↔ Chars m a s ∧ m (a + s.length) = 0 := by
  induction s generalizing a with
  | nil => exact (iff_of_eq (true_and _)).symm
  | cons c s ih =>
      rw [CStr, Chars, ih, List.length_cons, show a + 1 + s.length = a + (s.length + 1) by omega,
        and_assoc, and_assoc]

namespace Chars

/-- Characters only depend on their own bytes. -/
theorem congr (h : Chars m a s) (heq : ∀ x, a ≤ x → x < a + s.length → m' x = m x) :
    Chars m' a s := by
  induction s generalizing a with
  | nil => trivial
  | cons c s ih =>
      rw [List.length_cons] at heq
      refine ⟨?_, h.2.1, ih h.2.2 fun x h₁ h₂ => heq x (by omega) (by omega)⟩
      rw [heq a le_rfl (by omega)]
      exact h.1

/-- Characters behind others. -/
theorem append_iff : Chars m a (w ++ s) ↔ Chars m a w ∧ Chars m (a + w.length) s := by
  induction w generalizing a with
  | nil => exact (iff_of_eq (true_and _)).symm
  | cons c w ih =>
      rw [List.cons_append, Chars, Chars, ih, List.length_cons,
        show a + 1 + w.length = a + (w.length + 1) by omega, and_assoc, and_assoc]

/-- The rest of some characters. -/
theorem drop (h : Chars m a (w ++ s)) : Chars m (a + w.length) s := (append_iff.mp h).2

/-- Overwriting a character with NUL makes a string of those before it. -/
theorem cut {c : UInt8} (h : Chars m a (w ++ c :: s)) :
    CStr (Function.update m (a + w.length) 0) a w := by
  induction w generalizing a with
  | nil => exact Function.update_self ..
  | cons d w ih =>
      rw [List.length_cons, show a + (w.length + 1) = a + 1 + w.length by omega]
      refine ⟨?_, h.2.1, ih h.2.2⟩
      rw [Function.update_of_ne (by omega)]
      exact h.1

/-- Characters are not NUL. -/
theorem head_ne_zero (h : Chars m a s) (hs : s ≠ []) : m a ≠ 0 := by
  obtain ⟨c, s, rfl⟩ := List.exists_cons_of_ne_nil hs
  rw [h.1]
  exact h.2.1

/-- `strchr` finds the first occurrence, whatever stands behind it. -/
theorem strchr_eq_some {c : UInt8} (h : Chars m a (w ++ c :: s)) (hw : c ∉ w) {fuel : Nat}
    (hfuel : w.length < fuel) : strchr m c fuel a = .ok (some (a + w.length)) := by
  induction w generalizing a fuel with
  | nil =>
      obtain ⟨fuel, rfl⟩ : ∃ k, fuel = k + 1 := ⟨fuel - 1, by omega⟩
      rw [strchr, h.1, if_neg h.2.1, if_pos rfl]
      rfl
  | cons d w ih =>
      obtain ⟨fuel, rfl⟩ : ∃ k, fuel = k + 1 := ⟨fuel - 1, by omega⟩
      rw [List.mem_cons, not_or] at hw
      rw [List.length_cons] at hfuel ⊢
      rw [strchr, h.1, if_neg h.2.1, if_neg (Ne.symm hw.1), ih h.2.2 hw.2 (by omega),
        show a + 1 + w.length = a + (w.length + 1) by omega]

end Chars

namespace CStr

/-- A string with characters does not start with NUL. -/
theorem head_ne_zero (h : CStr m a s) (hs : s ≠ []) : m a ≠ 0 := (cStr_iff.mp h).1.head_ne_zero hs

/-- A string only depends on its own bytes. -/
theorem congr (h : CStr m a s) (heq : ∀ x, a ≤ x → x ≤ a + s.length → m' x = m x) :
    CStr m' a s := by
  induction s generalizing a with
  | nil =>
      rw [CStr, heq a le_rfl le_rfl]
      exact h
  | cons c s ih =>
      refine ⟨?_, h.2.1, ih h.2.2 fun x h₁ h₂ => heq x (by omega) ?_⟩
      · rw [heq a le_rfl (by omega)]
        exact h.1
      · rw [List.length_cons]
        omega

/-- The rest of a string is a string. -/
theorem drop (h : CStr m a (w ++ s)) : CStr m (a + w.length) s := by
  induction w generalizing a with
  | nil => exact h
  | cons c w ih =>
      rw [List.length_cons, show a + (w.length + 1) = a + 1 + w.length by omega]
      exact ih h.2.2

/-- Overwriting a character with NUL cuts the string off there. -/
theorem cut {c : UInt8} (h : CStr m a (w ++ c :: s)) :
    CStr (Function.update m (a + w.length) 0) a w :=
  (cStr_iff.mp h).1.cut

/-- Reading a string. -/
theorem readStr_eq (h : CStr m a s) {fuel : Nat} (hfuel : s.length < fuel) :
    readStr m fuel a = .ok s := by
  induction s generalizing a fuel with
  | nil =>
      obtain ⟨fuel, rfl⟩ : ∃ k, fuel = k + 1 := ⟨fuel - 1, by omega⟩
      rw [readStr, if_pos (show m a = 0 from h)]
  | cons c s ih =>
      obtain ⟨fuel, rfl⟩ : ∃ k, fuel = k + 1 := ⟨fuel - 1, by omega⟩
      rw [List.length_cons] at hfuel
      rw [readStr, h.1, if_neg h.2.1, ih h.2.2 (by omega)]
      rfl

/-- The characters of a string that is not cut off. -/
theorem strAt_eq (h : CStr m a s) {n : Nat} (hn : s.length ≤ n) : strAt m a n = s := by
  induction s generalizing a n with
  | nil =>
      cases n with
      | zero => rfl
      | succ n => exact if_pos h
  | cons c s ih =>
      obtain ⟨n, rfl⟩ : ∃ k, n = k + 1 := ⟨n - 1, by rw [List.length_cons] at hn; omega⟩
      rw [List.length_cons] at hn
      rw [strAt, h.1, if_neg h.2.1, ih h.2.2 (by omega)]

/-- `strcmp` returns 0 for equal strings and for no others. -/
theorem strcmp_eq {b : Nat} {t : List UInt8} (h : CStr m a s) (h' : CStr m' b t) {fuel : Nat}
    (hfuel : s.length < fuel) : ∃ c, strcmp m m' fuel a b = .ok c ∧ (c = 0 ↔ s = t) := by
  induction s generalizing a b t fuel with
  | nil =>
      obtain ⟨fuel, rfl⟩ : ∃ k, fuel = k + 1 := ⟨fuel - 1, by omega⟩
      have h0 : m a = 0 := h
      rw [strcmp, if_neg (fun hne => hne.1 h0), h0]
      refine ⟨_, rfl, ?_⟩
      cases t with
      | nil =>
          have h0' : m' b = 0 := h'
          simp [h0']
      | cons d t =>
          have hd : d.toNat ≠ 0 := fun h0 => h'.2.1 (UInt8.toNat_inj.mp h0)
          rw [h'.1]
          simpa using hd
  | cons c s ih =>
      obtain ⟨fuel, rfl⟩ : ∃ k, fuel = k + 1 := ⟨fuel - 1, by omega⟩
      rw [List.length_cons] at hfuel
      rw [strcmp, h.1]
      by_cases hb : c = m' b
      · rw [if_pos ⟨h.2.1, hb⟩]
        cases t with
        | nil => exact absurd (hb.trans h') h.2.1
        | cons d t =>
            obtain ⟨e, he, hiff⟩ := ih h.2.2 h'.2.2 (show s.length < fuel by omega)
            exact ⟨e, he, by rw [hiff, List.cons.injEq, ← h'.1, ← hb, eq_self, true_and]⟩
      · rw [if_neg fun hand => hb hand.2]
        refine ⟨_, rfl, fun hz => ?_, ?_⟩
        · exact absurd (UInt8.toNat_inj.mp (by omega)) hb
        · rintro rfl
          exact absurd h'.1.symm hb

/-- `strchr` finds the first occurrence. -/
theorem strchr_eq_some {c : UInt8} (h : CStr m a (w ++ c :: s)) (hw : c ∉ w) {fuel : Nat}
    (hfuel : w.length < fuel) : strchr m c fuel a = .ok (some (a + w.length)) :=
  (cStr_iff.mp h).1.strchr_eq_some hw hfuel

/-- `strchr` finds nothing in a string without the character. -/
theorem strchr_eq_none {c : UInt8} (h : CStr m a s) (hc : c ∉ s) (hc0 : c ≠ 0) {fuel : Nat}
    (hfuel : s.length < fuel) : strchr m c fuel a = .ok none := by
  induction s generalizing a fuel with
  | nil =>
      obtain ⟨fuel, rfl⟩ : ∃ k, fuel = k + 1 := ⟨fuel - 1, by omega⟩
      rw [strchr, if_pos (show m a = 0 from h), if_neg hc0]
  | cons d s ih =>
      obtain ⟨fuel, rfl⟩ : ∃ k, fuel = k + 1 := ⟨fuel - 1, by omega⟩
      rw [List.mem_cons, not_or] at hc
      rw [List.length_cons] at hfuel
      rw [strchr, h.1, if_neg h.2.1, if_neg (Ne.symm hc.1), ih h.2.2 hc.2 (by omega)]

end CStr

/-- What is read up to a NUL is a string. -/
theorem cStr_strAt {n : Nat} (h : m (a + n) = 0) : CStr m a (strAt m a n) := by
  induction n generalizing a with
  | zero => exact h
  | succ n ih =>
      rw [strAt]
      split_ifs with h0
      · exact h0
      · refine ⟨rfl, h0, ih ?_⟩
        rw [show a + 1 + n = a + (n + 1) by omega]
        exact h

theorem length_strAt_le (m : Mem) (a n : Nat) : (strAt m a n).length ≤ n := by
  induction n generalizing a with
  | zero => exact le_rfl
  | succ n ih =>
      rw [strAt]
      split_ifs
      · exact Nat.zero_le _
      · exact Nat.succ_le_succ (ih (a + 1))

/-! ## `strncpy` -/

/-- The first loop of `strncpy` writes at most `n` bytes, and leaves at most one byte more to clear. -/
theorem strncpyLoop_frame (m : Mem) (d a n : Nat) :
    d ≤ (strncpyLoop m d a n).2.1 ∧
    (strncpyLoop m d a n).2.1 + (strncpyLoop m d a n).2.2 ≤ d + n + 1 ∧
    ∀ x, x < d ∨ d + n ≤ x → (strncpyLoop m d a n).1 x = m x := by
  induction n generalizing m d a with
  | zero => exact ⟨le_rfl, Nat.le_succ _, fun _ _ => rfl⟩
  | succ n ih =>
      rw [strncpyLoop]
      split_ifs
      · obtain ⟨h₁, h₂, h₃⟩ := ih (Function.update m d (m a)) (d + 1) (a + 1)
        refine ⟨by omega, by omega, fun x hx => ?_⟩
        rw [h₃ x (by omega), Function.update_of_ne (by omega)]
      · have hend : d + 1 + (n + 1) ≤ d + (n + 1) + 1 := by omega
        refine ⟨Nat.le_succ d, hend, fun x hx => ?_⟩
        exact Function.update_of_ne (by omega) _ _

/-- `strncpy` changes no byte outside its destination and the one behind it. -/
theorem strncpy_apply_of_outside (m : Mem) {d a n x : Nat} (hx : x < d ∨ d + n + 1 ≤ x) :
    strncpy m d a n x = m x := by
  obtain ⟨h₁, h₂, h₃⟩ := strncpyLoop_frame m d a n
  have hset : strncpy m d a n = memset (strncpyLoop m d a n).1 (strncpyLoop m d a n).2.1 0
      (strncpyLoop m d a n).2.2 := rfl
  rw [hset, memset_apply, if_neg (by omega), h₃ x (by omega)]

/-- The first loop of `strncpy` on a string stores the characters and the NUL, as far as `n` bytes go, and
counts all of them but the NUL. -/
theorem strncpyLoop_eq {d n : Nat} (h : CStr m a s) (hdisj : a + s.length < d ∨ d + n ≤ a) :
    ∃ m', strncpyLoop m d a n = (m', d + min n (s.length + 1), n - s.length) ∧
      ∀ x, m' x = if d ≤ x ∧ x < d + min n (s.length + 1) then s.getD (x - d) 0 else m x := by
  induction n generalizing m a d s with
  | zero =>
      refine ⟨m, ?_, fun x => (if_neg (by omega)).symm⟩
      rw [strncpyLoop, Nat.zero_min, Nat.zero_sub, Nat.add_zero]
  | succ n ih =>
      cases s with
      | nil =>
          have h0 : m a = 0 := h
          rw [List.length_nil, show d + min (n + 1) (0 + 1) = d + 1 by omega]
          refine ⟨Function.update m d 0, ?_, fun x => ?_⟩
          · rw [strncpyLoop, h0]
            exact if_neg (not_not.mpr rfl)
          · by_cases hx : x = d
            · rw [hx, Function.update_self, if_pos (by omega), List.getD_nil]
            · rw [Function.update_of_ne hx, if_neg (by omega)]
      | cons c s =>
          rw [List.length_cons] at hdisj ⊢
          -- the store at `d` is below or above what is still to be copied
          have hrest : CStr (Function.update m d c) (a + 1) s :=
            h.2.2.congr fun x h₁ h₂ => Function.update_of_ne (show x ≠ d by omega) _ _
          obtain ⟨m', hrun, hbytes⟩ := @ih (Function.update m d c) (a + 1) s (d + 1) hrest (by omega)
          refine ⟨m', ?_, fun x => ?_⟩
          · rw [strncpyLoop, h.1]
            simp only [ne_eq, h.2.1, not_false_eq_true, if_true, hrun, Prod.mk.injEq, true_and]
            omega
          · rw [hbytes]
            by_cases hx : x = d
            · rw [hx, if_neg (by omega), if_pos (by omega), Function.update_self, Nat.sub_self,
                List.getD_cons_zero]
            · rw [Function.update_of_ne hx]
              refine ite_congr (propext (by omega)) (fun hin => ?_) fun _ => rfl
              rw [show x - d = x - (d + 1) + 1 by omega, List.getD_cons_succ]

/-- What `strncpy` makes of every byte of memory: the first `n` bytes of the destination hold the characters
with NULs behind them. If the string is shorter than `n`, the byte behind them becomes NUL as well. -/
theorem strncpy_apply {d n : Nat} (h : CStr m a s) (hdisj : a + s.length < d ∨ d + n ≤ a) (x : Nat) :
    strncpy m d a n x =
      if d ≤ x ∧ x < d + n then s.getD (x - d) 0
      else if s.length < n ∧ x = d + n then 0 else m x := by
  obtain ⟨m', hrun, hbytes⟩ := strncpyLoop_eq h hdisj
  rw [strncpy, hrun]
  dsimp only
  rw [memset_apply, hbytes]
  by_cases hin : d ≤ x ∧ x < d + n
  · rw [if_pos hin]
    by_cases hcopied : x < d + (s.length + 1)
    · rw [if_neg (by omega), if_pos (by omega)]
    · rw [if_pos (by omega), List.getD_eq_default _ _ (by omega)]
      rfl
  · rw [if_neg hin]
    by_cases hend : s.length < n ∧ x = d + n
    · rw [if_pos hend, if_pos (by omega)]
      rfl
    · rw [if_neg hend, if_neg (by omega), if_neg (by omega)]

/-- Bytes that are those of characters. -/
theorem chars_of_getD {d : Nat} (hw : 0 ∉ w) (h : ∀ i, i < w.length → m (d + i) = w.getD i 0) :
    Chars m d w := by
  induction w generalizing d with
  | nil => trivial
  | cons c w ih =>
      rw [List.mem_cons, not_or] at hw
      refine ⟨h 0 (Nat.zero_lt_succ _), Ne.symm hw.1, ih hw.2 fun i hi => ?_⟩
      rw [show d + 1 + i = d + (i + 1) by omega, h (i + 1) (Nat.succ_lt_succ hi), List.getD_cons_succ]

/-- A string has no NUL inside. -/
theorem CStr.zero_notMem (h : CStr m a s) : 0 ∉ s := by
  induction s generalizing a with
  | nil => exact List.not_mem_nil
  | cons c s ih =>
      rw [List.mem_cons, not_or]
      exact ⟨Ne.symm h.2.1, ih h.2.2⟩

/-- `strncpy` copies the first `n` characters of a string. -/
theorem CStr.chars_strncpy {d n : Nat} (h : CStr m a s) (hdisj : a + s.length < d ∨ d + n ≤ a) :
    Chars (Aerogel.strncpy m d a n) d (s.take n) := by
  refine chars_of_getD (fun h0 => h.zero_notMem (List.mem_of_mem_take h0)) fun i hi => ?_
  rw [List.length_take] at hi
  rw [strncpy_apply h hdisj, if_pos (by omega), Nat.add_sub_cancel_left,
    List.getD_eq_getElem _ _ (by omega), List.getD_eq_getElem _ _ (by rw [List.length_take]; exact hi),
    List.getElem_take]

/-- `strncpy` of a string shorter than `n` copies the string. -/
theorem CStr.strncpy {d n : Nat} (h : CStr m a s) (hn : s.length < n)
    (hdisj : a + s.length < d ∨ d + n ≤ a) : CStr (strncpy m d a n) d s := by
  have hchars := h.chars_strncpy hdisj
  rw [List.take_of_length_le hn.le] at hchars
  refine cStr_iff.mpr ⟨hchars, ?_⟩
  rw [strncpy_apply h hdisj, if_pos (by omega), List.getD_eq_default _ _ (by omega)]

/-- A NUL behind the destination of `strncpy` stays there. -/
theorem strncpy_apply_end (m : Mem) {d n : Nat} (a : Nat) (h : m (d + n) = 0) :
    strncpy m d a n (d + n) = 0 := by
  obtain ⟨-, -, hframe⟩ := strncpyLoop_frame m d a n
  have hset : strncpy m d a n = memset (strncpyLoop m d a n).1 (strncpyLoop m d a n).2.1 0
      (strncpyLoop m d a n).2.2 := rfl
  rw [hset, memset_apply, hframe (d + n) (Or.inr le_rfl), h]
  exact ite_self _

/-- `strncpy` of a string that is not shorter than `n` copies its first `n` characters and writes nothing
behind them. -/
theorem CStr.strncpy_chars {d n : Nat} (h : CStr m a s) (hn : n ≤ s.length)
    (hdisj : a + s.length < d ∨ d + n ≤ a) :
    Chars (Aerogel.strncpy m d a n) d (s.take n) ∧
      ∀ x, d + n ≤ x → Aerogel.strncpy m d a n x = m x := by
  refine ⟨h.chars_strncpy hdisj, fun x hx => ?_⟩
  rw [strncpy_apply h hdisj, if_neg (by omega), if_neg (by omega)]

/-- `strncpy` copies the first `n` characters of a string, if there is a NUL behind them already. -/
theorem CStr.strncpy_take {d n : Nat} (h : CStr m a s) (hdisj : a + s.length < d ∨ d + n ≤ a)
    (hend : m (d + n) = 0) : CStr (Aerogel.strncpy m d a n) d (s.take n) := by
  by_cases hn : s.length < n
  · rw [List.take_of_length_le hn.le]
    exact h.strncpy hn hdisj
  · rw [cStr_iff, List.length_take_of_le (not_lt.mp hn)]
    exact ⟨h.chars_strncpy hdisj, strncpy_apply_end m a hend⟩

end Aerogel
