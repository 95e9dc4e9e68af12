import Aerogel.Foundations.AccessLog
import Aerogel.Libc.Strings

/-! # The bytes that `strncpy` writes

`strncpy` with its accesses to memory. Its two loops share the counter, and the NUL that ends the first one
is not counted: a string shorter than `n` is stored with one byte more than `n` (`strncpyLog_mem`). The
destination is filled as it should be, and nothing else written, exactly for strings that are not shorter
than `n` (`strncpy_exactCopy_iff`). -/

namespace Aerogel

/-- `memset` with its accesses. -/
def memsetLog (m : Mem) (dst c : Nat) : Nat → Logged Halt Mem
  | 0 => return m
  | n + 1 => do
    let m ← Logged.store m dst (UInt8.ofNat c)
    memsetLog m (dst + 1) c n

/-- The first loop of `strncpy` with its accesses. -/
def strncpyLoopLog (m : Mem) (d s : Nat) : Nat → Logged Halt (Mem × Nat × Nat)
  | 0 => return (m, d, 0)
  | n + 1 => do
    let v ← Logged.load m s
    let m' ← Logged.store m d v
    if v ≠ 0 then strncpyLoopLog m' (d + 1) (s + 1) n else return (m', d + 1, n + 1)

/-- `strncpy` with its accesses. -/
def strncpyLog (m : Mem) (dst src n : Nat) : Logged Halt Mem := do
  let (m, d, n) ← strncpyLoopLog m dst src n
  memsetLog m d 0 n

variable {m : Mem} {a : Nat} {s : List UInt8}

/-! ## Without the log -/

theorem memsetLog_result (m : Mem) (dst c n : Nat) :
    (memsetLog m dst c n).result = .ok (memset m dst c n) := by
  induction n generalizing m dst with
  | zero => rfl
  | succ n ih => exact ih _ (dst + 1)

theorem strncpyLoopLog_result (m : Mem) (d s n : Nat) :
    (strncpyLoopLog m d s n).result = .ok (strncpyLoop m d s n) := by
  induction n generalizing m d s with
  | zero => rfl
  | succ n ih =>
      rw [strncpyLoopLog, strncpyLoop, Logged.result_load_bind, Logged.result_store_bind]
      split_ifs
      · exact ih _ (d + 1) (s + 1)
      · rfl

theorem strncpyLog_result (m : Mem) (dst src n : Nat) :
    (strncpyLog m dst src n).result = .ok (strncpy m dst src n) := by
  rw [strncpyLog, Logged.result_bind, strncpyLoopLog_result]
  exact memsetLog_result ..

/-! ## The log -/

theorem memsetLog_log (m : Mem) (dst c n : Nat) :
    (memsetLog m dst c n).log = (List.range' dst n).map .write := by
  induction n generalizing m dst with
  | zero => rfl
  | succ n ih =>
      rw [memsetLog, Logged.log_store_bind, ih, List.range'_succ, List.map_cons]

/-- `strncpy` reads the string, writes the buffer and leaves nothing out. -/
theorem strncpyLoopLog_mem {d n : Nat} (h : CStr m a s) (hdisj : a + s.length < d ∨ d + n ≤ a) :
    (∀ x, .read x ∈ (strncpyLoopLog m d a n).log → a ≤ x ∧ x ≤ a + s.length) ∧
    ∀ x, .write x ∈ (strncpyLoopLog m d a n).log ↔ d ≤ x ∧ x < d + min n (s.length + 1) := by
  induction n generalizing m a d s with
  | zero =>
      refine ⟨fun x hx => absurd hx List.not_mem_nil, fun x => ?_⟩
      exact iff_of_false List.not_mem_nil (by omega)
  | succ n ih =>
      rw [strncpyLoopLog, Logged.log_load_bind, Logged.log_store_bind]
      cases s with
      | nil =>
          rw [if_neg (not_not.mpr (show m a = 0 from h))]
          simp only [Logged.log_pure, List.mem_cons, Access.read.injEq, Access.write.injEq,
            reduceCtorEq, List.not_mem_nil, or_false, false_or, List.length_nil, Nat.add_zero]
          exact ⟨fun x hx => by omega, fun x => by omega⟩
      | cons c s =>
          have hc : m a ≠ 0 := by
            rw [h.1]
            exact h.2.1
          rw [List.length_cons] at hdisj ⊢
          have hrest : CStr (Function.update m d (m a)) (a + 1) s :=
            h.2.2.congr fun x h₁ h₂ => Function.update_of_ne (show x ≠ d by omega) _ _
          obtain ⟨hread, hwrite⟩ := @ih (Function.update m d (m a)) (a + 1) s (d + 1) hrest (by omega)
          rw [if_pos hc]
          simp only [List.mem_cons, Access.read.injEq, Access.write.injEq, reduceCtorEq, false_or, hwrite]
          refine ⟨fun x hx => ?_, fun x => by omega⟩
          obtain rfl | hx := hx
          · omega
          · have := hread x hx
            omega

/-- What `strncpy` reads and writes: of a string shorter than `n` one byte more than `n`, and `n` bytes
without a NUL otherwise. -/
theorem strncpyLog_mem {d n : Nat} (h : CStr m a s) (hdisj : a + s.length < d ∨ d + n ≤ a) :
    (∀ x, .read x ∈ (strncpyLog m d a n).log → a ≤ x ∧ x ≤ a + s.length) ∧
    ∀ x, .write x ∈ (strncpyLog m d a n).log ↔
      d ≤ x ∧ x < d + if s.length < n then n + 1 else n := by
  obtain ⟨hread, hwrite⟩ := strncpyLoopLog_mem h hdisj
  obtain ⟨m', hrun, -⟩ := strncpyLoop_eq h hdisj
  have hlog : (strncpyLog m d a n).log = (strncpyLoopLog m d a n).log ++
      (List.range' (d + min n (s.length + 1)) (n - s.length)).map .write := by
    rw [strncpyLog, Logged.log_bind (strncpyLoopLog_result m d a n), hrun]
    exact congrArg _ (memsetLog_log ..)
  rw [hlog]
  simp only [List.mem_append, List.mem_map, List.mem_range'_1, reduceCtorEq, and_false,
    exists_false, or_false, Access.write.injEq, exists_eq_right, hwrite]
  refine ⟨hread, fun x => ?_⟩
  split_ifs <;> omega

/-! ## Exact copies -/

/-- A run turns the memory `m` into `m'` and fills the `n` bytes at `d` with the string `s`. -/
structure ExactCopy (m m' : Mem) (log : List Access) (d n : Nat) (s : List UInt8) : Prop where
  /-- The bytes of the destination are written, and no other byte is. -/
  stores : ∀ x, .write x ∈ log ↔ d ≤ x ∧ x < d + n
  /-- The destination begins with the characters of the string, as many as there are and fit. -/
  copied : ∀ i, i < min n s.length → m' (d + i) = s.getD i 0
  /-- Behind them are NULs. -/
  padded : ∀ i, s.length ≤ i → i < n → m' (d + i) = 0
  /-- The bytes behind the destination, and those in front of it, keep their values. -/
  kept : ∀ x, x < d ∨ d + n ≤ x → m' x = m x

/-- `strncpy` returns, and fills the `n` bytes of its destination without another store exactly when the
string is not shorter than `n`. -/
theorem strncpy_exactCopy_iff {d n : Nat} (h : CStr m a s) (hdisj : a + s.length < d ∨ d + n ≤ a) :
    (strncpyLog m d a n).result = .ok (strncpy m d a n) ∧
      (ExactCopy m (strncpy m d a n) (strncpyLog m d a n).log d n s ↔ n ≤ s.length) := by
  have hwrite := (strncpyLog_mem h hdisj).2
  refine ⟨strncpyLog_result m d a n, fun hexact => ?_, fun hn => ?_⟩
  · -- the byte behind the destination is written for a shorter string
    by_contra hlt
    have hend := (hwrite (d + n)).mpr (by rw [if_pos (not_le.mp hlt)]; omega)
    exact absurd ((hexact.stores _).mp hend).2 (lt_irrefl _)
  · refine ⟨fun x => ?_, fun i hi => ?_, fun i h₁ h₂ => by omega, fun x hx => ?_⟩
    · rw [hwrite, if_neg (not_lt.mpr hn)]
    · rw [strncpy_apply h hdisj, if_pos (by omega), Nat.add_sub_cancel_left]
    · rw [strncpy_apply h hdisj, if_neg (by omega), if_neg (by omega)]

/-- The bytes behind the destination keep their values also when the first of them is NUL already. -/
theorem strncpy_keeps_iff {d n : Nat} (h : CStr m a s) (hdisj : a + s.length < d ∨ d + n ≤ a) :
    (∀ x, d + n ≤ x → strncpy m d a n x = m x) ↔ n ≤ s.length ∨ m (d + n) = 0 := by
  refine ⟨fun hkept => ?_, fun hcond x hx => ?_⟩
  · have hend := hkept (d + n) le_rfl
    rw [strncpy_apply h hdisj, if_neg (by omega)] at hend
    by_cases hlt : s.length < n
    · rw [if_pos ⟨hlt, rfl⟩] at hend
      exact Or.inr hend.symm
    · exact Or.inl (not_lt.mp hlt)
  · rw [strncpy_apply h hdisj, if_neg (by omega)]
    split_ifs with hend
    · rw [hend.2, hcond.resolve_left (not_le.mpr hend.1)]
    · rfl

/-- Memory with the string `"a"` at 100 and a byte that is not NUL at 204. -/
def shortSource : Mem := fun x => if x = 100 then 0x61 else if x = 204 then 7 else 0

theorem cStr_shortSource : CStr shortSource 100 [0x61] := ⟨rfl, by decide, rfl⟩

/-- `strncpy(dst, "a", 4)` changes the fifth byte of `dst`. -/
theorem strncpy_not_exactCopy : CStr shortSource 100 [0x61] ∧ strncpy shortSource 200 100 4 204 = 0 ∧
    shortSource 204 = 7 ∧
    ¬ ExactCopy shortSource (strncpy shortSource 200 100 4) (strncpyLog shortSource 200 100 4).log 200 4 [0x61] := by
  have hend : strncpy shortSource 200 100 4 204 = 0 := by decide
  refine ⟨cStr_shortSource, hend, rfl, fun hexact => ?_⟩
  have hkept := hexact.kept 204 (Or.inr le_rfl)
  rw [hend] at hkept
  exact absurd hkept (by decide)

/-- A destination of one byte is filled with the one character. -/
theorem strncpy_exactCopy_iff_one :
    ExactCopy shortSource (strncpy shortSource 200 100 1) (strncpyLog shortSource 200 100 1).log 200 1 [0x61] :=
  (strncpy_exactCopy_iff cStr_shortSource (Or.inl (by decide))).2.mpr le_rfl

end Aerogel
