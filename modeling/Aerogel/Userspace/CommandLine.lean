import Aerogel.Foundations.Words
import Aerogel.Libc.Strings
import Mathlib.Data.List.Forall2

/-! # Command lines of the shell

`parse_args` cuts the line in `buf` into words in place: it stores a NUL behind every word and keeps the
addresses where they begin. `parseArgs_words` compares the result with the words of the line; the loops
advance along the string in front of them, and what is behind the pointer is not touched again. -/

namespace Aerogel

namespace CommandLine

/-! ## `parse_args` -/

/-- The variables of `parse_args`, and memory. -/
structure Parser where
  /-- Memory. -/
  mem : Mem
  /-- `p`. -/
  p : Nat
  /-- `args[0]` to `args[argc - 1]`. -/
  args : List Nat
  /-- The addresses that `p` has had. -/
  visited : List Nat

namespace Parser

/-- `argc`. -/
def argc (v : Parser) : Nat := v.args.length

/-- `p++`. -/
def next (v : Parser) : Parser := { v with p := v.p + 1, visited := v.visited ++ [v.p + 1] }

/-- `args[argc++] = p`. -/
def push (v : Parser) : Parser := { v with args := v.args ++ [v.p] }

/-- `*p = 0`. -/
def cut (v : Parser) : Parser := { v with mem := Function.update v.mem v.p 0 }

end Parser

/-- `while (*p == ' ') p++`. -/
def skipSpaces : Nat → Parser → Except Halt Parser
  | 0, _ => .error .diverges
  | fuel + 1, v => if v.mem v.p = 0x20 then skipSpaces fuel v.next else .ok v

/-- `while (*p && *p != ' ') p++`. -/
def skipWord : Nat → Parser → Except Halt Parser
  | 0, _ => .error .diverges
  | fuel + 1, v => if v.mem v.p ≠ 0 ∧ v.mem v.p ≠ 0x20 then skipWord fuel v.next else .ok v

/-- The loop over the words. -/
def argLoop (fuel : Nat) : Nat → Parser → Except Halt Parser
  | 0, _ => .error .diverges
  | rounds + 1, v =>
    if v.mem v.p ≠ 0 ∧ v.argc < 16 then do
      let v ← skipWord fuel v.push
      if v.mem v.p ≠ 0 then do
        let v ← skipSpaces fuel v.cut.next
        argLoop fuel rounds v
      else argLoop fuel rounds v
    else .ok v

/-- `parse_args`. -/
def parseArgs (fuel : Nat) (m : Mem) (buf : Nat) : Except Halt Parser := do
  let v ← skipSpaces fuel ⟨m, buf, [], [buf]⟩
  argLoop fuel fuel v

/-! ## Moving along the line -/

/-- `v'` is further along the same string than `v`: what is left is `rest`, and nothing else has changed. -/
structure Advanced (v v' : Parser) (s rest : List UInt8) : Prop where
  /-- The rest of the string. -/
  str : CStr v'.mem v'.p rest
  /-- It has not gone back. -/
  le : v.p ≤ v'.p
  /-- How far. -/
  dist : v'.p + rest.length = v.p + s.length
  /-- Memory. -/
  mem : v'.mem = v.mem
  /-- The words so far. -/
  args : v'.args = v.args
  /-- Where `p` has been. -/
  visited : ∀ a ∈ v'.visited, a ∈ v.visited ∨ a ≤ v.p + s.length

variable {v v' : Parser} {s rest : List UInt8} {c : UInt8} {fuel : Nat}

theorem Advanced.refl (h : CStr v.mem v.p s) : Advanced v v s s :=
  ⟨h, le_rfl, rfl, rfl, rfl, fun _ ha => .inl ha⟩

/-- One character further. -/
theorem Advanced.of_next (h : Advanced v.next v' s rest) : Advanced v v' (c :: s) rest := by
  obtain ⟨hstr, hle, hdist, hmem, hargs, hvisited⟩ := h
  refine ⟨hstr, (Nat.le_succ v.p).trans hle, ?_, hmem, hargs, fun a ha => ?_⟩
  · rw [hdist, List.length_cons]
    change v.p + 1 + s.length = _
    omega
  · rw [List.length_cons]
    rcases hvisited a ha with h | h
    · rcases List.mem_append.mp h with h | h
      · exact .inl h
      · rw [List.mem_singleton.mp h]
        exact .inr (by omega)
    · change a ≤ v.p + 1 + s.length at h
      exact .inr (by omega)

/-- Spaces are passed. -/
theorem skipSpaces_eq (h : CStr v.mem v.p s) (hfuel : s.length < fuel) :
    ∃ v', skipSpaces fuel v = .ok v' ∧ Advanced v v' s (s.dropWhile (· == 0x20)) := by
  induction s generalizing v fuel with
  | nil =>
      obtain ⟨fuel, rfl⟩ : ∃ k, fuel = k + 1 := ⟨fuel - 1, by omega⟩
      have h0 : v.mem v.p = 0 := h
      refine ⟨v, ?_, .refl h⟩
      rw [skipSpaces, h0]
      exact if_neg (by decide)
  | cons c s ih =>
      obtain ⟨fuel, rfl⟩ : ∃ k, fuel = k + 1 := ⟨fuel - 1, by omega⟩
      rw [List.length_cons] at hfuel
      rw [skipSpaces, h.1]
      by_cases hc : c = 0x20
      · obtain ⟨v', hrun, hadv⟩ := @ih v.next fuel h.2.2 (by omega)
        rw [if_pos hc, List.dropWhile_cons_of_pos (by simpa using hc)]
        exact ⟨v', hrun, hadv.of_next⟩
      · rw [if_neg hc, List.dropWhile_cons_of_neg (by simpa using hc)]
        exact ⟨v, rfl, .refl h⟩

/-- A word is passed. -/
theorem skipWord_eq (h : CStr v.mem v.p s) (hfuel : s.length < fuel) :
    ∃ v', skipWord fuel v = .ok v' ∧ Advanced v v' s (s.dropWhile (· != 0x20)) := by
  induction s generalizing v fuel with
  | nil =>
      obtain ⟨fuel, rfl⟩ : ∃ k, fuel = k + 1 := ⟨fuel - 1, by omega⟩
      have h0 : v.mem v.p = 0 := h
      refine ⟨v, ?_, .refl h⟩
      rw [skipWord, h0]
      exact if_neg fun h => h.1 rfl
  | cons c s ih =>
      obtain ⟨fuel, rfl⟩ : ∃ k, fuel = k + 1 := ⟨fuel - 1, by omega⟩
      rw [List.length_cons] at hfuel
      rw [skipWord, h.1]
      by_cases hc : c = 0x20
      · rw [if_neg fun h => h.2 hc, List.dropWhile_cons_of_neg (by simp [hc])]
        exact ⟨v, rfl, .refl h⟩
      · obtain ⟨v', hrun, hadv⟩ := @ih v.next fuel h.2.2 (by omega)
        rw [if_pos ⟨h.2.1, hc⟩, List.dropWhile_cons_of_pos (by simpa using hc)]
        exact ⟨v', hrun, hadv.of_next⟩

/-! ## The words -/

/-- The argument at `a` is the word `w`, terminated, and ends no later than at `stop`. -/
def IsArg (m : Mem) (start stop a : Nat) (w : List UInt8) : Prop := CStr m a w ∧ start ≤ a ∧ a + w.length ≤ stop

/-- From `v` on, the words `ws` of the string `s` were cut off. -/
structure Cuts (v v' : Parser) (s : List UInt8) (ws : List (List UInt8)) (new : List Nat) : Prop where
  /-- Arguments were added. -/
  args : v'.args = v.args ++ new
  /-- They are the words. -/
  words : List.Forall₂ (IsArg v'.mem v.p (v.p + s.length)) new ws
  /-- They do not begin in front of `v`. -/
  low : ∀ a ∈ new, v.p ≤ a
  /-- They stand behind each other. -/
  sorted : new.Pairwise (· < ·)
  /-- Memory outside the string is as it was. -/
  frame : ∀ x, x < v.p ∨ v.p + s.length < x → v'.mem x = v.mem x
  /-- `p` stayed in the string. -/
  visited : ∀ a ∈ v'.visited, a ∈ v.visited ∨ a ≤ v.p + s.length

theorem Cuts.nil (v : Parser) (s : List UInt8) : Cuts v v s [] [] :=
  ⟨(List.append_nil _).symm, .nil, fun _ ha => absurd ha List.not_mem_nil, .nil, fun _ _ => rfl,
    fun _ ha => .inl ha⟩

/-- A word that the line ends with. -/
theorem cuts_last (hadv : Advanced v.push v' s []) (h : CStr v.mem v.p s) : Cuts v v' s [s] [v.p] := by
  refine ⟨hadv.args, .cons ⟨?_, le_rfl, le_rfl⟩ .nil, fun a ha => (List.mem_singleton.mp ha).ge,
    List.pairwise_singleton _ _, fun x _ => ?_, hadv.visited⟩
  · rw [hadv.mem]
    exact h
  · rw [hadv.mem]
    rfl

/-- A word, a space and what follows. -/
theorem cuts_cons {v₁ v₂ v₃ : Parser} {w t rest : List UInt8} {ws : List (List UInt8)} {new : List Nat}
    (h : CStr v.mem v.p (w ++ 0x20 :: t)) (h₁ : Advanced v.push v₁ (w ++ 0x20 :: t) (0x20 :: t))
    (h₂ : Advanced v₁.cut.next v₂ t rest) (h₃ : Cuts v₂ v₃ rest ws new) :
    Cuts v v₃ (w ++ 0x20 :: t) (w :: ws) (v.p :: new) := by
  have hp₁ : v₁.p = v.p + w.length := by
    have := h₁.dist
    rw [List.length_append] at this
    change _ = v.p + _ at this
    omega
  have hp₂ : v₂.p + rest.length = v₁.p + 1 + t.length := h₂.dist
  have hle : v₁.p + 1 ≤ v₂.p := h₂.le
  have hmem : v₂.mem = Function.update v.mem (v.p + w.length) 0 := by
    rw [h₂.mem, ← hp₁]
    exact congrArg (Function.update · v₁.p 0) h₁.mem
  have hlen : (w ++ 0x20 :: t).length = w.length + 1 + t.length := by
    rw [List.length_append, List.length_cons]
    omega
  constructor
  case args =>
    have hargs₂ : v₂.args = v₁.args := h₂.args
    rw [h₃.args, hargs₂, h₁.args]
    exact List.append_assoc ..
  case words =>
    refine .cons ⟨?_, le_rfl, by omega⟩ (h₃.words.imp fun a w' ⟨hstr, hlow, hhigh⟩ => ⟨hstr, by omega, by omega⟩)
    refine h.cut.congr fun x hx hx' => ?_
    rw [h₃.frame x (.inl (by omega)), hmem]
  case low =>
    intro a ha
    rcases List.mem_cons.mp ha with rfl | ha
    · exact le_rfl
    · have := h₃.low a ha
      omega
  case sorted =>
    refine List.pairwise_cons.mpr ⟨fun a ha => ?_, h₃.sorted⟩
    have := h₃.low a ha
    omega
  case frame =>
    intro x hx
    rw [h₃.frame x (by omega), hmem, Function.update_of_ne (by omega)]
  case visited =>
    intro a ha
    rcases h₃.visited a ha with ha | ha
    · rcases h₂.visited a ha with ha | ha
      · rcases List.mem_append.mp ha with ha | ha
        · exact h₁.visited a ha
        · rw [List.mem_singleton.mp ha]
          change v₁.p + 1 ∈ _ ∨ v₁.p + 1 ≤ _
          omega
      · change a ≤ v₁.p + 1 + t.length at ha
        omega
    · omega

section Rounds

variable {v₁ v₂ : Parser} {rounds : Nat}

/-- There is nothing left, or no room for another argument. -/
theorem argLoop_stop (h : v.mem v.p = 0 ∨ 16 ≤ v.argc) : argLoop fuel (rounds + 1) v = .ok v := by
  rw [argLoop]
  exact if_neg fun hc => h.elim hc.1 (not_le.mpr hc.2)

/-- A round that reaches the end of the line: nothing is cut. -/
theorem argLoop_last (h : v.mem v.p ≠ 0 ∧ v.argc < 16) (hrun : skipWord fuel v.push = .ok v₁)
    (hend : v₁.mem v₁.p = 0) : argLoop fuel (rounds + 2) v = .ok v₁ := by
  rw [argLoop, if_pos h, hrun]
  exact (if_neg (not_not.mpr hend)).trans (argLoop_stop (.inl hend))

/-- A round that reaches a space. -/
theorem argLoop_cut (h : v.mem v.p ≠ 0 ∧ v.argc < 16) (hrun : skipWord fuel v.push = .ok v₁)
    (hspace : v₁.mem v₁.p ≠ 0) (hrun₂ : skipSpaces fuel v₁.cut.next = .ok v₂) :
    argLoop fuel (rounds + 1) v = argLoop fuel rounds v₂ := by
  rw [argLoop, if_pos h, hrun]
  refine (if_pos hspace).trans ?_
  rw [hrun₂]
  rfl

end Rounds

/-- The loop cuts off the words of the line, as long as there is room for arguments. -/
theorem argLoop_eq {rounds : Nat} (h : CStr v.mem v.p s) (hhead : s.head? ≠ some 0x20) (hfuel : s.length < fuel)
    (hrounds : s.length < rounds) : ∃ v' new, argLoop fuel rounds v = .ok v' ∧
      Cuts v v' s ((words 0x20 s).take (16 - v.argc)) new := by
  induction rounds generalizing v s with
  | zero => exact absurd hrounds (Nat.not_lt_zero _)
  | succ rounds ih =>
      by_cases hs : s = []
      · subst hs
        rw [words_nil, List.take_nil]
        exact ⟨v, [], argLoop_stop (.inl h), .nil v []⟩
      by_cases hfull : 16 ≤ v.argc
      · rw [Nat.sub_eq_zero_of_le hfull, List.take_zero]
        exact ⟨v, [], argLoop_stop (.inr hfull), .nil v s⟩
      have hround : v.mem v.p ≠ 0 ∧ v.argc < 16 := ⟨h.head_ne_zero hs, not_le.mp hfull⟩
      rw [show 16 - v.argc = 16 - (v.argc + 1) + 1 by omega]
      obtain ⟨v₁, hrun₁, hadv₁⟩ := @skipWord_eq v.push s fuel h hfuel
      have hargc : v₁.argc = v.argc + 1 := by
        rw [Parser.argc, hadv₁.args]
        exact List.length_append
      rcases word_cases hhead with ⟨hword, hrest⟩ | ⟨w, t, rfl, hne, hword, hrest⟩
      · -- the last word
        rw [hrest] at hadv₁
        have hpos := List.length_pos_of_ne_nil hs
        obtain ⟨rounds, rfl⟩ : ∃ k, rounds = k + 1 := ⟨rounds - 1, by omega⟩
        rw [words_eq_singleton hword hs, List.take_succ_cons, List.take_nil]
        exact ⟨v₁, _, argLoop_last hround hrun₁ hadv₁.str, cuts_last hadv₁ h⟩
      · -- a word, a space and the rest of the line
        rw [hrest] at hadv₁
        rw [List.length_append, List.length_cons] at hfuel hrounds
        have hcut : CStr v₁.cut.next.mem v₁.cut.next.p t :=
          hadv₁.str.2.2.congr fun x hx _ => Function.update_of_ne (show x ≠ v₁.p by omega) _ _
        obtain ⟨v₂, hrun₂, hadv₂⟩ := @skipSpaces_eq v₁.cut.next t fuel hcut (by omega)
        have hargc₂ : v₂.argc = v.argc + 1 := by
          rw [← hargc, Parser.argc, hadv₂.args]
          rfl
        have hshort := List.length_dropWhile_le (· == 0x20) t
        obtain ⟨v₃, new, hrun₃, hcuts⟩ := ih hadv₂.str (head?_dropWhile_ne t) (by omega) (by omega)
        rw [words_dropWhile, hargc₂] at hcuts
        rw [words_append_sep hword hne, List.take_succ_cons]
        have hspace := hadv₁.str.head_ne_zero (List.cons_ne_nil _ _)
        exact ⟨v₃, _, (argLoop_cut hround hrun₁ hspace hrun₂).trans hrun₃, cuts_cons h hadv₁ hadv₂ hcuts⟩

/-- Every line of at most 255 characters is split into its words, sixteen at most: the arguments are the
words, in order, each with a NUL behind it inside the buffer, and `p` does not pass the end of the line. -/
theorem parseArgs_words {m : Mem} {buf : Nat} {line : List UInt8} (h : CStr m buf line) (hlen : line.length ≤ 255)
    {fuel : Nat} (hfuel : 255 < fuel) : ∃ v, parseArgs fuel m buf = .ok v ∧
      List.Forall₂ (fun a w => CStr v.mem a w ∧ buf ≤ a ∧ a + w.length < buf + 256) v.args
        ((words 0x20 line).take 16) ∧
      v.args.Pairwise (· < ·) ∧ v.argc = min 16 (words 0x20 line).length ∧
      ∀ a ∈ v.visited, a ≤ buf + line.length := by
  obtain ⟨v₁, hrun₁, hadv⟩ := @skipSpaces_eq ⟨m, buf, [], [buf]⟩ line fuel h (by omega)
  have hshort := List.length_dropWhile_le (· == 0x20) line
  obtain ⟨v, new, hrun, hcuts⟩ :=
    @argLoop_eq v₁ _ fuel fuel hadv.str (head?_dropWhile_ne line) (by omega) (by omega)
  have hdist : v₁.p + (line.dropWhile (· == 0x20)).length = buf + line.length := hadv.dist
  have hle : buf ≤ v₁.p := hadv.le
  have hargs₁ : v₁.args = [] := hadv.args
  have hargs : v.args = new := by
    rw [hcuts.args, hargs₁, List.nil_append]
  have hwords := hcuts.words
  rw [words_dropWhile, show v₁.argc = 0 by rw [Parser.argc, hargs₁]; rfl] at hwords
  refine ⟨v, ?_, ?_, ?_, ?_, fun a ha => ?_⟩
  · rw [parseArgs, hrun₁]
    exact hrun
  · rw [hargs]
    exact hwords.imp fun a w ⟨hstr, hlow, hhigh⟩ => ⟨hstr, by omega, by omega⟩
  · rw [hargs]
    exact hcuts.sorted
  · rw [Parser.argc, hargs, hwords.length_eq, List.length_take]
  · rcases hcuts.visited a ha with ha | ha
    · rcases hadv.visited a ha with ha | ha
      · rw [List.mem_singleton.mp ha]
        exact Nat.le_add_right buf _
      · exact ha
    · omega

/-- Memory with `"  ls  /tmp"` at 0x1000. -/
def commandLine : Mem := fun a =>
  if 0x1000 ≤ a then [0x20, 0x20, 0x6C, 0x73, 0x20, 0x20, 0x2F, 0x74, 0x6D, 0x70].getD (a - 0x1000) 0 else 0

/-- It is split into `"ls"` and `"/tmp"`. -/
theorem parseArgs_words_ls : ∃ v, parseArgs 256 commandLine 0x1000 = .ok v ∧ v.argc = 2 ∧
    List.Forall₂ (CStr v.mem) v.args [[0x6C, 0x73], [0x2F, 0x74, 0x6D, 0x70]] := by
  have h : CStr commandLine 0x1000 [0x20, 0x20, 0x6C, 0x73, 0x20, 0x20, 0x2F, 0x74, 0x6D, 0x70] := by
    simp [CStr, commandLine]
  obtain ⟨v, hrun, hargs, -, hargc, -⟩ := parseArgs_words h (by decide) (show 255 < 256 by decide)
  exact ⟨v, hrun, hargc, hargs.imp fun _ _ harg => harg.1⟩

end CommandLine

end Aerogel
