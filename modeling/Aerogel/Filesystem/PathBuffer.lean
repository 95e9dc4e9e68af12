import Aerogel.Filesystem.Mounts
import Aerogel.Libc.StrncpyBytes

/-! # The buffer of a path resolution

`resolve` copies a path into 256 bytes on the stack with `strncpy(buf, path + 1, 255)`, which ends the copy
with a NUL only if the path is short enough. Here the same function logs its accesses to memory. They are
clean, and the result is that of the path, exactly for paths that fit and for those that fail on a component
which ends inside the buffer (`resolveDefined_iff`); every other path makes it read the last byte of the
buffer, which nobody has written. -/

namespace Aerogel

variable {Node : Type}

/-! ## Resolution with a log -/

/-- `strchr` with its accesses. -/
def strchrLog (m : Mem) (c : UInt8) : Nat → Nat → Logged Halt (Option Nat)
  | 0, _ => .fail .diverges
  | fuel + 1, s => do
    let v ← Logged.load m s
    if v = 0 then return if c = 0 then some s else none
    else if v = c then return some s
    else strchrLog m c fuel (s + 1)

/-- A callee that reads a string. -/
def readStrLog (m : Mem) : Nat → Nat → Logged Halt (List UInt8)
  | 0, _ => .fail .diverges
  | fuel + 1, a => do
    let v ← Logged.load m a
    if v = 0 then return []
    else
      let s ← readStrLog m fuel (a + 1)
      return v :: s

/-- The loop of `resolve` with its accesses. -/
def resolveLoopLog (ops : NodeOps Node) : Nat → Mem → Nat → Node → Logged Halt (Option Node)
  | 0, _, _, _ => .fail .diverges
  | fuel + 1, m, tok, node => do
    let v ← Logged.load m tok
    if v = 0 then return some node
    else
      let sep ← strchrLog m slash fuel tok
      let m ← sep.elim (pure m) fun p => Logged.store m p 0
      match ops.finddir node with
      | none => return none
      | some finddir =>
        let name ← readStrLog m fuel tok
        match finddir name with
        | none => return none
        | some node =>
          match sep with
          | none => return some node
          | some p => resolveLoopLog ops fuel m (p + 1) node

/-- `resolve` with its accesses. -/
def resolveLog (ops : NodeOps Node) (v : Vfs Node) (m : Mem) (path buf fuel : Nat) :
    Logged Halt (Option Node) :=
  if path = 0 then return none
  else do
    let c ← Logged.load m path
    if c ≠ slash then return none
    else
      match v.vfsRoot with
      | none => return none
      | some node =>
        let c ← Logged.load m (path + 1)
        if c = 0 then return some node
        else
          let m ← strncpyLog m buf (path + 1) 255
          resolveLoopLog ops fuel m buf node

/-! ## Without the log -/

variable {ops : NodeOps Node} {node : Node} {m : Mem} {fuel : Nat}

theorem strchrLog_result (m : Mem) (c : UInt8) (fuel s : Nat) :
    (strchrLog m c fuel s).result = strchr m c fuel s := by
  induction fuel generalizing s with
  | zero => rfl
  | succ fuel ih =>
      rw [strchrLog, strchr, Logged.result_load_bind]
      split_ifs
      · rfl
      · rfl
      · rfl
      · exact ih (s + 1)

theorem readStrLog_result (m : Mem) (fuel a : Nat) :
    (readStrLog m fuel a).result = readStr m fuel a := by
  induction fuel generalizing a with
  | zero => rfl
  | succ fuel ih =>
      rw [readStrLog, readStr, Logged.result_load_bind]
      split_ifs
      · rfl
      · rw [Logged.result_bind, ih]
        cases readStr m fuel (a + 1) <;> rfl

/-- The store that ends a component. -/
theorem storeSep_result (m : Mem) (sep : Option Nat) :
    (sep.elim (pure m) fun p => Logged.store m p 0 : Logged Halt Mem).result =
      .ok (sep.elim m fun p => Function.update m p 0) := by
  cases sep <;> rfl

/-- Logging does not change what the loop of `resolve` returns. -/
theorem resolveLoopLog_result (fuel : Nat) (m : Mem) (tok : Nat) (node : Node) :
    (resolveLoopLog ops fuel m tok node).result = resolveLoop ops fuel m tok node := by
  induction fuel generalizing m tok node with
  | zero => rfl
  | succ fuel ih =>
      rw [resolveLoopLog, resolveLoop, Logged.result_load_bind]
      split
      · rfl
      rw [Logged.result_bind, strchrLog_result]
      cases strchr m slash fuel tok with
      | error e => rfl
      | ok sep =>
          change (_ >>= _ : Logged Halt (Option Node)).result = _
          rw [Logged.result_bind, storeSep_result]
          simp only [bind, Except.bind]
          cases ops.finddir node with
          | none => rfl
          | some finddir =>
              dsimp only
              change (_ >>= _ : Logged Halt (Option Node)).result = _
              rw [Logged.result_bind, readStrLog_result]
              cases readStr (sep.elim m fun p => Function.update m p 0) fuel tok with
              | error e => rfl
              | ok name =>
                  simp only [bind, Except.bind]
                  cases finddir name with
                  | none => rfl
                  | some n =>
                      cases sep with
                      | none => rfl
                      | some p => exact ih _ (p + 1) n

/-- Logging does not change what `resolve` returns. -/
theorem resolveLog_result (v : Vfs Node) (m : Mem) (path buf fuel : Nat) :
    (resolveLog ops v m path buf fuel).result = resolve ops v m path buf fuel := by
  rw [resolveLog, resolve]
  by_cases hpath : path = 0
  · rw [if_pos hpath, if_pos (Or.inl hpath)]
    rfl
  · rw [if_neg hpath, Logged.result_load_bind]
    by_cases hslash : m path = slash
    · rw [if_neg (not_not.mpr hslash), if_neg (not_or.mpr ⟨hpath, not_not.mpr hslash⟩)]
      cases v.vfsRoot with
      | none => rfl
      | some node =>
          dsimp only
          rw [Logged.result_load_bind]
          split_ifs
          · rfl
          · rw [Logged.result_bind, strncpyLog_result]
            exact resolveLoopLog_result fuel _ buf node
    · rw [if_pos hslash, if_pos (Or.inr hslash)]
      rfl

/-! ## Logs of strings -/

variable {a tok : Nat} {s w : List UInt8} {c : UInt8}

/-- `strchr` reads no further than the character it finds. -/
theorem strchrLog_within (h : Chars m a (w ++ c :: s)) (hw : c ∉ w) (hfuel : w.length < fuel) :
    Within a (a + w.length + 1) (strchrLog m c fuel a).log := by
  induction w generalizing a fuel with
  | nil =>
      obtain ⟨fuel, rfl⟩ : ∃ k, fuel = k + 1 := ⟨fuel - 1, by omega⟩
      rw [strchrLog, Logged.log_load_bind, h.1, if_neg h.2.1, if_pos rfl]
      simp [Access.addr]
  | cons d w ih =>
      obtain ⟨fuel, rfl⟩ : ∃ k, fuel = k + 1 := ⟨fuel - 1, by omega⟩
      rw [List.mem_cons, not_or] at hw
      rw [List.length_cons] at hfuel ⊢
      rw [strchrLog, Logged.log_load_bind, h.1, if_neg h.2.1, if_neg (Ne.symm hw.1), within_cons]
      refine ⟨⟨le_rfl, show a < _ by omega⟩, ?_⟩
      exact (ih h.2.2 hw.2 (show w.length < fuel by omega)).mono (by omega) (by omega)

/-- `strchr` reads on behind characters among which it finds nothing. -/
theorem strchrLog_past (h : Chars m a w) (hw : c ∉ w) (hfuel : w.length < fuel) :
    ∃ pre post, (strchrLog m c fuel a).log = pre ++ .read (a + w.length) :: post ∧
      Within a (a + w.length) pre := by
  induction w generalizing a fuel with
  | nil =>
      obtain ⟨fuel, rfl⟩ : ∃ k, fuel = k + 1 := ⟨fuel - 1, by omega⟩
      rw [strchrLog, Logged.log_load_bind]
      exact ⟨[], _, rfl, within_nil _ _⟩
  | cons d w ih =>
      obtain ⟨fuel, rfl⟩ : ∃ k, fuel = k + 1 := ⟨fuel - 1, by omega⟩
      rw [List.mem_cons, not_or] at hw
      rw [List.length_cons] at hfuel ⊢
      obtain ⟨pre, post, hlog, hpre⟩ := ih h.2.2 hw.2 (show w.length < fuel by omega)
      rw [strchrLog, Logged.log_load_bind, h.1, if_neg h.2.1, if_neg (Ne.symm hw.1), hlog,
        show a + 1 + w.length = a + (w.length + 1) by omega]
      refine ⟨.read a :: pre, post, rfl, within_cons.mpr ⟨⟨le_rfl, show a < _ by omega⟩, ?_⟩⟩
      exact hpre.mono (by omega) (by omega)

/-- `strchr` in a whole string. -/
theorem strchrLog_within_of_cStr (h : CStr m a s) (hs : c ∉ s) (hfuel : s.length < fuel) :
    Within a (a + s.length + 1) (strchrLog m c fuel a).log := by
  induction s generalizing a fuel with
  | nil =>
      obtain ⟨fuel, rfl⟩ : ∃ k, fuel = k + 1 := ⟨fuel - 1, by omega⟩
      rw [strchrLog, Logged.log_load_bind, if_pos (show m a = 0 from h)]
      simp [Access.addr]
  | cons d s ih =>
      obtain ⟨fuel, rfl⟩ : ∃ k, fuel = k + 1 := ⟨fuel - 1, by omega⟩
      rw [List.mem_cons, not_or] at hs
      rw [List.length_cons] at hfuel ⊢
      rw [strchrLog, Logged.log_load_bind, h.1, if_neg h.2.1, if_neg (Ne.symm hs.1), within_cons]
      refine ⟨⟨le_rfl, show a < _ by omega⟩, ?_⟩
      exact (ih h.2.2 hs.2 (show s.length < fuel by omega)).mono (by omega) (by omega)

/-- A callee reads a string up to its NUL. -/
theorem readStrLog_within (h : CStr m a s) (hfuel : s.length < fuel) :
    Within a (a + s.length + 1) (readStrLog m fuel a).log := by
  induction s generalizing a fuel with
  | nil =>
      obtain ⟨fuel, rfl⟩ : ∃ k, fuel = k + 1 := ⟨fuel - 1, by omega⟩
      rw [readStrLog, Logged.log_load_bind, if_pos (show m a = 0 from h)]
      simp [Access.addr]
  | cons d s ih =>
      obtain ⟨fuel, rfl⟩ : ∃ k, fuel = k + 1 := ⟨fuel - 1, by omega⟩
      rw [List.length_cons] at hfuel ⊢
      have hrest : (readStrLog m fuel (a + 1)).result = .ok s := by
        rw [readStrLog_result, h.2.2.readStr_eq (by omega)]
      rw [readStrLog, Logged.log_load_bind, h.1, if_neg h.2.1, Logged.log_bind hrest, within_cons]
      refine ⟨⟨le_rfl, show a < _ by omega⟩, ?_⟩
      rw [Logged.log_pure, List.append_nil]
      exact (ih h.2.2 (show s.length < fuel by omega)).mono (by omega) (by omega)

/-! ## The log of the loop -/

/-- The log of one round of the loop, when the component at `tok` and the separator behind it are
known. -/
theorem resolveLoopLog_log {sep : Option Nat} {name : List UInt8} (hne : m tok ≠ 0)
    (hsep : strchr m slash fuel tok = .ok sep)
    (hname : readStr (sep.elim m fun p => Function.update m p 0) fuel tok = .ok name) :
    (resolveLoopLog ops (fuel + 1) m tok node).log =
      .read tok :: ((strchrLog m slash fuel tok).log ++ (sep.toList.map .write ++
        (ops.finddir node).elim [] fun finddir =>
          (readStrLog (sep.elim m fun p => Function.update m p 0) fuel tok).log ++
            (finddir name).elim [] fun n => sep.elim [] fun p =>
              (resolveLoopLog ops fuel (Function.update m p 0) (p + 1) n).log)) := by
  have hstore : (sep.elim (pure m) fun p => Logged.store m p 0 : Logged Halt Mem).log =
      sep.toList.map .write := by
    cases sep <;> rfl
  rw [resolveLoopLog, Logged.log_load_bind, if_neg hne,
    Logged.log_bind ((strchrLog_result ..).trans hsep), Logged.log_bind (storeSep_result m sep), hstore]
  cases ops.finddir node with
  | none => rfl
  | some finddir =>
      dsimp only [Option.elim_some]
      rw [Logged.log_bind ((readStrLog_result ..).trans hname)]
      cases finddir name with
      | none => rfl
      | some n => cases sep <;> rfl

/-- The components that end inside a piece of a path: those with a `'/'` behind them. -/
def closedComponents (w : List UInt8) : List (List UInt8) := (w.splitOn slash).dropLast

/-- A component that ends. -/
theorem closedComponents_cons {w rest : List UInt8} (hw : slash ∉ w) :
    closedComponents (w ++ slash :: rest) = w :: closedComponents rest := by
  obtain ⟨d, ds, hds⟩ := List.exists_cons_of_ne_nil (List.splitOn_ne_nil slash rest)
  rw [closedComponents, closedComponents, List.splitOn_append_cons_self_of_not_mem hw rest, hds,
    List.dropLast_cons_cons]

/-- A piece without separator. -/
theorem closedComponents_of_notMem {w : List UInt8} (hw : slash ∉ w) : closedComponents w = [] := by
  rw [closedComponents, List.splitOn_eq_singleton hw]
  rfl

/-- On a string the loop of `resolve` stays inside it. -/
theorem resolveLoopLog_within (h : CStr m tok s) (hfuel : s.length + 1 < fuel) :
    Within tok (tok + s.length + 1) (resolveLoopLog ops fuel m tok node).log := by
  induction fuel generalizing m tok s node with
  | zero => omega
  | succ fuel ih =>
      by_cases hnil : s = []
      · subst hnil
        rw [resolveLoopLog, Logged.log_load_bind, if_pos (show m tok = 0 from h)]
        simp [Access.addr]
      have hne : m tok ≠ 0 := h.head_ne_zero hnil
      by_cases hmem : slash ∈ s
      · obtain ⟨w, rest, rfl, hw⟩ := List.eq_append_cons_of_mem hmem
        rw [List.length_append, List.length_cons] at hfuel ⊢
        have hcut := h.cut
        have hrest : CStr (Function.update m (tok + w.length) 0) (tok + w.length + 1) rest :=
          h.drop.2.2.congr fun x h₁ _ => Function.update_of_ne (by omega) _ _
        rw [resolveLoopLog_log hne (h.strchr_eq_some hw (by omega)) (hcut.readStr_eq (by omega))]
        have hstr := strchrLog_within (cStr_iff.mp h).1 hw (show w.length < fuel by omega)
        simp only [within_cons, within_append, Access.addr]
        have hsep : Within tok (tok + (w.length + (rest.length + 1)) + 1) [.write (tok + w.length)] :=
          within_cons.mpr ⟨by rw [Access.addr]; omega, within_nil _ _⟩
        refine ⟨by omega, hstr.mono le_rfl (by omega), hsep, ?_⟩
        cases ops.finddir node with
        | none => exact within_nil _ _
        | some finddir =>
            refine within_append.mpr
              ⟨(readStrLog_within hcut (by omega)).mono le_rfl (by omega), ?_⟩
            cases finddir w with
            | none => exact within_nil _ _
            | some n => exact (ih hrest (by omega)).mono (by omega) (by omega)
      · have hsep := h.strchr_eq_none hmem (by decide) (show s.length < fuel by omega)
        rw [resolveLoopLog_log hne hsep (h.readStr_eq (by omega))]
        have hstr := strchrLog_within_of_cStr h hmem (show s.length < fuel by omega)
        simp only [within_cons, within_append, Access.addr]
        refine ⟨by omega, hstr, within_nil _ _, ?_⟩
        cases ops.finddir node with
        | none => exact within_nil _ _
        | some finddir =>
            refine within_append.mpr ⟨readStrLog_within h (by omega), ?_⟩
            cases finddir s <;> exact within_nil _ _

/-- A component that does not end inside its characters makes the loop read the byte behind them: as a character
of its own, or looking for a separator. -/
theorem resolveLoopLog_of_last (h : Chars m tok w) (hmem : slash ∉ w) (hfuel : w.length < fuel) :
    ∃ pre post, (resolveLoopLog ops (fuel + 1) m tok node).log = pre ++ .read (tok + w.length) :: post ∧
      Within tok (tok + w.length) pre := by
  rw [resolveLoopLog, Logged.log_load_bind]
  by_cases hnil : w = []
  · subst hnil
    exact ⟨[], _, rfl, within_nil _ _⟩
  · have hlen : 0 < w.length := List.length_pos_iff.mpr hnil
    rw [if_neg (h.head_ne_zero hnil)]
    -- the separator is looked for behind the characters
    obtain ⟨pre, post, hlog, hpre⟩ := strchrLog_past h hmem hfuel
    obtain ⟨rest, hrest⟩ := Logged.log_prefix_bind (strchrLog m slash fuel tok) _
    rw [← hrest, hlog]
    refine ⟨.read tok :: pre, post ++ rest, by simp, within_cons.mpr ⟨⟨le_rfl, ?_⟩, hpre⟩⟩
    change tok < _
    omega

/-- On characters without a NUL the loop of `resolve` stays inside them if a lookup of a component that
ends inside them fails; otherwise it reads the byte behind them. -/
theorem resolveLoopLog_of_chars (h : Chars m tok w) (hfuel : w.length + 1 < fuel) :
    (walk ops node (closedComponents w) = none →
      resolveLoop ops fuel m tok node = .ok none ∧
        Within tok (tok + w.length) (resolveLoopLog ops fuel m tok node).log) ∧
    (walk ops node (closedComponents w) ≠ none →
      ∃ pre post, (resolveLoopLog ops fuel m tok node).log = pre ++ .read (tok + w.length) :: post ∧
        Within tok (tok + w.length) pre) := by
  induction fuel generalizing m tok w node with
  | zero => omega
  | succ fuel ih =>
      by_cases hmem : slash ∈ w
      · obtain ⟨c, rest, rfl, hc⟩ := List.eq_append_cons_of_mem hmem
        have hne : m tok ≠ 0 := h.head_ne_zero (by simp)
        rw [List.length_append, List.length_cons] at hfuel ⊢
        have hcut := h.cut
        have hrest : Chars (Function.update m (tok + c.length) 0) (tok + c.length + 1) rest :=
          h.drop.2.2.congr fun x h₁ _ => Function.update_of_ne (by omega) _ _
        have hsep := h.strchr_eq_some hc (show c.length < fuel by omega)
        have hname := hcut.readStr_eq (show c.length < fuel by omega)
        have hstr := strchrLog_within h hc (show c.length < fuel by omega)
        have hread := readStrLog_within hcut (show c.length < fuel by omega)
        have hend : tok + c.length + 1 + rest.length = tok + (c.length + (rest.length + 1)) := by omega
        -- the part of the round that is the same whatever the lookup finds
        have hround : ∀ log, Within tok (tok + (c.length + (rest.length + 1))) log →
            Within tok (tok + (c.length + (rest.length + 1)))
              (.read tok :: ((strchrLog m slash fuel tok).log ++
                ((some (tok + c.length)).toList.map .write ++ log))) := by
          intro log hlog
          simp only [within_cons, within_append, Access.addr, Option.toList_some, List.map_cons,
            List.map_nil]
          exact ⟨by omega, hstr.mono le_rfl (by omega), ⟨by omega, within_nil _ _⟩, hlog⟩
        rw [closedComponents_cons hc, walk_cons, resolveLoop_step hne hsep hname,
          resolveLoopLog_log hne hsep hname]
        cases ops.finddir node with
        | none => exact ⟨fun _ => ⟨rfl, hround [] (within_nil _ _)⟩, fun hsome => absurd rfl hsome⟩
        | some finddir =>
            dsimp only [Option.bind_some, Option.elim_some]
            cases finddir c with
            | none =>
                refine ⟨fun _ => ⟨rfl, hround _ ?_⟩, fun hsome => absurd rfl hsome⟩
                rw [Option.elim_none, List.append_nil]
                exact hread.mono le_rfl (by omega)
            | some n =>
                obtain ⟨hfail, hpast⟩ := @ih n (Function.update m (tok + c.length) 0)
                  (tok + c.length + 1) rest hrest (by omega)
                dsimp only [Option.bind_some, Option.elim_some]
                refine ⟨fun hwalk => ⟨(hfail hwalk).1, hround _ ?_⟩, fun hwalk => ?_⟩
                · refine within_append.mpr ⟨hread.mono le_rfl (by omega), ?_⟩
                  exact (hfail hwalk).2.mono (by omega) (by omega)
                · obtain ⟨pre, post, hlog, hpre⟩ := hpast hwalk
                  rw [hlog, hend]
                  refine ⟨_, post, ?_, hround ((readStrLog (Function.update m (tok + c.length) 0) fuel
                    tok).log ++ pre) (within_append.mpr ⟨hread.mono le_rfl (by omega), ?_⟩)⟩
                  · simp only [List.append_assoc, List.cons_append]
                  · exact hpre.mono (by omega) (by omega)
      · rw [closedComponents_of_notMem hmem]
        exact ⟨fun hwalk => absurd hwalk (by simp),
          fun _ => resolveLoopLog_of_last h hmem (show w.length < fuel by omega)⟩

/-! ## Paths of every length -/

/-- The resolution of a path is well defined: there is a node, or none, that every call returns, wherever
the path and the buffer are and whatever is on the stack; every read is of the path or of a byte of the
buffer that was written before, and every write is in the buffer. A path that does not fit into the buffer
with its NUL has no node. -/
def ResolveDefined (ops : NodeOps Node) (v : Vfs Node) (p : List UInt8) : Prop :=
  ∃ r : Option Node, (256 < p.length → r = none) ∧
    ∀ (m : Mem) (path buf : Nat), path ≠ 0 → CStr m path p →
      path + p.length < buf ∨ buf + 256 ≤ path →
      ∃ fuel₀, ∀ fuel, fuel₀ ≤ fuel →
        resolve ops v m path buf fuel = .ok r ∧
        Clean buf (buf + 256) {x | path ≤ x ∧ x ≤ path + p.length}
          (resolveLog ops v m path buf fuel).log

/-- The path is not absolute, or nothing is mounted, or the path is short, or one of the components that end
within its first 255 characters is not found. -/
def FitsOrFails (ops : NodeOps Node) (v : Vfs Node) (p : List UInt8) : Prop :=
  ∀ root s, v.vfsRoot = some root → p = slash :: s →
    s.length ≤ 254 ∨ walk ops root (closedComponents (s.take 255)) = none

variable {v : Vfs Node} {root : Node} {path buf : Nat}

/-- A path that begins with something else, or without a root to begin at. -/
theorem resolveDefined_of_refused {p : List UInt8} (h : v.vfsRoot = none ∨ p.head? ≠ some slash) :
    ResolveDefined ops v p := by
  refine ⟨none, fun _ => rfl, fun m path buf hpath hstr _ => ⟨0, fun fuel _ => ?_⟩⟩
  have hknown : path ∈ {x | path ≤ x ∧ x ≤ path + p.length} := ⟨le_rfl, Nat.le_add_right ..⟩
  rw [← resolveLog_result, resolveLog, if_neg hpath, Logged.result_load_bind, Logged.log_load_bind]
  by_cases hslash : m path = slash
  · have hroot : v.vfsRoot = none := h.resolve_right fun hne => by
      cases p with
      | nil => exact absurd (hslash.symm.trans hstr) (by decide)
      | cons c s => exact hne (congrArg some (hstr.1.symm.trans hslash))
    rw [if_neg (not_not.mpr hslash), hroot]
    exact ⟨rfl, hknown, trivial⟩
  · rw [if_pos hslash]
    exact ⟨rfl, hknown, trivial⟩

/-- The path `"/"`. -/
theorem resolveDefined_slash (hroot : v.vfsRoot = some root) : ResolveDefined ops v [slash] := by
  refine ⟨some root, fun h => absurd h (by decide), fun m path buf hpath hstr _ => ⟨0, fun fuel _ => ?_⟩⟩
  have hend : m (path + 1) = 0 := hstr.2.2
  rw [← resolveLog_result, resolveLog, if_neg hpath, Logged.result_load_bind, Logged.log_load_bind,
    if_neg (not_not.mpr hstr.1), hroot]
  dsimp only
  rw [Logged.result_load_bind, Logged.log_load_bind, if_pos hend]
  exact ⟨rfl, ⟨le_rfl, Nat.le_succ _⟩, ⟨Nat.le_succ _, le_rfl⟩, trivial⟩

/-- What `resolve` does with a longer path: copy it, then loop. -/
theorem resolveLog_of_cons (hroot : v.vfsRoot = some root) (hpath : path ≠ 0)
    (hstr : CStr m path (slash :: s)) (hnil : s ≠ []) :
    resolve ops v m path buf fuel = resolveLoop ops fuel (strncpy m buf (path + 1) 255) buf root ∧
    (resolveLog ops v m path buf fuel).log = .read path :: .read (path + 1) ::
      ((strncpyLog m buf (path + 1) 255).log ++
        (resolveLoopLog ops fuel (strncpy m buf (path + 1) 255) buf root).log) := by
  have hne : m (path + 1) ≠ 0 := hstr.2.2.head_ne_zero hnil
  constructor
  · rw [resolve, if_neg (by simp [hpath, hstr.1]), hroot]
    exact if_neg hne
  · rw [resolveLog, if_neg hpath, Logged.log_load_bind, if_neg (not_not.mpr hstr.1), hroot]
    dsimp only
    rw [Logged.log_load_bind, if_neg hne, Logged.log_bind (strncpyLog_result ..)]

/-- The log is clean if the loop stays among the bytes that `strncpy` has written. -/
theorem clean_resolveLog (hroot : v.vfsRoot = some root) (hpath : path ≠ 0)
    (hstr : CStr m path (slash :: s)) (hnil : s ≠ [])
    (hdisj : path + (slash :: s).length < buf ∨ buf + 256 ≤ path)
    (hloop : Within buf (buf + if s.length < 255 then 256 else 255)
      (resolveLoopLog ops fuel (strncpy m buf (path + 1) 255) buf root).log) :
    Clean buf (buf + 256) {x | path ≤ x ∧ x ≤ path + (slash :: s).length}
      (resolveLog ops v m path buf fuel).log := by
  rw [List.length_cons] at hdisj ⊢
  obtain ⟨hread, hwrite⟩ := strncpyLog_mem (n := 255) (d := buf) hstr.2.2 (by omega)
  change ∀ x, _ ↔ buf ≤ x ∧ x < buf + (if s.length < 255 then 256 else 255) at hwrite
  have hbytes : (if s.length < 255 then 256 else 255) ≤ 256 := by
    split_ifs <;> decide
  rw [(resolveLog_of_cons hroot hpath hstr hnil).2]
  refine ⟨⟨le_rfl, by omega⟩, ⟨by omega, by omega⟩, clean_append.mpr ⟨clean_of_mem ?_ ?_, ?_⟩⟩
  · intro a ha
    have := hread a ha
    exact ⟨by omega, by omega⟩
  · intro a ha
    have := (hwrite a).mp ha
    omega
  · refine clean_of_mem (fun a ha => Or.inr ((hwrite a).mpr (hloop _ ha))) fun a ha => ?_
    have := hloop _ ha
    simp only [Access.addr] at this
    omega

/-- A path that fits, or fails before its end matters. -/
theorem resolveDefined_of_cons (hroot : v.vfsRoot = some root) (hnil : s ≠ [])
    (h : s.length ≤ 254 ∨ walk ops root (closedComponents (s.take 255)) = none) :
    ResolveDefined ops v (slash :: s) := by
  by_cases hlen : s.length ≤ 254
  · refine ⟨walk ops root (components (slash :: s)), fun hlong => ?_, ?_⟩
    · rw [List.length_cons] at hlong
      omega
    · intro m path buf hpath hstr hdisj
      have hcopy : CStr (strncpy m buf (path + 1) 255) buf s := by
        rw [List.length_cons] at hdisj
        exact hstr.2.2.strncpy (by omega) (by omega)
      refine ⟨s.length + 2, fun fuel hfuel => ⟨?_, ?_⟩⟩
      · rw [(resolveLog_of_cons hroot hpath hstr hnil).1]
        exact resolveLoop_eq hcopy (by omega)
      · apply clean_resolveLog hroot hpath hstr hnil hdisj
        rw [if_pos (by omega)]
        exact (resolveLoopLog_within hcopy (by omega)).mono le_rfl (by omega)
  · refine ⟨none, fun _ => rfl, fun m path buf hpath hstr hdisj => ⟨257, fun fuel hfuel => ?_⟩⟩
    have hcopy : Chars (strncpy m buf (path + 1) 255) buf (s.take 255) := by
      rw [List.length_cons] at hdisj
      exact hstr.2.2.chars_strncpy (by omega)
    have htake : (s.take 255).length = 255 := List.length_take_of_le (by omega)
    obtain ⟨hrun, hwithin⟩ :=
      (resolveLoopLog_of_chars hcopy (show (s.take 255).length + 1 < fuel by omega)).1 (h.resolve_left hlen)
    rw [htake] at hwithin
    refine ⟨?_, clean_resolveLog hroot hpath hstr hnil hdisj ?_⟩
    · rw [(resolveLog_of_cons hroot hpath hstr hnil).1, hrun]
    · rw [if_neg (by omega)]
      exact hwithin

/-- Any other path makes the loop read the last byte of the buffer. -/
theorem not_clean_resolveLog (hroot : v.vfsRoot = some root) (hpath : path ≠ 0)
    (hstr : CStr m path (slash :: s)) (hlen : 254 < s.length)
    (hwalk : walk ops root (closedComponents (s.take 255)) ≠ none)
    (hdisj : path + (slash :: s).length < buf ∨ buf + 256 ≤ path) (hfuel : 257 ≤ fuel) :
    ¬ Clean buf (buf + 256) {x | path ≤ x ∧ x ≤ path + (slash :: s).length}
      (resolveLog ops v m path buf fuel).log := by
  have hnil : s ≠ [] := List.ne_nil_of_length_pos (by omega)
  rw [List.length_cons] at hdisj ⊢
  have hcopy : Chars (strncpy m buf (path + 1) 255) buf (s.take 255) :=
    hstr.2.2.chars_strncpy (by omega)
  have htake : (s.take 255).length = 255 := List.length_take_of_le (by omega)
  obtain ⟨pre, post, hlog, hpre⟩ := (resolveLoopLog_of_chars hcopy
    (show (s.take 255).length + 1 < fuel by omega)).2 hwalk
  obtain ⟨-, hwrite⟩ := strncpyLog_mem (n := 255) (d := buf) hstr.2.2 (by omega)
  rw [htake] at hlog hpre
  rw [(resolveLog_of_cons hroot hpath hstr hnil).2, hlog]
  have hsplit : .read path :: .read (path + 1) :: ((strncpyLog m buf (path + 1) 255).log ++
      (pre ++ .read (buf + 255) :: post)) =
      (.read path :: .read (path + 1) :: ((strncpyLog m buf (path + 1) 255).log ++ pre)) ++
        .read (buf + 255) :: post := by simp
  rw [hsplit]
  refine not_clean_of_read (fun hknown => ?_) fun hwritten => ?_
  · have hlast : path ≤ buf + 255 ∧ buf + 255 ≤ path + (s.length + 1) := hknown
    omega
  · simp only [List.mem_cons, List.mem_append, reduceCtorEq, false_or] at hwritten
    obtain hwritten | hwritten := hwritten
    · have := (hwrite _).mp hwritten
      rw [if_neg (by omega)] at this
      omega
    · have := hpre _ hwritten
      simp only [Access.addr] at this
      omega

theorem not_resolveDefined_of_long (hroot : v.vfsRoot = some root) (hnul : 0 ∉ slash :: s)
    (hlen : 254 < s.length) (hwalk : walk ops root (closedComponents (s.take 255)) ≠ none) :
    ¬ ResolveDefined ops v (slash :: s) := by
  rintro ⟨r, -, hdef⟩
  obtain ⟨fuel₀, hrun⟩ := hdef (strMem (slash :: s)) 1 ((slash :: s).length + 2) one_ne_zero
    (cStr_strMem hnul) (Or.inl (by omega))
  exact not_clean_resolveLog hroot one_ne_zero (cStr_strMem hnul) hlen hwalk (Or.inl (by omega))
    (le_max_right fuel₀ 257) (hrun (max fuel₀ 257) (le_max_left ..)).2

/-- The resolution of a path of any length is well defined exactly when the path fits the buffer, or fails
on a component that ends within its first 255 characters. -/
theorem resolveDefined_iff (ops : NodeOps Node) (v : Vfs Node) (p : List UInt8) (hp : 0 ∉ p) :
    ResolveDefined ops v p ↔ FitsOrFails ops v p := by
  constructor
  · rintro hdef root s hroot rfl
    by_contra hnot
    rw [not_or, not_le] at hnot
    exact not_resolveDefined_of_long hroot hp hnot.1 hnot.2 hdef
  · intro h
    cases hroot : v.vfsRoot with
    | none => exact resolveDefined_of_refused (Or.inl hroot)
    | some root =>
        by_cases hslash : p.head? = some slash
        · obtain ⟨s, rfl⟩ := List.head?_eq_some_iff.mp hslash
          by_cases hnil : s = []
          · subst hnil
            exact resolveDefined_slash hroot
          · exact resolveDefined_of_cons hroot hnil (h root s hroot rfl)
        · exact resolveDefined_of_refused (Or.inr hslash)

theorem notMem_replicate {c d : UInt8} (h : d ≠ c) (n : Nat) : d ∉ List.replicate n c :=
  fun hmem => h (List.eq_of_mem_replicate hmem)

/-- A path of 304 characters whose first component does not exist. -/
theorem resolveDefined_missing :
    ResolveDefined TreeNode.ops (vfsMount vfsInit [slash] kmainRoot).1
      (slash :: ([110, 111] ++ slash :: List.replicate 300 97)) := by
  have hnul : (0 : UInt8) ∉ slash :: ([110, 111] ++ slash :: List.replicate 300 97) := by
    have hrest : (0 : UInt8) ∉ slash :: List.replicate 300 97 :=
      List.not_mem_cons_of_ne_of_not_mem (by decide) (notMem_replicate (by decide) 300)
    exact List.not_mem_cons_of_ne_of_not_mem (by decide) (List.not_mem_append (by decide) hrest)
  refine (resolveDefined_iff _ _ _ hnul).mpr fun root s hroot hp => Or.inr ?_
  obtain rfl : kmainRoot = root := Option.some.inj hroot
  obtain ⟨-, rfl⟩ := List.cons.inj hp
  have htake : ([110, 111] ++ slash :: List.replicate 300 97).take 255 =
      [110, 111] ++ slash :: (List.replicate 300 97).take 252 := rfl
  rw [htake, closedComponents_cons (by decide), walk_cons]
  rfl

/-- A root directory with a file whose name has 255 characters. -/
def longNameRoot : TreeNode := .dir [114, 111, 111, 116] [.file (List.replicate 255 97)]

/-- The root directory's only entry is found by its name, and no other. -/
theorem walk_longNameRoot {w : List UInt8} (hw : slash ∉ w) (hne : w ≠ []) :
    walk TreeNode.ops longNameRoot (components (slash :: w)) =
      if List.replicate 255 97 = w then some (.file (List.replicate 255 97)) else none := by
  have hfind : TreeNode.ops.finddir longNameRoot = some fun name =>
      [TreeNode.file (List.replicate 255 97)].find? fun e => e.name = name := rfl
  rw [components_single hw hne, walk_cons, hfind, Option.bind_some]
  simp only [List.find?_singleton]
  by_cases h : (TreeNode.file (List.replicate 255 97)).name = w
  · rw [if_pos (decide_eq_true h), if_pos (show List.replicate 255 97 = w from h)]
    rfl
  · rw [if_neg fun hd => h (of_decide_eq_true hd), if_neg (show ¬ List.replicate 255 97 = w from h)]
    rfl

/-- An absolute path with a name of 300 characters. -/
def longPath : List UInt8 := slash :: List.replicate 300 97

/-- The path names no file. Yet it resolves to the file with the shorter name if the last byte of the buffer
happens to be 0, and to nothing if it happens to be another character. -/
theorem longPath_not_defined :
    (∃ (m m' : Mem) (path buf fuel : Nat), path ≠ 0 ∧ CStr m path longPath ∧ CStr m' path longPath ∧
      path + longPath.length < buf ∧
      resolve TreeNode.ops ⟨[], some longNameRoot⟩ m path buf fuel =
        .ok (some (.file (List.replicate 255 97))) ∧
      resolve TreeNode.ops ⟨[], some longNameRoot⟩ m' path buf fuel = .ok none) ∧
    ¬ ResolveDefined TreeNode.ops ⟨[], some longNameRoot⟩ longPath := by
  have hlen : longPath.length = 301 := by rw [longPath, List.length_cons, List.length_replicate]
  have hnul : 0 ∉ longPath := by
    rw [longPath, List.mem_cons, not_or]
    exact ⟨by decide, notMem_replicate (by decide) 300⟩
  have hstr : CStr (strMem longPath) 1 longPath := cStr_strMem hnul
  have hzero : ∀ x, 302 ≤ x → strMem longPath x = 0 := fun x hx =>
    List.getD_eq_default _ _ (by rw [hlen]; omega)
  have hnil : List.replicate 300 (97 : UInt8) ≠ [] :=
    List.ne_nil_of_length_pos (by rw [List.length_replicate]; decide)
  have htake : (List.replicate 300 (97 : UInt8)).take 255 = List.replicate 255 97 := by
    rw [List.take_replicate]
    rfl
  have hlong : 255 ≤ (List.replicate 300 (97 : UInt8)).length := by
    rw [List.length_replicate]
    decide
  -- another byte at the end of the buffer, with a NUL behind it
  have hstr' : CStr (Function.update (strMem longPath) 655 98) 1 longPath :=
    hstr.congr fun x _ hx => Function.update_of_ne (by rw [hlen] at hx; omega) _ _
  have hdisj : 1 + 1 + (List.replicate 300 (97 : UInt8)).length < 400 ∨ 400 + 255 ≤ 1 + 1 := by
    rw [List.length_replicate]
    omega
  have hcopy := hstr.2.2.strncpy_take hdisj (hzero 655 (by decide))
  obtain ⟨hchars, hframe⟩ := hstr'.2.2.strncpy_chars hlong hdisj
  rw [htake] at hcopy hchars
  have hcopy' : CStr (strncpy (Function.update (strMem longPath) 655 98) 400 (1 + 1) 255) 400
      (List.replicate 255 97 ++ [98]) := by
    rw [cStr_iff, Chars.append_iff, List.length_append, List.length_replicate]
    refine ⟨⟨hchars, ?_, by decide, trivial⟩, ?_⟩
    · rw [hframe _ le_rfl]
      exact Function.update_self ..
    · change strncpy _ 400 (1 + 1) 255 656 = 0
      rw [hframe 656 (by decide), Function.update_of_ne (by decide)]
      exact hzero 656 (by decide)
  refine ⟨⟨strMem longPath, Function.update (strMem longPath) 655 98, 1, 400, 300, one_ne_zero, hstr,
    hstr', by rw [hlen]; decide, ?_, ?_⟩, ?_⟩
  · rw [(resolveLog_of_cons rfl one_ne_zero hstr hnil).1, resolveLoop_eq hcopy (by
      rw [List.length_replicate]; decide), walk_longNameRoot (notMem_replicate (by decide) 255)
      (List.ne_nil_of_length_pos (by rw [List.length_replicate]; decide)), if_pos rfl]
  · have hnot : slash ∉ List.replicate 255 (97 : UInt8) ++ [98] := by
      rw [List.mem_append, not_or]
      exact ⟨notMem_replicate (by decide) 255, by decide⟩
    have hne : List.replicate 255 (97 : UInt8) ≠ List.replicate 255 97 ++ [98] := fun heq => by
      have := congrArg List.length heq
      rw [List.length_append, List.length_replicate] at this
      exact absurd this (by decide)
    rw [(resolveLog_of_cons rfl one_ne_zero hstr' hnil).1, resolveLoop_eq hcopy' (by
      rw [List.length_append, List.length_replicate]; decide), walk_longNameRoot hnot
      (List.append_ne_nil_of_right_ne_nil _ (List.cons_ne_nil _ _)), if_neg hne]
  · refine not_resolveDefined_of_long rfl hnul hlong ?_
    rw [htake, closedComponents_of_notMem (notMem_replicate (by decide) 255)]
    exact Option.some_ne_none _

end Aerogel
