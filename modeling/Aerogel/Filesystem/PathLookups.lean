import Aerogel.Filesystem.Mounts

/-! # The lookups of a path resolution

`resolve` hands each component of a path to `finddir` as a pointer into its buffer, where it has just
overwritten the separator behind the component. Here the same function also notes these calls: the node,
the pointer, and memory as the callee finds it. The calls of a resolution are the lookups of a walk along
the components of the path, each with a pointer to one whole component (`resolve_componentwise`). -/

namespace Aerogel

variable {Node : Type}

/-- One call of `node->finddir(node, name)`. -/
structure FinddirCall (Node : Type) where
  /-- The node looked in. -/
  node : Node
  /-- Memory at the call. -/
  mem : Mem
  /-- The `name` argument, an address. -/
  name : Nat

/-- The loop of `resolve` with the calls of `finddir` it makes. -/
def resolveLoopCalls (ops : NodeOps Node) :
    Nat → Mem → Nat → Node → Except Halt (List (FinddirCall Node) × Option Node)
  | 0, _, _, _ => .error .diverges
  | fuel + 1, m, tok, node =>
    if m tok = 0 then .ok ([], some node)
    else do
      let sep ← strchr m slash fuel tok
      let m := sep.elim m fun p => Function.update m p 0
      match ops.finddir node with
      | none => .ok ([], none)
      | some finddir =>
        let call : FinddirCall Node := ⟨node, m, tok⟩
        match finddir (← readStr m fuel tok) with
        | none => .ok ([call], none)
        | some node =>
          match sep with
          | none => .ok ([call], some node)
          | some p => do
            let (calls, result) ← resolveLoopCalls ops fuel m (p + 1) node
            .ok (call :: calls, result)

/-- `resolve` with the calls of `finddir` it makes. -/
def resolveCalls (ops : NodeOps Node) (v : Vfs Node) (m : Mem) (path buf fuel : Nat) :
    Except Halt (List (FinddirCall Node) × Option Node) :=
  if path = 0 ∨ m path ≠ slash then .ok ([], none)
  else
    match v.vfsRoot with
    | none => .ok ([], none)
    | some node =>
      if m (path + 1) = 0 then .ok ([], some node)
      else resolveLoopCalls ops fuel (strncpy m buf (path + 1) 255) buf node

variable {ops : NodeOps Node} {node : Node}

/-- Noting the calls does not change what the loop of `resolve` returns. -/
theorem resolveLoopCalls_snd (fuel : Nat) (m : Mem) (tok : Nat) (node : Node) :
    (resolveLoopCalls ops fuel m tok node).map Prod.snd = resolveLoop ops fuel m tok node := by
  induction fuel generalizing m tok node with
  | zero => rfl
  | succ fuel ih =>
      rw [resolveLoopCalls, resolveLoop]
      split
      · rfl
      cases strchr m slash fuel tok with
      | error e => rfl
      | ok sep =>
          simp only [bind, Except.bind]
          cases hfind : ops.finddir node with
          | none => rfl
          | some finddir =>
              dsimp only
              cases readStr (sep.elim m fun p => Function.update m p 0) fuel tok with
              | error e => rfl
              | ok name =>
                  dsimp only
                  cases finddir name with
                  | none => rfl
                  | some n =>
                      cases sep with
                      | none => rfl
                      | some p =>
                          simp only [← ih]
                          cases resolveLoopCalls ops fuel _ (p + 1) n <;> rfl

/-- Noting the calls does not change what `resolve` returns. -/
theorem resolveCalls_snd (v : Vfs Node) (m : Mem) (path buf fuel : Nat) :
    (resolveCalls ops v m path buf fuel).map Prod.snd = resolve ops v m path buf fuel := by
  rw [resolveCalls, resolve]
  split
  · rfl
  cases v.vfsRoot with
  | none => rfl
  | some node =>
      dsimp only
      split
      · rfl
      · exact resolveLoopCalls_snd fuel _ buf node

/-! ## The lookups of a walk -/

/-- The lookups a walk along a list of components makes: it ends at a node without `finddir`, and at the
first lookup that finds nothing. -/
def lookups (ops : NodeOps Node) : Node → List (List UInt8) → List (Node × List UInt8)
  | _, [] => []
  | node, name :: names =>
    match ops.finddir node with
    | none => []
    | some finddir => (node, name) :: (finddir name).elim [] fun n => lookups ops n names

/-- A walk looks up its components in order, each at most once. -/
theorem lookups_isPrefix (node : Node) (names : List (List UInt8)) :
    (lookups ops node names).map Prod.snd <+: names := by
  induction names generalizing node with
  | nil => exact List.prefix_rfl
  | cons name names ih =>
      rw [lookups]
      cases ops.finddir node with
      | none => exact List.nil_prefix
      | some finddir =>
          cases hfound : finddir name with
          | none => simp [hfound]
          | some n => simpa [hfound] using ih n

/-- The calls are the given lookups: the same nodes in the same order, each with a pointer to the
component as a string. -/
def CallsMatch (calls : List (FinddirCall Node)) (looked : List (Node × List UInt8)) : Prop :=
  List.Forall₂ (fun c l => c.node = l.1 ∧ CStr c.mem c.name l.2) calls looked

/-- What the loop of `resolve` does with the string at `tok`: the lookups of the walk along its
components, and what that walk arrives at. -/
theorem resolveLoopCalls_spec {m : Mem} {fuel tok : Nat} {s : List UInt8} (h : CStr m tok s)
    (hfuel : s.length + 1 < fuel) :
    ∃ calls, resolveLoopCalls ops fuel m tok node =
        .ok (calls, walk ops node (components (slash :: s))) ∧
      CallsMatch calls (lookups ops node (components (slash :: s))) := by
  induction fuel generalizing m tok s node with
  | zero => omega
  | succ fuel ih =>
      by_cases hnil : s = []
      · subst hnil
        rw [resolveLoopCalls, if_pos (show m tok = 0 from h), components_slash]
        exact ⟨[], rfl, .nil⟩
      have hne : m tok ≠ 0 := h.head_ne_zero hnil
      rw [resolveLoopCalls, if_neg hne]
      by_cases hmem : slash ∈ s
      · -- the component ends at the first separator, which is overwritten
        obtain ⟨w, rest, rfl, hw⟩ := List.eq_append_cons_of_mem hmem
        rw [List.length_append, List.length_cons] at hfuel
        have hcut := h.cut
        have hrest : CStr (Function.update m (tok + w.length) 0) (tok + w.length + 1) rest :=
          h.drop.2.2.congr fun x h₁ _ => Function.update_of_ne (by omega) _ _
        rw [h.strchr_eq_some hw (show w.length < fuel by omega), components_cons hw, walk_cons,
          lookups]
        simp only [bind, Except.bind, Option.elim_some, hcut.readStr_eq (show w.length < fuel by omega)]
        cases ops.finddir node with
        | none => exact ⟨[], rfl, .nil⟩
        | some finddir =>
            dsimp only [Option.bind_some]
            cases finddir w with
            | none => exact ⟨_, rfl, .cons ⟨rfl, hcut⟩ .nil⟩
            | some n =>
                obtain ⟨calls, hcalls, hmatch⟩ : ∃ calls, resolveLoopCalls ops fuel
                    (Function.update m (tok + w.length) 0) (tok + w.length + 1) n =
                      .ok (calls, walk ops n (components (slash :: rest))) ∧
                    CallsMatch calls (lookups ops n (components (slash :: rest))) :=
                  ih hrest (by omega)
                simp only [hcalls]
                exact ⟨_, rfl, .cons ⟨rfl, hcut⟩ hmatch⟩
      · -- the last component: `tok` becomes NULL behind it
        rw [h.strchr_eq_none hmem (by decide) (show s.length < fuel by omega),
          components_single hmem hnil, walk_cons, lookups]
        simp only [bind, Except.bind, Option.elim_none, h.readStr_eq (show s.length < fuel by omega)]
        cases ops.finddir node with
        | none => exact ⟨[], rfl, .nil⟩
        | some finddir =>
            dsimp only [Option.bind_some]
            cases finddir s with
            | none => exact ⟨_, rfl, .cons ⟨rfl, h⟩ .nil⟩
            | some n => exact ⟨_, rfl, .cons ⟨rfl, h⟩ .nil⟩

/-- The specification of `resolve` for the path `'/'` and `s`, from memory and buffer as given: whatever
the fuel, once it is enough for the characters of `s`, the node returned is the one the walk along the
components arrives at, and the calls made are the lookups of that walk, component by component from the
first. -/
def ResolvesComponentwise (ops : NodeOps Node) (v : Vfs Node) (root : Node) (m : Mem)
    (path buf : Nat) (s : List UInt8) : Prop :=
  ∀ fuel, s.length + 1 < fuel →
    resolve ops v m path buf fuel = .ok (walk ops root (components (slash :: s))) ∧
    ∃ calls, resolveCalls ops v m path buf fuel =
        .ok (calls, walk ops root (components (slash :: s))) ∧
      CallsMatch calls (lookups ops root (components (slash :: s))) ∧
      (lookups ops root (components (slash :: s))).map Prod.snd <+: components (slash :: s)

/-- `resolve` looks up one component after the other, for every tree of nodes and every absolute path
that fits the buffer. -/
theorem resolve_componentwise (ops : NodeOps Node) {v : Vfs Node} {root : Node} {m : Mem}
    {path buf : Nat} {s : List UInt8} (hroot : v.vfsRoot = some root) (hpath : path ≠ 0)
    (hstr : CStr m path (slash :: s)) (hlen : s.length ≤ 254)
    (hdisj : path + 1 + s.length < buf ∨ buf + 256 ≤ path) :
    ResolvesComponentwise ops v root m path buf s := by
  intro fuel hfuel
  have hcalls : ∃ calls, resolveCalls ops v m path buf fuel =
        .ok (calls, walk ops root (components (slash :: s))) ∧
      CallsMatch calls (lookups ops root (components (slash :: s))) := by
    rw [resolveCalls, if_neg (by simp [hpath, hstr.1]), hroot]
    by_cases hnil : s = []
    · subst hnil
      have hend : m (path + 1) = 0 := hstr.2.2
      simp only [if_pos hend, components_slash]
      exact ⟨[], rfl, .nil⟩
    · have hcopy : CStr (strncpy m buf (path + 1) 255) buf s :=
        hstr.2.2.strncpy (by omega) (by omega)
      simp only [if_neg (hstr.2.2.head_ne_zero hnil)]
      exact resolveLoopCalls_spec hcopy hfuel
  obtain ⟨calls, heq, hmatch⟩ := hcalls
  refine ⟨?_, calls, heq, hmatch, lookups_isPrefix root _⟩
  rw [← resolveCalls_snd, heq]
  rfl

/-- The path `"/etc//"` in the root file system of `kmain`: the empty component between the slashes is
looked up in `etc`. -/
theorem resolve_componentwise_kmainRoot :
    ResolvesComponentwise TreeNode.ops (vfsMount vfsInit [slash] kmainRoot).1 kmainRoot
      (strMem [47, 101, 116, 99, 47, 47]) 1 256 [101, 116, 99, 47, 47] :=
  resolve_componentwise TreeNode.ops rfl one_ne_zero (cStr_strMem (by decide)) (by decide)
    (by decide)

end Aerogel
