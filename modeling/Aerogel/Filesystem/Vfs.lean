import Aerogel.Libc.Strings
import Mathlib.Data.List.Infix

/-! # The virtual file system: the mount table and path resolution

`vfs.c` keeps a table of mounted file systems and resolves paths. A node is whatever a file system
hands out; all the resolution needs of it are its `finddir` and `open` pointers, either of which may be
NULL. The mount table is kept as the list of its entries in use. Path resolution works in place on a
copy of the path, so it is modelled on memory, and its specification (`walk` along `components`) on
lists of characters. -/

namespace Aerogel

variable {Node : Type}

/-- `VFS_FILE`. -/
def vfsFile : Nat := 0x01

/-- `VFS_DIR`. -/
def vfsDir : Nat := 0x02

/-- The character `'/'`. -/
def slash : UInt8 := 47

/-- The pointers of a `vfs_node_t` that resolution follows: `finddir`, NULL (`none`) or a lookup by
name, and whether `open` is set. -/
structure NodeOps (Node : Type) where
  /-- The `finddir` pointer of a node. -/
  finddir : Node → Option (List UInt8 → Option Node)
  /-- Whether the `open` pointer of a node is set. -/
  hasOpen : Node → Bool

/-- `mount_entry_t`. -/
structure MountEntry (Node : Type) where
  /-- The path the file system is mounted at. -/
  path : List UInt8
  /-- Its root node. -/
  root : Node

/-- The state of `vfs.c`: `mounts[0 .. nmounts)` and `vfs_root`. -/
structure Vfs (Node : Type) where
  /-- The entries in use. -/
  mounts : List (MountEntry Node)
  /-- The node mounted at `"/"`, if any. -/
  vfsRoot : Option Node

/-- `MAX_MOUNTS`. -/
def maxMounts : Nat := 16

/-- `vfs_init`. -/
def vfsInit : Vfs Node := ⟨[], none⟩

/-- `vfs_mount`: the new table and the return value. The entry keeps 255 characters of the path. -/
def vfsMount (v : Vfs Node) (path : List UInt8) (root : Node) : Vfs Node × Int :=
  if maxMounts ≤ v.mounts.length then (v, -1)
  else
    ({ mounts := v.mounts ++ [⟨path.take 255, root⟩]
       -- only a mount at exactly "/" is remembered, and only the first one
       vfsRoot := if v.vfsRoot.isNone ∧ path = [slash] then some root else v.vfsRoot }, 0)

/-- The loop of `resolve`: `tok` points into the copied path. A component is ended in place by
overwriting the `'/'` behind it, and `finddir` reads it from there. -/
def resolveLoop (ops : NodeOps Node) : Nat → Mem → Nat → Node → Except Halt (Option Node)
  | 0, _, _, _ => .error .diverges
  | fuel + 1, m, tok, node =>
    if m tok = 0 then .ok (some node)
    else do
      let sep ← strchr m slash fuel tok
      let m := sep.elim m fun p => Function.update m p 0
      match ops.finddir node with
      | none => .ok none
      | some finddir =>
        match finddir (← readStr m fuel tok) with
        | none => .ok none
        | some node =>
          match sep with
          -- `tok` becomes NULL, which ends the loop
          | none => .ok (some node)
          | some p => resolveLoop ops fuel m (p + 1) node

/-- `resolve`, with its local `buf` at the given address. -/
def resolve (ops : NodeOps Node) (v : Vfs Node) (m : Mem) (path buf fuel : Nat) :
    Except Halt (Option Node) :=
  if path = 0 ∨ m path ≠ slash then .ok none
  else
    match v.vfsRoot with
    | none => .ok none
    | some node =>
      if m (path + 1) = 0 then .ok (some node)
      else resolveLoop ops fuel (strncpy m buf (path + 1) 255) buf node

/-- What `vfs_open` does: the node it returns and the `open` call it makes. -/
structure Opened (Node : Type) where
  /-- The node returned, `none` for NULL. -/
  node : Option Node
  /-- The node and flags `open` is called with. -/
  opened : Option (Node × UInt32)

/-- `vfs_open`. -/
def vfsOpen (ops : NodeOps Node) (v : Vfs Node) (m : Mem) (path buf : Nat) (flags : UInt32)
    (fuel : Nat) : Except Halt (Opened Node) := do
  match ← resolve ops v m path buf fuel with
  | none => .ok ⟨none, none⟩
  | some n => .ok ⟨some n, if ops.hasOpen n then some (n, flags) else none⟩

/-! ## Components and walks -/

/-- The components of the part of a path behind its first `'/'`: the text between slashes, where one
slash at the end adds no component. -/
def components (path : List UInt8) : List (List UInt8) :=
  let cs := path.tail.splitOn slash
  if cs.getLast? = some [] then cs.dropLast else cs

/-- Follow `finddir` along a list of components. -/
def walk (ops : NodeOps Node) (node : Node) (names : List (List UInt8)) : Option Node :=
  names.foldlM (fun n name => (ops.finddir n).bind fun finddir => finddir name) node

variable {ops : NodeOps Node} {node : Node}

/-- The root of an absolute path has no components. -/
@[simp]
theorem components_slash : components [slash] = [] := by
  decide

/-- A component in front. -/
theorem components_cons {c : UInt8} {w s : List UInt8} (hw : slash ∉ w) :
    components (c :: (w ++ slash :: s)) = w :: components (slash :: s) := by
  have hsplit : (w ++ slash :: s).splitOn slash = w :: s.splitOn slash :=
    List.splitOn_append_cons_self_of_not_mem hw s
  obtain ⟨d, ds, hds⟩ := List.exists_cons_of_ne_nil (List.splitOn_ne_nil slash s)
  simp only [components, List.tail_cons, hsplit, hds, List.getLast?_cons_cons,
    List.dropLast_cons_cons]
  exact (apply_ite (w :: ·) _ _ _).symm

/-- A path with a single component. -/
theorem components_single {c : UInt8} {w : List UInt8} (hw : slash ∉ w) (hne : w ≠ []) :
    components (c :: w) = [w] := by
  simp [components, List.splitOn_eq_singleton hw, hne]

/-- Walking no component stays. -/
@[simp]
theorem walk_nil : walk ops node [] = some node := rfl

/-- Walking a component and then the rest. -/
theorem walk_cons (c : List UInt8) (cs : List (List UInt8)) :
    walk ops node (c :: cs) =
      ((ops.finddir node).bind fun finddir => finddir c).bind fun n => walk ops n cs :=
  List.foldlM_cons

/-- Walks compose. -/
theorem walk_append (cs ds : List (List UInt8)) :
    walk ops node (cs ++ ds) = (walk ops node cs).bind fun n => walk ops n ds :=
  List.foldlM_append

/-! ## Resolution is a walk -/

/-- One round of the loop of `resolve`, when the component at `tok` and the separator behind it are
known: one lookup, then the rest from behind the separator. -/
theorem resolveLoop_step {m : Mem} {fuel tok : Nat} {sep : Option Nat} {name : List UInt8}
    (hne : m tok ≠ 0) (hsep : strchr m slash fuel tok = .ok sep)
    (hname : readStr (sep.elim m fun p => Function.update m p 0) fuel tok = .ok name) :
    resolveLoop ops (fuel + 1) m tok node =
      ((ops.finddir node).bind fun finddir => finddir name).elim (.ok none) fun n =>
        sep.elim (.ok (some n)) fun p =>
          resolveLoop ops fuel (Function.update m p 0) (p + 1) n := by
  rw [resolveLoop, if_neg hne, hsep]
  cases hfind : ops.finddir node with
  | none => rfl
  | some finddir =>
      simp only [bind, Except.bind, hname, Option.bind_some]
      cases finddir name <;> cases sep <;> rfl

/-- The loop of `resolve` walks along the components of the string at `tok`. -/
theorem resolveLoop_eq {m : Mem} {fuel tok : Nat} {s : List UInt8} (h : CStr m tok s)
    (hfuel : s.length + 1 < fuel) :
    resolveLoop ops fuel m tok node = .ok (walk ops node (components (slash :: s))) := by
  induction fuel generalizing m tok s node with
  | zero => omega
  | succ fuel ih =>
      by_cases hnil : s = []
      · subst hnil
        rw [resolveLoop, if_pos (show m tok = 0 from h)]
        simp
      have hne : m tok ≠ 0 := h.head_ne_zero hnil
      by_cases hmem : slash ∈ s
      · -- the component ends at the first separator, which is overwritten
        obtain ⟨w, rest, rfl, hw⟩ := List.eq_append_cons_of_mem hmem
        rw [List.length_append, List.length_cons] at hfuel
        have hrest : CStr (Function.update m (tok + w.length) 0) (tok + w.length + 1) rest :=
          h.drop.2.2.congr fun x h₁ _ => Function.update_of_ne (by omega) _ _
        rw [resolveLoop_step hne (h.strchr_eq_some hw (by omega)) (h.cut.readStr_eq (by omega)),
          components_cons hw, walk_cons]
        cases (ops.finddir node).bind fun finddir => finddir w with
        | none => rfl
        | some n => exact ih hrest (by omega)
      · have hsep := h.strchr_eq_none hmem (by decide) (show s.length < fuel by omega)
        rw [resolveLoop_step hne hsep (h.readStr_eq (by omega)), components_single hmem hnil,
          walk_cons]
        cases (ops.finddir node).bind fun finddir => finddir s <;> rfl

/-- `vfs_open` of an absolute path walks along its components from the root of the file system. -/
theorem vfsOpen_eq {v : Vfs Node} {m : Mem} {path buf fuel : Nat} {flags : UInt32}
    {q : List UInt8} (hroot : v.vfsRoot = some node) (hpath : path ≠ 0)
    (hstr : CStr m path (slash :: q)) (hlen : q.length < 255)
    (hdisj : path + 1 + q.length < buf ∨ buf + 256 ≤ path) (hfuel : q.length + 1 < fuel) :
    (vfsOpen ops v m path buf flags fuel).map Opened.node =
      .ok (walk ops node (components (slash :: q))) := by
  have hcopy : CStr (strncpy m buf (path + 1) 255) buf q :=
    hstr.2.2.strncpy hlen (by omega)
  have hresolve : resolve ops v m path buf fuel = .ok (walk ops node (components (slash :: q))) := by
    rw [resolve, if_neg (by simp [hpath, hstr.1]), hroot]
    by_cases hnil : q = []
    · subst hnil
      simp [show m (path + 1) = 0 from hstr.2.2]
    · simp only [if_neg (hstr.2.2.head_ne_zero hnil)]
      exact resolveLoop_eq hcopy hfuel
  rw [vfsOpen, hresolve]
  cases walk ops node (components (slash :: q)) <;> rfl

end Aerogel
