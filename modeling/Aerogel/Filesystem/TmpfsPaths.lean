import Aerogel.Filesystem.TmpfsTree
import Aerogel.Filesystem.Mounts

/-! # Files of tmpfs by their paths

The calls of `vfs.c` on nodes of tmpfs: `vfs_open` walks from the root by calling `tmpfs_finddir` with one
component after the other, `vfs_read`, `vfs_readdir` and `vfs_finddir` call what the node carries. In every
state that a run of tmpfs reaches they answer as the tree does (`showsTree_of_run`). A path that leads to a
node leads there ever after, two different paths lead to different nodes (`paths_permanent`), and what was
made under a new name is found by its path, with its bytes (`open_mkfile`). -/

namespace Aerogel

variable {T : Target} {A : Arena T} {C : TmpfsCode} {h h' : Heap} {live live' : Finset Nat} {bs : List Block}
  {m m' : Mem} {o : TmpObj} {n node name buf : Nat} {str : List UInt8} {s s' : TmpfsRun} {t : FileTree}
  {objs : List TmpObj} {k : Nat}

/-! ## The calls -/

section Code

variable (T C)

/-- `vfs_read`: the count and the bytes. The function is called through the node, `none` if it is not that
of tmpfs. -/
def vfsRead (m : Mem) (n off sz : Nat) : Option (Nat × List UInt8) :=
  if n = 0 ∨ nodeGet T m n .read = 0 then some (0, [])
  else if nodeGet T m n .read = C.read then some (tmpfsRead T m n off sz)
  else none

/-- `vfs_readdir`. -/
def vfsReaddir (m : Mem) (n idx : Nat) : Option Nat :=
  if n = 0 ∨ nodeGet T m n .flags &&& vfsDir = 0 ∨ nodeGet T m n .readdir = 0 then some 0
  else if nodeGet T m n .readdir = C.readdir then some (tmpfsReaddir T m n idx)
  else none

/-- `vfs_finddir`, with the fuel for `strcmp`. -/
def vfsFinddir (m : Mem) (n name fuel : Nat) : Option (Except Halt Nat) :=
  if n = 0 ∨ nodeGet T m n .flags &&& vfsDir = 0 ∨ nodeGet T m n .finddir = 0 then some (.ok 0)
  else if nodeGet T m n .finddir = C.finddir then some (tmpfsFinddir T m n name fuel)
  else none

/-- The nodes of tmpfs as `resolve` sees them: it calls `finddir` with a component in its buffer. `open` is
never set. -/
def tmpfsOps (m : Mem) (buf : Nat) : NodeOps Nat where
  finddir node :=
    if nodeGet T m node .finddir = 0 then none
    else some fun name =>
      if nodeGet T m node .finddir = C.finddir then
        (tmpfsFinddir T (m.storeList buf (name ++ [0])) node buf 256).toOption.bind ofPtr
      else none
  hasOpen _ := false

end Code

/-! ## Components -/

/-- Components are parts of the path. -/
theorem infix_of_mem_components {w q : List UInt8} (hw : w ∈ components (slash :: q)) : w <:+: q := by
  induction hlen : q.length using Nat.strong_induction_on generalizing q with
  | _ len ih =>
      subst hlen
      by_cases hmem : slash ∈ q
      · obtain ⟨u, rest, rfl, hu⟩ := List.eq_append_cons_of_mem hmem
        rw [components_cons hu, List.mem_cons] at hw
        rcases hw with rfl | hw
        · exact ⟨[], slash :: rest, rfl⟩
        · have hlt : rest.length < (u ++ slash :: rest).length := by
            rw [List.length_append, List.length_cons]
            omega
          exact (ih rest.length hlt hw rfl).trans ⟨u ++ [slash], [], by simp⟩
      · by_cases hnil : q = []
        · subst hnil
          rw [components_slash] at hw
          exact absurd hw List.not_mem_nil
        · rw [components_single hmem hnil, List.mem_singleton] at hw
          exact hw ▸ List.infix_rfl

/-- A list without a NUL, with one behind it, is a string. -/
theorem cStr_storeList (m : Mem) (a : Nat) (hw : 0 ∉ str) : CStr (m.storeList a (str ++ [0])) a str := by
  have hget : ∀ i < str.length + 1, m.storeList a (str ++ [0]) (a + i) = (str ++ [0]).getD i 0 := fun i hi =>
    m.storeList_apply (by rw [List.length_append, List.length_singleton]; exact hi)
  refine cStr_iff.mpr ⟨chars_of_getD hw fun i hi => ?_, ?_⟩
  · rw [hget i (by omega), List.getD_append _ _ _ _ hi]
  · rw [hget _ (by omega), List.getD_append_right _ _ _ _ le_rfl, Nat.sub_self]
    rfl

/-! ## Lookups -/

/-- The address of a node. -/
def TmpfsRun.addr (s : TmpfsRun) (i : Nat) : Nat := (s.nodes.map Prod.snd).getD i 0

theorem TmpfsRun.addrs_eq (s : TmpfsRun) (es : List Nat) : s.addrs es = es.map s.addr := rfl

namespace StoreInv

/-- A node of the tree is in memory. -/
theorem exists_node (hinv : StoreInv T A C s t live objs k) {i : Nat} (hi : i < t.length) :
    ∃ o e, objs[i]? = some o ∧ t[i]? = some e ∧ s.addr i = o.node ∧ o.Owned live ∧
      NodeHead T C s.heap.mem o.kind o.node e.1 := by
  have hlt : i < objs.length := by rwa [hinv.length_eq]
  have ho := List.getElem?_eq_getElem hlt
  have he := List.getElem?_eq_getElem hi
  refine ⟨_, _, ho, he, ?_, hinv.base.owned _ (List.getElem_mem hlt), hinv.head i _ _ ho he⟩
  rw [TmpfsRun.addr, hinv.base.nodes, List.map_map, List.getD_eq_getElem?_getD, List.getElem?_map, ho]
  rfl

/-- Nodes are not at 0. -/
theorem addr_ne_zero (hinv : StoreInv T A C s t live objs k) {i : Nat} (hi : i < t.length) : s.addr i ≠ 0 := by
  obtain ⟨bs, hheap⟩ := hinv.base.heap
  obtain ⟨o, e, -, -, haddr, ho, -⟩ := hinv.exists_node hi
  rw [haddr]
  exact fun h0 => hheap.zero_notMem (h0 ▸ ho.node_mem)

/-- Searching the addresses by name is searching the numbers. -/
theorem findNamed_addrs (hinv : StoreInv T A C s t live objs k) {es : List Nat} (hes : ∀ j ∈ es, j < t.length)
    (x : List UInt8) : findNamed (nodeName T s.heap.mem) (s.addrs es) x =
      (es.find? fun j => t.nameOf j = some x).map s.addr := by
  rw [findNamed, TmpfsRun.addrs_eq, List.find?_map]
  refine congrArg (Option.map s.addr) (List.find?_congr fun j hj => ?_)
  obtain ⟨o, e, -, he, haddr, -, hhead⟩ := hinv.exists_node (hes j hj)
  rw [Function.comp_apply, haddr, hhead.name, NameTree.nameOf, he, Option.map_some]
  exact decide_eq_decide.mpr (Option.some_inj).symm

/-- `tmpfs_finddir` finds the child of the tree, wherever outside the heap the name is. -/
theorem finddir_eq (hinv : StoreInv T A C s t live objs k) {i fuel : Nat} {y x : List UInt8} {es : List Nat}
    (hi : t[i]? = some (y, .dir es)) (hm : A.SameInside s.heap.mem m') (hname : CStr m' name x)
    (hfuel : 255 < fuel) : tmpfsFinddir T m' (s.addr i) name fuel = .ok (((t.child i x).map s.addr).getD 0) := by
  obtain ⟨bs, hheap⟩ := hinv.base.heap
  have hlt := (List.getElem?_eq_some_iff.mp hi).1
  obtain ⟨o, e, ho, -, haddr, howned, -⟩ := hinv.exists_node hlt
  have hlist := hinv.lists i o y es ho hi
  have hkeep : ∀ p ∈ live, KeepsPayload T s.heap.mem m' p := fun p hp => hheap.keeps_outside hp hm
  have hnamed : ∀ p ∈ s.addrs es, p ∈ live ∧ NamedNode T s.heap.mem p := by
    intro p hp
    obtain ⟨j, hj, rfl⟩ := List.mem_map.mp hp
    obtain ⟨b, e', -, -, hb, hbowned, hhead⟩ := hinv.exists_node (hinv.entries_lt hi j hj)
    change s.addr j ∈ live ∧ NamedNode T s.heap.mem (s.addr j)
    rw [hb]
    exact ⟨hbowned.node_mem, hhead.named⟩
  have hlist' : DirListing T m' o (s.addrs es) := hlist.keep fun p hp => hkeep p (howned.ptrs_subset hp)
  rw [haddr, hlist'.finddir_eq (hheap.congr_outside hm) howned hname hfuel
    fun p hp => ((hnamed p hp).2.keep (hkeep p (hnamed p hp).1)).1]
  have hent : t.entries i = es := by rw [NameTree.entries, hi]; rfl
  rw [NameTree.child, hent, ← hinv.findNamed_addrs (hinv.entries_lt hi)]
  refine congrArg (fun r => Except.ok (Option.getD r 0)) (List.find?_congr fun p hp => ?_)
  have hsame : nodeName T m' p = nodeName T s.heap.mem p :=
    ((hnamed p hp).2.keep (hkeep p (hnamed p hp).1)).2
  dsimp only
  rw [hsame]

/-- A function pointer of a node. -/
theorem fixed_eq (hinv : StoreInv T A C s t live objs k) {i : Nat} {y : List UInt8} {c : Content ByteFile}
    (hi : t[i]? = some (y, c)) {g : NodeField} (hg : g ∈ fixedFields) :
    nodeGet T s.heap.mem (s.addr i) g = C.fixed (match c with | .dir _ => .dir | .leaf _ => .file) g := by
  obtain ⟨o, e, ho, he, haddr, -, hhead⟩ := hinv.exists_node (List.getElem?_eq_some_iff.mp hi).1
  have hspec : (FileTree.specs t)[i]? = some c.spec := by
    rw [FileTree.specs, List.getElem?_map, hi]
    rfl
  have hrep := hinv.base.holds i o c.spec ho hspec
  rw [haddr, hhead.fixed g hg]
  cases c with
  | dir es => rw [hrep.1]
  | leaf f => rw [hrep.1]

/-- A lookup of `resolve` is one of the tree. -/
theorem ops_eq (hinv : StoreInv T A C s t live objs k) (hC : C.Linked T) {i : Nat} {x : List UInt8}
    (hi : i < t.length) (hx : 0 ∉ x) (hbuf : ∀ z, buf ≤ z → z ≤ buf + x.length → A.Outside z) :
    (((tmpfsOps T C s.heap.mem buf).finddir (s.addr i)).bind fun finddir => finddir x) =
      (t.child i x).map s.addr := by
  obtain ⟨⟨y, c⟩, hc⟩ : ∃ e, t[i]? = some e := ⟨_, List.getElem?_eq_getElem hi⟩
  have hfield := hinv.fixed_eq hc (g := .finddir) (by decide)
  cases c with
  | leaf f =>
      have hent : t.entries i = [] := by rw [NameTree.entries, hc]; rfl
      have hzero : nodeGet T s.heap.mem (s.addr i) .finddir = 0 := hfield
      simp only [tmpfsOps, hzero, if_true, NameTree.child, hent]
      rfl
  | dir es =>
      have hptr : nodeGet T s.heap.mem (s.addr i) .finddir = C.finddir := hfield
      have hne := hC.ne_zero C.finddir (by simp)
      have hm : A.SameInside s.heap.mem (s.heap.mem.storeList buf (x ++ [0])) := by
        intro z hz
        refine Mem.storeList_apply_of_outside _ ?_
        rw [List.length_append, List.length_singleton]
        by_contra hin
        exact hz (hbuf z (by omega) (by omega))
      have hrun := hinv.finddir_eq hc hm (cStr_storeList s.heap.mem buf hx) (show 255 < 256 by decide)
      have hsome : (t.child i x).map s.addr ≠ some 0 := by
        intro h0
        obtain ⟨j, hj, h0⟩ := Option.map_eq_some_iff.mp h0
        exact hinv.addr_ne_zero (hinv.grown.of_child hj).2.1 h0
      simp only [tmpfsOps, hptr, if_neg hne, if_true, Option.bind_some, hrun]
      exact ofPtr_getD hsome

/-- A walk of `resolve` is one of the tree. -/
theorem walk_eq (hinv : StoreInv T A C s t live objs k) (hC : C.Linked T) {i : Nat} {xs : List (List UInt8)}
    (hi : i < t.length) (hxs : ∀ x ∈ xs, 0 ∉ x ∧ ∀ z, buf ≤ z → z ≤ buf + x.length → A.Outside z) :
    walk (tmpfsOps T C s.heap.mem buf) (s.addr i) xs = (t.walk i xs).map s.addr := by
  induction xs generalizing i with
  | nil => rfl
  | cons x xs ih =>
      obtain ⟨hx, hbuf⟩ := hxs x List.mem_cons_self
      rw [walk_cons, NameTree.walk_cons, hinv.ops_eq hC hi hx hbuf]
      cases hj : t.child i x with
      | none => rfl
      | some j => exact ih (hinv.grown.of_child hj).2.1 fun z hz => hxs z (List.mem_cons_of_mem x hz)

end StoreInv

/-! ## The calls answer as the tree does -/

/-- A call of `vfs_open` with the path `'/'` and `q` at `path`, and its buffer at `buf`, outside the heap. -/
structure OpenArgs (A : Arena T) (m : Mem) (path buf : Nat) (q : List UInt8) : Prop where
  ne_zero : path ≠ 0
  cstr : CStr m path (slash :: q)
  short : q.length < 255
  apart : path + 1 + q.length < buf ∨ buf + 256 ≤ path
  outside : ∀ z, buf ≤ z → z < buf + 256 → A.Outside z

/-- What `vfs_open` returns, when the node `root` is mounted at `"/"`. -/
def openPath (T : Target) (C : TmpfsCode) (m : Mem) (root path buf fuel : Nat) : Except Halt (Option Nat) :=
  (vfsOpen (tmpfsOps T C m buf) (vfsMount vfsInit [slash] root).1 m path buf 0 fuel).map Opened.node

/-- The calls of `vfs.c` answer as the tree does. -/
structure ShowsTree (T : Target) (A : Arena T) (C : TmpfsCode) (s : TmpfsRun) (t : FileTree) : Prop where
  /-- `vfs_open` walks along the components of the path, whatever the root. -/
  opens : ∀ root path buf fuel q, root < t.length → OpenArgs A s.heap.mem path buf q → q.length + 1 < fuel →
    openPath T C s.heap.mem (s.addr root) path buf fuel =
      .ok ((t.walk root (components (slash :: q))).map s.addr)
  /-- `vfs_finddir` looks up one name. -/
  finds : ∀ i name fuel x, i < t.length → CStr s.heap.mem name x → 255 < fuel →
    vfsFinddir T C s.heap.mem (s.addr i) name fuel = some (.ok (((t.child i x).map s.addr).getD 0))
  /-- `vfs_readdir` lists the entries in their order. -/
  lists : ∀ i idx, i < t.length →
    vfsReaddir T C s.heap.mem (s.addr i) idx = some (((t.entries i)[idx]?.map s.addr).getD 0)
  /-- `vfs_read` of a file reads the file. -/
  reads : ∀ (i : Nat) x f off sz, t[i]? = some (x, .leaf f) → sz < 2 ^ 32 →
    ∃ r, vfsRead T C s.heap.mem (s.addr i) off sz = some r ∧ f.Reads off sz r.1 r.2
  /-- `vfs_read` of a directory reads nothing. -/
  empty : ∀ (i : Nat) x es off sz, t[i]? = some (x, .dir es) →
    vfsRead T C s.heap.mem (s.addr i) off sz = some (0, [])

namespace StoreInv

/-- `vfs_open` walks along the tree. -/
theorem openPath_eq (hinv : StoreInv T A C s t live objs k) (hC : C.Linked T) {root path buf fuel : Nat}
    {q : List UInt8} (hroot : root < t.length) (hargs : OpenArgs A s.heap.mem path buf q)
    (hfuel : q.length + 1 < fuel) : openPath T C s.heap.mem (s.addr root) path buf fuel =
      .ok ((t.walk root (components (slash :: q))).map s.addr) := by
  have hmount : (vfsMount vfsInit [slash] (s.addr root)).1.vfsRoot = some (s.addr root) := rfl
  rw [openPath, vfsOpen_eq hmount hargs.ne_zero hargs.cstr hargs.short hargs.apart hfuel]
  have hnul : 0 ∉ q := hargs.cstr.2.2.zero_notMem
  rw [hinv.walk_eq hC hroot]
  intro x hx
  have hin := infix_of_mem_components hx
  have hlen := hin.length_le
  have hshort := hargs.short
  exact ⟨fun h0 => hnul (hin.subset h0), fun z h₁ h₂ => hargs.outside z h₁ (by omega)⟩

theorem showsTree (hinv : StoreInv T A C s t live objs k) (hC : C.Linked T) : ShowsTree T A C s t := by
  obtain ⟨bs, hheap⟩ := hinv.base.heap
  have hdir : vfsDir ≠ 0 := by decide
  have hfile : vfsFile &&& vfsDir = 0 := by decide
  -- a number below the length is a directory's or a file's
  have hcases : ∀ i < t.length, (∃ y es, t[i]? = some (y, .dir es)) ∨ ∃ y f, t[i]? = some (y, .leaf f) := by
    intro i hi
    obtain ⟨⟨y, c⟩, hc⟩ : ∃ e, t[i]? = some e := ⟨_, List.getElem?_eq_getElem hi⟩
    cases c with
    | dir es => exact .inl ⟨y, es, hc⟩
    | leaf f => exact .inr ⟨y, f, hc⟩
  refine ⟨fun root path buf fuel q hroot hargs hfuel => hinv.openPath_eq hC hroot hargs hfuel,
    fun i name fuel x hi hname hfuel => ?_, fun i idx hi => ?_, fun i x f off sz hi hsz => ?_,
    fun i x es off sz hi => ?_⟩
  · rw [vfsFinddir]
    rcases hcases i hi with ⟨y, es, hc⟩ | ⟨y, f, hc⟩
    · have hflags : nodeGet T s.heap.mem (s.addr i) .flags = vfsDir := hinv.fixed_eq hc (by decide)
      have hptr : nodeGet T s.heap.mem (s.addr i) .finddir = C.finddir := hinv.fixed_eq hc (by decide)
      have hne := hC.ne_zero C.finddir (by simp)
      rw [hflags, hptr, if_neg (by simp [hinv.addr_ne_zero hi, hdir, hne]), if_pos rfl,
        hinv.finddir_eq hc (fun _ _ => rfl) hname hfuel]
    · have hflags : nodeGet T s.heap.mem (s.addr i) .flags = vfsFile := hinv.fixed_eq hc (by decide)
      have hent : t.entries i = [] := by rw [NameTree.entries, hc]; rfl
      rw [hflags, if_pos (.inr (.inl hfile)), NameTree.child, hent]
      rfl
  · rw [vfsReaddir]
    rcases hcases i hi with ⟨y, es, hc⟩ | ⟨y, f, hc⟩
    · have hflags : nodeGet T s.heap.mem (s.addr i) .flags = vfsDir := hinv.fixed_eq hc (by decide)
      have hptr : nodeGet T s.heap.mem (s.addr i) .readdir = C.readdir := hinv.fixed_eq hc (by decide)
      have hne := hC.ne_zero C.readdir (by simp)
      have hent : t.entries i = es := by rw [NameTree.entries, hc]; rfl
      obtain ⟨o, e, ho, -, haddr, howned, -⟩ := hinv.exists_node hi
      have hread := (hinv.lists i o y es ho hc).readdir_eq hheap howned idx
      rw [← haddr, TmpfsRun.addrs_eq, List.getElem?_map] at hread
      rw [hflags, hptr, if_neg (by simp [hinv.addr_ne_zero hi, hdir, hne]), if_pos rfl, hent, hread]
    · have hflags : nodeGet T s.heap.mem (s.addr i) .flags = vfsFile := hinv.fixed_eq hc (by decide)
      have hent : t.entries i = [] := by rw [NameTree.entries, hc]; rfl
      rw [hflags, if_pos (.inr (.inl hfile)), hent]
      rfl
  · have hlt := (List.getElem?_eq_some_iff.mp hi).1
    have hptr : nodeGet T s.heap.mem (s.addr i) .read = C.read := hinv.fixed_eq hi (by decide)
    have hne := hC.ne_zero C.read (by simp)
    obtain ⟨o, e, ho, -, haddr, howned, -⟩ := hinv.exists_node hlt
    have hspec : (FileTree.specs t)[i]? = some (.file f) := by
      rw [FileTree.specs, List.getElem?_map, hi]
      rfl
    obtain ⟨-, hobj⟩ := hinv.base.holds i o _ ho hspec
    refine ⟨_, ?_, tmpfsRead_spec hheap howned hobj hsz⟩
    rw [vfsRead, hptr, if_neg (by simp [hinv.addr_ne_zero hlt, hne]), if_pos rfl, haddr]
  · have hptr : nodeGet T s.heap.mem (s.addr i) .read = 0 := hinv.fixed_eq hi (by decide)
    rw [vfsRead, if_pos (.inr hptr)]

/-- A run of tmpfs on a reachable heap. -/
theorem of_run (hC : C.Linked T) (hsafe : A.SplitSafe) {m : Mem} {s₀ : HeapRun}
    (hs₀ : Reachable (HeapStep T) (heapBoot T A m) s₀) {cs : List StoreCall}
    (hrun : Run (StoreStep T A C) ⟨s₀.heap, []⟩ cs s) :
    ∃ live objs k, StoreInv T A C s (treeAfter cs) live objs k := by
  obtain ⟨bs, hbs⟩ := heapInv_of_reachable hsafe hs₀
  exact (StoreInv.start hbs).run hC hsafe hrun

end StoreInv

/-- The file system refines a tree of names: in every state that calls of tmpfs reach, from any reachable heap
and with any names, opening by path, looking up, listing and reading answer as the tree does that the calls
make, whatever the rest of the kernel writes outside the heap. -/
theorem showsTree_of_run (A : Arena T) (hsafe : A.SplitSafe) (hC : C.Linked T) (m : Mem) (s₀ : HeapRun)
    (hs₀ : Reachable (HeapStep T) (heapBoot T A m) s₀) (cs : List StoreCall) (s : TmpfsRun)
    (hrun : Run (StoreStep T A C) ⟨s₀.heap, []⟩ cs s) (m' : Mem) (hm' : A.SameInside s.heap.mem m') :
    ShowsTree T A C (s.withMem m') (treeAfter cs) := by
  obtain ⟨live, objs, k, hinv⟩ := StoreInv.of_run hC hsafe hs₀ hrun
  exact (hinv.withMem hm').showsTree hC

/-! ## Runs that go on -/

/-- A call leaves every file as it was that it does not write to. -/
theorem StoreStep.leaf_keep {c : StoreCall} (hstep : StoreStep T A C s c s') {j : Nat} {x : List UInt8}
    {f : ByteFile} (hj : t[j]? = some (x, .leaf f)) (hnot : ¬ c.op.Writes j) :
    (c.op.onTree t c.name)[j]? = some (x, .leaf f) := by
  obtain ⟨op, name, out⟩ := c
  obtain ⟨m, -, hcall⟩ := hstep
  have hlt := (List.getElem?_eq_some_iff.mp hj).1
  have hadd : ∀ (y : List UInt8) (d : Content ByteFile), (t.add y d)[j]? = some (x, .leaf f) := fun y d => by
    rw [NameTree.add, List.getElem?_append_left hlt, hj]
  have hmake : ∀ (p : Nat) (y : List UInt8) (d : Content ByteFile),
      (t.make p y d)[j]? = some (x, .leaf f) := fun p y d => by
    rw [NameTree.make, NameTree.getElem?_link, hadd, Option.map_some]
    exact congrArg some (ite_self _)
  cases hcall.step with
  | create _ => exact hadd _ _
  | mkdir _ _ => exact hmake _ _ _
  | mkfile _ _ _ => exact hmake _ _ _
  | write _ _ _ =>
      have hne : ¬ _ = j := hnot
      rw [TmpfsOp.onTree, NameTree.getElem?_update, hj, Option.map_some, if_neg hne]
  | read _ _ => exact hj

namespace StoreInv

/-- Different nodes have different addresses. -/
theorem addr_inj (hinv : StoreInv T A C s t live objs k) {i j : Nat} (hi : i < t.length) (hj : j < t.length)
    (h : s.addr i = s.addr j) : i = j := by
  by_contra hne
  obtain ⟨a, -, ha, -, haddr, -⟩ := hinv.exists_node hi
  obtain ⟨b, -, hb, -, hbddr, -⟩ := hinv.exists_node hj
  refine hinv.base.apart i j a b ha hb hne a.node (TmpObj.node_mem_ptrs a) ?_
  rw [← haddr, h, hbddr]
  exact TmpObj.node_mem_ptrs b

/-- What a call makes of a directory that it enters a node into. -/
theorem isDir_of_node (hinv : StoreInv T A C s t live objs k) {p parent : Nat}
    (hp : s.nodes[p]? = some (.dir, parent)) : ∃ es, t.IsDir p es := by
  obtain ⟨o, y, es, -, -, -, he⟩ := hinv.exists_dir hp
  exact ⟨es, by rw [NameTree.IsDir, he]; rfl⟩

/-- A call leaves every walk where it was. -/
theorem walk_step {c : StoreCall} (hinv : StoreInv T A C s t live objs k) (hstep : StoreStep T A C s c s')
    {i j : Nat} {xs : List (List UInt8)} (hw : t.walk i xs = some j) :
    (c.op.onTree t c.name).walk i xs = some j := by
  obtain ⟨op, name, out⟩ := c
  obtain ⟨m, -, hcall⟩ := hstep
  cases hcall.step with
  | create _ => exact NameTree.walk_add hinv.grown _ _ hw
  | mkdir hp _ =>
      obtain ⟨es, hdir⟩ := hinv.isDir_of_node hp
      exact NameTree.walk_make hinv.grown hdir rfl hw
  | mkfile hp _ _ =>
      obtain ⟨es, hdir⟩ := hinv.isDir_of_node hp
      exact NameTree.walk_make hinv.grown hdir rfl hw
  | write _ _ _ => exact (NameTree.walk_update _ _).trans hw
  | read _ _ => exact hw

/-- What a run leaves as it was. -/
theorem run_keeps (hC : C.Linked T) (hsafe : A.SplitSafe) {cs : List StoreCall}
    (hinv : StoreInv T A C s t live objs k) (hrun : Run (StoreStep T A C) s cs s') :
    ∃ t' live' objs' k', StoreInv T A C s' t' live' objs' k' ∧ t.length ≤ t'.length ∧
      (∀ i < t.length, s'.addr i = s.addr i) ∧
      (∀ i j xs, t.walk i xs = some j → t'.walk i xs = some j) ∧
      ∀ (j : Nat) x f, t[j]? = some (x, .leaf f) → (∀ c ∈ cs, ¬ c.op.Writes j) → t'[j]? = some (x, .leaf f) := by
  induction hrun generalizing t live objs k with
  | nil s =>
      exact ⟨t, live, objs, k, hinv, le_rfl, fun _ _ => rfl, fun _ _ _ hw => hw, fun _ _ _ hj _ => hj⟩
  | @cons s s₁ s₂ c cs hstep _ ih =>
      obtain ⟨live₁, objs₁, k₁, hinv₁⟩ := hinv.step hC hsafe hstep
      obtain ⟨t', live', objs', k', hinv', hlen, haddr, hwalk, hleaf⟩ := ih hinv₁
      have hnodes : ∀ i < t.length, s₁.addr i = s.addr i := by
        intro i hi
        obtain ⟨o, -, ho, -, -⟩ := hinv.exists_node hi
        have hold := hinv.nodes_eq ho
        obtain ⟨m, -, hcall⟩ := hstep
        have hnew := hcall.step.nodes_keep (s := s.withMem m) hold
        rw [TmpfsRun.addr, TmpfsRun.addr, List.getD_eq_getElem?_getD, List.getD_eq_getElem?_getD,
          List.getElem?_map, List.getElem?_map, hold, hnew]
      have hle : t.length ≤ (c.op.onTree t c.name).length := by
        obtain ⟨op, name, out⟩ := c
        cases op <;>
          simp only [TmpfsOp.onTree, NameTree.length_make, NameTree.add, NameTree.update, List.length_append,
            List.length_modify] <;> omega
      refine ⟨t', live', objs', k', hinv', hle.trans hlen, fun i hi => ?_, fun i j xs hw => ?_,
        fun j x f hj hnot => ?_⟩
      · rw [haddr i (hi.trans_le hle), hnodes i hi]
      · exact hwalk i j xs (hinv.walk_step hstep hw)
      · exact hleaf j x f (hstep.leaf_keep hj (hnot c List.mem_cons_self)) fun d hd =>
          hnot d (List.mem_cons_of_mem c hd)

/-- Where an opened path leads. -/
theorem exists_walk (hinv : StoreInv T A C s t live objs k) (hC : C.Linked T) {root path buf fuel p : Nat}
    {q : List UInt8} (hroot : root < t.length) (hargs : OpenArgs A s.heap.mem path buf q)
    (hfuel : q.length + 1 < fuel)
    (hopen : openPath T C s.heap.mem (s.addr root) path buf fuel = .ok (some p)) :
    ∃ j, t.walk root (components (slash :: q)) = some j ∧ j < t.length ∧ s.addr j = p := by
  rw [hinv.openPath_eq hC hroot hargs hfuel] at hopen
  obtain ⟨j, hj, rfl⟩ := Option.map_eq_some_iff.mp (Except.ok.inj hopen)
  exact ⟨j, hj, hinv.grown.walk_lt hroot hj, rfl⟩

end StoreInv

/-- Paths are permanent and unique: when a path opens a node in some state of tmpfs, then after any further
calls the paths with the same components open that node, and no others do. -/
theorem paths_permanent (A : Arena T) (hsafe : A.SplitSafe) (hC : C.Linked T) (m : Mem) (s₀ : HeapRun)
    (hs₀ : Reachable (HeapStep T) (heapBoot T A m) s₀) (cs cs' : List StoreCall) (s s' : TmpfsRun)
    (hrun : Run (StoreStep T A C) ⟨s₀.heap, []⟩ cs s) (hrun' : Run (StoreStep T A C) s cs' s')
    (m₁ m₂ : Mem) (hm₁ : A.SameInside s.heap.mem m₁) (hm₂ : A.SameInside s'.heap.mem m₂) (root : Nat)
    (hroot : root < s.nodes.length) (path buf path' buf' fuel p : Nat) (q q' : List UInt8)
    (hargs : OpenArgs A m₁ path buf q) (hargs' : OpenArgs A m₂ path' buf' q') (hfuel : q.length + 1 < fuel)
    (hfuel' : q'.length + 1 < fuel)
    (hopen : openPath T C m₁ (s.addr root) path buf fuel = .ok (some p)) :
    openPath T C m₂ (s'.addr root) path' buf' fuel = .ok (some p) ↔
      components (slash :: q') = components (slash :: q) := by
  obtain ⟨live, objs, k, hinv⟩ := StoreInv.of_run hC hsafe hs₀ hrun
  have hlen : s.nodes.length = (treeAfter cs).length := by
    rw [hinv.base.nodes, List.length_map, hinv.length_eq]
  rw [hlen] at hroot
  obtain ⟨t', live', objs', k', hinv', hle, haddr, hwalk, -⟩ := hinv.run_keeps hC hsafe hrun'
  obtain ⟨j, hj, hjlt, rfl⟩ := (hinv.withMem hm₁).exists_walk hC hroot hargs hfuel hopen
  have hroot' := hroot.trans_le hle
  constructor
  · intro hopen'
    obtain ⟨i, hi, hilt, hsame⟩ := (hinv'.withMem hm₂).exists_walk hC hroot' hargs' hfuel' hopen'
    have hji := (hinv'.withMem hm₂).addr_inj hilt (hjlt.trans_le hle) (hsame.trans (haddr j hjlt).symm)
    exact hinv'.grown.walk_inj (hji ▸ hi) (hwalk _ _ _ hj)
  · intro hcomp
    have hopen' := (hinv'.withMem hm₂).openPath_eq hC hroot' hargs' hfuel'
    rw [hcomp, hwalk _ _ _ hj] at hopen'
    exact hopen'.trans (congrArg (fun a => Except.ok (some a)) (haddr j hjlt))

/-! ## What was made is found -/

/-- A read of a file whose bytes are known. -/
theorem ByteFile.Reads.eq_of_bytes {bytes out : List UInt8} {off sz : Nat}
    (h : (ByteFile.ofBytes bytes).Reads off sz n out) : (n, out) = (((bytes.drop off).take sz).length,
      (bytes.drop off).take sz) := by
  have hsize : (ByteFile.ofBytes bytes).size = bytes.length := rfl
  have hcount := h.count
  rw [ByteFile.readLen, hsize] at hcount
  have hn : n = ((bytes.drop off).take sz).length := by
    rw [List.length_take, List.length_drop, hcount]
    split_ifs <;> omega
  have hbytes : out = (bytes.drop off).take sz := by
    refine List.ext_getElem (h.length.trans hn) fun i h₁ h₂ => ?_
    rw [List.length_take, List.length_drop] at h₂
    have hi : off + i < bytes.length := by omega
    have hstored := h.stored i bytes[off + i] (by rw [← h.length]; exact h₁) (List.getElem?_eq_getElem hi)
    rw [List.getElem_take, List.getElem_drop]
    exact Option.some.inj ((List.getElem?_eq_getElem h₁).symm.trans hstored)
  rw [hn, hbytes]

/-- What was made is found: a file made in a directory that a path opens, under a name that its path did not
open before, is opened by that path after any further calls, and until somebody writes to it reads return
the bytes it was made with. -/
theorem open_mkfile (A : Arena T) (hsafe : A.SplitSafe) (hC : C.Linked T) (m : Mem) (s₀ : HeapRun)
    (hs₀ : Reachable (HeapStep T) (heapBoot T A m) s₀) (cs cs' : List StoreCall) (s s₁ s' : TmpfsRun)
    (hrun : Run (StoreStep T A C) ⟨s₀.heap, []⟩ cs s) (parent ptr : Nat) (bytes x : List UInt8) (out : TmpfsOut)
    (hstep : StoreStep T A C s ⟨.mkfile parent ptr (.buffer bytes), x, out⟩ s₁)
    (hrun' : Run (StoreStep T A C) s₁ cs' s') (m₁ m₂ : Mem) (hm₁ : A.SameInside s.heap.mem m₁)
    (hm₂ : A.SameInside s'.heap.mem m₂) (root : Nat) (hroot : root < s.nodes.length)
    (path buf path₁ path₂ buf₂ fuel : Nat) (q q' : List UInt8) (hargs : OpenArgs A m₁ path buf q)
    (hargs₁ : OpenArgs A m₁ path₁ buf q') (hargs₂ : OpenArgs A m₂ path₂ buf₂ q')
    (hfuel : q.length + 1 < fuel) (hfuel' : q'.length + 1 < fuel)
    (hcomp : components (slash :: q') = components (slash :: q) ++ [x.take 255])
    (hparent : openPath T C m₁ (s.addr root) path buf fuel = .ok (some (s.addr parent)))
    (hfree : openPath T C m₁ (s.addr root) path₁ buf fuel = .ok none) :
    ∃ n, openPath T C m₂ (s'.addr root) path₂ buf₂ fuel = .ok (some n) ∧
      ((∀ d ∈ cs', ¬ d.op.Writes s.nodes.length) → ∀ off sz, sz < 2 ^ 32 → vfsRead T C m₂ n off sz =
        some (((bytes.drop off).take sz).length, (bytes.drop off).take sz)) := by
  obtain ⟨live, objs, k, hinv⟩ := StoreInv.of_run hC hsafe hs₀ hrun
  obtain ⟨t, ht⟩ : ∃ t, t = treeAfter cs := ⟨_, rfl⟩
  rw [← ht] at hinv
  have hlen : s.nodes.length = t.length := by rw [hinv.base.nodes, List.length_map, hinv.length_eq]
  rw [hlen] at hroot ⊢
  obtain ⟨live₁, objs₁, k₁, hinv₁⟩ := hinv.step hC hsafe hstep
  obtain ⟨es, hdir⟩ : ∃ es, t.IsDir parent es := by
    obtain ⟨m, -, hcall⟩ := hstep
    cases hcall.step with
    | mkfile hp _ _ => exact hinv.isDir_of_node hp
  -- the parent's path walks to the parent, and there is no such name in it
  obtain ⟨j, hj, hjlt, haddr⟩ := (hinv.withMem hm₁).exists_walk hC hroot hargs hfuel hparent
  obtain rfl := hinv.addr_inj hjlt hdir.lt haddr
  have hnone : t.child j (x.take 255) = none := by
    have hopen := ((hinv.withMem hm₁).openPath_eq hC hroot hargs₁ hfuel').symm.trans hfree
    rw [hcomp, NameTree.walk_concat, hj] at hopen
    exact Option.map_eq_none_iff.mp (Except.ok.inj hopen)
  have hwalk : (t.make j (x.take 255) (.leaf (FileData.buffer bytes).toFile)).walk root
      (components (slash :: q')) = some t.length := by
    rw [hcomp, NameTree.walk_make_concat hinv.grown hdir rfl hj, hnone]
    rfl
  obtain ⟨t', live', objs', k', hinv', hle, -, hkeep, hleaf⟩ := hinv₁.run_keeps hC hsafe hrun'
  have hlen₁ : (t.make j (x.take 255) (.leaf (FileData.buffer bytes).toFile)).length = t.length + 1 :=
    NameTree.length_make
  have hroot' : root < t'.length := by
    have hle' : (t.make j (x.take 255) (.leaf (FileData.buffer bytes).toFile)).length ≤ t'.length := hle
    omega
  refine ⟨s'.addr t.length, ?_, fun hno off sz hsz => ?_⟩
  · have hopen := (hinv'.withMem hm₂).openPath_eq hC hroot' hargs₂ hfuel'
    rw [hkeep _ _ _ hwalk] at hopen
    exact hopen
  · have hnew : (t.make j (x.take 255) (.leaf (FileData.buffer bytes).toFile))[t.length]? =
        some (x.take 255, .leaf (.ofBytes bytes)) := by
      rw [NameTree.make, NameTree.getElem?_link, NameTree.add, List.getElem?_concat_length, Option.map_some]
      exact congrArg some (ite_self _)
    obtain ⟨⟨n, bs⟩, hread, hbytes⟩ :=
      ((hinv'.withMem hm₂).showsTree hC).reads _ _ _ off sz (hleaf _ _ _ hnew hno) hsz
    rw [hbytes.eq_of_bytes] at hread
    exact hread

/-! ## A file system -/

instance (A : Arena T) (x : Nat) : Decidable (A.Outside x) :=
  inferInstanceAs (Decidable (x < A.start ∨ A.start + A.size ≤ x))

/-- The heap of one memory, with everything else from another. -/
def Arena.overlay (A : Arena T) (m₀ m : Mem) : Mem := fun x => if A.Outside x then m₀ x else m x

theorem Arena.sameInside_overlay (A : Arena T) (m₀ m : Mem) : A.SameInside m (A.overlay m₀ m) :=
  fun _ hx => if_neg hx

/-- A blank heap stays blank. -/
theorem Blank.congr_outside {N : Nat} {v : UInt8} (hb : Blank T A h live N v) (hm : A.SameInside h.mem m') :
    Blank T A { h with mem := m' } live N v := by
  obtain ⟨bs, hinv, hfits, hfill⟩ := hb
  refine ⟨bs, hinv.congr_outside hm, hfits, fun b hb hfree x h₁ h₂ => ?_⟩
  have hbounds := hinv.laid.bounds hb
  rw [← hfill b hb hfree x h₁ h₂]
  refine hm x fun hout => ?_
  rw [Arena.Outside] at hout
  omega

/-- The strings `"/"`, `"/a"` and `"a"`, at the addresses 1, 3 and 4. -/
def someStrings : Mem := strMem [47, 0, 47, 97]

/-- Functions at some addresses. -/
def someCode : TmpfsCode := ⟨1, 2, 3, 4⟩

theorem linked_someCode : someCode.Linked .x86 := ⟨by decide, by decide⟩

/-- The arena is above the first page. -/
theorem outside_of_lt {x : Nat} (hx : x < 0x1000) : (kernelArena .x86).Outside x :=
  .inl (hx.trans_le (by decide))

theorem overlay_someStrings (m : Mem) {x : Nat} (hx : x < 0x1000) :
    (kernelArena .x86).overlay someStrings m x = someStrings x := if_pos (outside_of_lt hx)

theorem openArgs_root (m : Mem) :
    OpenArgs (kernelArena .x86) ((kernelArena .x86).overlay someStrings m) 1 256 [] where
  ne_zero := by decide
  cstr := ⟨overlay_someStrings m (by decide), by decide, overlay_someStrings m (by decide)⟩
  short := by decide
  apart := by decide
  outside z _ h₂ := outside_of_lt (by omega)

theorem openArgs_a (m : Mem) :
    OpenArgs (kernelArena .x86) ((kernelArena .x86).overlay someStrings m) 3 256 [97] where
  ne_zero := by decide
  cstr := ⟨overlay_someStrings m (by decide), by decide, overlay_someStrings m (by decide), by decide,
    overlay_someStrings m (by decide)⟩
  short := by decide
  apart := by decide
  outside z _ h₂ := outside_of_lt (by omega)

theorem staticStr_a (m : Mem) :
    StaticStr (kernelArena .x86) ((kernelArena .x86).overlay someStrings m) 4 [97] where
  cstr := ⟨overlay_someStrings m (by decide), by decide, overlay_someStrings m (by decide)⟩
  outside x _ h₂ := outside_of_lt (show x < 0x1000 by simp only [List.length_singleton] at h₂; omega)

/-- The calls `tmpfs_create("a")` and, in this directory, `tmpfs_mkfile("a")` with the bytes `"AB"`. -/
def createCall : StoreCall := ⟨.create 4, [97], .made⟩

/-- The second of them. -/
def mkfileCall : StoreCall := ⟨.mkfile 0 4 (.buffer [65, 66]), [97], .made⟩

/-- On the kernel heap right after boot both calls return. -/
theorem exists_store : ∃ s s₁, StoreStep .x86 (kernelArena .x86) someCode
    ⟨(heapBoot .x86 (kernelArena .x86) (filledArena .x86 0)).heap, []⟩ createCall s ∧
    StoreStep .x86 (kernelArena .x86) someCode s mkfileCall s₁ ∧ s.nodes.length = 1 := by
  have hsafe := kernelArena_splitSafe .x86
  have hb₀ := (blank_kernelArena .x86 0 (N := 4096) (by decide)).congr_outside
    ((kernelArena .x86).sameInside_overlay someStrings _)
  obtain ⟨bs₀, hinv₀⟩ := hb₀.heapInv
  obtain ⟨r, h₁, live₁, hcreate, hb₁⟩ := hb₀.create (C := someCode) hsafe (by decide) 4
  have hb₂ := hb₁.congr_outside ((kernelArena .x86).sameInside_overlay someStrings h₁.mem)
  obtain ⟨bs₁, hinv₁⟩ := hb₁.heapInv
  obtain ⟨live', d, hacts, ho, hd⟩ := tmpfsCreate_spec hinv₀ hsafe hcreate
  obtain ⟨bs', hinv'⟩ := hacts.inv
  obtain rfl := hinv₁.live_eq hinv'
  have hd' : DirObj .x86 ((kernelArena .x86).overlay someStrings h₁.mem) ⟨.dir, r, d, 0⟩ 0 :=
    hd.keep fun p hp => hinv₁.keeps_outside (ho.ptrs_subset hp)
      ((kernelArena .x86).sameInside_overlay someStrings h₁.mem)
  have hsize : (FileData.buffer [65, 66]).size ≠ 0 ∧ (FileData.buffer [65, 66]).size ≤ 400 := by decide
  obtain ⟨n, h₂, hmk, -⟩ := hb₂.mkfile (C := someCode) hsafe (by decide) ho rfl hd' hsize.1 hsize.2 4
  have htyped : (TmpfsOp.mkfile 0 4 (.buffer [65, 66])).Typed .x86 := ⟨by decide, by decide⟩
  refine ⟨⟨h₁, [(.dir, r)]⟩, ⟨h₂, [(.dir, r), (.file, n)]⟩,
    ⟨_, (kernelArena .x86).sameInside_overlay someStrings _, .create hcreate, trivial, fun p hp => ?_⟩,
    ⟨_, (kernelArena .x86).sameInside_overlay someStrings _, .mkfile rfl htyped hmk, trivial, fun p hp => ?_⟩,
    rfl⟩
  · obtain rfl := Option.some.inj hp
    exact staticStr_a _
  · obtain rfl := Option.some.inj hp
    exact staticStr_a _

/-- The tree of the two calls. -/
theorem showsTree_kernelArena : ∃ (s : TmpfsRun) (m : Mem), (kernelArena .x86).SameInside s.heap.mem m ∧
    ShowsTree .x86 (kernelArena .x86) someCode (s.withMem m) (treeAfter [createCall, mkfileCall]) := by
  obtain ⟨s, s₁, hcreate, hmkfile, -⟩ := exists_store
  exact ⟨s₁, s₁.heap.mem, fun _ _ => rfl, showsTree_of_run (kernelArena .x86) (kernelArena_splitSafe .x86)
    linked_someCode (filledArena .x86 0) _ (.refl _) _ s₁ (.cons hcreate (.single hmkfile)) _ fun _ _ => rfl⟩

/-- In the directory that `tmpfs_create` makes there is nothing yet. -/
theorem openPath_created {s : TmpfsRun} (hrun : StoreStep .x86 (kernelArena .x86) someCode
      ⟨(heapBoot .x86 (kernelArena .x86) (filledArena .x86 0)).heap, []⟩ createCall s) {path : Nat}
    {q : List UInt8} (hargs : OpenArgs (kernelArena .x86)
      ((kernelArena .x86).overlay someStrings s.heap.mem) path 256 q) :
    openPath .x86 someCode ((kernelArena .x86).overlay someStrings s.heap.mem) (s.addr 0) path 256 300 =
      .ok ((NameTree.walk (treeAfter [createCall]) 0 (components (slash :: q))).map s.addr) := by
  obtain ⟨live, objs, k, hinv⟩ := StoreInv.of_run linked_someCode (kernelArena_splitSafe .x86)
    (.refl (heapBoot .x86 (kernelArena .x86) (filledArena .x86 0))) (.single hrun)
  have hshort := hargs.short
  exact (hinv.withMem ((kernelArena .x86).sameInside_overlay someStrings s.heap.mem)).openPath_eq
    linked_someCode (by decide) hargs (by omega)

/-- The path `"/"` opens the directory before and after the file is made. -/
theorem paths_permanent_root : ∃ s s₁ p, StoreStep .x86 (kernelArena .x86) someCode s mkfileCall s₁ ∧
    openPath .x86 someCode ((kernelArena .x86).overlay someStrings s₁.heap.mem) (s₁.addr 0) 1 256 300 =
      .ok (some p) := by
  obtain ⟨s, s₁, hcreate, hmkfile, hlen⟩ := exists_store
  have hopen := openPath_created hcreate (openArgs_root s.heap.mem)
  refine ⟨s, s₁, s.addr 0, hmkfile, ?_⟩
  exact (paths_permanent (kernelArena .x86) (kernelArena_splitSafe .x86) linked_someCode (filledArena .x86 0) _
    (.refl _) _ _ s s₁ (.single hcreate) (.single hmkfile) _ _ ((kernelArena .x86).sameInside_overlay someStrings _)
    ((kernelArena .x86).sameInside_overlay someStrings _) 0 (by omega) 1 256 1 256 300 (s.addr 0) [] []
    (openArgs_root _) (openArgs_root _) (by decide) (by decide) hopen).mpr rfl

/-- The path `"/a"` opens the file, and its bytes are `"AB"`. -/
theorem open_mkfile_a : ∃ (s₁ : TmpfsRun) (n : Nat),
    openPath .x86 someCode ((kernelArena .x86).overlay someStrings s₁.heap.mem) (s₁.addr 0) 3 256 300 =
      .ok (some n) ∧
    vfsRead .x86 someCode ((kernelArena .x86).overlay someStrings s₁.heap.mem) n 0 100 = some (2, [65, 66]) := by
  obtain ⟨s, s₁, hcreate, hmkfile, hlen⟩ := exists_store
  obtain ⟨n, hopen, hread⟩ := open_mkfile (kernelArena .x86) (kernelArena_splitSafe .x86) linked_someCode
    (filledArena .x86 0) _ (.refl _) _ _ s s₁ s₁ (.single hcreate) 0 4 [65, 66] [97] .made hmkfile (.nil s₁) _ _
    ((kernelArena .x86).sameInside_overlay someStrings _) ((kernelArena .x86).sameInside_overlay someStrings _)
    0 (by omega) 1 256 3 3 256 300 [] [97] (openArgs_root _) (openArgs_a _) (openArgs_a _) (by decide)
    (by decide) (by decide) (openPath_created hcreate (openArgs_root s.heap.mem))
    (openPath_created hcreate (openArgs_a s.heap.mem))
  exact ⟨s₁, n, hopen, hread (fun d hd => absurd hd List.not_mem_nil) 0 100 (by decide)⟩

end Aerogel
