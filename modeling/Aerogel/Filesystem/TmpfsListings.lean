import Aerogel.Filesystem.TmpfsRuns
import Aerogel.Foundations.Listing

/-! # What tmpfs directories list

`tmpfs_readdir` reads the table of a directory and `tmpfs_finddir` searches it, comparing names with
`strcmp`. The table is found through pointers, and so are the names; that both are what the creating calls
left there is an invariant of every sequence of `tmpfs_create`, `tmpfs_mkdir` and `tmpfs_mkfile`, with any
names at all. -/

namespace Aerogel

variable {T : Target} {A : Arena T} {C : TmpfsCode} {h h' h₁ : Heap} {live live' own : Finset Nat}
  {bs : List Block} {m m' : Mem} {o : TmpObj} {es : List Nat} {n node name fuel : Nat}

/-! ## Names -/

/-- `node->name`. -/
def nodeName (T : Target) (m : Mem) (node : Nat) : List UInt8 :=
  strAt m (node + (vfsNode T).off .name) 255

/-- The node has room for a `vfs_node_t`, and its name ends in it. -/
structure NamedNode (T : Target) (m : Mem) (node : Nat) : Prop where
  room : (vfsNode T).size ≤ payload T m node
  ends : m (node + (vfsNode T).off .name + 255) = 0

/-- The name lies in front of the other fields. -/
theorem vfsNode_name (T : Target) : (vfsNode T).off .name = 0 ∧ (vfsNode T).width .name = 256 ∧
    256 ≤ (vfsNode T).size := by
  cases T <;> decide

theorem NamedNode.cStr (hn : NamedNode T m n) :
    CStr m (n + (vfsNode T).off .name) (nodeName T m n) := cStr_strAt hn.ends

theorem length_nodeName_le (T : Target) (m : Mem) (n : Nat) : (nodeName T m n).length ≤ 255 :=
  length_strAt_le _ _ _

/-- A node that is kept keeps its name. -/
theorem NamedNode.keep (hn : NamedNode T m n) (hkeep : KeepsPayload T m m' n) :
    NamedNode T m' n ∧ nodeName T m' n = nodeName T m n := by
  obtain ⟨hoff, -, hsize⟩ := vfsNode_name T
  have hroom := hn.room
  have hbyte : ∀ x, n + (vfsNode T).off .name ≤ x → x ≤ n + (vfsNode T).off .name + 255 → m' x = m x :=
    fun x h₁ h₂ => hkeep.bytes x (by omega) (by omega)
  have hlen := length_nodeName_le T m n
  refine ⟨⟨hroom.trans_eq hkeep.size.symm, ?_⟩, ?_⟩
  · rw [hbyte _ (by omega) le_rfl]
    exact hn.ends
  · exact (hn.cStr.congr fun x h₁ h₂ => hbyte x h₁ (by omega)).strAt_eq hlen

/-! ## Reading a listing -/

/-- A pointer to a node, or none for `NULL`. -/
def ofPtr (p : Nat) : Option Nat := if p = 0 then none else some p

theorem ofPtr_getD {x : Option Nat} (hx : x ≠ some 0) : ofPtr (x.getD 0) = x := by
  cases x with
  | none => rfl
  | some p => exact if_neg fun h0 => hx (congrArg some h0)

/-- The entries in the table. -/
theorem DirListing.dirEntry_eq (hd : DirListing T h.mem o es) (hinv : HeapInv T A ⟨h, live⟩ bs)
    (ho : o.Owned live) {i e : Nat} (hi : es[i]? = some e) : dirEntry T h.mem o.record i = e := by
  have h0 := hd.buf_ne_zero hi
  obtain ⟨cap, hdir, hle, hfits, -⟩ := hd.dir
  obtain ⟨hlt, -⟩ := List.getElem?_eq_some_iff.mp hi
  have hroom := hfits h0
  have hslot := slot_le (T := T) (show i < cap by omega)
  have hstop : o.buf + payload T h.mem o.buf < 2 ^ T.wordBits :=
    hinv.payload_stop_lt (ho.buf_mem.resolve_left h0)
  rw [dirEntry, hdir.entries_eq, Nat.mod_eq_of_lt (by omega), hd.slots i e hi]

/-- `tmpfs_readdir` reads the listing. -/
theorem DirListing.readdir_eq (hd : DirListing T h.mem o es) (hinv : HeapInv T A ⟨h, live⟩ bs)
    (ho : o.Owned live) (i : Nat) : tmpfsReaddir T h.mem o.node i = es[i]?.getD 0 := by
  obtain ⟨cap, hdir, -⟩ := hd.dir
  simp only [tmpfsReaddir]
  rw [hd.node.fsData, hdir.count_eq]
  split_ifs with hlt
  · have hi := List.getElem?_eq_getElem hlt
    rw [hd.dirEntry_eq hinv ho hi, hi]
    rfl
  · rw [List.getElem?_eq_none (Nat.not_lt.mp hlt)]
    rfl

/-- The loop of `tmpfs_finddir` searches the rest of the listing. -/
theorem finddirLoop_eq {d i : Nat} {s : List UInt8} (hname : CStr m name s) (hfuel : 255 < fuel)
    (hentry : ∀ (j : Nat) e, es[j]? = some e → dirEntry T m d (i + j) = e)
    (hnamed : ∀ e ∈ es, NamedNode T m e) :
    finddirLoop T m d name fuel es.length i = .ok ((findNamed (nodeName T m) es s).getD 0) := by
  induction es generalizing i with
  | nil => rfl
  | cons e es ih =>
      have he : dirEntry T m d i = e := hentry 0 e rfl
      have hlen := length_nodeName_le T m e
      obtain ⟨c, hc, hiff⟩ := (hnamed e List.mem_cons_self).cStr.strcmp_eq hname
        (show (nodeName T m e).length < fuel by omega)
      rw [List.length_cons, finddirLoop, he, hc]
      by_cases heq : nodeName T m e = s
      · rw [findNamed_cons_of_eq heq, hiff.mpr heq]
        rfl
      · have hrest : ∀ (j : Nat) x, es[j]? = some x → dirEntry T m d (i + 1 + j) = x := by
          intro j x hj
          rw [Nat.add_assoc, Nat.add_comm 1 j]
          exact hentry (j + 1) x hj
        rw [findNamed_cons_of_ne heq, ← ih hrest fun x hx => hnamed x (List.mem_cons_of_mem e hx)]
        exact if_neg fun hzero => heq (hiff.mp hzero)

/-- `tmpfs_finddir` finds the first node of the listing with the name. -/
theorem DirListing.finddir_eq (hd : DirListing T h.mem o es) (hinv : HeapInv T A ⟨h, live⟩ bs)
    (ho : o.Owned live) {s : List UInt8} (hname : CStr h.mem name s) (hfuel : 255 < fuel)
    (hnamed : ∀ e ∈ es, NamedNode T h.mem e) :
    tmpfsFinddir T h.mem o.node name fuel = .ok ((findNamed (nodeName T h.mem) es s).getD 0) := by
  obtain ⟨cap, hdir, -⟩ := hd.dir
  simp only [tmpfsFinddir]
  rw [hd.node.fsData, hdir.count_eq]
  refine finddirLoop_eq hname hfuel (fun j e hj => ?_) hnamed
  rw [Nat.zero_add]
  exact hd.dirEntry_eq hinv ho hj

/-- The two calls, for a directory with this listing. -/
theorem DirListing.looksUp (hd : DirListing T h.mem o es) (hinv : HeapInv T A ⟨h, live⟩ bs)
    (ho : o.Owned live) (hnd : es.Nodup) (hlive : ∀ e ∈ es, e ∈ live)
    (hnamed : ∀ e ∈ es, NamedNode T h.mem e) (hfuel : 255 < fuel) :
    LooksUp (fun i => .ok (ofPtr (tmpfsReaddir T h.mem o.node i))) (nodeName T h.mem) fun n =>
      (tmpfsFinddir T h.mem o.node (n + (vfsNode T).off .name) fuel).map ofPtr := by
  have h0 : 0 ∉ es := fun h0 => hinv.zero_notMem (hlive 0 h0)
  refine looksUp_of_list hnd (fun i => ?_) fun n hn => ?_
  · rw [hd.readdir_eq hinv ho, ofPtr_getD fun hi => h0 (List.mem_of_getElem? hi)]
  · rw [hd.finddir_eq hinv ho (hnamed n hn).cStr hfuel hnamed, Except.map,
      ofPtr_getD fun hf => h0 (mem_of_findNamed hf)]

/-! ## The invariant -/

/-- The allocations behind the node of a directory, as memory has them. -/
def dirOf (T : Target) (m : Mem) (node : Nat) : TmpObj :=
  ⟨.dir, node, nodeGet T m node .fsData, dirGet T m (nodeGet T m node .fsData) .entries⟩

theorem DirListing.dirOf_eq (hd : DirListing T m o es) (hkind : o.kind = .dir) :
    dirOf T m o.node = o := by
  obtain ⟨cap, hdir, -⟩ := hd.dir
  rw [dirOf, hd.node.fsData, hdir.entries_eq, ← hkind]

/-- The node is that of a directory which lists some of these nodes, each once; its record and its table
are no nodes. -/
structure ListedDir (T : Target) (m : Mem) (live : Finset Nat) (nodes : List Nat) (node : Nat)
    (es : List Nat) : Prop where
  owned : (dirOf T m node).Owned live
  listing : DirListing T m (dirOf T m node) es
  nodup : es.Nodup
  sub : ∀ e ∈ es, e ∈ nodes
  tables : ∀ x ∈ nodes, x ≠ (dirOf T m node).record ∧ x ≠ (dirOf T m node).buf

/-- A directory that others leave alone. -/
theorem ListedDir.keep {nodes : List Nat} (hd : ListedDir T m live nodes node es)
    (hkeep : ∀ p ∈ (dirOf T m node).ptrs, p ∈ live' ∧ KeepsPayload T m m' p) :
    dirOf T m' node = dirOf T m node ∧ ListedDir T m' live' nodes node es := by
  have hlist := hd.listing.keep fun p hp => (hkeep p hp).2
  have hsame : dirOf T m' node = dirOf T m node := hlist.dirOf_eq rfl
  refine ⟨hsame, ?_, ?_, hd.nodup, hd.sub, ?_⟩
  · rw [hsame]
    exact hd.owned.mono fun p hp => (hkeep p hp).1
  · rw [hsame]
    exact hlist
  · rw [hsame]
    exact hd.tables

/-- All nodes are live and have names, the directories among them list nodes, and no two directories share
an allocation. -/
structure TreeInv (T : Target) (A : Arena T) (s : TmpfsRun) (live : Finset Nat) : Prop where
  heap : ∃ bs, HeapInv T A ⟨s.heap, live⟩ bs
  named : ∀ x ∈ s.nodes, x.2 ∈ live ∧ NamedNode T s.heap.mem x.2
  dirs : ∀ node, (NodeKind.dir, node) ∈ s.nodes →
    ∃ es, ListedDir T s.heap.mem live (s.nodes.map Prod.snd) node es
  apart : ∀ a b, (NodeKind.dir, a) ∈ s.nodes → (NodeKind.dir, b) ∈ s.nodes → a ≠ b →
    ∀ p ∈ (dirOf T s.heap.mem a).ptrs, p ∉ (dirOf T s.heap.mem b).ptrs

variable {s s' : TmpfsRun}

/-- The empty file system on any heap. -/
theorem TreeInv.start {s : HeapRun} {bs : List Block} (h : HeapInv T A s bs) :
    TreeInv T A ⟨s.heap, []⟩ s.live where
  heap := ⟨bs, h⟩
  named _ hx := absurd hx List.not_mem_nil
  dirs _ hx := absurd hx List.not_mem_nil
  apart _ _ hx := absurd hx List.not_mem_nil

/-- Nodes are live and have names. -/
theorem TreeInv.named_of_mem (hinv : TreeInv T A s live) (hn : n ∈ s.nodes.map Prod.snd) :
    n ∈ live ∧ NamedNode T s.heap.mem n := by
  obtain ⟨x, hx, rfl⟩ := List.mem_map.mp hn
  exact hinv.named x hx

/-- Listed nodes are live, so there are not many of them. -/
theorem TreeInv.length_lt (hinv : TreeInv T A s live)
    (hd : ListedDir T s.heap.mem live (s.nodes.map Prod.snd) node es) : es.length < 2 ^ 28 := by
  obtain ⟨bs, hheap⟩ := hinv.heap
  exact hheap.length_lt_of_nodup hd.nodup fun e he => (hinv.named_of_mem (hd.sub e he)).1

/-- A directory owns its node, its record and its table, none of which is another node. -/
theorem ListedDir.notMem_ptrs {nodes : List Nat} (hd : ListedDir T m live nodes node es) {x : Nat}
    (hx : x ∈ nodes) (hne : x ≠ node) : x ∉ (dirOf T m node).ptrs := by
  intro hmem
  rcases TmpObj.mem_ptrs.mp hmem with ⟨heq, -⟩ | heq | heq
  · exact (hd.tables x hx).2 heq
  · exact hne heq
  · exact (hd.tables x hx).1 heq

/-- A directory with one more entry, possibly in a new table. -/
theorem ListedDir.enter {nodes : List Nat} {q : Nat} (hd : ListedDir T m live nodes node es)
    (hnodes : ∀ x ∈ nodes, x ∈ live ∧ x ≠ 0) (hn : n ∈ nodes) (hnot : n ∉ es)
    (ho : ({ dirOf T m node with buf := q } : TmpObj).Owned live')
    (hlist : DirListing T m' { dirOf T m node with buf := q } (es ++ [n]))
    (hq : q ≠ 0 → q ∈ (dirOf T m node).ptrs ∨ q ∉ live) :
    dirOf T m' node = { dirOf T m node with buf := q } ∧ ListedDir T m' live' nodes node (es ++ [n]) := by
  have hsame : dirOf T m' node = { dirOf T m node with buf := q } := hlist.dirOf_eq rfl
  refine ⟨hsame, hsame ▸ ho, hsame ▸ hlist, ?_, fun e he => ?_, fun x hx => ?_⟩
  · exact List.nodup_append.mpr ⟨hd.nodup, List.nodup_singleton n, fun a ha b hb heq => hnot (by
      rw [← List.mem_singleton.mp hb, ← heq]
      exact ha)⟩
  · rcases List.mem_append.mp he with he | he
    · exact hd.sub e he
    · rw [List.mem_singleton.mp he]
      exact hn
  · rw [hsame]
    refine ⟨(hd.tables x hx).1, ?_⟩
    rintro rfl
    rcases hq (hnodes x hx).2 with hmem | hnew
    · by_cases heq : x = node
      · exact ho.buf_ne_node heq
      · exact hd.notMem_ptrs hx heq hmem
    · exact hnew (hnodes x hx).1

/-! ## New nodes -/

/-- From `h` to `h'` a node was made: it has a name, a new directory is empty, and all that was touched is
new. -/
structure NewNode (T : Target) (A : Arena T) (h : Heap) (live : Finset Nat) (kind : NodeKind) (n : Nat)
    (h' : Heap) (live' own : Finset Nat) : Prop where
  acts : Acts T A ⟨h, live⟩ ∅ ⟨h', live'⟩ own
  mem : n ∈ own
  named : NamedNode T h'.mem n
  dir : kind = .dir → (dirOf T h'.mem n).ptrs ⊆ own ∧ (dirOf T h'.mem n).buf = 0 ∧
    (dirOf T h'.mem n).Owned live' ∧ DirListing T h'.mem (dirOf T h'.mem n) []

/-- The name of a new node ends in front of the other fields, wherever it was copied from. -/
theorem newNode_named {fields : List (NodeField × Nat)} (hname : .name ∉ fields.map Prod.fst)
    (hrun : newNode T h name fields = .ok (n, h')) (hroom : (vfsNode T).size ≤ payload T h'.mem n) :
    NamedNode T h'.mem n := by
  obtain ⟨hoff, hwidth, hsize⟩ := vfsNode_name T
  obtain ⟨⟨n, h₁⟩, -, hres⟩ := bind_eq_ok.mp hrun
  obtain ⟨rfl, rfl⟩ := Prod.mk.inj (Except.ok.inj hres)
  refine ⟨hroom, ?_⟩
  dsimp only
  rw [(vfsNode T).setAll_apply_of_notMem _ hname (by omega) (by omega)]
  refine strncpy_apply_end _ _ ?_
  rw [memset_apply, if_pos (by omega)]
  rfl

/-- `tmpfs_create` makes an empty directory. -/
theorem newNode_of_tmpfsCreate (hinv : HeapInv T A ⟨h, live⟩ bs) (hsafe : A.SplitSafe)
    (hrun : tmpfsCreate T C h name = .ok (n, h')) : ∃ live' own, NewNode T A h live .dir n h' live' own := by
  obtain ⟨live', d, hacts, howned, hdir⟩ := tmpfsCreate_spec hinv hsafe hrun
  obtain ⟨es, hlen, hlist⟩ := hdir.exists_listing
  obtain rfl := List.length_eq_zero_iff.mp (Nat.le_zero.mp hlen)
  have hsame : dirOf T h'.mem n = ⟨.dir, n, d, 0⟩ := hlist.dirOf_eq rfl
  obtain ⟨r, -, hnode⟩ := bind_eq_ok.mp hrun
  refine ⟨live', _, hacts, TmpObj.node_mem_ptrs _, newNode_named ?_ hnode hdir.node.room, fun _ => ?_⟩
  · change NodeField.name ∉ [NodeField.flags, .fsData, .readdir, .finddir]
    decide
  · rw [hsame]
    exact ⟨subset_rfl, rfl, howned, hlist⟩

/-- The first part of `tmpfs_mkfile` only touches what it allocates. The size need not be that of the
block: `kmalloc` rounds a size near the end of the address space to 0. -/
theorem newFile_acts {data : FileData} {f i : Nat} (hinv : HeapInv T A ⟨h, live⟩ bs)
    (hsafe : A.SplitSafe) (htyped : (TmpfsOp.mkfile i name data).Typed T) (hrun : newFile T h data = .ok (f, h')) :
    ∃ live' own, Acts T A ⟨h, live⟩ ∅ ⟨h', live'⟩ own := by
  cases data with
  | buffer bytes =>
      have ⟨hlt, hfit⟩ : bytes.length < 2 ^ 32 ∧ hdrBytes T + bytes.length ≤ 2 ^ T.wordBits := htyped
      have hhdr : 20 ≤ hdrBytes T := by cases T <;> decide
      have hsize : (FileData.buffer bytes).size = bytes.length := rfl
      obtain ⟨live', p, hacts, -⟩ := newFile_spec hinv hsafe (hsize.trans_lt hlt) (by omega) hrun
      exact ⟨live', _, hacts⟩
  | null size =>
      obtain ⟨⟨f, h₁⟩, hmalloc₁, hrest⟩ := bind_eq_ok.mp hrun
      obtain ⟨⟨p, h₂⟩, hmalloc₂, hres⟩ := bind_eq_ok.mp hrest
      obtain ⟨rfl, rfl⟩ := Prod.mk.inj (Except.ok.inj hres)
      obtain ⟨hrec, hacts₁⟩ := hinv.handed hsafe (Finset.empty_subset _) (by cases T <;> decide)
        (records_lt T).2.1 hmalloc₁
      obtain ⟨bs₁, hinv₁⟩ := hacts₁.inv
      have hacts₂ := Acts.kmalloc hinv₁ hsafe hacts₁.owned hmalloc₂
      obtain ⟨bs₂, hinv₂, -, -, hold⟩ := hinv₁.kmalloc hsafe hmalloc₂
      obtain ⟨-, hkeep⟩ := hold f (Finset.mem_insert_self _ _)
      have hroom := hrec.room.trans_eq hkeep.size.symm
      have hf : f ∈ gain (insert f ∅) p := mem_gain.mpr (Or.inr (Finset.mem_insert_self _ _))
      have hframe : ∀ x, x < f ∨ f + payload T h₂.mem f ≤ x →
          (tmpfsFile T).set ((tmpfsFile T).set h₂.mem f .data p) f .size size x = h₂.mem x :=
        fun x hx => setFile_apply_of_outside _ _ _ (by omega)
      exact ⟨_, _, (hacts₁.trans hacts₂).trans (Acts.write hinv₂ hacts₂.owned hf hframe)⟩

/-- `tmpfs_mkfile` makes a node, before it enters it into the directory. -/
theorem newNode_of_mkfile {data : FileData} {f i : Nat} {fields : List (NodeField × Nat)}
    (hinv : HeapInv T A ⟨h, live⟩ bs) (hsafe : A.SplitSafe)
    (htyped : (TmpfsOp.mkfile i name data).Typed T) (hfile : newFile T h data = .ok (f, h₁))
    (hnd : (fields.map Prod.fst).Nodup) (hname : .name ∉ fields.map Prod.fst)
    (hrun : newNode T h₁ name fields = .ok (n, h')) :
    ∃ live' own, NewNode T A h live .file n h' live' own := by
  obtain ⟨live₁, own₁, hacts₁⟩ := newFile_acts hinv hsafe htyped hfile
  obtain ⟨bs₁, hinv₁⟩ := hacts₁.inv
  obtain ⟨hacts₂, -, hroom, -⟩ := newNode_spec hinv₁ hsafe hacts₁.owned hnd hrun
  exact ⟨_, _, hacts₁.trans hacts₂, Finset.mem_insert_self _ _, newNode_named hname hrun hroom,
    fun hkind => nomatch hkind⟩

/-! ## Steps -/

/-- `d->cap` of the directory. -/
def dirCap (T : Target) (m : Mem) (node : Nat) : Nat := dirGet T m (nodeGet T m node .fsData) .cap

/-- From `m` to `m'` the node `n` was entered into a directory: behind the entries it had, with all names
as they were, and touching nothing but the directory. Its table may be new, but was nobody else's. -/
structure Entered (T : Target) (m : Mem) (live : Finset Nat) (nodes : List Nat) (node n : Nat)
    (es : List Nat) (m' : Mem) (live' : Finset Nat) : Prop where
  listed : ListedDir T m' live' nodes node (es ++ [n])
  names : ∀ x ∈ nodes, nodeName T m' x = nodeName T m x
  keeps : ∀ p ∈ live, p ∉ (dirOf T m node).ptrs → p ∈ live' ∧ KeepsPayload T m m' p
  fresh : ∀ p ∈ (dirOf T m' node).ptrs, p ∈ (dirOf T m node).ptrs ∨ p ∉ live
  cap : dirCap T m' node = grownCap (dirCap T m node) es.length

namespace TreeInv

/-- Allocations of a directory are live, and its own. -/
theorem ptrs_subset (hinv : TreeInv T A s live) (ha : (NodeKind.dir, node) ∈ s.nodes) :
    (dirOf T s.heap.mem node).ptrs ⊆ live := by
  obtain ⟨es, hd⟩ := hinv.dirs node ha
  exact hd.owned.ptrs_subset

/-- Directories stay apart when one of them at most changes, and what it gets is new. -/
theorem apart_of_changed (hinv : TreeInv T A s live) (node : Nat) {nodes' : List (NodeKind × Nat)}
    (hold : ∀ a, (NodeKind.dir, a) ∈ nodes' → a ≠ node →
      (NodeKind.dir, a) ∈ s.nodes ∧ dirOf T m' a = dirOf T s.heap.mem a)
    (hfresh : (NodeKind.dir, node) ∈ nodes' → ∀ p ∈ (dirOf T m' node).ptrs,
      ((NodeKind.dir, node) ∈ s.nodes ∧ p ∈ (dirOf T s.heap.mem node).ptrs) ∨ p ∉ live) {a b : Nat}
    (ha : (NodeKind.dir, a) ∈ nodes') (hb : (NodeKind.dir, b) ∈ nodes') (hab : a ≠ b) :
    ∀ p ∈ (dirOf T m' a).ptrs, p ∉ (dirOf T m' b).ptrs := by
  -- a directory that is as it was and the one that may have changed
  have hother : ∀ c, (NodeKind.dir, c) ∈ nodes' → c ≠ node → (NodeKind.dir, node) ∈ nodes' →
      ∀ p ∈ (dirOf T m' c).ptrs, p ∉ (dirOf T m' node).ptrs := by
    intro c hc hne hn p hpc hpn
    obtain ⟨hc', hsame⟩ := hold c hc hne
    rw [hsame] at hpc
    rcases hfresh hn p hpn with ⟨hn', hmem⟩ | hnew
    · exact hinv.apart c node hc' hn' hne p hpc hmem
    · exact hnew (hinv.ptrs_subset hc' hpc)
  intro p hpa
  by_cases hna : a = node
  · subst hna
    exact fun hpb => hother b hb (Ne.symm hab) ha p hpb hpa
  by_cases hnb : b = node
  · subst hnb
    exact hother a ha hna hb p hpa
  obtain ⟨ha', hsameA⟩ := hold a ha hna
  obtain ⟨hb', hsameB⟩ := hold b hb hnb
  rw [hsameA] at hpa
  rw [hsameB]
  exact hinv.apart a b ha' hb' hab p hpa

/-- A new node: the other allocations are as they were. -/
theorem add (hinv : TreeInv T A s live) {kind : NodeKind}
    (hmade : NewNode T A s.heap live kind n h' live' own) :
    TreeInv T A ⟨h', s.nodes ++ [(kind, n)]⟩ live' ∧
      (∀ x ∈ s.nodes, nodeName T h'.mem x.2 = nodeName T s.heap.mem x.2) ∧
      ∀ node es, ListedDir T s.heap.mem live (s.nodes.map Prod.snd) node es →
        ListedDir T h'.mem live' (s.nodes.map Prod.snd ++ [n]) node es := by
  obtain ⟨hacts, hn, hnamed, hdir⟩ := hmade
  obtain ⟨bs', hheap'⟩ := hacts.inv
  have hnew : ∀ q ∈ own, q ∉ live := fun q hq =>
    (hacts.fresh q hq).resolve_left (Finset.notMem_empty q)
  have hkeep : ∀ q ∈ live, q ∈ live' ∧ KeepsPayload T s.heap.mem h'.mem q := fun q hq =>
    hacts.keeps q hq (Finset.notMem_empty q)
  have hlive0 : ∀ x ∈ live, x ≠ 0 := fun x hx h0 => hheap'.zero_notMem (h0 ▸ (hkeep x hx).1)
  have hn0 : n ≠ 0 := fun h0 => hheap'.zero_notMem (h0 ▸ hacts.owned hn)
  -- what the directories were, they still are
  have hold : ∀ node es, ListedDir T s.heap.mem live (s.nodes.map Prod.snd) node es →
      dirOf T h'.mem node = dirOf T s.heap.mem node ∧
        ListedDir T h'.mem live' (s.nodes.map Prod.snd ++ [n]) node es := by
    intro node es hd
    obtain ⟨hsame, hd'⟩ := hd.keep fun p hp => hkeep p (hd.owned.ptrs_subset hp)
    refine ⟨hsame, hd'.owned, hd'.listing, hd'.nodup,
      fun e he => List.mem_append_left _ (hd'.sub e he), fun x hx => ?_⟩
    rcases List.mem_append.mp hx with hx | hx
    · exact hd'.tables x hx
    · obtain rfl := List.mem_singleton.mp hx
      rw [hsame]
      refine ⟨fun heq => hnew x hn (heq ▸ hd.owned.record_mem), fun heq => ?_⟩
      rcases hd.owned.buf_mem with h0 | hbuf
      · exact hn0 (heq.trans h0)
      · exact hnew x hn (heq ▸ hbuf)
  have hnotNode : (NodeKind.dir, n) ∉ s.nodes := fun hmem => hnew n hn (hinv.named _ hmem).1
  refine ⟨⟨⟨bs', hheap'⟩, fun x hx => ?_, fun node hnode => ?_, fun a b ha hb hab => ?_⟩,
    fun x hx => ((hinv.named x hx).2.keep (hkeep _ (hinv.named x hx).1).2).2,
    fun node es hd => (hold node es hd).2⟩
  · rcases List.mem_append.mp hx with hx | hx
    · have hlive := (hinv.named x hx).1
      exact ⟨(hkeep _ hlive).1, ((hinv.named x hx).2.keep (hkeep _ hlive).2).1⟩
    · obtain rfl := List.mem_singleton.mp hx
      exact ⟨hacts.owned hn, hnamed⟩
  · rw [List.map_append, List.map_singleton]
    rcases List.mem_append.mp hnode with hnode | hnode
    · obtain ⟨es, hd⟩ := hinv.dirs node hnode
      exact ⟨es, (hold node es hd).2⟩
    · obtain ⟨rfl, rfl⟩ := Prod.mk.inj (List.mem_singleton.mp hnode)
      obtain ⟨hsub, -, howned, hlist⟩ := hdir rfl
      refine ⟨[], howned, hlist, List.nodup_nil, fun e he => absurd he List.not_mem_nil, fun x hx => ?_⟩
      rcases List.mem_append.mp hx with hx | hx
      · have hlive := (hinv.named_of_mem hx).1
        refine ⟨fun heq => hnew _ (hsub (TmpObj.record_mem_ptrs _)) (heq ▸ hlive), fun heq => ?_⟩
        have h0 := hlive0 _ hlive
        exact hnew _ (hsub (TmpObj.buf_mem_ptrs (heq ▸ h0))) (heq ▸ hlive)
      · obtain rfl := List.mem_singleton.mp hx
        exact ⟨howned.node_ne, howned.buf_ne_node.symm⟩
  · refine hinv.apart_of_changed n (fun c hc hne => ?_) (fun hmem p hp => .inr ?_) ha hb hab
    · have hc' : (NodeKind.dir, c) ∈ s.nodes := (List.mem_append.mp hc).resolve_right fun hc =>
        hne (Prod.mk.inj (List.mem_singleton.mp hc)).2
      obtain ⟨es, hd⟩ := hinv.dirs c hc'
      exact ⟨hc', (hold c es hd).1⟩
    · have hkind := (List.mem_append.mp hmem).resolve_left hnotNode
      exact hnew p ((hdir (Prod.mk.inj (List.mem_singleton.mp hkind)).1.symm).1 hp)

/-- `dir_add` of a node to a directory that does not list it. -/
theorem link (hinv : TreeInv T A s live) (hsafe : A.SplitSafe) (hnode : (NodeKind.dir, node) ∈ s.nodes)
    (hd : ListedDir T s.heap.mem live (s.nodes.map Prod.snd) node es)
    (hn : n ∈ s.nodes.map Prod.snd) (hnot : n ∉ es)
    (hrun : dirAdd T s.heap (nodeGet T s.heap.mem node .fsData) n = .ok h') :
    ∃ live', TreeInv T A ⟨h', s.nodes⟩ live' ∧
      Entered T s.heap.mem live (s.nodes.map Prod.snd) node n es h'.mem live' := by
  obtain ⟨bs, hheap⟩ := hinv.heap
  obtain ⟨live', q, hacts, ho', hkept, hlist', hcap⟩ :=
    dirAdd_listing hheap hsafe hd.owned hd.listing (hinv.length_lt hd) hrun
  obtain ⟨bs', hheap'⟩ := hacts.inv
  have hnodes : ∀ x ∈ s.nodes.map Prod.snd, x ∈ live ∧ NamedNode T s.heap.mem x := fun x hx =>
    hinv.named_of_mem hx
  have hnlt : n + payload T s.heap.mem n < 2 ^ T.wordBits := hheap.payload_stop_lt (hnodes n hn).1
  rw [mod_ptr (show n < 2 ^ T.wordBits by omega)] at hlist'
  have hnodes0 : ∀ x ∈ s.nodes.map Prod.snd, x ∈ live ∧ x ≠ 0 := fun x hx =>
    ⟨(hnodes x hx).1, fun h0 => hheap.zero_notMem (h0 ▸ (hnodes x hx).1)⟩
  obtain ⟨hsame, hlisted⟩ := hd.enter hnodes0 hn hnot ho' hlist' fun hq0 => hacts.fresh q (TmpObj.buf_mem_ptrs hq0)
  -- the table may be new, but it is nobody else's
  have hfresh : ∀ p ∈ (dirOf T h'.mem node).ptrs, p ∈ (dirOf T s.heap.mem node).ptrs ∨ p ∉ live := by
    rw [hsame]
    exact hacts.fresh
  have hkeep : ∀ x ∈ s.nodes.map Prod.snd, x ∈ live' ∧ KeepsPayload T s.heap.mem h'.mem x := by
    intro x hx
    by_cases heq : x = node
    · subst heq
      exact ⟨ho'.node_mem, hkept⟩
    · exact hacts.keeps x (hnodes x hx).1 (hd.notMem_ptrs hx heq)
  have hother : ∀ a, (NodeKind.dir, a) ∈ s.nodes → a ≠ node →
      dirOf T h'.mem a = dirOf T s.heap.mem a ∧
        ∃ es, ListedDir T h'.mem live' (s.nodes.map Prod.snd) a es := by
    intro a ha hne
    obtain ⟨es', hda⟩ := hinv.dirs a ha
    obtain ⟨hsame', hda'⟩ := hda.keep fun p hp =>
      hacts.keeps p (hda.owned.ptrs_subset hp) (hinv.apart a node ha hnode hne p hp)
    exact ⟨hsame', es', hda'⟩
  refine ⟨live', ⟨⟨bs', hheap'⟩, fun x hx => ?_, fun a ha => ?_, fun a b ha hb hab => ?_⟩,
    hlisted, fun x hx => ((hnodes x hx).2.keep (hkeep x hx).2).2, hacts.keeps, hfresh, ?_⟩
  · have hmem := List.mem_map_of_mem hx (f := Prod.snd)
    exact ⟨(hkeep _ hmem).1, ((hnodes _ hmem).2.keep (hkeep _ hmem).2).1⟩
  · by_cases hne : a = node
    · subst hne
      exact ⟨_, hlisted⟩
    · exact (hother a ha hne).2
  · refine hinv.apart_of_changed node (fun c hc hne => ⟨hc, (hother c hc hne).1⟩) (fun _ p hp => ?_) ha hb hab
    exact (hfresh p hp).imp_left fun hmem => ⟨hnode, hmem⟩
  · have hrecord : nodeGet T h'.mem node .fsData = (dirOf T s.heap.mem node).record := hlist'.node.fsData
    rw [dirCap, hrecord]
    exact hcap

/-- A new node that is entered into a directory. -/
theorem enter (hinv : TreeInv T A s live) (hsafe : A.SplitSafe) {kind : NodeKind}
    (hmade : NewNode T A s.heap live kind n h₁ live' own) (hnode : (NodeKind.dir, node) ∈ s.nodes)
    (hd : ListedDir T s.heap.mem live (s.nodes.map Prod.snd) node es)
    (hrun : dirAdd T h₁ (nodeGet T h₁.mem node .fsData) n = .ok h') :
    ∃ live'', TreeInv T A ⟨h', s.nodes ++ [(kind, n)]⟩ live'' ∧
      Entered T h₁.mem live' (s.nodes.map Prod.snd ++ [n]) node n es h'.mem live'' := by
  obtain ⟨hinv₁, -, hdirs₁⟩ := hinv.add hmade
  have hmap : (s.nodes ++ [(kind, n)]).map Prod.snd = s.nodes.map Prod.snd ++ [n] := List.map_append
  have hd₁ := hdirs₁ node es hd
  have hnot : n ∉ es := fun hmem =>
    (hmade.acts.fresh n hmade.mem).elim (Finset.notMem_empty n) fun hnew =>
      hnew (hinv.named_of_mem (hd.sub n hmem)).1
  rw [← hmap] at hd₁ ⊢
  exact hinv₁.link hsafe (List.mem_append_left _ hnode) hd₁
    (by rw [hmap]; exact List.mem_append_right _ (List.mem_singleton_self n)) hnot hrun

end TreeInv

/-- The calls that make nodes. -/
def TmpfsOp.Creates : TmpfsOp → Prop
  | .create _ | .mkdir _ _ | .mkfile _ _ _ => True
  | .write _ _ _ | .read _ _ _ => False

namespace TreeInv

/-- A call that makes a node keeps the invariant. -/
theorem step (hinv : TreeInv T A s live) (hsafe : A.SplitSafe) {op : TmpfsOp} {out : TmpfsOut}
    (hop : op.Creates) (hstep : TmpfsStep T C s (op, out) s') : ∃ live', TreeInv T A s' live' := by
  obtain ⟨bs, hheap⟩ := hinv.heap
  cases hstep with
  | create hrun =>
      obtain ⟨live', own, hmade⟩ := newNode_of_tmpfsCreate hheap hsafe hrun
      exact ⟨live', (hinv.add hmade).1⟩
  | mkdir hi hrun =>
      obtain ⟨⟨n, h₁⟩, hcreate, hrest⟩ := bind_eq_ok.mp hrun
      obtain ⟨h₂, hadd, hres⟩ := bind_eq_ok.mp hrest
      obtain ⟨rfl, rfl⟩ := Prod.mk.inj (Except.ok.inj hres)
      obtain ⟨live₁, own, hmade⟩ := newNode_of_tmpfsCreate hheap hsafe hcreate
      obtain ⟨es, hd⟩ := hinv.dirs _ (List.mem_of_getElem? hi)
      obtain ⟨live', hinv', -⟩ := hinv.enter hsafe hmade (List.mem_of_getElem? hi) hd hadd
      exact ⟨live', hinv'⟩
  | mkfile hi htyped hrun =>
      obtain ⟨⟨f, h₁⟩, hfile, hrest⟩ := bind_eq_ok.mp hrun
      obtain ⟨⟨n, h₂⟩, hnode, hrest⟩ := bind_eq_ok.mp hrest
      obtain ⟨h₃, hadd, hres⟩ := bind_eq_ok.mp hrest
      obtain ⟨rfl, rfl⟩ := Prod.mk.inj (Except.ok.inj hres)
      obtain ⟨live₂, own, hmade⟩ := newNode_of_mkfile hheap hsafe htyped hfile
        (by change List.Nodup [NodeField.flags, .size, .fsData, .read, .write]; decide)
        (by change NodeField.name ∉ [NodeField.flags, .size, .fsData, .read, .write]; decide) hnode
      obtain ⟨es, hd⟩ := hinv.dirs _ (List.mem_of_getElem? hi)
      obtain ⟨live', hinv', -⟩ := hinv.enter hsafe hmade (List.mem_of_getElem? hi) hd hadd
      exact ⟨live', hinv'⟩
  | write => exact absurd hop not_false
  | read => exact absurd hop not_false

/-- So does a sequence of such calls. -/
theorem run (hsafe : A.SplitSafe) {es : List (TmpfsOp × TmpfsOut)} (hinv : TreeInv T A s live)
    (hrun : Run (TmpfsStep T C) s es s') (hops : ∀ e ∈ es, e.1.Creates) :
    ∃ live', TreeInv T A s' live' := by
  have hstart : ∃ live, TreeInv T A s live := ⟨live, hinv⟩
  refine hrun.invariant_of_forall (I := fun s => ∃ live, TreeInv T A s live) ?_ hops hstart
  rintro s a t ⟨live, hinv⟩ hop hstep
  exact hinv.step hsafe hop hstep

/-- Every directory lists and finds its nodes. -/
theorem looksUp (hinv : TreeInv T A s live) (hnode : (NodeKind.dir, node) ∈ s.nodes)
    (hfuel : 255 < fuel) :
    LooksUp (fun i => .ok (ofPtr (tmpfsReaddir T s.heap.mem node i))) (nodeName T s.heap.mem) fun n =>
      (tmpfsFinddir T s.heap.mem node (n + (vfsNode T).off .name) fuel).map ofPtr := by
  obtain ⟨bs, hheap⟩ := hinv.heap
  obtain ⟨es, hd⟩ := hinv.dirs node hnode
  exact hd.listing.looksUp hheap hd.owned hd.nodup (fun e he => (hinv.named_of_mem (hd.sub e he)).1)
    (fun e he => (hinv.named_of_mem (hd.sub e he)).2) hfuel

end TreeInv

/-! ## Names from the heap -/

variable {q N : Nat} {str : List UInt8} {v : UInt8}

/-- A string in an allocation that is kept stays there. -/
theorem CStr.keep (hs : CStr m q str) (hlen : str.length < payload T m q)
    (hkeep : KeepsPayload T m m' q) : CStr m' q str ∧ str.length < payload T m' q :=
  ⟨hs.congr fun x h₁ h₂ => hkeep.bytes x h₁ (by omega), hlen.trans_eq hkeep.size.symm⟩

/-- A node whose name is given by a string in another allocation has its first 255 characters. -/
theorem nodeName_newNode {fields : List (NodeField × Nat)} (hinv : HeapInv T A ⟨h, live⟩ bs)
    (hsafe : A.SplitSafe) (hq : q ∈ live) (hs : CStr h.mem q str) (hlen : str.length < payload T h.mem q)
    (hname : .name ∉ fields.map Prod.fst) (hrun : newNode T h q fields = .ok (n, h')) :
    nodeName T h'.mem n = str.take 255 := by
  obtain ⟨hoff, hwidth, hsize⟩ := vfsNode_name T
  obtain ⟨⟨n, h₁⟩, hmalloc, hres⟩ := bind_eq_ok.mp hrun
  obtain ⟨rfl, rfl⟩ := Prod.mk.inj (Except.ok.inj hres)
  obtain ⟨hnode, hacts⟩ := hinv.handed hsafe (Finset.empty_subset _) (by cases T <;> decide)
    (records_lt T).1 hmalloc
  obtain ⟨bs₁, hinv₁⟩ := hacts.inv
  have hroom := hnode.room
  have hqn : q ≠ n := by
    rintro rfl
    exact hnode.new hq
  have hapart : q + payload T h₁.mem q ≤ n ∨ n + payload T h₁.mem n ≤ q :=
    hinv₁.disjoint (Finset.mem_insert_of_mem hq) (Finset.mem_insert_self _ _) hqn
  obtain ⟨hs₁, hlen₁⟩ := hs.keep hlen (hnode.keeps q hq)
  -- the string is where it was when the new node is cleared
  have hs₂ : CStr (memset h₁.mem n 0 (vfsNode T).size) q str := hs₁.congr fun x h₁ h₂ => by
    rw [memset_apply, if_neg (by omega)]
  have hend : memset h₁.mem n 0 (vfsNode T).size (n + (vfsNode T).off .name + 255) = 0 := by
    rw [memset_apply, if_pos (by omega)]
    rfl
  have hcopy := hs₂.strncpy_take (show q + str.length < n + (vfsNode T).off .name ∨
    n + (vfsNode T).off .name + 255 ≤ q by omega) hend
  have htake : (str.take 255).length ≤ 255 := List.length_take_le _ _
  refine CStr.strAt_eq (hcopy.congr fun x h₁ h₂ => ?_) htake
  exact (vfsNode T).setAll_apply_of_notMem _ hname (by omega) (by omega)

/-- So has a directory. -/
theorem nodeName_tmpfsCreate (hinv : HeapInv T A ⟨h, live⟩ bs) (hsafe : A.SplitSafe) (hq : q ∈ live)
    (hs : CStr h.mem q str) (hlen : str.length < payload T h.mem q)
    (hrun : tmpfsCreate T C h q = .ok (n, h')) : nodeName T h'.mem n = str.take 255 := by
  obtain ⟨⟨d, h₁⟩, hmalloc, hnode⟩ := bind_eq_ok.mp hrun
  obtain ⟨hrec, hacts₁⟩ := hinv.handed hsafe (Finset.empty_subset _) (by cases T <;> decide)
    (records_lt T).2.2 hmalloc
  obtain ⟨bs₁, hinv₁⟩ := hacts₁.inv
  have hroom := hrec.room
  have hframe : ∀ x, x < d ∨ d + payload T h₁.mem d ≤ x →
      memset h₁.mem d 0 (tmpfsDir T).size x = h₁.mem x := by
    intro x hx
    rw [memset_apply, if_neg (by omega)]
  have hd : d ∈ insert d live := Finset.mem_insert_self _ _
  have hqd : q ≠ d := by
    rintro rfl
    exact hrec.new hq
  have hkeep := (hrec.keeps q hq).trans
    (hinv₁.keeps_of_payload_write hd (Finset.mem_insert_of_mem hq) hqd hframe)
  obtain ⟨hs₁, hlen₁⟩ := hs.keep hlen hkeep
  refine nodeName_newNode (hinv₁.of_payload_write hd hframe) hsafe (Finset.mem_insert_of_mem hq) hs₁
    hlen₁ ?_ hnode
  change NodeField.name ∉ [NodeField.flags, .fsData, .readdir, .finddir]
  decide

/-! ## Directories on a heap with room -/

/-- A directory can be extended by a few entries, all with the name that an allocation of the caller
holds. -/
structure Extends (T : Target) (A : Arena T) (s : TmpfsRun) (live : Finset Nat) (N : Nat) (v : UInt8)
    (node q : Nat) (str : List UInt8) (es : List Nat) : Prop where
  inv : TreeInv T A s live
  blank : Blank T A s.heap live N v
  dir : (NodeKind.dir, node) ∈ s.nodes
  listed : ListedDir T s.heap.mem live (s.nodes.map Prod.snd) node es
  cap : (dirOf T s.heap.mem node).buf = 0 ∨ dirCap T s.heap.mem node = 4
  mem : q ∈ live
  other : q ∉ (dirOf T s.heap.mem node).ptrs
  cstr : CStr s.heap.mem q str
  short : str.length < payload T s.heap.mem q
  names : ∀ e ∈ es, nodeName T s.heap.mem e = str.take 255

/-- An empty directory, right after it was made. -/
theorem Blank.extends (hb : Blank T A h live N v) (hsafe : A.SplitSafe) (hN : 1024 ≤ N) (C : TmpfsCode)
    (hq : q ∈ live) (hs : CStr h.mem q str) (hlen : str.length < payload T h.mem q) :
    ∃ n h' live', tmpfsCreate T C h q = .ok (n, h') ∧
      Extends T A ⟨h', [(.dir, n)]⟩ live' (N - 1024) v n q str [] := by
  obtain ⟨bs, hinv⟩ := hb.heapInv
  obtain ⟨n, h', live', hrun, hb'⟩ := hb.create (C := C) hsafe hN q
  obtain ⟨bs', hinv'⟩ := hb'.heapInv
  obtain ⟨live₁, own, hmade⟩ := newNode_of_tmpfsCreate hinv hsafe hrun
  obtain ⟨bs₁, hinv₁⟩ := hmade.acts.inv
  obtain rfl := hinv'.live_eq hinv₁
  obtain ⟨hsub, hbuf, howned, hlist⟩ := hmade.dir rfl
  have hstart : TreeInv T A ⟨h, []⟩ live := .start hinv
  obtain ⟨hqlive, hqkeep⟩ := hmade.acts.keeps q hq (Finset.notMem_empty q)
  obtain ⟨hs', hlen'⟩ := hs.keep hlen hqkeep
  refine ⟨n, h', live', hrun, (hstart.add hmade).1, hb', List.mem_singleton_self _,
    ⟨howned, hlist, List.nodup_nil, fun e he => absurd he List.not_mem_nil, fun x hx => ?_⟩,
    Or.inl hbuf, hqlive, fun hptr => ?_, hs', hlen', fun e he => absurd he List.not_mem_nil⟩
  · obtain rfl := List.mem_singleton.mp hx
    exact ⟨howned.node_ne, howned.buf_ne_node.symm⟩
  · exact (hmade.acts.fresh q (hsub hptr)).elim (Finset.notMem_empty q) fun hnew => hnew hq

/-- `tmpfs_mkdir` with the name succeeds. -/
theorem Extends.mkdir (he : Extends T A s live N v node q str es) (hsafe : A.SplitSafe)
    (hN : 1536 ≤ N) (hes : es.length < 4) (C : TmpfsCode) :
    ∃ n h' live', tmpfsMkdir T C s.heap node q = .ok (n, h') ∧
      Extends T A ⟨h', s.nodes ++ [(.dir, n)]⟩ live' (N - 1536) v node q str (es ++ [n]) := by
  obtain ⟨bs, hinv⟩ := he.blank.heapInv
  obtain ⟨n, h₁, live₁, hcreate, hb₁⟩ := he.blank.create (C := C) hsafe (by omega) q
  obtain ⟨bs₁, hinv₁⟩ := hb₁.heapInv
  obtain ⟨live', own, hmade⟩ := newNode_of_tmpfsCreate hinv hsafe hcreate
  obtain ⟨bs', hinv'⟩ := hmade.acts.inv
  obtain rfl := hinv₁.live_eq hinv'
  have hkeep : ∀ p ∈ live, p ∈ live₁ ∧ KeepsPayload T s.heap.mem h₁.mem p := fun p hp =>
    hmade.acts.keeps p hp (Finset.notMem_empty p)
  obtain ⟨hqlive, hqkeep⟩ := hkeep q he.mem
  obtain ⟨hs₁, hlen₁⟩ := he.cstr.keep he.short hqkeep
  -- the directory is as it was, so that the entry can be made
  obtain ⟨hsame, hd₁⟩ := he.listed.keep fun p hp => hkeep p (he.listed.owned.ptrs_subset hp)
  obtain ⟨cap, hdir, -, -, hnull⟩ := hd₁.listing.dir
  have hcap : dirCap T h₁.mem node = cap := hdir.cap_eq
  have hcap₁ : (dirOf T h₁.mem node).buf = 0 ∨ dirCap T h₁.mem node = 4 := by
    refine he.cap.imp (fun hbuf => (congrArg TmpObj.buf hsame).trans hbuf) fun h4 => ?_
    obtain ⟨cap₀, hdir₀, -⟩ := he.listed.listing.dir
    have hrec := (hkeep _ he.listed.owned.record_mem).2.get_eq hdir₀.room DirField.cap
    rw [dirCap, show nodeGet T h₁.mem node .fsData = (dirOf T s.heap.mem node).record from
      congrArg TmpObj.record hsame]
    exact hrec.trans h4
  have hfour : grownCap (dirCap T h₁.mem node) es.length = 4 := by
    rcases hcap₁ with hbuf | h4
    · rw [hcap, hnull hbuf, grownCap, if_pos (Nat.zero_le _), if_neg (not_not.mpr rfl)]
    · rw [h4, grownCap, if_neg (by omega)]
  obtain ⟨h₂, live₂, hadd, hb₂⟩ := hb₁.dirAdd hsafe (by omega) hd₁.owned hd₁.listing (by omega)
    (hcap₁.imp_right fun h4 => by
      have hroom : es.length < dirCap T h₁.mem node := by omega
      exact hroom) n
  obtain ⟨live', hinv₂, hent⟩ := he.inv.enter hsafe hmade he.dir he.listed hadd
  obtain ⟨bs₂, hheap₂⟩ := hb₂.heapInv
  obtain ⟨bs₂', hheap₂'⟩ := hinv₂.heap
  obtain rfl := hheap₂.live_eq hheap₂'
  have hother : q ∉ (dirOf T h₁.mem node).ptrs := hsame ▸ he.other
  obtain ⟨hqlive₂, hqkeep₂⟩ := hent.keeps q hqlive hother
  obtain ⟨hs₂, hlen₂⟩ := hs₁.keep hlen₁ hqkeep₂
  have hmap : (s.nodes ++ [(NodeKind.dir, n)]).map Prod.snd = s.nodes.map Prod.snd ++ [n] :=
    List.map_append
  refine ⟨n, h₂, live₂, bind_eq_ok.mpr ⟨_, hcreate, bind_eq_ok.mpr ⟨h₂, hadd, rfl⟩⟩, hinv₂,
    hb₂.mono (by omega), List.mem_append_left _ he.dir, hmap ▸ hent.listed, Or.inr (hent.cap.trans hfour),
    hqlive₂, fun hptr => ?_, hs₂, hlen₂, fun e hmem => ?_⟩
  · rcases hent.fresh q hptr with hold | hnew
    · exact hother hold
    · exact hnew hqlive
  · rcases List.mem_append.mp hmem with hmem | hmem
    · have hnode := he.listed.sub e hmem
      obtain ⟨x, hx, rfl⟩ := List.mem_map.mp hnode
      rw [hent.names _ (List.mem_append_left _ hnode), (he.inv.add hmade).2.1 x hx, he.names _ hmem]
    · obtain rfl := List.mem_singleton.mp hmem
      rw [hent.names _ (List.mem_append_right _ (List.mem_singleton_self _))]
      exact nodeName_tmpfsCreate hinv hsafe he.mem he.cstr he.short hcreate

end Aerogel
