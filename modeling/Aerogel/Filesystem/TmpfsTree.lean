import Aerogel.Filesystem.TmpfsListings
import Aerogel.Foundations.NameTree

/-! # tmpfs as a tree of names

A node of tmpfs has a name, and behind it a file or a table of nodes. Here a run of calls is followed by a
`FileTree`, in which files are `ByteFile`s and directories list the numbers of nodes, and the memory of the
kernel is shown to hold that tree after every call: names, kinds, function pointers, entries in their order
and contents. The names come from strings outside the heap, as all names in the source do. -/

namespace Aerogel

variable {T : Target} {A : Arena T} {C : TmpfsCode} {h h' h₁ : Heap} {live live' own : Finset Nat}
  {bs : List Block} {m m' : Mem} {o : TmpObj} {n node name : Nat} {str : List UInt8}
  {fields : List (NodeField × Nat)}

/-! ## Outside the heap -/

/-- The address is none of the arena's. -/
def Arena.Outside (A : Arena T) (x : Nat) : Prop := x < A.start ∨ A.start + A.size ≤ x

/-- A string outside the heap. -/
structure StaticStr (A : Arena T) (m : Mem) (a : Nat) (str : List UInt8) : Prop where
  cstr : CStr m a str
  outside : ∀ x, a ≤ x → x ≤ a + str.length → A.Outside x

theorem StaticStr.congr (hs : StaticStr A m name str) (heq : ∀ x, A.Outside x → m' x = m x) :
    StaticStr A m' name str :=
  ⟨hs.cstr.congr fun x h₁ h₂ => heq x (hs.outside x h₁ h₂), hs.outside⟩

/-- Payloads lie in the arena. -/
theorem HeapInv.payload_inside {s : HeapRun} {p x : Nat} (hinv : HeapInv T A s bs) (hp : p ∈ s.live)
    (h₁ : p ≤ x) (h₂ : x < p + payload T s.heap.mem p) : ¬ A.Outside x := by
  obtain ⟨b, hb, -, rfl⟩ := (hinv.live_iff p).mp hp
  have hbounds := hinv.laid.bounds hb
  rw [hinv.payload_eq hb] at h₂
  rw [Arena.Outside]
  omega

/-- Headers do, too. -/
theorem Laid.header_inside {head x : Nat} (hlaid : Laid T A m head bs) (hx : InHeaders T bs x) :
    ¬ A.Outside x := by
  obtain ⟨b, hb, h₁, h₂⟩ := hx
  have hbounds := hlaid.bounds hb
  rw [Arena.Outside]
  omega

/-- `kmalloc` writes to nothing outside the arena. -/
theorem HeapInv.kmalloc_outside (hinv : HeapInv T A ⟨h, live⟩ bs) (hsafe : A.SplitSafe)
    (hrun : Aerogel.kmalloc T h n = .ok (node, h')) (x : Nat) (hx : A.Outside x) : h'.mem x = h.mem x := by
  by_cases hn0 : n = 0
  · subst hn0
    cases hrun
    rfl
  · obtain ⟨l, b, r, rfl, -, -, -, hinv', -, hframe⟩ := hinv.kmalloc_carves hsafe hn0 hrun
    exact hframe x (fun hin => hinv.laid.header_inside hin hx) fun hin => hinv'.laid.header_inside hin hx

/-! ## New nodes -/

/-- The name of a node that was named after a string outside the heap. -/
theorem nodeName_of_static (hinv : HeapInv T A ⟨h, live⟩ bs) (hsafe : A.SplitSafe)
    (hs : StaticStr A h.mem name str) (hname : .name ∉ fields.map Prod.fst)
    (hrun : newNode T h name fields = .ok (n, h')) : nodeName T h'.mem n = str.take 255 := by
  obtain ⟨hoff, hwidth, hsize⟩ := vfsNode_name T
  obtain ⟨⟨n, h₁⟩, hmalloc, hres⟩ := bind_eq_ok.mp hrun
  obtain ⟨rfl, rfl⟩ := Prod.mk.inj (Except.ok.inj hres)
  obtain ⟨hnode, hacts⟩ := hinv.handed hsafe (Finset.empty_subset _) (by cases T <;> decide)
    (records_lt T).1 hmalloc
  obtain ⟨bs₁, hinv₁⟩ := hacts.inv
  have hroom := hnode.room
  have hs₁ := hs.congr (hinv.kmalloc_outside hsafe hmalloc)
  -- no byte of the string is one of the new node's
  have hapart : name + str.length < n ∨ n + (vfsNode T).size ≤ name := by
    by_contra hover
    rw [not_or] at hover
    refine hinv₁.payload_inside (Finset.mem_insert_self _ _) (x := max n name) (Nat.le_max_left _ _) ?_
      (hs.outside _ (Nat.le_max_right _ _) ?_)
    · have hmax : max n name < n + (vfsNode T).size := by omega
      exact hmax.trans_le (Nat.add_le_add_left hroom n)
    · omega
  have hs₂ : CStr (memset h₁.mem n 0 (vfsNode T).size) name str := hs₁.cstr.congr fun x h₁ h₂ => by
    rw [memset_apply, if_neg (by omega)]
  have hend : memset h₁.mem n 0 (vfsNode T).size (n + (vfsNode T).off .name + 255) = 0 := by
    rw [memset_apply, if_pos (by omega)]
    rfl
  have hcopy := hs₂.strncpy_take (show name + str.length < n + (vfsNode T).off .name ∨
    n + (vfsNode T).off .name + 255 ≤ name by omega) hend
  have htake : (str.take 255).length ≤ 255 := List.length_take_le _ _
  refine CStr.strAt_eq (hcopy.congr fun x h₁ h₂ => ?_) htake
  exact (vfsNode T).setAll_apply_of_notMem _ hname (by omega) (by omega)

/-- A field of a new node that is not assigned is 0. -/
theorem newNode_unset (hrun : newNode T h name fields = .ok (n, h')) {g : NodeField} (hg : g ≠ .name)
    (hnot : g ∉ fields.map Prod.fst) : nodeGet T h'.mem n g = 0 := by
  obtain ⟨hoff, hwidth, hsize⟩ := vfsNode_name T
  obtain ⟨⟨n, h₁⟩, -, hres⟩ := bind_eq_ok.mp hrun
  obtain ⟨rfl, rfl⟩ := Prod.mk.inj (Except.ok.inj hres)
  have hbehind : (vfsNode T).off .name + 256 ≤ (vfsNode T).off g := by
    cases T <;> cases g <;> first | exact absurd rfl hg | decide
  dsimp only
  rw [nodeGet, (vfsNode T).get_setAll_of_notMem _ n hnot]
  refine Mem.load_eq_zero fun x h₁ h₂ => ?_
  have hin := (vfsNode T).inside g
  rw [strncpy_apply_of_outside _ (by omega), memset_apply, if_pos (by omega)]
  rfl

/-- Writing into a payload changes nothing outside the arena. -/
theorem HeapInv.write_outside {p : Nat} (hinv : HeapInv T A ⟨h, live⟩ bs) (hp : p ∈ live)
    (hm : ∀ x, x < p ∨ p + payload T h.mem p ≤ x → m' x = h.mem x) (x : Nat) (hx : A.Outside x) :
    m' x = h.mem x := by
  apply hm
  by_contra hin
  rw [not_or] at hin
  exact hinv.payload_inside hp (show p ≤ x by omega) (show x < p + payload T h.mem p by omega) hx

/-- The first part of `tmpfs_mkfile` writes to nothing outside the arena. -/
theorem newFile_outside {data : FileData} {f : Nat} (hinv : HeapInv T A ⟨h, live⟩ bs)
    (hsafe : A.SplitSafe) (hsize : data.size + 7 < 2 ^ T.wordBits) (hrun : newFile T h data = .ok (f, h'))
    (x : Nat) (hx : A.Outside x) : h'.mem x = h.mem x := by
  obtain ⟨⟨f, h₁⟩, hmalloc₁, hrest⟩ := bind_eq_ok.mp hrun
  obtain ⟨⟨p, h₂⟩, hmalloc₂, hres⟩ := bind_eq_ok.mp hrest
  obtain ⟨hrec, hacts₁⟩ := hinv.handed hsafe (Finset.empty_subset _) (by cases T <;> decide)
    (records_lt T).2.1 hmalloc₁
  obtain ⟨bs₁, hinv₁⟩ := hacts₁.inv
  obtain ⟨bs₂, hinv₂, hp0, hproom, hold⟩ := hinv₁.kmalloc hsafe hmalloc₂
  obtain ⟨-, hkeepf⟩ := hold f (Finset.mem_insert_self _ _)
  have hf : f ∈ gain (insert f live) p := mem_gain.mpr (.inr (Finset.mem_insert_self _ _))
  have hroom := hrec.room.trans_eq hkeepf.size.symm
  have hframe : ∀ x, x < f ∨ f + payload T h₂.mem f ≤ x →
      (tmpfsFile T).set ((tmpfsFile T).set h₂.mem f .data p) f .size data.size x = h₂.mem x :=
    fun x hx => setFile_apply_of_outside _ _ _ (by omega)
  have hout : h₂.mem x = h.mem x :=
    (hinv₁.kmalloc_outside hsafe hmalloc₂ x hx).trans (hinv.kmalloc_outside hsafe hmalloc₁ x hx)
  have hout₃ := (hinv₂.write_outside hf hframe x hx).trans hout
  cases data with
  | null size =>
      obtain ⟨rfl, rfl⟩ := Prod.mk.inj (Except.ok.inj hres)
      exact hout₃
  | buffer bytes =>
      obtain ⟨rfl, rfl⟩ := Prod.mk.inj (Except.ok.inj hres)
      refine Eq.trans ?_ hout₃
      by_cases hnil : bytes = []
      · exact Mem.storeList_apply_of_outside _ (by rw [hnil, List.length_nil]; omega)
      -- the bytes lie in the payload that was allocated for them
      have hn0 : bytes.length ≠ 0 := fun h0 => hnil (List.length_eq_zero_iff.mp h0)
      have hp : p ∈ gain (insert f live) p := mem_gain.mpr (.inl ⟨rfl, hp0 hn0⟩)
      have hfit : bytes.length ≤ payload T h₂.mem p := (le_request hsize).trans (hproom (hp0 hn0))
      have hplt : p + payload T h₂.mem p < 2 ^ T.wordBits := hinv₂.payload_stop_lt hp
      have hpay : payload T _ p = payload T h₂.mem p := hinv₂.payload_of_write hf hp hframe
      dsimp only
      rw [fileGet_data_set (by omega)]
      refine (hinv₂.of_payload_write hf hframe).write_outside hp (fun y hy => ?_) x hx
      rw [hpay] at hy
      exact Mem.storeList_apply_of_outside _ (by omega)

/-! ## What a write leaves of a node -/

/-- The node is as it was, its `size` apart. -/
structure KeepsButSize (T : Target) (m m' : Mem) (node : Nat) : Prop where
  payload : payload T m' node = payload T m node
  bytes : ∀ x, node ≤ x → x < node + Aerogel.payload T m node →
    x < node + (vfsNode T).off .size ∨ node + (vfsNode T).off .size + (vfsNode T).width .size ≤ x → m' x = m x

theorem KeepsPayload.butSize (hk : KeepsPayload T m m' node) : KeepsButSize T m m' node :=
  ⟨hk.size, fun x h₁ h₂ _ => hk.bytes x h₁ h₂⟩

theorem KeepsButSize.trans {m'' : Mem} (hk : KeepsButSize T m m' node) (hk' : KeepsButSize T m' m'' node) :
    KeepsButSize T m m'' node :=
  ⟨hk'.payload.trans hk.payload, fun x h₁ h₂ hx =>
    (hk'.bytes x h₁ (by rw [hk.payload]; exact h₂) hx).trans (hk.bytes x h₁ h₂ hx)⟩

/-- The other fields read the same. -/
theorem KeepsButSize.get_eq (hk : KeepsButSize T m m' node) (hroom : (vfsNode T).size ≤ Aerogel.payload T m node)
    {g : NodeField} (hg : g ≠ .size) : nodeGet T m' node g = nodeGet T m node g := by
  have hin := (vfsNode T).inside g
  have hdisj := (vfsNode T).disjoint g .size hg
  exact Mem.load_congr fun x h₁ h₂ => hk.bytes x (by omega) (by omega) (by omega)

/-- And so does the name. -/
theorem KeepsButSize.named (hk : KeepsButSize T m m' node) (hn : NamedNode T m node) :
    NamedNode T m' node ∧ nodeName T m' node = nodeName T m node := by
  obtain ⟨hoff, hwidth, hsize⟩ := vfsNode_name T
  have hroom := hn.room
  have hfront : 256 ≤ (vfsNode T).off .size := by cases T <;> decide
  have hbyte : ∀ x, node + (vfsNode T).off .name ≤ x → x ≤ node + (vfsNode T).off .name + 255 → m' x = m x :=
    fun x h₁ h₂ => hk.bytes x (by omega) (by omega) (by omega)
  have hlen := length_nodeName_le T m node
  refine ⟨⟨hroom.trans_eq hk.payload.symm, ?_⟩, ?_⟩
  · rw [hbyte _ (by omega) le_rfl]
    exact hn.ends
  · exact (hn.cStr.congr fun x h₁ h₂ => hbyte x h₁ (by omega)).strAt_eq hlen

/-- The first part of `tmpfs_write` keeps the node, its size apart. -/
theorem growFile_butSize {f : ByteFile} {need : Nat} (hinv : HeapInv T A ⟨h, live⟩ bs) (hsafe : A.SplitSafe)
    (ho : o.Owned live) (hf : FileObj T h.mem o f) (hneed : need + 8 < 2 ^ 32)
    (hrun : growFile T h o.node o.record need = .ok h') : KeepsButSize T h.mem h'.mem o.node := by
  have hword := T.two_pow_32_le
  rw [growFile, hf.file.size, hf.file.data] at hrun
  split_ifs at hrun with hlt
  · obtain ⟨⟨q, h₁⟩, hre, hres⟩ := bind_eq_ok.mp hrun
    obtain rfl := Except.ok.inj hres
    obtain ⟨live₁, hacts, ho₁, -, -, hnode₁, hrec₁, -⟩ := ho.regrow hinv hsafe (by omega) (by omega) hre
    obtain ⟨bs₁, hinv₁⟩ := hacts.inv
    have hrecroom := hf.file.room.trans_eq hrec₁.size.symm
    obtain ⟨m₂, hm₂⟩ : ∃ m₂, m₂ = (tmpfsFile T).set ((tmpfsFile T).set h₁.mem o.record .data q)
      o.record .size need := ⟨_, rfl⟩
    have hframe : ∀ x, x < o.record ∨ o.record + payload T h₁.mem o.record ≤ x → m₂ x = h₁.mem x := by
      intro x hx
      rw [hm₂]
      exact setFile_apply_of_outside _ _ _ (by omega)
    have hnode₂ : KeepsPayload T h₁.mem m₂ o.node :=
      hinv₁.keeps_of_payload_write ho₁.record_mem ho₁.node_mem ho₁.node_ne hframe
    have hinv₂ := hinv₁.of_payload_write ho₁.record_mem hframe
    rw [← hm₂]
    refine (hnode₁.trans hnode₂).butSize.trans ⟨?_, fun x _ _ hx => ?_⟩
    · have hroom : (vfsNode T).size ≤ payload T m₂ o.node :=
        (hf.node.room.trans_eq hnode₁.size.symm).trans_eq hnode₂.size.symm
      refine hinv₂.payload_of_write ho₁.node_mem ho₁.node_mem fun x hx => ?_
      have hx' : x < o.node ∨ o.node + payload T m₂ o.node ≤ x := hx
      exact (vfsNode T).set_apply_of_outside _ _ _ (by omega)
    · exact Mem.store_apply_of_outside _ (by omega)
  · cases hrun
    exact (KeepsPayload.refl _ _).butSize

/-- So does `tmpfs_write`. -/
theorem tmpfsWrite_butSize {f : ByteFile} {off : Nat} {bytes : List UInt8} (hinv : HeapInv T A ⟨h, live⟩ bs)
    (hsafe : A.SplitSafe) (ho : o.Owned live) (hf : FileObj T h.mem o f)
    (hoff : off + bytes.length + 8 < 2 ^ 32) (hrun : tmpfsWrite T h o.node off bytes = .ok (n, h')) :
    KeepsButSize T h.mem h'.mem o.node := by
  rw [tmpfsWrite, hf.node.fsData, Nat.mod_eq_of_lt (show off < 2 ^ 32 by omega),
    Nat.mod_eq_of_lt (show off + bytes.length < 2 ^ 32 by omega)] at hrun
  obtain ⟨h₁, hgrow, hres⟩ := bind_eq_ok.mp hrun
  obtain ⟨rfl, rfl⟩ := Prod.mk.inj (Except.ok.inj hres)
  obtain ⟨live₁, q, hacts₁, ho₁, hf₁⟩ := growFile_spec hinv hsafe ho hf (by omega) hgrow
  obtain ⟨bs₁, hinv₁⟩ := hacts₁.inv
  have hfit : off + bytes.length ≤ (f.grow (off + bytes.length)).size := le_max_right _ _
  have hdst : bytes ≠ [] → (q + off) % 2 ^ T.wordBits = q + off := by
    intro hnil
    have hpos := List.length_pos_iff.mpr hnil
    have hq0 : q ≠ 0 := fun h0 => by
      have := hf₁.file.null h0
      omega
    have hfits : (f.grow (off + bytes.length)).size ≤ payload T h₁.mem q := hf₁.file.fits hq0
    have hqlt : q + payload T h₁.mem q < 2 ^ T.wordBits :=
      hinv₁.payload_stop_lt (ho₁.buf_mem.resolve_left hq0)
    exact Nat.mod_eq_of_lt (by omega)
  obtain ⟨-, -, hkeep₂⟩ := hf₁.file.store off _ bytes hinv₁ hacts₁.owned ho₁.record_mem
    ho₁.buf_ne_record TmpObj.buf_mem_ptrs hfit hdst
  refine (growFile_butSize hinv hsafe ho hf (by omega) hgrow).trans ?_
  dsimp only
  rw [hf₁.file.data]
  exact (hkeep₂ o.node ho₁.node_mem ho₁.buf_ne_node.symm).butSize

/-! ## The tree -/

/-- A file system as its users see it. -/
abbrev FileTree := NameTree (List UInt8) ByteFile

/-- What a node is when its entries are forgotten. -/
def Content.spec : Content ByteFile → NodeSpec
  | .dir _ => .dir
  | .leaf f => .file f

/-- The nodes without their names and entries. -/
def FileTree.specs (t : FileTree) : List NodeSpec := t.map fun e => e.2.spec

/-- The pointer to the name that a call is given. -/
def TmpfsOp.name? : TmpfsOp → Option Nat
  | .create name | .mkdir _ name | .mkfile _ name _ => some name
  | .write _ _ _ | .read _ _ _ => none

/-- What a call does to the tree, when it is given the name `x`. -/
def TmpfsOp.onTree (t : FileTree) (x : List UInt8) : TmpfsOp → FileTree
  | .create _ => t.add (x.take 255) (.dir [])
  | .mkdir p _ => t.make p (x.take 255) (.dir [])
  | .mkfile p _ data => t.make p (x.take 255) (.leaf data.toFile)
  | .write i off buf => t.update i fun f => f.write off buf
  | .read _ _ _ => t

/-- A call with the name it is given, and what it returns. -/
structure StoreCall where
  /-- The call. -/
  op : TmpfsOp
  /-- The string its name points to, if it has one. -/
  name : List UInt8
  /-- What it returns. -/
  out : TmpfsOut

/-- One call that returns, with a name outside the heap. -/
structure NamedStep (T : Target) (A : Arena T) (C : TmpfsCode) (s : TmpfsRun) (c : StoreCall) (s' : TmpfsRun) :
    Prop where
  step : TmpfsStep T C s (c.op, c.out) s'
  fits : c.op.NullFits T
  named : ∀ p, c.op.name? = some p → StaticStr A s.heap.mem p c.name

/-- The two memories agree on the heap. -/
def Arena.SameInside (A : Arena T) (m m' : Mem) : Prop := ∀ x, ¬ A.Outside x → m' x = m x

/-- The state with another memory. -/
def TmpfsRun.withMem (s : TmpfsRun) (m : Mem) : TmpfsRun := ⟨{ s.heap with mem := m }, s.nodes⟩

/-- One call, before which the rest of the kernel may have written anything outside the heap. -/
def StoreStep (T : Target) (A : Arena T) (C : TmpfsCode) (s : TmpfsRun) (c : StoreCall) (s' : TmpfsRun) : Prop :=
  ∃ m, A.SameInside s.heap.mem m ∧ NamedStep T A C (s.withMem m) c s'

/-- The tree after these calls. -/
def treeAfter (cs : List StoreCall) : FileTree := cs.foldl (fun t c => c.op.onTree t c.name) []

/-- The value that the code gives to a field of a node, of those that are fixed. -/
def TmpfsCode.fixed (C : TmpfsCode) : NodeKind → NodeField → Nat
  | .dir, .flags => vfsDir
  | .dir, .readdir => C.readdir
  | .dir, .finddir => C.finddir
  | .file, .flags => vfsFile
  | .file, .read => C.read
  | .file, .write => C.write
  | _, _ => 0

/-- The fields that the code fixes when it makes a node. -/
def fixedFields : List NodeField := [.flags, .read, .write, .readdir, .finddir]

/-- The functions are at addresses of the target, none of them at 0. -/
structure TmpfsCode.Linked (C : TmpfsCode) (T : Target) : Prop where
  lt : ∀ f ∈ [C.read, C.write, C.readdir, C.finddir], f < 2 ^ T.wordBits
  ne_zero : ∀ f ∈ [C.read, C.write, C.readdir, C.finddir], f ≠ 0

/-- What stands in a node all the time. -/
structure NodeHead (T : Target) (C : TmpfsCode) (m : Mem) (kind : NodeKind) (node : Nat) (x : List UInt8) :
    Prop where
  named : NamedNode T m node
  name : nodeName T m node = x
  fixed : ∀ g ∈ fixedFields, nodeGet T m node g = C.fixed kind g

theorem NodeHead.keep {kind : NodeKind} {x : List UInt8} (hn : NodeHead T C m kind node x)
    (hk : KeepsButSize T m m' node) : NodeHead T C m' kind node x := by
  obtain ⟨hnamed, hname⟩ := hk.named hn.named
  refine ⟨hnamed, hname.trans hn.name, fun g hg => ?_⟩
  rw [← hn.fixed g hg]
  refine hk.get_eq hn.named.room ?_
  rintro rfl
  simp [fixedFields] at hg

/-- The nodes with these numbers. -/
def TmpfsRun.addrs (s : TmpfsRun) (es : List Nat) : List Nat := es.map fun j => (s.nodes.map Prod.snd).getD j 0

variable {s s' : TmpfsRun} {t : FileTree} {objs objs' : List TmpObj} {k k' : Nat} {x : List UInt8}
  {c : Content ByteFile}

/-- Memory holds the tree. -/
structure StoreInv (T : Target) (A : Arena T) (C : TmpfsCode) (s : TmpfsRun) (t : FileTree)
    (live : Finset Nat) (objs : List TmpObj) (k : Nat) : Prop where
  base : TmpfsInv T A s (FileTree.specs t) live objs k
  grown : t.Grown
  head : ∀ (i : Nat) o e, objs[i]? = some o → t[i]? = some e → NodeHead T C s.heap.mem o.kind o.node e.1
  lists : ∀ (i : Nat) o y es, objs[i]? = some o → t[i]? = some (y, .dir es) →
    DirListing T s.heap.mem o (s.addrs es)

/-- The heap does not depend on memory outside it. -/
theorem HeapInv.congr_outside (hinv : HeapInv T A ⟨h, live⟩ bs)
    (hm : A.SameInside h.mem m') : HeapInv T A ⟨{ h with mem := m' }, live⟩ bs := by
  refine ⟨⟨hinv.laid.rep.congr fun b hb f => (blockHdr T).get_congr f fun x h₁ h₂ => hm x ?_,
    hinv.laid.tiled⟩, hinv.merged, hinv.live_iff⟩
  exact hinv.laid.header_inside ⟨b, hb, h₁, h₂⟩

/-- Neither do its payloads. -/
theorem HeapInv.keeps_outside {p : Nat} (hinv : HeapInv T A ⟨h, live⟩ bs) (hp : p ∈ live)
    (hm : A.SameInside h.mem m') : KeepsPayload T h.mem m' p := by
  obtain ⟨b, hb, -, rfl⟩ := (hinv.live_iff p).mp hp
  exact ⟨((hinv.congr_outside hm).payload_eq hb).trans (hinv.payload_eq hb).symm,
    fun x h₁ h₂ => hm x (hinv.payload_inside hp h₁ h₂)⟩

/-- The empty file system on any heap. -/
theorem StoreInv.start {s : HeapRun} (hinv : HeapInv T A s bs) : StoreInv T A C ⟨s.heap, []⟩ [] s.live [] 0 where
  base := .start hinv
  grown := .nil
  head _ _ _ ho := absurd ho (by simp)
  lists _ _ _ _ ho := absurd ho (by simp)

namespace StoreInv

theorem length_eq (hinv : StoreInv T A C s t live objs k) : objs.length = t.length := by
  rw [hinv.base.length, FileTree.specs, List.length_map]

theorem nodes_eq (hinv : StoreInv T A C s t live objs k) {i : Nat} (hi : objs[i]? = some o) :
    s.nodes[i]? = some (o.kind, o.node) := by
  rw [hinv.base.nodes, List.getElem?_map, hi, Option.map_some]

/-- The addresses of nodes that exist do not depend on nodes that are made later. -/
theorem addrs_append (hinv : StoreInv T A C s t live objs k) (e : NodeKind × Nat) (h : Heap) {es : List Nat}
    (hes : ∀ j ∈ es, j < t.length) : TmpfsRun.addrs ⟨h, s.nodes ++ [e]⟩ es = s.addrs es := by
  have hlen : s.nodes.length = t.length := by rw [hinv.base.nodes, List.length_map, hinv.length_eq]
  refine List.map_congr_left fun j hj => ?_
  rw [List.map_append, List.getD_append _ _ _ _ (by rw [List.length_map, hlen]; exact hes j hj)]

/-- The entries of a directory in the tree exist. -/
theorem entries_lt (hinv : StoreInv T A C s t live objs k) {i : Nat} {y : List UInt8} {es : List Nat}
    (hi : t[i]? = some (y, .dir es)) : ∀ j ∈ es, j < t.length := by
  intro j hj
  have hent : t.entries i = es := by rw [NameTree.entries, hi]; rfl
  exact (hinv.grown.younger i j (hent ▸ hj)).2

/-- A new node that nobody lists. -/
theorem add (hinv : StoreInv T A C s t live objs k) (hacts : Acts T A ⟨s.heap, live⟩ ∅ ⟨h', live'⟩ o.ptrs)
    (ho : o.Owned live') (hrep : Represents T h'.mem k o c.spec) (hhead : NodeHead T C h'.mem o.kind o.node x)
    (hempty : c.entries = []) (hlists : ∀ es, c = .dir es → DirListing T h'.mem o []) :
    StoreInv T A C ⟨h', s.nodes ++ [(o.kind, o.node)]⟩ (t.add x c) live' (objs ++ [o]) k ∧
      ∀ (j : Nat) b, objs[j]? = some b → ∀ p ∈ b.ptrs, KeepsPayload T s.heap.mem h'.mem p := by
  obtain ⟨hbase, hkeep⟩ := hinv.base.add hacts ho hrep
  have hspecs : FileTree.specs (t.add x c) = FileTree.specs t ++ [c.spec] := List.map_append
  -- an object of the longer list is an old one or the new one
  have hget : ∀ (j : Nat) b e, (objs ++ [o])[j]? = some b → (t.add x c)[j]? = some e →
      (objs[j]? = some b ∧ t[j]? = some e) ∨ (b = o ∧ e = (x, c)) := by
    intro j b e hb he
    rw [NameTree.add] at he
    by_cases hj : j < objs.length
    · rw [List.getElem?_append_left hj] at hb
      rw [List.getElem?_append_left (hinv.length_eq ▸ hj)] at he
      exact .inl ⟨hb, he⟩
    · have hjl : j = objs.length := by
        have hlt := (List.getElem?_eq_some_iff.mp hb).1
        rw [List.length_append, List.length_singleton] at hlt
        omega
      rw [hjl, List.getElem?_concat_length] at hb
      rw [hjl, hinv.length_eq, List.getElem?_concat_length] at he
      exact .inr ⟨(Option.some.inj hb).symm, (Option.some.inj he).symm⟩
  refine ⟨⟨hspecs ▸ hbase, hinv.grown.add x hempty, fun j b e hb he => ?_, fun j b y es hb he => ?_⟩, hkeep⟩
  · rcases hget j b e hb he with ⟨hb, he⟩ | ⟨rfl, rfl⟩
    · exact (hinv.head j b e hb he).keep (hkeep j b hb _ (TmpObj.node_mem_ptrs b)).butSize
    · exact hhead
  · rcases hget j b _ hb he with ⟨hb, he⟩ | ⟨rfl, heq⟩
    · rw [hinv.addrs_append _ _ (hinv.entries_lt he)]
      exact (hinv.lists j b y es hb he).keep (hkeep j b hb)
    · obtain ⟨rfl, rfl⟩ := Prod.mk.inj heq
      obtain rfl : es = [] := hempty
      exact hlists [] rfl

/-- A directory of the tree is one in memory, with no more entries than nodes were entered. -/
theorem dir_length_le (hinv : StoreInv T A C s t live objs k) {i : Nat} {y : List UInt8} {es : List Nat}
    (hi : objs[i]? = some o) (ht : t[i]? = some (y, .dir es)) : o.kind = .dir ∧ es.length ≤ k := by
  have hspec : (FileTree.specs t)[i]? = some .dir := by
    rw [FileTree.specs, List.getElem?_map, ht]
    rfl
  obtain ⟨hkind, -, count, cap, hdir, hle, -⟩ := hinv.base.holds i o .dir hi hspec
  obtain ⟨cap', hdir', -⟩ := (hinv.lists i o y es hi ht).dir
  have hcount : (s.addrs es).length = count := hdir'.count_eq.symm.trans hdir.count_eq
  rw [TmpfsRun.addrs, List.length_map] at hcount
  exact ⟨hkind, hcount.trans_le hle⟩

/-- `dir_add` of the newest node. -/
theorem link {n : Nat} {kind : NodeKind} (hinv : StoreInv T A C ⟨h, s.nodes⟩ (t.add x c) live objs k)
    (hsafe : A.SplitSafe) {p parent : Nat} {es : List Nat} (hp : t.IsDir p es) (hgrown : t.Grown)
    (hempty : c.entries = []) (hnode : s.nodes[p]? = some (.dir, parent))
    (hlast : s.nodes[t.length]? = some (kind, n)) (hk : k < objs.length)
    (hrun : dirAdd T h (nodeGet T h.mem parent .fsData) n = .ok h') :
    ∃ live' objs', StoreInv T A C ⟨h', s.nodes⟩ (t.make p x c) live' objs' (k + 1) := by
  obtain ⟨bs, hheap⟩ := hinv.base.heap
  obtain ⟨o, n', ho, hkind, rfl, howned, hn', -⟩ := hinv.base.exists_obj hnode
  obtain ⟨y, hy⟩ : ∃ y, (t.add x c)[p]? = some (y, .dir es) := by
    obtain ⟨⟨y, c'⟩, he, hdir⟩ := Option.map_eq_some_iff.mp (hp.add x c)
    obtain rfl : c' = .dir es := hdir
    exact ⟨y, he⟩
  have hlist := hinv.lists p o y es ho hy
  have hlen := (hinv.dir_length_le ho hy).2
  have haddrs : (TmpfsRun.addrs ⟨h, s.nodes⟩ es).length = es.length := List.length_map _
  rw [hlist.node.fsData] at hrun
  obtain ⟨live', q, hacts, ho', hkept, hlist', -⟩ := dirAdd_listing hheap hsafe howned hlist
    (by rw [haddrs]; exact (hlen.trans_lt hk).trans hinv.base.length_lt) hrun
  -- the entry is the address of the new node
  obtain ⟨b, -, hb, -, rfl, hbowned, -⟩ := hinv.base.exists_obj hlast
  have hnlt : b.node + payload T h.mem b.node < 2 ^ T.wordBits := hheap.payload_stop_lt hbowned.node_mem
  rw [mod_ptr (show b.node < 2 ^ T.wordBits by omega)] at hlist'
  have hentries : TmpfsRun.addrs ⟨h', s.nodes⟩ (es ++ [t.length]) =
      TmpfsRun.addrs ⟨h, s.nodes⟩ es ++ [b.node] := by
    have hget : (s.nodes.map Prod.snd).getD t.length 0 = b.node := by
      rw [List.getD_eq_getElem?_getD, List.getElem?_map, hlast]
      rfl
    rw [TmpfsRun.addrs, List.map_append, List.map_singleton, hget]
    rfl
  have hrep : Represents T h'.mem (k + 1) { o with buf := q } .dir := by
    refine ⟨hkind, hlist'.dirObj ?_⟩
    rw [List.length_append, List.length_singleton, haddrs]
    exact Nat.succ_le_succ hlen
  obtain ⟨hbase, hkeep⟩ := hinv.base.update ho hacts ho' rfl rfl hrep (Nat.le_succ k) hk
  have hspecs : (FileTree.specs (t.add x c)).set p .dir = FileTree.specs (t.make p x c) := by
    refine List.ext_getElem? fun i => ?_
    rw [FileTree.specs, FileTree.specs, NameTree.make, List.getElem?_map, NameTree.getElem?_link, Option.map_map]
    by_cases hi : p = i
    · subst hi
      have hlt : p < (List.map (fun e : List UInt8 × Content ByteFile => e.2.spec) (t.add x c)).length := by
        rw [List.length_map]
        exact (List.getElem?_eq_some_iff.mp hy).1
      rw [List.getElem?_set_self hlt, hy]
      simp only [Option.map_some, Function.comp_apply, if_true]
      rfl
    · rw [List.getElem?_set_ne hi, List.getElem?_map]
      simp only [if_neg hi]
      rfl
  rw [hspecs] at hbase
  have hlt := (List.getElem?_eq_some_iff.mp ho).1
  refine ⟨live', _, hbase, hgrown.make hp x hempty, fun j b e hb he => ?_, fun j b y' es' hb he => ?_⟩
  · rw [NameTree.make, NameTree.getElem?_link, Option.map_eq_some_iff] at he
    obtain ⟨e, he, rfl⟩ := he
    rw [apply_ite Prod.fst, ite_self]
    by_cases hj : p = j
    · subst hj
      rw [List.getElem?_set_self hlt] at hb
      obtain rfl := Option.some.inj hb
      exact (hinv.head p o e ho he).keep hkept.butSize
    · rw [List.getElem?_set_ne hj] at hb
      exact (hinv.head j b e hb he).keep (hkeep j b hb (Ne.symm hj) _ (TmpObj.node_mem_ptrs b)).butSize
  · rw [NameTree.make, NameTree.getElem?_link, Option.map_eq_some_iff] at he
    obtain ⟨e, he, heq⟩ := he
    by_cases hj : p = j
    · subst hj
      rw [List.getElem?_set_self hlt] at hb
      obtain rfl := Option.some.inj hb
      rw [hy] at he
      obtain rfl := Option.some.inj he
      rw [if_pos rfl] at heq
      obtain ⟨-, hes⟩ := Prod.mk.inj heq
      obtain rfl : es ++ [t.length] = es' := Content.dir.inj hes
      rw [hentries]
      exact hlist'
    · rw [List.getElem?_set_ne hj] at hb
      rw [if_neg hj] at heq
      subst heq
      exact (hinv.lists j b y' es' hb he).keep (hkeep j b hb (Ne.symm hj))

end StoreInv

/-- Fixed values fit their fields. -/
theorem TmpfsCode.fixed_lt (hC : C.Linked T) (kind : NodeKind) {g : NodeField} (hg : g ∈ fixedFields) :
    C.fixed kind g < 256 ^ (vfsNode T).width g := by
  have hread := hC.lt C.read (by simp)
  have hwrite := hC.lt C.write (by simp)
  have hreaddir := hC.lt C.readdir (by simp)
  have hfinddir := hC.lt C.finddir (by simp)
  cases T <;> cases kind <;> cases g <;>
    first
    | exact hread
    | exact hwrite
    | exact hreaddir
    | exact hfinddir
    | exact absurd hg (by decide)
    | exact show vfsDir < 256 ^ 4 by decide
    | exact show vfsFile < 256 ^ 4 by decide
    | exact show 0 < 256 ^ 4 by decide
    | exact show 0 < 256 ^ 8 by decide

/-- A new node gets its name and the fixed fields, if they are assigned or 0. -/
theorem newNode_head {kind : NodeKind} (hC : C.Linked T) (hinv : HeapInv T A ⟨h, live⟩ bs)
    (hsafe : A.SplitSafe) (hs : StaticStr A h.mem name str) (hnd : (fields.map Prod.fst).Nodup)
    (hname : .name ∉ fields.map Prod.fst)
    (hfixed : ∀ g ∈ fixedFields, (g, C.fixed kind g) ∈ fields ∨ g ∉ fields.map Prod.fst ∧ C.fixed kind g = 0)
    (hrun : newNode T h name fields = .ok (n, h')) : NodeHead T C h'.mem kind n (str.take 255) := by
  obtain ⟨-, -, hroom, hget, -⟩ := newNode_spec hinv hsafe (Finset.empty_subset _) hnd hrun
  refine ⟨newNode_named hname hrun hroom, nodeName_of_static hinv hsafe hs hname hrun, fun g hg => ?_⟩
  rcases hfixed g hg with hmem | ⟨hnot, h0⟩
  · rw [hget g _ hmem, Nat.mod_eq_of_lt (TmpfsCode.fixed_lt hC kind hg)]
  · rw [h0]
    refine newNode_unset hrun ?_ hnot
    rintro rfl
    exact absurd hg (by decide)

/-- The node that `tmpfs_create` makes. -/
theorem tmpfsCreate_head (hC : C.Linked T) (hinv : HeapInv T A ⟨h, live⟩ bs) (hsafe : A.SplitSafe)
    (hs : StaticStr A h.mem name str) (hrun : tmpfsCreate T C h name = .ok (n, h')) :
    NodeHead T C h'.mem .dir n (str.take 255) := by
  obtain ⟨⟨d, h₁⟩, hmalloc, hnode⟩ := bind_eq_ok.mp hrun
  obtain ⟨hrec, hacts₁⟩ := hinv.handed hsafe (Finset.empty_subset _) (by cases T <;> decide)
    (records_lt T).2.2 hmalloc
  obtain ⟨bs₁, hinv₁⟩ := hacts₁.inv
  have hroom := hrec.room
  have hd : d ∈ insert d live := Finset.mem_insert_self _ _
  have hframe : ∀ x, x < d ∨ d + payload T h₁.mem d ≤ x →
      memset h₁.mem d 0 (tmpfsDir T).size x = h₁.mem x := by
    intro x hx
    rw [memset_apply, if_neg (by omega)]
  have hs₁ := (hs.congr (hinv.kmalloc_outside hsafe hmalloc)).congr (hinv₁.write_outside hd hframe)
  refine newNode_head hC (hinv₁.of_payload_write hd hframe) hsafe hs₁ ?_ ?_ ?_ hnode
  · change List.Nodup [NodeField.flags, .fsData, .readdir, .finddir]
    decide
  · change NodeField.name ∉ [NodeField.flags, .fsData, .readdir, .finddir]
    decide
  · intro g hg
    cases g <;> simp [fixedFields, TmpfsCode.fixed] at hg ⊢

namespace StoreInv

/-- `tmpfs_create` adds an empty directory that nobody lists. -/
theorem create (hinv : StoreInv T A C s t live objs k) (hC : C.Linked T) (hsafe : A.SplitSafe)
    (hs : StaticStr A s.heap.mem name str) (hrun : tmpfsCreate T C s.heap name = .ok (n, h')) :
    ∃ live' o, StoreInv T A C ⟨h', s.nodes ++ [(.dir, n)]⟩ (t.add (str.take 255) (.dir [])) live'
      (objs ++ [o]) k := by
  obtain ⟨bs, hheap⟩ := hinv.base.heap
  obtain ⟨live', d, hacts, ho, hdir⟩ := tmpfsCreate_spec hheap hsafe hrun
  obtain ⟨es, hlen, hlist⟩ := hdir.exists_listing
  obtain rfl := List.length_eq_zero_iff.mp (Nat.le_zero.mp hlen)
  exact ⟨live', _, (hinv.add (c := .dir []) hacts ho ⟨rfl, hdir.mono (Nat.zero_le k)⟩
    (tmpfsCreate_head hC hheap hsafe hs hrun) rfl fun _ _ => hlist).1⟩

/-- The first two parts of `tmpfs_mkfile` add a file that nobody lists. -/
theorem file {f : Nat} {data : FileData} (hinv : StoreInv T A C s t live objs k) (hC : C.Linked T)
    (hsafe : A.SplitSafe) (hs : StaticStr A s.heap.mem name str) (hlt : data.size < 2 ^ 32)
    (hsize : data.size + 7 < 2 ^ T.wordBits) (hfile : newFile T s.heap data = .ok (f, h₁))
    (hnode : newNode T h₁ name [(.flags, vfsFile), (.size, data.size), (.fsData, f), (.read, C.read),
      (.write, C.write)] = .ok (n, h')) :
    ∃ live' o, StoreInv T A C ⟨h', s.nodes ++ [(.file, n)]⟩ (t.add (str.take 255) (.leaf data.toFile)) live'
      (objs ++ [o]) k := by
  obtain ⟨bs, hheap⟩ := hinv.base.heap
  obtain ⟨live₁, p, hacts₁, hpf, hholds⟩ := newFile_spec hheap hsafe hlt hsize hfile
  obtain ⟨bs₁, hheap₁⟩ := hacts₁.inv
  obtain ⟨hacts₂, ho, hobj⟩ := fileNode_spec hheap₁ hsafe hacts₁.owned hpf hholds hnode
  have hhead : NodeHead T C h'.mem .file n (str.take 255) := by
    refine newNode_head hC hheap₁ hsafe (hs.congr (newFile_outside hheap hsafe hsize hfile)) ?_ ?_ ?_ hnode
    · change List.Nodup [NodeField.flags, .size, .fsData, .read, .write]
      decide
    · change NodeField.name ∉ [NodeField.flags, .size, .fsData, .read, .write]
      decide
    · intro g hg
      cases g <;> simp [fixedFields, TmpfsCode.fixed] at hg ⊢
  exact ⟨_, _, (hinv.add (c := .leaf data.toFile) (hacts₁.trans hacts₂) ho ⟨rfl, hobj⟩ hhead rfl
    fun es heq => nomatch heq).1⟩

/-- A node of memory is one of the tree, of the same kind. -/
theorem exists_dir (hinv : StoreInv T A C s t live objs k) {i : Nat} (hi : s.nodes[i]? = some (.dir, node)) :
    ∃ o y es, objs[i]? = some o ∧ o.node = node ∧ o.kind = .dir ∧ t[i]? = some (y, .dir es) := by
  obtain ⟨o, n, ho, hkind, hnode, -, hn, hrep⟩ := hinv.base.exists_obj hi
  rw [FileTree.specs, List.getElem?_map, Option.map_eq_some_iff] at hn
  obtain ⟨⟨y, c⟩, he, rfl⟩ := hn
  cases c with
  | dir es => exact ⟨o, y, es, ho, hnode, hkind, he⟩
  | leaf f => exact absurd (hkind.symm.trans hrep.1) (by decide)

/-- A new node is entered into its parent's directory. -/
theorem link_new (hinv : StoreInv T A C s t live objs k) (hsafe : A.SplitSafe) {i parent : Nat}
    {kind : NodeKind} {live₁ : Finset Nat} (hi : s.nodes[i]? = some (.dir, parent))
    (hinv₁ : StoreInv T A C ⟨h₁, s.nodes ++ [(kind, n)]⟩ (t.add x c) live₁ (objs ++ [o]) k)
    (hempty : c.entries = []) (hrun : dirAdd T h₁ (nodeGet T h₁.mem parent .fsData) n = .ok h') :
    ∃ live' objs', StoreInv T A C ⟨h', s.nodes ++ [(kind, n)]⟩ (t.make i x c) live' objs' (k + 1) := by
  obtain ⟨o', y, es, ho', -, -, he⟩ := hinv.exists_dir hi
  have hp : t.IsDir i es := by rw [NameTree.IsDir, he]; rfl
  have hlen : s.nodes.length = t.length := by rw [hinv.base.nodes, List.length_map, hinv.length_eq]
  have hlast : k < (objs ++ [o]).length := by
    rw [List.length_append, List.length_singleton]
    exact Nat.lt_succ_of_le hinv.base.entries
  have hi₁ : (s.nodes ++ [(kind, n)])[i]? = some (.dir, parent) := by
    rw [List.getElem?_append_left (List.getElem?_eq_some_iff.mp hi).1, hi]
  have hn : (s.nodes ++ [(kind, n)])[t.length]? = some (kind, n) := by
    rw [← hlen, List.getElem?_concat_length]
  exact hinv₁.link (s := ⟨h₁, s.nodes ++ [(kind, n)]⟩) hsafe hp hinv.grown hempty hi₁ hn hlast hrun

/-- `tmpfs_write` writes to the file of the tree. -/
theorem write (hinv : StoreInv T A C s t live objs k) (hsafe : A.SplitSafe) {i off : Nat} {buf : List UInt8}
    (hi : s.nodes[i]? = some (.file, node)) (hoff : off + buf.length + 8 < 2 ^ 32)
    (hrun : tmpfsWrite T s.heap node off buf = .ok (n, h')) :
    ∃ live' objs', StoreInv T A C ⟨h', s.nodes⟩ (t.update i fun f => f.write off buf) live' objs' k := by
  obtain ⟨bs, hheap⟩ := hinv.base.heap
  obtain ⟨o, f, ho, rfl, hkind, howned, hn, hobj⟩ := hinv.base.exists_file hi
  obtain ⟨-, live', q, hacts, ho', hobj'⟩ := tmpfsWrite_spec hheap hsafe howned hobj hoff hrun
  have hbut := tmpfsWrite_butSize hheap hsafe howned hobj hoff hrun
  have hrep : Represents T h'.mem k { o with buf := q } (.file (f.write off buf)) := ⟨hkind, hobj'⟩
  obtain ⟨hbase, hkeep⟩ := hinv.base.update ho hacts ho' rfl rfl hrep le_rfl hinv.base.entries
  have hlt := (List.getElem?_eq_some_iff.mp ho).1
  obtain ⟨y, hy⟩ : ∃ y, t[i]? = some (y, .leaf f) := by
    rw [FileTree.specs, List.getElem?_map, Option.map_eq_some_iff] at hn
    obtain ⟨⟨y, c⟩, he, hspec⟩ := hn
    cases c with
    | dir es => cases hspec
    | leaf g =>
        obtain rfl : g = f := NodeSpec.file.inj hspec
        exact ⟨y, he⟩
  have hspecs : (FileTree.specs t).set i (.file (f.write off buf)) =
      FileTree.specs (t.update i fun f => f.write off buf) := by
    refine List.ext_getElem? fun j => ?_
    rw [FileTree.specs, FileTree.specs, List.getElem?_map, NameTree.getElem?_update, Option.map_map]
    by_cases hj : i = j
    · subst hj
      have hlt' : i < (List.map (fun e : List UInt8 × Content ByteFile => e.2.spec) t).length := by
        rw [List.length_map]
        exact (List.getElem?_eq_some_iff.mp hy).1
      rw [List.getElem?_set_self hlt', hy]
      simp only [Option.map_some, Function.comp_apply, if_true]
      rfl
    · rw [List.getElem?_set_ne hj, List.getElem?_map]
      simp only [if_neg hj]
      rfl
  rw [hspecs] at hbase
  refine ⟨live', _, hbase, hinv.grown.update _ _, fun j b e hb he => ?_, fun j b y' es' hb he => ?_⟩
  · rw [NameTree.getElem?_update, Option.map_eq_some_iff] at he
    obtain ⟨e, he, rfl⟩ := he
    rw [apply_ite Prod.fst, ite_self]
    by_cases hj : i = j
    · subst hj
      rw [List.getElem?_set_self hlt] at hb
      obtain rfl := Option.some.inj hb
      exact (hinv.head i o e ho he).keep hbut
    · rw [List.getElem?_set_ne hj] at hb
      exact (hinv.head j b e hb he).keep (hkeep j b hb (Ne.symm hj) _ (TmpObj.node_mem_ptrs b)).butSize
  · rw [NameTree.getElem?_update, Option.map_eq_some_iff] at he
    obtain ⟨e, he, heq⟩ := he
    by_cases hj : i = j
    · subst hj
      rw [hy] at he
      obtain rfl := Option.some.inj he
      rw [if_pos rfl] at heq
      exact nomatch (Prod.mk.inj heq).2
    · rw [List.getElem?_set_ne hj] at hb
      rw [if_neg hj] at heq
      subst heq
      exact (hinv.lists j b y' es' hb he).keep (hkeep j b hb (Ne.symm hj))

/-- Every call does to memory what it does to the tree. -/
theorem call {c : StoreCall} (hinv : StoreInv T A C s t live objs k) (hC : C.Linked T) (hsafe : A.SplitSafe)
    (hstep : NamedStep T A C s c s') :
    ∃ live' objs' k', StoreInv T A C s' (c.op.onTree t c.name) live' objs' k' := by
  obtain ⟨op, name, out⟩ := c
  obtain ⟨hstep, hfits, hnamed⟩ := hstep
  cases hstep with
  | create hrun =>
      obtain ⟨live', o, hinv'⟩ := hinv.create hC hsafe (hnamed _ rfl) hrun
      exact ⟨live', _, k, hinv'⟩
  | mkdir hi hrun =>
      obtain ⟨⟨n, h₁⟩, hcreate, hrest⟩ := bind_eq_ok.mp hrun
      obtain ⟨h₂, hadd, hres⟩ := bind_eq_ok.mp hrest
      obtain ⟨rfl, rfl⟩ := Prod.mk.inj (Except.ok.inj hres)
      obtain ⟨live₁, o, hinv₁⟩ := hinv.create hC hsafe (hnamed _ rfl) hcreate
      obtain ⟨live₂, objs₂, hinv₂⟩ := hinv.link_new hsafe hi hinv₁ rfl hadd
      exact ⟨live₂, objs₂, k + 1, hinv₂⟩
  | @mkfile _ _ _ _ data _ hi htyped hrun =>
      obtain ⟨⟨f, h₁⟩, hfile, hrest⟩ := bind_eq_ok.mp hrun
      obtain ⟨⟨n, h₂⟩, hnode, hrest⟩ := bind_eq_ok.mp hrest
      obtain ⟨h₃, hadd, hres⟩ := bind_eq_ok.mp hrest
      obtain ⟨rfl, rfl⟩ := Prod.mk.inj (Except.ok.inj hres)
      obtain ⟨hlt, hsize⟩ : data.size < 2 ^ 32 ∧ data.size + 7 < 2 ^ T.wordBits := by
        cases data with
        | null size => exact ⟨htyped, hfits⟩
        | buffer bytes =>
            have hhdr : 20 ≤ hdrBytes T := by cases T <;> decide
            have hbuf := htyped.2
            exact ⟨htyped.1, show bytes.length + 7 < _ by omega⟩
      obtain ⟨live₁, o, hinv₁⟩ := hinv.file hC hsafe (hnamed _ rfl) hlt hsize hfile hnode
      obtain ⟨live₂, objs₂, hinv₂⟩ := hinv.link_new hsafe hi hinv₁ rfl hadd
      exact ⟨live₂, objs₂, k + 1, hinv₂⟩
  | write hi htyped hrun =>
      have hoff := show _ < 2 ^ 32 - 8 from htyped
      obtain ⟨live', objs', hinv'⟩ := hinv.write hsafe hi (by omega) hrun
      exact ⟨live', objs', k, hinv'⟩
  | read => exact ⟨live, objs, k, hinv⟩

/-- The tree does not depend on memory outside the heap. -/
theorem withMem (hinv : StoreInv T A C s t live objs k) (hm : A.SameInside s.heap.mem m) :
    StoreInv T A C (s.withMem m) t live objs k := by
  obtain ⟨bs, hheap⟩ := hinv.base.heap
  have hkeep : ∀ b ∈ objs, ∀ p ∈ b.ptrs, KeepsPayload T s.heap.mem m p := fun b hb p hp =>
    hheap.keeps_outside ((hinv.base.owned b hb).ptrs_subset hp) hm
  refine ⟨⟨⟨bs, hheap.congr_outside hm⟩, hinv.base.nodes, hinv.base.length, hinv.base.owned,
    fun i b n hb hn => ?_, hinv.base.apart, hinv.base.entries⟩, hinv.grown, fun i b e hb he => ?_,
    fun i b y es hb he => ?_⟩
  · exact (hinv.base.holds i b n hb hn).keep (hkeep b (List.mem_of_getElem? hb)) le_rfl
  · exact (hinv.head i b e hb he).keep
      (hkeep b (List.mem_of_getElem? hb) _ (TmpObj.node_mem_ptrs b)).butSize
  · exact (hinv.lists i b y es hb he).keep (hkeep b (List.mem_of_getElem? hb))

theorem step {c : StoreCall} (hinv : StoreInv T A C s t live objs k) (hC : C.Linked T) (hsafe : A.SplitSafe)
    (hstep : StoreStep T A C s c s') :
    ∃ live' objs' k', StoreInv T A C s' (c.op.onTree t c.name) live' objs' k' := by
  obtain ⟨m, hm, hcall⟩ := hstep
  exact (hinv.withMem hm).call hC hsafe hcall

/-- So does every run. -/
theorem run (hC : C.Linked T) (hsafe : A.SplitSafe) {cs : List StoreCall}
    (hinv : StoreInv T A C s t live objs k) (hrun : Run (StoreStep T A C) s cs s') :
    ∃ live' objs' k', StoreInv T A C s' (cs.foldl (fun t c => c.op.onTree t c.name) t) live' objs' k' := by
  induction hrun generalizing t live objs k with
  | nil s => exact ⟨live, objs, k, hinv⟩
  | cons hstep _ ih =>
      obtain ⟨live', objs', k', hinv'⟩ := hinv.step hC hsafe hstep
      exact ih hinv'

end StoreInv

end Aerogel
