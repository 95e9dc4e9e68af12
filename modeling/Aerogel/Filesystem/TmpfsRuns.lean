import Aerogel.Filesystem.TmpfsNodes

/-! # Runs of tmpfs

A run starts from any reachable heap and makes directories and files, writes and reads. Nodes are
referred to by the number of their creation, so that a run can be described without addresses. What
`specAfter` makes of the operations is a list of `ByteFile`s (and directories, about which nothing is said);
the theorem is that the code refines it: sizes and stored bytes agree in every state, every call answers
as the byte files do, and no call disturbs a file it does not write to. -/

namespace Aerogel

variable {T : Target} {A : Arena T} {C : TmpfsCode}

/-! ## Runs -/

/-- The file system's state: the heap, and the nodes made so far. -/
structure TmpfsRun where
  /-- The heap, with everything in it. -/
  heap : Heap
  /-- The nodes in the order of their creation. -/
  nodes : List (NodeKind × Nat)

/-- The calls. A `name` is a pointer, `parent` and `file` are numbers of nodes. -/
inductive TmpfsOp
  | create (name : Nat)
  | mkdir (parent name : Nat)
  | mkfile (parent name : Nat) (data : FileData)
  | write (file off : Nat) (buf : List UInt8)
  | read (file off sz : Nat)

/-- What a call returns, addresses apart. -/
inductive TmpfsOut
  /-- A node. -/
  | made
  /-- The number of bytes written. -/
  | written (n : Nat)
  /-- The number of bytes read, and the bytes. -/
  | got (n : Nat) (bytes : List UInt8)

/-- The arguments have the types of the source, a buffer leaves room for the heap's first header in the
address space, and the range of a write ends below `2 ^ 32 - 8`. -/
def TmpfsOp.Typed (T : Target) : TmpfsOp → Prop
  | .create _ | .mkdir _ _ => True
  | .mkfile _ _ (.null size) => size < 2 ^ 32
  | .mkfile _ _ (.buffer bytes) =>
    bytes.length < 2 ^ 32 ∧ hdrBytes T + bytes.length ≤ 2 ^ T.wordBits
  | .write _ off buf => off + buf.length < 2 ^ 32 - 8
  | .read _ off sz => off < 2 ^ 64 ∧ sz < 2 ^ 32

/-- The size of a file made from a null pointer can be rounded up to 8. -/
def TmpfsOp.NullFits (T : Target) : TmpfsOp → Prop
  | .mkfile _ _ (.null size) => size + 7 < 2 ^ T.wordBits
  | _ => True

/-- One call that returns. -/
inductive TmpfsStep (T : Target) (C : TmpfsCode) : TmpfsRun → TmpfsOp × TmpfsOut → TmpfsRun → Prop
  | create {s : TmpfsRun} {name n : Nat} {h : Heap} :
      tmpfsCreate T C s.heap name = .ok (n, h) →
      TmpfsStep T C s (.create name, .made) ⟨h, s.nodes ++ [(.dir, n)]⟩
  | mkdir {s : TmpfsRun} {i parent name n : Nat} {h : Heap} :
      s.nodes[i]? = some (.dir, parent) → tmpfsMkdir T C s.heap parent name = .ok (n, h) →
      TmpfsStep T C s (.mkdir i name, .made) ⟨h, s.nodes ++ [(.dir, n)]⟩
  | mkfile {s : TmpfsRun} {i parent name n : Nat} {data : FileData} {h : Heap} :
      s.nodes[i]? = some (.dir, parent) → (TmpfsOp.mkfile i name data).Typed T →
      tmpfsMkfile T C s.heap parent name data = .ok (n, h) →
      TmpfsStep T C s (.mkfile i name data, .made) ⟨h, s.nodes ++ [(.file, n)]⟩
  | write {s : TmpfsRun} {i node off n : Nat} {buf : List UInt8} {h : Heap} :
      s.nodes[i]? = some (.file, node) → (TmpfsOp.write i off buf).Typed T →
      tmpfsWrite T s.heap node off buf = .ok (n, h) →
      TmpfsStep T C s (.write i off buf, .written n) ⟨h, s.nodes⟩
  | read {s : TmpfsRun} {i node off sz : Nat} :
      s.nodes[i]? = some (.file, node) → (TmpfsOp.read i off sz).Typed T →
      TmpfsStep T C s (.read i off sz, .got (tmpfsRead T s.heap.mem node off sz).1
        (tmpfsRead T s.heap.mem node off sz).2) s

/-! ## The abstract file system -/

/-- A node as its user knows it. -/
inductive NodeSpec
  | dir
  | file (f : ByteFile)

/-- What a call does to the nodes. -/
def TmpfsOp.apply (ns : List NodeSpec) : TmpfsOp → List NodeSpec
  | .create _ | .mkdir _ _ => ns ++ [.dir]
  | .mkfile _ _ data => ns ++ [.file data.toFile]
  | .write i off buf =>
    match ns[i]? with
    | some (.file f) => ns.set i (.file (f.write off buf))
    | _ => ns
  | .read _ _ _ => ns

/-- The nodes after these calls. -/
def specAfter (ops : List TmpfsOp) : List NodeSpec := ops.foldl TmpfsOp.apply []

/-- What a call may return. -/
inductive Answers (ns : List NodeSpec) : TmpfsOp → TmpfsOut → Prop
  | create {name : Nat} : Answers ns (.create name) .made
  | mkdir {i name : Nat} : Answers ns (.mkdir i name) .made
  | mkfile {i name : Nat} {data : FileData} : Answers ns (.mkfile i name data) .made
  | write {i off : Nat} {buf : List UInt8} : Answers ns (.write i off buf) (.written buf.length)
  | read {i off sz n : Nat} {bytes : List UInt8} {f : ByteFile} :
      ns[i]? = some (.file f) → f.Reads off sz n bytes → Answers ns (.read i off sz) (.got n bytes)

/-- The call stores into this node. -/
def TmpfsOp.Writes : TmpfsOp → Nat → Prop
  | .write i _ _, j => i = j
  | _, _ => False

/-! ## The invariant -/

/-- The object holds what the user knows about its node. -/
def Represents (T : Target) (m : Mem) (k : Nat) (o : TmpObj) : NodeSpec → Prop
  | .dir => o.kind = .dir ∧ DirObj T m o k
  | .file f => o.kind = .file ∧ FileObj T m o f

/-- The nodes are those of the objects, each object owns its allocations alone and holds its node's
contents, and the directories have no more than `k` entries each. -/
structure TmpfsInv (T : Target) (A : Arena T) (s : TmpfsRun) (ns : List NodeSpec) (live : Finset Nat)
    (objs : List TmpObj) (k : Nat) : Prop where
  heap : ∃ bs, HeapInv T A ⟨s.heap, live⟩ bs
  nodes : s.nodes = objs.map fun o => (o.kind, o.node)
  length : objs.length = ns.length
  owned : ∀ o ∈ objs, o.Owned live
  holds : ∀ (i : Nat) o n, objs[i]? = some o → ns[i]? = some n → Represents T s.heap.mem k o n
  apart : ∀ (i j : Nat) a b, objs[i]? = some a → objs[j]? = some b → i ≠ j → ∀ p ∈ a.ptrs, p ∉ b.ptrs
  entries : k ≤ objs.length

variable {s s' : TmpfsRun} {ns : List NodeSpec} {live live' : Finset Nat} {objs objs' : List TmpObj}
  {o o' : TmpObj} {n n' : NodeSpec} {h' : Heap} {k k' : Nat} {m m' : Mem}

theorem Represents.keep (hr : Represents T m k o n) (hkeep : ∀ p ∈ o.ptrs, KeepsPayload T m m' p)
    (hk : k ≤ k') : Represents T m' k' o n := by
  cases n with
  | dir => exact ⟨hr.1, (hr.2.keep hkeep).mono hk⟩
  | file f => exact ⟨hr.1, hr.2.keep hkeep⟩

namespace TmpfsInv

/-- Every object has a node that it represents. -/
theorem exists_spec (hinv : TmpfsInv T A s ns live objs k) {i : Nat} (hi : objs[i]? = some o) :
    ∃ n, ns[i]? = some n ∧ Represents T s.heap.mem k o n := by
  obtain ⟨hlt, -⟩ := List.getElem?_eq_some_iff.mp hi
  have hn := List.getElem?_eq_getElem (l := ns) (i := i) (by rw [← hinv.length]; exact hlt)
  exact ⟨_, hn, hinv.holds i o _ hi hn⟩

/-- Every node has an object behind it. -/
theorem exists_obj (hinv : TmpfsInv T A s ns live objs k) {i node : Nat} {kind : NodeKind}
    (hi : s.nodes[i]? = some (kind, node)) :
    ∃ o n, objs[i]? = some o ∧ o.kind = kind ∧ o.node = node ∧ o.Owned live ∧ ns[i]? = some n ∧
      Represents T s.heap.mem k o n := by
  rw [hinv.nodes, List.getElem?_map, Option.map_eq_some_iff] at hi
  obtain ⟨o, ho, heq⟩ := hi
  obtain ⟨rfl, rfl⟩ := Prod.mk.inj heq
  obtain ⟨n, hn, hrep⟩ := hinv.exists_spec ho
  exact ⟨o, n, ho, rfl, rfl, hinv.owned o (List.mem_of_getElem? ho), hn, hrep⟩

/-- Every node of a file has a file behind it. -/
theorem exists_file (hinv : TmpfsInv T A s ns live objs k) {i node : Nat}
    (hi : s.nodes[i]? = some (.file, node)) :
    ∃ o f, objs[i]? = some o ∧ o.node = node ∧ o.kind = .file ∧ o.Owned live ∧
      ns[i]? = some (.file f) ∧ FileObj T s.heap.mem o f := by
  obtain ⟨o, n, ho, hkind, hnode, howned, hn, hrep⟩ := hinv.exists_obj hi
  cases n with
  | dir => exact absurd (hkind.symm.trans hrep.1) (by decide)
  | file f => exact ⟨o, f, ho, hnode, hkind, howned, hn, hrep.2⟩

/-- Every node of a directory has a directory behind it. -/
theorem exists_dir (hinv : TmpfsInv T A s ns live objs k) {i node : Nat}
    (hi : s.nodes[i]? = some (.dir, node)) :
    ∃ o, objs[i]? = some o ∧ o.node = node ∧ o.kind = .dir ∧ o.Owned live ∧
      ns[i]? = some .dir ∧ DirObj T s.heap.mem o k := by
  obtain ⟨o, n, ho, hkind, hnode, howned, hn, hrep⟩ := hinv.exists_obj hi
  cases n with
  | dir => exact ⟨o, ho, hnode, hkind, howned, hn, hrep.2⟩
  | file f => exact absurd (hkind.symm.trans hrep.1) (by decide)

/-- Every node is an allocation with a header, so there are not many of them. -/
theorem length_lt (hinv : TmpfsInv T A s ns live objs k) : objs.length < 2 ^ 28 := by
  obtain ⟨bs, hheap⟩ := hinv.heap
  have hnodup : (objs.map TmpObj.node).Nodup := by
    rw [List.Nodup, List.pairwise_map, List.pairwise_iff_getElem]
    intro i j hi hj hij heq
    refine hinv.apart i j _ _ (List.getElem?_eq_getElem hi) (List.getElem?_eq_getElem hj)
      (Nat.ne_of_lt hij) _ (TmpObj.node_mem_ptrs _) ?_
    rw [heq]
    exact TmpObj.node_mem_ptrs _
  have hlt := hheap.length_lt_of_nodup hnodup fun p hp => by
    obtain ⟨o, ho, rfl⟩ := List.mem_map.mp hp
    exact (hinv.owned o ho).node_mem
  rwa [List.length_map] at hlt

/-- Code that owns the allocations of one object leaves the other objects alone. -/
theorem update (hinv : TmpfsInv T A s ns live objs k) {i : Nat} (hi : objs[i]? = some o)
    (hacts : Acts T A ⟨s.heap, live⟩ o.ptrs ⟨h', live'⟩ o'.ptrs) (ho : o'.Owned live')
    (hkind : o'.kind = o.kind) (hnode : o'.node = o.node) (hrep : Represents T h'.mem k' o' n')
    (hk : k ≤ k') (hk' : k' ≤ objs.length) :
    TmpfsInv T A ⟨h', s.nodes⟩ (ns.set i n') live' (objs.set i o') k' ∧
      ∀ (j : Nat) b, objs[j]? = some b → j ≠ i → ∀ p ∈ b.ptrs, KeepsPayload T s.heap.mem h'.mem p := by
  have hothers : ∀ (j : Nat) b, objs[j]? = some b → j ≠ i → ∀ p ∈ b.ptrs,
      p ∈ live ∧ p ∈ live' ∧ KeepsPayload T s.heap.mem h'.mem p := by
    intro j b hj hne p hp
    have hp' := (hinv.owned b (List.mem_of_getElem? hj)).ptrs_subset hp
    exact ⟨hp', hacts.keeps p hp' (hinv.apart j i b o hj hi hne p hp)⟩
  have hlt := (List.getElem?_eq_some_iff.mp hi).1
  -- an object of the new list is the changed one or an old one at another place
  have hget : ∀ (j : Nat) b, (objs.set i o')[j]? = some b →
      (j = i ∧ b = o') ∨ (j ≠ i ∧ objs[j]? = some b) := by
    intro j b hj
    by_cases hji : j = i
    · subst hji
      rw [List.getElem?_set_self hlt] at hj
      exact Or.inl ⟨rfl, (Option.some.inj hj).symm⟩
    · rw [List.getElem?_set_ne (Ne.symm hji)] at hj
      exact Or.inr ⟨hji, hj⟩
  -- what the changed object owns is new or was its own, so no other object owns it
  have hapart : ∀ (j : Nat) b, objs[j]? = some b → j ≠ i → ∀ p ∈ o'.ptrs, p ∉ b.ptrs :=
    fun j b hj hne p hp hpb => by
      rcases hacts.fresh p hp with hold | hnew
      · exact hinv.apart i j o b hi hj (Ne.symm hne) p hold hpb
      · exact hnew (hothers j b hj hne p hpb).1
  refine ⟨⟨hacts.inv, ?_, ?_, fun b hb => ?_, fun j b n hb hn => ?_, fun j l a b ha hb hjl => ?_, ?_⟩,
    fun j b hj hne p hp => (hothers j b hj hne p hp).2.2⟩
  · rw [hinv.nodes, List.map_set, hkind, hnode]
    obtain ⟨-, rfl⟩ := List.getElem?_eq_some_iff.mp hi
    exact ((List.map_set ..).symm.trans (congrArg _ (List.set_getElem_self hlt))).symm
  · rw [List.length_set, List.length_set, hinv.length]
  · obtain ⟨j, hj⟩ := List.mem_iff_getElem?.mp hb
    rcases hget j b hj with ⟨-, rfl⟩ | ⟨hne, hj⟩
    · exact ho
    · exact (hinv.owned b (List.mem_of_getElem? hj)).mono fun p hp => (hothers j b hj hne p hp).2.1
  · rcases hget j b hb with ⟨rfl, rfl⟩ | ⟨hne, hj⟩
    · rw [List.getElem?_set_self (by rw [← hinv.length]; exact hlt)] at hn
      exact Option.some.inj hn ▸ hrep
    · rw [List.getElem?_set_ne (Ne.symm hne)] at hn
      exact (hinv.holds j b n hj hn).keep (fun p hp => (hothers j b hj hne p hp).2.2) hk
  · rcases hget j a ha with ⟨rfl, rfl⟩ | ⟨hj, ha'⟩ <;> rcases hget l b hb with ⟨rfl, rfl⟩ | ⟨hl, hb'⟩
    · exact absurd rfl hjl
    · exact hapart l b hb' hl
    · exact fun p hp hpo => hapart j a ha' hj p hpo hp
    · exact hinv.apart j l a b ha' hb' hjl
  · rw [List.length_set]
    exact hk'

/-- Code that makes a new object leaves the others alone. -/
theorem add (hinv : TmpfsInv T A s ns live objs k)
    (hacts : Acts T A ⟨s.heap, live⟩ ∅ ⟨h', live'⟩ o.ptrs) (ho : o.Owned live')
    (hrep : Represents T h'.mem k o n) :
    TmpfsInv T A ⟨h', s.nodes ++ [(o.kind, o.node)]⟩ (ns ++ [n]) live' (objs ++ [o]) k ∧
      ∀ (j : Nat) b, objs[j]? = some b → ∀ p ∈ b.ptrs, KeepsPayload T s.heap.mem h'.mem p := by
  have hothers : ∀ b ∈ objs, ∀ p ∈ b.ptrs,
      p ∈ live ∧ p ∈ live' ∧ KeepsPayload T s.heap.mem h'.mem p := by
    intro b hb p hp
    have hp' := (hinv.owned b hb).ptrs_subset hp
    exact ⟨hp', hacts.keeps p hp' (Finset.notMem_empty p)⟩
  have hget : ∀ (j : Nat) b, (objs ++ [o])[j]? = some b →
      (j = objs.length ∧ b = o) ∨ objs[j]? = some b := by
    intro j b hj
    rw [List.getElem?_append] at hj
    split_ifs at hj with hlt
    · exact Or.inr hj
    · obtain ⟨h0, heq⟩ := List.getElem?_eq_some_iff.mp hj
      rw [List.length_singleton] at h0
      refine Or.inl ⟨by omega, ?_⟩
      rw [List.getElem_singleton] at heq
      exact heq.symm
  have hapart : ∀ b ∈ objs, ∀ p ∈ o.ptrs, p ∉ b.ptrs := by
    intro b hb p hp hpb
    rcases hacts.fresh p hp with hold | hnew
    · exact Finset.notMem_empty p hold
    · exact hnew (hothers b hb p hpb).1
  refine ⟨⟨hacts.inv, ?_, ?_, fun b hb => ?_, fun j b n' hb hn => ?_, fun j l a b ha hb hjl => ?_, ?_⟩,
    fun j b hj p hp => (hothers b (List.mem_of_getElem? hj) p hp).2.2⟩
  · rw [hinv.nodes, List.map_append, List.map_singleton]
  · rw [List.length_append, List.length_append, hinv.length]
    rfl
  · rcases List.mem_append.mp hb with hb | hb
    · exact (hinv.owned b hb).mono fun p hp => (hothers b hb p hp).2.1
    · rw [List.mem_singleton.mp hb]
      exact ho
  · rcases hget j b hb with ⟨rfl, rfl⟩ | hj
    · rw [hinv.length, List.getElem?_concat_length] at hn
      exact Option.some.inj hn ▸ hrep
    · have hlt := (List.getElem?_eq_some_iff.mp hj).1
      rw [List.getElem?_append_left (by rw [← hinv.length]; exact hlt)] at hn
      exact (hinv.holds j b n' hj hn).keep
        (fun p hp => (hothers b (List.mem_of_getElem? hj) p hp).2.2) le_rfl
  · rcases hget j a ha with ⟨rfl, rfl⟩ | ha' <;> rcases hget l b hb with ⟨rfl, rfl⟩ | hb'
    · exact absurd rfl hjl
    · exact hapart b (List.mem_of_getElem? hb')
    · exact fun p hp hpo => hapart a (List.mem_of_getElem? ha') p hpo hp
    · exact hinv.apart j l a b ha' hb' hjl
  · rw [List.length_append]
    exact hinv.entries.trans (Nat.le_add_right _ _)

/-! ## Steps -/

/-- `dir_add` to a directory leaves all files alone. -/
theorem link (hinv : TmpfsInv T A s ns live objs k) (hsafe : A.SplitSafe) {i parent n : Nat}
    (hi : s.nodes[i]? = some (.dir, parent)) (hk : k < objs.length)
    (hrun : dirAdd T s.heap (nodeGet T s.heap.mem parent .fsData) n = .ok h') :
    ∃ live' objs', TmpfsInv T A ⟨h', s.nodes⟩ ns live' objs' (k + 1) ∧
      ∀ (j : Nat) b, objs[j]? = some b → b.kind = .file →
        ∀ p ∈ b.ptrs, KeepsPayload T s.heap.mem h'.mem p := by
  obtain ⟨bs, hheap⟩ := hinv.heap
  obtain ⟨o, ho, rfl, hkind, howned, hn, hdir⟩ := hinv.exists_dir hi
  rw [hdir.node.fsData] at hrun
  obtain ⟨live', q, hacts, ho', hdir'⟩ :=
    dirAdd_spec hheap hsafe howned hdir (hk.trans hinv.length_lt) hrun
  have hrep : Represents T h'.mem (k + 1) { o with buf := q } .dir := ⟨hkind, hdir'⟩
  obtain ⟨hinv', hkeep⟩ := hinv.update ho hacts ho' rfl rfl hrep (Nat.le_succ k) hk
  have hset : ns.set i .dir = ns := by
    obtain ⟨hlt, heq⟩ := List.getElem?_eq_some_iff.mp hn
    rw [← heq]
    exact List.set_getElem_self hlt
  rw [hset] at hinv'
  refine ⟨live', _, hinv', fun j b hj hfile => hkeep j b hj ?_⟩
  rintro rfl
  rw [ho] at hj
  cases hj
  rw [hkind] at hfile
  cases hfile

/-- `tmpfs_create` adds an empty directory. -/
theorem create (hinv : TmpfsInv T A s ns live objs k) (hsafe : A.SplitSafe) {name n : Nat}
    (hrun : tmpfsCreate T C s.heap name = .ok (n, h')) :
    ∃ live' o, TmpfsInv T A ⟨h', s.nodes ++ [(.dir, n)]⟩ (ns ++ [.dir]) live' (objs ++ [o]) k ∧
      ∀ (j : Nat) b, objs[j]? = some b → ∀ p ∈ b.ptrs, KeepsPayload T s.heap.mem h'.mem p := by
  obtain ⟨bs, hheap⟩ := hinv.heap
  obtain ⟨live', d, hacts, ho, hdir⟩ := tmpfsCreate_spec hheap hsafe hrun
  exact ⟨live', _, hinv.add hacts ho ⟨rfl, hdir.mono (Nat.zero_le k)⟩⟩

/-- The first two parts of `tmpfs_mkfile` add a file. -/
theorem file (hinv : TmpfsInv T A s ns live objs k) (hsafe : A.SplitSafe) {name f n : Nat}
    {data : FileData} {h₁ : Heap} (hlt : data.size < 2 ^ 32) (hsize : data.size + 7 < 2 ^ T.wordBits)
    (hfile : newFile T s.heap data = .ok (f, h₁))
    (hnode : newNode T h₁ name [(.flags, vfsFile), (.size, data.size), (.fsData, f), (.read, C.read),
      (.write, C.write)] = .ok (n, h')) :
    ∃ live' o, TmpfsInv T A ⟨h', s.nodes ++ [(.file, n)]⟩ (ns ++ [.file data.toFile]) live'
        (objs ++ [o]) k ∧
      ∀ (j : Nat) b, objs[j]? = some b → ∀ p ∈ b.ptrs, KeepsPayload T s.heap.mem h'.mem p := by
  obtain ⟨bs, hheap⟩ := hinv.heap
  obtain ⟨live₁, p, hacts₁, hpf, hholds⟩ := newFile_spec hheap hsafe hlt hsize hfile
  obtain ⟨bs₁, hheap₁⟩ := hacts₁.inv
  obtain ⟨hacts₂, ho, hobj⟩ := fileNode_spec hheap₁ hsafe hacts₁.owned hpf hholds hnode
  exact ⟨_, _, hinv.add (hacts₁.trans hacts₂) ho ⟨rfl, hobj⟩⟩

/-- A new node is entered into its parent's directory. -/
theorem link_new (hinv : TmpfsInv T A s ns live objs k) (hsafe : A.SplitSafe) {i parent n : Nat}
    {h₁ : Heap} {e : NodeKind × Nat} {ns₁ : List NodeSpec} {live₁ : Finset Nat}
    (hi : s.nodes[i]? = some (.dir, parent))
    (hinv₁ : TmpfsInv T A ⟨h₁, s.nodes ++ [e]⟩ ns₁ live₁ (objs ++ [o]) k)
    (hkeep₁ : ∀ (j : Nat) b, objs[j]? = some b → ∀ p ∈ b.ptrs, KeepsPayload T s.heap.mem h₁.mem p)
    (hrun : dirAdd T h₁ (nodeGet T h₁.mem parent .fsData) n = .ok h') :
    ∃ live' objs', TmpfsInv T A ⟨h', s.nodes ++ [e]⟩ ns₁ live' objs' (k + 1) ∧
      ∀ (j : Nat) b, objs[j]? = some b → b.kind = .file →
        ∀ p ∈ b.ptrs, KeepsPayload T s.heap.mem h'.mem p := by
  have hlast : k < (objs ++ [o]).length := by
    rw [List.length_append, List.length_singleton]
    exact Nat.lt_succ_of_le hinv.entries
  have hi₁ : (s.nodes ++ [e])[i]? = some (.dir, parent) := by
    rw [List.getElem?_append_left (List.getElem?_eq_some_iff.mp hi).1, hi]
  obtain ⟨live₂, objs₂, hinv₂, hkeep₂⟩ := hinv₁.link hsafe hi₁ hlast hrun
  refine ⟨live₂, objs₂, hinv₂, fun j b hj hfile p hp => (hkeep₁ j b hj p hp).trans ?_⟩
  refine hkeep₂ j b ?_ hfile p hp
  rw [List.getElem?_append_left (List.getElem?_eq_some_iff.mp hj).1, hj]

/-- A call keeps the invariant, answers as the abstract file system does, and leaves alone every file it
does not write to. -/
theorem step (hinv : TmpfsInv T A s ns live objs k) (hsafe : A.SplitSafe) {op : TmpfsOp} {out : TmpfsOut}
    (hnull : op.NullFits T) (hstep : TmpfsStep T C s (op, out) s') :
    ∃ live' objs' k', TmpfsInv T A s' (op.apply ns) live' objs' k' ∧ Answers ns op out ∧
      ∀ (j : Nat) b, objs[j]? = some b → b.kind = .file → ¬ op.Writes j →
        ∀ p ∈ b.ptrs, KeepsPayload T s.heap.mem s'.heap.mem p := by
  cases hstep with
  | create hrun =>
      obtain ⟨live', o, hinv', hkeep⟩ := hinv.create hsafe hrun
      exact ⟨live', _, k, hinv', .create, fun j b hj _ _ => hkeep j b hj⟩
  | mkdir hi hrun =>
      obtain ⟨⟨n, h₁⟩, hcreate, hrest⟩ := bind_eq_ok.mp hrun
      obtain ⟨h₂, hadd, hres⟩ := bind_eq_ok.mp hrest
      obtain ⟨rfl, rfl⟩ := Prod.mk.inj (Except.ok.inj hres)
      obtain ⟨live₁, o, hinv₁, hkeep₁⟩ := hinv.create hsafe hcreate
      obtain ⟨live₂, objs₂, hinv₂, hkeep₂⟩ := hinv.link_new hsafe hi hinv₁ hkeep₁ hadd
      exact ⟨live₂, objs₂, k + 1, hinv₂, .mkdir, fun j b hj hfile _ => hkeep₂ j b hj hfile⟩
  | @mkfile _ _ _ _ data _ hi htyped hrun =>
      obtain ⟨⟨f, h₁⟩, hfile, hrest⟩ := bind_eq_ok.mp hrun
      obtain ⟨⟨n, h₂⟩, hnode, hrest⟩ := bind_eq_ok.mp hrest
      obtain ⟨h₃, hadd, hres⟩ := bind_eq_ok.mp hrest
      obtain ⟨rfl, rfl⟩ := Prod.mk.inj (Except.ok.inj hres)
      obtain ⟨hlt, hsize⟩ : data.size < 2 ^ 32 ∧ data.size + 7 < 2 ^ T.wordBits := by
        cases data with
        | null size => exact ⟨htyped, hnull⟩
        | buffer bytes =>
            have hhdr : 20 ≤ hdrBytes T := by cases T <;> decide
            have hbuf := htyped.2
            exact ⟨htyped.1, show bytes.length + 7 < _ by omega⟩
      obtain ⟨live₁, o, hinv₁, hkeep₁⟩ := hinv.file hsafe hlt hsize hfile hnode
      obtain ⟨live₂, objs₂, hinv₂, hkeep₂⟩ := hinv.link_new hsafe hi hinv₁ hkeep₁ hadd
      exact ⟨live₂, objs₂, k + 1, hinv₂, .mkfile, fun j b hj hfile _ => hkeep₂ j b hj hfile⟩
  | @write i _ off _ buf _ hi htyped hrun =>
      obtain ⟨bs, hheap⟩ := hinv.heap
      obtain ⟨o, f, ho, rfl, hkind, howned, hn, hobj⟩ := hinv.exists_file hi
      have hoff := show _ < 2 ^ 32 - 8 from htyped
      obtain ⟨rfl, live', q, hacts, ho', hobj'⟩ :=
        tmpfsWrite_spec hheap hsafe howned hobj (by omega) hrun
      have hrep : Represents T _ k { o with buf := q } (.file (f.write off buf)) := ⟨hkind, hobj'⟩
      obtain ⟨hinv', hkeep⟩ := hinv.update ho hacts ho' rfl rfl hrep le_rfl hinv.entries
      have happly : (TmpfsOp.write i off buf).apply ns = ns.set i (.file (f.write off buf)) := by
        simp only [TmpfsOp.apply, hn]
      rw [← happly] at hinv'
      exact ⟨live', _, k, hinv', .write, fun j b hj _ hne => hkeep j b hj fun heq => hne heq.symm⟩
  | read hi htyped =>
      obtain ⟨bs, hheap⟩ := hinv.heap
      obtain ⟨o, f, ho, rfl, hkind, howned, hn, hobj⟩ := hinv.exists_file hi
      exact ⟨live, objs, k, hinv, .read hn (tmpfsRead_spec hheap howned hobj htyped.2),
        fun j b _ _ _ p _ => .refl _ p⟩

/-- The empty file system on any heap. -/
theorem start {s : HeapRun} {bs : List Block} (h : HeapInv T A s bs) :
    TmpfsInv T A ⟨s.heap, []⟩ [] s.live [] 0 where
  heap := ⟨bs, h⟩
  nodes := rfl
  length := rfl
  owned _ ho := absurd ho List.not_mem_nil
  holds _ _ _ ho := absurd ho (by simp)
  apart _ _ _ _ ha := absurd ha (by simp)
  entries := le_rfl

/-- A run of calls keeps the invariant. -/
theorem run (hsafe : A.SplitSafe) {es : List (TmpfsOp × TmpfsOut)} (hinv : TmpfsInv T A s ns live objs k)
    (hrun : Run (TmpfsStep T C) s es s') (hnull : ∀ e ∈ es, e.1.NullFits T) :
    ∃ live' objs' k', TmpfsInv T A s' ((es.map Prod.fst).foldl TmpfsOp.apply ns) live' objs' k' := by
  induction hrun generalizing ns live objs k with
  | nil s => exact ⟨live, objs, k, hinv⟩
  | cons hstep _ ih =>
      obtain ⟨live', objs', k', hinv', -⟩ := hinv.step hsafe (hnull _ List.mem_cons_self) hstep
      exact ih hinv' fun e he => hnull e (List.mem_cons_of_mem _ he)

end TmpfsInv

/-! ## A run -/

/-- On a blank heap a directory and a file in it can be made. -/
theorem Blank.exists_run {v : UInt8} {data : FileData} {s₀ : HeapRun} (hb : Blank T A s₀.heap s₀.live 4096 v)
    (hsafe : A.SplitSafe) (C : TmpfsCode) (h0 : data.size ≠ 0) (hle : data.size ≤ 400) :
    ∃ s node, Run (TmpfsStep T C) ⟨s₀.heap, []⟩ [(.create 0, .made), (.mkfile 0 0 data, .made)] s ∧
      s.nodes[1]? = some (.file, node) ∧
      ∀ size, data = .null size → tmpfsRead T s.heap.mem node 0 1 = (1, [v]) := by
  have hword := T.two_pow_32_le
  obtain ⟨r, h₁, live₁, hcreate, hb₁⟩ := hb.create (C := C) hsafe (by omega) 0
  obtain ⟨bs₀, hinv₀⟩ := hb.heapInv
  obtain ⟨bs₁, hinv₁⟩ := hb₁.heapInv
  obtain ⟨live', d, hacts, ho, hd⟩ := tmpfsCreate_spec hinv₀ hsafe hcreate
  obtain ⟨bs', hinv'⟩ := hacts.inv
  obtain rfl := hinv₁.live_eq hinv'
  obtain ⟨n, h₂, hmk, hread⟩ := hb₁.mkfile (C := C) hsafe (by omega) ho rfl hd h0 hle 0
  have htyped : (TmpfsOp.mkfile 0 0 data).Typed T := by
    cases data with
    | null size => exact lt_of_le_of_lt hle (by decide)
    | buffer bytes =>
        have hhdr : hdrBytes T ≤ 32 := by cases T <;> decide
        have hlen : bytes.length ≤ 400 := hle
        exact ⟨by omega, by omega⟩
  exact ⟨⟨h₂, [(.dir, r), (.file, n)]⟩, n, .cons (.create hcreate) (.single (.mkfile rfl htyped hmk)),
    rfl, hread⟩

/-- Memory in which the kernel heap's arena, its first header apart, is filled with one byte. -/
def filledArena (T : Target) (v : UInt8) : Mem := fun x =>
  if (kernelArena T).start + hdrBytes T ≤ x ∧ x < (kernelArena T).start + (kernelArena T).size then v
  else 0

/-- The kernel heap right after boot. -/
theorem blank_kernelArena (T : Target) (v : UInt8) {N : Nat} (hN : N ≤ 8192) :
    Blank T (kernelArena T) (heapBoot T (kernelArena T) (filledArena T v)).heap ∅ N v := by
  have hb := Blank.boot (kernelArena T) (m := filledArena T v) fun x h₁ h₂ => if_pos ⟨h₁, h₂⟩
  refine hb.mono (hN.trans ?_)
  cases T <;> decide

/-! ## Refinement -/

/-- The bytes of the file behind a node. -/
def fileContents (T : Target) (m : Mem) (node : Nat) : List UInt8 :=
  m.bytes (fileGet T m (nodeGet T m node .fsData) .data)
    (fileGet T m (nodeGet T m node .fsData) .size)

/-- The node and the record behind it show the file. -/
structure ShowsFile (T : Target) (m : Mem) (node : Nat) (f : ByteFile) : Prop where
  /-- The size in the record. -/
  size : fileGet T m (nodeGet T m node .fsData) .size = f.size
  /-- The size in the node. -/
  nodeSize : nodeGet T m node .size = f.size
  /-- Every byte that was stored is there. -/
  stored : ∀ i v, f.stored i = some v → (fileContents T m node)[i]? = some v

/-- Every file of the state shows the byte file of the same number. -/
def ShowsFiles (T : Target) (s : TmpfsRun) (ns : List NodeSpec) : Prop :=
  ∀ (i : Nat) node, s.nodes[i]? = some (.file, node) →
    ∃ f, ns[i]? = some (.file f) ∧ ShowsFile T s.heap.mem node f

/-- The call does to the files, and returns, what it does to the byte files. -/
structure StepRefines (T : Target) (s : TmpfsRun) (ns : List NodeSpec) (op : TmpfsOp) (out : TmpfsOut)
    (s' : TmpfsRun) : Prop where
  /-- What is returned. -/
  answers : Answers ns op out
  /-- The files afterwards. -/
  after : ShowsFiles T s' (op.apply ns)
  /-- Files that the call does not write to keep all their bytes, whether stored or not. -/
  others : ∀ (i : Nat) node, s.nodes[i]? = some (.file, node) → ¬ op.Writes i →
    s'.nodes[i]? = some (.file, node) ∧
      fileContents T s'.heap.mem node = fileContents T s.heap.mem node

/-- The contents of a file are the bytes of its buffer. -/
theorem FileObj.contents_eq {f : ByteFile} (hf : FileObj T m o f) :
    fileContents T m o.node = m.bytes o.buf f.size := by
  rw [fileContents, hf.node.fsData, hf.file.data, hf.file.size]

/-- The object of a file shows it. -/
theorem FileObj.shows {f : ByteFile} (hf : FileObj T m o f) : ShowsFile T m o.node f where
  size := by rw [hf.node.fsData, hf.file.size]
  nodeSize := hf.nodeSize
  stored i v hv := by
    have hi : i < f.size := by
      by_contra hle
      rw [f.inside i (by omega)] at hv
      cases hv
    have hlen : i < (m.bytes o.buf f.size).length := by
      rw [Mem.length_bytes]
      exact hi
    rw [hf.contents_eq, List.getElem?_eq_getElem hlen, Mem.getElem_bytes, hf.file.held i v hv]

/-- A file whose allocations are kept has the same contents. -/
theorem FileObj.contents_keep {f : ByteFile} (hf : FileObj T m o f)
    (hkeep : ∀ p ∈ o.ptrs, KeepsPayload T m m' p) :
    fileContents T m' o.node = fileContents T m o.node := by
  rw [(hf.keep hkeep).contents_eq, hf.contents_eq]
  refine List.ext_getElem (by rw [Mem.length_bytes, Mem.length_bytes]) fun i h₁ h₂ => ?_
  rw [Mem.length_bytes] at h₁
  have h0 : o.buf ≠ 0 := fun h0 => by
    rw [hf.file.null h0] at h₁
    exact Nat.not_lt_zero i h₁
  have hfits := hf.file.fits h0
  rw [Mem.getElem_bytes, Mem.getElem_bytes]
  exact (hkeep _ (TmpObj.buf_mem_ptrs h0)).bytes _ (by omega) (by omega)

theorem TmpfsInv.showsFiles (hinv : TmpfsInv T A s ns live objs k) : ShowsFiles T s ns := by
  intro i node hi
  obtain ⟨o, f, -, rfl, -, -, hn, hobj⟩ := hinv.exists_file hi
  exact ⟨f, hn, hobj.shows⟩

/-- Nodes stay where they are. -/
theorem TmpfsStep.nodes_keep {e : TmpfsOp × TmpfsOut} (hstep : TmpfsStep T C s e s') {i : Nat}
    {x : NodeKind × Nat} (hi : s.nodes[i]? = some x) : s'.nodes[i]? = some x := by
  have hlt := (List.getElem?_eq_some_iff.mp hi).1
  cases hstep with
  | create _ => exact (List.getElem?_append_left hlt).trans hi
  | mkdir _ _ => exact (List.getElem?_append_left hlt).trans hi
  | mkfile _ _ _ => exact (List.getElem?_append_left hlt).trans hi
  | write _ _ _ => exact hi
  | read _ _ => exact hi

theorem TmpfsInv.stepRefines (hinv : TmpfsInv T A s ns live objs k) (hsafe : A.SplitSafe) {op : TmpfsOp}
    {out : TmpfsOut} (hnull : op.NullFits T) (hstep : TmpfsStep T C s (op, out) s') :
    StepRefines T s ns op out s' := by
  obtain ⟨live', objs', k', hinv', hanswers, hkeep⟩ := hinv.step hsafe hnull hstep
  refine ⟨hanswers, hinv'.showsFiles, fun i node hi hnot => ⟨hstep.nodes_keep hi, ?_⟩⟩
  obtain ⟨o, f, ho, rfl, hkind, -, -, hobj⟩ := hinv.exists_file hi
  exact hobj.contents_keep (hkeep i o ho hkind hnot)

/-- Files refine byte files over whole runs: in every state that calls of tmpfs reach, from any reachable
heap, every file shows what was stored in it, every further call that returns does to all files what it
does to the byte files, and a write returns unless it exhausts the heap. -/
theorem refines_of_run (A : Arena T) (hsafe : A.SplitSafe) (m : Mem) (s₀ : HeapRun)
    (hs₀ : Reachable (HeapStep T) (heapBoot T A m) s₀) (C : TmpfsCode)
    (es : List (TmpfsOp × TmpfsOut)) (s : TmpfsRun) (hrun : Run (TmpfsStep T C) ⟨s₀.heap, []⟩ es s)
    (hnull : ∀ e ∈ es, e.1.NullFits T) :
    ShowsFiles T s (specAfter (es.map Prod.fst)) ∧
      (∀ op out s', op.NullFits T → TmpfsStep T C s (op, out) s' →
        StepRefines T s (specAfter (es.map Prod.fst)) op out s') ∧
      ∀ (i : Nat) node off buf, s.nodes[i]? = some (.file, node) →
        (TmpfsOp.write i off buf).Typed T → ReturnsUnlessFull (tmpfsWrite T s.heap node off buf) := by
  obtain ⟨bs, hbs⟩ := heapInv_of_reachable hsafe hs₀
  obtain ⟨live, objs, k, hinv⟩ := (TmpfsInv.start hbs).run hsafe hrun hnull
  refine ⟨hinv.showsFiles, fun op out s' hfits hstep => hinv.stepRefines hsafe hfits hstep,
    fun i node off buf hi htyped => ?_⟩
  obtain ⟨bs', hheap⟩ := hinv.heap
  obtain ⟨o, f, -, rfl, -, howned, -, hobj⟩ := hinv.exists_file hi
  have hoff : off + buf.length < 2 ^ 32 - 8 := htyped
  exact tmpfsWrite_returns hheap hsafe howned hobj (by omega)

/-- On the kernel heap right after boot: a directory, and in it a file of three bytes. -/
theorem refines_kernelArena : ∃ s node, s.nodes[1]? = some (.file, node) ∧
    ShowsFiles .x86 s (specAfter [.create 0, .mkfile 0 0 (.buffer [65, 66, 67])]) ∧
    ReturnsUnlessFull (tmpfsWrite .x86 s.heap node 2 [68, 69]) := by
  obtain ⟨s, node, hrun, hnode, -⟩ := Blank.exists_run (blank_kernelArena .x86 0 (by decide))
    (kernelArena_splitSafe .x86) ⟨0, 0, 0, 0⟩ (show (FileData.buffer [65, 66, 67]).size ≠ 0 by decide)
    (by decide)
  have href := refines_of_run (kernelArena .x86) (kernelArena_splitSafe .x86) _ _ (.refl _) _ _ s hrun
    (by simp [TmpfsOp.NullFits])
  exact ⟨s, node, hnode, href.1, href.2.2 1 node 2 [68, 69] hnode (show 2 + 2 < 2 ^ 32 - 8 by decide)⟩

end Aerogel
