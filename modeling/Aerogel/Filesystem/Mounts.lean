import Aerogel.Filesystem.Vfs

/-! # Mounted file systems

What a mount table is for: a path belongs to the file system mounted at the longest prefix of it, and
is looked up there. `resolve` never reads the table, it starts at the root file system whatever the
path; so the files of a mounted volume are found exactly when the directories of the root file system
already lead to it. -/

namespace Aerogel

variable {Node : Type}

/-! ## Sequences of mounts -/

/-- Mount one file system after the other, `none` when a call fails. -/
def mountAll (v : Vfs Node) : List (MountEntry Node) → Option (Vfs Node)
  | [] => some v
  | e :: es =>
    let (v', r) := vfsMount v e.path e.root
    if r = 0 then mountAll v' es else none

/-- A sequence of mounts as `kmain` makes them: `"/"` first, then other places. -/
structure MountSeq (Node : Type) where
  /-- What is mounted at `"/"`. -/
  root : Node
  /-- The mounts after it. -/
  others : List (MountEntry Node)
  /-- They fit the table. -/
  length_lt : others.length < maxMounts
  /-- Paths are absolute. -/
  absolute : ∀ e ∈ others, e.path.head? = some slash
  /-- Paths are C strings. -/
  zero_notMem : ∀ e ∈ others, 0 ∉ e.path
  /-- Paths fit their field. -/
  path_length_lt : ∀ e ∈ others, e.path.length < 255
  /-- Paths do not end in `'/'`. -/
  no_trailing : ∀ e ∈ others, e.path.getLast? ≠ some slash
  /-- No path is used twice. -/
  nodup : (others.map MountEntry.path).Nodup

namespace MountSeq

/-- All mounts of the sequence. -/
def entries (ms : MountSeq Node) : List (MountEntry Node) := ⟨[slash], ms.root⟩ :: ms.others

/-- The mount table after the sequence. -/
def table (ms : MountSeq Node) : Vfs Node := ⟨ms.entries, some ms.root⟩

/-- `e` is the mount that a path belongs to: the longest mounted path that is a prefix of it, component
by component. -/
def Longest (ms : MountSeq Node) (q : List UInt8) (e : MountEntry Node) : Prop :=
  e ∈ ms.entries ∧ components e.path <+: components q ∧
    ∀ e' ∈ ms.entries, components e'.path <+: components q →
      (components e'.path).length ≤ (components e.path).length

end MountSeq

/-- Further mounts only add to the table once there is a root. -/
theorem mountAll_of_root {v : Vfs Node} {root : Node} {es : List (MountEntry Node)}
    (hroot : v.vfsRoot = some root) (hfit : v.mounts.length + es.length ≤ maxMounts)
    (hlen : ∀ e ∈ es, e.path.length < 255) :
    mountAll v es = some ⟨v.mounts ++ es, some root⟩ := by
  induction es generalizing v with
  | nil => rw [List.append_nil, ← hroot, mountAll]
  | cons e es ih =>
      rw [List.length_cons] at hfit
      rw [List.forall_mem_cons] at hlen
      have hstep : vfsMount v e.path e.root = (⟨v.mounts ++ [e], some root⟩, 0) := by
        rw [vfsMount, if_neg (by omega), hroot, List.take_of_length_le (by omega)]
        rfl
      rw [mountAll, hstep]
      simp only [if_true]
      rw [ih rfl _ hlen.2, List.append_assoc, List.singleton_append]
      rw [List.length_append, List.length_singleton]
      omega

/-- Every call of the sequence succeeds and the table holds its entries. -/
theorem MountSeq.mountAll_eq (ms : MountSeq Node) :
    mountAll vfsInit ms.entries = some ms.table := by
  have hfirst : vfsMount (vfsInit : Vfs Node) [slash] ms.root =
      (⟨[⟨[slash], ms.root⟩], some ms.root⟩, 0) := rfl
  have hlen := ms.length_lt
  rw [entries, mountAll, hfirst]
  simp only [if_true]
  apply mountAll_of_root rfl _ ms.path_length_lt
  rw [List.length_singleton]
  omega

/-! ## Reachability -/

/-- Mounted file systems are reachable: after the mounts, opening a path gives what a walk along its
remaining components finds from the root of the file system the path belongs to. The path may be
anywhere in memory that does not overlap the buffer of `resolve`. -/
def MountsReachable (ops : NodeOps Node) (ms : MountSeq Node) : Prop :=
  ∀ v, mountAll vfsInit ms.entries = some v →
  ∀ (q : List UInt8) (e : MountEntry Node), q.head? = some slash → q.length < 255 →
    ms.Longest q e →
  ∀ (m : Mem) (path buf : Nat) (flags : UInt32), path ≠ 0 → CStr m path q →
    path + q.length < buf ∨ buf + 256 ≤ path →
    ∃ fuel₀, ∀ fuel, fuel₀ ≤ fuel →
      (vfsOpen ops v m path buf flags fuel).map Opened.node =
        .ok (walk ops e.root ((components q).drop (components e.path).length))

/-- Memory that holds one string, at address 1. -/
def strMem (s : List UInt8) : Mem := fun x => s.getD (x - 1) 0

/-- The string in `strMem`. -/
theorem cStr_strMem {s : List UInt8} (hs : 0 ∉ s) : CStr (strMem s) 1 s := by
  -- generalise over what precedes the string
  have hgen : ∀ w s : List UInt8, 0 ∉ s → CStr (strMem (w ++ s)) (w.length + 1) s := by
    intro w s hs
    induction s generalizing w with
    | nil => simp [CStr, strMem]
    | cons c s ih =>
        rw [List.mem_cons, not_or] at hs
        refine ⟨by simp [strMem], Ne.symm hs.1, ?_⟩
        have h := ih (w ++ [c]) hs.2
        rwa [List.append_assoc, List.singleton_append, List.length_append,
          List.length_singleton] at h
  exact hgen [] s hs

/-- A path in the mount sequence: absolute, short and without NUL. -/
theorem MountSeq.mem_entries (ms : MountSeq Node) {e : MountEntry Node} (he : e ∈ ms.entries) :
    e.path.head? = some slash ∧ 0 ∉ e.path ∧ e.path.length < 255 := by
  obtain rfl | he := List.mem_cons.mp he
  · exact ⟨rfl, show (0 : UInt8) ∉ [slash] by decide, show 1 < 255 by decide⟩
  · exact ⟨ms.absolute e he, ms.zero_notMem e he, ms.path_length_lt e he⟩

/-- A mounted path belongs to its own mount. -/
theorem MountSeq.longest_self (ms : MountSeq Node) {e : MountEntry Node} (he : e ∈ ms.entries) :
    ms.Longest e.path e :=
  ⟨he, List.prefix_rfl, fun _ _ h => h.length_le⟩

/-- Opening an absolute path after a sequence of mounts walks from the first of them. -/
theorem MountSeq.vfsOpen_table (ms : MountSeq Node) {ops : NodeOps Node} {m : Mem}
    {path buf fuel : Nat} {flags : UInt32} {q : List UInt8} (hq : q.head? = some slash)
    (hlen : q.length < 255) (hpath : path ≠ 0) (hstr : CStr m path q)
    (hdisj : path + q.length < buf ∨ buf + 256 ≤ path) (hfuel : q.length < fuel) :
    (vfsOpen ops ms.table m path buf flags fuel).map Opened.node =
      .ok (walk ops ms.root (components q)) := by
  obtain ⟨s, rfl⟩ := List.head?_eq_some_iff.mp hq
  rw [List.length_cons] at hlen hdisj hfuel
  exact vfsOpen_eq rfl hpath hstr (by omega) (by omega) hfuel

/-- When mounts are reachable, the directories of the root file system lead to every mounted root. -/
theorem MountsReachable.walk_eq {ops : NodeOps Node} {ms : MountSeq Node}
    (h : MountsReachable ops ms) {e : MountEntry Node} (he : e ∈ ms.entries) :
    walk ops ms.root (components e.path) = some e.root := by
  obtain ⟨habs, hnul, hlen⟩ := ms.mem_entries he
  have hstr := cStr_strMem hnul
  have hdisj : 1 + e.path.length < 256 ∨ 256 + 256 ≤ 1 := by omega
  obtain ⟨fuel₀, hopen⟩ := h ms.table ms.mountAll_eq e.path e habs hlen (ms.longest_self he)
    (strMem e.path) 1 256 0 one_ne_zero hstr hdisj
  -- with enough fuel for both, the two descriptions of the result meet
  have h₁ := hopen (max fuel₀ 256) (le_max_left ..)
  rw [List.drop_length, walk_nil, ms.vfsOpen_table habs hlen one_ne_zero hstr hdisj (by omega),
    Except.ok.injEq] at h₁
  exact h₁

/-- Mounted file systems are reachable exactly when walking along each mounted path from the root file
system, through its own directories, leads to what is mounted there. -/
theorem mountsReachable_iff (ops : NodeOps Node) (ms : MountSeq Node) :
    MountsReachable ops ms ↔
      ∀ e ∈ ms.entries, walk ops ms.root (components e.path) = some e.root := by
  constructor
  · intro h e he
    exact h.walk_eq he
  · intro h v hv q e hq hlen hlongest m path buf flags hpath hstr hdisj
    rw [ms.mountAll_eq, Option.some.injEq] at hv
    subst hv
    obtain ⟨rest, hrest⟩ := hlongest.2.1
    refine ⟨256, fun fuel hfuel => ?_⟩
    rw [ms.vfsOpen_table hq hlen hpath hstr hdisj (by omega), ← hrest, List.drop_left, walk_append,
      h e hlongest.1, Option.bind_some]

/-! ## The mounts of `kmain` -/

/-- Nodes of `tmpfs` and of a loaded FAT32 volume: files without `finddir`, and directories whose
`finddir` takes the first entry of the given name. -/
inductive TreeNode
  /-- A file. -/
  | file (name : List UInt8)
  /-- A directory. -/
  | dir (name : List UInt8) (entries : List TreeNode)

namespace TreeNode

/-- The `name` field. -/
def name : TreeNode → List UInt8
  | file name => name
  | dir name _ => name

/-- `tmpfs_finddir` and `fat32_finddir`. Neither file system sets `open`. -/
def ops : NodeOps TreeNode where
  finddir
    | file _ => none
    | dir _ entries => some fun name => entries.find? fun e => e.name = name
  hasOpen _ := false

end TreeNode

/-- The root file system `kmain` builds. -/
def kmainRoot : TreeNode :=
  .dir [114, 111, 111, 116] -- "root"
    [.dir [100, 101, 118] [], -- "dev"
      .dir [116, 109, 112] [], -- "tmp"
      .dir [101, 116, 99] [], -- "etc"
      .dir [98, 111, 111, 116] [], -- "boot"
      .file [118, 101, 114, 115, 105, 111, 110]] -- "version"

/-- The path `"/data"`. -/
def dataPath : List UInt8 := [47, 100, 97, 116, 97]

/-- The root node of a FAT32 volume, as `fat32_mount` names it. -/
def fatRoot (entries : List TreeNode) : TreeNode := .dir [102, 97, 116, 51, 50] entries

/-- The mounts `kmain` makes when there is a disk with a FAT32 volume. -/
def kmainMounts (entries : List TreeNode) : MountSeq TreeNode where
  root := kmainRoot
  others := [⟨dataPath, fatRoot entries⟩]
  length_lt := show 1 < 16 by decide
  absolute := by simp [dataPath, slash]
  zero_notMem := by simp [dataPath]
  path_length_lt := by simp [dataPath]
  no_trailing := by simp [dataPath, slash]
  nodup := by simp

/-- The volume that `kmain` mounts at `"/data"` is not reachable: the root file system has no directory
of that name. -/
theorem kmainMounts_not_reachable : ¬ MountsReachable TreeNode.ops (kmainMounts []) := by
  intro h
  have hwalk := h.walk_eq (List.mem_cons_of_mem _ (List.mem_singleton_self _))
  have hnone : walk TreeNode.ops kmainRoot (components dataPath) = none := by
    rfl
  exact absurd (hnone.symm.trans hwalk) (Option.some_ne_none _).symm

end Aerogel
