import Aerogel.Filesystem.FatChains
import Mathlib.Data.List.TakeWhile

/-! # Blocks that `load_dir` leaves on the heap

A directory that was loaded should own its array of entries, a node for each of them and what the node points
to. `load_dir` forgets the copies of long-name fragments that are not followed by an entry they belong to, and
the node that `make_dir_node` returns for a directory. `Accounts` says which blocks are live at any point of
the scan; in the end nothing is left over exactly when the entries of the directory are `Tidy`
(`loadDir_noLeak_iff`). -/

namespace Aerogel

namespace Blocks

/-- Blocks have different numbers, and all were allocated. -/
structure Wf (h : Blocks) : Prop where
  /-- They were allocated. -/
  lt : ∀ p ∈ h.live, p.1 < h.next
  /-- Their numbers are different. -/
  nodup : (h.live.map Prod.fst).Nodup

/-- The live blocks are those of the list. -/
structure Holds (h : Blocks) (L : List (Nat × BlockFor)) : Prop where
  /-- The heap is in order. -/
  wf : h.Wf
  /-- The blocks, in any order. -/
  perm : h.live.Perm L

variable {h : Blocks} {L L' : List (Nat × BlockFor)}

theorem Holds.of_perm (hL : h.Holds L) (hp : L.Perm L') : h.Holds L' := ⟨hL.wf, hL.perm.trans hp⟩

theorem Holds.kmalloc (hL : h.Holds L) (what : BlockFor) :
    (h.kmalloc what).2.Holds ((h.next, what) :: L) where
  wf := by
    refine ⟨fun p hp => ?_, ?_⟩
    · rcases List.mem_append.mp hp with hp | hp
      · exact (hL.wf.lt p hp).trans (Nat.lt_succ_self _)
      · obtain rfl := List.mem_singleton.mp hp
        exact Nat.lt_succ_self _
    · have hnew : h.next ∉ h.live.map Prod.fst := fun hmem => by
        obtain ⟨p, hp, heq⟩ := List.mem_map.mp hmem
        exact absurd (hL.wf.lt p hp) (by omega)
      change ((h.live ++ [(h.next, what)]).map Prod.fst).Nodup
      rw [List.map_append]
      exact (List.nodup_append_comm.mp (List.nodup_cons.mpr ⟨hnew, hL.wf.nodup⟩))
  perm := (List.perm_append_singleton _ _).trans (hL.perm.cons _)

theorem Holds.kfree {b : Nat} {what : BlockFor} (hL : h.Holds ((b, what) :: L)) : (h.kfree b).Holds L where
  wf := by
    refine ⟨fun p hp => hL.wf.lt p (List.mem_of_mem_filter hp), ?_⟩
    exact hL.wf.nodup.sublist ((List.filter_sublist).map _)
  perm := by
    have hnodup : (((b, what) :: L).map Prod.fst).Nodup := (hL.perm.map _).nodup_iff.mp hL.wf.nodup
    have hrest : ∀ p ∈ L, decide (p.1 ≠ b) = true := fun p hp => by
      refine decide_eq_true fun heq => (List.nodup_cons.mp hnodup).1 ?_
      exact List.mem_map.mpr ⟨p, hp, heq⟩
    have hfilter := hL.perm.filter fun p => decide (p.1 ≠ b)
    rwa [List.filter_cons_of_neg (by simp), List.filter_eq_self.mpr hrest] at hfilter

/-- Freeing the copies of fragments. -/
theorem Holds.kfreeAll (ls : List (Nat × Dirent))
    (hL : h.Holds ((ls.map fun l => (l.1, BlockFor.lfn)) ++ L)) :
    (ls.foldl (fun heap l => heap.kfree l.1) h).Holds L := by
  induction ls generalizing h with
  | nil => exact hL
  | cons l ls ih => exact ih hL.kfree

/-- `krealloc` replaces a block by another one. -/
theorem Holds.krealloc {b : Option Nat} {what : BlockFor}
    (hL : h.Holds ((b.map fun b => (b, what)).toList ++ L)) (what' : BlockFor) :
    (h.krealloc b what').2.Holds (((h.krealloc b what').1, what') :: L) := by
  cases b with
  | none => exact hL.kmalloc what'
  | some b => exact Holds.kmalloc hL.kfree what'

end Blocks

/-! ## Kinds of entries -/

namespace Dirent

/-- `load_dir` takes the entry for a fragment of a long name. -/
def IsLfn (de : Dirent) : Prop := de.mem 0 ≠ 0xE5 ∧ de.field .attr = fatAttrLfn

/-- `load_dir` makes a node for the entry. -/
def IsNode (de : Dirent) : Prop :=
  de.mem 0 ≠ 0xE5 ∧ de.field .attr ≠ fatAttrLfn ∧ de.field .attr &&& fatAttrVolid = 0 ∧ de.mem 0 ≠ 0x2E

/-- The entry is a directory. -/
def IsDir (de : Dirent) : Prop := de.field .attr &&& fatAttrDir ≠ 0

instance (de : Dirent) : Decidable de.IsLfn := inferInstanceAs (Decidable (_ ∧ _))

instance (de : Dirent) : Decidable de.IsNode := inferInstanceAs (Decidable (_ ∧ _ ∧ _ ∧ _))

instance (de : Dirent) : Decidable de.IsDir := inferInstanceAs (Decidable (_ ≠ _))

end Dirent

/-- What the body of the inner loop does with an entry that is no end mark: fragments are forgotten, one more
is kept, or a node is made. -/
theorem step_cases (sc : DirScan) {de : Dirent} (hend : de.mem 0 ≠ 0) :
    (¬ de.IsLfn ∧ ¬ de.IsNode ∧ sc.step de = some { sc with lfns := [] }) ∨
    (de.IsLfn ∧ ¬ de.IsNode ∧ sc.step de = some
      (if sc.lfns.length < 20 then
        { sc with lfns := sc.lfns ++ [(sc.heap.next, de)], heap := (sc.heap.kmalloc .lfn).2 } else sc)) ∨
    (¬ de.IsLfn ∧ de.IsNode ∧
      sc.step de = some ((sc.makeNode de).2.addNode (sc.makeNode de).1)) := by
  change de 0 ≠ 0 at hend
  rw [DirScan.step, if_neg hend]
  by_cases hdel : de 0 = 0xE5
  · exact Or.inl ⟨fun h => h.1 hdel, fun h => h.1 hdel, by rw [if_pos hdel]⟩
  rw [if_neg hdel]
  by_cases hlfn : de.field .attr = fatAttrLfn
  · refine Or.inr (Or.inl ⟨⟨hdel, hlfn⟩, fun h => h.2.1 hlfn, ?_⟩)
    rw [if_pos hlfn]
    split_ifs <;> rfl
  rw [if_neg hlfn]
  by_cases hvolid : de.field .attr &&& fatAttrVolid ≠ 0
  · exact Or.inl ⟨fun h => hlfn h.2, fun h => hvolid h.2.2.1, by rw [if_pos hvolid]⟩
  rw [if_neg hvolid]
  by_cases hdot : de 0 = 0x2E
  · exact Or.inl ⟨fun h => hlfn h.2, fun h => h.2.2.2 hdot, by rw [if_pos hdot]⟩
  · exact Or.inr (Or.inr ⟨fun h => hlfn h.2, ⟨hdel, hlfn, not_not.mp hvolid, hdot⟩, by rw [if_neg hdot]⟩)

/-! ## Accounts -/

/-- The block that `fs_data` points to. -/
def FsData.blockFor : FsData → BlockFor
  | .file _ => .file
  | .dir _ => .dir

namespace DirScan

/-- The block of the array of entries. -/
def arrayBlocks (sc : DirScan) : List (Nat × BlockFor) :=
  (sc.entriesBlock.map fun b => (b, BlockFor.entries sc.cap)).toList

/-- The blocks of the nodes. -/
def nodeBlocks (sc : DirScan) : List (Nat × BlockFor) := sc.entries.map fun e => (e.block, .node)

/-- The copies of fragments. -/
def lfnBlocks (sc : DirScan) : List (Nat × BlockFor) := sc.lfns.map fun l => (l.1, .lfn)

end DirScan

/-- The live blocks during a scan: those that were there before, the array, the nodes and their data, the
copies of fragments, and what was forgotten. -/
structure Accounts (old : List (Nat × BlockFor)) (sc : DirScan) (data leaked : List (Nat × BlockFor)) :
    Prop where
  /-- These blocks are live. -/
  holds : sc.heap.Holds (old ++ (sc.arrayBlocks ++ (sc.nodeBlocks ++ (data ++ (sc.lfnBlocks ++ leaked)))))
  /-- Every node has its data. -/
  data_eq : data.map Prod.snd = sc.entries.map fun e => e.fsData.blockFor
  /-- There is an array if there are entries. -/
  array : sc.entriesBlock = none ↔ sc.entries = []
  /-- It has no room before. -/
  cap_eq : sc.entriesBlock = none → sc.cap = 0

namespace Accounts

variable {old data leaked : List (Nat × BlockFor)} {sc : DirScan} {de : Dirent}

/-- Fragments are forgotten, and their copies with them. -/
theorem forget (h : Accounts old sc data leaked) :
    Accounts old { sc with lfns := [] } data (sc.lfnBlocks ++ leaked) :=
  ⟨h.holds, h.data_eq, h.array, h.cap_eq⟩

/-- One more fragment. -/
theorem keep (h : Accounts old sc data leaked) (de : Dirent) :
    Accounts old { sc with lfns := sc.lfns ++ [(sc.heap.next, de)], heap := (sc.heap.kmalloc .lfn).2 } data
      leaked where
  holds := by
    refine (h.holds.kmalloc .lfn).of_perm (List.perm_iff_count.mpr fun p => ?_)
    simp only [DirScan.arrayBlocks, DirScan.nodeBlocks, DirScan.lfnBlocks, List.map_append, List.map_cons,
      List.map_nil, List.count_append, List.count_cons, List.count_nil]
    omega
  data_eq := h.data_eq
  array := h.array
  cap_eq := h.cap_eq

/-- A node with its data, for which the copies of fragments are freed. For a directory one more block is
allocated, which nothing will point to. -/
theorem makeNode_holds {L : List (Nat × BlockFor)} (hL : sc.heap.Holds (sc.lfnBlocks ++ L)) (de : Dirent) :
    ∃ b extra, (extra = [] ↔ ¬ de.IsDir) ∧ (sc.makeNode de).2.heap.Holds
      ((b, (sc.makeNode de).1.fsData.blockFor) :: ((sc.makeNode de).1.block, .node) :: (extra ++ L)) := by
  -- the copies are freed whether there are any or not
  have hfree : (if sc.lfns ≠ [] then
      (parseLfn (sc.lfns.map Prod.snd),
        sc.lfns.foldl (fun heap l => heap.kfree l.1) (sc.heap.kmalloc .node).2)
      else (parse83 de, (sc.heap.kmalloc .node).2)).2 =
      sc.lfns.foldl (fun heap l => heap.kfree l.1) (sc.heap.kmalloc .node).2 := by
    split_ifs with hnil
    · rfl
    · rw [not_not.mp hnil]
      rfl
  have hnode : (sc.lfns.foldl (fun heap l => heap.kfree l.1) (sc.heap.kmalloc .node).2).Holds
      ((sc.heap.next, .node) :: L) :=
    .kfreeAll sc.lfns ((hL.kmalloc .node).of_perm List.perm_middle.symm)
  rw [← hfree] at hnode
  by_cases hdir : de.field .attr &&& fatAttrDir ≠ 0
  · -- `load_dir` takes the data of the second node and drops the node
    simp only [DirScan.makeNode, if_pos hdir]
    generalize (if sc.lfns ≠ [] then _ else _ : List UInt8 × Blocks) = named at hnode
    refine ⟨named.2.next, [((named.2.kmalloc .dir).2.next, .dirNode)],
      iff_of_false (List.cons_ne_nil _ _) (not_not.mpr hdir), ?_⟩
    refine ((hnode.kmalloc .dir).kmalloc .dirNode).of_perm (List.perm_iff_count.mpr fun p => ?_)
    simp only [FsData.blockFor, Blocks.kmalloc, List.count_append, List.count_cons, List.count_nil]
    omega
  · simp only [DirScan.makeNode, if_neg hdir]
    exact ⟨_, [], iff_of_true rfl hdir, hnode.kmalloc .file⟩

theorem makeNode_frame (sc : DirScan) (de : Dirent) :
    (sc.makeNode de).2.entriesBlock = sc.entriesBlock ∧ (sc.makeNode de).2.cap = sc.cap := by
  simp only [DirScan.makeNode]
  split_ifs <;> exact ⟨rfl, rfl⟩

/-- Room for another entry: there is an array afterwards, and only one. -/
theorem addNode_holds {L : List (Nat × BlockFor)} (hL : sc.heap.Holds (sc.arrayBlocks ++ L))
    (hcap : sc.entriesBlock = none → sc.cap = 0) (node : DirNode) :
    (sc.addNode node).heap.Holds ((sc.addNode node).arrayBlocks ++ L) ∧
      (sc.addNode node).entriesBlock ≠ none := by
  by_cases hfull : sc.cap ≤ sc.entries.length
  · simp only [DirScan.addNode, if_pos hfull]
    exact ⟨hL.krealloc _, Option.some_ne_none _⟩
  · simp only [DirScan.addNode, if_neg hfull]
    exact ⟨hL, fun hnone => hfull (by rw [hcap hnone]; exact Nat.zero_le _)⟩

/-- A node is made and put behind the others. -/
theorem made (h : Accounts old sc data leaked) (de : Dirent) :
    ∃ data' leaked', Accounts old ((sc.makeNode de).2.addNode (sc.makeNode de).1) data' leaked' ∧
      (leaked' = [] ↔ leaked = [] ∧ ¬ de.IsDir) := by
  have hfrags : sc.heap.Holds
      (sc.lfnBlocks ++ (old ++ (sc.arrayBlocks ++ (sc.nodeBlocks ++ (data ++ leaked))))) := by
    refine h.holds.of_perm (List.perm_iff_count.mpr fun p => ?_)
    simp only [List.count_append]
    omega
  obtain ⟨b, extra, hextra, hmade⟩ := makeNode_holds hfrags de
  obtain ⟨hlfns, hentries⟩ := Vfat.makeNode_scan sc de
  obtain ⟨hblock, hcap⟩ := makeNode_frame sc de
  generalize sc.makeNode de = made at *
  obtain ⟨node, sc₁⟩ := made
  dsimp only at *
  obtain ⟨hlfns', hentries'⟩ := Vfat.addNode_scan sc₁ node
  obtain ⟨hadded, hsome⟩ := @addNode_holds sc₁
    (old ++ (sc.nodeBlocks ++ (data ++ leaked)) ++ [(b, node.fsData.blockFor), (node.block, .node)] ++ extra)
    (hmade.of_perm (List.perm_iff_count.mpr fun p => by
      simp only [DirScan.arrayBlocks, hblock, hcap, List.count_append, List.count_cons, List.count_nil]
      omega))
    (by rw [hblock, hcap]; exact h.cap_eq) node
  refine ⟨data ++ [(b, node.fsData.blockFor)], extra ++ leaked,
    ⟨hadded.of_perm (List.perm_iff_count.mpr fun p => ?_), ?_, ?_, fun hnone => absurd hnone hsome⟩, ?_⟩
  · simp only [DirScan.nodeBlocks, DirScan.lfnBlocks, hlfns', hentries', hlfns, hentries, List.map_append,
      List.map_cons, List.map_nil, List.count_append, List.count_cons, List.count_nil]
    omega
  · rw [hentries', hentries, List.map_append, List.map_append, h.data_eq]
    rfl
  · rw [hentries']
    exact iff_of_false hsome (List.append_ne_nil_of_right_ne_nil _ (List.cons_ne_nil _ _))
  · rw [List.append_eq_nil_iff, hextra, and_comm]

end Accounts

/-! ## Tidy directories -/

/-- The entries begin with a fragment or with one that a node is made for. -/
def GoesOn (des : List Dirent) : Prop := ∃ de ∈ des.head?, de.IsLfn ∨ de.IsNode

/-- There are no directories among the entries, and every fragment is followed by another one or by an entry
that a node is made for. -/
def Tidy : List Dirent → Prop
  | [] => True
  | de :: des => (de.IsNode → ¬ de.IsDir) ∧ (de.IsLfn → GoesOn des) ∧ Tidy des

instance : (des : List Dirent) → Decidable (GoesOn des)
  | [] => .isFalse (by simp [GoesOn])
  | de :: des => decidable_of_iff (de.IsLfn ∨ de.IsNode) (by simp [GoesOn])

instance Tidy.decide : (des : List Dirent) → Decidable (Tidy des)
  | [] => .isTrue trivial
  | _ :: des =>
    have := Tidy.decide des
    inferInstanceAs (Decidable ((_ → ¬ _) ∧ (_ → _) ∧ _))

/-- Scanning entries without an end mark leaves nothing over exactly when they are tidy and begin with
something that belongs to the fragments before. -/
theorem Accounts.scan {old data leaked : List (Nat × BlockFor)} {sc : DirScan}
    (h : Accounts old sc data leaked) {des : List Dirent} (hend : ∀ de ∈ des, de.mem 0 ≠ 0) :
    ∃ data' leaked', Accounts old (DirScan.scan des sc).2 data' leaked' ∧
      (leaked' = [] ∧ (DirScan.scan des sc).2.lfns = [] ↔
        leaked = [] ∧ (sc.lfns = [] ∨ GoesOn des) ∧ Tidy des) := by
  induction des generalizing sc data leaked with
  | nil => exact ⟨data, leaked, h, by simp [GoesOn, Tidy, DirScan.scan]⟩
  | cons de des ih =>
      have hgoes : GoesOn (de :: des) ↔ de.IsLfn ∨ de.IsNode := by simp [GoesOn]
      have hrest := fun de' hde' => hend de' (List.mem_cons_of_mem _ hde')
      obtain ⟨hlfn, hnode, hstep⟩ | ⟨hlfn, hnode, hstep⟩ | ⟨hlfn, hnode, hstep⟩ :=
        step_cases sc (hend de List.mem_cons_self)
      · -- a skipped entry: the fragments before it are forgotten
        rw [Vfat.scan_cons hstep]
        obtain ⟨data', leaked', h', hiff⟩ := ih h.forget hrest
        refine ⟨data', leaked', h', hiff.trans ?_⟩
        simp only [DirScan.lfnBlocks, List.append_eq_nil_iff, List.map_eq_nil_iff, true_or, true_and, hgoes,
          hlfn, hnode, or_self, or_false, Tidy, IsEmpty.forall_iff]
        exact ⟨fun h => ⟨h.1.2, h.1.1, h.2⟩, fun h => ⟨⟨h.2.1, h.1⟩, h.2.2⟩⟩
      · -- there is a fragment now, whether there was room for this one or not
        obtain ⟨sc', hsc', h₁, hne⟩ : ∃ sc', sc.step de = some sc' ∧ Accounts old sc' data leaked ∧
            sc'.lfns ≠ [] := by
          refine ⟨_, hstep, ?_⟩
          split_ifs with hroom
          · exact ⟨h.keep de, List.append_ne_nil_of_right_ne_nil _ (List.cons_ne_nil _ _)⟩
          · exact ⟨h, fun hnil => hroom (by rw [hnil]; decide)⟩
        rw [Vfat.scan_cons hsc']
        obtain ⟨data', leaked', h', hiff⟩ := ih h₁ hrest
        refine ⟨data', leaked', h', hiff.trans ?_⟩
        simp only [hne, false_or, hgoes, hlfn, hnode, or_false, or_true, Tidy, IsEmpty.forall_iff,
          forall_const, true_and]
      · -- a node is made, and the copies of the fragments are freed
        rw [Vfat.scan_cons hstep]
        obtain ⟨data₁, leaked₁, h₁, hleaked⟩ := h.made de
        obtain ⟨data', leaked', h', hiff⟩ := ih h₁ hrest
        refine ⟨data', leaked', h', hiff.trans ?_⟩
        have hnil : ((sc.makeNode de).2.addNode (sc.makeNode de).1).lfns = [] := by
          rw [(Vfat.addNode_scan _ _).1, (Vfat.makeNode_scan _ _).1]
        simp only [hleaked, hnil, true_or, true_and, hgoes, hlfn, hnode, or_true, Tidy, forall_const,
          IsEmpty.forall_iff]
        exact and_assoc

/-- A scan stops at the first end mark. -/
theorem scan_takeWhile (des : List Dirent) (sc : DirScan) :
    (DirScan.scan des sc).2 = (DirScan.scan (des.takeWhile fun de => de.mem 0 ≠ 0) sc).2 := by
  induction des generalizing sc with
  | nil => rfl
  | cons de des ih =>
      by_cases hend : de.mem 0 = 0
      · have hstep : sc.step de = none := if_pos hend
        rw [List.takeWhile_cons_of_neg (by simpa using hend)]
        simp only [DirScan.scan, hstep]
      · rw [List.takeWhile_cons_of_pos (by simpa using hend), DirScan.scan, DirScan.scan]
        cases sc.step de with
        | none => rfl
        | some sc' => exact ih sc'

/-! ## `load_dir` -/

/-- The entries of the first `k` clusters of a directory, up to an end mark. -/
def FatVol.scanned (vol : FatVol) (disk : Nat → Sector) (start k : Nat) : List Dirent :=
  ((List.range k).flatMap fun i => vol.dirents disk (vol.chain disk start i)).takeWhile fun de => de.mem 0 ≠ 0

/-- The blocks that are live after loading a directory with these entries: those from before, the array if
there are entries, and a node with its data for each of them. -/
def NoLeak (heap heap' : Blocks) (entries : List DirNode) : Prop :=
  ∃ array data : List (Nat × BlockFor),
    heap'.live.Perm (heap.live ++ (array ++ ((entries.map fun e => (e.block, .node)) ++ data))) ∧
    (if entries = [] then array = [] else ∃ b cap, array = [(b, .entries cap)]) ∧
    data.map Prod.snd = entries.map fun e => e.fsData.blockFor

/-- Nothing is left over when nothing was forgotten. -/
theorem Accounts.noLeak_iff {heap heap' : Blocks} {data leaked : List (Nat × BlockFor)} {sc : DirScan}
    {what : BlockFor} {b : Nat} (h : Accounts ((b, what) :: heap.live) sc data leaked)
    (hheap : heap' = sc.heap.kfree b) :
    NoLeak heap heap' sc.entries ↔ leaked = [] ∧ sc.lfns = [] := by
  have hlive : heap'.live.Perm (heap.live ++
      (sc.arrayBlocks ++ (sc.nodeBlocks ++ (data ++ (sc.lfnBlocks ++ leaked))))) := by
    rw [hheap]
    exact (Blocks.Holds.kfree h.holds).perm
  have hlen : data.length = sc.entries.length := by
    have := congrArg List.length h.data_eq
    rwa [List.length_map, List.length_map] at this
  constructor
  · -- as many blocks as there should be are accounted for, so there are no others
    rintro ⟨array, data', hperm, harray, hdata⟩
    have hlen' : data'.length = sc.entries.length := by
      have := congrArg List.length hdata
      rwa [List.length_map, List.length_map] at this
    have hcount := (hlive.symm.trans hperm).length_eq
    have harray' : array.length = sc.arrayBlocks.length := by
      split_ifs at harray with hnil
      · rw [harray, DirScan.arrayBlocks, h.array.mpr hnil]
        rfl
      · obtain ⟨b, cap, rfl⟩ := harray
        obtain ⟨b', hb'⟩ := Option.ne_none_iff_exists'.mp (mt h.array.mp hnil)
        rw [DirScan.arrayBlocks, hb']
        rfl
    simp only [List.length_append, DirScan.nodeBlocks, DirScan.lfnBlocks, List.length_map] at hcount
    exact ⟨List.length_eq_zero_iff.mp (by omega), List.length_eq_zero_iff.mp (by omega)⟩
  · rintro ⟨rfl, hnil⟩
    refine ⟨sc.arrayBlocks, data, ?_, ?_, h.data_eq⟩
    · rw [DirScan.lfnBlocks, hnil, List.map_nil, List.append_nil, List.append_nil] at hlive
      exact hlive
    · split_ifs with hentries
      · rw [DirScan.arrayBlocks, h.array.mpr hentries]
        rfl
      · obtain ⟨b', hb'⟩ := Option.ne_none_iff_exists'.mp (mt h.array.mp hentries)
        exact ⟨b', sc.cap, by rw [DirScan.arrayBlocks, hb']; rfl⟩

/-- A directory that can be loaded has some number of clusters, and loading it leaks nothing exactly when its
entries are tidy. -/
theorem loadDir_noLeak_iff (disk : Nat → Sector) (vol : FatVol) (cluster : UInt32) (heap : Blocks)
    (hheap : heap.Wf) (st : FatState)
    (hterm : Terminates fun fuel =>
      loadDir (Device.ofDisk disk) vol ⟨cluster.toNat, [], false⟩ heap fuel st) :
    (∃ k, vol.DirEnds disk cluster.toNat k) ∧ ∀ k, vol.DirEnds disk cluster.toNat k →
      ∃ fuel₀, ∀ fuel, fuel₀ ≤ fuel → ∃ dir' heap' st',
        loadDir (Device.ofDisk disk) vol ⟨cluster.toNat, [], false⟩ heap fuel st = .ok (dir', heap', st') ∧
        (NoLeak heap heap' dir'.entries ↔ Tidy (vol.scanned disk cluster.toNat k)) := by
  refine ⟨((loadDir_terminates_iff ..).mp hterm).dirEnds, fun k hk => ⟨k + 1, fun fuel hfuel => ?_⟩⟩
  have hstart : Accounts ((heap.next, .clusterBuf) :: heap.live)
      ⟨[], [], none, 0, (heap.kmalloc .clusterBuf).2⟩ [] [] := by
    refine ⟨?_, rfl, iff_of_true rfl rfl, fun _ => rfl⟩
    have := Blocks.Holds.kmalloc ⟨hheap, .refl _⟩ .clusterBuf
    simpa [DirScan.arrayBlocks, DirScan.nodeBlocks, DirScan.lfnBlocks] using this
  obtain ⟨data, leaked, haccounts, hiff⟩ := hstart.scan
    (show ∀ de ∈ vol.scanned disk cluster.toNat k, de.mem 0 ≠ 0 from fun de hde => by
      simpa using List.mem_takeWhile_imp hde)
  obtain ⟨st', hscan⟩ := hk.scanClusters hfuel ⟨[], [], none, 0, (heap.kmalloc .clusterBuf).2⟩ st
  rw [scan_takeWhile] at hscan
  refine ⟨_, _, st', bind_eq_ok.mpr ⟨_, hscan, rfl⟩, (haccounts.noLeak_iff rfl).trans (hiff.trans ?_)⟩
  simp

/-- A disk like that of `directoryImage`, with a file that has a long name as its only entry. -/
def fileDisk : Nat → Sector
  | 2050 => fun i => (smallDirectory.take 96).getD i.val 0
  | lba => directoryImage.disk lba

/-- Loading its directory leaks nothing. -/
theorem loadDir_noLeak_fileDisk :
    ∃ fuel₀, ∀ fuel, fuel₀ ≤ fuel → ∃ dir' heap' st',
      loadDir (Device.ofDisk fileDisk) directoryVol ⟨2, [], false⟩ ⟨0, []⟩ fuel zeroState =
        .ok (dir', heap', st') ∧ NoLeak ⟨0, []⟩ heap' dir'.entries := by
  have hends : directoryVol.DirEnds fileDisk 2 1 := ⟨by decide +kernel, Or.inl (by decide +kernel)⟩
  have htidy : Tidy (directoryVol.scanned fileDisk 2 1) := by decide +kernel
  obtain ⟨-, hload⟩ := loadDir_noLeak_iff fileDisk directoryVol 2 ⟨0, []⟩
    ⟨fun p hp => absurd hp List.not_mem_nil, List.nodup_nil⟩ zeroState
    ((loadDir_terminates_iff ..).mpr ⟨1, Or.inl (by decide +kernel)⟩)
  obtain ⟨fuel₀, h⟩ := hload 1 hends
  refine ⟨fuel₀, fun fuel hfuel => ?_⟩
  obtain ⟨dir', heap', st', hrun, hiff⟩ := h fuel hfuel
  exact ⟨dir', heap', st', hrun, hiff.mpr htidy⟩

/-- The number of blocks when nothing leaks. -/
theorem NoLeak.length_eq {heap heap' : Blocks} {entries : List DirNode} (h : NoLeak heap heap' entries)
    (hne : entries ≠ []) : heap'.live.length = heap.live.length + 1 + 2 * entries.length := by
  obtain ⟨array, data, hperm, harray, hdata⟩ := h
  rw [if_neg hne] at harray
  obtain ⟨b, cap, rfl⟩ := harray
  have hlen := congrArg List.length hdata
  have hlive := hperm.length_eq
  simp only [List.length_append, List.length_map, List.length_cons, List.length_nil] at hlen hlive
  omega

/-- A disk like that of `directoryImage`, with a fragment as its only entry. -/
def orphanDisk : Nat → Sector
  | 2050 => fun i => ((smallDirectory.drop 32).take 32).getD i.val 0
  | lba => directoryImage.disk lba

/-- Loading the directory of `directoryImage` leaves the node of `make_dir_node` for its second entry behind,
and loading that of `orphanDisk` the copy of the fragment. -/
theorem directoryImage_leaks :
    (loadDir (Device.ofDisk directoryImage.disk) directoryVol ⟨2, [], false⟩ ⟨0, []⟩ 3 zeroState).map
      (fun p => (p.1.entries.length, p.2.1.live)) =
      .ok (2, [(2, .node), (3, .file), (4, .entries 8), (5, .node), (6, .dir), (7, .dirNode)]) ∧
    (∀ dir' heap' st', loadDir (Device.ofDisk directoryImage.disk) directoryVol ⟨2, [], false⟩ ⟨0, []⟩ 3
      zeroState = .ok (dir', heap', st') → ¬ NoLeak ⟨0, []⟩ heap' dir'.entries) ∧
    (loadDir (Device.ofDisk orphanDisk) directoryVol ⟨2, [], false⟩ ⟨0, []⟩ 3 zeroState).map
      (fun p => (p.1.entries.length, p.2.1.live)) = .ok (0, [(1, .lfn)]) := by
  have hrun : (loadDir (Device.ofDisk directoryImage.disk) directoryVol ⟨2, [], false⟩ ⟨0, []⟩ 3
      zeroState).map (fun p => (p.1.entries.length, p.2.1.live)) =
      .ok (2, [(2, .node), (3, .file), (4, .entries 8), (5, .node), (6, .dir), (7, .dirNode)]) := by
    decide +kernel
  refine ⟨hrun, fun dir' heap' st' hok hleak => ?_, by decide +kernel⟩
  rw [hok] at hrun
  obtain ⟨hlen, hlive⟩ := Prod.mk.inj (Except.ok.inj hrun)
  have hcount := hleak.length_eq fun hnil => by simp [hnil] at hlen
  rw [hlive, hlen] at hcount
  exact absurd hcount (by decide)

end Aerogel
