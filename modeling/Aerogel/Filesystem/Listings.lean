import Aerogel.Filesystem.FatDirLoad
import Aerogel.Filesystem.TmpfsListings

/-! # Listing and lookup agree up to names

`readdir` and `finddir` of the two file systems go through the same entries. What can come between them is
the names: neither file system looks for a name before it adds an entry, and names change on their way into
a node. tmpfs keeps 255 bytes of a name; FAT32 keeps the lower byte of each UTF-16 unit, and `strcmp` stops
at the first NUL of whatever `parse_83` copied. -/

namespace Aerogel

variable {sc sc' : DirScan} {de : Dirent} {des : List Dirent} {fuel : Nat}

/-! ## Names of FAT32 nodes -/

/-- A piece of a fragment does not make a name longer than 255. -/
theorem length_copyUnits_le (l : Dirent) (n off : Nat) {out : List UInt8} (hout : out.length ≤ 255) :
    (copyUnits l n off out).length ≤ 255 := by
  induction n generalizing off out with
  | zero => exact hout
  | succ n ih =>
      simp only [copyUnits]
      split_ifs with hlt
      · refine ih _ ?_
        rw [List.length_append, List.length_singleton]
        omega
      · exact hout

theorem length_parseLfnLoop_le (ls : List Dirent) {out : List UInt8} (hout : out.length ≤ 255) :
    (parseLfnLoop ls out).length ≤ 255 := by
  induction ls generalizing out with
  | nil => exact hout
  | cons l ls ih =>
      rw [parseLfnLoop]
      split_ifs
      · exact ih (length_copyUnits_le l 2 28 (length_copyUnits_le l 6 14 (length_copyUnits_le l 5 1 hout)))
      · exact hout

theorem length_copyPadded_le (de : Dirent) (n off : Nat) (out : List UInt8) :
    (copyPadded de n off out).length ≤ out.length + n := by
  induction n generalizing off out with
  | zero => exact le_rfl
  | succ n ih =>
      rw [copyPadded]
      split_ifs
      · refine (ih _ _).trans ?_
        rw [List.length_append, List.length_singleton]
        omega
      · omega

/-- A short name has at most 12 characters. -/
theorem length_parse83_le (de : Dirent) : (parse83 de).length ≤ 12 := by
  have hbase := length_copyPadded_le de 8 0 []
  rw [List.length_nil] at hbase
  simp only [parse83]
  split_ifs
  · refine (length_copyPadded_le de 3 8 _).trans ?_
    rw [List.length_append, List.length_singleton]
    omega
  · omega

/-- `node->name`, as `strcmp` sees it. -/
def DirNode.text (node : DirNode) : List UInt8 := strAt (chars node.name) 0 node.name.length

theorem DirNode.cStr_text (node : DirNode) : CStr (chars node.name) 0 node.text := by
  refine cStr_strAt ?_
  rw [Nat.zero_add, chars, List.getD_eq_getElem?_getD, List.getElem?_eq_none le_rfl]
  rfl

/-! ## Loaded directories -/

/-- The nodes made so far have blocks of their own, and names that fit their field. -/
structure FreshNodes (sc : DirScan) : Prop where
  nodup : (sc.entries.map DirNode.block).Nodup
  lt : ∀ e ∈ sc.entries, e.block < sc.heap.next
  name_le : ∀ e ∈ sc.entries, e.name.length ≤ 255

/-- Freeing blocks does not make their numbers available. -/
theorem foldl_kfree_next (ls : List (Nat × Dirent)) (heap : Blocks) :
    (ls.foldl (fun heap l => heap.kfree l.1) heap).next = heap.next := by
  induction ls generalizing heap with
  | nil => rfl
  | cons l ls ih => exact ih _

namespace FreshNodes

/-- Only the entries and the number of blocks matter. -/
theorem mono (h : FreshNodes sc) (hentries : sc'.entries = sc.entries)
    (hnext : sc.heap.next ≤ sc'.heap.next) : FreshNodes sc' := by
  refine ⟨?_, ?_, ?_⟩
  · rw [hentries]
    exact h.nodup
  · rw [hentries]
    exact fun e he => (h.lt e he).trans_le hnext
  · rw [hentries]
    exact h.name_le

/-- The node for an entry gets the next block. -/
theorem makeNode_block (sc : DirScan) (de : Dirent) :
    (sc.makeNode de).1.block = sc.heap.next ∧ sc.heap.next < (sc.makeNode de).2.heap.next := by
  simp only [DirScan.makeNode, Blocks.kmalloc]
  split_ifs
  · exact ⟨rfl, by simp only [foldl_kfree_next]; omega⟩
  · exact ⟨rfl, by dsimp only; omega⟩
  · exact ⟨rfl, by simp only [foldl_kfree_next]; omega⟩
  · exact ⟨rfl, by dsimp only; omega⟩

/-- Its name fits. -/
theorem makeNode_length_le (sc : DirScan) (de : Dirent) : (sc.makeNode de).1.name.length ≤ 255 := by
  rw [Vfat.makeNode_name]
  split_ifs
  · exact length_parseLfnLoop_le _ (Nat.zero_le _)
  · exact (length_parse83_le de).trans (by decide)

/-- Room for another entry may take one more block. -/
theorem addNode_next_le (sc : DirScan) (node : DirNode) :
    sc.heap.next ≤ (sc.addNode node).heap.next := by
  simp only [DirScan.addNode, Blocks.krealloc, Blocks.kmalloc]
  split_ifs
  · cases sc.entriesBlock <;> exact Nat.le_succ _
  · cases sc.entriesBlock <;> exact Nat.le_succ _
  · exact Nat.le_refl _

/-- A node that is made and put behind the others. -/
theorem made (h : FreshNodes sc) (de : Dirent) :
    FreshNodes ((sc.makeNode de).2.addNode (sc.makeNode de).1) := by
  obtain ⟨hblock, hnext⟩ := makeNode_block sc de
  have hadd := addNode_next_le (sc.makeNode de).2 (sc.makeNode de).1
  have hentries : ((sc.makeNode de).2.addNode (sc.makeNode de).1).entries =
      sc.entries ++ [(sc.makeNode de).1] := by
    rw [(Vfat.addNode_scan _ _).2, (Vfat.makeNode_scan _ _).2]
  refine ⟨?_, fun e he => ?_, fun e he => ?_⟩
  · rw [hentries, List.map_append, List.map_singleton, hblock]
    refine List.nodup_append.mpr ⟨h.nodup, List.nodup_singleton _, fun a ha b hb heq => ?_⟩
    obtain ⟨e, he, rfl⟩ := List.mem_map.mp ha
    have hlt := h.lt e he
    have hb' := List.mem_singleton.mp hb
    omega
  · rw [hentries] at he
    rcases List.mem_append.mp he with he | he
    · have hlt := h.lt e he
      omega
    · rw [List.mem_singleton.mp he]
      omega
  · rw [hentries] at he
    rcases List.mem_append.mp he with he | he
    · exact h.name_le e he
    · rw [List.mem_singleton.mp he]
      exact makeNode_length_le sc de

/-- The body of the inner loop keeps nodes apart. -/
theorem step (h : FreshNodes sc) (hstep : sc.step de = some sc') : FreshNodes sc' := by
  rw [DirScan.step] at hstep
  split_ifs at hstep
  · cases hstep
    exact h.mono rfl le_rfl
  · cases hstep
    exact h.mono rfl (Nat.le_succ _)
  · cases hstep
    exact h
  · cases hstep
    exact h.mono rfl le_rfl
  · cases hstep
    exact h.mono rfl le_rfl
  · have hmade : (sc.makeNode de).2.addNode (sc.makeNode de).1 = sc' := Option.some.inj hstep
    exact hmade ▸ h.made de

/-- The inner loop. -/
theorem scan (h : FreshNodes sc) (des : List Dirent) : FreshNodes (DirScan.scan des sc).2 := by
  induction des generalizing sc with
  | nil => exact h
  | cons de des ih =>
      rw [DirScan.scan]
      cases hstep : sc.step de with
      | none => exact h
      | some sc' => exact ih (h.step hstep)

/-- The loop over the sectors of a cluster. -/
theorem scanCluster (h : FreshNodes sc) (dev : Device) (vol : FatVol) (lba left i : Nat)
    (st : FatState) : FreshNodes (Aerogel.scanCluster dev vol lba left i sc st).2.1 := by
  induction left generalizing sc i st with
  | zero => exact h
  | succ left ih =>
      have hscan := h.scan (sectorEntries
        (readSector dev vol.sectorBuf .contents ((lba + i) % 2 ^ 32) st).mem vol.sectorBuf)
      rw [Aerogel.scanCluster]
      split <;> rename_i heq <;> rw [heq] at hscan
      · exact hscan
      · exact ih hscan _ _

/-- The loop over the clusters. -/
theorem scanClusters (h : FreshNodes sc) {dev : Device} {vol : FatVol} {cluster : Nat}
    {st st' : FatState} (hrun : Aerogel.scanClusters dev vol fuel cluster sc st = .ok (sc', st')) :
    FreshNodes sc' := by
  induction fuel generalizing cluster sc st with
  | zero => cases hrun
  | succ fuel ih =>
      rw [Aerogel.scanClusters] at hrun
      split_ifs at hrun
      · have hscan := h.scanCluster dev vol (clusterToLba vol cluster) vol.sectorsPerCluster 0 st
        split at hrun <;> rename_i heq <;> rw [heq] at hscan
        · cases hrun
          exact hscan
        · exact ih hscan hrun
      · cases hrun
        exact h

end FreshNodes

/-- The nodes of a loaded directory are different ones, with names that fit. -/
theorem loadDir_fresh {dev : Device} {vol : FatVol} {dir dir' : FatDir} {heap heap' : Blocks}
    {st st' : FatState} (hrun : loadDir dev vol dir heap fuel st = .ok (dir', heap', st')) :
    dir'.loaded = true ∧ dir'.entries.Nodup ∧ ∀ e ∈ dir'.entries, e.name.length ≤ 255 := by
  obtain ⟨⟨sc, st₁⟩, hscan, hres⟩ := bind_eq_ok.mp hrun
  obtain ⟨rfl, -⟩ := Prod.mk.inj (Except.ok.inj hres)
  have hstart : FreshNodes ⟨[], [], none, 0, (heap.kmalloc .clusterBuf).2⟩ :=
    ⟨List.nodup_nil, fun _ he => absurd he List.not_mem_nil, fun _ he => absurd he List.not_mem_nil⟩
  have hfresh := hstart.scanClusters hscan
  exact ⟨rfl, .of_map _ hfresh.nodup, hfresh.name_le⟩

/-- The loop of `fat32_finddir` finds the first node with the name. -/
theorem fat32FinddirLoop_eq {name s : List UInt8} (hname : CStr (chars name) 0 s) (hfuel : 255 < fuel)
    {nodes : List DirNode} (hlen : ∀ e ∈ nodes, e.name.length ≤ 255) :
    fat32FinddirLoop name fuel nodes = .ok (findNamed DirNode.text nodes s) := by
  induction nodes with
  | nil => rfl
  | cons e nodes ih =>
      have hle : e.text.length ≤ e.name.length := length_strAt_le _ _ _
      have hbound := hlen e List.mem_cons_self
      obtain ⟨c, hc, hiff⟩ := e.cStr_text.strcmp_eq hname (show e.text.length < fuel by omega)
      rw [fat32FinddirLoop, hc]
      by_cases heq : e.text = s
      · rw [findNamed_cons_of_eq heq, hiff.mpr heq]
        rfl
      · rw [findNamed_cons_of_ne heq, ← ih fun x hx => hlen x (List.mem_cons_of_mem e hx)]
        exact if_neg fun hzero => heq (hiff.mp hzero)

/-- `fat32_readdir` of a loaded directory. -/
theorem fat32Readdir_of_loaded {dir : FatDir} (hloaded : dir.loaded = true) (dev : Device) (vol : FatVol)
    (heap : Blocks) (fuel : Nat) (st : FatState) (i : Nat) :
    (fat32Readdir dev vol dir heap fuel st i).map Prod.fst = .ok dir.entries[i]? := by
  rw [fat32Readdir, ensureLoaded, if_pos hloaded]
  rfl

/-- The two calls, for a directory that `load_dir` has loaded. -/
theorem looksUp_of_loadDir {dev : Device} {vol : FatVol} {dir dir' : FatDir} {heap heap' : Blocks}
    {st st' : FatState} {fuel' : Nat}
    (hrun : loadDir dev vol dir heap fuel' st = .ok (dir', heap', st')) (hfuel : 255 < fuel) :
    LooksUp (fun i => (fat32Readdir dev vol dir' heap' fuel st' i).map Prod.fst) DirNode.text fun n =>
      (fat32Finddir dev vol dir' heap' fuel st' n.name).map Prod.fst := by
  obtain ⟨hloaded, hnd, hlen⟩ := loadDir_fresh hrun
  refine looksUp_of_list hnd (fat32Readdir_of_loaded hloaded dev vol heap' fuel st') fun n _ => ?_
  rw [fat32Finddir, ensureLoaded, if_pos hloaded]
  have hfind := fat32FinddirLoop_eq n.cStr_text hfuel hlen
  change Except.map Prod.fst (do
    let node ← fat32FinddirLoop n.name fuel dir'.entries
    pure (node, dir', heap', st')) = _
  rw [hfind]
  rfl

/-! ## Names that collide -/

/-- On the kernel heap right after boot: the caller allocates a string `"a"`, makes a directory, and in it
two directories of that name. -/
theorem exists_sameName (T : Target) (C : TmpfsCode) : ∃ s₀ s q node a b,
    Reachable (HeapStep T) (heapBoot T (kernelArena T) (filledArena T 0)) s₀ ∧
    Run (TmpfsStep T C) ⟨s₀.heap, []⟩ [(.create q, .made), (.mkdir 0 q, .made), (.mkdir 0 q, .made)] s ∧
    s.nodes.map Prod.fst = [.dir, .dir, .dir] ∧ ∃ live N, Extends T (kernelArena T)
      s live N 0 node q [97] [a, b] := by
  have hsafe := kernelArena_splitSafe T
  have hb := blank_kernelArena T 0 (N := 8192) le_rfl
  obtain ⟨q, h₁, hmalloc, hhanded, hb₁, hzero⟩ := hb.kmalloc hsafe (n := 8) (by decide) (by decide)
    (by decide)
  have hroom := hhanded.room
  have hq : q ∈ insert q (∅ : Finset Nat) := Finset.mem_insert_self _ _
  have hframe : ∀ x, x < q ∨ q + payload T h₁.mem q ≤ x → Function.update h₁.mem q 97 x = h₁.mem x :=
    fun x hx => Function.update_of_ne (by omega) _ _
  have hb₂ := hb₁.write (Function.update h₁.mem q 97) hq hframe
  obtain ⟨bs₁, hinv₁⟩ := hb₁.heapInv
  have hpay : payload T (Function.update h₁.mem q 97) q = payload T h₁.mem q :=
    hinv₁.payload_of_write hq hq hframe
  have hstr : CStr (Function.update h₁.mem q 97) q [97] := by
    refine ⟨Function.update_self .., by decide, ?_⟩
    have hnext : Function.update h₁.mem q 97 (q + 1) = 0 := by
      rw [Function.update_of_ne (by omega)]
      exact hzero (q + 1) (by omega) (by omega)
    exact hnext
  obtain ⟨node, h₃, live₃, hcreate, he₃⟩ := hb₂.extends hsafe (by decide) C hq hstr
    (by dsimp only [List.length_singleton]; omega)
  obtain ⟨a, h₄, live₄, hmkdir₄, he₄⟩ := he₃.mkdir hsafe (by decide) (by decide) C
  obtain ⟨b, h₅, live₅, hmkdir₅, he₅⟩ := he₄.mkdir hsafe (by decide) (show 1 < 4 by decide) C
  refine ⟨⟨{ h₁ with mem := Function.update h₁.mem q 97 }, insert q ∅⟩, _, q, node, a, b, ?_, ?_, rfl, live₅,
    _, he₅⟩
  · have hgain : gain ∅ q = insert q ∅ := if_neg hhanded.ne_zero
    have hstep₁ : HeapStep T (heapBoot T (kernelArena T) (filledArena T 0)) (.kmalloc 8)
        ⟨h₁, insert q ∅⟩ := by
      refine ⟨show 8 + 7 < 2 ^ T.wordBits by cases T <;> decide, bind_eq_ok.mpr ⟨_, hmalloc, ?_⟩⟩
      rw [← hgain]
      rfl
    have hstep₂ : HeapStep T ⟨h₁, insert q ∅⟩ (.write q 97)
        ⟨{ h₁ with mem := Function.update h₁.mem q 97 }, insert q ∅⟩ :=
      ⟨⟨q, hq, le_rfl, by dsimp only; omega⟩, rfl⟩
    exact ((Reachable.refl _).tail hstep₁).tail hstep₂
  · exact .cons (.create hcreate) (.cons (.mkdir rfl hmkdir₄) (.cons (.mkdir rfl hmkdir₅) (.nil _)))

/-- Two files with long names of one unit each, `U+0141` and `U+0041`. -/
def narrowDirectory : List UInt8 :=
  ([0x41, 0x41, 0x01, 0, 0] ++ List.replicate 6 0xFF ++ [0x0F, 0, 0] ++ List.replicate 12 0xFF ++
    [0, 0] ++ List.replicate 4 0xFF) ++
  ([0x41, 0x7E, 0x31] ++ List.replicate 8 0x20 ++ [0x20] ++ List.replicate 14 0 ++ [5, 0, 7, 0, 0, 0]) ++
  ([0x41, 0x41, 0, 0, 0] ++ List.replicate 6 0xFF ++ [0x0F, 0, 0] ++ List.replicate 12 0xFF ++
    [0, 0] ++ List.replicate 4 0xFF) ++
  ([0x41, 0x7E, 0x32] ++ List.replicate 8 0x20 ++ [0x20] ++ List.replicate 14 0 ++ [6, 0, 9, 0, 0, 0])

/-- The volume of `directoryImage` with this directory in cluster 2. -/
def narrowDisk : Nat → Sector
  | 2050 => fun i => narrowDirectory.getD i.val 0
  | lba => directoryImage.disk lba

/-- Unit 0 of the long name in a directory entry, and the unit behind it. -/
def firstUnits (j : Nat) : Nat × Nat :=
  let l : Dirent := fun k => narrowDisk 2050 ⟨32 * (j % 16) + k, by omega⟩
  (l.mem.load (Vfat.unitOff 0) 2, l.mem.load (Vfat.unitOff 1) 2)

/-- What `load_dir` makes of it. -/
def narrowLoad : Except Halt (FatDir × Blocks × FatState) :=
  loadDir (Device.ofDisk narrowDisk) directoryVol ⟨2, [], false⟩ ⟨0, []⟩ 2 ⟨fun _ => 0, []⟩

/-- Both names lose their upper byte. -/
theorem narrowLoad_names : ∃ dir heap st a b, narrowLoad = .ok (dir, heap, st) ∧
    dir.entries = [a, b] ∧ a.text = b.text := by
  have htexts : (narrowLoad.toOption.map fun r => r.1.entries.map DirNode.text) =
      some [[0x41], [0x41]] := by
    decide +kernel
  cases hload : narrowLoad with
  | error e =>
      rw [hload] at htexts
      cases htexts
  | ok r =>
      obtain ⟨dir, heap, st⟩ := r
      rw [hload] at htexts
      have hmap : dir.entries.map DirNode.text = [[0x41], [0x41]] := Option.some.inj htexts
      obtain ⟨a, l, hentries, ha, hl⟩ := List.map_eq_cons_iff.mp hmap
      obtain ⟨b, l', rfl, hb, hl'⟩ := List.map_eq_cons_iff.mp hl
      obtain rfl := List.map_eq_nil_iff.mp hl'
      exact ⟨dir, heap, st, a, b, rfl, hentries, ha.trans hb.symm⟩

/-! ## Both file systems -/

/-- `readdir` and `finddir` of a tmpfs directory: the listed nodes, and what their names find. -/
abbrev tmpfsCalls (T : Target) (m : Mem) (node fuel : Nat) :
    (Nat → Except Halt (Option Nat)) × (Nat → Except Halt (Option Nat)) :=
  (fun i => .ok (ofPtr (tmpfsReaddir T m node i)),
    fun n => (tmpfsFinddir T m node (n + (vfsNode T).off .name) fuel).map ofPtr)

/-- `readdir` and `finddir` of a FAT32 directory. -/
abbrev fat32Calls (dev : Device) (vol : FatVol) (dir : FatDir) (heap : Blocks) (fuel : Nat)
    (st : FatState) : (Nat → Except Halt (Option DirNode)) × (DirNode → Except Halt (Option DirNode)) :=
  (fun i => (fat32Readdir dev vol dir heap fuel st i).map Prod.fst,
    fun n => (fat32Finddir dev vol dir heap fuel st n.name).map Prod.fst)

/-- Lookup and enumeration, for every tmpfs directory that calls with any names have built on any
reachable heap, and for every directory that `load_dir` has loaded from any disk: the name of a listed node
finds the first node listed under that name, so that every listed node is found by its name exactly when
the names in the nodes are pairwise different. -/
theorem readdir_finddir :
    (∀ (T : Target) (A : Arena T) (m : Mem) (s₀ : HeapRun) (C : TmpfsCode)
      (es : List (TmpfsOp × TmpfsOut)) (s : TmpfsRun) (node fuel : Nat), A.SplitSafe →
      Reachable (HeapStep T) (heapBoot T A m) s₀ → Run (TmpfsStep T C) ⟨s₀.heap, []⟩ es s →
      (∀ e ∈ es, e.1.Creates) → (NodeKind.dir, node) ∈ s.nodes → 255 < fuel →
      LooksUp (tmpfsCalls T s.heap.mem node fuel).1 (nodeName T s.heap.mem)
        (tmpfsCalls T s.heap.mem node fuel).2) ∧
    ∀ (dev : Device) (vol : FatVol) (dir dir' : FatDir) (heap heap' : Blocks) (fuel' fuel : Nat)
      (st st' : FatState), loadDir dev vol dir heap fuel' st = .ok (dir', heap', st') → 255 < fuel →
      LooksUp (fat32Calls dev vol dir' heap' fuel st').1 DirNode.text
        (fat32Calls dev vol dir' heap' fuel st').2 := by
  refine ⟨fun T A m s₀ C es s node fuel hsafe hs₀ hrun hops hnode hfuel => ?_,
    fun dev vol dir dir' heap heap' fuel' fuel st st' hload hfuel => looksUp_of_loadDir hload hfuel⟩
  obtain ⟨bs, hbs⟩ := heapInv_of_reachable hsafe hs₀
  obtain ⟨live, hinv⟩ := (TreeInv.start hbs).run hsafe hrun hops
  exact hinv.looksUp hnode hfuel

/-- Such a tmpfs directory on the kernel heap, and such a FAT32 directory. -/
theorem readdir_finddir_sameName :
    (∃ (s : TmpfsRun) (node : Nat), s.nodes.map Prod.fst = [.dir, .dir, .dir] ∧
      LooksUp (tmpfsCalls .x86 s.heap.mem node 256).1 (nodeName .x86 s.heap.mem)
        (tmpfsCalls .x86 s.heap.mem node 256).2) ∧
    ∃ dir heap st, narrowLoad = .ok (dir, heap, st) ∧
      LooksUp (fat32Calls (Device.ofDisk narrowDisk) directoryVol dir heap 256 st).1 DirNode.text
        (fat32Calls (Device.ofDisk narrowDisk) directoryVol dir heap 256 st).2 := by
  constructor
  · obtain ⟨s₀, s, q, node, a, b, hreach, hrun, hkinds, live, N, he⟩ :=
      exists_sameName .x86 ⟨0, 0, 0, 0⟩
    exact ⟨s, node, hkinds, readdir_finddir.1 .x86 (kernelArena .x86) _ s₀ _ _ s node 256
      (kernelArena_splitSafe .x86) hreach hrun (by simp [TmpfsOp.Creates]) he.dir (by decide)⟩
  · obtain ⟨dir, heap, st, a, b, hload, -⟩ := narrowLoad_names
    exact ⟨dir, heap, st, hload, readdir_finddir.2 _ _ _ dir _ heap _ 256 _ st hload (by decide)⟩

/-- Two directories of the name `"a"` in a tmpfs directory, and two files on a FAT32 disk whose names
differ in the upper byte of a unit: in both directories a listed node is not found by its name. -/
theorem readdir_finddir_collide :
    (∃ s₀ s q node, Reachable (HeapStep .x86_64)
        (heapBoot .x86_64 (kernelArena .x86_64) (filledArena .x86_64 0)) s₀ ∧
      Run (TmpfsStep .x86_64 ⟨0, 0, 0, 0⟩) ⟨s₀.heap, []⟩
        [(.create q, .made), (.mkdir 0 q, .made), (.mkdir 0 q, .made)] s ∧
      (NodeKind.dir, node) ∈ s.nodes ∧
      ¬ ListedFound (tmpfsCalls .x86_64 s.heap.mem node 256).1
        (tmpfsCalls .x86_64 s.heap.mem node 256).2) ∧
    firstUnits 0 = (0x0141, 0) ∧ firstUnits 2 = (0x0041, 0) ∧
    ∃ dir heap st, narrowLoad = .ok (dir, heap, st) ∧
      ¬ ListedFound (fat32Calls (Device.ofDisk narrowDisk) directoryVol dir heap 256 st).1
        (fat32Calls (Device.ofDisk narrowDisk) directoryVol dir heap 256 st).2 := by
  refine ⟨?_, by decide +kernel, by decide +kernel, ?_⟩
  · obtain ⟨s₀, s, q, node, a, b, hreach, hrun, -, live, N, he⟩ :=
      exists_sameName .x86_64 ⟨0, 0, 0, 0⟩
    obtain ⟨bs, hinv⟩ := he.inv.heap
    have hread : ∀ (i n : Nat), [a, b][i]? = some n →
        (tmpfsCalls .x86_64 s.heap.mem node 256).1 i = .ok (some n) := by
      intro i n hi
      have hn : n ∈ live := (he.inv.named_of_mem (he.listed.sub n (List.mem_of_getElem? hi))).1
      have hn0 : n ≠ 0 := fun h0 => hinv.zero_notMem (h0 ▸ hn)
      have heq : tmpfsReaddir .x86_64 s.heap.mem node i = [a, b][i]?.getD 0 :=
        he.listed.listing.readdir_eq hinv he.listed.owned i
      simp only [heq, hi, Option.getD_some, ofPtr, if_neg hn0]
    refine ⟨s₀, s, q, node, hreach, hrun, he.dir, ?_⟩
    refine (he.inv.looksUp he.dir (by decide)).not_listedFound (hread 0 a rfl) (hread 1 b rfl) ?_
    rw [he.names a List.mem_cons_self, he.names b (List.mem_cons_of_mem _ List.mem_cons_self)]
  · obtain ⟨dir, heap, st, a, b, hload, hentries, hname⟩ := narrowLoad_names
    have hread := fat32Readdir_of_loaded (loadDir_fresh hload).1 (Device.ofDisk narrowDisk) directoryVol
      heap 256 st
    rw [hentries] at hread
    refine ⟨dir, heap, st, hload, ?_⟩
    exact (looksUp_of_loadDir hload (by decide)).not_listedFound (hread 0) (hread 1) hname

end Aerogel
