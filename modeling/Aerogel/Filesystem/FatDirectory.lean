import Aerogel.Filesystem.Fat32
import Aerogel.Filesystem.Vfs

/-! # The FAT32 driver: directories

`load_dir` goes through the sectors of a directory's cluster chain, 16 entries a sector, collects the
fragments of long names and makes a node for every entry that is a file or a directory. Blocks of the
heap are numbered in the order of their allocation, and `kmalloc` does not fail; the contents of the
blocks are values here, and none of them overlaps with the volume's sector buffer. -/

namespace Aerogel

/-! ## Directory entries -/

/-- The bytes of a directory entry, `fat32_dirent_t` or `fat32_lfn_t`. -/
abbrev Dirent := Fin 32 → UInt8

namespace Dirent

/-- An entry as memory of its own. -/
def mem (de : Dirent) : Mem := fun x => if h : x < 32 then de ⟨x, h⟩ else 0

/-- The entry at an address. -/
def read (m : Mem) (a : Nat) : Dirent := fun k => m (a + k)

end Dirent

/-- The fields of `fat32_dirent_t` that the driver uses besides `name` and `ext`. -/
inductive DirentField
  /-- `attr`. -/
  | attr
  /-- `cluster_hi`. -/
  | clusterHi
  /-- `cluster_lo`. -/
  | clusterLo
  /-- `size`. -/
  | size
  deriving DecidableEq, Repr

/-- The packed layout of `fat32_dirent_t`: `name` is at 0, `ext` at 8. -/
def fat32Dirent : StructLayout DirentField where
  off
    | .attr => 11
    | .clusterHi => 20
    | .clusterLo => 26
    | .size => 28
  width
    | .attr => 1
    | .clusterHi => 2
    | .clusterLo => 2
    | .size => 4
  size := 32
  inside := by intro f; cases f <;> decide
  disjoint := by intro f g; cases f <;> cases g <;> decide

/-- `FAT_ATTR_VOLID`. -/
def fatAttrVolid : Nat := 0x08

/-- `FAT_ATTR_DIR`. -/
def fatAttrDir : Nat := 0x10

/-- `FAT_ATTR_LFN`. -/
def fatAttrLfn : Nat := 0x0F

namespace Dirent

/-- A field of an entry. -/
def field (de : Dirent) (f : DirentField) : Nat := fat32Dirent.get de.mem 0 f

/-- `((u32)de->cluster_hi << 16) | de->cluster_lo`. -/
def clusterStart (de : Dirent) : Nat := de.field .clusterHi <<< 16 ||| de.field .clusterLo

/-- A field fits its width. -/
theorem field_lt (de : Dirent) (f : DirentField) : de.field f < 256 ^ fat32Dirent.width f :=
  fat32Dirent.get_lt _ _ _

/-- The start cluster is a `u32`. -/
theorem clusterStart_lt (de : Dirent) : de.clusterStart < 2 ^ 32 := by
  have hhi : de.field .clusterHi < 2 ^ 16 := de.field_lt .clusterHi
  have hlo : de.field .clusterLo < 2 ^ 16 := de.field_lt .clusterLo
  apply Nat.or_lt_two_pow
  · rw [Nat.shiftLeft_eq]
    omega
  · omega

/-- The size is a `u32`. -/
theorem size_lt (de : Dirent) : de.field .size < 2 ^ 32 := de.field_lt .size

end Dirent

/-! ## Names -/

/-- A loop of `parse_83`: copy up to `n` bytes from offset `off`, up to a space. -/
def copyPadded (de : Dirent) : Nat → Nat → List UInt8 → List UInt8
  | 0, _, out => out
  | n + 1, off, out =>
    if de.mem off ≠ 0x20 then copyPadded de n (off + 1) (out ++ [de.mem off]) else out

/-- `parse_83`: what it writes in front of the terminating NUL. -/
def parse83 (de : Dirent) : List UInt8 :=
  let out := copyPadded de 8 0 []
  if de.mem 8 ≠ 0x20 then copyPadded de 3 8 (out ++ [0x2E]) else out

/-- A loop of `parse_lfn`: copy up to `n` units from offset `off`. -/
def copyUnits (l : Dirent) : Nat → Nat → List UInt8 → List UInt8
  | 0, _, out => out
  | n + 1, off, out =>
    let unit := l.mem.load off 2
    if out.length < 255 ∧ unit ≠ 0 ∧ unit ≠ 0xFFFF then
      copyUnits l n (off + 2) (out ++ [UInt8.ofNat (unit &&& 0xFF)])
    else out

/-- The body of the loop of `parse_lfn`: `name1`, `name2` and `name3` of a fragment. -/
def copyFragment (l : Dirent) (out : List UInt8) : List UInt8 :=
  let out := copyUnits l 5 1 out
  let out := copyUnits l 6 14 out
  copyUnits l 2 28 out

/-- The loop of `parse_lfn` over the fragments from the last one on. -/
def parseLfnLoop : List Dirent → List UInt8 → List UInt8
  | [], out => out
  | l :: ls, out => if out.length < 255 then parseLfnLoop ls (copyFragment l out) else out

/-- `parse_lfn`: what it writes in front of the terminating NUL. -/
def parseLfn (lfns : List Dirent) : List UInt8 := parseLfnLoop lfns.reverse []

/-! ## Nodes -/

/-- `fs_data` of a node: a `fat32_file_t`, or a `fat32_dir_t` that is not loaded. -/
inductive FsData
  /-- A file. -/
  | file (f : FatFile)
  /-- A directory that begins at this cluster. -/
  | dir (cluster : Nat)

/-- The fields of a `vfs_node_t` that `load_dir` sets; its functions go with `flags`. -/
structure DirNode where
  /-- Its block on the heap. -/
  block : Nat
  /-- `name`, in front of the NUL. -/
  name : List UInt8
  /-- `flags`. -/
  flags : Nat
  /-- `size`. -/
  size : Nat
  /-- `fs_data`. -/
  fsData : FsData

/-! ## The heap -/

/-- What a block of the heap is for. -/
inductive BlockFor
  /-- `buf`, which is not used. -/
  | clusterBuf
  /-- A copy of a fragment. -/
  | lfn
  /-- A `vfs_node_t` of the directory. -/
  | node
  /-- A `fat32_file_t`. -/
  | file
  /-- A `fat32_dir_t`. -/
  | dir
  /-- The `vfs_node_t` that `make_dir_node` returns. -/
  | dirNode
  /-- The array `entries` with room for this many pointers. -/
  | entries (cap : Nat)
  deriving DecidableEq, Repr

/-- The blocks of the heap that `load_dir` deals with. -/
structure Blocks where
  /-- How many blocks were allocated. -/
  next : Nat
  /-- Those that were not freed. -/
  live : List (Nat × BlockFor)

namespace Blocks

/-- `kmalloc`. -/
def kmalloc (h : Blocks) (what : BlockFor) : Nat × Blocks :=
  (h.next, { next := h.next + 1, live := h.live ++ [(h.next, what)] })

/-- `kfree`. -/
def kfree (h : Blocks) (b : Nat) : Blocks := { h with live := h.live.filter fun p => p.1 ≠ b }

/-- `krealloc` of a block, or of a null pointer. -/
def krealloc (h : Blocks) (b : Option Nat) (what : BlockFor) : Nat × Blocks :=
  let h := b.elim h h.kfree
  h.kmalloc what

end Blocks

/-! ## `load_dir` -/

/-- The variables of `load_dir`. -/
structure DirScan where
  /-- `lfns[0 .. nlfn]`, each with its block. -/
  lfns : List (Nat × Dirent)
  /-- `dir->entries[0 .. dir->count]`. -/
  entries : List DirNode
  /-- The block of `dir->entries`. -/
  entriesBlock : Option Nat
  /-- `cap`. -/
  cap : Nat
  /-- The heap. -/
  heap : Blocks

namespace DirScan

/-- The node for an entry that is a file or a directory. -/
def makeNode (sc : DirScan) (de : Dirent) : DirNode × DirScan :=
  let (block, heap) := sc.heap.kmalloc .node
  let (name, heap) :=
    if sc.lfns ≠ [] then
      (parseLfn (sc.lfns.map Prod.snd), sc.lfns.foldl (fun heap l => heap.kfree l.1) heap)
    else (parse83 de, heap)
  if de.field .attr &&& fatAttrDir ≠ 0 then
    -- `make_dir_node` makes a node as well, of which only `fs_data` is used
    let (_, heap) := heap.kmalloc .dir
    let (_, heap) := heap.kmalloc .dirNode
    (⟨block, name, vfsDir, 0, .dir de.clusterStart⟩, { sc with lfns := [], heap })
  else
    let (_, heap) := heap.kmalloc .file
    let f : FatFile := ⟨de.clusterStart, de.field .size, de.clusterStart_lt, de.size_lt⟩
    (⟨block, name, vfsFile, de.field .size, .file f⟩, { sc with lfns := [], heap })

/-- Put a node behind the others. -/
def addNode (sc : DirScan) (node : DirNode) : DirScan :=
  let sc :=
    if sc.cap ≤ sc.entries.length then
      let cap := if sc.cap ≠ 0 then sc.cap * 2 % 2 ^ 32 else 8
      let (block, heap) := sc.heap.krealloc sc.entriesBlock (.entries cap)
      { sc with cap, entriesBlock := some block, heap }
    else sc
  { sc with entries := sc.entries ++ [node] }

/-- The body of the inner loop, `none` for `goto done`. -/
def step (sc : DirScan) (de : Dirent) : Option DirScan :=
  if de 0 = 0x00 then none
  else if de 0 = 0xE5 then some { sc with lfns := [] }
  else if de.field .attr = fatAttrLfn then
    if sc.lfns.length < 20 then
      let (block, heap) := sc.heap.kmalloc .lfn
      some { sc with lfns := sc.lfns ++ [(block, de)], heap }
    else some sc
  else if de.field .attr &&& fatAttrVolid ≠ 0 then some { sc with lfns := [] }
  else if de 0 = 0x2E then some { sc with lfns := [] }
  else
    let (node, sc) := sc.makeNode de
    some (sc.addNode node)

/-- The inner loop: whether it went to `done`, and the variables then. -/
def scan : List Dirent → DirScan → Bool × DirScan
  | [], sc => (false, sc)
  | de :: des, sc =>
    match sc.step de with
    | none => (true, sc)
    | some sc => scan des sc

end DirScan

/-- `entries`: the sector buffer as an array of directory entries. -/
def sectorEntries (m : Mem) (buf : Nat) : List Dirent :=
  (List.range 16).map fun i => Dirent.read m (buf + 32 * i)

/-- The loop over the sectors of a cluster, from sector `s` on. -/
def scanCluster (dev : Device) (vol : FatVol) (lba : Nat) :
    Nat → Nat → DirScan → FatState → Bool × DirScan × FatState
  | 0, _, sc, st => (false, sc, st)
  | left + 1, s, sc, st =>
    let st := readSector dev vol.sectorBuf .contents ((lba + s) % 2 ^ 32) st
    match DirScan.scan (sectorEntries st.mem vol.sectorBuf) sc with
    | (true, sc) => (true, sc, st)
    | (false, sc) => scanCluster dev vol lba left (s + 1) sc st

/-- The loop over the clusters. -/
def scanClusters (dev : Device) (vol : FatVol) :
    Nat → Nat → DirScan → FatState → Except Halt (DirScan × FatState)
  | 0, _, _, _ => .error .diverges
  | fuel + 1, cluster, sc, st =>
    if cluster < fatEoc then
      match scanCluster dev vol (clusterToLba vol cluster) vol.sectorsPerCluster 0 sc st with
      | (true, sc, st) => .ok (sc, st)
      | (false, sc, st) =>
        let (cluster, st) := nextCluster dev vol cluster st
        scanClusters dev vol fuel cluster sc st
    else .ok (sc, st)

/-- `fat32_dir_t`; `count` is the length of `entries`. -/
structure FatDir where
  /-- `cluster`. -/
  cluster : Nat
  /-- `entries`. -/
  entries : List DirNode
  /-- `loaded`. -/
  loaded : Bool

/-- `load_dir`. -/
def loadDir (dev : Device) (vol : FatVol) (dir : FatDir) (heap : Blocks) (fuel : Nat) (st : FatState) :
    Except Halt (FatDir × Blocks × FatState) := do
  let (buf, heap) := heap.kmalloc .clusterBuf
  let sc : DirScan := { lfns := [], entries := [], entriesBlock := none, cap := 0, heap }
  let (sc, st) ← scanClusters dev vol fuel dir.cluster sc st
  .ok ({ dir with entries := sc.entries, loaded := true }, sc.heap.kfree buf, st)

/-! ## Listing and lookup -/

/-- An array that begins with these characters and is 0 behind them, such as the name of a node that was
cleared before. -/
def chars (s : List UInt8) : Mem := fun x => s.getD x 0

/-- The loop of `fat32_finddir`. -/
def fat32FinddirLoop (name : List UInt8) (fuel : Nat) : List DirNode → Except Halt (Option DirNode)
  | [] => .ok none
  | node :: nodes => do
    let c ← strcmp (chars node.name) (chars name) fuel 0 0
    if c = 0 then return some node
    fat32FinddirLoop name fuel nodes

/-- `if (!d->loaded) load_dir(d)`. -/
def ensureLoaded (dev : Device) (vol : FatVol) (dir : FatDir) (heap : Blocks) (fuel : Nat)
    (st : FatState) : Except Halt (FatDir × Blocks × FatState) :=
  if dir.loaded then .ok (dir, heap, st) else loadDir dev vol dir heap fuel st

/-- `fat32_finddir`: the node, if there is one. The name is given by its characters in front of the
NUL. -/
def fat32Finddir (dev : Device) (vol : FatVol) (dir : FatDir) (heap : Blocks) (fuel : Nat)
    (st : FatState) (name : List UInt8) :
    Except Halt (Option DirNode × FatDir × Blocks × FatState) := do
  let (dir, heap, st) ← ensureLoaded dev vol dir heap fuel st
  let node ← fat32FinddirLoop name fuel dir.entries
  return (node, dir, heap, st)

/-- `fat32_readdir`: the node, if there is one. -/
def fat32Readdir (dev : Device) (vol : FatVol) (dir : FatDir) (heap : Blocks) (fuel : Nat)
    (st : FatState) (idx : Nat) : Except Halt (Option DirNode × FatDir × Blocks × FatState) := do
  let (dir, heap, st) ← ensureLoaded dev vol dir heap fuel st
  return (dir.entries[idx]?, dir, heap, st)

end Aerogel
