import Aerogel.Filesystem.Vfs
import Aerogel.Foundations.ByteFile
import Aerogel.Memory.HeapOwners

/-! # The memory file system `tmpfs.c`

Nodes, the records behind them and the contents of files are allocations on the kernel heap, which the
code finds through pointers in memory. The functions that a node carries are numbers here, the addresses
the compiler gives them; a caller's buffer is given by its bytes. -/

namespace Aerogel

/-! ## Layouts -/

/-- The fields of `vfs_node_t` that `tmpfs.c` assigns or reads. -/
inductive NodeField
  | name | flags | size | fsData | read | write | readdir | finddir
  deriving DecidableEq, Repr

/-- Layout of `vfs_node_t`; behind `finddir` come three pointers that stay null. The 64-bit `size` is
aligned to 4 bytes on x86. -/
def vfsNode : Target → StructLayout NodeField
  | .x86 =>
    { off := fun
        | .name => 0 | .flags => 256 | .size => 260 | .fsData => 268 | .read => 272 | .write => 276
        | .readdir => 280 | .finddir => 284
      width := fun
        | .name => 256 | .flags => 4 | .size => 8 | .fsData => 4 | .read => 4 | .write => 4
        | .readdir => 4 | .finddir => 4
      size := 300
      inside := by intro f; cases f <;> decide
      disjoint := by intro f g h; cases f <;> cases g <;> first | exact absurd rfl h | decide }
  | .x86_64 =>
    { off := fun
        | .name => 0 | .flags => 256 | .size => 264 | .fsData => 272 | .read => 280 | .write => 288
        | .readdir => 296 | .finddir => 304
      width := fun
        | .name => 256 | .flags => 4 | .size => 8 | .fsData => 8 | .read => 8 | .write => 8
        | .readdir => 8 | .finddir => 8
      size := 336
      inside := by intro f; cases f <;> decide
      disjoint := by intro f g h; cases f <;> cases g <;> first | exact absurd rfl h | decide }

/-- The fields of `tmpfs_file_t`. -/
inductive FileField
  | data | size
  deriving DecidableEq, Repr

/-- Layout of `tmpfs_file_t`. -/
def tmpfsFile : Target → StructLayout FileField
  | .x86 =>
    { off := fun | .data => 0 | .size => 4
      width := fun | .data => 4 | .size => 4
      size := 8
      inside := by intro f; cases f <;> decide
      disjoint := by intro f g h; cases f <;> cases g <;> first | exact absurd rfl h | decide }
  | .x86_64 =>
    { off := fun | .data => 0 | .size => 8
      width := fun | .data => 8 | .size => 4
      size := 16
      inside := by intro f; cases f <;> decide
      disjoint := by intro f g h; cases f <;> cases g <;> first | exact absurd rfl h | decide }

/-- The fields of `tmpfs_dir_t`. -/
inductive DirField
  | entries | count | cap
  deriving DecidableEq, Repr

/-- Layout of `tmpfs_dir_t`. -/
def tmpfsDir : Target → StructLayout DirField
  | .x86 =>
    { off := fun | .entries => 0 | .count => 4 | .cap => 8
      width := fun | .entries => 4 | .count => 4 | .cap => 4
      size := 12
      inside := by intro f; cases f <;> decide
      disjoint := by intro f g h; cases f <;> cases g <;> first | exact absurd rfl h | decide }
  | .x86_64 =>
    { off := fun | .entries => 0 | .count => 8 | .cap => 12
      width := fun | .entries => 8 | .count => 4 | .cap => 4
      size := 16
      inside := by intro f; cases f <;> decide
      disjoint := by intro f g h; cases f <;> cases g <;> first | exact absurd rfl h | decide }

/-- The addresses of the functions that `tmpfs.c` puts into its nodes. -/
structure TmpfsCode where
  /-- `tmpfs_read`. -/
  read : Nat
  /-- `tmpfs_write`. -/
  write : Nat
  /-- `tmpfs_readdir`. -/
  readdir : Nat
  /-- `tmpfs_finddir`. -/
  finddir : Nat

/-- The arguments `data` and `size` of `tmpfs_mkfile`. -/
inductive FileData
  /-- `data` is `NULL`. -/
  | null (size : Nat)
  /-- `data` points to a buffer of `size` bytes. -/
  | buffer (bytes : List UInt8)

/-- The argument `size`. -/
def FileData.size : FileData → Nat
  | .null size => size
  | .buffer bytes => bytes.length

/-! ## The code -/

section Code

variable (T : Target) (C : TmpfsCode)

/-- `node->f`. -/
abbrev nodeGet (m : Mem) (node : Nat) (f : NodeField) : Nat := (vfsNode T).get m node f

/-- `f->g` of a file's record. -/
abbrev fileGet (m : Mem) (f : Nat) (g : FileField) : Nat := (tmpfsFile T).get m f g

/-- `d->g` of a directory's record. -/
abbrev dirGet (m : Mem) (d : Nat) (g : DirField) : Nat := (tmpfsDir T).get m d g

/-- `tmpfs_read`: the value it returns and the bytes it copies to the caller's buffer. The offset is 64
bits wide and is compared as such; it only loses its upper half once it is known to be below the size. -/
def tmpfsRead (m : Mem) (node off sz : Nat) : Nat × List UInt8 :=
  let f := nodeGet T m node .fsData
  if fileGet T m f .size ≤ off then (0, [])
  else
    let sz := if fileGet T m f .size < (off + sz) % 2 ^ 64 then
        wsub 64 (fileGet T m f .size) off % 2 ^ 32
      else sz
    (sz, m.bytes ((fileGet T m f .data + off % 2 ^ 32) % 2 ^ T.wordBits) sz)

/-- The first part of `tmpfs_write`: make room for `need` bytes if the file is shorter. -/
def growFile (h : Heap) (node f need : Nat) : Except Halt Heap := do
  if fileGet T h.mem f .size < need then
    let (p, h) ← krealloc T h (fileGet T h.mem f .data) need
    let m := (tmpfsFile T).set h.mem f .data p
    let m := (tmpfsFile T).set m f .size need
    let m := (vfsNode T).set m node .size (fileGet T m f .size)
    return { h with mem := m }
  else return h

/-- `tmpfs_write`: the value it returns and the heap after the call. The end of the range written is
computed in 32 bits. -/
def tmpfsWrite (h : Heap) (node off : Nat) (buf : List UInt8) : Except Halt (Nat × Heap) := do
  let f := nodeGet T h.mem node .fsData
  let h ← growFile T h node f ((off % 2 ^ 32 + buf.length) % 2 ^ 32)
  let dst := (fileGet T h.mem f .data + off % 2 ^ 32) % 2 ^ T.wordBits
  return (buf.length, { h with mem := h.mem.storeList dst buf })

/-- `d->entries[i]`. -/
def dirEntry (m : Mem) (d i : Nat) : Nat :=
  m.load ((dirGet T m d .entries + i * T.ptrBytes) % 2 ^ T.wordBits) T.ptrBytes

/-- `tmpfs_readdir`: the address of the node, 0 for `NULL`. -/
def tmpfsReaddir (m : Mem) (node idx : Nat) : Nat :=
  let d := nodeGet T m node .fsData
  if idx < dirGet T m d .count then dirEntry T m d idx else 0

/-- The loop of `tmpfs_finddir` over the `left` entries from number `i` on. -/
def finddirLoop (m : Mem) (d name fuel : Nat) : Nat → Nat → Except Halt Nat
  | 0, _ => .ok 0
  | left + 1, i => do
    let c ← strcmp m m fuel (dirEntry T m d i + (vfsNode T).off .name) name
    if c = 0 then return dirEntry T m d i
    finddirLoop m d name fuel left (i + 1)

/-- `tmpfs_finddir`: the address of the node, 0 for `NULL`. -/
def tmpfsFinddir (m : Mem) (node name fuel : Nat) : Except Halt Nat :=
  let d := nodeGet T m node .fsData
  finddirLoop T m d name fuel (dirGet T m d .count) 0

/-- The first part of `dir_add`: make room for one more entry if there is none. -/
def growDir (h : Heap) (d : Nat) : Except Halt Heap := do
  if dirGet T h.mem d .cap ≤ dirGet T h.mem d .count then
    let m := (tmpfsDir T).set h.mem d .cap
      (if dirGet T h.mem d .cap ≠ 0 then dirGet T h.mem d .cap * 2 else 4)
    let (p, h) ← krealloc T { h with mem := m } (dirGet T m d .entries)
      (dirGet T m d .cap * T.ptrBytes % 2 ^ T.wordBits)
    return { h with mem := (tmpfsDir T).set h.mem d .entries p }
  else return h

/-- `dir_add`. -/
def dirAdd (h : Heap) (d n : Nat) : Except Halt Heap := do
  let h ← growDir T h d
  let i := dirGet T h.mem d .count
  let m := (tmpfsDir T).set h.mem d .count (i + 1)
  let slot := (dirGet T m d .entries + i * T.ptrBytes) % 2 ^ T.wordBits
  return { h with mem := m.store slot T.ptrBytes n }

/-- The node that `tmpfs_create` and `tmpfs_mkfile` make: cleared, named, and with these fields
assigned. -/
def newNode (h : Heap) (name : Nat) (fields : List (NodeField × Nat)) : Except Halt (Nat × Heap) := do
  let (n, h) ← kmalloc T h (vfsNode T).size
  let m := memset h.mem n 0 (vfsNode T).size
  let m := strncpy m (n + (vfsNode T).off .name) name 255
  return (n, { h with mem := (vfsNode T).setAll m n fields })

/-- `tmpfs_create`. -/
def tmpfsCreate (h : Heap) (name : Nat) : Except Halt (Nat × Heap) := do
  let (d, h) ← kmalloc T h (tmpfsDir T).size
  let h := { h with mem := memset h.mem d 0 (tmpfsDir T).size }
  newNode T h name
    [(.flags, vfsDir), (.fsData, d), (.readdir, C.readdir), (.finddir, C.finddir)]

/-- `tmpfs_mkdir`. -/
def tmpfsMkdir (h : Heap) (parent name : Nat) : Except Halt (Nat × Heap) := do
  let (n, h) ← tmpfsCreate T C h name
  let h ← dirAdd T h (nodeGet T h.mem parent .fsData) n
  return (n, h)

/-- The first part of `tmpfs_mkfile`: the file's record and its contents. -/
def newFile (h : Heap) (data : FileData) : Except Halt (Nat × Heap) := do
  let (f, h) ← kmalloc T h (tmpfsFile T).size
  let (p, h) ← kmalloc T h data.size
  let m := (tmpfsFile T).set h.mem f .data p
  let m := (tmpfsFile T).set m f .size data.size
  match data with
  | .null _ => return (f, { h with mem := m })
  | .buffer bytes => return (f, { h with mem := m.storeList (fileGet T m f .data) bytes })

/-- `tmpfs_mkfile`. -/
def tmpfsMkfile (h : Heap) (parent name : Nat) (data : FileData) : Except Halt (Nat × Heap) := do
  let (f, h) ← newFile T h data
  let (n, h) ← newNode T h name
    [(.flags, vfsFile), (.size, data.size), (.fsData, f), (.read, C.read), (.write, C.write)]
  let h ← dirAdd T h (nodeGet T h.mem parent .fsData) n
  return (n, h)

end Code

end Aerogel
