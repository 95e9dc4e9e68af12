import Aerogel.Foundations.BlockList
import Aerogel.Foundations.LinkedSegment
import Aerogel.Libc.MemOps
import Aerogel.Machine

/-! # The kernel heap `heap.c`

`kmalloc`, `kcalloc`, `krealloc` and `kfree` over byte memory: block headers are records inside the
arena, linked both ways by address, and the code finds its way through them with loads and stores.
Sizes and addresses follow the target's `size_t`; the header's `size` field is 32 bits wide on both
targets. Loops over the block list carry fuel; `walkFuel` exceeds the number of headers that fit an
arena below 4 GiB, and a walk that exhausts it is a divergence. -/

namespace Aerogel

/-- The fields of `block_hdr_t`. -/
inductive HdrField
  | magic | size | used | next | prev
  deriving DecidableEq, Repr

/-- Layout of `block_hdr_t`. The links are pointers, so they are aligned to the pointer size after
the padded `used` byte: 20 bytes on x86, 32 bytes on x86_64. -/
def blockHdr : Target → StructLayout HdrField
  | .x86 =>
    { off := fun | .magic => 0 | .size => 4 | .used => 8 | .next => 12 | .prev => 16
      width := fun | .magic => 4 | .size => 4 | .used => 1 | .next => 4 | .prev => 4
      size := 20
      inside := by intro f; cases f <;> decide
      disjoint := by intro f g h; cases f <;> cases g <;> first | exact absurd rfl h | decide }
  | .x86_64 =>
    { off := fun | .magic => 0 | .size => 4 | .used => 8 | .next => 16 | .prev => 24
      width := fun | .magic => 4 | .size => 4 | .used => 1 | .next => 8 | .prev => 8
      size := 32
      inside := by intro f; cases f <;> decide
      disjoint := by intro f g h; cases f <;> cases g <;> first | exact absurd rfl h | decide }

/-- `sizeof(block_hdr_t)`. -/
def hdrBytes (T : Target) : Nat := (blockHdr T).size

/-- `HEAP_MAGIC`. -/
def heapMagic : Nat := 0xAE0CA001

/-- `MIN_SPLIT`. -/
def minSplit : Nat := 32

/-- Bound on the number of headers a walk may visit. -/
def walkFuel : Nat := 2 ^ 32

/-- The heap's state: memory, and the two static variables of `heap.c`. -/
structure Heap where
  /-- All of memory; the arena's headers live in it. -/
  mem : Mem
  /-- `heap_head`, the address of the first header (0 for `NULL`). -/
  heapHead : Nat
  /-- `heap_used`. -/
  heapUsed : Nat

section Code

variable (T : Target)

/-- `b->f`. -/
abbrev hdrGet (m : Mem) (b : Nat) (f : HdrField) : Nat := (blockHdr T).get m b f

/-- `b->f = v`. -/
abbrev hdrSet (m : Mem) (b : Nat) (f : HdrField) (v : Nat) : Mem := (blockHdr T).set m b f v

/-- `heap_init`. -/
def heapInit (m : Mem) (start size : Nat) : Heap :=
  let b := start
  let m := hdrSet T m b .magic heapMagic
  let m := hdrSet T m b .size (wsub T.wordBits size (hdrBytes T))
  let m := hdrSet T m b .used 0
  let m := hdrSet T m b .next 0
  let m := hdrSet T m b .prev 0
  { mem := m, heapHead := b, heapUsed := 0 }

/-- `find_free`: the loop from block `b` on; the result is the address of the block, 0 for `NULL`. -/
def findFree (m : Mem) (size : Nat) : Nat → Nat → Except Halt Nat
  | 0, _ => .error .diverges
  | fuel + 1, b =>
    if b = 0 then .ok 0
    else if hdrGet T m b .used = 0 ∧ size ≤ hdrGet T m b .size then .ok b
    else findFree m size fuel (hdrGet T m b .next)

/-- `split`. The guard's sum and the new block's address are computed in `size_t`. -/
def split (m : Mem) (b size : Nat) : Mem :=
  if hdrGet T m b .size < (size + hdrBytes T + minSplit) % 2 ^ T.wordBits then m
  else
    let nb := (b + hdrBytes T + size) % 2 ^ T.wordBits
    let m := hdrSet T m nb .magic heapMagic
    let m := hdrSet T m nb .size
      (wsub T.wordBits (wsub T.wordBits (hdrGet T m b .size) size) (hdrBytes T))
    let m := hdrSet T m nb .used 0
    let m := hdrSet T m nb .next (hdrGet T m b .next)
    let m := hdrSet T m nb .prev b
    -- relink the neighbours of the new block
    let m := if hdrGet T m b .next ≠ 0 then hdrSet T m (hdrGet T m b .next) .prev nb else m
    let m := hdrSet T m b .next nb
    hdrSet T m b .size size

/-- One merge of `coalesce`: block `b` swallows its successor `n` and takes over its link. -/
def mergeInto (m : Mem) (b n : Nat) : Mem :=
  let m := hdrSet T m b .size (hdrGet T m b .size + (hdrBytes T + hdrGet T m n .size))
  let m := hdrSet T m b .next (hdrGet T m n .next)
  if hdrGet T m b .next ≠ 0 then hdrSet T m (hdrGet T m b .next) .prev b else m

/-- The forward loop of `coalesce`: `while (b->next && !b->next->used)`. -/
def mergeForward (b : Nat) : Nat → Mem → Except Halt Mem
  | 0, _ => .error .diverges
  | fuel + 1, m =>
    if hdrGet T m b .next ≠ 0 ∧ hdrGet T m (hdrGet T m b .next) .used = 0 then
      mergeForward b fuel (mergeInto T m b (hdrGet T m b .next))
    else .ok m

/-- `coalesce`: merge forward as long as possible, then once backward. -/
def coalesce (m : Mem) (b : Nat) : Except Halt Mem := do
  let m ← mergeForward T b walkFuel m
  if hdrGet T m b .prev ≠ 0 ∧ hdrGet T m (hdrGet T m b .prev) .used = 0 then
    return mergeInto T m (hdrGet T m b .prev) b
  else return m

/-- `kmalloc`: the returned address (0 for `NULL`) and the heap after the call. -/
def kmalloc (h : Heap) (size : Nat) : Except Halt (Nat × Heap) := do
  if size = 0 then return (0, h)
  let size := alignUp T.wordBits T.wordBits 3 size
  let b ← findFree T h.mem size walkFuel h.heapHead
  -- `kpanic` does not return
  if b = 0 then
    throw (.panic "kmalloc: out of heap memory (requested %u bytes)" (size % 2 ^ 32))
  let m := split T h.mem b size
  let m := hdrSet T m b .used 1
  return ((b + hdrBytes T) % 2 ^ T.wordBits,
    { h with mem := m, heapUsed := (h.heapUsed + size) % 2 ^ T.wordBits })

/-- `kcalloc`. -/
def kcalloc (h : Heap) (n size : Nat) : Except Halt (Nat × Heap) := do
  let bytes := n * size % 2 ^ T.wordBits
  let (p, h) ← kmalloc T h bytes
  if p ≠ 0 then return (p, { h with mem := memset h.mem p 0 bytes })
  else return (p, h)

/-- `kfree`. -/
def kfree (h : Heap) (ptr : Nat) : Except Halt Heap := do
  if ptr = 0 then return h
  let b := wsub T.wordBits ptr (hdrBytes T)
  if hdrGet T h.mem b .magic ≠ heapMagic then
    throw (.panic "kfree: corrupt heap block at %p" ptr)
  if hdrGet T h.mem b .used = 0 then
    throw (.panic "kfree: double free at %p" ptr)
  let used := wsub T.wordBits h.heapUsed (hdrGet T h.mem b .size)
  let m := hdrSet T h.mem b .used 0
  let m ← coalesce T m b
  return { h with mem := m, heapUsed := used }

/-- `krealloc`. -/
def krealloc (h : Heap) (ptr size : Nat) : Except Halt (Nat × Heap) := do
  if ptr = 0 then kmalloc T h size
  else if size = 0 then
    let h ← kfree T h ptr
    return (0, h)
  else
    let b := wsub T.wordBits ptr (hdrBytes T)
    if hdrGet T h.mem b .magic ≠ heapMagic then
      throw (.panic "krealloc: corrupt heap block at %p" ptr)
    -- the block is large enough already; it is not split either
    if size ≤ hdrGet T h.mem b .size then return (ptr, h)
    let (nb, h) ← kmalloc T h size
    let h := { h with mem := memcpy h.mem nb ptr (hdrGet T h.mem b .size) }
    let h ← kfree T h ptr
    return (nb, h)

/-- `kheap_used`. -/
def kheapUsed (h : Heap) : Nat := h.heapUsed

end Code

/-! ## Header access lemmas -/

section Access

variable {T : Target} {m : Mem}

theorem hdrBytes_pos (T : Target) : 0 < hdrBytes T := by cases T <;> decide

/-- Two headers that do not overlap. -/
def Apart (T : Target) (a b : Nat) : Prop := a + hdrBytes T ≤ b ∨ b + hdrBytes T ≤ a

theorem Apart.symm {a b : Nat} (h : Apart T a b) : Apart T b a := Or.symm h

/-- The value a header field holds after it was assigned `v`. -/
def hdrTrunc (T : Target) (f : HdrField) (v : Nat) : Nat := v % 256 ^ (blockHdr T).width f

theorem hdrTrunc_size (T : Target) (v : Nat) : hdrTrunc T .size v = v % 2 ^ 32 := by
  cases T <;> rfl

theorem hdrTrunc_magic (T : Target) : hdrTrunc T .magic heapMagic = heapMagic := by
  cases T <;> rfl

theorem hdrTrunc_zero (T : Target) (f : HdrField) : hdrTrunc T f 0 = 0 := Nat.zero_mod _

theorem hdrTrunc_used_one (T : Target) : hdrTrunc T .used 1 = 1 := by cases T <;> rfl

/-- A link field holds every address of the target. -/
theorem hdrTrunc_next {v : Nat} (h : v < 2 ^ T.wordBits) : hdrTrunc T .next v = v := by
  cases T <;> exact Nat.mod_eq_of_lt h

/-- A link field holds every address of the target. -/
theorem hdrTrunc_prev {v : Nat} (h : v < 2 ^ T.wordBits) : hdrTrunc T .prev v = v := by
  cases T <;> exact Nat.mod_eq_of_lt h

/-- A link read from memory is an address of the target. -/
theorem hdrGet_next_lt (m : Mem) (a : Nat) : hdrGet T m a .next < 2 ^ T.wordBits := by
  have h := (blockHdr T).get_lt m a .next
  cases T <;> exact h

@[simp] theorem hdrGet_hdrSet_same (a : Nat) (f : HdrField) (v : Nat) :
    hdrGet T (hdrSet T m a f v) a f = hdrTrunc T f v :=
  (blockHdr T).get_set_same m a f v

theorem hdrGet_hdrSet_of_ne (a : Nat) {f g : HdrField} (v : Nat) (h : f ≠ g) :
    hdrGet T (hdrSet T m a f v) a g = hdrGet T m a g :=
  (blockHdr T).get_set_of_ne m a v h

theorem hdrGet_hdrSet_of_apart {a b : Nat} {f g : HdrField} {v : Nat} (h : Apart T a b) :
    hdrGet T (hdrSet T m a f v) b g = hdrGet T m b g :=
  (blockHdr T).get_set_of_disjoint m f g v h

/-- Writing into a header changes nothing outside it. -/
theorem hdrSet_apply_of_outside {a x : Nat} {f : HdrField} {v : Nat}
    (h : x < a ∨ a + hdrBytes T ≤ x) : hdrSet T m a f v x = m x :=
  (blockHdr T).set_apply_of_outside m f v h

end Access

end Aerogel
