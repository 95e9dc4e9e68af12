import Aerogel.Foundations.Bitmap
import Aerogel.Foundations.Loop
import Aerogel.Machine

/-! # The physical page allocator `pmm.c`

One bit per page frame of the first 2 GiB, set while the frame is in use, beside a byte count of the
frames in use. `pmm_init` fills the bitmap from the firmware's memory map; afterwards frames are
handed out one at a time or in runs, lowest first, and given back by physical address. Entries of
the memory map are 64 bits wide on both targets, while the alignment mask `~(PAGE_SIZE - 1)` is an
`unsigned long`. -/

namespace Aerogel

/-- `MAX_PAGES`, the frames of 2 GiB. -/
def maxPages : Nat := 512 * 1024

/-- `BITMAP_BYTES`, which is `sizeof(bitmap)`. -/
def bitmapBytes : Nat := maxPages / 8

/-- `PAGE_SIZE`. -/
def pageSize : Nat := 4096

/-- `PAGE_SHIFT`. -/
def pageShift : Nat := 12

/-- `E820_TYPE_USABLE`. -/
def e820TypeUsable : UInt32 := 1

/-- `e820_entry_t`, one range of the firmware's memory map. -/
structure E820Entry where
  /-- First byte of the range. -/
  base : UInt64
  /-- Number of bytes. -/
  length : UInt64
  /-- What the range is, `E820_TYPE_USABLE` for ordinary memory. -/
  type : UInt32
  /-- Extended attributes, which the kernel does not look at. -/
  acpi : UInt32
  deriving DecidableEq, Repr

/-- Where the linker has put the kernel: the image is not loaded below `0x10000`, the bitmap is one of
its objects, and the page the image ends in is not the last one of the address space. -/
structure KernelImage (T : Target) where
  /-- Address of `bitmap`. -/
  bitmap : Nat
  /-- Address of `_bss_end`. -/
  bssEnd : Nat
  /-- The bitmap is part of the image. -/
  bitmap_ge : 0x10000 ≤ bitmap
  /-- The image ends behind the bitmap. -/
  bitmap_le : bitmap + bitmapBytes ≤ bssEnd
  /-- The end of the image can be rounded up to a page. -/
  bssEnd_lt : bssEnd + (pageSize - 1) < 2 ^ T.wordBits

/-- The static variables of `pmm.c`. -/
structure Pmm where
  /-- `bitmap`, one bit per frame. -/
  bitmap : Bitmap
  /-- `total_bytes`. -/
  totalBytes : Nat
  /-- `used_bytes`. -/
  usedBytes : Nat

namespace Pmm

/-- The static variables before `pmm_init`. -/
def static : Pmm := { bitmap := fun _ => 0#8, totalBytes := 0, usedBytes := 0 }

/-- `set_page`. -/
def setPage (pm : Pmm) (idx : Nat) : Pmm := { pm with bitmap := pm.bitmap.set idx }

/-- `clear_page`. -/
def clearPage (pm : Pmm) (idx : Nat) : Pmm := { pm with bitmap := pm.bitmap.clear idx }

/-- `test_page`. -/
def testPage (pm : Pmm) (idx : Nat) : Bool := pm.bitmap.test idx

/-- `set_page(p); used_bytes += PAGE_SIZE;`. -/
def takePage (p : Nat) (pm : Pmm) : Pmm :=
  { pm.setPage p with usedBytes := (pm.usedBytes + pageSize) % 2 ^ 64 }

end Pmm

/-- `addr_to_page`. -/
def addrToPage (T : Target) (a : Nat) : Nat := (a >>> pageShift) % 2 ^ T.wordBits

/-- `PAGE_ALIGN(a)` of a value in an unsigned type of `bits` bits. -/
def pageAlign (T : Target) (bits a : Nat) : Nat := alignUp bits T.wordBits pageShift a

/-- `pmm_mark_used`. -/
def pmmMarkUsed (T : Target) (pm : Pmm) (start stop : Nat) : Pmm :=
  forRange (addrToPage T start) (min (addrToPage T (pageAlign T T.wordBits stop)) maxPages)
    (fun p pm => if pm.testPage p then pm else pm.takePage p) pm

/-- `start` of an entry in `pmm_init`. -/
def entryStart (T : Target) (e : E820Entry) : Nat := pageAlign T 64 e.base.toNat

/-- `end` of an entry in `pmm_init`. -/
def entryEnd (T : Target) (e : E820Entry) : Nat :=
  clearLow T.wordBits pageShift ((e.base.toNat + e.length.toNat) % 2 ^ 64)

/-- The body of the loop of `pmm_init` over the memory map. -/
def pmmInitEntry (T : Target) (pm : Pmm) (e : E820Entry) : Pmm :=
  if e.type ≠ e820TypeUsable then pm
  else if entryEnd T e ≤ entryStart T e then pm
  else
    let pm := { pm with
      totalBytes := (pm.totalBytes + (entryEnd T e - entryStart T e)) % 2 ^ 64 }
    forRange (addrToPage T (entryStart T e)) (min (addrToPage T (entryEnd T e)) maxPages)
      (fun p pm => pm.clearPage p) pm

/-- The loop at the end of `pmm_init` that counts the frames in use. -/
def recount (pm : Pmm) : Nat :=
  forRange 0 maxPages
    (fun i used => if pm.testPage i then (used + pageSize) % 2 ^ 64 else used) 0

/-- `kernel_end` in `pmm_init`. -/
def kernelEnd (T : Target) (img : KernelImage T) : Nat := pageAlign T T.wordBits img.bssEnd

/-- `bm_end` in `pmm_init`. -/
def bmEnd (T : Target) (img : KernelImage T) : Nat :=
  pageAlign T T.wordBits ((img.bitmap + bitmapBytes) % 2 ^ T.wordBits)

/-- `pmm_init`, without its message on the console. -/
def pmmInit (T : Target) (img : KernelImage T) (map : List E820Entry) (pm : Pmm) : Pmm :=
  let pm := { pm with bitmap := fun _ => 0xFF#8 }
  let pm := map.foldl (pmmInitEntry T) pm
  -- reserved again: firmware, kernel image and the bitmap itself
  let pm := pmmMarkUsed T pm 0x000000 0x100000
  let pm := pmmMarkUsed T pm 0x10000 (kernelEnd T img)
  let pm := pmmMarkUsed T pm img.bitmap (bmEnd T img)
  { pm with usedBytes := recount pm }

/-- The loop of `pmm_alloc` from frame `i` on, with `rem` frames to go. -/
def pmmAllocFrom (pm : Pmm) : (rem i : Nat) → Nat × Pmm
  | 0, _ => (0, pm)
  | rem + 1, i =>
    if pm.testPage i then pmmAllocFrom pm rem (i + 1) else (i <<< pageShift, pm.takePage i)

/-- `pmm_alloc`: the address of the frame, 0 if there is none, and the allocator after the call. -/
def pmmAlloc (pm : Pmm) : Nat × Pmm := pmmAllocFrom pm (maxPages - 1) 1

/-- The loop of `pmm_alloc_n` from frame `i` on, with `rem` frames to go. The frames before `i` end
in a stretch of `run` clear ones that begins at `start`. -/
def pmmAllocNFrom (pm : Pmm) (n : Nat) : (rem i run start : Nat) → Nat × Pmm
  | 0, _, _, _ => (0, pm)
  | rem + 1, i, run, start =>
    if pm.testPage i then pmmAllocNFrom pm n rem (i + 1) 0 start
    else
      let start := if run = 0 then i else start
      if run + 1 = n then
        -- frames are set and counted without looking at them again
        (start <<< pageShift, forRange start (start + n) Pmm.takePage pm)
      else pmmAllocNFrom pm n rem (i + 1) (run + 1) start

/-- `pmm_alloc_n`: the address of the first frame, 0 if there are not `n` in a row. -/
def pmmAllocN (pm : Pmm) (n : Nat) : Nat × Pmm :=
  if n = 0 then (0, pm) else pmmAllocNFrom pm n (maxPages - 1) 1 0 0

/-- `pmm_free`. -/
def pmmFree (pm : Pmm) (phys : Nat) : Pmm :=
  let idx := phys >>> pageShift
  if maxPages ≤ idx ∨ pm.testPage idx = false then pm
  else { pm.clearPage idx with usedBytes := wsub 64 pm.usedBytes pageSize }

/-- The address of iteration `i` of `pmm_free_n`; `i << PAGE_SHIFT` is a 32-bit shift. -/
def freeAddr (T : Target) (phys i : Nat) : Nat :=
  (phys + (i <<< pageShift) % 2 ^ 32) % 2 ^ T.wordBits

/-- `pmm_free_n`. -/
def pmmFreeN (T : Target) (pm : Pmm) (phys n : Nat) : Pmm :=
  forRange 0 n (fun i pm => pmmFree pm (freeAddr T phys i)) pm

/-- `pmm_total`. -/
def pmmTotal (pm : Pmm) : Nat := pm.totalBytes

/-- `pmm_used`. -/
def pmmUsed (pm : Pmm) : Nat := pm.usedBytes

/-- `pmm_available`. -/
def pmmAvailable (pm : Pmm) : Nat := wsub 64 pm.totalBytes pm.usedBytes

end Aerogel
