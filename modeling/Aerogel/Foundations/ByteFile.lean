import Aerogel.Foundations.RingRecords

/-! # Files as byte arrays with unknown positions

A `ByteFile` is what the user of a file knows about it: its size, and at each position the byte last
stored there, if one ever was. Positions below the size where nothing was stored have some byte in any
implementation, but the model does not say which. `Reads` is what a read may return, `HeldAt` says that
memory holds the file from an address on. -/

namespace Aerogel

/-- A file as its user knows it. -/
@[ext]
structure ByteFile where
  /-- The size in bytes. -/
  size : Nat
  /-- The byte last stored at a position, if there is one. -/
  stored : Nat → Option UInt8
  /-- Nothing is stored behind the end. -/
  inside : ∀ i, size ≤ i → stored i = none

namespace ByteFile

variable {f : ByteFile} {m m' : Mem} {a i off sz n n' : Nat} {bytes bytes' buf : List UInt8}

/-- A file of a given size in which nothing has been stored. -/
def unset (size : Nat) : ByteFile := ⟨size, fun _ => none, fun _ _ => rfl⟩

/-- A file with these contents. -/
def ofBytes (bytes : List UInt8) : ByteFile :=
  ⟨bytes.length, fun i => bytes[i]?, fun _ hi => List.getElem?_eq_none hi⟩

/-- Store `buf` at offset `off`; the file grows if it has to. -/
def write (f : ByteFile) (off : Nat) (buf : List UInt8) : ByteFile where
  size := max f.size (off + buf.length)
  stored i := if off ≤ i ∧ i < off + buf.length then buf[i - off]? else f.stored i
  inside i hi := by
    rw [if_neg (by omega)]
    exact f.inside i (by omega)

/-- Make the file at least `n` bytes long, without storing anything. -/
def grow (f : ByteFile) (n : Nat) : ByteFile where
  size := max f.size n
  stored := f.stored
  inside i hi := f.inside i (by omega)

/-- A write may be preceded by making room for it. -/
theorem write_grow (f : ByteFile) (off : Nat) (buf : List UInt8) :
    (f.grow (off + buf.length)).write off buf = f.write off buf := by
  refine ByteFile.ext ?_ rfl
  exact max_eq_left (le_max_right _ _)

/-- A file of the right size that is written as a whole. -/
theorem write_unset (bytes : List UInt8) : (unset bytes.length).write 0 bytes = ofBytes bytes := by
  refine ByteFile.ext ?_ (funext fun i => ?_)
  · exact max_eq_right (Nat.le_add_left _ _) |>.trans (Nat.zero_add _)
  · simp only [write, unset, ofBytes]
    split_ifs with hi
    · rfl
    · exact (List.getElem?_eq_none (by omega)).symm

/-- A write that fits does not grow the file. -/
theorem size_write (h : off + buf.length ≤ f.size) : (f.write off buf).size = f.size := max_eq_left h

/-- How many bytes a read returns: those in front of the end of the file. -/
def readLen (f : ByteFile) (off sz : Nat) : Nat := if f.size ≤ off then 0 else min sz (f.size - off)

/-- The count `n` and the bytes are a proper result of reading `sz` bytes at `off`. -/
structure Reads (f : ByteFile) (off sz n : Nat) (bytes : List UInt8) : Prop where
  /-- As many bytes as there are in front of the end. -/
  count : n = f.readLen off sz
  /-- The count is the number of bytes returned. -/
  length : bytes.length = n
  /-- Every position that was ever stored to reads as the last byte stored there. -/
  stored : ∀ i v, i < n → f.stored (off + i) = some v → bytes[i]? = some v

/-- Something was stored at every position that a read returns. -/
def Covers (f : ByteFile) (off sz : Nat) : Prop :=
  ∀ i < f.readLen off sz, (f.stored (off + i)).isSome = true

instance (f : ByteFile) (off sz : Nat) : Decidable (f.Covers off sz) :=
  inferInstanceAs (Decidable (∀ i < f.readLen off sz, (f.stored (off + i)).isSome = true))

/-- A read of positions that were all stored to has one result. -/
theorem Reads.unique (h : f.Reads off sz n bytes) (h' : f.Reads off sz n' bytes')
    (hcov : f.Covers off sz) : n = n' ∧ bytes = bytes' := by
  have hn : n = n' := h.count.trans h'.count.symm
  refine ⟨hn, List.ext_getElem? fun i => ?_⟩
  by_cases hi : i < n
  · obtain ⟨v, hv⟩ := Option.isSome_iff_exists.mp (hcov i (h.count ▸ hi))
    rw [h.stored i v hi hv, h'.stored i v (hn ▸ hi) hv]
  · have hlen := h.length
    have hlen' := h'.length
    rw [List.getElem?_eq_none (by omega), List.getElem?_eq_none (by omega)]

/-- Memory holds what was stored in the file, from address `a` on. -/
def HeldAt (f : ByteFile) (m : Mem) (a : Nat) : Prop := ∀ i v, f.stored i = some v → m (a + i) = v

/-- A file is held by the bytes below its size. -/
theorem HeldAt.congr (h : f.HeldAt m a) {b : Nat} (heq : ∀ i < f.size, m' (b + i) = m (a + i)) :
    f.HeldAt m' b := by
  intro i v hv
  have hi : i < f.size := by
    by_contra hle
    rw [f.inside i (by omega)] at hv
    cases hv
  rw [heq i hi]
  exact h i v hv

/-- Storing bytes in memory is writing them to the file. -/
theorem HeldAt.write (h : f.HeldAt m a) (off : Nat) (buf : List UInt8) :
    (f.write off buf).HeldAt (m.storeList (a + off) buf) a := by
  intro i v hv
  simp only [ByteFile.write] at hv
  by_cases hi : off ≤ i ∧ i < off + buf.length
  · rw [if_pos hi] at hv
    have hstore : m.storeList (a + off) buf (a + off + (i - off)) = buf.getD (i - off) 0 :=
      m.storeList_apply (by omega)
    rw [show a + off + (i - off) = a + i by omega] at hstore
    rw [hstore, List.getD_eq_getElem?_getD, hv, Option.getD_some]
  · rw [if_neg hi] at hv
    rw [m.storeList_apply_of_outside (by omega)]
    exact h i v hv

/-- Nothing is said about a file in which nothing was stored. -/
theorem heldAt_unset (m : Mem) (a size : Nat) : (unset size).HeldAt m a := fun _ _ hv => nomatch hv

/-- The bytes of memory at the offset are a proper result of a read. -/
theorem HeldAt.reads (h : f.HeldAt m a) :
    f.Reads off sz (f.readLen off sz) (m.bytes (a + off) (f.readLen off sz)) := by
  refine ⟨rfl, Mem.length_bytes _ _ _, fun i v hi hv => ?_⟩
  have hlen : i < (m.bytes (a + off) (f.readLen off sz)).length := by
    rw [Mem.length_bytes]
    exact hi
  rw [List.getElem?_eq_getElem hlen, Mem.getElem_bytes, Nat.add_assoc, h _ v hv]

end ByteFile

end Aerogel
