import Aerogel.Foundations.ByteMemory

/-! # Records in a byte ring with an overlong tail

A producer writes records of varying size into a ring of `N` bytes, one after the other. Every record
takes a slot of at least its own size; the next slot begins where the last one ends, modulo `N`. The
bytes of a record are never split: a record that begins near the end of the ring runs on into a tail
behind it. `Placed` says which records lie in memory from an offset on. As long as the slots together
do not exceed `N`, a new record disturbs no other one, although its bytes may lie outside the ring. -/

namespace Aerogel

namespace Mem

/-- Write a list of bytes from address `a` on. -/
def storeList (m : Mem) (a : Nat) (bs : List UInt8) : Mem :=
  fun x => if a ≤ x ∧ x < a + bs.length then bs.getD (x - a) 0 else m x

/-- The `n` bytes from address `a` on. -/
def bytes (m : Mem) (a n : Nat) : List UInt8 := (List.range n).map fun i => m (a + i)

/-- As many bytes as asked for. -/
@[simp] theorem length_bytes (m : Mem) (a n : Nat) : (m.bytes a n).length = n := by
  rw [bytes, List.length_map, List.length_range]

/-- Each of them in its place. -/
theorem getElem_bytes (m : Mem) (a n : Nat) {i : Nat} (h : i < (m.bytes a n).length) :
    (m.bytes a n)[i] = m (a + i) := by
  simp only [bytes, List.getElem_map, List.getElem_range]

/-- Bytes outside the range written are not changed. -/
theorem storeList_apply_of_outside (m : Mem) {a x : Nat} {bs : List UInt8}
    (h : x < a ∨ a + bs.length ≤ x) : m.storeList a bs x = m x := by
  rw [storeList, if_neg (by omega)]

/-- Bytes inside the range are the ones written. -/
theorem storeList_apply (m : Mem) {a i : Nat} {bs : List UInt8} (h : i < bs.length) :
    m.storeList a bs (a + i) = bs.getD i 0 := by
  rw [storeList, if_pos (by omega), Nat.add_sub_cancel_left]

/-- What was written can be read again, in whole or a first part of it. -/
theorem bytes_storeList (m : Mem) (a : Nat) {bin bs : List UInt8} (h : bin <+: bs) :
    (m.storeList a bs).bytes a bin.length = bin := by
  apply List.ext_getElem
  · exact length_bytes _ _ _
  · intro i h₁ h₂
    have hi : i < bs.length := h₂.trans_le h.length_le
    rw [getElem_bytes, storeList_apply _ hi, List.getD_eq_getElem?_getD, List.getElem?_eq_getElem hi,
      Option.getD_some, h.getElem h₂]

end Mem

/-- A kind of record: its bytes, and the slot it takes in the ring. -/
structure RecordKind (ρ : Type) where
  /-- The bytes of a record. -/
  image : ρ → List UInt8
  /-- The size of its slot. -/
  slot : ρ → Nat
  /-- The slot has room for the record. -/
  image_le : ∀ r, (image r).length ≤ slot r

namespace RecordKind

variable {ρ : Type} (K : RecordKind ρ)

/-- The slots of several records together. -/
def total : List ρ → Nat
  | [] => 0
  | r :: rs => K.slot r + total rs

/-- The records lie in memory one slot after the other, the first one at `off`. -/
def Placed (N : Nat) (m : Mem) : Nat → List ρ → Prop
  | _, [] => True
  | off, r :: rs => (∀ i < (K.image r).length, m (off + i) = (K.image r).getD i 0) ∧
      Placed N m ((off + K.slot r) % N) rs

variable {K} {N off : Nat} {m : Mem} {r : ρ} {rs : List ρ}

/-- The slots of the records in two lists. -/
theorem total_append (rs rs' : List ρ) : K.total (rs ++ rs') = K.total rs + K.total rs' := by
  induction rs with
  | nil => exact (Nat.zero_add _).symm
  | cons r rs ih =>
      rw [List.cons_append, total, total, ih]
      exact (Nat.add_assoc _ _ _).symm

/-- Two slots of a ring that is not overfull are apart in memory, tail included: the later one begins
`d` bytes after the earlier one and `n` bytes fit before the ring is full. -/
theorem slots_apart {a b n d : Nat} (hoff : off < N) (ha : a ≤ d) (hfit : d + n ≤ N)
    (hb : b ≤ n) : off + a ≤ (off + d) % N ∨ (off + d) % N + b ≤ off := by
  rcases Nat.lt_or_ge (off + d) N with hlt | hge
  · rw [Nat.mod_eq_of_lt hlt]
    omega
  · -- the later slot begins behind the end of the ring, in front of the earlier one
    rw [Nat.mod_eq_sub_mod hge, Nat.mod_eq_of_lt (by omega)]
    omega

/-- Writing a record behind the others leaves them in place and adds it. -/
theorem Placed.append (h : K.Placed N m off rs) (hoff : off < N)
    (hfit : K.total rs + K.slot r ≤ N) :
    K.Placed N (m.storeList ((off + K.total rs) % N) (K.image r)) off (rs ++ [r]) := by
  induction rs generalizing off with
  | nil =>
      refine ⟨fun i hi => ?_, trivial⟩
      have hstart : (off + K.total []) % N = off := Nat.mod_eq_of_lt hoff
      rw [hstart]
      exact m.storeList_apply hi
  | cons s rs ih =>
      obtain ⟨hhead, htail⟩ := h
      have hs := K.image_le s
      have hr := K.image_le r
      have htotal : K.total (s :: rs) = K.slot s + K.total rs := rfl
      refine ⟨fun i hi => ?_, ?_⟩
      · -- the new record does not reach into the first one
        rw [Mem.storeList_apply_of_outside]
        · exact hhead i hi
        · have hapart := slots_apart (a := (K.image s).length) (b := (K.image r).length) hoff
            (by omega) hfit hr
          omega
      · have hpos : (off + K.total (s :: rs)) % N = ((off + K.slot s) % N + K.total rs) % N := by
          rw [htotal, Nat.mod_add_mod, Nat.add_assoc]
        rw [hpos]
        exact ih htail (Nat.mod_lt _ (by omega)) (by omega)

end RecordKind

end Aerogel
