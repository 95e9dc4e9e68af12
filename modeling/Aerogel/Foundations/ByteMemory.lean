import Mathlib.Data.Nat.Basic
import Mathlib.Tactic.Ring

/-! # Byte-addressed memory with little-endian accesses

Memory is a function from addresses to bytes. `load` and `store` move little-endian integers of
any width, and `StructLayout` describes a record by the offset and width of each field, so that a
program's field accesses become `get` and `set`. The lemmas say how reads see writes: the same
field reads back what was stored, another field or another record is not disturbed. -/

namespace Aerogel

/-- Memory: one byte at every address. -/
abbrev Mem := Nat → UInt8

namespace Mem

/-- The little-endian integer held in the `n` bytes from address `a`. -/
def load (m : Mem) (a : Nat) : Nat → Nat
  | 0 => 0
  | n + 1 => (m a).toNat + 256 * load m (a + 1) n

/-- Store the low `n` bytes of `v` at address `a`, little-endian. -/
def store (m : Mem) (a n v : Nat) : Mem :=
  fun x => if a ≤ x ∧ x < a + n then UInt8.ofNat (v / 256 ^ (x - a)) else m x

/-- A store leaves every byte outside its range alone. -/
theorem store_apply_of_outside (m : Mem) {a n v x : Nat} (h : x < a ∨ a + n ≤ x) :
    store m a n v x = m x := by
  rw [store, if_neg (by omega)]

/-- A load only depends on the bytes of its range. -/
theorem load_congr {m m' : Mem} {a n : Nat} (h : ∀ x, a ≤ x → x < a + n → m x = m' x) :
    load m a n = load m' a n := by
  induction n generalizing a with
  | zero => rfl
  | succ n ih =>
      rw [load, load, h a (by omega) (by omega), ih fun x h₁ h₂ => h x (by omega) (by omega)]

/-- A load at another address that holds the same bytes. -/
theorem load_eq_of_bytes {m m' : Mem} {a b n : Nat} (h : ∀ i < n, m' (b + i) = m (a + i)) :
    load m' b n = load m a n := by
  induction n generalizing a b with
  | zero => rfl
  | succ n ih =>
      have hrest : ∀ i < n, m' (b + 1 + i) = m (a + 1 + i) := by
        intro i hi
        rw [Nat.add_assoc, Nat.add_assoc, Nat.add_comm 1 i]
        exact h (i + 1) (by omega)
      have hfirst : m' b = m a := h 0 (Nat.succ_pos n)
      rw [load, load, hfirst, ih hrest]

/-- Two loads behind each other are one. -/
theorem load_add (m : Mem) (a n k : Nat) : load m a (n + k) = load m a n + 256 ^ n * load m (a + n) k := by
  induction n generalizing a with
  | zero => rw [Nat.zero_add, Nat.pow_zero, Nat.one_mul, Nat.add_zero, load, Nat.zero_add]
  | succ n ih =>
      rw [Nat.succ_add, load, ih, load, Nat.pow_succ, Nat.add_assoc a 1 n, Nat.add_comm 1 n]
      ring

/-- A load of `n` bytes is below `256 ^ n`. -/
theorem load_lt (m : Mem) (a n : Nat) : load m a n < 256 ^ n := by
  induction n generalizing a with
  | zero => simp [load]
  | succ n ih =>
      have h₁ := ih (a + 1)
      have h₂ := (m a).toNat_lt
      rw [load, Nat.pow_succ]
      omega

/-- Bytes that are 0 load as 0. -/
theorem load_eq_zero {m : Mem} {a n : Nat} (h : ∀ x, a ≤ x → x < a + n → m x = 0) :
    load m a n = 0 := by
  induction n generalizing a with
  | zero => rfl
  | succ n ih =>
      rw [load, h a le_rfl (by omega), ih fun x h₁ h₂ => h x (by omega) (by omega)]
      rfl

/-- Loading what was just stored gives the stored value, truncated to the width. -/
theorem load_store_same (m : Mem) (a n v : Nat) : load (store m a n v) a n = v % 256 ^ n := by
  induction n generalizing m a v with
  | zero => simp [load, Nat.mod_one]
  | succ n ih =>
      have htail : load (store m a (n + 1) v) (a + 1) n
          = load (store m (a + 1) n (v / 256)) (a + 1) n := by
        refine load_congr fun x h₁ h₂ => ?_
        rw [store, store, if_pos (by omega), if_pos (by omega)]
        obtain ⟨k, rfl⟩ : ∃ k, x = a + 1 + k := ⟨x - (a + 1), by omega⟩
        rw [show a + 1 + k - a = k + 1 by omega, show a + 1 + k - (a + 1) = k by omega,
          Nat.pow_succ, Nat.mul_comm, Nat.div_div_eq_div_mul]
      have hhead : (store m a (n + 1) v a).toNat = v % 256 := by
        rw [store, if_pos (by omega), Nat.sub_self, Nat.pow_zero, Nat.div_one]
        exact UInt8.toNat_ofNat'
      rw [load, htail, ih, hhead, Nat.pow_succ, Nat.mul_comm (256 ^ n), Nat.mod_mul]

/-- A load does not see a store to a disjoint range. -/
theorem load_store_of_disjoint (m : Mem) {a n v b k : Nat} (h : a + n ≤ b ∨ b + k ≤ a) :
    load (store m a n v) b k = load m b k :=
  load_congr fun _ _ _ => store_apply_of_outside m (by omega)

end Mem

/-- A record layout: every field has an offset and a width in bytes, fields lie inside the record
and do not overlap. -/
structure StructLayout (F : Type) where
  /-- Offset of a field from the record's address. -/
  off : F → Nat
  /-- Width of a field in bytes. -/
  width : F → Nat
  /-- Size of the whole record, padding included. -/
  size : Nat
  /-- Every field lies inside the record. -/
  inside : ∀ f, off f + width f ≤ size
  /-- Distinct fields do not overlap. -/
  disjoint : ∀ f g, f ≠ g → off f + width f ≤ off g ∨ off g + width g ≤ off f

namespace StructLayout

variable {F : Type} (L : StructLayout F)

/-- Read field `f` of the record at address `a`. -/
def get (m : Mem) (a : Nat) (f : F) : Nat := m.load (a + L.off f) (L.width f)

/-- Write field `f` of the record at address `a`. -/
def set (m : Mem) (a : Nat) (f : F) (v : Nat) : Mem := m.store (a + L.off f) (L.width f) v

/-- A field reads back what was written to it, truncated to its width. -/
theorem get_set_same (m : Mem) (a : Nat) (f : F) (v : Nat) :
    L.get (L.set m a f v) a f = v % 256 ^ L.width f :=
  Mem.load_store_same m _ _ v

/-- Writing one field leaves the other fields of the record alone. -/
theorem get_set_of_ne (m : Mem) (a : Nat) {f g : F} (v : Nat) (h : f ≠ g) :
    L.get (L.set m a f v) a g = L.get m a g :=
  Mem.load_store_of_disjoint m (by have := L.disjoint f g h; omega)

/-- Writing a field of one record leaves a disjoint record alone. -/
theorem get_set_of_disjoint (m : Mem) {a b : Nat} (f g : F) (v : Nat)
    (h : a + L.size ≤ b ∨ b + L.size ≤ a) : L.get (L.set m a f v) b g = L.get m b g :=
  Mem.load_store_of_disjoint m (by have := L.inside f; have := L.inside g; omega)

/-- Writing a field leaves every byte outside the record alone. -/
theorem set_apply_of_outside (m : Mem) {a x : Nat} (f : F) (v : Nat) (h : x < a ∨ a + L.size ≤ x) :
    L.set m a f v x = m x :=
  m.store_apply_of_outside (by have := L.inside f; omega)

/-- A field only depends on the bytes of its record. -/
theorem get_congr {m m' : Mem} {a : Nat} (f : F)
    (h : ∀ x, a ≤ x → x < a + L.size → m x = m' x) : L.get m a f = L.get m' a f :=
  Mem.load_congr fun x h₁ h₂ => h x (by omega) (by have := L.inside f; omega)

/-- A field's value fits its width. -/
theorem get_lt (m : Mem) (a : Nat) (f : F) : L.get m a f < 256 ^ L.width f :=
  Mem.load_lt m _ _

/-- Write several fields of the record, one after the other. -/
def setAll (m : Mem) (a : Nat) : List (F × Nat) → Mem
  | [] => m
  | (f, v) :: fields => setAll (L.set m a f v) a fields

/-- Writing fields leaves every byte outside the record alone. -/
theorem setAll_apply_of_outside (m : Mem) {a x : Nat} (fields : List (F × Nat))
    (h : x < a ∨ a + L.size ≤ x) : L.setAll m a fields x = m x := by
  induction fields generalizing m with
  | nil => rfl
  | cons fv fields ih => rw [setAll, ih, L.set_apply_of_outside m _ _ h]

/-- Writing other fields leaves the bytes of a field alone. -/
theorem setAll_apply_of_notMem (m : Mem) {a x : Nat} {f : F} {fields : List (F × Nat)}
    (hf : f ∉ fields.map Prod.fst) (h₁ : a + L.off f ≤ x) (h₂ : x < a + L.off f + L.width f) :
    L.setAll m a fields x = m x := by
  induction fields generalizing m with
  | nil => rfl
  | cons fv fields ih =>
      rw [List.map_cons, List.mem_cons, not_or] at hf
      have hdisj := L.disjoint f fv.1 hf.1
      rw [setAll, ih _ hf.2]
      exact Mem.store_apply_of_outside _ (by omega)

/-- A field that is not among those written keeps its value. -/
theorem get_setAll_of_notMem (m : Mem) (a : Nat) {f : F} {fields : List (F × Nat)}
    (h : f ∉ fields.map Prod.fst) : L.get (L.setAll m a fields) a f = L.get m a f :=
  Mem.load_congr fun _ h₁ h₂ => L.setAll_apply_of_notMem m h h₁ h₂

/-- Every field among those written, each once, holds the value it was given. -/
theorem get_setAll (m : Mem) (a : Nat) {f : F} {v : Nat} {fields : List (F × Nat)}
    (hnd : (fields.map Prod.fst).Nodup) (h : (f, v) ∈ fields) :
    L.get (L.setAll m a fields) a f = v % 256 ^ L.width f := by
  induction fields generalizing m with
  | nil => cases h
  | cons fv fields ih =>
      rw [List.map_cons, List.nodup_cons] at hnd
      rcases List.mem_cons.mp h with rfl | h
      · rw [setAll, L.get_setAll_of_notMem _ a hnd.1, L.get_set_same]
      · rw [setAll, ih _ hnd.2 h]

end StructLayout

end Aerogel
