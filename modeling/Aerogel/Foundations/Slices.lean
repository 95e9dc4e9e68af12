import Mathlib.Data.List.Infix

/-! # Slices of growing arrays

`window` reads a slice, `sliceAssign` replaces one, with the bounds clipped to the array: a slice that
is assigned past the end makes the array longer. The lemmas say what a window shows after a slice of
the same length as its new contents was assigned. -/

namespace Aerogel

variable {α : Type} {l bs : List α} {i a n : Nat}

/-- `l[i : i + n]`. -/
def window (l : List α) (i n : Nat) : List α := (l.drop i).take n

/-- `l[i : j] = bs`. -/
def sliceAssign (l : List α) (i j : Nat) (bs : List α) : List α :=
  l.take i ++ bs ++ l.drop (max i j)

/-- A window is not longer than asked for. -/
theorem length_window_le (l : List α) (i n : Nat) : (window l i n).length ≤ n :=
  List.length_take_le _ _

/-- What a longer window begins with. -/
theorem prefix_window_iff : bs <+: window l i n ↔ window l i bs.length = bs ∧ bs.length ≤ n := by
  rw [window, List.prefix_take_iff, List.prefix_iff_eq_take, eq_comm]
  rfl

/-- What precedes the slice has its length when the slice begins in the array. -/
theorem length_take_of_le (h : i ≤ l.length) : (l.take i).length = i := by
  rw [List.length_take, Nat.min_eq_left h]

/-- The array grows if the slice reaches past its end. -/
theorem length_sliceAssign (h : i ≤ l.length) :
    (sliceAssign l i (i + bs.length) bs).length = max l.length (i + bs.length) := by
  rw [sliceAssign, List.length_append, List.length_append, length_take_of_le h, List.length_drop]
  omega

/-- The slice shows what was assigned. -/
theorem window_sliceAssign_self (h : i ≤ l.length) (j : Nat) :
    window (sliceAssign l i j bs) i bs.length = bs := by
  rw [window, sliceAssign, List.append_assoc, List.drop_append, length_take_of_le h,
    Nat.sub_self, List.drop_zero, List.drop_eq_nil_of_le (length_take_of_le h).le, List.nil_append,
    List.take_append_length]

/-- In front of the slice nothing changes. -/
theorem window_sliceAssign_of_le (h : i ≤ l.length) (han : a + n ≤ i) (j : Nat) :
    window (sliceAssign l i j bs) a n = window l a n := by
  have hlen := length_take_of_le h
  rw [window, sliceAssign, List.append_assoc, List.drop_append_of_le_length (by omega),
    List.take_append_of_le_length (by rw [List.length_drop]; omega), List.drop_take, List.take_take,
    Nat.min_eq_left (by omega), window]

/-- A slice of an array given in three parts is replaced, whatever the length of its new contents. -/
theorem sliceAssign_append {p q r : List α} {j : Nat} (hi : p.length = i) (hj : p.length + q.length = j)
    (bs : List α) : sliceAssign (p ++ q ++ r) i j bs = p ++ bs ++ r := by
  have hmax : max i j = (p ++ q).length := by rw [List.length_append]; omega
  rw [sliceAssign, List.append_assoc p q r, List.take_left' hi, hmax, ← List.append_assoc, List.drop_left]

/-- A slice that reaches past the end cuts the array off. -/
theorem sliceAssign_of_length_le {p q : List α} {j : Nat} (hi : p.length = i) (hj : (p ++ q).length ≤ j)
    (bs : List α) : sliceAssign (p ++ q) i j bs = p ++ bs := by
  rw [sliceAssign, List.take_left' hi, List.drop_eq_nil_of_le (hj.trans (Nat.le_max_right i j)), List.append_nil]

/-- A slice behind the end is appended. -/
theorem sliceAssign_of_end_le {j : Nat} (hi : l.length ≤ i) (bs : List α) : sliceAssign l i j bs = l ++ bs := by
  rw [sliceAssign, List.take_of_length_le hi, List.drop_eq_nil_of_le (hi.trans (Nat.le_max_left i j)),
    List.append_nil]

/-- A window of a window. -/
theorem window_window {m : Nat} (h : a + m ≤ n) : window (window l i n) a m = window l (i + a) m := by
  rw [window, window, window, List.drop_take, List.drop_drop, List.take_take, Nat.min_eq_left (by omega)]

/-- A part of a concatenation, seen where it begins. -/
theorem window_flatten (parts : List (List α)) {k : Nat} (hk : k < parts.length) :
    window parts.flatten (parts.take k).flatten.length parts[k].length = parts[k] := by
  have hsplit : parts.flatten = (parts.take k).flatten ++ (parts[k] ++ (parts.drop (k + 1)).flatten) := by
    rw [← List.flatten_cons, List.getElem_cons_drop, ← List.flatten_append, List.take_append_drop]
  rw [window, hsplit, List.drop_left, List.take_left]

end Aerogel
