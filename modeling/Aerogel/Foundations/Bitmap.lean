import Mathlib.Data.Finset.Card
import Mathlib.Data.Nat.Count

/-! # Bitmaps in byte arrays

Bit `i` of a bitmap is bit `i % 8` of byte `i / 8`. `set`, `clear` and `test` are written with the
shifts and masks C programs use; `test_set` and `test_clear` say what they do to each bit, and
`count` is the number of set bits below a bound. The last section is about taking the lowest number of a
set again and again. -/

namespace Aerogel

/-- A bitmap: the bytes of an array, by index. -/
abbrev Bitmap := Nat → BitVec 8

namespace Bitmap

/-- Set bit `i`. -/
def set (bm : Bitmap) (i : Nat) : Bitmap :=
  Function.update bm (i >>> 3) (bm (i >>> 3) ||| 1#8 <<< (i &&& 7))

/-- Clear bit `i`. -/
def clear (bm : Bitmap) (i : Nat) : Bitmap :=
  Function.update bm (i >>> 3) (bm (i >>> 3) &&& ~~~(1#8 <<< (i &&& 7)))

/-- Bit `i`, as the number the shift and mask leave. -/
def testBits (bm : Bitmap) (i : Nat) : BitVec 8 := (bm (i >>> 3) >>> (i &&& 7)) &&& 1#8

/-- Whether bit `i` is set. -/
def test (bm : Bitmap) (i : Nat) : Bool := bm.testBits i != 0#8

variable {bm : Bitmap} {i j n : Nat}

/-- An index is determined by its byte and its place there. -/
theorem index_eq_iff : i = j ↔ i >>> 3 = j >>> 3 ∧ i &&& 7 = j &&& 7 := by
  rw [Nat.shiftRight_eq_div_pow, Nat.shiftRight_eq_div_pow, Nat.and_two_pow_sub_one_eq_mod i 3,
    Nat.and_two_pow_sub_one_eq_mod j 3]
  omega

/-- A place in a byte is below 8. -/
theorem place_lt (i : Nat) : i &&& 7 < 8 := by
  rw [Nat.and_two_pow_sub_one_eq_mod i 3]
  omega

/-- The shift and mask read one bit of the byte. -/
theorem test_eq (bm : Bitmap) (i : Nat) : bm.test i = (bm (i >>> 3)).getLsbD (i &&& 7) := by
  rw [test, testBits]
  cases hbit : (bm (i >>> 3)).getLsbD (i &&& 7) with
  | false =>
      rw [bne_eq_false_iff_eq]
      apply BitVec.eq_of_getLsbD_eq
      intro k hk
      by_cases h0 : k = 0
      · simp [h0, hbit]
      · simp [BitVec.getLsbD_one, h0]
  | true =>
      rw [bne_iff_ne]
      intro h
      have := congrArg (BitVec.getLsbD · 0) h
      simp [hbit] at this

/-- The mask `1 << a` has one bit. -/
theorem getLsbD_mask {a b : Nat} (hb : b < 8) : (1#8 <<< a).getLsbD b = decide (a = b) := by
  rw [BitVec.getLsbD_shiftLeft, BitVec.getLsbD_one]
  by_cases hab : a = b
  · simp [hab, hb]
  · have : b < a ∨ b - a ≠ 0 := by omega
    rcases this with h | h <;> simp [hab, h]

/-- Setting a bit sets that bit. -/
@[simp] theorem test_set (bm : Bitmap) (i j : Nat) :
    (bm.set i).test j = (decide (i = j) || bm.test j) := by
  rw [test_eq, test_eq, set]
  by_cases hbyte : j >>> 3 = i >>> 3
  · have hplace : (i = j) ↔ (i &&& 7 = j &&& 7) := by rw [index_eq_iff]; simp [hbyte]
    rw [hbyte, Function.update_self, BitVec.getLsbD_or, getLsbD_mask (place_lt j),
      decide_eq_decide.mpr hplace, Bool.or_comm]
  · have hne : i ≠ j := fun h => hbyte (by rw [h])
    rw [Function.update_of_ne hbyte, decide_eq_false hne, Bool.false_or]

/-- Clearing a bit clears that bit. -/
@[simp] theorem test_clear (bm : Bitmap) (i j : Nat) :
    (bm.clear i).test j = (!decide (i = j) && bm.test j) := by
  rw [test_eq, test_eq, clear]
  by_cases hbyte : j >>> 3 = i >>> 3
  · have hplace : (i = j) ↔ (i &&& 7 = j &&& 7) := by rw [index_eq_iff]; simp [hbyte]
    rw [hbyte, Function.update_self, BitVec.getLsbD_and, BitVec.getLsbD_not,
      getLsbD_mask (place_lt j), decide_eq_decide.mpr hplace, Bool.and_comm,
      decide_eq_true (place_lt j), Bool.true_and]
  · have hne : i ≠ j := fun h => hbyte (by rw [h])
    rw [Function.update_of_ne hbyte, decide_eq_false hne, Bool.not_false, Bool.true_and]

/-- A bitmap is determined by its bits. -/
theorem ext_test {bm' : Bitmap} (h : ∀ i, bm.test i = bm'.test i) : bm = bm' := by
  funext k
  apply BitVec.eq_of_getLsbD_eq
  intro j hj
  have hk : (8 * k + j) >>> 3 = k := by
    rw [Nat.shiftRight_eq_div_pow]
    omega
  have hjs : (8 * k + j) &&& 7 = j := by
    rw [show 7 = 2 ^ 3 - 1 from rfl, Nat.and_two_pow_sub_one_eq_mod]
    omega
  have hbit := h (8 * k + j)
  rwa [test_eq, test_eq, hk, hjs] at hbit

/-! ## Counting set bits -/

/-- Number of set bits below `n`. -/
def count (bm : Bitmap) (n : Nat) : Nat := ((Finset.range n).filter fun i => bm.test i).card

theorem count_le (bm : Bitmap) (n : Nat) : bm.count n ≤ n := by
  calc bm.count n ≤ (Finset.range n).card := Finset.card_filter_le _ _
    _ = n := Finset.card_range n

/-- Counting bit by bit. -/
theorem count_succ (bm : Bitmap) (n : Nat) :
    bm.count (n + 1) = bm.count n + (bm.test n).toNat := by
  rw [count, count, Finset.range_add_one, Finset.filter_insert]
  cases h : bm.test n with
  | false => simp
  | true => rw [if_pos rfl, Finset.card_insert_of_notMem (by simp), Bool.toNat_true]

/-- Setting a clear bit adds one set bit. -/
theorem count_set (hi : i < n) (h : bm.test i = false) : (bm.set i).count n = bm.count n + 1 := by
  have hfilter : ((Finset.range n).filter fun j => (bm.set i).test j) =
      insert i ((Finset.range n).filter fun j => bm.test j) := by
    ext j
    simp only [Finset.mem_filter, Finset.mem_insert, Finset.mem_range, test_set, Bool.or_eq_true,
      decide_eq_true_eq]
    constructor
    · rintro ⟨hj, rfl | ht⟩
      · exact Or.inl rfl
      · exact Or.inr ⟨hj, ht⟩
    · rintro (rfl | ⟨hj, ht⟩)
      · exact ⟨hi, Or.inl rfl⟩
      · exact ⟨hj, Or.inr ht⟩
  rw [count, hfilter, Finset.card_insert_of_notMem (by simp [h]), count]

/-- Clearing a set bit takes one set bit away. -/
theorem count_clear (hi : i < n) (h : bm.test i = true) :
    (bm.clear i).count n + 1 = bm.count n := by
  have hfilter : ((Finset.range n).filter fun j => bm.test j) =
      insert i ((Finset.range n).filter fun j => (bm.clear i).test j) := by
    ext j
    simp only [Finset.mem_filter, Finset.mem_insert, Finset.mem_range, test_clear,
      Bool.and_eq_true, Bool.not_eq_true', decide_eq_false_iff_not]
    constructor
    · rintro ⟨hj, ht⟩
      by_cases hij : i = j
      · exact Or.inl hij.symm
      · exact Or.inr ⟨hj, hij, ht⟩
    · rintro (rfl | ⟨hj, -, ht⟩)
      · exact ⟨hi, h⟩
      · exact ⟨hj, ht⟩
  rw [count, count, hfilter, Finset.card_insert_of_notMem (by simp)]

/-- What is not set is clear. -/
theorem count_add_card_clear (bm : Bitmap) (n : Nat) :
    bm.count n + ((Finset.range n).filter fun i => bm.test i = false).card = n := by
  have hsplit := Finset.card_filter_add_card_filter_not (s := Finset.range n) fun i => bm.test i = true
  simp only [Bool.not_eq_true, Finset.card_range] at hsplit
  exact hsplit

end Bitmap

/-! ## Taking the lowest first -/

section Least

variable {P : Nat → Prop} [DecidablePred P] {k i p : Nat}

/-- With more than `k` elements in front of `i`, one of these has `k` in front of it. -/
theorem exists_count_eq (h : k < Nat.count P i) : ∃ q < i, P q ∧ Nat.count P q = k := by
  induction i with
  | zero => exact absurd h (by simp)
  | succ i ih =>
      rw [Nat.count_succ] at h
      by_cases hk : k < Nat.count P i
      · obtain ⟨q, hq, hres⟩ := ih hk
        exact ⟨q, by omega, hres⟩
      · split at h
        · exact ⟨i, by omega, ‹P i›, by omega⟩
        · omega

/-- When the elements with fewer than `k` in front of them are gone, the least one left has `k`. -/
theorem count_eq_of_least (hk : k ≤ Nat.count P i)
    (hlow : ∀ q < i, P q → Nat.count P q < k) : Nat.count P i = k := by
  by_contra hne
  obtain ⟨q, hq, hPq, hcount⟩ := exists_count_eq (show k < Nat.count P i by omega)
  have := hlow q hq hPq
  omega

/-- Taking it leaves those with more than `k`. -/
theorem count_le_and_ne_iff (hi : P i) (hcount : Nat.count P i = k) (hp : P p) :
    k ≤ Nat.count P p ∧ p ≠ i ↔ k + 1 ≤ Nat.count P p := by
  constructor
  · rintro ⟨hle, hne⟩
    have : Nat.count P p ≠ k := fun heq => hne (Nat.count_injective hp hi (heq.trans hcount.symm))
    omega
  · intro hlt
    refine ⟨by omega, ?_⟩
    rintro rfl
    omega

/-- What is taken so far are those with at most `k`. -/
theorem count_lt_or_eq_iff (hi : P i) (hcount : Nat.count P i = k) :
    P p ∧ Nat.count P p < k ∨ p = i ↔ P p ∧ Nat.count P p < k + 1 := by
  constructor
  · rintro (⟨hp, hlt⟩ | rfl)
    · exact ⟨hp, by omega⟩
    · exact ⟨hi, by omega⟩
  · rintro ⟨hp, hlt⟩
    by_cases hk : Nat.count P p < k
    · exact Or.inl ⟨hp, hk⟩
    · exact Or.inr (Nat.count_injective hp hi (by omega))

end Least

end Aerogel
