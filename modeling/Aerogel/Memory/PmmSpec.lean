import Aerogel.Memory.Pmm

/-! # What each page allocator operation does to the bitmap

`testPage` after an operation is described in terms of `testPage` before it, and every operation
keeps `Accounted`: the byte count is `PAGE_SIZE` times the number of set bits. The callers of these
lemmas never look at bytes or masks. -/

namespace Aerogel

namespace Pmm

/-- The byte count agrees with the bitmap. -/
def Accounted (pm : Pmm) : Prop := pm.usedBytes = pageSize * pm.bitmap.count maxPages

@[simp] theorem testPage_withUsed (pm : Pmm) (used q : Nat) :
    ({ pm with usedBytes := used } : Pmm).testPage q = pm.testPage q := rfl

@[simp] theorem testPage_takePage (pm : Pmm) (p q : Nat) :
    (pm.takePage p).testPage q = (decide (p = q) || pm.testPage q) :=
  Bitmap.test_set ..

@[simp] theorem testPage_clearPage (pm : Pmm) (p q : Nat) :
    (pm.clearPage p).testPage q = (!decide (p = q) && pm.testPage q) :=
  Bitmap.test_clear ..

/-- Taking a clear frame keeps the account. -/
theorem Accounted.takePage {pm : Pmm} (h : pm.Accounted) {p : Nat} (hp : p < maxPages)
    (hclear : pm.testPage p = false) : (pm.takePage p).Accounted := by
  have hset : (pm.bitmap.set p).count maxPages = pm.bitmap.count maxPages + 1 :=
    Bitmap.count_set hp hclear
  have hle := Bitmap.count_le (pm.bitmap.set p) maxPages
  have husedBytes : pm.usedBytes = pageSize * pm.bitmap.count maxPages := h
  simp only [Accounted, Pmm.takePage, setPage, hset, husedBytes]
  rw [hset] at hle
  simp only [pageSize, maxPages] at hle ⊢
  rw [Nat.mod_eq_of_lt (by omega)]
  omega

end Pmm

variable {T : Target} {pm : Pmm}

/-! ## Loops over a range of frames -/

/-- The loop of `pmm_init` over one entry clears its range. -/
theorem testPage_clearRange (lo hi : Nat) (pm : Pmm) (q : Nat) :
    (forRange lo hi (fun p pm => pm.clearPage p) pm).testPage q =
      if lo ≤ q ∧ q < hi then false else pm.testPage q := by
  refine forRange_pointwise (g := fun _ => false) ?_ lo hi pm q
  intro i pm j
  rw [Pmm.testPage_clearPage]
  by_cases h : j = i
  · simp [h]
  · simp [h, Ne.symm h]

/-- Setting a range of frames, whether or not they are looked at first. -/
theorem testPage_takeRange (lo hi : Nat) (pm : Pmm) (q : Nat) :
    (forRange lo hi Pmm.takePage pm).testPage q =
      if lo ≤ q ∧ q < hi then true else pm.testPage q := by
  refine forRange_pointwise (g := fun _ => true) ?_ lo hi pm q
  intro i pm j
  rw [Pmm.testPage_takePage]
  by_cases h : j = i
  · simp [h]
  · simp [h, Ne.symm h]

/-- Setting a range of clear frames keeps the account. -/
theorem Pmm.Accounted.takeRange {lo hi : Nat} (h : pm.Accounted) (hhi : hi ≤ maxPages)
    (hclear : ∀ q, lo ≤ q → q < hi → pm.testPage q = false) :
    (forRange lo hi Pmm.takePage pm).Accounted := by
  -- the frames not reached yet are still clear, so each one adds to both sides
  refine (forRange_induction (P := fun i (s : Pmm) =>
    s.Accounted ∧ ∀ q, i ≤ q → q < hi → s.testPage q = false) ⟨h, hclear⟩ ?_).1
  rintro i s - hi' ⟨hs, hrest⟩
  refine ⟨hs.takePage (by omega) (hrest i le_rfl hi'), ?_⟩
  intro q hq hqhi
  rw [Pmm.testPage_takePage, hrest q (by omega) hqhi, decide_eq_false (by omega), Bool.or_false]

/-! ## `pmm_mark_used` and the count of `pmm_init` -/

/-- The frames `pmm_mark_used(start, end)` goes over. -/
def markRange (T : Target) (start stop : Nat) : Nat × Nat :=
  (addrToPage T start, min (addrToPage T (pageAlign T T.wordBits stop)) maxPages)

/-- `pmm_mark_used` sets the frames of its range. -/
theorem testPage_pmmMarkUsed (T : Target) (pm : Pmm) (start stop q : Nat) :
    (pmmMarkUsed T pm start stop).testPage q =
      if (markRange T start stop).1 ≤ q ∧ q < (markRange T start stop).2 then true
      else pm.testPage q := by
  refine forRange_pointwise (g := fun _ => true) ?_ _ _ pm q
  intro i pm j
  by_cases h : j = i
  · cases ht : pm.testPage i <;> simp [h, ht]
  · cases ht : pm.testPage i <;> simp [h, Ne.symm h]

/-- `pmm_mark_used` keeps the account. -/
theorem Pmm.Accounted.pmmMarkUsed (h : pm.Accounted) (T : Target) (start stop : Nat) :
    (pmmMarkUsed T pm start stop).Accounted := by
  refine forRange_induction (P := fun _ (s : Pmm) => s.Accounted) h ?_
  intro i s _ hi hs
  cases ht : s.testPage i with
  | true => rwa [if_pos rfl]
  | false =>
      rw [if_neg Bool.false_ne_true]
      exact hs.takePage (by omega) ht

/-- Counting the frames in use gives the account. -/
theorem recount_eq (pm : Pmm) : recount pm = pageSize * pm.bitmap.count maxPages := by
  refine forRange_induction (P := fun i used => used = pageSize * pm.bitmap.count i) rfl ?_
  rintro i used - hi rfl
  have hle := Bitmap.count_le pm.bitmap i
  rw [Bitmap.count_succ]
  cases ht : pm.testPage i with
  | false => rw [if_neg Bool.false_ne_true, show pm.bitmap.test i = false from ht]; rfl
  | true =>
      rw [if_pos rfl, show pm.bitmap.test i = true from ht, Bool.toNat_true, Nat.mul_add,
        Nat.mul_one]
      apply Nat.mod_eq_of_lt
      simp only [pageSize, maxPages] at hi ⊢
      omega

/-! ## Handing out frames -/

/-- `pmm_alloc` from frame `i` on. -/
theorem pmmAllocFrom_spec (pm : Pmm) (rem i : Nat) :
    (pmmAllocFrom pm rem i = (0, pm) ∧ ∀ q, i ≤ q → q < i + rem → pm.testPage q = true) ∨
    ∃ p, i ≤ p ∧ p < i + rem ∧ pm.testPage p = false ∧
      (∀ q, i ≤ q → q < p → pm.testPage q = true) ∧
      pmmAllocFrom pm rem i = (p <<< pageShift, pm.takePage p) := by
  induction rem generalizing i with
  | zero => exact Or.inl ⟨rfl, fun q _ _ => by omega⟩
  | succ rem ih =>
      rw [pmmAllocFrom]
      cases ht : pm.testPage i with
      | false =>
          rw [if_neg Bool.false_ne_true]
          exact Or.inr ⟨i, le_rfl, by omega, ht, fun q _ _ => by omega, rfl⟩
      | true =>
          rw [if_pos rfl]
          -- frame `i` is set, so whatever is said from `i + 1` on holds from `i` on
          have hset : ∀ q, i ≤ q → (i + 1 ≤ q → pm.testPage q = true) → pm.testPage q = true := by
            intro q hq h
            by_cases hqi : q = i
            · rw [hqi, ht]
            · exact h (by omega)
          rcases ih (i + 1) with ⟨hrun, hall⟩ | ⟨p, h₁, h₂, hp, hlow, hrun⟩
          · exact Or.inl ⟨hrun, fun q hq hqi => hset q hq fun h => hall q h (by omega)⟩
          · exact Or.inr ⟨p, by omega, by omega, hp,
              fun q hq hqp => hset q hq fun h => hlow q h hqp, hrun⟩

/-- `pmm_alloc` hands out the lowest clear frame from 1 on, and changes nothing if all are set. -/
theorem pmmAlloc_spec (pm : Pmm) :
    (pmmAlloc pm = (0, pm) ∧ ∀ q, 1 ≤ q → q < maxPages → pm.testPage q = true) ∨
    ∃ p, 1 ≤ p ∧ p < maxPages ∧ pm.testPage p = false ∧
      (∀ q, 1 ≤ q → q < p → pm.testPage q = true) ∧
      pmmAlloc pm = (p <<< pageShift, pm.takePage p) := by
  have h := pmmAllocFrom_spec pm (maxPages - 1) 1
  rwa [show 1 + (maxPages - 1) = maxPages from rfl] at h

/-- The `n` frames from `p` on are clear. -/
def Pmm.ClearRun (pm : Pmm) (p n : Nat) : Prop := ∀ q, p ≤ q → q < p + n → pm.testPage q = false

/-- A set frame among them. -/
theorem Pmm.not_clearRun {p n q : Nat} (hp : p ≤ q) (hq : q < p + n) (hset : pm.testPage q = true) :
    ¬ pm.ClearRun p n := by
  intro h
  rw [h q hp hq] at hset
  exact Bool.noConfusion hset

/-- `pmm_alloc_n` from frame `i` on, where the last `run` frames before `i` are clear and no stretch of
`n` clear frames begins in front of them. -/
theorem pmmAllocNFrom_spec {n rem i run start : Nat} (hrun : run < n) (hlast : run + 1 ≤ i)
    (hstart : run ≠ 0 → start + run = i)
    (hclear : ∀ q, i ≤ q + run → q < i → pm.testPage q = false)
    (hbefore : ∀ p, 1 ≤ p → p + run < i → ¬ pm.ClearRun p n) :
    (pmmAllocNFrom pm n rem i run start = (0, pm) ∧
      ∀ p, 1 ≤ p → p + n ≤ i + rem → ¬ pm.ClearRun p n) ∨
    ∃ p, 1 ≤ p ∧ p + n ≤ i + rem ∧ pm.ClearRun p n ∧
      (∀ p', 1 ≤ p' → p' < p → ¬ pm.ClearRun p' n) ∧
      pmmAllocNFrom pm n rem i run start =
        (p <<< pageShift, forRange p (p + n) Pmm.takePage pm) := by
  induction rem generalizing i run start with
  | zero => exact Or.inl ⟨rfl, fun p hp hpn => hbefore p hp (by omega)⟩
  | succ rem ih =>
      rw [pmmAllocNFrom, show i + (rem + 1) = i + 1 + rem by omega]
      cases ht : pm.testPage i with
      | true =>
          rw [if_pos rfl]
          -- frame `i` breaks every stretch that has not ended before it
          have hbroken : ∀ p, 1 ≤ p → p + 0 < i + 1 → ¬ pm.ClearRun p n := by
            intro p hp hpi
            by_cases hold : p + run < i
            · exact hbefore p hp hold
            · exact Pmm.not_clearRun (by omega) (by omega) ht
          exact ih (by omega) (by omega) (fun h => absurd rfl h) (fun q _ _ => by omega) hbroken
      | false =>
          rw [if_neg Bool.false_ne_true]
          -- the stretch of clear frames now includes frame `i`
          have hstart' : (if run = 0 then i else start) + run = i := by
            split
            · omega
            · exact hstart ‹_›
          have hclear' : ∀ q, i + 1 ≤ q + (run + 1) → q < i + 1 → pm.testPage q = false := by
            intro q h₁ h₂
            by_cases hqi : q = i
            · rw [hqi, ht]
            · exact hclear q (by omega) (by omega)
          simp only
          by_cases hn : run + 1 = n
          · rw [if_pos hn]
            refine Or.inr ⟨_, ?_, ?_, ?_, ?_, rfl⟩
            · omega
            · omega
            · intro q h₁ h₂
              exact hclear' q (by omega) (by omega)
            · intro p hp hlt
              exact hbefore p hp (by omega)
          · rw [if_neg hn]
            exact ih (by omega) (by omega) (fun _ => by omega) hclear'
              fun p hp hpi => hbefore p hp (by omega)

/-- `pmm_alloc_n` hands out the lowest `n` clear frames in a row from 1 on, and changes nothing if there
are none. -/
theorem pmmAllocN_spec (pm : Pmm) (n : Nat) :
    (pmmAllocN pm n = (0, pm) ∧
      (n = 0 ∨ ∀ p, 1 ≤ p → p + n ≤ maxPages → ¬ pm.ClearRun p n)) ∨
    ∃ p, 1 ≤ p ∧ p + n ≤ maxPages ∧ pm.ClearRun p n ∧
      (n ≠ 0 ∧ ∀ p', 1 ≤ p' → p' < p → ¬ pm.ClearRun p' n) ∧
      pmmAllocN pm n = (p <<< pageShift, forRange p (p + n) Pmm.takePage pm) := by
  unfold pmmAllocN
  split
  case isTrue h0 => exact Or.inl ⟨rfl, Or.inl h0⟩
  case isFalse h0 =>
    -- the loop begins with an empty stretch before frame 1
    have hscan := @pmmAllocNFrom_spec pm n (maxPages - 1) 1 0 0 (by omega) (by omega)
      (fun h => absurd rfl h) (fun q _ _ => by omega) fun p _ _ => by omega
    rw [show 1 + (maxPages - 1) = maxPages from rfl] at hscan
    rcases hscan with ⟨hrun, hnone⟩ | ⟨p, hp, hpn, hclear, hleast, hrun⟩
    · exact Or.inl ⟨hrun, Or.inr hnone⟩
    · exact Or.inr ⟨p, hp, hpn, hclear, ⟨h0, hleast⟩, hrun⟩

/-! ## Giving back frames -/

/-- `pmm_free` of a frame that is clear or out of range does nothing. -/
theorem pmmFree_of_clear {phys : Nat}
    (h : maxPages ≤ phys >>> pageShift ∨ pm.testPage (phys >>> pageShift) = false) :
    pmmFree pm phys = pm :=
  if_pos h

/-- `pmm_free` of a set frame clears it and takes it off the account. -/
theorem pmmFree_of_set {phys : Nat}
    (h : ¬ (maxPages ≤ phys >>> pageShift ∨ pm.testPage (phys >>> pageShift) = false)) :
    pmmFree pm phys =
      { pm.clearPage (phys >>> pageShift) with usedBytes := wsub 64 pm.usedBytes pageSize } :=
  if_neg h

/-- `pmm_free` clears the frame of its address. -/
theorem testPage_pmmFree (pm : Pmm) (phys : Nat) {q : Nat} (hq : q < maxPages) :
    (pmmFree pm phys).testPage q = if q = phys >>> pageShift then false else pm.testPage q := by
  by_cases h : maxPages ≤ phys >>> pageShift ∨ pm.testPage (phys >>> pageShift) = false
  · rw [pmmFree_of_clear h]
    by_cases hq' : q = phys >>> pageShift
    · rw [if_pos hq', hq']
      exact h.resolve_left (by omega)
    · rw [if_neg hq']
  · rw [pmmFree_of_set h, Pmm.testPage_withUsed, Pmm.testPage_clearPage]
    by_cases hq' : q = phys >>> pageShift
    · simp [hq']
    · simp [hq', Ne.symm hq']

/-- `pmm_free` keeps the account, whatever it is given. -/
theorem Pmm.Accounted.pmmFree (h : pm.Accounted) (phys : Nat) : (pmmFree pm phys).Accounted := by
  by_cases hset : maxPages ≤ phys >>> pageShift ∨ pm.testPage (phys >>> pageShift) = false
  · rwa [pmmFree_of_clear hset]
  -- a set frame is in the count, so the account does not borrow
  · rw [pmmFree_of_set hset]
    rw [not_or, not_le, Bool.not_eq_false] at hset
    have hcount : (pm.bitmap.clear (phys >>> pageShift)).count maxPages + 1 =
      pm.bitmap.count maxPages := Bitmap.count_clear hset.1 hset.2
    have hle := Bitmap.count_le pm.bitmap maxPages
    have hused : pm.usedBytes = pageSize * pm.bitmap.count maxPages := h
    simp only [Pmm.Accounted, Pmm.clearPage, hused, ← hcount]
    simp only [pageSize, maxPages] at hle hcount ⊢
    rw [wsub_of_le (by omega) (by omega)]
    omega

/-- `pmm_free_n` clears the frames it names. -/
theorem testPage_pmmFreeN (T : Target) (pm : Pmm) (phys n : Nat) {q : Nat} (hq : q < maxPages) :
    (pmmFreeN T pm phys n).testPage q = true ↔
      pm.testPage q = true ∧ ∀ i < n, q ≠ freeAddr T phys i >>> pageShift := by
  have h : (pmmFreeN T pm phys n).testPage q = true ↔
      pm.testPage q = true ∧ ∀ i < max 0 n, q ≠ freeAddr T phys i >>> pageShift := by
    refine forRange_induction (P := fun k (s : Pmm) => s.testPage q = true ↔
      pm.testPage q = true ∧ ∀ i < k, q ≠ freeAddr T phys i >>> pageShift) (by simp) ?_
    intro k s _ _ hs
    rw [testPage_pmmFree s _ hq]
    by_cases hk : q = freeAddr T phys k >>> pageShift
    · rw [if_pos hk]
      simp only [Bool.false_eq_true, false_iff, not_and]
      exact fun _ h => h k (by omega) hk
    · rw [if_neg hk, hs]
      refine and_congr_right fun _ => ⟨fun h i hi => ?_, fun h i hi => h i (by omega)⟩
      by_cases hik : i = k
      · rwa [hik]
      · exact h i (by omega)
  rwa [Nat.zero_max] at h

/-- `pmm_free_n` keeps the account. -/
theorem Pmm.Accounted.pmmFreeN (h : pm.Accounted) (T : Target) (phys n : Nat) :
    (pmmFreeN T pm phys n).Accounted :=
  forRange_induction (P := fun _ (s : Pmm) => s.Accounted) h fun _ _ _ _ hs => hs.pmmFree _

end Aerogel
