import Aerogel.Memory.PmmSpec

/-! # Which frames `pmm_init` leaves free

`pmmInit_free_iff` reads the result off the memory map: a frame is free when the bounds the code
computes for some usable entry name it and it is not reserved. Those bounds are the entry's own,
rounded inwards, as long as they fit a word; where they do not, the word-sized mask cuts them off
(`Truncated`). `freesExactly_iff` says when this leaves the free frames as they should be. -/

namespace Aerogel

variable {T : Target}

/-! ## Vocabulary -/

/-- The frame has a byte in `[lo, hi)`. -/
def Overlaps (lo hi p : Nat) : Prop := lo < pageSize * (p + 1) ∧ pageSize * p < hi

instance (lo hi p : Nat) : Decidable (Overlaps lo hi p) := inferInstanceAs (Decidable (_ ∧ _))

/-- The frames `pmm_init` keeps: the first 1 MiB, `[0x10000, kernel_end)` and the bitmap. -/
def Reserved (T : Target) (img : KernelImage T) (p : Nat) : Prop :=
  Overlaps 0 0x100000 p ∨ Overlaps 0x10000 (kernelEnd T img) p ∨
    Overlaps img.bitmap (img.bitmap + bitmapBytes) p

/-- The entry is ordinary memory. -/
def E820Entry.Usable (e : E820Entry) : Prop := e.type = e820TypeUsable

/-- The whole frame lies inside the entry. -/
def E820Entry.Covers (e : E820Entry) (p : Nat) : Prop :=
  e.base.toNat ≤ pageSize * p ∧ pageSize * p + pageSize ≤ e.base.toNat + e.length.toNat

/-- The frame lies between the bounds `pmm_init` computes for the entry. -/
def E820Entry.Names (T : Target) (e : E820Entry) (p : Nat) : Prop :=
  entryStart T e ≤ pageSize * p ∧ pageSize * p < entryEnd T e

/-- The entry reaches so high that rounding its bounds loses the upper bits. -/
def E820Entry.Truncated (T : Target) (e : E820Entry) : Prop :=
  2 ^ T.wordBits ≤ e.base.toNat + (pageSize - 1) ∨
    2 ^ T.wordBits ≤ e.base.toNat + e.length.toNat

/-! ## Page arithmetic -/

theorem pageShift_le (T : Target) : pageShift ≤ T.wordBits := by
  cases T <;> decide

theorem addrToPage_of_lt {a : Nat} (h : a < 2 ^ T.wordBits) : addrToPage T a = a / pageSize := by
  rw [addrToPage, Nat.shiftRight_eq_div_pow]
  exact Nat.mod_eq_of_lt (lt_of_le_of_lt (Nat.div_le_self _ _) h)

/-- Rounding up to a page without wrap-around. -/
theorem pageAlign_of_lt {a : Nat} (h : a + (pageSize - 1) < 2 ^ T.wordBits) :
    pageAlign T T.wordBits a = (a + (pageSize - 1)) / pageSize * pageSize :=
  alignUp_of_lt (pageShift_le T) h

/-- The range of `pmm_mark_used` consists of the frames that overlap its addresses. -/
theorem mem_markRange {start stop q : Nat} (hstart : start < 2 ^ T.wordBits)
    (hstop : stop + (pageSize - 1) < 2 ^ T.wordBits) (hq : q < maxPages) :
    (markRange T start stop).1 ≤ q ∧ q < (markRange T start stop).2 ↔ Overlaps start stop q := by
  have hlt : (stop + (pageSize - 1)) / pageSize * pageSize < 2 ^ T.wordBits :=
    lt_of_le_of_lt (Nat.div_mul_le_self _ _) hstop
  simp only [markRange, pageAlign_of_lt hstop, addrToPage_of_lt hstart, addrToPage_of_lt hlt,
    Overlaps]
  simp only [pageSize]
  omega

/-- `kernel_end` is where the image ends, rounded up. -/
theorem kernelEnd_eq (img : KernelImage T) :
    kernelEnd T img = (img.bssEnd + (pageSize - 1)) / pageSize * pageSize :=
  pageAlign_of_lt img.bssEnd_lt

/-- Rounding up twice does not leave the address space either. -/
theorem kernelEnd_add_lt (img : KernelImage T) :
    kernelEnd T img + (pageSize - 1) < 2 ^ T.wordBits := by
  have h := img.bssEnd_lt
  rw [kernelEnd_eq]
  cases T <;> simp only [pageSize, Target.wordBits] at h ⊢ <;> omega

theorem bmEnd_eq (img : KernelImage T) :
    bmEnd T img = (img.bitmap + bitmapBytes + (pageSize - 1)) / pageSize * pageSize := by
  have h₁ := img.bssEnd_lt
  have h₂ := img.bitmap_le
  rw [bmEnd, Nat.mod_eq_of_lt (by omega)]
  exact pageAlign_of_lt (by omega)

/-- Bounds that fit a word are the entry's own, rounded inwards. -/
theorem E820Entry.names_iff_covers {e : E820Entry} (h : ¬ e.Truncated T) (p : Nat) :
    e.Names T p ↔ e.Covers p := by
  have h64 : 2 ^ T.wordBits ≤ 2 ^ 64 := by cases T <;> decide
  rw [Truncated, not_or, not_le, not_le] at h
  have hstart : entryStart T e = (e.base.toNat + (pageSize - 1)) / pageSize * pageSize := by
    have hsum : e.base.toNat + (2 ^ pageShift - 1) < 2 ^ T.wordBits := h.1
    rw [entryStart, pageAlign, alignUp, Nat.mod_eq_of_lt (lt_of_lt_of_le hsum h64)]
    exact clearLow_of_lt (pageShift_le T) hsum
  have hend : entryEnd T e = (e.base.toNat + e.length.toNat) / pageSize * pageSize := by
    rw [entryEnd, Nat.mod_eq_of_lt (lt_of_lt_of_le h.2 h64)]
    exact clearLow_of_lt (pageShift_le T) h.2
  rw [Names, Covers, hstart, hend]
  simp only [pageSize]
  omega

/-! ## The loops of `pmm_init` -/

/-- A rounded bound is a word, and a multiple of the page size. -/
theorem clearLow_page (T : Target) (x : Nat) :
    clearLow T.wordBits pageShift x < 2 ^ T.wordBits ∧
      pageSize ∣ clearLow T.wordBits pageShift x := by
  rw [clearLow_eq (pageShift_le T)]
  refine ⟨lt_of_le_of_lt (Nat.div_mul_le_self _ _) (Nat.mod_lt _ (Nat.two_pow_pos _)), ?_⟩
  exact Nat.dvd_mul_left _ _

/-- One entry frees the frames it names, if it is usable. -/
theorem testPage_pmmInitEntry (T : Target) (pm : Pmm) (e : E820Entry) {q : Nat}
    (hq : q < maxPages) :
    (pmmInitEntry T pm e).testPage q = true ↔
      pm.testPage q = true ∧ ¬ (e.Usable ∧ e.Names T q) := by
  unfold pmmInitEntry
  by_cases hu : e.type = e820TypeUsable
  swap
  · rw [if_pos hu]
    exact ⟨fun h => ⟨h, fun hn => hu hn.1⟩, fun h => h.1⟩
  rw [if_neg (not_not.mpr hu)]
  by_cases hle : entryEnd T e ≤ entryStart T e
  · -- an empty range names nothing
    rw [if_pos hle]
    have hnone : ¬ e.Names T q := fun hn => by have := hn.1; have := hn.2; omega
    exact ⟨fun h => ⟨h, fun hn => hnone hn.2⟩, fun h => h.1⟩
  rw [if_neg hle]
  obtain ⟨hs, ks, hks⟩ : entryStart T e < 2 ^ T.wordBits ∧ pageSize ∣ entryStart T e :=
    clearLow_page T _
  obtain ⟨he, ke, hke⟩ : entryEnd T e < 2 ^ T.wordBits ∧ pageSize ∣ entryEnd T e :=
    clearLow_page T _
  -- both bounds are multiples of the page size, so the loop bounds lose nothing
  have hrange : (addrToPage T (entryStart T e) ≤ q ∧ q < min (addrToPage T (entryEnd T e)) maxPages) ↔
      e.Names T q := by
    rw [addrToPage_of_lt hs, addrToPage_of_lt he, E820Entry.Names, hks, hke]
    simp only [pageSize]
    omega
  rw [testPage_clearRange]
  by_cases hn : e.Names T q
  · rw [if_pos (hrange.mpr hn)]
    exact ⟨fun h => absurd h Bool.false_ne_true, fun h => absurd ⟨hu, hn⟩ h.2⟩
  · rw [if_neg (mt hrange.mp hn)]
    exact ⟨fun h => ⟨h, fun hh => hn hh.2⟩, fun h => h.1⟩

/-- The loop over the memory map frees what some usable entry names. -/
theorem testPage_pmmInitEntries (T : Target) (map : List E820Entry) (pm : Pmm) {q : Nat}
    (hq : q < maxPages) :
    (map.foldl (pmmInitEntry T) pm).testPage q = true ↔
      pm.testPage q = true ∧ ¬ ∃ e ∈ map, e.Usable ∧ e.Names T q := by
  induction map generalizing pm with
  | nil => simp
  | cons e map ih =>
      rw [List.foldl_cons, ih, testPage_pmmInitEntry T pm e hq, List.exists_mem_cons_iff, not_or,
        and_assoc]

/-- The three reserved ranges, as `pmm_mark_used` goes over them. -/
theorem testPage_reserve (img : KernelImage T) (pm : Pmm) {q : Nat} (hq : q < maxPages) :
    (pmmMarkUsed T (pmmMarkUsed T (pmmMarkUsed T pm 0x000000 0x100000) 0x10000 (kernelEnd T img))
      img.bitmap (bmEnd T img)).testPage q = true ↔ pm.testPage q = true ∨ Reserved T img q := by
  have hw := T.two_pow_32_le
  have hend := img.bssEnd_lt
  have hbm := img.bitmap_le
  have hlow : (markRange T 0x000000 0x100000).1 ≤ q ∧ q < (markRange T 0x000000 0x100000).2 ↔
      Overlaps 0 0x100000 q :=
    mem_markRange (by omega) (by simp only [pageSize]; omega) hq
  have himage : (markRange T 0x10000 (kernelEnd T img)).1 ≤ q ∧
      q < (markRange T 0x10000 (kernelEnd T img)).2 ↔ Overlaps 0x10000 (kernelEnd T img) q :=
    mem_markRange (by omega) (kernelEnd_add_lt img) hq
  have hbitmap : (markRange T img.bitmap (bmEnd T img)).1 ≤ q ∧
      q < (markRange T img.bitmap (bmEnd T img)).2 ↔
        Overlaps img.bitmap (img.bitmap + bitmapBytes) q := by
    -- the bitmap is part of the image, so rounding its end does not wrap either
    have hbmEnd : bmEnd T img ≤ kernelEnd T img := by
      rw [bmEnd_eq, kernelEnd_eq]
      exact Nat.mul_le_mul_right _ (Nat.div_le_div_right (by omega))
    rw [mem_markRange (by omega) (lt_of_le_of_lt (by omega) (kernelEnd_add_lt img)) hq, Overlaps,
      Overlaps, bmEnd_eq]
    simp only [pageSize]
    omega
  rw [testPage_pmmMarkUsed, if_congr hbitmap rfl rfl, testPage_pmmMarkUsed, if_congr himage rfl rfl,
    testPage_pmmMarkUsed, if_congr hlow rfl rfl]
  unfold Reserved
  split_ifs with h₁ h₂ h₃ <;> simp [*]

/-- Which frames are free after `pmm_init`. -/
theorem pmmInit_free_iff (img : KernelImage T) (map : List E820Entry) (pm : Pmm) {p : Nat}
    (hp : p < maxPages) :
    (pmmInit T img map pm).testPage p = false ↔
      (∃ e ∈ map, e.Usable ∧ e.Names T p) ∧ ¬ Reserved T img p := by
  -- `memset` with 0xFF marks everything used first
  have hfull : ({ pm with bitmap := fun _ => 0xFF#8 } : Pmm).testPage p = true := by
    rw [Pmm.testPage, Bitmap.test_eq]
    change (BitVec.allOnes 8).getLsbD (p &&& 7) = true
    rw [BitVec.getLsbD_allOnes, decide_eq_true (Bitmap.place_lt p)]
  rw [← Bool.not_eq_true, pmmInit, Pmm.testPage_withUsed, testPage_reserve img _ hp,
    testPage_pmmInitEntries T map _ hp, hfull, not_or, eq_self_iff_true, true_and, not_not]

/-- The account is right when the count of set bits is put down. -/
theorem Pmm.accounted_of_eq {pm : Pmm} {used : Nat}
    (h : used = pageSize * pm.bitmap.count maxPages) : Pmm.Accounted { pm with usedBytes := used } := by
  rw [Pmm.Accounted]
  exact h

/-- `pmm_init` leaves the account right. -/
theorem accounted_pmmInit (img : KernelImage T) (map : List E820Entry) (pm : Pmm) :
    (pmmInit T img map pm).Accounted := by
  rw [pmmInit]
  exact Pmm.accounted_of_eq (recount_eq _)

/-! ## Exactly the usable memory -/

/-- The free frames are those of usable memory that are not reserved; in particular no frame is free
on account of memory above 4 GiB. -/
structure FreesExactly (T : Target) (img : KernelImage T) (map : List E820Entry) : Prop where
  /-- Free frames lie inside usable entries, and all that do are free unless reserved. -/
  free_iff : ∀ p < maxPages, (pmmInit T img map .static).testPage p = false ↔
    (∃ e ∈ map, e.Usable ∧ e.Covers p) ∧ ¬ Reserved T img p
  /-- Every free frame lies in a usable entry that starts below 4 GiB. -/
  below : ∀ p < maxPages, (pmmInit T img map .static).testPage p = false →
    ∃ e ∈ map, e.Usable ∧ e.base.toNat < 2 ^ 32 ∧ e.Covers p

/-- Truncated entries do no harm: the frames their truncated bounds name are usable anyway, and the
frames they cover are named by another entry's bounds, unless reserved. -/
def TruncationHarmless (T : Target) (img : KernelImage T) (map : List E820Entry) : Prop :=
  ∀ e ∈ map, e.Usable → e.Truncated T → ∀ p < maxPages, ¬ Reserved T img p →
    (e.Names T p → ∃ e' ∈ map, e'.Usable ∧ e'.Covers p) ∧
    (e.Covers p → ∃ e' ∈ map, e'.Usable ∧ e'.Names T p)

/-- `pmm_init` frees exactly the usable memory if and only if truncated entries do no harm. -/
theorem freesExactly_iff (T : Target) (img : KernelImage T) (map : List E820Entry) :
    FreesExactly T img map ↔ TruncationHarmless T img map := by
  constructor
  · intro h e he hu _ p hp hres
    have hfree : (∃ e ∈ map, e.Usable ∧ e.Names T p) ↔ ∃ e ∈ map, e.Usable ∧ e.Covers p := by
      have := (pmmInit_free_iff img map .static hp).symm.trans (h.free_iff p hp)
      simpa only [hres, not_false_eq_true, and_true] using this
    exact ⟨fun hn => hfree.mp ⟨e, he, hu, hn⟩, fun hc => hfree.mpr ⟨e, he, hu, hc⟩⟩
  · intro h
    -- entries that are not truncated name what they cover
    have hiff : ∀ p < maxPages, ¬ Reserved T img p →
        ((∃ e ∈ map, e.Usable ∧ e.Names T p) ↔ ∃ e ∈ map, e.Usable ∧ e.Covers p) := by
      intro p hp hres
      constructor
      · rintro ⟨e, he, hu, hn⟩
        by_cases ht : e.Truncated T
        · exact (h e he hu ht p hp hres).1 hn
        · exact ⟨e, he, hu, (E820Entry.names_iff_covers ht p).mp hn⟩
      · rintro ⟨e, he, hu, hc⟩
        by_cases ht : e.Truncated T
        · exact (h e he hu ht p hp hres).2 hc
        · exact ⟨e, he, hu, (E820Entry.names_iff_covers ht p).mpr hc⟩
    have hfree : ∀ p < maxPages, (pmmInit T img map .static).testPage p = false ↔
        (∃ e ∈ map, e.Usable ∧ e.Covers p) ∧ ¬ Reserved T img p := by
      intro p hp
      rw [pmmInit_free_iff img map .static hp]
      exact and_congr_left fun hres => hiff p hp hres
    refine ⟨hfree, fun p hp hclear => ?_⟩
    -- a frame of the first 2 GiB can only lie in an entry that starts there
    obtain ⟨⟨e, he, hu, hc⟩, -⟩ := (hfree p hp).mp hclear
    refine ⟨e, he, hu, ?_, hc⟩
    have hbase := hc.1
    simp only [pageSize, maxPages] at hp hbase
    omega

/-- A kernel image that ends inside the first 1 MiB. -/
def lowImage : KernelImage .x86 where
  bitmap := 0x20000
  bssEnd := 0x40000
  bitmap_ge := by decide
  bitmap_le := by decide
  bssEnd_lt := by decide

/-- 256 MiB of memory that begin at 4 GiB. -/
def highMemory : E820Entry := { base := 0x100000000, length := 0x10000000, type := 1, acpi := 0 }

/-- On x86 memory at 4 GiB is freed as if it were at 0. -/
theorem highMemory_not_freesExactly :
    (∀ e ∈ [highMemory], e.base.toNat + e.length.toNat ≤ 2 ^ 64) ∧
      ¬ FreesExactly .x86 lowImage [highMemory] := by
  refine ⟨by simp [highMemory], fun h => ?_⟩
  have hfree : (pmmInit .x86 lowImage [highMemory] .static).testPage 0x200 = false := by
    rw [pmmInit_free_iff _ _ _ (by decide)]
    refine ⟨⟨highMemory, by simp, rfl, by decide, by decide⟩, ?_⟩
    unfold Reserved
    decide
  obtain ⟨e, he, -, hbase, -⟩ := h.below 0x200 (by decide) hfree
  obtain rfl : e = highMemory := by simpa using he
  exact absurd hbase (by decide)

end Aerogel
