import Aerogel.Foundations.RadixTree
import Aerogel.Libc.MemOps
import Aerogel.Memory.PmmInit

/-! # Page tables in physical memory

Both targets keep their translations in tables of one page each, with entries as wide as a pointer:
1024 entries on x86, 512 on x86_64. The top table is a static object of the kernel, the others are
frames from `pmm_alloc`. Physical memory is addressed directly. This module has what the two managers
share: the format of an entry, the frames they draw, and the tables as a radix tree of distinct
frames. -/

namespace Aerogel

/-! ## Entries -/

/-- `PDE_PRESENT` and `PTE_PRESENT`. -/
def ptePresent : Nat := 0x01

/-- `PDE_WRITABLE` and `PTE_WRITABLE`. -/
def pteWritable : Nat := 0x02

/-- `PDE_PS` on x86, `PTE_HUGE` on x86_64. -/
def pteHuge : Nat := 0x80

/-- Entries of a table. -/
def Target.entries : Target → Nat
  | .x86 => 1024
  | .x86_64 => 512

/-- `table[i]`. -/
def entry (T : Target) (m : Mem) (t i : Nat) : Nat := m.load (t + T.ptrBytes * i) T.ptrBytes

/-- `table[i] = v`. -/
def setEntry (T : Target) (m : Mem) (t i v : Nat) : Mem :=
  m.store (t + T.ptrBytes * i) T.ptrBytes v

/-- What paging works with. A call of `pmm_alloc` that finds a frame returns one that was not returned
before and that is not the top table's. -/
structure Frames (T : Target) where
  /-- Address of `page_dir` on x86, of `pml4` on x86_64. -/
  root : Nat
  /-- What the calls of `pmm_alloc` return, in the order of the calls; 0 if there is no frame. -/
  alloc : Nat → Nat
  /-- The top table is `ALIGN(4096)`. -/
  root_aligned : pageSize ∣ root
  /-- Frames are pages. -/
  alloc_aligned : ∀ n, pageSize ∣ alloc n
  /-- Frames have addresses. -/
  alloc_lt : ∀ n, alloc n < 2 ^ T.wordBits
  /-- The top table is not a frame of the allocator. -/
  alloc_ne_root : ∀ n, alloc n ≠ 0 → alloc n ≠ root
  /-- No frame is returned twice. -/
  alloc_inj : ∀ n k, alloc n ≠ 0 → alloc n = alloc k → n = k

/-- The state paging works on. -/
structure Vmm where
  /-- Physical memory. -/
  mem : Mem
  /-- How often `pmm_alloc` was called. -/
  drawn : Nat

variable {T : Target}

/-- The table an entry leads to, if it is present and does not map memory itself. -/
def tableOf (T : Target) (v : Nat) : Option Nat :=
  if v &&& ptePresent ≠ 0 ∧ v &&& pteHuge = 0 then some (clearLow T.wordBits pageShift v) else none

/-- All tables in memory. -/
def tables (T : Target) (m : Mem) : Nat → Fin T.entries → Nat := fun t i => entry T m t i

/-- The table at the end of a path of indices from the top table. -/
def Vmm.tableAt (F : Frames T) (s : Vmm) (p : List (Fin T.entries)) : Option Nat :=
  Radix.walk (tableOf T) (tables T s.mem) F.root p

/-- The entry at the end of a path. -/
def Vmm.entryAt (F : Frames T) (s : Vmm) (p : List (Fin T.entries)) (i : Fin T.entries) :
    Option Nat :=
  Radix.entryAt (tableOf T) (tables T s.mem) F.root p i

/-- A new table for entry `i` of table `t`: a frame from `pmm_alloc` is cleared and entered as present
and writable. -/
def Vmm.linkTable (F : Frames T) (s : Vmm) (t i : Nat) : Vmm :=
  { mem := setEntry T (memset s.mem (F.alloc s.drawn) 0 pageSize) t i
      (F.alloc s.drawn ||| ptePresent ||| pteWritable)
    drawn := s.drawn + 1 }

/-- The frames paging holds: the top table and what `pmm_alloc` returned to it. -/
def Vmm.Holds (F : Frames T) (s : Vmm) (t : Nat) : Prop :=
  t = F.root ∨ ∃ k < s.drawn, F.alloc k = t ∧ t ≠ 0

/-- The tables down to depth `d` are distinct frames that paging holds. -/
structure TablesOk (F : Frames T) (d : Nat) (s : Vmm) : Prop where
  /-- No frame serves as two tables. -/
  tree : Radix.IsTree (tableOf T) (tables T s.mem) F.root d
  /-- Every table is a frame of its own. -/
  holds : ∀ p t, p.length ≤ d → s.tableAt F p = some t → s.Holds F t

/-! ## Reading and writing entries -/

/-- A single flag is tested arithmetically. -/
theorem and_two_pow_eq_zero_iff (v k : Nat) : v &&& 2 ^ k = 0 ↔ v / 2 ^ k % 2 = 0 := by
  rw [Nat.and_two_pow, Nat.testBit_eq_decide_div_mod_eq]
  have hpos : 0 < 2 ^ k := Nat.two_pow_pos k
  by_cases h : v / 2 ^ k % 2 = 1
  · simp [h]
  · simp only [h, decide_false, Bool.toNat_false, zero_mul, true_iff]
    omega

/-- The present flag is the lowest bit. -/
theorem and_ptePresent_eq_zero_iff (v : Nat) : v &&& ptePresent = 0 ↔ v % 2 = 0 := by
  have h := and_two_pow_eq_zero_iff v 0
  rwa [Nat.pow_zero, Nat.div_one] at h

/-- The flag for large pages is bit 7. -/
theorem and_pteHuge_eq_zero_iff (v : Nat) : v &&& pteHuge = 0 ↔ v / 128 % 2 = 0 :=
  and_two_pow_eq_zero_iff v 7

/-- A table has the size of a page. -/
theorem Target.entries_mul (T : Target) : T.entries * T.ptrBytes = pageSize := by
  cases T <;> rfl

/-- Every entry lies inside its table. -/
theorem entry_inside {i : Nat} (hi : i < T.entries) :
    T.ptrBytes * i + T.ptrBytes ≤ pageSize := by
  rw [← T.entries_mul, Nat.mul_comm, ← Nat.succ_mul]
  exact Nat.mul_le_mul_right _ hi

/-- Different entries do not overlap. -/
theorem entry_apart {t u i j : Nat} (ht : pageSize ∣ t) (hu : pageSize ∣ u) (hi : i < T.entries)
    (hj : j < T.entries) (h : ¬ (u = t ∧ j = i)) :
    t + T.ptrBytes * i + T.ptrBytes ≤ u + T.ptrBytes * j ∨
      u + T.ptrBytes * j + T.ptrBytes ≤ t + T.ptrBytes * i := by
  have h₁ := entry_inside hi
  have h₂ := entry_inside hj
  obtain ⟨a, rfl⟩ := ht
  obtain ⟨b, rfl⟩ := hu
  rw [pageSize] at *
  by_cases hab : b = a
  · subst hab
    -- two entries of one table
    have hij : j ≠ i := fun hji => h ⟨rfl, hji⟩
    rcases Nat.lt_or_gt_of_ne hij with hlt | hlt
    · have := Nat.mul_le_mul_left T.ptrBytes (Nat.succ_le_of_lt hlt)
      rw [Nat.mul_succ] at this
      omega
    · have := Nat.mul_le_mul_left T.ptrBytes (Nat.succ_le_of_lt hlt)
      rw [Nat.mul_succ] at this
      omega
  · omega

/-- An entry reads back what was written to it. -/
theorem entry_setEntry_same (m : Mem) (t i v : Nat) :
    entry T (setEntry T m t i v) t i = v % 2 ^ T.wordBits := by
  rw [entry, setEntry, Mem.load_store_same, T.pow_ptrBytes]

/-- Writing one entry leaves the others alone. -/
theorem entry_setEntry_of_ne (m : Mem) {t u i j v : Nat} (ht : pageSize ∣ t) (hu : pageSize ∣ u)
    (hi : i < T.entries) (hj : j < T.entries) (h : ¬ (u = t ∧ j = i)) :
    entry T (setEntry T m t i v) u j = entry T m u j :=
  Mem.load_store_of_disjoint m (entry_apart ht hu hi hj h)

/-- A cleared table has only empty entries. -/
theorem entry_memset_same (m : Mem) (t : Nat) {i : Nat} (hi : i < T.entries) :
    entry T (memset m t 0 pageSize) t i = 0 := by
  have h := entry_inside hi
  refine Mem.load_eq_zero fun x h₁ h₂ => ?_
  rw [memset_apply, if_pos (by omega)]
  rfl

/-- Clearing one table leaves the others alone. -/
theorem entry_memset_of_ne (m : Mem) {t u i : Nat} (ht : pageSize ∣ t) (hu : pageSize ∣ u)
    (hi : i < T.entries) (h : u ≠ t) : entry T (memset m t 0 pageSize) u i = entry T m u i := by
  have hin := entry_inside hi
  refine Mem.load_congr fun x h₁ h₂ => ?_
  obtain ⟨a, rfl⟩ := ht
  obtain ⟨b, rfl⟩ := hu
  rw [memset_apply, if_neg]
  rw [pageSize] at *
  omega

/-- The entry of a new table holds the frame's address and the two flags. -/
theorem link_value {pa : Nat} (h : pageSize ∣ pa) : pa ||| ptePresent ||| pteWritable = pa + 3 := by
  obtain ⟨a, rfl⟩ := h
  rw [Nat.or_assoc]
  exact (Nat.two_pow_add_eq_or_of_lt (i := 12) (b := 3) (by decide) a).symm

/-- A link to a table is not a large page: a frame's address has no bit inside the page. -/
theorem link_not_huge {pa : Nat} (h : pageSize ∣ pa) : (pa + 3) &&& pteHuge = 0 := by
  rw [and_pteHuge_eq_zero_iff]
  obtain ⟨b, rfl⟩ := h
  rw [pageSize]
  omega

/-- A page address is not changed by clearing the bits inside the page. -/
theorem clearLow_add {a r : Nat} (ha : pageSize ∣ a) (hlt : a < 2 ^ T.wordBits)
    (hr : r < pageSize) : clearLow T.wordBits pageShift (a + r) = a := by
  obtain ⟨b, rfl⟩ := ha
  have hw : 2 ^ T.wordBits = pageSize * 2 ^ (T.wordBits - pageShift) := by cases T <;> rfl
  have hb : b < 2 ^ (T.wordBits - pageShift) := by
    rw [hw] at hlt
    exact Nat.lt_of_mul_lt_mul_left hlt
  have hsum : pageSize * b + r < 2 ^ T.wordBits := by
    have := Nat.mul_le_mul_left pageSize (Nat.succ_le_of_lt hb)
    rw [Nat.mul_succ] at this
    omega
  rw [clearLow_of_lt (by cases T <;> decide) hsum, show 2 ^ pageShift = pageSize from rfl,
    Nat.mul_add_div (by decide), Nat.div_eq_of_lt hr, Nat.add_zero, Nat.mul_comm]

/-- The entry of a new table leads to the frame. -/
theorem tableOf_link {pa : Nat} (h : pageSize ∣ pa) (hlt : pa < 2 ^ T.wordBits) :
    tableOf T (pa + 3) = some pa := by
  have hbits : (pa + 3) &&& ptePresent ≠ 0 ∧ (pa + 3) &&& pteHuge = 0 := by
    rw [Ne, and_ptePresent_eq_zero_iff, and_pteHuge_eq_zero_iff]
    obtain ⟨a, rfl⟩ := h
    rw [pageSize]
    omega
  rw [tableOf, if_pos hbits, clearLow_add h hlt (by decide)]

/-- An entry that is not present leads nowhere. -/
theorem tableOf_of_not_present {v : Nat} (h : v &&& ptePresent = 0) : tableOf T v = none :=
  if_neg fun hv => hv.1 h

/-- An entry that maps memory leads to no table. -/
theorem tableOf_of_huge {v : Nat} (h : v &&& pteHuge ≠ 0) : tableOf T v = none :=
  if_neg fun hv => h hv.2

/-- An entry leads to a table when it is present and not a large page. -/
theorem tableOf_eq_some_iff {v t : Nat} : tableOf T v = some t ↔
    v &&& ptePresent ≠ 0 ∧ v &&& pteHuge = 0 ∧ clearLow T.wordBits pageShift v = t := by
  rw [tableOf]
  split_ifs with h
  · rw [Option.some.injEq]
    exact ⟨fun heq => ⟨h.1, h.2, heq⟩, fun heq => heq.2.2⟩
  · exact ⟨False.elim, fun heq => h ⟨heq.1, heq.2.1⟩⟩

/-! ## The tables as a tree of frames -/

section Tree

variable {F : Frames T} {s : Vmm} {d t : Nat} {p q : List (Fin T.entries)} {i j : Fin T.entries}

/-- One index further along a path. -/
theorem Vmm.tableAt_concat (hp : s.tableAt F p = some t) (i : Fin T.entries) :
    s.tableAt F (p ++ [i]) = tableOf T (entry T s.mem t i) :=
  Radix.walk_concat_of_eq_some hp i

/-- A path that leads nowhere leads nowhere further. -/
theorem Vmm.tableAt_concat_none (hp : s.tableAt F p = none) (i : Fin T.entries) :
    s.tableAt F (p ++ [i]) = none := by
  rw [Vmm.tableAt] at hp
  rw [Vmm.tableAt, Radix.walk_concat, hp, Option.bind_none]

/-- The entry a path leads to is in its table. -/
theorem Vmm.entryAt_of_tableAt (hp : s.tableAt F p = some t) (i : Fin T.entries) :
    s.entryAt F p i = some (entry T s.mem t i) :=
  Radix.entryAt_of_walk hp i

/-- The entry in a table is the one its path leads to. -/
theorem Vmm.entry_eq_of_entryAt {v : Nat} (hp : s.tableAt F p = some t)
    (h : s.entryAt F p i = some v) : entry T s.mem t i = v := by
  rw [Vmm.entryAt_of_tableAt hp] at h
  exact Option.some.inj h

/-- A path without a table has no entries. -/
theorem Vmm.entryAt_of_tableAt_none (hp : s.tableAt F p = none) (i : Fin T.entries) :
    s.entryAt F p i = none := by
  rw [Vmm.tableAt] at hp
  rw [Vmm.entryAt, Radix.entryAt, hp, Option.map_none]

/-- The frames paging holds are pages. -/
theorem Vmm.Holds.aligned (h : s.Holds F t) : pageSize ∣ t := by
  rcases h with rfl | ⟨k, -, rfl, -⟩
  · exact F.root_aligned
  · exact F.alloc_aligned k

/-- The next frame is not one that paging holds. -/
theorem Vmm.Holds.ne_alloc (h : s.Holds F t) (halloc : F.alloc s.drawn ≠ 0) :
    t ≠ F.alloc s.drawn := by
  rcases h with rfl | ⟨k, hk, rfl, -⟩
  · exact (F.alloc_ne_root _ halloc).symm
  · intro heq
    have := F.alloc_inj _ _ halloc heq.symm
    omega

/-- Below a top table without further tables there is nothing. -/
theorem Vmm.tableAt_cons_none (h : tableOf T (entry T s.mem F.root i) = none)
    (q : List (Fin T.entries)) : s.tableAt F (i :: q) = none := by
  rw [Vmm.tableAt, Radix.walk]
  change (tableOf T (entry T s.mem F.root i)).bind _ = none
  rw [h, Option.bind_none]

/-- A top table without further tables. -/
theorem TablesOk.of_leaf (d : Nat)
    (h : ∀ i : Fin T.entries, tableOf T (entry T s.mem F.root i) = none) : TablesOk F d s := by
  have hroot : ∀ p t, s.tableAt F p = some t → p = [] ∧ t = F.root := by
    intro p t ht
    cases p with
    | nil => exact ⟨rfl, (Option.some.inj ht).symm⟩
    | cons i p =>
        rw [Vmm.tableAt_cons_none (h i)] at ht
        cases ht
  refine ⟨fun p q t _ _ hpt hqt => ?_, fun p t _ ht => Or.inl (hroot p t ht).2⟩
  rw [(hroot p t hpt).1, (hroot q t hqt).1]

/-- Writing an entry changes no other entry of a table. -/
theorem TablesOk.agreeBut (h : TablesOk F d s) (hp : s.tableAt F p = some t) (hd : p.length ≤ d)
    (i : Fin T.entries) (v : Nat) :
    Radix.AgreeBut (tableOf T) (tables T s.mem) (tables T (setEntry T s.mem t i v)) F.root d t i := by
  intro q u j hq hu hne
  refine entry_setEntry_of_ne s.mem (h.holds p t hd hp).aligned (h.holds q u hq hu).aligned
    i.isLt j.isLt fun heq => hne ⟨heq.1, Fin.ext heq.2⟩

/-- A write that leads nowhere new keeps the tables. -/
theorem TablesOk.setEntry (h : TablesOk F d s) (hp : s.tableAt F p = some t) (hd : p.length ≤ d)
    {v : Nat} (hv : p.length < d →
      tableOf T (v % 2 ^ T.wordBits) = tableOf T (entry T s.mem t i)) :
    TablesOk F d { s with mem := setEntry T s.mem t i v } := by
  have hagree := h.agreeBut hp hd i v
  have hchild : p.length < d → tableOf T (tables T (Aerogel.setEntry T s.mem t i v) t i)
      = tableOf T (tables T s.mem t i) := by
    intro hlt
    rw [tables, entry_setEntry_same, hv hlt]
    rfl
  refine ⟨h.tree.write hp hd hagree hchild, fun q u hq hu => ?_⟩
  rw [Vmm.tableAt, Radix.walk_write h.tree hp hd hagree hchild hq] at hu
  exact h.holds q u hq hu

/-- The tables after such a write. -/
theorem TablesOk.tableAt_setEntry (h : TablesOk F d s) (hp : s.tableAt F p = some t)
    (hd : p.length ≤ d) {v : Nat} (hv : p.length < d →
      tableOf T (v % 2 ^ T.wordBits) = tableOf T (entry T s.mem t i)) (hq : q.length ≤ d) :
    Vmm.tableAt F { s with mem := Aerogel.setEntry T s.mem t i v } q = s.tableAt F q := by
  refine Radix.walk_write h.tree hp hd (h.agreeBut hp hd i v) (fun hlt => ?_) hq
  rw [tables, entry_setEntry_same, hv hlt]
  rfl

/-- The entries after such a write: one is new. -/
theorem TablesOk.entryAt_setEntry (h : TablesOk F d s) (hp : s.tableAt F p = some t)
    (hd : p.length ≤ d) {v : Nat} (hv : p.length < d →
      tableOf T (v % 2 ^ T.wordBits) = tableOf T (entry T s.mem t i)) (hq : q.length ≤ d)
    (j : Fin T.entries) :
    Vmm.entryAt F { s with mem := Aerogel.setEntry T s.mem t i v } q j
      = if q = p ∧ j = i then some (v % 2 ^ T.wordBits) else s.entryAt F q j := by
  have hsame : tables T (Aerogel.setEntry T s.mem t i v) t i = v % 2 ^ T.wordBits :=
    entry_setEntry_same s.mem t i v
  have hchild : p.length < d → tableOf T (tables T (Aerogel.setEntry T s.mem t i v) t i)
      = tableOf T (tables T s.mem t i) := by
    intro hlt
    rw [hsame, hv hlt]
    rfl
  rcases Radix.entryAt_write h.tree hp hd (h.agreeBut hp hd i v) hchild hq j with
    ⟨hqp, hji, heq⟩ | ⟨hne, heq⟩
  · rw [if_pos ⟨hqp, hji⟩, ← hsame]
    exact heq
  · rw [if_neg hne]
    exact heq

/-- A new table changes no entry that was there, apart from the one it hangs below. -/
theorem TablesOk.agreeBut_link (h : TablesOk F d s) (hp : s.tableAt F p = some t)
    (hd : p.length ≤ d) (halloc : F.alloc s.drawn ≠ 0) (i : Fin T.entries) :
    Radix.AgreeBut (tableOf T) (tables T s.mem) (tables T (s.linkTable F t i).mem) F.root d t i := by
  intro q u j hq hu hne
  have hu' := h.holds q u hq hu
  have hset := @entry_setEntry_of_ne T (memset s.mem (F.alloc s.drawn) 0 pageSize) t u i j
    (F.alloc s.drawn ||| ptePresent ||| pteWritable) (h.holds p t hd hp).aligned hu'.aligned
    i.isLt j.isLt fun heq => hne ⟨heq.1, Fin.ext heq.2⟩
  exact hset.trans (entry_memset_of_ne s.mem (F.alloc_aligned _) hu'.aligned j.isLt
    (hu'.ne_alloc halloc))

/-- The entry a new table hangs below. -/
theorem entry_linkTable (F : Frames T) (s : Vmm) (t i : Nat) :
    entry T (s.linkTable F t i).mem t i = F.alloc s.drawn + 3 := by
  have hlt : F.alloc s.drawn + 3 < 2 ^ T.wordBits := by
    have h₁ := F.alloc_lt s.drawn
    obtain ⟨a, ha⟩ := F.alloc_aligned s.drawn
    have hw : pageSize ∣ 2 ^ T.wordBits := by cases T <;> decide
    obtain ⟨b, hb⟩ := hw
    rw [ha, hb] at h₁ ⊢
    rw [pageSize] at *
    omega
  rw [Vmm.linkTable, entry_setEntry_same, link_value (F.alloc_aligned _), Nat.mod_eq_of_lt hlt]

/-- A new table is empty. -/
theorem TablesOk.entry_link_fresh (h : TablesOk F d s) (hp : s.tableAt F p = some t)
    (hd : p.length ≤ d) (halloc : F.alloc s.drawn ≠ 0) (i j : Fin T.entries) :
    tables T (s.linkTable F t i).mem (F.alloc s.drawn) j = 0 := by
  have ht := h.holds p t hd hp
  have hset := @entry_setEntry_of_ne T (memset s.mem (F.alloc s.drawn) 0 pageSize) t
    (F.alloc s.drawn) i j (F.alloc s.drawn ||| ptePresent ||| pteWritable) ht.aligned
    (F.alloc_aligned _) i.isLt j.isLt fun heq => ht.ne_alloc halloc heq.1.symm
  exact hset.trans (entry_memset_same s.mem _ j.isLt)

/-- What a new table below an empty entry does to the tree. -/
theorem TablesOk.link (h : TablesOk F d s) (hp : s.tableAt F p = some t) (hd : p.length < d)
    (hempty : entry T s.mem t i &&& ptePresent = 0) (halloc : F.alloc s.drawn ≠ 0) :
    TablesOk F d (s.linkTable F t i) ∧
      (∀ q, q.length ≤ d → (s.linkTable F t i).tableAt F q
        = if q = p ++ [i] then some (F.alloc s.drawn) else s.tableAt F q) ∧
      ∀ q j, q.length ≤ d → (s.linkTable F t i).entryAt F q j
        = if q = p ++ [i] then some 0
          else if q = p ∧ j = i then some (F.alloc s.drawn + 3) else s.entryAt F q j := by
  have hagree := h.agreeBut_link hp hd.le halloc i
  have hnone : tableOf T (tables T s.mem t i) = none := tableOf_of_not_present hempty
  have hentry : tables T (s.linkTable F t i).mem t i = F.alloc s.drawn + 3 :=
    entry_linkTable F s t i
  have hlink : tableOf T (tables T (s.linkTable F t i).mem t i) = some (F.alloc s.drawn) := by
    rw [hentry, tableOf_link (F.alloc_aligned _) (F.alloc_lt _)]
  have hfresh := h.entry_link_fresh hp hd.le halloc i
  have hleaf : ∀ j, tableOf T (tables T (s.linkTable F t i).mem (F.alloc s.drawn) j) = none := by
    intro j
    rw [hfresh j]
    exact tableOf_of_not_present rfl
  have hwalk : ∀ q, q.length ≤ d → (s.linkTable F t i).tableAt F q
      = if q = p ++ [i] then some (F.alloc s.drawn) else s.tableAt F q := fun q hq =>
    Radix.walk_link h.tree hp hd hagree hnone hlink hleaf hq
  refine ⟨⟨?_, fun q u hq hu => ?_⟩, hwalk, fun q j hq => ?_⟩
  · refine h.tree.link hp hd hagree hnone hlink hleaf fun q hq hu => ?_
    exact (h.holds q _ hq hu).ne_alloc halloc rfl
  · rw [hwalk q hq] at hu
    by_cases hqp : q = p ++ [i]
    · rw [if_pos hqp] at hu
      obtain rfl := Option.some.inj hu
      exact Or.inr ⟨s.drawn, Nat.lt_succ_self _, rfl, halloc⟩
    · rw [if_neg hqp] at hu
      exact (h.holds q u hq hu).imp_right fun ⟨k, hk, hrest⟩ => ⟨k, Nat.lt_succ_of_lt hk, hrest⟩
  · rcases Radix.entryAt_link h.tree hp hd hagree hnone hlink hleaf hq j with
      ⟨hqp, heq⟩ | ⟨hqp, hji, heq⟩ | ⟨hqp, hqi, heq⟩
    · rw [if_pos hqp, ← hfresh j]
      exact heq
    · have hne : q ≠ p ++ [i] := by
        rw [hqp]
        simp
      rw [if_neg hne, if_pos ⟨hqp, hji⟩, ← hentry]
      exact heq
    · rw [if_neg hqp, if_neg hqi]
      exact heq

/-- With a new table, every entry is no large page or was there before. -/
theorem TablesOk.entryAt_linkTable (h : TablesOk F d s) (hp : s.tableAt F p = some t)
    (hd : p.length < d) (hempty : entry T s.mem t i &&& ptePresent = 0)
    (halloc : F.alloc s.drawn ≠ 0) {v : Nat} (hq : q.length ≤ d)
    (hv : (s.linkTable F t i).entryAt F q j = some v) :
    v &&& pteHuge = 0 ∨ s.entryAt F q j = some v := by
  obtain ⟨-, -, hentry⟩ := h.link hp hd hempty halloc
  rw [hentry q j hq] at hv
  split_ifs at hv
  · obtain rfl := Option.some.inj hv
    exact Or.inl rfl
  · obtain rfl := Option.some.inj hv
    exact Or.inl (link_not_huge (F.alloc_aligned _))
  · exact Or.inr hv

/-- Code outside paging may write anywhere but into the frames paging holds. -/
def Vmm.Untouched (F : Frames T) (s : Vmm) (m' : Mem) : Prop :=
  ∀ t, s.Holds F t → ∀ x, t ≤ x → x < t + pageSize → m' x = s.mem x

/-- Such writes are not seen in any table. -/
theorem TablesOk.tables_untouched (h : TablesOk F d s) {m' : Mem} (hm : s.Untouched F m')
    (hq : q.length ≤ d) (hu : s.tableAt F q = some t) (j : Fin T.entries) :
    tables T m' t j = tables T s.mem t j := by
  have hin := entry_inside j.isLt
  refine Mem.load_congr fun x h₁ h₂ => ?_
  exact hm t (h.holds q t hq hu) x (by omega) (by omega)

/-- Such writes keep the tables and every entry. -/
theorem TablesOk.untouched (h : TablesOk F d s) {m' : Mem} (hm : s.Untouched F m') :
    TablesOk F d { s with mem := m' } ∧
      (∀ q, q.length ≤ d → Vmm.tableAt F { s with mem := m' } q = s.tableAt F q) ∧
      ∀ q j, q.length ≤ d → Vmm.entryAt F { s with mem := m' } q j = s.entryAt F q j := by
  have hwalk : ∀ q, q.length ≤ d → Vmm.tableAt F { s with mem := m' } q = s.tableAt F q := by
    intro q hq
    refine Radix.walk_congr (fun q u j hlt hu => ?_) hq
    rw [h.tables_untouched hm hlt.le hu j]
  refine ⟨⟨fun q r u hq hr hqu hru => ?_, fun q u hq hu => ?_⟩, hwalk, fun q j hq => ?_⟩
  · exact h.tree q r u hq hr ((hwalk q hq).symm.trans hqu) ((hwalk r hr).symm.trans hru)
  · exact h.holds q u hq ((hwalk q hq).symm.trans hu)
  · exact Radix.entryAt_congr (fun q u j hq hu => h.tables_untouched hm hq hu j) hq j

end Tree

/-! ## The page allocator supplies such frames -/

/-- The page allocator after `n` calls of `pmm_alloc`. -/
def pmmAfter (pm : Pmm) : Nat → Pmm
  | 0 => pm
  | n + 1 => (pmmAlloc (pmmAfter pm n)).2

/-- Frames in use stay in use. -/
theorem testPage_pmmAfter_of_le {pm : Pmm} {n k p : Nat} (hnk : n ≤ k)
    (h : (pmmAfter pm n).testPage p = true) : (pmmAfter pm k).testPage p = true := by
  induction k, hnk using Nat.le_induction with
  | base => exact h
  | succ k _ ih =>
      rw [pmmAfter]
      rcases pmmAlloc_spec (pmmAfter pm k) with ⟨hrun, -⟩ | ⟨q, -, -, -, -, hrun⟩
      · rw [hrun]
        exact ih
      · rw [hrun, Pmm.testPage_takePage, ih, Bool.or_true]

/-- A call that finds a frame takes it out of the clear ones. -/
theorem pmmAfter_alloc {pm : Pmm} {n : Nat} (h : (pmmAlloc (pmmAfter pm n)).1 ≠ 0) :
    ∃ p, p < maxPages ∧ (pmmAlloc (pmmAfter pm n)).1 = pageSize * p ∧
      (pmmAfter pm n).testPage p = false ∧ (pmmAfter pm (n + 1)).testPage p = true := by
  rcases pmmAlloc_spec (pmmAfter pm n) with ⟨hrun, -⟩ | ⟨p, -, hp, hclear, -, hrun⟩
  · rw [hrun] at h
    exact absurd rfl h
  · refine ⟨p, hp, ?_, hclear, ?_⟩
    · rw [hrun, Nat.shiftLeft_eq, Nat.mul_comm]
      rfl
    · rw [pmmAfter, hrun, Pmm.testPage_takePage, decide_eq_true rfl, Bool.true_or]

/-- Frames are pages. -/
theorem pageSize_dvd_pmmAlloc (pm : Pmm) (n : Nat) : pageSize ∣ (pmmAlloc (pmmAfter pm n)).1 := by
  by_cases h : (pmmAlloc (pmmAfter pm n)).1 = 0
  · rw [h]
    exact ⟨0, rfl⟩
  · obtain ⟨p, -, hp, -⟩ := pmmAfter_alloc h
    exact ⟨p, hp⟩

/-- Frames lie in the first 2 GiB. -/
theorem pmmAlloc_lt (T : Target) (pm : Pmm) (n : Nat) :
    (pmmAlloc (pmmAfter pm n)).1 < 2 ^ T.wordBits := by
  refine lt_of_lt_of_le ?_ T.two_pow_32_le
  by_cases h : (pmmAlloc (pmmAfter pm n)).1 = 0
  · rw [h]
    decide
  · obtain ⟨p, hlt, hp, -⟩ := pmmAfter_alloc h
    rw [hp, pageSize]
    rw [maxPages] at hlt
    omega

/-- A frame in use from the beginning is not handed out. -/
theorem pmmAlloc_ne_of_set {pm : Pmm} {a n : Nat} (hset : pm.testPage (a / pageSize) = true)
    (h : (pmmAlloc (pmmAfter pm n)).1 ≠ 0) : (pmmAlloc (pmmAfter pm n)).1 ≠ a := by
  intro heq
  obtain ⟨p, -, hp, hclear, -⟩ := pmmAfter_alloc h
  have hroot : a / pageSize = p := by
    rw [← heq, hp, Nat.mul_div_cancel_left _ (by decide)]
  rw [hroot] at hset
  rw [testPage_pmmAfter_of_le (n := 0) (Nat.zero_le n) hset] at hclear
  exact Bool.noConfusion hclear

/-- No frame is handed out twice. -/
theorem pmmAlloc_inj {pm : Pmm} {n k : Nat} (h : (pmmAlloc (pmmAfter pm n)).1 ≠ 0)
    (heq : (pmmAlloc (pmmAfter pm n)).1 = (pmmAlloc (pmmAfter pm k)).1) : n = k := by
  obtain ⟨p, -, hp, hclear, htaken⟩ := pmmAfter_alloc h
  obtain ⟨q, -, hq, hclear', htaken'⟩ := pmmAfter_alloc (n := k) (heq ▸ h)
  have hpq : p = q := by
    rw [hp, hq] at heq
    exact Nat.eq_of_mul_eq_mul_left (by decide) heq
  subst hpq
  -- whichever call is first has taken the frame before the other
  rcases Nat.lt_trichotomy n k with hlt | heq | hlt
  · rw [testPage_pmmAfter_of_le hlt htaken] at hclear'
    exact Bool.noConfusion hclear'
  · exact heq
  · rw [testPage_pmmAfter_of_le hlt htaken'] at hclear
    exact Bool.noConfusion hclear

/-- The frames of `pmm_alloc`, for a top table in memory that the allocator keeps reserved. -/
def Frames.ofPmm (T : Target) (pm : Pmm) (root : Nat) (haligned : pageSize ∣ root)
    (hset : pm.testPage (root / pageSize) = true) : Frames T where
  root := root
  alloc n := (pmmAlloc (pmmAfter pm n)).1
  root_aligned := haligned
  alloc_aligned := pageSize_dvd_pmmAlloc pm
  alloc_lt := pmmAlloc_lt T pm
  alloc_ne_root _ := pmmAlloc_ne_of_set hset
  alloc_inj _ _ := pmmAlloc_inj

/-- The first frame comes from the allocator as it is. -/
theorem Frames.ofPmm_alloc_zero (T : Target) (pm : Pmm) (root : Nat) (haligned : pageSize ∣ root)
    (hset : pm.testPage (root / pageSize) = true) :
    (Frames.ofPmm T pm root haligned hset).alloc 0 = (pmmAlloc pm).1 := rfl

/-- The kernel's image is reserved by `pmm_init`. -/
theorem testPage_pmmInit_image (img : KernelImage T) (map : List E820Entry) (pm : Pmm) {a : Nat}
    (hlow : 0x10000 ≤ a) (hhigh : a < img.bssEnd) (hmax : a / pageSize < maxPages) :
    (pmmInit T img map pm).testPage (a / pageSize) = true := by
  have hres : Reserved T img (a / pageSize) := by
    refine Or.inr (Or.inl ⟨?_, ?_⟩)
    · rw [pageSize]
      omega
    · rw [kernelEnd_eq, pageSize]
      omega
  rw [← Bool.not_eq_false, pmmInit_free_iff img map pm hmax]
  exact fun h => h.2 hres

/-- The frames at boot, for a top table inside the kernel's image. -/
def Frames.ofBoot (img : KernelImage T) (map : List E820Entry) (root : Nat)
    (haligned : pageSize ∣ root) (hlow : 0x10000 ≤ root) (hhigh : root < img.bssEnd)
    (hmax : root / pageSize < maxPages) : Frames T :=
  .ofPmm T (pmmInit T img map .static) root haligned
    (testPage_pmmInit_image img map .static hlow hhigh hmax)

/-- The first frame at boot. -/
theorem Frames.ofBoot_alloc_zero (img : KernelImage T) (map : List E820Entry) (root : Nat)
    (haligned : pageSize ∣ root) (hlow : 0x10000 ≤ root) (hhigh : root < img.bssEnd)
    (hmax : root / pageSize < maxPages) :
    (Frames.ofBoot img map root haligned hlow hhigh hmax).alloc 0
      = (pmmAlloc (pmmInit T img map .static)).1 := Frames.ofPmm_alloc_zero T _ root haligned _

/-! ## The partial map that paging maintains -/

/-- What can happen to the tables. -/
inductive PageOp
  /-- `vmm_map(virt, phys, flags)`. -/
  | map (virt phys flags : Nat)
  /-- `vmm_unmap(virt)`. -/
  | unmap (virt : Nat)
  /-- Other code writes to memory. -/
  | other
  deriving DecidableEq, Repr

namespace PageOp

/-- The page an operation is on. -/
def page : PageOp → Option Nat
  | map virt _ _ => some (virt / pageSize)
  | unmap virt => some (virt / pageSize)
  | other => none

/-- The last operation on a page. -/
def lastOn (ops : List PageOp) (pg : Nat) : Option PageOp :=
  (ops.filter fun op => op.page = some pg).getLast?

/-- The physical address that the last operation on a page gave it. -/
def mapped (ops : List PageOp) (pg : Nat) : Option Nat :=
  match lastOn ops pg with
  | some (map _ phys _) => some phys
  | _ => none

/-- What an operation does to a map from pages to physical addresses. -/
def apply (M : Nat → Option Nat) : PageOp → Nat → Option Nat
  | map virt phys _ => Function.update M (virt / pageSize) (some phys)
  | unmap virt => Function.update M (virt / pageSize) none
  | other => M

/-- An operation changes no other page. -/
theorem apply_of_page_ne {M : Nat → Option Nat} {op : PageOp} {pg : Nat} (h : op.page ≠ some pg) :
    op.apply M pg = M pg := by
  cases op with
  | map virt phys flags => exact Function.update_of_ne (fun heq => h (congrArg some heq.symm)) _ _
  | unmap virt => exact Function.update_of_ne (fun heq => h (congrArg some heq.symm)) _ _
  | other => rfl

/-- Applying operations one after the other, the last one on a page counts. -/
theorem foldl_apply (ops : List PageOp) (pg : Nat) :
    ops.foldl apply (fun _ => none) pg = mapped ops pg := by
  induction ops using List.reverseRec with
  | nil => rfl
  | append_singleton ops op ih =>
      rw [List.foldl_append, List.foldl_cons, List.foldl_nil, mapped, lastOn, List.filter_append]
      by_cases h : op.page = some pg
      · rw [List.filter_cons_of_pos (by simpa using h), List.filter_nil, List.getLast?_concat]
        cases op with
        | map virt phys flags =>
            obtain rfl := Option.some.inj h
            exact Function.update_self ..
        | unmap virt =>
            obtain rfl := Option.some.inj h
            exact Function.update_self ..
        | other => cases h
      · rw [List.filter_cons_of_neg (by simpa using h), List.filter_nil, List.append_nil,
          apply_of_page_ne h, ih]
        rfl

end PageOp

/-- The entry of a page table holds what the map says: nothing, or the address with the present
flag. -/
def EntryOf (T : Target) (v : Nat) : Option Nat → Prop
  | none => v = 0
  | some phys => v &&& ptePresent ≠ 0 ∧
      clearLow T.wordBits pageShift v = clearLow T.wordBits pageShift phys

/-- The translation of an address by such an entry. -/
def translation (T : Target) (phys : Option Nat) (a : Nat) : Nat :=
  match phys with
  | some phys => clearLow T.wordBits pageShift phys ||| a &&& 0xFFF
  | none => 0

/-- The entry that `vmm_map` writes. -/
theorem entryOf_pte (phys : Nat) {low : Nat} (hlow : low < 2 ^ 12) :
    EntryOf T ((clearLow T.wordBits pageShift phys ||| low ||| ptePresent) % 2 ^ T.wordBits)
      (some phys) := by
  have hle : pageShift ≤ T.wordBits := by cases T <;> decide
  have hbase := clearLow_eq hle phys
  have hbase_lt : clearLow T.wordBits pageShift phys < 2 ^ T.wordBits := by
    rw [hbase]
    exact lt_of_le_of_lt (Nat.div_mul_le_self _ _) (Nat.mod_lt _ (Nat.two_pow_pos _))
  have hdvd : pageSize ∣ clearLow T.wordBits pageShift phys := by
    rw [hbase]
    exact Dvd.intro_left _ rfl
  have hr : low ||| ptePresent < 2 ^ 12 := Nat.or_lt_two_pow hlow (by decide)
  have hodd : (low ||| ptePresent) % 2 = 1 := by
    have h := @Nat.or_mod_two_pow low ptePresent 1
    rw [Nat.pow_one] at h
    rcases Nat.mod_two_eq_zero_or_one low with h₀ | h₀
    · rw [h, h₀]; rfl
    · rw [h, h₀]; rfl
  -- the address and the flags have no bit in common
  have hsum : clearLow T.wordBits pageShift phys ||| low ||| ptePresent
      = clearLow T.wordBits pageShift phys + (low ||| ptePresent) := by
    rw [Nat.or_assoc]
    obtain ⟨b, hb⟩ := hdvd
    rw [hb]
    exact (Nat.two_pow_add_eq_or_of_lt hr b).symm
  have hlt : clearLow T.wordBits pageShift phys + (low ||| ptePresent) < 2 ^ T.wordBits := by
    rw [← hsum]
    refine Nat.or_lt_two_pow (Nat.or_lt_two_pow hbase_lt ?_) ?_
    · exact lt_of_lt_of_le hlow (by cases T <;> decide)
    · cases T <;> decide
  rw [EntryOf, hsum, Nat.mod_eq_of_lt hlt]
  refine ⟨?_, clearLow_add hdvd hbase_lt hr⟩
  rw [Ne, and_ptePresent_eq_zero_iff]
  obtain ⟨b, hb⟩ := hdvd
  rw [hb, pageSize]
  omega

/-- Reading an entry translates as the map says. -/
theorem EntryOf.translate {v : Nat} {phys : Option Nat} (h : EntryOf T v phys) (a : Nat) :
    (if v &&& ptePresent = 0 then 0 else clearLow T.wordBits pageShift v ||| a &&& 0xFFF)
      = translation T phys a := by
  cases phys with
  | none =>
      rw [EntryOf] at h
      rw [h]
      rfl
  | some phys => rw [if_neg h.1, h.2, translation]

end Aerogel
