import Aerogel.Foundations.Run
import Aerogel.Memory.PageTables

/-! # Paging on x86_64

Four levels of tables of 512 entries. `vmm_init` maps the first 2 TiB to themselves with 2 MiB entries
in the page directories; `vmm_map` creates the tables it needs below `pml4` and gives up without a word
when it meets a 2 MiB entry. `vmmPhys64_of_run` says that above 2 TiB the tables behave like a partial
map from pages to physical addresses, and that below nothing ever changes. -/

namespace Aerogel

namespace X64

/-! ## The code -/

/-- `get_or_create`: the table an entry leads to, `NULL` if it has to be created and there is no frame. -/
def getOrCreate (F : Frames .x86_64) (s : Vmm) (table idx : Nat) : Nat × Vmm :=
  if entry .x86_64 s.mem table idx &&& ptePresent = 0 then
    if F.alloc s.drawn = 0 then (0, { s with drawn := s.drawn + 1 })
    else
      let s := s.linkTable F table idx
      (clearLow 64 pageShift (entry .x86_64 s.mem table idx), s)
  else (clearLow 64 pageShift (entry .x86_64 s.mem table idx), s)

/-- The entry of `vmm_init` for 2 MiB page `k` of page directory `j` below `pml4[i]`. -/
def identEntry (i j k : Nat) : Nat :=
  (i * 512 * 512 * 0x200000 + j * 512 * 0x200000 + k * 0x200000) % 2 ^ 64
    ||| ptePresent ||| pteWritable ||| pteHuge

/-- The innermost loop of `vmm_init` fills a page directory. -/
def fillPd (pd i j : Nat) (m : Mem) : Mem :=
  forRange 0 512 (fun k m => setEntry .x86_64 m pd k (identEntry i j k)) m

/-- The middle loop of `vmm_init` creates and fills the page directories below one `pdpt`. -/
def fillPdpt (F : Frames .x86_64) (pdpt i : Nat) (s : Vmm) : Vmm :=
  forRange 0 512 (fun j s =>
    let pd := F.alloc s.drawn
    let s := s.linkTable F pdpt j
    { s with mem := fillPd pd i j s.mem }) s

/-- `vmm_init` on the tables. -/
def vmmInit (F : Frames .x86_64) (m : Mem) : Vmm :=
  forRange 0 4 (fun i s =>
    let pdpt := F.alloc s.drawn
    fillPdpt F pdpt i (s.linkTable F F.root i))
    { mem := memset m F.root 0 pageSize, drawn := 0 }

/-- `vmm_map`. -/
def vmmMap (F : Frames .x86_64) (s : Vmm) (virt phys flags : Nat) : Vmm :=
  let (pdpt, s) := getOrCreate F s F.root ((virt >>> 39) &&& 0x1FF)
  let (pd, s) := getOrCreate F s pdpt ((virt >>> 30) &&& 0x1FF)
  let pdi := (virt >>> 21) &&& 0x1FF
  if entry .x86_64 s.mem pd pdi &&& pteHuge ≠ 0 then s
  else
    let (pt, s) := getOrCreate F s pd pdi
    let pte := clearLow 64 pageShift phys ||| flags ||| ptePresent
    { s with mem := setEntry .x86_64 s.mem pt ((virt >>> 12) &&& 0x1FF) pte }

/-- `vmm_unmap`. -/
def vmmUnmap (F : Frames .x86_64) (s : Vmm) (virt : Nat) : Vmm :=
  let pml4e := entry .x86_64 s.mem F.root ((virt >>> 39) &&& 0x1FF)
  if pml4e &&& ptePresent = 0 then s
  else
    let pdpte := entry .x86_64 s.mem (clearLow 64 pageShift pml4e) ((virt >>> 30) &&& 0x1FF)
    if pdpte &&& ptePresent = 0 then s
    else
      let pde := entry .x86_64 s.mem (clearLow 64 pageShift pdpte) ((virt >>> 21) &&& 0x1FF)
      if pde &&& ptePresent = 0 ∨ pde &&& pteHuge ≠ 0 then s
      else
        let pt := clearLow 64 pageShift pde
        { s with mem := setEntry .x86_64 s.mem pt ((virt >>> 12) &&& 0x1FF) 0 }

/-- `vmm_phys`. -/
def vmmPhys (F : Frames .x86_64) (s : Vmm) (virt : Nat) : Nat :=
  let pml4e := entry .x86_64 s.mem F.root ((virt >>> 39) &&& 0x1FF)
  if pml4e &&& ptePresent = 0 then 0
  else
    let pdpte := entry .x86_64 s.mem (clearLow 64 pageShift pml4e) ((virt >>> 30) &&& 0x1FF)
    if pdpte &&& ptePresent = 0 then 0
    else
      let pde := entry .x86_64 s.mem (clearLow 64 pageShift pdpte) ((virt >>> 21) &&& 0x1FF)
      if pde &&& ptePresent = 0 then 0
      else if pde &&& pteHuge ≠ 0 then clearLow 64 21 pde ||| virt &&& 0x1FFFFF
      else
        let pte := entry .x86_64 s.mem (clearLow 64 pageShift pde) ((virt >>> 12) &&& 0x1FF)
        if pte &&& ptePresent = 0 then 0 else clearLow 64 pageShift pte ||| virt &&& 0xFFF

/-- Every call of `pmm_alloc` so far has found a frame. -/
def Supplied (F : Frames .x86_64) (s : Vmm) : Prop := ∀ k < s.drawn, F.alloc k ≠ 0

/-- One thing that happens: a call that is supplied with frames, or a write by other code. -/
inductive VmmStep (F : Frames .x86_64) : Vmm → PageOp → Vmm → Prop
  /-- `vmm_map` of an address of 48 bits to one of 52, with flags inside the entry's low bits. -/
  | map {s : Vmm} {virt phys flags : Nat} : virt < 2 ^ 48 → phys < 2 ^ 52 → flags < 4096 →
      Supplied F (vmmMap F s virt phys flags) →
      VmmStep F s (.map virt phys flags) (vmmMap F s virt phys flags)
  /-- `vmm_unmap` of an address of 48 bits. -/
  | unmap {s : Vmm} {virt : Nat} : virt < 2 ^ 48 →
      VmmStep F s (.unmap virt) (vmmUnmap F s virt)
  /-- Other code writes outside the frames that paging holds. -/
  | other {s : Vmm} {m' : Mem} : s.Untouched F m' → VmmStep F s .other { s with mem := m' }

/-- The end of the identity mapping. -/
def identityEnd : Nat := 2 ^ 41

/-! ## Indices -/

/-- The index of an address in a table whose entries cover `2 ^ k` bytes each. -/
def index (k a : Nat) : Fin (Target.entries .x86_64) :=
  ⟨a / 2 ^ k % 512, Nat.mod_lt _ (by decide)⟩

/-- The shift and the mask of the code. -/
theorem shiftRight_and_eq_index (k a : Nat) : (a >>> k) &&& 0x1FF = index k a := by
  rw [Nat.shiftRight_eq_div_pow]
  exact Nat.and_two_pow_sub_one_eq_mod (a / 2 ^ k) 9

/-- The path of an address to its page directory. -/
def pdPath (a : Nat) : List (Fin (Target.entries .x86_64)) := [index 39 a, index 30 a]

/-- The path of an address to its page table. -/
def ptPath (a : Nat) : List (Fin (Target.entries .x86_64)) := [index 39 a, index 30 a, index 21 a]

/-- A page directory is two levels below `pml4`. -/
@[simp] theorem length_pdPath (a : Nat) : (pdPath a).length = 2 := rfl

/-- A page table is three levels below `pml4`. -/
@[simp] theorem length_ptPath (a : Nat) : (ptPath a).length = 3 := rfl

/-- The four indices tell pages apart. -/
theorem index_eq_iff {a b : Nat} (ha : a < 2 ^ 48) (hb : b < 2 ^ 48) :
    (ptPath a = ptPath b ∧ index 12 a = index 12 b) ↔ a / pageSize = b / pageSize := by
  rw [ptPath, ptPath, List.cons_eq_cons, List.cons_eq_cons, List.singleton_inj, Fin.ext_iff,
    Fin.ext_iff, Fin.ext_iff, Fin.ext_iff]
  change (a / 2 ^ 39 % 512 = b / 2 ^ 39 % 512 ∧ a / 2 ^ 30 % 512 = b / 2 ^ 30 % 512 ∧
    a / 2 ^ 21 % 512 = b / 2 ^ 21 % 512) ∧ a / 2 ^ 12 % 512 = b / 2 ^ 12 % 512 ↔
    a / 2 ^ 12 = b / 2 ^ 12
  omega

/-! ## The invariant -/

variable {F : Frames .x86_64} {s s' : Vmm} {M : Nat → Option Nat}

/-- The page table entry of an address, 0 if there is no table. -/
def pteOf (F : Frames .x86_64) (s : Vmm) (a : Nat) : Nat :=
  (s.entryAt F (ptPath a) (index 12 a)).getD 0

/-- The entries of the upper two levels are not 2 MiB pages; the code does not look. -/
def UpperSmall (F : Frames .x86_64) (s : Vmm) : Prop :=
  ∀ q j v, q.length ≤ 1 → s.entryAt F q j = some v → v &&& pteHuge = 0

/-- The tables say what the map `M` from pages to physical addresses says. -/
structure VmmInv (F : Frames .x86_64) (s : Vmm) (M : Nat → Option Nat) : Prop where
  /-- All tables are distinct frames. -/
  tables : TablesOk F 3 s
  /-- No 2 MiB pages on the upper levels. -/
  upper : UpperSmall F s
  /-- The identity mapping is in place. -/
  ident : ∀ a < identityEnd, s.entryAt F (pdPath a) (index 21 a) = some (a / 2 ^ 21 * 2 ^ 21 + 0x83)
  /-- Outside it there are no 2 MiB pages. -/
  small : ∀ a, identityEnd ≤ a → a < 2 ^ 48 → ∀ v, s.entryAt F (pdPath a) (index 21 a) = some v →
    v &&& pteHuge = 0
  /-- Every page's entry is the one the map asks for. -/
  pages : ∀ a, identityEnd ≤ a → a < 2 ^ 48 → EntryOf .x86_64 (pteOf F s a) (M (a / pageSize))

/-- The entry of `pml4` for an address. -/
def pml4eOf (F : Frames .x86_64) (s : Vmm) (a : Nat) : Nat :=
  entry .x86_64 s.mem F.root (index 39 a)

/-- The entry of the `pdpt` for an address. -/
def pdpteOf (F : Frames .x86_64) (s : Vmm) (a : Nat) : Nat :=
  entry .x86_64 s.mem (clearLow 64 pageShift (pml4eOf F s a)) (index 30 a)

/-- An entry of `pml4` that is present leads to a table. -/
theorem UpperSmall.tableAt_pml4 (h : UpperSmall F s) {a : Nat}
    (hpres : pml4eOf F s a &&& ptePresent ≠ 0) :
    s.tableAt F [index 39 a] = some (clearLow 64 pageShift (pml4eOf F s a)) := by
  have hroot : s.tableAt F [] = some F.root := rfl
  have hsmall := h [] (index 39 a) _ (by simp) (Vmm.entryAt_of_tableAt hroot _)
  exact (Vmm.tableAt_concat hroot _).trans (tableOf_eq_some_iff.mpr ⟨hpres, hsmall, rfl⟩)

/-- The upper two levels as the code walks them: either one of the entries is missing, or the path
leads to the page directory. -/
theorem UpperSmall.descend (h : UpperSmall F s) (a : Nat) :
    (s.tableAt F (pdPath a) = none ∧
      (pml4eOf F s a &&& ptePresent = 0 ∨ pdpteOf F s a &&& ptePresent = 0)) ∨
    (s.tableAt F (pdPath a) = some (clearLow 64 pageShift (pdpteOf F s a)) ∧
      pml4eOf F s a &&& ptePresent ≠ 0 ∧ pdpteOf F s a &&& ptePresent ≠ 0) := by
  have hroot : s.tableAt F [] = some F.root := rfl
  by_cases hpml4 : pml4eOf F s a &&& ptePresent = 0
  · refine Or.inl ⟨?_, Or.inl hpml4⟩
    have hnone : s.tableAt F [index 39 a] = none :=
      (Vmm.tableAt_concat hroot _).trans (tableOf_of_not_present hpml4)
    exact Vmm.tableAt_concat_none hnone _
  · have hpdpt := h.tableAt_pml4 hpml4
    have hpath := Vmm.tableAt_concat hpdpt (index 30 a)
    by_cases hpdpte : pdpteOf F s a &&& ptePresent = 0
    · exact Or.inl ⟨hpath.trans (tableOf_of_not_present hpdpte), Or.inr hpdpte⟩
    · have hsmall := h [index 39 a] (index 30 a) _ (by simp) (Vmm.entryAt_of_tableAt hpdpt _)
      exact Or.inr ⟨hpath.trans (tableOf_eq_some_iff.mpr ⟨hpdpte, hsmall, rfl⟩), hpml4, hpdpte⟩

/-- What `vmm_phys` does once it has the page directory. -/
def physBelow (s : Vmm) (pd a : Nat) : Nat :=
  let pde := entry .x86_64 s.mem pd (index 21 a)
  if pde &&& ptePresent = 0 then 0
  else if pde &&& pteHuge ≠ 0 then clearLow 64 21 pde ||| a &&& 0x1FFFFF
  else
    let pte := entry .x86_64 s.mem (clearLow 64 pageShift pde) (index 12 a)
    if pte &&& ptePresent = 0 then 0 else clearLow 64 pageShift pte ||| a &&& 0xFFF

/-- What `vmm_unmap` does once it has the page directory. -/
def unmapBelow (s : Vmm) (pd a : Nat) : Vmm :=
  let pde := entry .x86_64 s.mem pd (index 21 a)
  if pde &&& ptePresent = 0 ∨ pde &&& pteHuge ≠ 0 then s
  else { s with mem := setEntry .x86_64 s.mem (clearLow 64 pageShift pde) (index 12 a) 0 }

/-- `vmm_phys` looks for the page directory first. -/
theorem vmmPhys_eq (F : Frames .x86_64) (s : Vmm) (a : Nat) :
    vmmPhys F s a = if pml4eOf F s a &&& ptePresent = 0 then 0
      else if pdpteOf F s a &&& ptePresent = 0 then 0
      else physBelow s (clearLow 64 pageShift (pdpteOf F s a)) a := by
  rw [vmmPhys]
  simp only [shiftRight_and_eq_index]
  rfl

/-- `vmm_unmap` looks for the page directory first. -/
theorem vmmUnmap_eq (F : Frames .x86_64) (s : Vmm) (a : Nat) :
    vmmUnmap F s a = if pml4eOf F s a &&& ptePresent = 0 then s
      else if pdpteOf F s a &&& ptePresent = 0 then s
      else unmapBelow s (clearLow 64 pageShift (pdpteOf F s a)) a := by
  rw [vmmUnmap]
  simp only [shiftRight_and_eq_index]
  rfl

/-- A test of both upper entries follows the path. -/
theorem UpperSmall.ite_descend {α : Type} (h : UpperSmall F s) (a : Nat) (x : α) (f : Nat → α) :
    (if pml4eOf F s a &&& ptePresent = 0 then x
      else if pdpteOf F s a &&& ptePresent = 0 then x
      else f (clearLow 64 pageShift (pdpteOf F s a)))
      = ((s.tableAt F (pdPath a)).map f).getD x := by
  rcases h.descend a with ⟨hnone, hmiss⟩ | ⟨hsome, hpml4, hpdpte⟩
  · rw [hnone, Option.map_none, Option.getD_none]
    rcases hmiss with hmiss | hmiss
    · rw [if_pos hmiss]
    · rw [if_pos hmiss, ite_self]
  · rw [hsome, if_neg hpml4, if_neg hpdpte, Option.map_some, Option.getD_some]

/-! ## Translation -/

/-- An identity entry translates to the address itself. -/
theorem physBelow_ident {pd a : Nat} (ha : a < identityEnd)
    (hpde : entry .x86_64 s.mem pd (index 21 a) = a / 2 ^ 21 * 2 ^ 21 + 0x83) :
    physBelow s pd a = a := by
  rw [identityEnd] at ha
  have hbits : (a / 2 ^ 21 * 2 ^ 21 + 0x83) &&& ptePresent ≠ 0 ∧
      (a / 2 ^ 21 * 2 ^ 21 + 0x83) &&& pteHuge ≠ 0 := by
    rw [Ne, Ne, and_ptePresent_eq_zero_iff, and_pteHuge_eq_zero_iff]
    omega
  have hbase : clearLow 64 21 (a / 2 ^ 21 * 2 ^ 21 + 0x83) = 2 ^ 21 * (a / 2 ^ 21) := by
    rw [clearLow_of_lt (by decide) (by omega)]
    omega
  have hoff : a &&& 0x1FFFFF = a % 2 ^ 21 := Nat.and_two_pow_sub_one_eq_mod a 21
  rw [physBelow]
  simp only [hpde]
  rw [if_neg hbits.1, if_pos hbits.2, hbase, hoff,
    ← Nat.two_pow_add_eq_or_of_lt (Nat.mod_lt a (by decide)), Nat.div_add_mod]

/-- The first 2 TiB are their own translation. -/
theorem VmmInv.vmmPhys_ident (h : VmmInv F s M) {a : Nat} (ha : a < identityEnd) :
    vmmPhys F s a = a := by
  have hpde := h.ident a ha
  rw [vmmPhys_eq, h.upper.ite_descend a 0 fun pd => physBelow s pd a]
  cases hpd : s.tableAt F (pdPath a) with
  | none =>
      rw [Vmm.entryAt_of_tableAt_none hpd] at hpde
      cases hpde
  | some pd =>
      rw [Vmm.entryAt_of_tableAt hpd, Option.some.injEq] at hpde
      exact physBelow_ident ha hpde

/-- Above, an address is translated as the map says. -/
theorem VmmInv.vmmPhys_eq (h : VmmInv F s M) {a : Nat} (ha : identityEnd ≤ a) (hlt : a < 2 ^ 48) :
    vmmPhys F s a = translation .x86_64 (M (a / pageSize)) a := by
  have hpage := h.pages a ha hlt
  rw [← hpage.translate a, X64.vmmPhys_eq, h.upper.ite_descend a 0 fun pd => physBelow s pd a]
  cases hpd : s.tableAt F (pdPath a) with
  | none =>
      have hpt : s.tableAt F (ptPath a) = none := Vmm.tableAt_concat_none hpd _
      rw [pteOf, Vmm.entryAt_of_tableAt_none hpt]
      rfl
  | some pd =>
      have hpath := Vmm.tableAt_concat hpd (index 21 a)
      have hsmall := h.small a ha hlt _ (Vmm.entryAt_of_tableAt hpd _)
      rw [Option.map_some, Option.getD_some, physBelow]
      by_cases hpres : entry .x86_64 s.mem pd (index 21 a) &&& ptePresent = 0
      · have hpt : s.tableAt F (ptPath a) = none := hpath.trans (tableOf_of_not_present hpres)
        rw [if_pos hpres, pteOf, Vmm.entryAt_of_tableAt_none hpt]
        rfl
      · have hpt : s.tableAt F (ptPath a) = some _ :=
          hpath.trans (tableOf_eq_some_iff.mpr ⟨hpres, hsmall, rfl⟩)
        rw [if_neg hpres, if_neg (not_not.mpr hsmall), pteOf, Vmm.entryAt_of_tableAt hpt]
        rfl

/-! ## Creating tables -/

/-- A new table below an empty entry changes no translation. -/
theorem VmmInv.link (h : VmmInv F s M) {q : List (Fin (Target.entries .x86_64))} {t : Nat}
    {i : Fin (Target.entries .x86_64)} (hq : s.tableAt F q = some t) (hlen : q.length < 3)
    (hempty : entry .x86_64 s.mem t i &&& ptePresent = 0) (halloc : F.alloc s.drawn ≠ 0) :
    VmmInv F (s.linkTable F t i) M ∧
      (s.linkTable F t i).tableAt F (q ++ [i]) = some (F.alloc s.drawn) := by
  obtain ⟨hok, htab, hentry⟩ := h.tables.link hq hlen hempty halloc
  have hnone : s.tableAt F (q ++ [i]) = none :=
    (Vmm.tableAt_concat hq i).trans (tableOf_of_not_present hempty)
  -- the new entry and the entries of the new table are not 2 MiB pages
  have hsmall : ∀ r j v, r.length ≤ 3 → (s.linkTable F t i).entryAt F r j = some v →
      v &&& pteHuge = 0 ∨ s.entryAt F r j = some v := fun r j v hr hv =>
    h.tables.entryAt_linkTable hq hlen hempty halloc hr hv
  refine ⟨⟨hok, fun r j v hr hv => ?_, fun a ha => ?_, fun a ha hlt v hv => ?_,
    fun a ha hlt => ?_⟩, ?_⟩
  · exact (hsmall r j v (by omega) hv).elim id fun hv => h.upper r j v hr hv
  · -- an identity entry is present, so it is neither the one written nor in a new table
    have hident := h.ident a ha
    rw [hentry _ _ (by simp), if_neg, if_neg]
    · exact hident
    · rintro ⟨hpath, hidx⟩
      rw [hpath, hidx, Vmm.entryAt_of_tableAt hq, Option.some.injEq] at hident
      rw [and_ptePresent_eq_zero_iff, hident] at hempty
      omega
    · intro hpath
      rw [hpath, Vmm.entryAt_of_tableAt_none hnone] at hident
      cases hident
  · exact (hsmall _ _ v (by simp) hv).elim id fun hv => h.small a ha hlt v hv
  · have hpage := h.pages a ha hlt
    rw [pteOf, hentry _ _ le_rfl]
    by_cases hpath : ptPath a = q ++ [i]
    · rw [pteOf, hpath, Vmm.entryAt_of_tableAt_none hnone] at hpage
      rw [if_pos hpath]
      exact hpage
    · have hne : ¬ (ptPath a = q ∧ index 12 a = i) := by
        rintro ⟨heq, -⟩
        rw [← heq] at hlen
        exact absurd hlen (by simp)
      rw [if_neg hpath, if_neg hne]
      exact hpage
  · rw [htab _ (by rw [List.length_append]; exact hlen), if_pos rfl]

/-- `get_or_create` finds the table or adds it. -/
theorem VmmInv.getOrCreate (h : VmmInv F s M) {q : List (Fin (Target.entries .x86_64))} {t : Nat}
    {i : Fin (Target.entries .x86_64)} (hq : s.tableAt F q = some t) (hlen : q.length < 3)
    (hsmall : entry .x86_64 s.mem t i &&& pteHuge = 0)
    (hsupply : Supplied F (X64.getOrCreate F s t i).2) :
    VmmInv F (X64.getOrCreate F s t i).2 M ∧
      (X64.getOrCreate F s t i).2.tableAt F (q ++ [i]) = some (X64.getOrCreate F s t i).1 := by
  rw [X64.getOrCreate] at hsupply ⊢
  by_cases hpres : entry .x86_64 s.mem t i &&& ptePresent = 0
  · rw [if_pos hpres] at hsupply ⊢
    by_cases halloc : F.alloc s.drawn = 0
    · rw [if_pos halloc] at hsupply
      exact absurd halloc (hsupply s.drawn (Nat.lt_succ_self _))
    · rw [if_neg halloc]
      obtain ⟨hinv, htab⟩ := h.link hq hlen hpres halloc
      refine ⟨hinv, htab.trans (congrArg some ?_)⟩
      simp only [entry_linkTable]
      exact (clearLow_add (F.alloc_aligned _) (F.alloc_lt _) (by decide)).symm
  · rw [if_neg hpres]
    exact ⟨h, (Vmm.tableAt_concat hq i).trans (tableOf_eq_some_iff.mpr ⟨hpres, hsmall, rfl⟩)⟩

/-- `get_or_create` gives no frame back and draws at most one. -/
theorem drawn_getOrCreate (F : Frames .x86_64) (s : Vmm) (t i : Nat) :
    s.drawn ≤ (getOrCreate F s t i).2.drawn ∧ (getOrCreate F s t i).2.drawn ≤ s.drawn + 1 := by
  rw [X64.getOrCreate]
  split_ifs
  · exact ⟨Nat.le_succ _, le_rfl⟩
  · exact ⟨Nat.le_succ _, le_rfl⟩
  · exact ⟨le_rfl, Nat.le_succ _⟩

/-- Writing a page's entry in its page table. -/
theorem VmmInv.writePte (h : VmmInv F s M) {virt t v : Nat} {phys : Option Nat}
    (hlt : virt < 2 ^ 48) (ht : s.tableAt F (ptPath virt) = some t)
    (hv : EntryOf .x86_64 (v % 2 ^ 64) phys) :
    VmmInv F { s with mem := setEntry .x86_64 s.mem t (index 12 virt) v }
      (Function.update M (virt / pageSize) phys) := by
  have hbottom : (ptPath virt).length < 3 →
      tableOf .x86_64 (v % 2 ^ 64) = tableOf .x86_64 (entry .x86_64 s.mem t (index 12 virt)) :=
    fun hlt => absurd hlt (by simp)
  have hentry := fun q hq j => h.tables.entryAt_setEntry ht le_rfl hbottom (q := q) hq j
  -- a path that is not of full length does not end in a page table
  have hshort : ∀ q j, q.length < 3 →
      Vmm.entryAt F { s with mem := setEntry .x86_64 s.mem t (index 12 virt) v } q j
        = s.entryAt F q j := by
    intro q j hq
    rw [hentry q hq.le j, if_neg]
    rintro ⟨rfl, -⟩
    exact absurd hq (by simp)
  refine ⟨h.tables.setEntry ht le_rfl hbottom, fun q j w hq hw => ?_, fun a ha => ?_,
    fun a ha hlt' w hw => ?_, fun a ha hlt' => ?_⟩
  · rw [hshort q j (by omega)] at hw
    exact h.upper q j w hq hw
  · rw [hshort _ _ (by simp)]
    exact h.ident a ha
  · rw [hshort _ _ (by simp)] at hw
    exact h.small a ha hlt' w hw
  · rw [pteOf, hentry _ le_rfl]
    by_cases hpage : a / pageSize = virt / pageSize
    · rw [if_pos ((index_eq_iff hlt' hlt).mpr hpage), hpage, Function.update_self]
      exact hv
    · rw [if_neg (fun heq => hpage ((index_eq_iff hlt' hlt).mp heq)), Function.update_of_ne hpage]
      exact h.pages a ha hlt'

/-! ## What the calls do to the map -/

/-- The frames after a call include the frames before. -/
theorem Supplied.of_le (h : Supplied F s') (hle : s.drawn ≤ s'.drawn) : Supplied F s :=
  fun k hk => h k (lt_of_lt_of_le hk hle)

/-- `vmm_map` in terms of the address's indices. -/
theorem vmmMap_eq (F : Frames .x86_64) (s : Vmm) (virt phys flags : Nat) :
    vmmMap F s virt phys flags =
      let r₁ := getOrCreate F s F.root (index 39 virt)
      let r₂ := getOrCreate F r₁.2 r₁.1 (index 30 virt)
      let r₃ := getOrCreate F r₂.2 r₂.1 (index 21 virt)
      if entry .x86_64 r₂.2.mem r₂.1 (index 21 virt) &&& pteHuge ≠ 0 then r₂.2
      else { r₃.2 with mem := setEntry .x86_64 r₃.2.mem r₃.1 (index 12 virt)
                                (clearLow 64 pageShift phys ||| flags ||| ptePresent) } := by
  rw [vmmMap]
  simp only [shiftRight_and_eq_index]

/-- `get_or_create` of an entry that is there. -/
theorem getOrCreate_of_present {t i : Nat} (h : entry .x86_64 s.mem t i &&& ptePresent ≠ 0) :
    getOrCreate F s t i = (clearLow 64 pageShift (entry .x86_64 s.mem t i), s) := if_neg h

/-- The page directory of an address in the identity mapping, and its entry there. -/
theorem VmmInv.pde_ident (h : VmmInv F s M) {a : Nat} (ha : a < identityEnd) :
    pml4eOf F s a &&& ptePresent ≠ 0 ∧ pdpteOf F s a &&& ptePresent ≠ 0 ∧
      entry .x86_64 s.mem (clearLow 64 pageShift (pdpteOf F s a)) (index 21 a) &&& pteHuge ≠ 0 := by
  have hpde := h.ident a ha
  rcases h.upper.descend a with ⟨hnone, -⟩ | ⟨hsome, hpml4, hpdpte⟩
  · rw [Vmm.entryAt_of_tableAt_none hnone] at hpde
    cases hpde
  · rw [Vmm.entryAt_of_tableAt hsome, Option.some.injEq] at hpde
    refine ⟨hpml4, hpdpte, ?_⟩
    rw [hpde, Ne, and_pteHuge_eq_zero_iff]
    omega

/-- `vmm_map` does nothing inside the identity mapping. -/
theorem VmmInv.vmmMap_ident (h : VmmInv F s M) {virt : Nat} (hv : virt < identityEnd)
    (phys flags : Nat) : vmmMap F s virt phys flags = s := by
  obtain ⟨hpml4, hpdpte, hhuge⟩ := h.pde_ident hv
  have h₁ : X64.getOrCreate F s F.root (index 39 virt)
      = (clearLow 64 pageShift (pml4eOf F s virt), s) := getOrCreate_of_present hpml4
  have h₂ : X64.getOrCreate F s (clearLow 64 pageShift (pml4eOf F s virt)) (index 30 virt)
      = (clearLow 64 pageShift (pdpteOf F s virt), s) := getOrCreate_of_present hpdpte
  rw [vmmMap_eq]
  simp only [h₁, h₂]
  exact if_pos hhuge

/-- `vmm_unmap` does nothing inside the identity mapping. -/
theorem VmmInv.vmmUnmap_ident (h : VmmInv F s M) {virt : Nat} (hv : virt < identityEnd) :
    vmmUnmap F s virt = s := by
  obtain ⟨hpml4, hpdpte, hhuge⟩ := h.pde_ident hv
  rw [vmmUnmap_eq, if_neg hpml4, if_neg hpdpte]
  exact if_pos (Or.inr hhuge)

/-- `vmm_map` above the identity mapping maps its page. -/
theorem VmmInv.vmmMap (h : VmmInv F s M) {virt phys flags : Nat} (hge : identityEnd ≤ virt)
    (hlt : virt < 2 ^ 48) (hflags : flags < 4096)
    (hsupply : Supplied F (X64.vmmMap F s virt phys flags)) :
    VmmInv F (X64.vmmMap F s virt phys flags)
      (Function.update M (virt / pageSize) (some phys)) := by
  have hroot : s.tableAt F [] = some F.root := rfl
  rw [vmmMap_eq] at hsupply ⊢
  simp only at hsupply ⊢
  generalize hr₁ : X64.getOrCreate F s F.root (index 39 virt) = r₁ at hsupply ⊢
  generalize hr₂ : X64.getOrCreate F r₁.2 r₁.1 (index 30 virt) = r₂ at hsupply ⊢
  generalize hr₃ : X64.getOrCreate F r₂.2 r₂.1 (index 21 virt) = r₃ at hsupply ⊢
  have hle₂ : r₁.2.drawn ≤ r₂.2.drawn := hr₂ ▸ (drawn_getOrCreate F r₁.2 r₁.1 _).1
  have hle₃ : r₂.2.drawn ≤ r₃.2.drawn := hr₃ ▸ (drawn_getOrCreate F r₂.2 r₂.1 _).1
  have hs₂ : Supplied F r₂.2 := by
    split_ifs at hsupply
    · exact hsupply
    · exact Supplied.of_le hsupply hle₃
  have hs₁ : Supplied F r₁.2 := hs₂.of_le hle₂
  -- the three tables on the way, one after the other
  obtain ⟨hinv₁, ht₁⟩ := hr₁ ▸ h.getOrCreate (i := index 39 virt) hroot (by simp)
    (h.upper [] _ _ (by simp) (Vmm.entryAt_of_tableAt hroot _)) (hr₁ ▸ hs₁)
  obtain ⟨hinv₂, ht₂⟩ := hr₂ ▸ hinv₁.getOrCreate (i := index 30 virt) ht₁ (by simp)
    (hinv₁.upper _ _ _ (by simp) (Vmm.entryAt_of_tableAt ht₁ _)) (hr₂ ▸ hs₂)
  have hsmall := hinv₂.small virt hge hlt _ (Vmm.entryAt_of_tableAt ht₂ _)
  rw [if_neg (not_not.mpr hsmall)] at hsupply ⊢
  obtain ⟨hinv₃, ht₃⟩ := hr₃ ▸ hinv₂.getOrCreate (i := index 21 virt) ht₂ (by simp) hsmall
    (hr₃ ▸ Supplied.of_le hsupply le_rfl)
  exact hinv₃.writePte hlt ht₃ (entryOf_pte (T := .x86_64) phys hflags)

/-- `vmm_map` draws at most three frames. -/
theorem drawn_vmmMap_le (F : Frames .x86_64) (s : Vmm) (virt phys flags : Nat) :
    (vmmMap F s virt phys flags).drawn ≤ s.drawn + 3 := by
  rw [vmmMap_eq]
  simp only
  generalize hr₁ : X64.getOrCreate F s F.root (index 39 virt) = r₁
  generalize hr₂ : X64.getOrCreate F r₁.2 r₁.1 (index 30 virt) = r₂
  generalize hr₃ : X64.getOrCreate F r₂.2 r₂.1 (index 21 virt) = r₃
  have h₁ : r₁.2.drawn ≤ s.drawn + 1 := hr₁ ▸ (drawn_getOrCreate F s F.root _).2
  have h₂ : r₂.2.drawn ≤ r₁.2.drawn + 1 := hr₂ ▸ (drawn_getOrCreate F r₁.2 r₁.1 _).2
  have h₃ : r₃.2.drawn ≤ r₂.2.drawn + 1 := hr₃ ▸ (drawn_getOrCreate F r₂.2 r₂.1 _).2
  split_ifs
  · omega
  · change r₃.2.drawn ≤ _
    omega

/-- `vmm_unmap` above the identity mapping unmaps its page. -/
theorem VmmInv.vmmUnmap (h : VmmInv F s M) {virt : Nat} (hge : identityEnd ≤ virt)
    (hlt : virt < 2 ^ 48) :
    VmmInv F (X64.vmmUnmap F s virt) (Function.update M (virt / pageSize) none) := by
  -- without a page table the page was not mapped
  have hkeep : s.tableAt F (ptPath virt) = none →
      VmmInv F s (Function.update M (virt / pageSize) none) := by
    intro hnone
    refine ⟨h.tables, h.upper, h.ident, h.small, fun a ha hlt' => ?_⟩
    by_cases hpage : a / pageSize = virt / pageSize
    · have hpath := ((index_eq_iff hlt' hlt).mpr hpage).1
      rw [hpage, Function.update_self, pteOf, hpath, Vmm.entryAt_of_tableAt_none hnone]
      rfl
    · rw [Function.update_of_ne hpage]
      exact h.pages a ha hlt'
  rw [vmmUnmap_eq, h.upper.ite_descend virt s fun pd => unmapBelow s pd virt]
  cases hpd : s.tableAt F (pdPath virt) with
  | none => exact hkeep (Vmm.tableAt_concat_none hpd _)
  | some pd =>
      have hpath := Vmm.tableAt_concat hpd (index 21 virt)
      have hsmall := h.small virt hge hlt _ (Vmm.entryAt_of_tableAt hpd _)
      rw [Option.map_some, Option.getD_some, unmapBelow]
      by_cases hpres : entry .x86_64 s.mem pd (index 21 virt) &&& ptePresent = 0
      · rw [if_pos (Or.inl hpres)]
        exact hkeep (hpath.trans (tableOf_of_not_present hpres))
      · rw [if_neg (by rw [not_or, not_not]; exact ⟨hpres, hsmall⟩)]
        exact h.writePte hlt (hpath.trans (tableOf_eq_some_iff.mpr ⟨hpres, hsmall, rfl⟩)) rfl

/-! ## `vmm_init` -/

/-- The first `n` 2 MiB pages are mapped to themselves and nothing else is mapped. -/
structure Built (F : Frames .x86_64) (s : Vmm) (n : Nat) : Prop where
  /-- All tables are distinct frames. -/
  tables : TablesOk F 3 s
  /-- No 2 MiB pages on the upper levels. -/
  upper : UpperSmall F s
  /-- The pages done. -/
  ident : ∀ a < 2 ^ 48, a / 2 ^ 21 < n →
    s.entryAt F (pdPath a) (index 21 a) = some (a / 2 ^ 21 * 2 ^ 21 + 0x83)
  /-- The pages to come. -/
  rest : ∀ a < 2 ^ 48, n ≤ a / 2 ^ 21 → ∀ v, s.entryAt F (pdPath a) (index 21 a) = some v → v = 0
  /-- There are no page tables. -/
  leaf : ∀ q, q.length = 3 → s.tableAt F q = none

/-- A new table on one of the middle levels is empty, and nothing above it changes but its link. -/
theorem Built.link {n t : Nat} (h : Built F s n) {q : List (Fin (Target.entries .x86_64))}
    {i : Fin (Target.entries .x86_64)} (hq : s.tableAt F q = some t) (hlen : q.length < 2)
    (hempty : s.entryAt F q i = some 0) (halloc : F.alloc s.drawn ≠ 0) :
    Built F (s.linkTable F t i) n ∧
      (s.linkTable F t i).tableAt F (q ++ [i]) = some (F.alloc s.drawn) ∧
      (∀ z, (s.linkTable F t i).entryAt F (q ++ [i]) z = some 0) ∧
      (∀ r, r.length ≤ q.length → (s.linkTable F t i).tableAt F r = s.tableAt F r) ∧
      ∀ r z, r.length ≤ q.length → ¬ (r = q ∧ z = i) →
        (s.linkTable F t i).entryAt F r z = s.entryAt F r z := by
  have hentry0 : entry .x86_64 s.mem t i = 0 := Vmm.entry_eq_of_entryAt hq hempty
  have hpres : entry .x86_64 s.mem t i &&& ptePresent = 0 := by
    rw [hentry0]
    rfl
  have hlen3 : q.length < 3 := by omega
  obtain ⟨hok, htab, hentry⟩ := h.tables.link hq hlen3 hpres halloc
  have hnone : s.tableAt F (q ++ [i]) = none :=
    (Vmm.tableAt_concat hq i).trans (tableOf_of_not_present hpres)
  have hlength : (q ++ [i]).length = q.length + 1 := by
    rw [List.length_append, List.length_singleton]
  have habove : ∀ r, r.length ≤ q.length → r ≠ q ++ [i] := by
    rintro r hr rfl
    omega
  have hne : ∀ a, ¬ (pdPath a = q ∧ index 21 a = i) := by
    rintro a ⟨heq, -⟩
    rw [← heq, length_pdPath] at hlen
    omega
  refine ⟨⟨hok, fun r j v hr hv => ?_, fun a hlt ha => ?_, fun a hlt ha v hv => ?_,
    fun r hr => ?_⟩, ?_, fun z => ?_, fun r hr => ?_, fun r z hr hrz => ?_⟩
  · exact (h.tables.entryAt_linkTable hq hlen3 hpres halloc (by omega) hv).elim id
      fun hv => h.upper r j v hr hv
  · have hident := h.ident a hlt ha
    rw [hentry _ _ (by simp), if_neg, if_neg (hne a)]
    · exact hident
    · intro hpath
      rw [hpath, Vmm.entryAt_of_tableAt_none hnone] at hident
      cases hident
  · rw [hentry _ _ (by simp), if_neg (hne a)] at hv
    split_ifs at hv
    · exact (Option.some.inj hv).symm
    · exact h.rest a hlt ha v hv
  · rw [htab r (by omega), if_neg]
    · exact h.leaf r hr
    · rintro rfl
      omega
  · rw [htab _ (by omega), if_pos rfl]
  · rw [hentry _ z (by omega), if_pos rfl]
  · rw [htab r (by omega), if_neg (habove r hr)]
  · rw [hentry r z (by omega), if_neg (habove r hr), if_neg hrz]

/-- The entry that `vmm_init` writes. -/
theorem identEntry_eq {i j k n : Nat} (hi : i < 4) (hj : j < 512) (hk : k < 512)
    (hn : n = (i * 512 + j) * 512 + k) : identEntry i j k % 2 ^ 64 = n * 2 ^ 21 + 0x83 := by
  have hbase : (i * 512 * 512 * 0x200000 + j * 512 * 0x200000 + k * 0x200000) % 2 ^ 64
      = 2 ^ 21 * n := by
    rw [Nat.mod_eq_of_lt (by omega), hn]
    omega
  have hor : 2 ^ 21 * n ||| 0x83 = 2 ^ 21 * n + 0x83 :=
    (Nat.two_pow_add_eq_or_of_lt (i := 21) (b := 0x83) (by decide) n).symm
  rw [identEntry, hbase, Nat.or_assoc, Nat.or_assoc]
  change (2 ^ 21 * n ||| 0x83) % 2 ^ 64 = _
  rw [hor, Nat.mod_eq_of_lt (by omega), Nat.mul_comm]

/-- The place of a 2 MiB page in the page directories. -/
theorem pd_place_iff {a : Nat} (ha : a < 2 ^ 48) {i j k : Fin (Target.entries .x86_64)} :
    (pdPath a = [i, j] ∧ index 21 a = k) ↔ a / 2 ^ 21 = (i * 512 + j) * 512 + k := by
  rw [pdPath, List.cons_eq_cons, List.singleton_inj, Fin.ext_iff, Fin.ext_iff, Fin.ext_iff]
  have hi : (i : Nat) < 512 := i.isLt
  have hj : (j : Nat) < 512 := j.isLt
  have hk : (k : Nat) < 512 := k.isLt
  change (a / 2 ^ 39 % 512 = i ∧ a / 2 ^ 30 % 512 = j) ∧ a / 2 ^ 21 % 512 = k ↔ _
  omega

/-- One 2 MiB page is entered in its page directory. -/
theorem Built.fill {n pd : Nat} (h : Built F s n) {i j k : Fin (Target.entries .x86_64)}
    (hi : (i : Nat) < 4) (hn : n = (i * 512 + j) * 512 + k) (hpd : s.tableAt F [i, j] = some pd)
    (hempty : s.entryAt F [i, j] k = some 0) :
    Built F { s with mem := setEntry .x86_64 s.mem pd k (identEntry i j k) } (n + 1) ∧
      (∀ q, q.length ≤ 3 → Vmm.tableAt F
        { s with mem := setEntry .x86_64 s.mem pd k (identEntry i j k) } q = s.tableAt F q) ∧
      ∀ q z, q.length ≤ 3 → ¬ (q = [i, j] ∧ z = k) → Vmm.entryAt F
        { s with mem := setEntry .x86_64 s.mem pd k (identEntry i j k) } q z = s.entryAt F q z := by
  have hentry0 : entry .x86_64 s.mem pd k = 0 := Vmm.entry_eq_of_entryAt hpd hempty
  have hvalue := identEntry_eq hi j.isLt k.isLt hn
  -- an empty entry becomes a 2 MiB page: it led nowhere and leads nowhere
  have hchild : ([i, j] : List (Fin (Target.entries .x86_64))).length < 3 →
      tableOf .x86_64 (identEntry i j k % 2 ^ 64) = tableOf .x86_64 (entry .x86_64 s.mem pd k) := by
    intro _
    rw [hvalue, hentry0, tableOf_of_not_present (v := 0) rfl]
    refine tableOf_of_huge ?_
    rw [Ne, and_pteHuge_eq_zero_iff]
    omega
  have htab := fun q hq => h.tables.tableAt_setEntry hpd (by simp) hchild (q := q) hq
  have hentry := fun q hq z => h.tables.entryAt_setEntry hpd (by simp) hchild (q := q) hq z
  refine ⟨⟨h.tables.setEntry hpd (by simp) hchild, fun q z v hq hv => ?_, fun a hlt ha => ?_,
    fun a hlt ha v hv => ?_, fun q hq => ?_⟩, htab, fun q z hq hne => ?_⟩
  · rw [hentry q (by omega) z, if_neg] at hv
    · exact h.upper q z v hq hv
    · rintro ⟨rfl, -⟩
      simp at hq
  · rw [hentry _ (by simp)]
    by_cases hplace : a / 2 ^ 21 = n
    · rw [if_pos ((pd_place_iff hlt).mpr (hplace.trans hn)), hplace]
      exact congrArg some hvalue
    · rw [if_neg fun hp => hplace (((pd_place_iff hlt).mp hp).trans hn.symm)]
      exact h.ident a hlt (by omega)
  · rw [hentry _ (by simp), if_neg] at hv
    · exact h.rest a hlt (by omega) v hv
    · intro hp
      have := (pd_place_iff hlt).mp hp
      omega
  · rw [htab q hq.le]
    exact h.leaf q hq
  · rw [hentry q hq z, if_neg hne]

/-- The innermost loop enters the 512 pages of a page directory. -/
theorem Built.fillPd {n pd : Nat} (h : Built F s n) {i j : Fin (Target.entries .x86_64)}
    (hi : (i : Nat) < 4) (hn : n = (i * 512 + j) * 512) (hpd : s.tableAt F [i, j] = some pd)
    (hempty : ∀ z, s.entryAt F [i, j] z = some 0) :
    Built F { s with mem := fillPd pd i j s.mem } (n + 512) ∧
      (∀ q, q.length ≤ 3 →
        Vmm.tableAt F { s with mem := X64.fillPd pd i j s.mem } q = s.tableAt F q) ∧
      ∀ q z, q.length ≤ 1 →
        Vmm.entryAt F { s with mem := X64.fillPd pd i j s.mem } q z = s.entryAt F q z := by
  have hloop := @forRange_induction _
    (fun k m => setEntry .x86_64 m pd k (identEntry i j k))
    (fun k m => Built F { s with mem := m } (n + k) ∧
      (∀ q, q.length ≤ 3 → Vmm.tableAt F { s with mem := m } q = s.tableAt F q) ∧
      (∀ q z, q.length ≤ 1 → Vmm.entryAt F { s with mem := m } q z = s.entryAt F q z) ∧
      ∀ z : Fin (Target.entries .x86_64), k ≤ z →
        Vmm.entryAt F { s with mem := m } [i, j] z = some 0) 0 512 s.mem
    ⟨h, fun _ _ => rfl, fun _ _ _ => rfl, fun z _ => hempty z⟩ ?_
  · exact ⟨hloop.1, hloop.2.1, hloop.2.2.1⟩
  · rintro k m - hk ⟨hbuilt, htab, hentry, hzero⟩
    obtain ⟨hbuilt', htab', hentry'⟩ := hbuilt.fill (k := ⟨k, hk⟩) hi (by rw [hn])
      ((htab _ (by simp)).trans hpd) (hzero ⟨k, hk⟩ le_rfl)
    refine ⟨hbuilt', fun q hq => (htab' q hq).trans (htab q hq), fun q z hq => ?_, fun z hz => ?_⟩
    · refine (hentry' q z (by omega) ?_).trans (hentry q z hq)
      rintro ⟨rfl, -⟩
      simp at hq
    · refine (hentry' _ z (by simp) ?_).trans (hzero z (by omega))
      rintro ⟨-, rfl⟩
      simp at hz

/-- The middle loop enters the 512 page directories below one entry of `pml4`. -/
theorem Built.fillPdpt {n pdpt : Nat} (h : Built F s n) {i : Fin (Target.entries .x86_64)}
    (hi : (i : Nat) < 4) (hn : n = i * 512 * 512) (hpdpt : s.tableAt F [i] = some pdpt)
    (hempty : ∀ y, s.entryAt F [i] y = some 0)
    (hsupply : ∀ k < 512, F.alloc (s.drawn + k) ≠ 0) :
    Built F (fillPdpt F pdpt i s) (n + 512 * 512) ∧
      (∀ x, (X64.fillPdpt F pdpt i s).entryAt F [] x = s.entryAt F [] x) ∧
      (X64.fillPdpt F pdpt i s).drawn = s.drawn + 512 := by
  have hloop := @forRange_induction _
    (fun j s =>
      let pd := F.alloc s.drawn
      let s := s.linkTable F pdpt j
      { s with mem := X64.fillPd pd i j s.mem })
    (fun j u => Built F u (n + j * 512) ∧ u.tableAt F [i] = some pdpt ∧
      (∀ x, u.entryAt F [] x = s.entryAt F [] x) ∧
      (∀ y : Fin (Target.entries .x86_64), j ≤ y → u.entryAt F [i] y = some 0) ∧
      u.drawn = s.drawn + j) 0 512 s
    ⟨by rwa [Nat.zero_mul, Nat.add_zero], hpdpt, fun _ => rfl, fun y _ => hempty y, rfl⟩ ?_
  · exact ⟨hloop.1, hloop.2.2.1, hloop.2.2.2.2⟩
  · rintro j u - hj ⟨hbuilt, hpdpt', htop, hzero, hdrawn⟩
    have halloc : F.alloc u.drawn ≠ 0 := by
      rw [hdrawn]
      exact hsupply j hj
    obtain ⟨j, rfl⟩ : ∃ k : Fin (Target.entries .x86_64), (k : Nat) = j := ⟨⟨j, hj⟩, rfl⟩
    -- the new directory is `[i, j]` and empty
    obtain ⟨hlink, hpd, hpdzero, htab, hentry⟩ :=
      hbuilt.link hpdpt' (by simp) (hzero j le_rfl) halloc
    obtain ⟨hfill, hftab, hfentry⟩ := hlink.fillPd hi
      (by rw [hn, Nat.add_mul]) hpd hpdzero
    refine ⟨?_, ?_, fun x => ?_, fun y hy => ?_, ?_⟩
    · rw [Nat.add_mul, Nat.one_mul, ← Nat.add_assoc]
      exact hfill
    · exact ((hftab _ (by simp)).trans (htab _ le_rfl)).trans hpdpt'
    · exact ((hfentry [] x (by simp)).trans (hentry [] x (by simp) (by simp))).trans (htop x)
    · have hyj : y ≠ j := by
        rintro rfl
        simp at hy
      refine (hfentry [i] y (by simp)).trans ?_
      rw [hentry [i] y le_rfl fun heq => hyj heq.2]
      exact hzero y (by omega)
    · change u.drawn + 1 = _
      omega

/-- How many frames `vmm_init` draws. -/
theorem drawn_vmmInit (F : Frames .x86_64) (m : Mem) : (vmmInit F m).drawn = 2052 := by
  refine forRange_induction (P := fun i (s : Vmm) => s.drawn = i * 513) rfl ?_
  intro i s _ _ hs
  have hinner : (X64.fillPdpt F (F.alloc s.drawn) i (s.linkTable F F.root i)).drawn
      = s.drawn + 1 + 512 := by
    refine forRange_induction (P := fun j (u : Vmm) => u.drawn = s.drawn + 1 + j) rfl ?_
    intro j u _ _ hu
    change u.drawn + 1 = _
    omega
  simp only [hinner]
  omega

/-- Nothing is mapped by an empty `pml4`. -/
theorem Built.start (h : ∀ i : Fin (Target.entries .x86_64), entry .x86_64 s.mem F.root i = 0) :
    Built F s 0 := by
  have hleaf : ∀ i : Fin (Target.entries .x86_64),
      tableOf .x86_64 (entry .x86_64 s.mem F.root i) = none := by
    intro i
    rw [h i]
    rfl
  refine ⟨TablesOk.of_leaf 3 hleaf, fun q j v _ hv => ?_,
    fun a _ ha => absurd ha (Nat.not_lt_zero _), fun a _ _ v hv => ?_, fun q hq => ?_⟩
  · cases q with
    | nil =>
        have hroot : s.tableAt F [] = some F.root := rfl
        rw [Vmm.entryAt_of_tableAt hroot, h j] at hv
        obtain rfl := Option.some.inj hv
        rfl
    | cons i q =>
        rw [Vmm.entryAt_of_tableAt_none (Vmm.tableAt_cons_none (hleaf i) q)] at hv
        cases hv
  · rw [pdPath, Vmm.entryAt_of_tableAt_none (Vmm.tableAt_cons_none (hleaf _) _)] at hv
    cases hv
  · cases q with
    | nil => cases hq
    | cons i q => exact Vmm.tableAt_cons_none (hleaf i) q

/-- With frames for all its tables, `vmm_init` maps the first 2 TiB to themselves. -/
theorem Built.init (F : Frames .x86_64) (m : Mem) (hsupply : Supplied F (vmmInit F m)) :
    Built F (vmmInit F m) (4 * 512 * 512) := by
  have hsupply : ∀ k < 2052, F.alloc k ≠ 0 := by
    rwa [Supplied, drawn_vmmInit] at hsupply
  have hroot : ∀ s : Vmm, s.tableAt F [] = some F.root := fun _ => rfl
  have hclear : ∀ i : Fin (Target.entries .x86_64),
      entry .x86_64 (memset m F.root 0 pageSize) F.root i = 0 := fun i =>
    entry_memset_same m F.root i.isLt
  rw [vmmInit]
  generalize memset m F.root 0 pageSize = m₀ at hclear ⊢
  refine (@forRange_induction _ _
    (fun i u => Built F u (i * 512 * 512) ∧
      (∀ x : Fin (Target.entries .x86_64), i ≤ x → u.entryAt F [] x = some 0) ∧
      u.drawn = i * 513) 0 4 { mem := m₀, drawn := 0 }
    ⟨Built.start hclear, fun x _ => ?_, rfl⟩ ?_).1
  · exact (Vmm.entryAt_of_tableAt (hroot _) x).trans (congrArg some (hclear x))
  · rintro i u - hi ⟨hbuilt, hzero, hdrawn⟩
    have halloc : ∀ k < 513, F.alloc (u.drawn + k) ≠ 0 := by
      intro k hk
      rw [hdrawn]
      exact hsupply _ (by omega)
    obtain ⟨i, rfl⟩ : ∃ k : Fin (Target.entries .x86_64), (k : Nat) = i :=
      ⟨⟨i, lt_trans hi (by decide)⟩, rfl⟩
    obtain ⟨hlink, hpdpt, hpdptzero, -, hentry⟩ :=
      hbuilt.link (hroot u) (by simp) (hzero i le_rfl) (halloc 0 (by decide))
    obtain ⟨hfill, htop, hd⟩ := hlink.fillPdpt hi rfl hpdpt hpdptzero fun k hk => by
      change F.alloc (u.drawn + 1 + k) ≠ 0
      rw [Nat.add_assoc]
      exact halloc _ (by omega)
    refine ⟨?_, fun x hx => ?_, ?_⟩
    · have hnext : ((i : Nat) + 1) * 512 * 512 = (i : Nat) * 512 * 512 + 512 * 512 := by omega
      rw [hnext]
      exact hfill
    · have hxi : x ≠ i := by
        rintro rfl
        omega
      rw [htop x, hentry [] x le_rfl fun heq => hxi heq.2]
      exact hzero x (by omega)
    · rw [hd]
      change u.drawn + 1 + 512 = _
      omega

/-- `vmm_init` maps nothing above 2 TiB. -/
theorem VmmInv.init (F : Frames .x86_64) (m : Mem) (hsupply : Supplied F (vmmInit F m)) :
    VmmInv F (vmmInit F m) fun _ => none := by
  have h := Built.init F m hsupply
  refine ⟨h.tables, h.upper, fun a ha => ?_, fun a ha hlt v hv => ?_, fun a ha hlt => ?_⟩
  · rw [identityEnd] at ha
    exact h.ident a (by omega) (by omega)
  · rw [identityEnd] at ha
    rw [h.rest a hlt (by omega) v hv]
    rfl
  · rw [pteOf, Vmm.entryAt_of_tableAt_none (h.leaf _ (length_ptPath a))]
    rfl

/-! ## Runs -/

/-- The map may say anything about the identity mapping. -/
theorem VmmInv.update_ident (h : VmmInv F s M) {virt : Nat} (hv : virt < identityEnd)
    (phys : Option Nat) : VmmInv F s (Function.update M (virt / pageSize) phys) := by
  refine ⟨h.tables, h.upper, h.ident, h.small, fun a ha hlt => ?_⟩
  rw [Function.update_of_ne]
  · exact h.pages a ha hlt
  · rw [identityEnd] at ha hv
    rw [pageSize]
    omega

/-- Every step does to the map what its operation says. -/
theorem VmmInv.step (h : VmmInv F s M) {op : PageOp} (hstep : VmmStep F s op s') :
    VmmInv F s' (op.apply M) := by
  cases hstep with
  | @map virt phys flags hv _ hflags hsupply =>
      by_cases hlow : virt < identityEnd
      · rw [h.vmmMap_ident hlow]
        exact h.update_ident hlow _
      · exact h.vmmMap (not_lt.mp hlow) hv hflags hsupply
  | @unmap virt hv =>
      by_cases hlow : virt < identityEnd
      · rw [h.vmmUnmap_ident hlow]
        exact h.update_ident hlow _
      · exact h.vmmUnmap (not_lt.mp hlow) hv
  | other hm =>
      obtain ⟨hok, -, hentry⟩ := h.tables.untouched hm
      refine ⟨hok, fun q j v hq hv => ?_, fun a ha => ?_, fun a ha hlt v hv => ?_,
        fun a ha hlt => ?_⟩
      · rw [hentry q j (by omega)] at hv
        exact h.upper q j v hq hv
      · rw [hentry _ _ (by simp)]
        exact h.ident a ha
      · rw [hentry _ _ (by simp)] at hv
        exact h.small a ha hlt v hv
      · rw [pteOf, hentry _ _ (by simp)]
        exact h.pages a ha hlt

/-- A run does to the map what its operations say, one after the other. -/
theorem VmmInv.run (h : VmmInv F s M) {ops : List PageOp} (hrun : Run (VmmStep F) s ops s') :
    VmmInv F s' (ops.foldl PageOp.apply M) := by
  induction hrun generalizing M with
  | nil => exact h
  | cons hstep _ ih => exact ih (h.step hstep)

/-- What paging guarantees after the operations `ops`. -/
structure PagingRefines (F : Frames .x86_64) (s : Vmm) (ops : List PageOp) : Prop where
  /-- The first 2 TiB are mapped to themselves. -/
  identity : ∀ a < identityEnd, vmmPhys F s a = a
  /-- Above, the last operation on the page counts. -/
  last : ∀ a, identityEnd ≤ a → a < 2 ^ 48 →
    vmmPhys F s a = translation .x86_64 (PageOp.mapped ops (a / pageSize)) a
  /-- Operations on the first 2 TiB change no translation. -/
  low : ∀ virt < identityEnd, ∀ phys flags a,
    vmmPhys F (vmmMap F s virt phys flags) a = vmmPhys F s a ∧
      vmmPhys F (vmmUnmap F s virt) a = vmmPhys F s a

/-- After `vmm_init` and any calls that are supplied with frames, the tables above 2 TiB are the
partial map of these calls. -/
theorem vmmPhys64_of_run (F : Frames .x86_64) (m : Mem) (ops : List PageOp) (s : Vmm)
    (hsupply : Supplied F (vmmInit F m)) (hrun : Run (VmmStep F) (vmmInit F m) ops s) :
    PagingRefines F s ops := by
  have h := (VmmInv.init F m hsupply).run hrun
  refine ⟨fun a ha => h.vmmPhys_ident ha, fun a ha hlt => ?_, fun virt hv phys flags a => ?_⟩
  · rw [h.vmmPhys_eq ha hlt, PageOp.foldl_apply]
  · rw [h.vmmMap_ident hv, h.vmmUnmap_ident hv]
    exact ⟨rfl, rfl⟩

/-- Three thousand frames from 16 MiB on, one after the other. -/
def someAlloc (n : Nat) : Nat := if n < 3000 then 0x1000000 + 4096 * n else 0

/-- They have addresses, beyond 2 MiB. -/
theorem someAlloc_bounds (n : Nat) :
    someAlloc n < 2 ^ 64 ∧ pageSize ∣ someAlloc n ∧ someAlloc n ≠ 0x200000 := by
  rw [someAlloc, pageSize]
  split_ifs
  · omega
  · omega

/-- They are different. -/
theorem someAlloc_inj (n k : Nat) : someAlloc n ≠ 0 → someAlloc n = someAlloc k → n = k := by
  rw [someAlloc, someAlloc]
  split_ifs
  · omega
  · omega
  · exact fun h => absurd rfl h
  · exact fun h => absurd rfl h

/-- `pml4` at 2 MiB and three thousand frames. -/
def someFrames : Frames .x86_64 where
  root := 0x200000
  alloc := someAlloc
  root_aligned := ⟨512, rfl⟩
  alloc_aligned n := (someAlloc_bounds n).2.1
  alloc_lt n := (someAlloc_bounds n).1
  alloc_ne_root n _ := (someAlloc_bounds n).2.2
  alloc_inj := someAlloc_inj

/-- The first three thousand calls find a frame. -/
theorem supplied_someFrames (h : s.drawn ≤ 3000) : Supplied someFrames s := by
  intro k hk
  change someAlloc k ≠ 0
  rw [someAlloc, if_pos (lt_of_lt_of_le hk h)]
  omega

/-- A page above 2 TiB is mapped, then one below, then the first one is unmapped. -/
theorem vmmPhys64_someFrames : ∃ s, Run (VmmStep someFrames) (vmmInit someFrames fun _ => 0xAA)
      [.map 0xFFFF80000123 0x12345678 2, .map 0x1000 0x9000 3, .unmap 0xFFFF80000FFF] s ∧
    PagingRefines someFrames s
      [.map 0xFFFF80000123 0x12345678 2, .map 0x1000 0x9000 3, .unmap 0xFFFF80000FFF] := by
  have hd₀ := drawn_vmmInit someFrames fun _ => 0xAA
  have hs₀ : Supplied someFrames (vmmInit someFrames fun _ => 0xAA) :=
    supplied_someFrames (by rw [hd₀]; decide)
  generalize hinit : (vmmInit someFrames fun _ => 0xAA) = s₀ at hd₀ hs₀
  have hd₁ := drawn_vmmMap_le someFrames s₀ 0xFFFF80000123 0x12345678 2
  generalize hs₁ : vmmMap someFrames s₀ 0xFFFF80000123 0x12345678 2 = s₁ at hd₁
  have hd₂ := drawn_vmmMap_le someFrames s₁ 0x1000 0x9000 3
  generalize hs₂ : vmmMap someFrames s₁ 0x1000 0x9000 3 = s₂ at hd₂
  have hstep₁ : VmmStep someFrames s₀ (.map 0xFFFF80000123 0x12345678 2) s₁ := hs₁ ▸
    .map (by decide) (by decide) (by decide) (supplied_someFrames (by rw [hs₁]; omega))
  have hstep₂ : VmmStep someFrames s₁ (.map 0x1000 0x9000 3) s₂ := hs₂ ▸
    .map (by decide) (by decide) (by decide) (supplied_someFrames (by rw [hs₂]; omega))
  have hstep₃ : VmmStep someFrames s₂ (.unmap 0xFFFF80000FFF) _ := .unmap (by decide)
  have hrun := Run.cons hstep₁ (.cons hstep₂ (.single hstep₃))
  subst hinit
  exact ⟨_, hrun, vmmPhys64_of_run _ _ _ _ hs₀ hrun⟩

end X64

end Aerogel
