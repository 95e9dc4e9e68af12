import Aerogel.Foundations.Run
import Aerogel.Memory.PageTables
import Aerogel.Memory.PmmRuns

/-! # Paging on x86

`vmm.c` maps the first 128 MiB to themselves with 4 MiB entries in the page directory and everything
else on demand, through page tables that are created when the first page of their 4 MiB is mapped.
`vmmPhys_of_run` says that the two-level structure behaves like a partial map from pages to physical
addresses. The control registers and the TLB are not part of the model: the tables are. -/

namespace Aerogel

namespace X86

/-! ## The code -/

/-- `IDENTITY_MB`. -/
def identityMb : Nat := 128

/-- `vmm_init` on the page directory. -/
def vmmInit (F : Frames .x86) (m : Mem) : Vmm :=
  let m := memset m F.root 0 pageSize
  { mem := forRange 0 (identityMb / 4) (fun i m => setEntry .x86 m F.root i
      ((i * 0x400000) % 2 ^ 32 ||| ptePresent ||| pteWritable ||| pteHuge)) m
    drawn := 0 }

/-- `vmm_map`. -/
def vmmMap (F : Frames .x86) (s : Vmm) (virt phys flags : Nat) : Except Halt Vmm :=
  let pdi := virt >>> 22
  let pti := (virt >>> 12) &&& 0x3FF
  let pde := entry .x86 s.mem F.root pdi
  let pte := clearLow 32 pageShift phys ||| (flags &&& 0xFFF) ||| ptePresent
  if pde &&& pteHuge ≠ 0 then
    .error (.panic "vmm_map: cannot map within PSE region (virt=%x)" virt)
  else if pde &&& ptePresent = 0 then
    if F.alloc s.drawn = 0 then .error (.panic "vmm_map: out of physical memory" 0)
    else
      let pt := F.alloc s.drawn
      let s := s.linkTable F F.root pdi
      .ok { s with mem := setEntry .x86 s.mem pt pti pte }
  else
    let pt := clearLow 32 pageShift pde
    .ok { s with mem := setEntry .x86 s.mem pt pti pte }

/-- `vmm_unmap`. -/
def vmmUnmap (F : Frames .x86) (s : Vmm) (virt : Nat) : Vmm :=
  let pdi := virt >>> 22
  let pti := (virt >>> 12) &&& 0x3FF
  let pde := entry .x86 s.mem F.root pdi
  if pde &&& ptePresent = 0 ∨ pde &&& pteHuge ≠ 0 then s
  else { s with mem := setEntry .x86 s.mem (clearLow 32 pageShift pde) pti 0 }

/-- `vmm_phys`. -/
def vmmPhys (F : Frames .x86) (s : Vmm) (virt : Nat) : Nat :=
  let pdi := virt >>> 22
  let pti := (virt >>> 12) &&& 0x3FF
  let pde := entry .x86 s.mem F.root pdi
  if pde &&& ptePresent = 0 then 0
  -- `page_dir[pdi] & 0xFFC00000`
  else if pde &&& pteHuge ≠ 0 then clearLow 32 22 pde ||| virt &&& 0x3FFFFF
  else
    let pte := entry .x86 s.mem (clearLow 32 pageShift pde) pti
    if pte &&& ptePresent = 0 then 0 else clearLow 32 pageShift pte ||| virt &&& 0xFFF

/-- One thing that happens: a call with 32-bit arguments that returns, or a write by other code. -/
inductive VmmStep (F : Frames .x86) : Vmm → PageOp → Vmm → Prop
  /-- `vmm_map` returns. -/
  | map {s s' : Vmm} {virt phys flags : Nat} : virt < 2 ^ 32 → phys < 2 ^ 32 → flags < 2 ^ 32 →
      vmmMap F s virt phys flags = .ok s' → VmmStep F s (.map virt phys flags) s'
  /-- `vmm_unmap` returns. -/
  | unmap {s : Vmm} {virt : Nat} : virt < 2 ^ 32 →
      VmmStep F s (.unmap virt) (vmmUnmap F s virt)
  /-- Other code writes outside the frames that paging holds. -/
  | other {s : Vmm} {m' : Mem} : s.Untouched F m' → VmmStep F s .other { s with mem := m' }

/-- The end of the identity mapping. -/
def identityEnd : Nat := 0x8000000

/-! ## Indices -/

/-- The page directory's index of an address. -/
def dirIndex (a : Nat) : Fin (Target.entries .x86) :=
  ⟨a / 2 ^ 22 % 1024, Nat.mod_lt _ (by decide)⟩

/-- The page table's index of an address. -/
def tabIndex (a : Nat) : Fin (Target.entries .x86) :=
  ⟨a / 2 ^ 12 % 1024, Nat.mod_lt _ (by decide)⟩

/-- The first shift of the code. -/
theorem shiftRight_eq_dirIndex {a : Nat} (ha : a < 2 ^ 32) : a >>> 22 = dirIndex a := by
  rw [Nat.shiftRight_eq_div_pow, dirIndex]
  simp only
  omega

/-- The second shift of the code. -/
theorem shiftRight_and_eq_tabIndex (a : Nat) : (a >>> 12) &&& 0x3FF = tabIndex a := by
  rw [Nat.shiftRight_eq_div_pow]
  exact Nat.and_two_pow_sub_one_eq_mod (a / 2 ^ 12) 10

/-- The two indices tell pages apart. -/
theorem index_eq_iff {a b : Nat} (ha : a < 2 ^ 32) (hb : b < 2 ^ 32) :
    ([dirIndex a] = [dirIndex b] ∧ tabIndex a = tabIndex b) ↔ a / pageSize = b / pageSize := by
  rw [List.singleton_inj, Fin.ext_iff, Fin.ext_iff]
  change a / 2 ^ 22 % 1024 = b / 2 ^ 22 % 1024 ∧ a / 2 ^ 12 % 1024 = b / 2 ^ 12 % 1024 ↔
    a / 2 ^ 12 = b / 2 ^ 12
  omega

/-- The directory's entries for the first 128 MiB are the first 32. -/
theorem dirIndex_lt_iff {a : Nat} (ha : a < 2 ^ 32) : (dirIndex a).val < 32 ↔ a < identityEnd := by
  rw [dirIndex, identityEnd]
  simp only
  omega

/-! ## The invariant -/

variable {F : Frames .x86} {s s' : Vmm} {M : Nat → Option Nat}

/-- The page table entry of an address, 0 if there is no table. -/
def pteOf (F : Frames .x86) (s : Vmm) (a : Nat) : Nat :=
  (s.entryAt F [dirIndex a] (tabIndex a)).getD 0

/-- The tables say what the map `M` from pages to physical addresses says. -/
structure VmmInv (F : Frames .x86) (s : Vmm) (M : Nat → Option Nat) : Prop where
  /-- Page directory and page tables are distinct frames. -/
  tables : TablesOk F 1 s
  /-- The identity mapping is in place. -/
  ident : ∀ i < 32, entry .x86 s.mem F.root i = i * 0x400000 + 0x83
  /-- Outside it there are only page tables. -/
  small : ∀ i, 32 ≤ i → i < 1024 → entry .x86 s.mem F.root i &&& pteHuge = 0
  /-- Every page's entry is the one the map asks for. -/
  pages : ∀ a, identityEnd ≤ a → a < 2 ^ 32 → EntryOf .x86 (pteOf F s a) (M (a / pageSize))

/-- A directory entry leads where its value says. -/
theorem tableAt_dir (F : Frames .x86) (s : Vmm) (i : Fin (Target.entries .x86)) :
    s.tableAt F [i] = tableOf .x86 (entry .x86 s.mem F.root i) := by
  have hroot : s.tableAt F [] = some F.root := rfl
  exact Vmm.tableAt_concat hroot i

/-- Directory entries are the entries at the empty path. -/
theorem entryAt_nil (F : Frames .x86) (s : Vmm) (i : Fin (Target.entries .x86)) :
    s.entryAt F [] i = some (entry .x86 s.mem F.root i) := rfl

/-- The page table of an address that has one. -/
theorem VmmInv.tableAt_eq (h : VmmInv F s M) {a : Nat} (ha : identityEnd ≤ a) (hlt : a < 2 ^ 32)
    (hpres : entry .x86 s.mem F.root (dirIndex a) &&& ptePresent ≠ 0) :
    s.tableAt F [dirIndex a]
      = some (clearLow 32 pageShift (entry .x86 s.mem F.root (dirIndex a))) := by
  have hge : 32 ≤ (dirIndex a).val := by
    have := dirIndex_lt_iff hlt
    omega
  rw [tableAt_dir, tableOf, if_pos ⟨hpres, h.small _ hge (dirIndex a).isLt⟩]
  rfl

/-- An address without a page table has no entry. -/
theorem pteOf_of_not_present {a : Nat}
    (hpres : entry .x86 s.mem F.root (dirIndex a) &&& ptePresent = 0) : pteOf F s a = 0 := by
  have hnone : s.tableAt F [dirIndex a] = none := by
    rw [tableAt_dir, tableOf_of_not_present hpres]
  rw [pteOf, Vmm.entryAt_of_tableAt_none hnone, Option.getD_none]

/-! ## Translation -/

/-- Outside the identity mapping an address is translated as the map says. -/
theorem VmmInv.vmmPhys_eq (h : VmmInv F s M) {a : Nat} (ha : identityEnd ≤ a) (hlt : a < 2 ^ 32) :
    vmmPhys F s a = translation .x86 (M (a / pageSize)) a := by
  have hge : 32 ≤ (dirIndex a).val := by
    have := dirIndex_lt_iff hlt
    omega
  have hpage := h.pages a ha hlt
  rw [← hpage.translate a, vmmPhys]
  simp only [shiftRight_eq_dirIndex hlt, shiftRight_and_eq_tabIndex]
  by_cases hpres : entry .x86 s.mem F.root (dirIndex a) &&& ptePresent = 0
  · rw [if_pos hpres, pteOf_of_not_present hpres]
    rfl
  · have hpte : pteOf F s a = entry .x86 s.mem
        (clearLow 32 pageShift (entry .x86 s.mem F.root (dirIndex a))) (tabIndex a) := by
      rw [pteOf, Vmm.entryAt_of_tableAt (h.tableAt_eq ha hlt hpres), Option.getD_some]
    have hsmall : ¬ entry .x86 s.mem F.root (dirIndex a) &&& pteHuge ≠ 0 :=
      not_not.mpr (h.small _ hge (dirIndex a).isLt)
    rw [if_neg hpres, if_neg hsmall, ← hpte]
    rfl

/-- Inside the identity mapping an address is its own translation. -/
theorem VmmInv.vmmPhys_ident (h : VmmInv F s M) {a : Nat} (ha : a < identityEnd) :
    vmmPhys F s a = a := by
  have hlt : a < 2 ^ 32 := lt_trans ha (by decide)
  have hi : a / 2 ^ 22 < 32 := by
    rw [identityEnd] at ha
    omega
  have hpde := h.ident (a / 2 ^ 22) hi
  have hbits : entry .x86 s.mem F.root (a / 2 ^ 22) &&& ptePresent ≠ 0 ∧
      entry .x86 s.mem F.root (a / 2 ^ 22) &&& pteHuge ≠ 0 := by
    rw [Ne, Ne, and_ptePresent_eq_zero_iff, and_pteHuge_eq_zero_iff, hpde]
    omega
  have hbase : clearLow 32 22 (a / 2 ^ 22 * 0x400000 + 0x83) = 2 ^ 22 * (a / 2 ^ 22) := by
    rw [clearLow_of_lt (by decide) (by omega)]
    omega
  have hoff : a &&& 0x3FFFFF = a % 2 ^ 22 := Nat.and_two_pow_sub_one_eq_mod a 22
  rw [vmmPhys]
  simp only [Nat.shiftRight_eq_div_pow]
  rw [if_neg hbits.1, if_pos hbits.2, hpde, hbase, hoff,
    ← Nat.two_pow_add_eq_or_of_lt (Nat.mod_lt a (by decide)), Nat.div_add_mod]

/-! ## What the calls do to the map -/

/-- Writing a page's entry in its page table. -/
theorem VmmInv.writePte (h : VmmInv F s M) {virt t v : Nat} {phys : Option Nat}
    (hlt : virt < 2 ^ 32) (ht : s.tableAt F [dirIndex virt] = some t)
    (hv : EntryOf .x86 (v % 2 ^ 32) phys) :
    VmmInv F { s with mem := setEntry .x86 s.mem t (tabIndex virt) v }
      (Function.update M (virt / pageSize) phys) := by
  have hbottom : ([dirIndex virt] : List (Fin (Target.entries .x86))).length < 1 →
      tableOf .x86 (v % 2 ^ 32) = tableOf .x86 (entry .x86 s.mem t (tabIndex virt)) :=
    fun hlt => absurd hlt (by simp)
  have hentry := fun q hq j => h.tables.entryAt_setEntry ht le_rfl hbottom (q := q) hq j
  -- the directory is not a page table
  have hroot : ∀ i < 1024, entry .x86 (setEntry .x86 s.mem t (tabIndex virt) v) F.root i
      = entry .x86 s.mem F.root i := by
    intro i hi
    have hdir := hentry [] (by simp) ⟨i, hi⟩
    rw [if_neg (by simp), entryAt_nil, entryAt_nil] at hdir
    exact Option.some.inj hdir
  refine ⟨h.tables.setEntry ht le_rfl hbottom, fun i hi => ?_, fun i hge hi => ?_,
    fun a ha hlt' => ?_⟩
  · rw [hroot i (by omega)]
    exact h.ident i hi
  · rw [hroot i hi]
    exact h.small i hge hi
  · rw [pteOf, hentry _ le_rfl]
    by_cases hpage : a / pageSize = virt / pageSize
    · rw [if_pos ((index_eq_iff hlt' hlt).mpr hpage), hpage, Function.update_self]
      exact hv
    · rw [if_neg (fun heq => hpage ((index_eq_iff hlt' hlt).mp heq)), Function.update_of_ne hpage]
      exact h.pages a ha hlt'

/-- Creating a page table changes no translation. -/
theorem VmmInv.link (h : VmmInv F s M) {virt : Nat} (hge : identityEnd ≤ virt)
    (hlt : virt < 2 ^ 32) (hempty : entry .x86 s.mem F.root (dirIndex virt) &&& ptePresent = 0)
    (halloc : F.alloc s.drawn ≠ 0) :
    VmmInv F (s.linkTable F F.root (dirIndex virt)) M ∧
      (s.linkTable F F.root (dirIndex virt)).tableAt F [dirIndex virt]
        = some (F.alloc s.drawn) := by
  have hdge : 32 ≤ (dirIndex virt).val := by
    have := dirIndex_lt_iff hlt
    omega
  obtain ⟨hok, htab, hentry⟩ := h.tables.link (p := []) (i := dirIndex virt) rfl (by simp) hempty halloc
  have hroot : ∀ i < 1024, entry .x86 (s.linkTable F F.root (dirIndex virt)).mem F.root i
      = if i = dirIndex virt then F.alloc s.drawn + 3 else entry .x86 s.mem F.root i := by
    intro i hi
    have hdir := hentry [] ⟨i, hi⟩ (by simp)
    rw [if_neg (by simp), entryAt_nil, entryAt_nil] at hdir
    by_cases hi' : i = dirIndex virt
    · rw [if_pos ⟨rfl, Fin.ext hi'⟩] at hdir
      rw [if_pos hi']
      exact Option.some.inj hdir
    · rw [if_neg fun heq => hi' (congrArg Fin.val heq.2)] at hdir
      rw [if_neg hi']
      exact Option.some.inj hdir
  refine ⟨⟨hok, fun i hi => ?_, fun i hge hi => ?_, fun a ha hlt' => ?_⟩, ?_⟩
  · rw [hroot i (by omega), if_neg (by omega)]
    exact h.ident i hi
  · rw [hroot i hi]
    split_ifs
    · exact link_not_huge (F.alloc_aligned _)
    · exact h.small i hge hi
  · have hpage := h.pages a ha hlt'
    rw [pteOf, hentry _ _ le_rfl]
    by_cases hdir : [dirIndex a] = [] ++ [dirIndex virt]
    · rw [if_pos hdir, Option.getD_some]
      rw [List.nil_append, List.singleton_inj] at hdir
      rw [pteOf_of_not_present (by rw [hdir]; exact hempty)] at hpage
      exact hpage
    · rw [if_neg hdir, if_neg (by simp)]
      exact hpage
  · rw [htab _ le_rfl, if_pos (List.nil_append _).symm]

/-- `vmm_map` panics inside the identity mapping. -/
theorem VmmInv.vmmMap_ident (h : VmmInv F s M) {virt : Nat} (hlt : virt < identityEnd)
    (phys flags : Nat) : vmmMap F s virt phys flags
      = .error (.panic "vmm_map: cannot map within PSE region (virt=%x)" virt) := by
  have hi : virt >>> 22 < 32 := by
    rw [Nat.shiftRight_eq_div_pow]
    rw [identityEnd] at hlt
    omega
  have hhuge : entry .x86 s.mem F.root (virt >>> 22) &&& pteHuge ≠ 0 := by
    rw [Ne, and_pteHuge_eq_zero_iff, h.ident _ hi]
    omega
  exact if_pos hhuge

/-- `vmm_unmap` does nothing inside the identity mapping. -/
theorem VmmInv.vmmUnmap_ident (h : VmmInv F s M) {virt : Nat} (hlt : virt < identityEnd) :
    vmmUnmap F s virt = s := by
  have hi : virt >>> 22 < 32 := by
    rw [Nat.shiftRight_eq_div_pow]
    rw [identityEnd] at hlt
    omega
  have hhuge : entry .x86 s.mem F.root (virt >>> 22) &&& pteHuge ≠ 0 := by
    rw [Ne, and_pteHuge_eq_zero_iff, h.ident _ hi]
    omega
  exact if_pos (Or.inr hhuge)

/-- A call of `vmm_map` that returns maps its page. -/
theorem VmmInv.vmmMap (h : VmmInv F s M) {virt phys flags : Nat} (hlt : virt < 2 ^ 32)
    (hrun : X86.vmmMap F s virt phys flags = .ok s') :
    VmmInv F s' (Function.update M (virt / pageSize) (some phys)) := by
  by_cases hge : virt < identityEnd
  · rw [h.vmmMap_ident hge] at hrun
    cases hrun
  rw [not_lt] at hge
  have hflags : flags &&& 0xFFF < 2 ^ 12 := lt_of_le_of_lt Nat.and_le_right (by decide)
  have hv := entryOf_pte (T := .x86) phys hflags
  rw [X86.vmmMap] at hrun
  simp only [shiftRight_eq_dirIndex hlt, shiftRight_and_eq_tabIndex] at hrun
  split_ifs at hrun with _ hpres halloc
  · -- the page table is created first
    obtain rfl := Except.ok.inj hrun
    obtain ⟨hlink, htab⟩ := h.link hge hlt hpres halloc
    exact hlink.writePte hlt htab hv
  · obtain rfl := Except.ok.inj hrun
    exact h.writePte hlt (h.tableAt_eq hge hlt hpres) hv

/-- `vmm_unmap` unmaps its page. -/
theorem VmmInv.vmmUnmap (h : VmmInv F s M) {virt : Nat} (hlt : virt < 2 ^ 32) :
    VmmInv F (X86.vmmUnmap F s virt) (Function.update M (virt / pageSize) none) := by
  by_cases hge : virt < identityEnd
  · -- nothing is written, and the map is not asked about this page
    rw [h.vmmUnmap_ident hge]
    refine ⟨h.tables, h.ident, h.small, fun a ha hlt' => ?_⟩
    rw [Function.update_of_ne]
    · exact h.pages a ha hlt'
    · rw [identityEnd] at ha hge
      rw [pageSize]
      omega
  rw [not_lt] at hge
  rw [X86.vmmUnmap]
  simp only [shiftRight_eq_dirIndex hlt, shiftRight_and_eq_tabIndex]
  by_cases hpres : entry .x86 s.mem F.root (dirIndex virt) &&& ptePresent = 0
  · -- without a page table the page was not mapped
    rw [if_pos (Or.inl hpres)]
    refine ⟨h.tables, h.ident, h.small, fun a ha hlt' => ?_⟩
    by_cases hpage : a / pageSize = virt / pageSize
    · have hdir : dirIndex a = dirIndex virt :=
        List.singleton_inj.mp ((index_eq_iff hlt' hlt).mpr hpage).1
      rw [hpage, Function.update_self]
      exact pteOf_of_not_present (by rw [hdir]; exact hpres)
    · rw [Function.update_of_ne hpage]
      exact h.pages a ha hlt'
  · have hge' : 32 ≤ (dirIndex virt).val := by
      have := dirIndex_lt_iff hlt
      omega
    have hsmall := h.small _ hge' (dirIndex virt).isLt
    rw [if_neg (by rw [not_or, not_not]; exact ⟨hpres, hsmall⟩)]
    exact h.writePte hlt (h.tableAt_eq hge hlt hpres) rfl

/-- Outside the identity mapping `vmm_map` returns as long as `pmm_alloc` finds frames. -/
theorem VmmInv.exists_vmmMap (h : VmmInv F s M) {virt : Nat} (hge : identityEnd ≤ virt)
    (hlt : virt < 2 ^ 32) (halloc : F.alloc s.drawn ≠ 0) (phys flags : Nat) :
    ∃ s', X86.vmmMap F s virt phys flags = .ok s' := by
  have hdge : 32 ≤ (dirIndex virt).val := by
    have := dirIndex_lt_iff hlt
    omega
  rw [X86.vmmMap]
  simp only [shiftRight_eq_dirIndex hlt]
  rw [if_neg (not_not.mpr (h.small _ hdge (dirIndex virt).isLt)), if_neg halloc]
  split_ifs
  · exact ⟨_, rfl⟩
  · exact ⟨_, rfl⟩

/-! ## After `vmm_init` -/

/-- The entry that `vmm_init` writes. -/
theorem ident_value {i : Nat} (hi : i < 32) :
    ((i * 0x400000) % 2 ^ 32 ||| ptePresent ||| pteWritable ||| pteHuge) % 2 ^ 32
      = i * 0x400000 + 0x83 := by
  have hor : i * 0x400000 ||| 0x83 = i * 0x400000 + 0x83 := by
    rw [Nat.mul_comm]
    exact (Nat.two_pow_add_eq_or_of_lt (i := 22) (b := 0x83) (by decide) i).symm
  have hbase : (i * 0x400000) % 2 ^ 32 = i * 0x400000 := Nat.mod_eq_of_lt (by omega)
  rw [hbase, Nat.or_assoc, Nat.or_assoc]
  change (i * 0x400000 ||| 0x83) % 2 ^ 32 = _
  rw [hor, Nat.mod_eq_of_lt (by omega)]

/-- The page directory after `vmm_init`. -/
theorem entry_vmmInit (F : Frames .x86) (m : Mem) {i : Nat} (hi : i < 1024) :
    entry .x86 (vmmInit F m).mem F.root i = if i < 32 then i * 0x400000 + 0x83 else 0 := by
  refine forRange_induction (P := fun k (m : Mem) => entry .x86 m F.root i
    = if i < k then i * 0x400000 + 0x83 else 0) ?_ ?_
  · rw [if_neg (by omega)]
    exact entry_memset_same m F.root hi
  · intro k m _ hk hm
    by_cases hik : i = k
    · subst hik
      rw [if_pos (by omega), entry_setEntry_same]
      exact ident_value hk
    · rw [entry_setEntry_of_ne m F.root_aligned F.root_aligned (lt_trans hk (by decide)) hi
        fun heq => hik heq.2, hm]
      exact if_congr (by omega) rfl rfl

/-- `vmm_init` leaves a directory without page tables. -/
theorem VmmInv.init (F : Frames .x86) (m : Mem) : VmmInv F (vmmInit F m) fun _ => none := by
  refine ⟨TablesOk.of_leaf 1 fun i => ?_, fun i hi => ?_, fun i hge hi => ?_, fun a ha hlt => ?_⟩
  · rw [entry_vmmInit F m i.isLt]
    split_ifs with hi
    · refine tableOf_of_huge ?_
      rw [Ne, and_pteHuge_eq_zero_iff]
      omega
    · exact tableOf_of_not_present rfl
  · rw [entry_vmmInit F m (by omega), if_pos hi]
  · rw [entry_vmmInit F m hi, if_neg (by omega)]
    rfl
  · refine pteOf_of_not_present ?_
    have hge : ¬ (dirIndex a).val < 32 := by
      rw [dirIndex_lt_iff hlt]
      omega
    rw [entry_vmmInit F m (dirIndex a).isLt, if_neg hge]
    rfl

/-! ## Runs -/

/-- Every step does to the map what its operation says. -/
theorem VmmInv.step (h : VmmInv F s M) {op : PageOp} (hstep : VmmStep F s op s') :
    VmmInv F s' (op.apply M) := by
  cases hstep with
  | map hv _ _ hrun => exact h.vmmMap hv hrun
  | unmap hv => exact h.vmmUnmap hv
  | other hm =>
      obtain ⟨hok, -, hentry⟩ := h.tables.untouched hm
      have hroot : ∀ i < 1024, entry .x86 _ F.root i = entry .x86 s.mem F.root i := fun i hi =>
        Option.some.inj (hentry [] ⟨i, hi⟩ (by simp))
      refine ⟨hok, fun i hi => ?_, fun i hge hi => ?_, fun a ha hlt => ?_⟩
      · rw [hroot i (by omega)]
        exact h.ident i hi
      · rw [hroot i hi]
        exact h.small i hge hi
      · rw [pteOf, hentry _ _ le_rfl]
        exact h.pages a ha hlt

/-- A run does to the map what its operations say, one after the other. -/
theorem VmmInv.run (h : VmmInv F s M) {ops : List PageOp} (hrun : Run (VmmStep F) s ops s') :
    VmmInv F s' (ops.foldl PageOp.apply M) := by
  induction hrun generalizing M with
  | nil => exact h
  | cons hstep _ ih => exact ih (h.step hstep)

/-- What paging guarantees after the operations `ops`. -/
structure PagingRefines (F : Frames .x86) (s : Vmm) (ops : List PageOp) : Prop where
  /-- The first 128 MiB are mapped to themselves. -/
  identity : ∀ a < identityEnd, vmmPhys F s a = a
  /-- Elsewhere the last operation on the page counts. -/
  last : ∀ a, identityEnd ≤ a → a < 2 ^ 32 →
    vmmPhys F s a = translation .x86 (PageOp.mapped ops (a / pageSize)) a
  /-- An operation on one page changes no address of another. -/
  frame : ∀ op s', VmmStep F s op s' → ∀ a < 2 ^ 32, op.page ≠ some (a / pageSize) →
    vmmPhys F s' a = vmmPhys F s a
  /-- The identity mapping cannot be overridden. -/
  map_panics : ∀ virt < identityEnd, ∀ phys flags, vmmMap F s virt phys flags
    = .error (.panic "vmm_map: cannot map within PSE region (virt=%x)" virt)
  /-- The identity mapping cannot be removed. -/
  unmap_unchanged : ∀ virt < identityEnd, vmmUnmap F s virt = s

/-- After `vmm_init` and any calls that return, the tables are the partial map of these calls. -/
theorem vmmPhys_of_run (F : Frames .x86) (m : Mem) (ops : List PageOp) (s : Vmm)
    (hrun : Run (VmmStep F) (vmmInit F m) ops s) : PagingRefines F s ops := by
  have h := (VmmInv.init F m).run hrun
  refine ⟨fun a ha => h.vmmPhys_ident ha, fun a ha hlt => ?_, fun op s' hstep a hlt hpage => ?_,
    fun virt hv phys flags => h.vmmMap_ident hv phys flags, fun virt hv => h.vmmUnmap_ident hv⟩
  · rw [h.vmmPhys_eq ha hlt, PageOp.foldl_apply]
  · have h' := h.step hstep
    by_cases ha : a < identityEnd
    · rw [h.vmmPhys_ident ha, h'.vmmPhys_ident ha]
    · rw [h.vmmPhys_eq (not_lt.mp ha) hlt, h'.vmmPhys_eq (not_lt.mp ha) hlt,
        PageOp.apply_of_page_ne hpage]

/-- The page directory inside a small kernel image, and the frames of `pmm_alloc` after boot. -/
def bootFrames : Frames .x86 :=
  .ofBoot lowImage [lowMemory] 0x30000 (by decide) (by decide) (by decide) (by decide)

/-- After boot `pmm_alloc` finds a frame. -/
theorem bootFrames_alloc : bootFrames.alloc 0 ≠ 0 := by
  rw [bootFrames, Frames.ofBoot_alloc_zero, Ne, pmmAlloc_eq_zero_iff]
  intro h
  have hused := h 1024 (by decide) (by decide)
  have hfree : (pmmInit .x86 lowImage [lowMemory] .static).testPage 1024 = false := by
    rw [pmmInit_free_iff _ _ _ (by decide)]
    refine ⟨⟨lowMemory, by simp, rfl, by decide, by decide⟩, ?_⟩
    unfold Reserved
    decide
  rw [hfree] at hused
  exact Bool.noConfusion hused

/-- A page is mapped and unmapped again after boot. -/
theorem vmmPhys_bootFrames : ∃ s, Run (VmmStep bootFrames) (vmmInit bootFrames fun _ => 0xAA)
      [.map 0x40000123 0x12345678 2, .unmap 0x1000, .unmap 0x40000FFF] s ∧
    PagingRefines bootFrames s [.map 0x40000123 0x12345678 2, .unmap 0x1000, .unmap 0x40000FFF] := by
  have h₀ := VmmInv.init bootFrames fun _ => 0xAA
  obtain ⟨s₁, hs₁⟩ := @VmmInv.exists_vmmMap _ _ _ h₀ 0x40000123 (by decide) (by decide)
    bootFrames_alloc 0x12345678 2
  have hs₂ : VmmStep bootFrames s₁ (.unmap 0x1000) _ := .unmap (by decide)
  have hs₃ : VmmStep bootFrames (vmmUnmap bootFrames s₁ 0x1000) (.unmap 0x40000FFF) _ :=
    .unmap (by decide)
  have hrun := Run.cons (VmmStep.map (by decide) (by decide) (by decide) hs₁)
    (Run.cons hs₂ (Run.single hs₃))
  exact ⟨_, hrun, vmmPhys_of_run _ _ _ _ hrun⟩

end X86

end Aerogel
