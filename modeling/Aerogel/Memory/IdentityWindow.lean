import Aerogel.Memory.VmmX86

/-! # Page tables and the identity window on x86

With paging on, `vmm.c` still uses the physical addresses of page tables as pointers. That is right for
the first 128 MiB, which are mapped to themselves, but `pmm_alloc` hands out whatever frame is lowest.
Here page allocator and page tables are one state, and every call notes the page tables it reads or
writes, with memory at that moment. `selfMapped_of_run` says that all of them are mapped to themselves in
runs where no page table is created while there is free memory, but none of it below 128 MiB. -/

namespace Aerogel

namespace X86

/-! ## The code -/

/-- A page table is read or written through its physical address. -/
structure TableAccess where
  /-- Memory at that moment. -/
  mem : Mem
  /-- The address used as a pointer. -/
  table : Nat

/-- `vmm_init`, for a page directory at `root`. -/
def vmmInitAt (root : Nat) (m : Mem) : Mem :=
  forRange 0 (identityMb / 4) (fun i m => setEntry .x86 m root i
    ((i * 0x400000) % 2 ^ 32 ||| ptePresent ||| pteWritable ||| pteHuge)) (memset m root 0 pageSize)

/-- `vmm_map` with the page allocator it draws from: allocator and memory after the call, the page table
created, and the page tables accessed. -/
def vmmMapAt (root : Nat) (pm : Pmm) (m : Mem) (virt phys flags : Nat) :
    Except Halt (Pmm × Mem × List Nat × List TableAccess) :=
  let pdi := virt >>> 22
  let pti := (virt >>> 12) &&& 0x3FF
  let pde := entry .x86 m root pdi
  let pte := clearLow 32 pageShift phys ||| (flags &&& 0xFFF) ||| ptePresent
  if pde &&& pteHuge ≠ 0 then
    .error (.panic "vmm_map: cannot map within PSE region (virt=%x)" virt)
  else if pde &&& ptePresent = 0 then
    let (pa, pm) := pmmAlloc pm
    if pa = 0 then .error (.panic "vmm_map: out of physical memory" 0)
    else
      let linked := setEntry .x86 (memset m pa 0 pageSize) root pdi
        (pa ||| ptePresent ||| pteWritable)
      .ok (pm, setEntry .x86 linked pa pti pte, [pa], [⟨m, pa⟩, ⟨linked, pa⟩])
  else
    let pt := clearLow 32 pageShift pde
    .ok (pm, setEntry .x86 m pt pti pte, [], [⟨m, pt⟩])

/-- `vmm_unmap`: memory after the call, and the page tables accessed. -/
def vmmUnmapAt (root : Nat) (m : Mem) (virt : Nat) : Mem × List TableAccess :=
  let pdi := virt >>> 22
  let pti := (virt >>> 12) &&& 0x3FF
  let pde := entry .x86 m root pdi
  if pde &&& ptePresent = 0 ∨ pde &&& pteHuge ≠ 0 then (m, [])
  else
    let pt := clearLow 32 pageShift pde
    (setEntry .x86 m pt pti 0, [⟨m, pt⟩])

/-- `vmm_phys`: the address returned, and the page tables accessed. -/
def vmmPhysAt (root : Nat) (m : Mem) (virt : Nat) : Nat × List TableAccess :=
  let pdi := virt >>> 22
  let pti := (virt >>> 12) &&& 0x3FF
  let pde := entry .x86 m root pdi
  if pde &&& ptePresent = 0 then (0, [])
  else if pde &&& pteHuge ≠ 0 then (clearLow 32 22 pde ||| virt &&& 0x3FFFFF, [])
  else
    let pt := clearLow 32 pageShift pde
    let pte := entry .x86 m pt pti
    (if pte &&& ptePresent = 0 then 0 else clearLow 32 pageShift pte ||| virt &&& 0xFFF, [⟨m, pt⟩])

/-- Page allocator and page tables. -/
structure Paging where
  /-- The allocator, with the frames that other code holds. -/
  frames : PmmRun
  /-- Physical memory. -/
  mem : Mem
  /-- The page tables that `vmm_map` has created. -/
  tables : List Nat

/-- What can happen. -/
inductive PagingOp
  /-- A call of the page allocator. -/
  | pmm (op : PmmOp)
  /-- `vmm_map(virt, phys, flags)`. -/
  | map (virt phys flags : Nat)
  /-- `vmm_unmap(virt)`. -/
  | unmap (virt : Nat)
  /-- `vmm_phys(virt)`. -/
  | phys (virt : Nat)
  /-- Other code writes to memory. -/
  | other

/-- One step, labelled with the call and the page tables it accesses. Frames are only given back by who
holds them, and other code writes neither into the page directory nor into page tables. -/
inductive PagingStep (root : Nat) : Paging → PagingOp × List TableAccess → Paging → Prop
  /-- A call of the page allocator. -/
  | pmm {s : Paging} {op : PmmOp} {f : PmmRun} : PmmStep .x86 s.frames op f →
      PagingStep root s (.pmm op, []) { s with frames := f }
  /-- `vmm_map` returns. -/
  | map {s : Paging} {virt phys flags : Nat} {pm : Pmm} {m : Mem} {new : List Nat}
      {acc : List TableAccess} : virt < 2 ^ 32 →
      vmmMapAt root s.frames.pmm s.mem virt phys flags = .ok (pm, m, new, acc) →
      PagingStep root s (.map virt phys flags, acc)
        { frames := { s.frames with pmm := pm }, mem := m, tables := s.tables ++ new }
  /-- `vmm_unmap` returns. -/
  | unmap {s : Paging} {virt : Nat} : virt < 2 ^ 32 →
      PagingStep root s (.unmap virt, (vmmUnmapAt root s.mem virt).2)
        { s with mem := (vmmUnmapAt root s.mem virt).1 }
  /-- `vmm_phys` returns. -/
  | phys {s : Paging} {virt : Nat} : virt < 2 ^ 32 →
      PagingStep root s (.phys virt, (vmmPhysAt root s.mem virt).2) s
  /-- Other code writes. -/
  | other {s : Paging} {m : Mem} :
      (∀ t ∈ root :: s.tables, ∀ x, t ≤ x → x < t + pageSize → m x = s.mem x) →
      PagingStep root s (.other, []) { s with mem := m }

/-- The state after `pmm_init` and `vmm_init`. -/
def pagingBoot (img : KernelImage .x86) (map : List E820Entry) (root : Nat) (m : Mem) : Paging :=
  { frames := pmmBoot .x86 img map, mem := vmmInitAt root m, tables := [] }

/-- The page table is mapped to itself when it is accessed: it lies in the identity-mapped first
128 MiB. -/
def TableAccess.SelfMapped (root : Nat) (a : TableAccess) : Prop :=
  (vmmPhysAt root a.mem a.table).1 = a.table ∧ a.table < identityEnd

/-- If any frame is free, one below 128 MiB is. -/
def LowFirst (pm : Pmm) : Prop :=
  (∃ p, 1 ≤ p ∧ p < maxPages ∧ pm.testPage p = false) →
    ∃ p, 1 ≤ p ∧ pageSize * p < identityEnd ∧ pm.testPage p = false

/-- A call of `vmm_map` that has to create a page table finds a free frame below 128 MiB, if it finds
any. -/
def CreatesLow (root : Nat) (s : Paging) : PagingOp → Prop
  | .map virt _ _ => entry .x86 s.mem root (virt >>> 22) &&& ptePresent = 0 → LowFirst s.frames.pmm
  | _ => True

/-- A step that creates page tables only in low memory. -/
def LowStep (root : Nat) (s : Paging) (a : PagingOp × List TableAccess) (s' : Paging) : Prop :=
  PagingStep root s a s' ∧ CreatesLow root s a.1

/-! ## The page tables as frames that paging has drawn -/

/-- The page tables are different frames, none of them the page directory. -/
structure TableFrames (root : Nat) (ts : List Nat) : Prop where
  /-- The page directory is `ALIGN(4096)`. -/
  root_aligned : pageSize ∣ root
  /-- Page tables are pages with addresses of 32 bits, not at 0 and not the page directory. -/
  page : ∀ t ∈ ts, pageSize ∣ t ∧ t < 2 ^ 32 ∧ t ≠ 0 ∧ t ≠ root
  /-- No frame serves twice. -/
  nodup : ts.Nodup

/-- A place in the list holds one of the page tables, or there is none. -/
theorem getD_mem_or (ts : List Nat) (k : Nat) : ts.getD k 0 ∈ ts ∨ ts.getD k 0 = 0 := by
  rw [List.getD_eq_getElem?_getD]
  by_cases hk : k < ts.length
  · rw [List.getElem?_eq_getElem hk]
    exact Or.inl (List.getElem_mem hk)
  · rw [List.getElem?_eq_none (not_lt.mp hk)]
    exact Or.inr rfl

/-- The frames that paging has drawn so far. -/
def framesOf (root : Nat) (ts : List Nat) (h : TableFrames root ts) : Frames .x86 where
  root := root
  alloc k := ts.getD k 0
  root_aligned := h.root_aligned
  alloc_aligned k := by
    rcases getD_mem_or ts k with ht | h0
    · exact (h.page _ ht).1
    · rw [h0]
      exact ⟨0, rfl⟩
  alloc_lt k := by
    rcases getD_mem_or ts k with ht | h0
    · exact (h.page _ ht).2.1
    · rw [h0]
      decide
  alloc_ne_root k hne := (getD_mem_or ts k).elim (fun ht => (h.page _ ht).2.2.2) fun h0 =>
    absurd h0 hne
  alloc_inj n k hne heq := by
    have hlt : ∀ i, ts.getD i 0 ≠ 0 → i < ts.length := by
      intro i hi
      by_contra hge
      rw [List.getD_eq_default _ _ (not_lt.mp hge)] at hi
      exact hi rfl
    have hn := hlt n hne
    have hk := hlt k (heq ▸ hne)
    rw [List.getD_eq_getElem _ _ hn, List.getD_eq_getElem _ _ hk] at heq
    exact (h.nodup.getElem_inj_iff).mp heq

variable {root : Nat} {s s' : Paging}

/-- One more page table. -/
theorem TableFrames.concat {ts : List Nat} (h : TableFrames root ts) {t : Nat} (haligned : pageSize ∣ t)
    (hlt : t < 2 ^ 32) (hne : t ≠ 0) (hroot : t ≠ root) (hnew : t ∉ ts) :
    TableFrames root (ts ++ [t]) := by
  refine ⟨h.root_aligned, fun u hu => ?_, ?_⟩
  · rcases List.mem_append.mp hu with hu | hu
    · exact h.page u hu
    · rw [List.mem_singleton.mp hu]
      exact ⟨haligned, hlt, hne, hroot⟩
  · rw [← List.concat_eq_append]
    exact h.nodup.concat hnew

/-- Tables only depend on the frames drawn so far. -/
theorem VmmInv.congr_frames {F F' : Frames .x86} {v : Vmm} {M : Nat → Option Nat} (h : VmmInv F v M)
    (hroot : F'.root = F.root) (halloc : ∀ k < v.drawn, F'.alloc k = F.alloc k) :
    VmmInv F' v M := by
  have htab : ∀ q, v.tableAt F' q = v.tableAt F q := fun q => by rw [Vmm.tableAt, Vmm.tableAt, hroot]
  refine ⟨⟨hroot ▸ h.tables.tree, fun q t hq ht => ?_⟩, hroot ▸ h.ident, hroot ▸ h.small,
    fun a ha hlt => ?_⟩
  · rw [htab] at ht
    refine (h.tables.holds q t hq ht).imp (fun heq => heq.trans hroot.symm) ?_
    rintro ⟨k, hk, heq, hne⟩
    exact ⟨k, hk, (halloc k hk).trans heq, hne⟩
  · have hpage := h.pages a ha hlt
    rwa [pteOf, Vmm.entryAt, ← hroot] at hpage

/-! ## The calls with their notes are the calls -/

/-- `vmm_init` at the page directory's address. -/
theorem vmmInitAt_eq (F : Frames .x86) (m : Mem) : vmmInitAt F.root m = (vmmInit F m).mem := rfl

/-- `vmm_phys` with its notes. -/
theorem vmmPhysAt_fst (F : Frames .x86) (v : Vmm) (virt : Nat) :
    (vmmPhysAt F.root v.mem virt).1 = vmmPhys F v virt := by
  rw [vmmPhysAt, vmmPhys]
  dsimp only
  split_ifs <;> rfl

/-- `vmm_unmap` with its notes. -/
theorem vmmUnmapAt_fst (F : Frames .x86) (v : Vmm) (virt : Nat) :
    ({ v with mem := (vmmUnmapAt F.root v.mem virt).1 } : Vmm) = vmmUnmap F v virt := by
  rw [vmmUnmapAt, vmmUnmap]
  dsimp only
  split_ifs <;> rfl

/-- What `vmm_map` does when it returns: it uses the page table that is there, or creates one. -/
inductive Mapped (root : Nat) (pm : Pmm) (m : Mem) (virt phys flags : Nat) :
    Pmm × Mem × List Nat × List TableAccess → Prop
  /-- The page table is there. -/
  | found {pt : Nat} : entry .x86 m root (virt >>> 22) &&& pteHuge = 0 →
      entry .x86 m root (virt >>> 22) &&& ptePresent ≠ 0 →
      pt = clearLow 32 pageShift (entry .x86 m root (virt >>> 22)) →
      Mapped root pm m virt phys flags
        (pm, setEntry .x86 m pt ((virt >>> 12) &&& 0x3FF)
          (clearLow 32 pageShift phys ||| (flags &&& 0xFFF) ||| ptePresent), [], [⟨m, pt⟩])
  /-- It is created. -/
  | created {pa : Nat} {linked : Mem} : entry .x86 m root (virt >>> 22) &&& pteHuge = 0 →
      entry .x86 m root (virt >>> 22) &&& ptePresent = 0 → pa = (pmmAlloc pm).1 → pa ≠ 0 →
      linked = setEntry .x86 (memset m pa 0 pageSize) root (virt >>> 22)
        (pa ||| ptePresent ||| pteWritable) →
      Mapped root pm m virt phys flags
        ((pmmAlloc pm).2, setEntry .x86 linked pa ((virt >>> 12) &&& 0x3FF)
          (clearLow 32 pageShift phys ||| (flags &&& 0xFFF) ||| ptePresent), [pa],
          [⟨m, pa⟩, ⟨linked, pa⟩])

/-- A call of `vmm_map` that returns does one or the other. -/
theorem mapped_of_vmmMapAt {pm : Pmm} {m : Mem} {virt phys flags : Nat}
    {r : Pmm × Mem × List Nat × List TableAccess}
    (h : vmmMapAt root pm m virt phys flags = .ok r) : Mapped root pm m virt phys flags r := by
  rw [vmmMapAt] at h
  dsimp only at h
  split_ifs at h with hhuge hpres hzero
  · obtain rfl := Except.ok.inj h
    exact .created (not_not.mp hhuge) hpres rfl hzero rfl
  · obtain rfl := Except.ok.inj h
    exact .found (not_not.mp hhuge) hpres rfl

/-- `vmm_map` of the page table model, when it draws the frame that `pmm_alloc` finds. -/
theorem Mapped.vmmMap {pm : Pmm} {m : Mem} {virt phys flags : Nat}
    {r : Pmm × Mem × List Nat × List TableAccess} {F : Frames .x86} {n : Nat}
    (h : Mapped F.root pm m virt phys flags r) (halloc : ∀ pa ∈ r.2.2.1, F.alloc n = pa) :
    X86.vmmMap F ⟨m, n⟩ virt phys flags = .ok ⟨r.2.1, n + r.2.2.1.length⟩ := by
  cases h with
  | found hhuge hpres heq =>
      rw [X86.vmmMap]
      dsimp only
      rw [if_neg (not_not.mpr hhuge), if_neg hpres, heq]
      rfl
  | created hhuge hpres _ hne heq =>
      have hF := halloc _ (List.mem_singleton.mpr rfl)
      rw [X86.vmmMap]
      dsimp only
      rw [if_neg (not_not.mpr hhuge), if_pos hpres, hF, if_neg hne, Vmm.linkTable, heq]
      dsimp only
      rw [hF]
      rfl

/-! ## The invariant -/

/-- What holds in every state: the page tables are in order and in low memory, and the allocator keeps
their frames and the page directory's. -/
structure PagingInv (root : Nat) (s : Paging) : Prop where
  /-- The page tables are different frames. -/
  tables : TableFrames root s.tables
  /-- They lie in the identity mapping. -/
  low : ∀ t ∈ s.tables, t < identityEnd
  /-- Their frames and the page directory's are set in the bitmap and held by nobody else. -/
  kept : ∀ t ∈ root :: s.tables, t / pageSize < maxPages ∧
    s.frames.pmm.testPage (t / pageSize) = true ∧ t / pageSize ∉ s.frames.held
  /-- The frames that other code holds are set. -/
  held_set : ∀ p ∈ s.frames.held, p < maxPages ∧ s.frames.pmm.testPage p = true
  /-- The tables are in order. -/
  inv : ∃ M, VmmInv (framesOf root s.tables tables) ⟨s.mem, s.tables.length⟩ M

/-- An address in the identity mapping is mapped to itself in every such state. -/
theorem VmmInv.selfMapped {F : Frames .x86} {v : Vmm} {M : Nat → Option Nat} (h : VmmInv F v M)
    {t : Nat} (ht : t < identityEnd) : TableAccess.SelfMapped F.root ⟨v.mem, t⟩ :=
  ⟨(vmmPhysAt_fst F v t).trans (h.vmmPhys_ident ht), ht⟩

/-- An address with a directory entry that leads to a page table is not in the identity mapping. -/
theorem VmmInv.identityEnd_le {F : Frames .x86} {v : Vmm} {M : Nat → Option Nat} (h : VmmInv F v M)
    {virt : Nat} (hlt : virt < 2 ^ 32)
    (hhuge : entry .x86 v.mem F.root (virt >>> 22) &&& pteHuge = 0) : identityEnd ≤ virt := by
  by_contra hge
  have hidx := (dirIndex_lt_iff hlt).mpr (not_le.mp hge)
  rw [shiftRight_eq_dirIndex hlt, h.ident _ hidx, and_pteHuge_eq_zero_iff] at hhuge
  omega

/-- A directory entry that is present and no 4 MiB page leads to one of the page tables. -/
theorem PagingInv.table_mem (h : PagingInv root s) {virt : Nat} (hlt : virt < 2 ^ 32)
    (hhuge : entry .x86 s.mem root (virt >>> 22) &&& pteHuge = 0)
    (hpres : entry .x86 s.mem root (virt >>> 22) &&& ptePresent ≠ 0) :
    clearLow 32 pageShift (entry .x86 s.mem root (virt >>> 22)) ∈ s.tables := by
  obtain ⟨M, hM⟩ := h.inv
  have hge := hM.identityEnd_le hlt hhuge
  rw [shiftRight_eq_dirIndex hlt] at hpres ⊢
  have htab := hM.tableAt_eq hge hlt hpres
  rcases hM.tables.holds _ _ le_rfl htab with hroot | ⟨k, -, hk, hne⟩
  · -- the page directory is at the empty path only
    have := hM.tables.tree [] [dirIndex virt] root (by simp) le_rfl rfl (htab.trans (congrArg some hroot))
    cases this
  · exact (getD_mem_or s.tables k).elim (fun hmem => hk ▸ hmem) fun h0 => absurd (hk.symm.trans h0) hne

/-- Whatever page tables there are, accessing one of them is all right. -/
theorem PagingInv.selfMapped (h : PagingInv root s) {t : Nat} (ht : t ∈ s.tables) :
    TableAccess.SelfMapped root ⟨s.mem, t⟩ := by
  obtain ⟨M, hM⟩ := h.inv
  exact hM.selfMapped (h.low t ht)

/-- The accesses of `vmm_unmap` are all right. -/
theorem PagingInv.vmmUnmapAt_accesses (h : PagingInv root s) {virt : Nat} (hlt : virt < 2 ^ 32) :
    ∀ a ∈ (vmmUnmapAt root s.mem virt).2, a.SelfMapped root := by
  rw [vmmUnmapAt]
  dsimp only
  split_ifs with hmiss
  · simp
  · rw [not_or, not_not] at hmiss
    intro a ha
    rw [List.mem_singleton.mp ha]
    exact h.selfMapped (h.table_mem hlt hmiss.2 hmiss.1)

/-- The accesses of `vmm_phys` are all right. -/
theorem PagingInv.vmmPhysAt_accesses (h : PagingInv root s) {virt : Nat} (hlt : virt < 2 ^ 32) :
    ∀ a ∈ (vmmPhysAt root s.mem virt).2, a.SelfMapped root := by
  rw [vmmPhysAt]
  dsimp only
  by_cases hmiss : entry .x86 s.mem root (virt >>> 22) &&& ptePresent = 0
  · simp [hmiss]
  by_cases hhuge : entry .x86 s.mem root (virt >>> 22) &&& pteHuge = 0
  · rw [if_neg hmiss, if_neg (not_not.mpr hhuge)]
    intro a ha
    rw [List.mem_singleton.mp ha]
    exact h.selfMapped (h.table_mem hlt hhuge hmiss)
  · simp [hmiss, hhuge]

/-! ## Steps -/

/-- Calls of the page allocator leave the page tables alone. -/
theorem PagingInv.pmm (h : PagingInv root s) {op : PmmOp} {f : PmmRun}
    (hstep : PmmStep .x86 s.frames op f) : PagingInv root { s with frames := f } := by
  obtain ⟨hgiven, rfl⟩ := hstep
  refine ⟨h.tables, h.low, fun t ht => ?_, fun p hp => ?_, h.inv⟩
  · obtain ⟨hlt, hset, hheld⟩ := h.kept t ht
    refine ⟨hlt, (op.testPage_run .x86 _ hlt).mpr (Or.inl ⟨hset, fun hmem => hheld (hgiven hmem)⟩), ?_⟩
    intro hmem
    rcases Finset.mem_union.mp hmem with hmem | hmem
    · exact hheld (Finset.mem_sdiff.mp hmem).1
    · rw [(PmmOp.handedOut_clear hmem).2.2] at hset
      cases hset
  · rcases Finset.mem_union.mp hp with hp | hp
    · obtain ⟨hp, hgiven⟩ := Finset.mem_sdiff.mp hp
      obtain ⟨hlt, hset⟩ := h.held_set p hp
      exact ⟨hlt, (op.testPage_run .x86 _ hlt).mpr (Or.inl ⟨hset, hgiven⟩)⟩
    · obtain ⟨-, hlt, -⟩ := PmmOp.handedOut_clear hp
      exact ⟨hlt, (op.testPage_run .x86 _ hlt).mpr (Or.inr (Or.inl hp))⟩

/-- A write that keeps the tables in order keeps the invariant. -/
theorem PagingInv.write (h : PagingInv root s) {m : Mem} {M : Nat → Option Nat}
    (hM : VmmInv (framesOf root s.tables h.tables) ⟨m, s.tables.length⟩ M) :
    PagingInv root { s with mem := m } :=
  ⟨h.tables, h.low, h.kept, h.held_set, M, hM⟩

/-- `vmm_unmap` keeps the invariant. -/
theorem PagingInv.unmap (h : PagingInv root s) {virt : Nat} (hlt : virt < 2 ^ 32) :
    PagingInv root { s with mem := (vmmUnmapAt root s.mem virt).1 } := by
  obtain ⟨M, hM⟩ := h.inv
  have hnext := hM.vmmUnmap hlt
  rw [← vmmUnmapAt_fst] at hnext
  exact h.write hnext

/-- Writes elsewhere keep the invariant. -/
theorem PagingInv.other (h : PagingInv root s) {m : Mem}
    (hm : ∀ t ∈ root :: s.tables, ∀ x, t ≤ x → x < t + pageSize → m x = s.mem x) :
    PagingInv root { s with mem := m } := by
  obtain ⟨M, hM⟩ := h.inv
  refine h.write (hM.step (.other fun t ht => hm t ?_))
  rcases ht with rfl | ⟨k, -, hk, hne⟩
  · exact List.mem_cons_self
  · refine List.mem_cons_of_mem _ ((getD_mem_or s.tables k).elim (fun hmem => hk ▸ hmem) fun h0 => ?_)
    exact absurd (hk.symm.trans h0) hne

/-- `vmm_map` with a page table that is there. -/
theorem PagingInv.map_found (h : PagingInv root s) {virt phys flags : Nat} (hlt : virt < 2 ^ 32)
    {pm : Pmm} {m : Mem} {acc : List TableAccess}
    (hmap : Mapped root s.frames.pmm s.mem virt phys flags (pm, m, [], acc)) :
    PagingInv root { s with mem := m } := by
  obtain ⟨M, hM⟩ := h.inv
  have hrun := @Mapped.vmmMap _ _ _ _ _ _ (framesOf root s.tables h.tables) s.tables.length hmap
    (fun _ hpa => absurd hpa List.not_mem_nil)
  exact h.write (hM.vmmMap hlt hrun)

/-- The frame that `pmm_alloc` finds is not one in use, and it is a low one if low ones come first. -/
theorem PagingInv.alloc (h : PagingInv root s) (hlow : LowFirst s.frames.pmm)
    (hne : (pmmAlloc s.frames.pmm).1 ≠ 0) :
    TableFrames root (s.tables ++ [(pmmAlloc s.frames.pmm).1]) ∧
    (pmmAlloc s.frames.pmm).1 < identityEnd ∧
    (pmmAlloc s.frames.pmm).1 / pageSize < maxPages ∧
    (pmmAlloc s.frames.pmm).1 / pageSize ∉ s.frames.held ∧
    ∀ q, (pmmAlloc s.frames.pmm).2.testPage q
      = (decide ((pmmAlloc s.frames.pmm).1 / pageSize = q) || s.frames.pmm.testPage q) := by
  rcases pmmAlloc_spec s.frames.pmm with ⟨hfail, -⟩ | ⟨p, hp, hlt, hclear, hleast, hrun⟩
  · rw [hfail] at hne
    exact absurd rfl hne
  have haddr : p <<< pageShift = pageSize * p := by
    rw [Nat.shiftLeft_eq, Nat.mul_comm]
    rfl
  have hpage : pageSize * p / pageSize = p := Nat.mul_div_cancel_left p (by decide)
  -- no frame in use is the clear one
  have hnew : ∀ t ∈ root :: s.tables, pageSize * p ≠ t := by
    rintro t ht rfl
    have hset := (h.kept _ ht).2.1
    rw [hpage, hclear] at hset
    cases hset
  have hlowp : pageSize * p < identityEnd := by
    obtain ⟨q, hq, hqlow, hqclear⟩ := hlow ⟨p, hp, hlt, hclear⟩
    by_contra hge
    have hqp : q < p := by
      rw [pageSize] at *
      omega
    rw [hleast q hq hqp] at hqclear
    cases hqclear
  rw [hrun, haddr, hpage]
  refine ⟨?_, hlowp, hlt, fun hheld => ?_, fun q => Pmm.testPage_takePage _ p q⟩
  · refine h.tables.concat ⟨p, rfl⟩ (lt_trans hlowp (by decide)) ?_ (hnew root List.mem_cons_self)
      fun hmem => hnew _ (List.mem_cons_of_mem _ hmem) rfl
    rw [pageSize]
    omega
  · have hset := (h.held_set p hheld).2
    rw [hclear] at hset
    cases hset

/-- The frame of the newest page table. -/
theorem framesOf_alloc_concat {ts : List Nat} {t : Nat} (h : TableFrames root (ts ++ [t])) :
    (framesOf root (ts ++ [t]) h).alloc ts.length = t := by
  change (ts ++ [t]).getD ts.length 0 = t
  simp

/-- The tables drawn so far are the same with one more. -/
theorem VmmInv.concat {ts : List Nat} {t : Nat} (hts : TableFrames root ts)
    (hts' : TableFrames root (ts ++ [t])) {m : Mem} {M : Nat → Option Nat}
    (h : VmmInv (framesOf root ts hts) ⟨m, ts.length⟩ M) :
    VmmInv (framesOf root (ts ++ [t]) hts') ⟨m, ts.length⟩ M := by
  refine h.congr_frames rfl fun k hk => ?_
  exact List.getD_append _ _ _ _ hk

/-- `vmm_map` that creates a page table in low memory. -/
theorem PagingInv.map_created (h : PagingInv root s) {virt phys flags : Nat} (hlt : virt < 2 ^ 32)
    (hlow : LowFirst s.frames.pmm) {pm : Pmm} {m : Mem} {pa : Nat} {acc : List TableAccess}
    (hpa : pa = (pmmAlloc s.frames.pmm).1) (hpm : pm = (pmmAlloc s.frames.pmm).2) (hne : pa ≠ 0)
    (hmap : Mapped root s.frames.pmm s.mem virt phys flags (pm, m, [pa], acc)) :
    PagingInv root
      { frames := { s.frames with pmm := pm }, mem := m, tables := s.tables ++ [pa] } := by
  obtain ⟨M, hM⟩ := h.inv
  obtain ⟨htables, hpalow, hmax, hheld, htest⟩ := h.alloc hlow (hpa ▸ hne)
  rw [← hpa] at htables hpalow hmax hheld htest
  rw [← hpm] at htest
  have hF := framesOf_alloc_concat htables
  have hrun := @Mapped.vmmMap _ _ _ _ _ _ (framesOf root (s.tables ++ [pa]) htables)
    s.tables.length hmap fun _ hmem => hF.trans (List.mem_singleton.mp hmem).symm
  have hinv : VmmInv (framesOf root (s.tables ++ [pa]) htables) ⟨m, (s.tables ++ [pa]).length⟩
      (Function.update M (virt / pageSize) (some phys)) := by
    rw [List.length_append]
    exact (hM.concat _ htables).vmmMap hlt hrun
  refine ⟨htables, fun t ht => ?_, fun t ht => ?_, fun p hp => ?_, _, hinv⟩
  · rcases List.mem_append.mp ht with ht | ht
    · exact h.low t ht
    · rw [List.mem_singleton.mp ht]
      exact hpalow
  · rw [htest]
    rcases List.mem_append.mp (show t ∈ (root :: s.tables) ++ [pa] from ht) with ht | ht
    · obtain ⟨hmax, hset, hheld⟩ := h.kept t ht
      exact ⟨hmax, by rw [hset, Bool.or_true], hheld⟩
    · rw [List.mem_singleton.mp ht]
      exact ⟨hmax, by rw [decide_eq_true rfl, Bool.true_or], hheld⟩
  · obtain ⟨hmax, hset⟩ := h.held_set p hp
    exact ⟨hmax, by rw [htest, hset, Bool.or_true]⟩

/-- The accesses of `vmm_map` are all right when it creates page tables in low memory only. -/
theorem PagingInv.vmmMapAt_accesses (h : PagingInv root s) {virt phys flags : Nat}
    (hlt : virt < 2 ^ 32) (hlow : CreatesLow root s (.map virt phys flags))
    {r : Pmm × Mem × List Nat × List TableAccess}
    (hmap : Mapped root s.frames.pmm s.mem virt phys flags r) :
    ∀ a ∈ r.2.2.2, a.SelfMapped root := by
  obtain ⟨M, hM⟩ := h.inv
  cases hmap with
  | found hhuge hpres heq =>
      intro a ha
      rw [List.mem_singleton.mp ha, heq]
      exact h.selfMapped (h.table_mem hlt hhuge hpres)
  | @created pa linked hhuge hpres hpa hne heq =>
      obtain ⟨htables, hpalow, -⟩ := h.alloc (hlow hpres) (hpa ▸ hne)
      rw [← hpa] at htables hpalow
      have hold := hM.concat _ htables
      have hF := framesOf_alloc_concat htables
      -- the second access comes when the page table is linked
      have hlink := (hold.link (hM.identityEnd_le hlt hhuge) hlt
        (shiftRight_eq_dirIndex hlt ▸ hpres) (hF.symm ▸ hne)).1.selfMapped hpalow
      intro a ha
      rcases List.mem_pair.mp ha with rfl | rfl
      · exact hold.selfMapped hpalow
      · rw [Vmm.linkTable, hF, ← shiftRight_eq_dirIndex hlt] at hlink
        rw [heq]
        exact hlink

/-- Every step that creates page tables in low memory only keeps the invariant, and accesses page tables
that are mapped to themselves. -/
theorem PagingInv.step (h : PagingInv root s) {a : PagingOp × List TableAccess}
    (hstep : LowStep root s a s') : PagingInv root s' ∧ ∀ x ∈ a.2, x.SelfMapped root := by
  obtain ⟨hstep, hlow⟩ := hstep
  cases hstep with
  | pmm hpmm => exact ⟨h.pmm hpmm, by simp⟩
  | map hlt hrun =>
      have hmap := mapped_of_vmmMapAt hrun
      refine ⟨?_, h.vmmMapAt_accesses hlt hlow hmap⟩
      have hmap' := hmap
      cases hmap with
      | found _ _ _ =>
          rw [List.append_nil]
          exact h.map_found hlt hmap'
      | created _ hpres hpa hne _ => exact h.map_created hlt (hlow hpres) hpa rfl hne hmap'
  | unmap hlt => exact ⟨h.unmap hlt, h.vmmUnmapAt_accesses hlt⟩
  | phys hlt => exact ⟨h, h.vmmPhysAt_accesses hlt⟩
  | other hm => exact ⟨h.other hm, by simp⟩

/-- The invariant holds after `pmm_init` and `vmm_init`, for a page directory in the kernel's image. -/
theorem PagingInv.boot (img : KernelImage .x86) (map : List E820Entry) (m : Mem)
    (haligned : pageSize ∣ root) (hlow : 0x10000 ≤ root) (hhigh : root < img.bssEnd)
    (hmax : root / pageSize < maxPages) : PagingInv root (pagingBoot img map root m) := by
  have htables : TableFrames root [] :=
    ⟨haligned, fun t ht => absurd ht List.not_mem_nil, List.nodup_nil⟩
  refine ⟨htables, fun t ht => absurd ht List.not_mem_nil, fun t ht => ?_,
    fun p hp => absurd hp (Finset.notMem_empty p), fun _ => none, ?_⟩
  · rw [List.mem_singleton.mp ht]
    exact ⟨hmax, testPage_pmmInit_image img map .static hlow hhigh hmax, Finset.notMem_empty _⟩
  · exact VmmInv.init (framesOf root [] htables) m

/-- From boot on, as long as no page table is created while there is free memory but none below 128 MiB,
every page table is mapped to itself whenever it is read or written. -/
theorem selfMapped_of_run (img : KernelImage .x86) (map : List E820Entry) (m : Mem) {root : Nat}
    (haligned : pageSize ∣ root) (hlow : 0x10000 ≤ root) (hhigh : root < img.bssEnd)
    (hmax : root / pageSize < maxPages) {as : List (PagingOp × List TableAccess)} {s : Paging}
    (hrun : Run (LowStep root) (pagingBoot img map root m) as s) :
    ∀ a ∈ as, ∀ x ∈ a.2, x.SelfMapped root := by
  have hboot := PagingInv.boot img map m haligned hlow hhigh hmax
  generalize pagingBoot img map root m = s₀ at hrun hboot
  induction hrun with
  | nil => simp
  | cons hstep _ ih =>
      obtain ⟨hnext, hacc⟩ := hboot.step hstep
      intro a ha
      rcases List.mem_cons.mp ha with rfl | ha
      · exact hacc
      · exact ih hnext a ha

/-! ## The first page table after boot -/

/-- After boot the directory entries above the identity mapping are empty. -/
theorem entry_vmmInitAt (m : Mem) (haligned : pageSize ∣ root) {i : Nat} (hge : 32 ≤ i)
    (hlt : i < 1024) : entry .x86 (vmmInitAt root m) root i = 0 := by
  have htables : TableFrames root [] :=
    ⟨haligned, fun t ht => absurd ht List.not_mem_nil, List.nodup_nil⟩
  have h := entry_vmmInit (framesOf root [] htables) m hlt
  rwa [if_neg (not_lt.mpr hge)] at h

/-- `vmm_phys` below an empty directory entry returns 0. -/
theorem vmmPhysAt_of_empty {m : Mem} {virt : Nat} (h : entry .x86 m root (virt >>> 22) = 0) :
    vmmPhysAt root m virt = (0, []) := by
  rw [vmmPhysAt, h]
  exact if_pos (Nat.zero_and _)

/-- `vmm_map` below an empty directory entry creates a page table in the frame that `pmm_alloc` finds. -/
theorem pagingStep_map_created {virt : Nat} (phys flags : Nat) (hlt : virt < 2 ^ 32)
    (hempty : entry .x86 s.mem root (virt >>> 22) = 0) (hne : (pmmAlloc s.frames.pmm).1 ≠ 0) :
    ∃ linked s', PagingStep root s (.map virt phys flags,
      [⟨s.mem, (pmmAlloc s.frames.pmm).1⟩, ⟨linked, (pmmAlloc s.frames.pmm).1⟩]) s' := by
  have hrun : ∃ linked m', vmmMapAt root s.frames.pmm s.mem virt phys flags =
      .ok ((pmmAlloc s.frames.pmm).2, m', [(pmmAlloc s.frames.pmm).1],
        [⟨s.mem, (pmmAlloc s.frames.pmm).1⟩, ⟨linked, (pmmAlloc s.frames.pmm).1⟩]) := by
    rw [vmmMapAt, hempty]
    dsimp only
    rw [if_neg (by decide), if_pos (by decide), if_neg hne]
    exact ⟨_, _, rfl⟩
  obtain ⟨linked, m', hrun⟩ := hrun
  exact ⟨linked, _, .map hlt hrun⟩

/-- A page is mapped after boot on a machine with 256 MiB from 1 MiB on. -/
theorem selfMapped_lowMemory : ∃ as s,
    Run (LowStep 0x30000) (pagingBoot lowImage [lowMemory] 0x30000 fun _ => 0xAA) as s ∧
    as.map Prod.fst = [.map 0x40000123 0x12345678 2] ∧
    ∀ a ∈ as, ∀ x ∈ a.2, x.SelfMapped 0x30000 := by
  have hfree : (pmmInit .x86 lowImage [lowMemory] .static).testPage 1024 = false := by
    rw [pmmInit_free_iff _ _ _ (by decide)]
    refine ⟨⟨lowMemory, by simp, rfl, by decide, by decide⟩, ?_⟩
    unfold Reserved
    decide
  have hne : (pmmAlloc (pmmInit .x86 lowImage [lowMemory] .static)).1 ≠ 0 := by
    rw [Ne, pmmAlloc_eq_zero_iff]
    intro hall
    rw [hall 1024 (by decide) (by decide)] at hfree
    cases hfree
  have hempty := @entry_vmmInitAt 0x30000 (fun _ => 0xAA) (by decide) (0x40000123 >>> 22) (by decide)
    (by decide)
  obtain ⟨linked, s, hstep⟩ := @pagingStep_map_created 0x30000
    (pagingBoot lowImage [lowMemory] 0x30000 fun _ => 0xAA) 0x40000123 0x12345678 2 (by decide)
    hempty hne
  have hrun := Run.single (show LowStep 0x30000 _ _ s from
    ⟨hstep, fun _ _ => ⟨1024, by decide, by decide, hfree⟩⟩)
  exact ⟨_, s, hrun, rfl, selfMapped_of_run lowImage [lowMemory] (fun _ => 0xAA) (by decide)
    (by decide) (by decide) (by decide) hrun⟩

/-- Conventional memory, and 256 MiB that begin at 256 MiB. -/
def splitMemory : List E820Entry :=
  [{ base := 0, length := 0x9FC00, type := 1, acpi := 0 },
    { base := 0x10000000, length := 0x10000000, type := 1, acpi := 0 }]

/-- On such a machine the first free frame is at 256 MiB. -/
theorem pmmAlloc_splitMemory :
    (pmmAlloc (pmmInit .x86 lowImage splitMemory .static)).1 = 0x10000000 := by
  have hclear : (pmmInit .x86 lowImage splitMemory .static).testPage 0x10000 = false := by
    rw [pmmInit_free_iff _ _ _ (by decide)]
    refine ⟨⟨_, List.mem_cons_of_mem _ List.mem_cons_self, rfl, by decide, by decide⟩, ?_⟩
    unfold Reserved
    decide
  have hleast : ∀ q, 1 ≤ q → q < 0x10000 →
      (pmmInit .x86 lowImage splitMemory .static).testPage q = true := by
    intro q _ hq
    rw [← Bool.not_eq_false, pmmInit_free_iff _ _ _ (lt_trans hq (by decide))]
    rintro ⟨⟨e, he, -, hnames⟩, hres⟩
    rcases List.mem_pair.mp he with rfl | rfl
    · -- conventional memory is reserved
      have hend : pageSize * q < 0x9F000 := hnames.2
      refine hres (Or.inl ⟨by rw [pageSize]; omega, ?_⟩)
      rw [pageSize] at *
      omega
    · have hstart : 0x10000000 ≤ pageSize * q := hnames.1
      rw [pageSize] at hstart
      omega
  rw [pmmAlloc_lowest (by decide) (by decide) hclear hleast]
  rfl

/-- The first page table on such a machine is cleared through an address that is not mapped. -/
theorem splitMemory_not_selfMapped : ∃ as s,
    Run (PagingStep 0x30000) (pagingBoot lowImage splitMemory 0x30000 fun _ => 0xAA) as s ∧
    as.map Prod.fst = [.map 0x40000000 0x12345000 3] ∧
    ∃ a ∈ as, ∃ x ∈ a.2, x.table = 0x10000000 ∧ (vmmPhysAt 0x30000 x.mem x.table).1 = 0 := by
  have hempty := fun i => @entry_vmmInitAt 0x30000 (fun _ => 0xAA) (by decide) i
  have htable : (pmmAlloc (pagingBoot lowImage splitMemory 0x30000 fun _ => 0xAA).frames.pmm).1
      = 0x10000000 := by
    rw [pagingBoot, pmmBoot]
    exact pmmAlloc_splitMemory
  obtain ⟨linked, s, hstep⟩ := @pagingStep_map_created 0x30000
    (pagingBoot lowImage splitMemory 0x30000 fun _ => 0xAA) 0x40000000 0x12345000 3 (by decide)
    (hempty 256 (by decide) (by decide)) (by rw [htable]; decide)
  rw [htable] at hstep
  refine ⟨_, s, .single hstep, rfl, _, List.mem_cons_self, _, List.mem_cons_self, rfl, ?_⟩
  have hpde : entry .x86 (pagingBoot lowImage splitMemory 0x30000 fun _ => 0xAA).mem 0x30000
      (0x10000000 >>> 22) = 0 := hempty 64 (by decide) (by decide)
  rw [vmmPhysAt_of_empty hpde]

end X86

end Aerogel
