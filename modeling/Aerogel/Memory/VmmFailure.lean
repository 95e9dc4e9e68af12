import Aerogel.Memory.VmmFlags

/-! # Running out of frames on x86_64

`get_or_create` returns NULL when `pmm_alloc` has no frame for a new table, but none of its callers looks:
`vmm_map` goes on with the table at address 0, and `vmm_init` does not even test what `pmm_alloc` returns.
Here the same functions also note which tables they read or write. A call stays away from address 0
exactly when there is a frame for every table it has to create (`frameShortage_iff`), so that no failure
is a clean one. -/

namespace Aerogel

namespace X64

/-! ## The tables a call reads and writes -/

/-- The tables that `get_or_create` reads, clears or writes. -/
def getOrCreateTables (F : Frames .x86_64) (s : Vmm) (table idx : Nat) : List Nat :=
  if entry .x86_64 s.mem table idx &&& ptePresent = 0 then
    if F.alloc s.drawn = 0 then [table] else [table, F.alloc s.drawn]
  else [table]

/-- `vmm_map`, with the tables it reads or writes. -/
def vmmMapTraced (F : Frames .x86_64) (s : Vmm) (virt phys flags : Nat) : Vmm × List Nat :=
  let pml4i := (virt >>> 39) &&& 0x1FF
  let pdpti := (virt >>> 30) &&& 0x1FF
  let pdi := (virt >>> 21) &&& 0x1FF
  let (pdpt, s₁) := getOrCreate F s F.root pml4i
  let (pd, s₂) := getOrCreate F s₁ pdpt pdpti
  let upper := getOrCreateTables F s F.root pml4i ++ (getOrCreateTables F s₁ pdpt pdpti ++ [pd])
  if entry .x86_64 s₂.mem pd pdi &&& pteHuge ≠ 0 then (s₂, upper)
  else
    let (pt, s₃) := getOrCreate F s₂ pd pdi
    let pte := clearLow 64 pageShift phys ||| flags ||| ptePresent
    ({ s₃ with mem := setEntry .x86_64 s₃.mem pt ((virt >>> 12) &&& 0x1FF) pte },
      upper ++ (getOrCreateTables F s₂ pd pdi ++ [pt]))

/-- The middle loop of `vmm_init`, with the tables it reads or writes. -/
def fillPdptTraced (F : Frames .x86_64) (pdpt i : Nat) (st : Vmm × List Nat) : Vmm × List Nat :=
  forRange 0 512 (fun j st =>
    let pd := F.alloc st.1.drawn
    let s := st.1.linkTable F pdpt j
    ({ s with mem := fillPd pd i j s.mem }, st.2 ++ [pd, pdpt])) st

/-- `vmm_init`, with the tables it reads or writes. -/
def vmmInitTraced (F : Frames .x86_64) (m : Mem) : Vmm × List Nat :=
  forRange 0 4 (fun i st =>
    let pdpt := F.alloc st.1.drawn
    fillPdptTraced F pdpt i (st.1.linkTable F F.root i, st.2 ++ [pdpt, F.root]))
    ({ mem := memset m F.root 0 pageSize, drawn := 0 }, [F.root])

/-- Noting the tables does not change `vmm_map`. -/
theorem vmmMapTraced_fst (F : Frames .x86_64) (s : Vmm) (virt phys flags : Nat) :
    (vmmMapTraced F s virt phys flags).1 = vmmMap F s virt phys flags :=
  apply_ite Prod.fst _ _ _

/-- Noting the tables does not change the middle loop of `vmm_init`. -/
theorem fillPdptTraced_fst (F : Frames .x86_64) (pdpt i : Nat) (st : Vmm × List Nat) :
    (fillPdptTraced F pdpt i st).1 = fillPdpt F pdpt i st.1 :=
  forRange_hom Prod.fst (fun _ _ => rfl) 0 512 st

/-- Noting the tables does not change `vmm_init`. -/
theorem vmmInitTraced_fst (F : Frames .x86_64) (m : Mem) :
    (vmmInitTraced F m).1 = vmmInit F m := by
  rw [vmmInitTraced, vmmInit]
  generalize memset m F.root 0 pageSize = m₀
  refine forRange_hom Prod.fst ?_ 0 4 _
  exact fun i st => fillPdptTraced_fst F _ i _

/-! ## Frames a call needs -/

/-- How many tables are missing below a page directory: the page table, unless the entry leads to one or
maps 2 MiB itself. -/
def missingBelowPd (s : Vmm) (pd virt : Nat) : Nat :=
  let pde := entry .x86_64 s.mem pd (index 21 virt)
  if pde &&& ptePresent = 0 ∧ pde &&& pteHuge = 0 then 1 else 0

/-- How many tables are missing below a table of the second level. -/
def missingBelowPdpt (s : Vmm) (pdpt virt : Nat) : Nat :=
  let pdpte := entry .x86_64 s.mem pdpt (index 30 virt)
  if pdpte &&& ptePresent = 0 then 2 else missingBelowPd s (clearLow 64 pageShift pdpte) virt

/-- How many tables are missing for an address. -/
def missing (F : Frames .x86_64) (s : Vmm) (virt : Nat) : Nat :=
  if pml4eOf F s virt &&& ptePresent = 0 then 3
  else missingBelowPdpt s (clearLow 64 pageShift (pml4eOf F s virt)) virt

/-- The next `n` calls of `pmm_alloc` find a frame. -/
def NextFrames (F : Frames .x86_64) (s : Vmm) (n : Nat) : Prop :=
  ∀ k < n, F.alloc (s.drawn + k) ≠ 0

variable {F : Frames .x86_64} {s : Vmm} {M : Nat → Option Nat}

/-- One frame and then the others. -/
theorem nextFrames_succ {s' : Vmm} {n : Nat} (h : s'.drawn = s.drawn + 1) :
    NextFrames F s (n + 1) ↔ F.alloc s.drawn ≠ 0 ∧ NextFrames F s' n := by
  rw [NextFrames, NextFrames, Nat.forall_lt_succ_left, h]
  simp only [Nat.add_zero, Nat.add_assoc, Nat.add_comm 1]

/-- No frame is needed where no table is missing. -/
theorem nextFrames_zero (F : Frames .x86_64) (s : Vmm) : NextFrames F s 0 :=
  fun _ hk => absurd hk (Nat.not_lt_zero _)

/-! ## One level -/

/-- No table in use is at address 0. -/
theorem VmmInv.tableAt_ne_zero (h : VmmInv F s M) (hroot : F.root ≠ 0)
    {q : List (Fin (Target.entries .x86_64))} {t : Nat} (hlen : q.length ≤ 3)
    (hq : s.tableAt F q = some t) : t ≠ 0 := by
  rcases h.tables.holds q t hlen hq with rfl | ⟨-, -, -, hne⟩
  · exact hroot
  · exact hne

/-- What `get_or_create` does below a table in use, and the tables it works on. -/
inductive Created (F : Frames .x86_64) (s : Vmm) (M : Nat → Option Nat)
    (q : List (Fin (Target.entries .x86_64))) (t : Nat) (i : Fin (Target.entries .x86_64)) :
    Nat × Vmm → Prop
  /-- The table is there. -/
  | found {u : Nat} : entry .x86_64 s.mem t i &&& ptePresent ≠ 0 →
      u = clearLow 64 pageShift (entry .x86_64 s.mem t i) → s.tableAt F (q ++ [i]) = some u →
      Created F s M q t i (u, s)
  /-- There is no frame for it. -/
  | failed {s' : Vmm} : entry .x86_64 s.mem t i &&& ptePresent = 0 → F.alloc s.drawn = 0 →
      Created F s M q t i (0, s')
  /-- It is created, empty. -/
  | created {u : Nat} {s' : Vmm} : entry .x86_64 s.mem t i &&& ptePresent = 0 →
      F.alloc s.drawn ≠ 0 → VmmInv F s' M → s'.tableAt F (q ++ [i]) = some u →
      s'.drawn = s.drawn + 1 → (∀ j : Fin (Target.entries .x86_64), entry .x86_64 s'.mem u j = 0) →
      Created F s M q t i (u, s')

/-- `get_or_create` below a table in use. -/
theorem VmmInv.getOrCreate_created (h : VmmInv F s M) {q : List (Fin (Target.entries .x86_64))}
    {t : Nat} {i : Fin (Target.entries .x86_64)} (hq : s.tableAt F q = some t) (hlen : q.length < 3)
    (hsmall : entry .x86_64 s.mem t i &&& pteHuge = 0) :
    Created F s M q t i (X64.getOrCreate F s t i) := by
  by_cases hpres : entry .x86_64 s.mem t i &&& ptePresent = 0
  · rw [X64.getOrCreate, if_pos hpres]
    by_cases halloc : F.alloc s.drawn = 0
    · rw [if_pos halloc]
      exact .failed hpres halloc
    · rw [if_neg halloc]
      obtain ⟨hinv, htab⟩ := h.link hq hlen hpres halloc
      have htable : clearLow 64 pageShift (entry .x86_64 (s.linkTable F t i).mem t i)
          = F.alloc s.drawn := by
        rw [entry_linkTable]
        exact @clearLow_add .x86_64 _ 3 (F.alloc_aligned _) (F.alloc_lt _) (by decide)
      simp only [htable]
      exact .created hpres halloc hinv htab rfl fun j =>
        h.tables.entry_link_fresh hq hlen.le halloc i j
  · rw [getOrCreate_of_present hpres]
    exact .found hpres rfl
      ((Vmm.tableAt_concat hq i).trans (tableOf_eq_some_iff.mpr ⟨hpres, hsmall, rfl⟩))

/-- `get_or_create` itself does not touch address 0. -/
theorem zero_notMem_getOrCreateTables {t : Nat} (ht : t ≠ 0) (i : Nat) :
    0 ∉ getOrCreateTables F s t i := by
  rw [getOrCreateTables]
  split_ifs with hpres halloc
  · simpa using ht.symm
  · simpa using ⟨ht.symm, Ne.symm halloc⟩
  · simpa using ht.symm

/-- `get_or_create` reads the table it is given. -/
theorem mem_getOrCreateTables (F : Frames .x86_64) (s : Vmm) (t i : Nat) :
    t ∈ getOrCreateTables F s t i := by
  rw [getOrCreateTables]
  split_ifs <;> simp

/-! ## The levels of `vmm_map` -/

/-- `vmm_map` from the page directory on. -/
def mapBelowPd (F : Frames .x86_64) (s : Vmm) (pd virt pte : Nat) : Vmm × List Nat :=
  if entry .x86_64 s.mem pd (index 21 virt) &&& pteHuge ≠ 0 then (s, [pd])
  else
    let r := getOrCreate F s pd (index 21 virt)
    ({ r.2 with mem := setEntry .x86_64 r.2.mem r.1 (index 12 virt) pte },
      pd :: getOrCreateTables F s pd (index 21 virt) ++ [r.1])

/-- `vmm_map` from the table of the second level on. -/
def mapBelowPdpt (F : Frames .x86_64) (s : Vmm) (pdpt virt pte : Nat) : Vmm × List Nat :=
  let r := getOrCreate F s pdpt (index 30 virt)
  let rest := mapBelowPd F r.2 r.1 virt pte
  (rest.1, getOrCreateTables F s pdpt (index 30 virt) ++ rest.2)

/-- `vmm_map` level by level. -/
theorem vmmMapTraced_eq (F : Frames .x86_64) (s : Vmm) (virt phys flags : Nat) :
    vmmMapTraced F s virt phys flags =
      let r := getOrCreate F s F.root (index 39 virt)
      let rest := mapBelowPdpt F r.2 r.1 virt (clearLow 64 pageShift phys ||| flags ||| ptePresent)
      (rest.1, getOrCreateTables F s F.root (index 39 virt) ++ rest.2) := by
  rw [vmmMapTraced]
  simp only [shiftRight_and_eq_index, mapBelowPdpt, mapBelowPd]
  split_ifs with hhuge
  · simp
  · simp

/-- A level works if it stays away from address 0 exactly when there are frames for the tables missing
below it, and then draws no more than these. -/
def LevelOk (F : Frames .x86_64) (s : Vmm) (n : Nat) (r : Vmm × List Nat) : Prop :=
  (0 ∉ r.2 ↔ NextFrames F s n) ∧ (NextFrames F s n → r.1.drawn ≤ s.drawn + n)

/-- From the page directory on. -/
theorem VmmInv.mapBelowPd (h : VmmInv F s M) (hroot : F.root ≠ 0) {virt pd : Nat} (pte : Nat)
    (hpd : s.tableAt F (pdPath virt) = some pd) :
    LevelOk F s (missingBelowPd s pd virt) (mapBelowPd F s pd virt pte) := by
  have hne := h.tableAt_ne_zero hroot (by simp) hpd
  rw [X64.mapBelowPd, missingBelowPd]
  by_cases hhuge : entry .x86_64 s.mem pd (index 21 virt) &&& pteHuge = 0
  · simp only [hhuge, ne_eq, not_true_eq_false, if_false, and_true]
    have hcreated := h.getOrCreate_created hpd (by simp) hhuge
    generalize X64.getOrCreate F s pd (index 21 virt) = r at hcreated ⊢
    have htables := zero_notMem_getOrCreateTables (F := F) (s := s) hne (index 21 virt)
    cases hcreated with
    | found hpres _ hpt =>
        have hpt0 := h.tableAt_ne_zero hroot (by simp) hpt
        rw [if_neg hpres]
        refine ⟨iff_of_true ?_ (nextFrames_zero F s), fun _ => le_rfl⟩
        simpa [hne.symm, hpt0.symm] using htables
    | failed hpres halloc =>
        rw [if_pos hpres]
        have hnot : ¬ NextFrames F s 1 := fun hnext => hnext 0 one_pos halloc
        exact ⟨iff_of_false (fun hmem => hmem (by simp)) hnot, fun hnext => absurd hnext hnot⟩
    | created hpres halloc hinv hpt hdrawn _ =>
        have hpt0 := hinv.tableAt_ne_zero hroot (by simp) hpt
        rw [if_pos hpres]
        have hnext : NextFrames F s 1 :=
          (nextFrames_succ hdrawn).mpr ⟨halloc, nextFrames_zero F _⟩
        refine ⟨iff_of_true ?_ hnext, fun _ => hdrawn.le⟩
        simpa [hne.symm, hpt0.symm] using htables
  · simp only [hhuge, ne_eq, not_false_eq_true, if_true, and_false, if_false]
    exact ⟨iff_of_true (by simpa using hne.symm) (nextFrames_zero F s), fun _ => le_rfl⟩

/-- An empty page directory misses the page table. -/
theorem missingBelowPd_of_empty {pd virt : Nat} (h : entry .x86_64 s.mem pd (index 21 virt) = 0) :
    missingBelowPd s pd virt = 1 := by
  rw [missingBelowPd, h]
  rfl

/-- An empty table of the second level misses the page directory and the page table. -/
theorem missingBelowPdpt_of_empty {pdpt virt : Nat}
    (h : entry .x86_64 s.mem pdpt (index 30 virt) = 0) : missingBelowPdpt s pdpt virt = 2 := by
  rw [missingBelowPdpt, h]
  rfl

/-- A level that goes on with a table it has found. -/
theorem LevelOk.found {n : Nat} {r : Vmm × List Nat} (h : LevelOk F s n r) {ts : List Nat}
    (hts : 0 ∉ ts) : LevelOk F s n (r.1, ts ++ r.2) := by
  refine ⟨?_, h.2⟩
  rw [← h.1, List.mem_append, not_or, and_iff_right hts]

/-- A level that has no frame goes on with address 0. -/
theorem LevelOk.failed {n : Nat} {r : Vmm × List Nat} (halloc : F.alloc s.drawn = 0)
    (hr : 0 ∈ r.2) (ts : List Nat) : LevelOk F s (n + 1) (r.1, ts ++ r.2) := by
  have hnot : ¬ NextFrames F s (n + 1) := fun hnext => hnext 0 n.succ_pos halloc
  exact ⟨iff_of_false (fun hmem => hmem (List.mem_append_right _ hr)) hnot,
    fun hnext => absurd hnext hnot⟩

/-- A level that goes on with a table it has created. -/
theorem LevelOk.created {s' : Vmm} {n : Nat} {r : Vmm × List Nat} (h : LevelOk F s' n r)
    (halloc : F.alloc s.drawn ≠ 0) (hdrawn : s'.drawn = s.drawn + 1) {ts : List Nat}
    (hts : 0 ∉ ts) : LevelOk F s (n + 1) (r.1, ts ++ r.2) := by
  rw [LevelOk, nextFrames_succ hdrawn]
  refine ⟨?_, fun hnext => ?_⟩
  · rw [← h.1, List.mem_append, not_or, and_iff_right hts, and_iff_right halloc]
  · have := h.2 hnext.2
    change r.1.drawn ≤ _
    omega

/-- From the table of the second level on. -/
theorem VmmInv.mapBelowPdpt (h : VmmInv F s M) (hroot : F.root ≠ 0) {virt pdpt : Nat} (pte : Nat)
    (hpdpt : s.tableAt F [index 39 virt] = some pdpt) :
    LevelOk F s (missingBelowPdpt s pdpt virt) (mapBelowPdpt F s pdpt virt pte) := by
  have htables := zero_notMem_getOrCreateTables (F := F) (s := s)
    (h.tableAt_ne_zero hroot (by simp) hpdpt) (index 30 virt)
  have hsmall := h.upper [index 39 virt] (index 30 virt) _ (by simp)
    (Vmm.entryAt_of_tableAt hpdpt _)
  have hcreated := h.getOrCreate_created hpdpt (by simp) hsmall
  rw [X64.mapBelowPdpt, missingBelowPdpt]
  generalize X64.getOrCreate F s pdpt (index 30 virt) = r at hcreated ⊢
  cases hcreated with
  | found hpres heq hpd =>
      simp only [if_neg hpres, ← heq]
      exact (h.mapBelowPd hroot pte hpd).found htables
  | failed hpres halloc =>
      simp only [if_pos hpres]
      refine LevelOk.failed halloc ?_ _
      rw [X64.mapBelowPd]
      split_ifs <;> simp
  | created hpres halloc hinv hpd hdrawn hempty =>
      have hrest := hinv.mapBelowPd hroot pte hpd
      rw [missingBelowPd_of_empty (hempty _)] at hrest
      simp only [if_pos hpres]
      exact hrest.created halloc hdrawn htables

/-- `vmm_map` as a whole. -/
theorem VmmInv.vmmMapTraced (h : VmmInv F s M) (hroot : F.root ≠ 0) (virt phys flags : Nat) :
    LevelOk F s (missing F s virt) (vmmMapTraced F s virt phys flags) := by
  have htop : s.tableAt F [] = some F.root := rfl
  have htables := zero_notMem_getOrCreateTables (F := F) (s := s) hroot (index 39 virt)
  have hsmall := h.upper [] (index 39 virt) _ (by simp) (Vmm.entryAt_of_tableAt htop _)
  have hcreated := h.getOrCreate_created htop (by simp) hsmall
  rw [vmmMapTraced_eq, missing, pml4eOf]
  generalize clearLow 64 pageShift phys ||| flags ||| ptePresent = pte
  generalize X64.getOrCreate F s F.root (index 39 virt) = r at hcreated ⊢
  cases hcreated with
  | found hpres heq hpdpt =>
      simp only [if_neg hpres, ← heq]
      exact (h.mapBelowPdpt hroot pte hpdpt).found htables
  | failed hpres halloc =>
      simp only [if_pos hpres]
      refine LevelOk.failed halloc ?_ _
      exact List.mem_append_left _ (mem_getOrCreateTables F _ 0 _)
  | created hpres halloc hinv hpdpt hdrawn hempty =>
      have hrest := hinv.mapBelowPdpt hroot pte hpdpt
      rw [missingBelowPdpt_of_empty (hempty _)] at hrest
      simp only [if_pos hpres]
      exact hrest.created halloc hdrawn htables

/-! ## The tables of `vmm_init` -/

/-- The tables noted are the top table and what `pmm_alloc` has returned. -/
def Noted (F : Frames .x86_64) (st : Vmm × List Nat) : Prop :=
  ∀ t, t ∈ st.2 ↔ t = F.root ∨ ∃ k < st.1.drawn, F.alloc k = t

/-- One more table, below one that was noted. -/
theorem Noted.add {s' : Vmm} {ts : List Nat} {u : Nat} (h : Noted F (s, ts)) (hu : u ∈ ts)
    (hdrawn : s'.drawn = s.drawn + 1) : Noted F (s', ts ++ [F.alloc s.drawn, u]) := by
  intro t
  have hold := h t
  constructor
  · intro ht
    rcases List.mem_append.mp ht with ht | ht
    · refine (hold.mp ht).imp_right fun ⟨k, hk, heq⟩ => ⟨k, ?_, heq⟩
      exact lt_of_lt_of_le hk (hdrawn ▸ Nat.le_succ _)
    · rcases List.mem_pair.mp ht with rfl | rfl
      · exact Or.inr ⟨s.drawn, hdrawn ▸ Nat.lt_succ_self _, rfl⟩
      · refine ((h t).mp hu).imp_right fun ⟨k, hk, heq⟩ => ⟨k, ?_, heq⟩
        exact lt_of_lt_of_le hk (hdrawn ▸ Nat.le_succ _)
  · rintro (rfl | ⟨k, hk, rfl⟩)
    · exact List.mem_append_left _ ((h _).mpr (Or.inl rfl))
    · change k < s'.drawn at hk
      rw [hdrawn] at hk
      rcases Nat.lt_succ_iff_lt_or_eq.mp hk with hk | rfl
      · exact List.mem_append_left _ ((h _).mpr (Or.inr ⟨k, hk, rfl⟩))
      · exact List.mem_append_right _ (by simp)

/-- The middle loop of `vmm_init`. -/
theorem Noted.fillPdptTraced {st : Vmm × List Nat} (h : Noted F st) {pdpt : Nat}
    (hpdpt : pdpt ∈ st.2) (i : Nat) : Noted F (fillPdptTraced F pdpt i st) := by
  have hloop := @forRange_induction _
    (fun j (st : Vmm × List Nat) =>
      let pd := F.alloc st.1.drawn
      let s := st.1.linkTable F pdpt j
      ({ s with mem := fillPd pd i j s.mem }, st.2 ++ [pd, pdpt]))
    (fun _ st => Noted F st ∧ pdpt ∈ st.2) 0 512 st ⟨h, hpdpt⟩ ?_
  · exact hloop.1
  · rintro j ⟨s, ts⟩ - - ⟨hs, hmem⟩
    exact ⟨hs.add hmem rfl, List.mem_append_left _ hmem⟩

/-- `vmm_init` works on the top table and on whatever its calls of `pmm_alloc` return. -/
theorem noted_vmmInitTraced (F : Frames .x86_64) (m : Mem) : Noted F (vmmInitTraced F m) := by
  rw [vmmInitTraced]
  generalize memset m F.root 0 pageSize = m₀
  refine @forRange_induction _ _ (fun _ st => Noted F st) 0 4 _ ?_ ?_
  · intro t
    simp
  · rintro i ⟨s, ts⟩ - - hs
    have hroot : F.root ∈ ts := (hs _).mpr (Or.inl rfl)
    have hlink : Noted F (s.linkTable F F.root i, ts ++ [F.alloc s.drawn, F.root]) := hs.add hroot rfl
    exact hlink.fillPdptTraced (List.mem_append_right _ (by simp)) i

/-! ## Failures -/

/-- A call of `pmm_alloc` on the way from `s` to `s'` has returned 0. -/
def AllocFails (F : Frames .x86_64) (s s' : Vmm) : Prop :=
  ∃ k, s.drawn ≤ k ∧ k < s'.drawn ∧ F.alloc k = 0

/-- `vmm_init` works on no table at address 0. -/
def CleanInit (F : Frames .x86_64) (m : Mem) : Prop := 0 ∉ (vmmInitTraced F m).2

/-- `vmm_map` works on no table at address 0, and changes no translation if there was no frame for a
table. -/
structure CleanMap (F : Frames .x86_64) (s : Vmm) (virt phys flags : Nat) : Prop where
  /-- Address 0 is left alone. -/
  away : 0 ∉ (vmmMapTraced F s virt phys flags).2
  /-- Translations are left alone on failure. -/
  same : AllocFails F s (vmmMap F s virt phys flags) →
    ∀ a, vmmPhys F (vmmMap F s virt phys flags) a = vmmPhys F s a

/-- `vmm_init` is clean when all its 2052 calls of `pmm_alloc` find a frame, and only then. -/
theorem cleanInit_iff (hroot : F.root ≠ 0) (m : Mem) :
    CleanInit F m ↔ ∀ k < 2052, F.alloc k ≠ 0 := by
  rw [CleanInit, noted_vmmInitTraced F m 0, vmmInitTraced_fst, drawn_vmmInit, or_iff_right hroot.symm]
  simp only [not_exists, not_and, Ne]

/-- A call of `vmm_map` is clean when there is a frame for every table it misses, and only then. -/
theorem VmmInv.cleanMap_iff (h : VmmInv F s M) (hroot : F.root ≠ 0) (virt phys flags : Nat) :
    CleanMap F s virt phys flags ↔ NextFrames F s (missing F s virt) := by
  obtain ⟨htables, hdrawn⟩ := h.vmmMapTraced hroot virt phys flags
  refine ⟨fun hclean => htables.mp hclean.away, fun hnext => ⟨htables.mpr hnext, ?_⟩⟩
  rintro ⟨k, hle, hlt, hzero⟩
  -- with frames for all its tables the call draws no frame in vain
  have hle' := hdrawn hnext
  rw [vmmMapTraced_fst] at hle'
  obtain ⟨n, rfl⟩ := Nat.exists_eq_add_of_le hle
  exact absurd hzero (hnext n (by omega))

/-- `vmm_init`, and `vmm_map` in every reachable state, stay clean exactly when `pmm_alloc` finds a frame
for each of the tables they have to create. -/
theorem frameShortage_iff (F : Frames .x86_64) (hroot : F.root ≠ 0) (m : Mem) :
    (CleanInit F m ↔ ∀ k < 2052, F.alloc k ≠ 0) ∧
    ∀ s, PagingReachable F m s → ∀ virt phys flags,
      (CleanMap F s virt phys flags ↔ NextFrames F s (missing F s virt)) := by
  refine ⟨cleanInit_iff hroot m, fun s hs virt phys flags => ?_⟩
  obtain ⟨M, h⟩ := hs.inv
  exact h.cleanMap_iff hroot virt phys flags

/-- The three thousand frames above. -/
theorem frameShortage_someFrames :
    (CleanInit someFrames (fun _ => 0xAA) ↔ ∀ k < 2052, someFrames.alloc k ≠ 0) ∧
    ∀ s, PagingReachable someFrames (fun _ => 0xAA) s → ∀ virt phys flags,
      (CleanMap someFrames s virt phys flags ↔
        NextFrames someFrames s (missing someFrames s virt)) :=
  frameShortage_iff someFrames (by decide) fun _ => 0xAA

/-- As many frames as `vmm_init` needs and no more. -/
def fewAlloc (n : Nat) : Nat := if n < 2052 then someAlloc n else 0

/-- They are pages below the top table or above it. -/
theorem fewAlloc_bounds (n : Nat) :
    fewAlloc n < 2 ^ 64 ∧ pageSize ∣ fewAlloc n ∧ fewAlloc n ≠ 0x200000 := by
  rw [fewAlloc]
  split_ifs
  · exact someAlloc_bounds n
  · exact ⟨by decide, ⟨0, rfl⟩, by decide⟩

/-- They are different. -/
theorem fewAlloc_inj (n k : Nat) (hne : fewAlloc n ≠ 0) (heq : fewAlloc n = fewAlloc k) : n = k := by
  rw [fewAlloc] at hne heq
  rw [fewAlloc] at heq
  split_ifs at hne heq
  · exact someAlloc_inj n k hne heq
  · exact absurd heq hne
  · exact absurd rfl hne
  · exact absurd rfl hne

/-- The frames of a machine that has just enough of them for `vmm_init`. -/
def fewFrames : Frames .x86_64 where
  root := 0x200000
  alloc := fewAlloc
  root_aligned := someFrames.root_aligned
  alloc_aligned n := (fewAlloc_bounds n).2.1
  alloc_lt n := (fewAlloc_bounds n).1
  alloc_ne_root n _ := (fewAlloc_bounds n).2.2
  alloc_inj := fewAlloc_inj

/-- Right after `vmm_init` every address above the identity mapping misses a table. -/
theorem missing_vmmInit (F : Frames .x86_64) (m : Mem) (hsupply : Supplied F (vmmInit F m)) {a : Nat}
    (hge : identityEnd ≤ a) (hlt : a < 2 ^ 48) : 0 < missing F (vmmInit F m) a := by
  have h := Built.init F m hsupply
  generalize vmmInit F m = s at h
  rw [missing]
  rcases h.upper.descend a with ⟨-, hpml4 | hpdpte⟩ | ⟨hpd, hpml4, hpdpte⟩
  · rw [if_pos hpml4]
    decide
  · split_ifs
    · decide
    · rw [missingBelowPdpt]
      change 0 < if pdpteOf F s a &&& ptePresent = 0 then 2 else _
      rw [if_pos hpdpte]
      decide
  · -- the page directory is there and its entry is empty
    rw [identityEnd] at hge
    have hpde := h.rest a hlt (by omega) _ (Vmm.entryAt_of_tableAt hpd _)
    rw [if_neg hpml4, missingBelowPdpt]
    change 0 < if pdpteOf F s a &&& ptePresent = 0 then 2
      else missingBelowPd s (clearLow 64 pageShift (pdpteOf F s a)) a
    rw [if_neg hpdpte, missingBelowPd_of_empty hpde]
    decide

/-- When the frames are used up, `vmm_map` goes on with a table at address 0. -/
theorem fewFrames_not_cleanMap : ∃ s, PagingReachable fewFrames (fun _ => 0xAA) s ∧
    ¬ CleanMap fewFrames s 0x7FFFFFFFF000 0x12345000 3 := by
  have hsupply : Supplied fewFrames (vmmInit fewFrames fun _ => 0xAA) := by
    intro k hk
    rw [drawn_vmmInit] at hk
    change (if k < 2052 then someAlloc k else 0) ≠ 0
    rw [if_pos hk, someAlloc, if_pos (lt_trans hk (by decide))]
    omega
  have hreach : PagingReachable fewFrames (fun _ => 0xAA) (vmmInit fewFrames fun _ => 0xAA) :=
    ⟨hsupply, .refl _⟩
  obtain ⟨M, h⟩ := hreach.inv
  refine ⟨_, hreach, ?_⟩
  rw [h.cleanMap_iff (by decide)]
  intro hnext
  refine hnext 0 (missing_vmmInit fewFrames _ hsupply (by decide) (by decide)) ?_
  rw [drawn_vmmInit]
  rfl

end X64

end Aerogel
