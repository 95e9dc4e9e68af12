import Aerogel.Memory.PmmRuns

/-! # Who owns the heap's memory

`kmain` initialises the page allocator, then paging, then puts the heap at a fixed place without
telling the page allocator. `heapDisjoint_iff` says for which memory maps the two never
hand out the same memory. -/

namespace Aerogel

variable {T : Target}

/-! ## The boot sequence -/

/-- `HEAP_START`. -/
def heapStart : Nat := 0x400000

/-- `HEAP_SIZE`. -/
def heapSize : Nat := 8 * 1024 * 1024

/-- The frame has a byte in the heap region. -/
def HeapFrame (p : Nat) : Prop := Overlaps heapStart (heapStart + heapSize) p

/-- One `pmm_alloc` of `vmm_init`; the frames drawn so far are kept in order. -/
def drawFrame (st : Pmm × List Nat) : Pmm × List Nat :=
  ((pmmAlloc st.1).2, st.2 ++ [(pmmAlloc st.1).1])

/-- What `vmm_init` does to the page allocator, and the addresses it draws: on x86_64 one frame for
each of four page-directory-pointer tables and 512 page directories below each of them; on x86 the
page directory is static. The tables' contents are not part of the allocator's state. -/
def vmmInitFrames (T : Target) (pm : Pmm) : Pmm × List Nat :=
  match T with
  | .x86 => (pm, [])
  | .x86_64 =>
    forRange 0 4 (fun _ st => forRange 0 512 (fun _ st => drawFrame st) (drawFrame st)) (pm, [])

/-- The frames at a list of returned addresses. -/
def drawnFrames (addrs : List Nat) : Finset Nat :=
  addrs.foldr (fun a fs => framesAt a 1 ∪ fs) ∅

/-- The allocator's state with the frames drawn so far held. -/
def drawRun (st : Pmm × List Nat) : PmmRun := { pmm := st.1, held := drawnFrames st.2 }

/-- The page allocator when `heap_init(HEAP_START, HEAP_SIZE)` has been called. -/
def kmainBoot (T : Target) (img : KernelImage T) (map : List E820Entry) : PmmRun :=
  drawRun (vmmInitFrames T (pmmInit T img map .static))

/-- The calls drivers and paging make: `pmm_alloc`, `pmm_alloc_n` and `pmm_free`. -/
def PmmOp.DriverCall : PmmOp → Prop
  | .alloc | .allocN _ | .free _ => True
  | .freeN _ _ | .markUsed _ _ => False

/-- One step after boot. -/
def DriverStep (T : Target) (s : PmmRun) (op : PmmOp) (s' : PmmRun) : Prop :=
  op.DriverCall ∧ PmmStep T s op s'

/-- No frame of the heap region is handed out, neither to `vmm_init` nor to anybody later. -/
structure HeapDisjoint (T : Target) (img : KernelImage T) (map : List E820Entry) : Prop where
  /-- The frames of `vmm_init`. -/
  vmm : ∀ p ∈ (kmainBoot T img map).held, ¬ HeapFrame p
  /-- The frames of any later call. -/
  drivers : ∀ s, Reachable (DriverStep T) (kmainBoot T img map) s →
    ∀ op : PmmOp, op.DriverCall → ∀ p ∈ op.handedOut s.pmm, ¬ HeapFrame p

/-- The memory map keeps the page allocator away from the heap: no frame of the heap region lies
between the bounds `pmm_init` computes for a usable entry, unless it is reserved. -/
def HeapWithheld (T : Target) (img : KernelImage T) (map : List E820Entry) : Prop :=
  ∀ p, HeapFrame p → ¬ Reserved T img p → ¬ ∃ e ∈ map, e.Usable ∧ e.Names T p

/-! ## Paging draws frames like any caller -/

/-- One more address adds its frame. -/
theorem drawnFrames_concat (addrs : List Nat) (a : Nat) :
    drawnFrames (addrs ++ [a]) = drawnFrames addrs ∪ framesAt a 1 := by
  induction addrs with
  | nil => simp [drawnFrames]
  | cons b addrs ih =>
      rw [List.cons_append]
      simp only [drawnFrames, List.foldr_cons] at ih ⊢
      rw [ih, Finset.union_assoc]

/-- Drawing a frame is a `pmm_alloc` whose result is held. -/
theorem drawRun_drawFrame (T : Target) (st : Pmm × List Nat) :
    drawRun (drawFrame st) = PmmOp.alloc.exec T (drawRun st) := by
  simp only [drawRun, drawFrame, drawnFrames_concat, PmmOp.exec, PmmOp.run, PmmOp.givenBack,
    PmmOp.handedOut, Finset.sdiff_empty]

/-- Whatever every `pmm_alloc` keeps is kept from `pmm_init` to the end of boot. -/
theorem kmainBoot_induction {img : KernelImage T} {map : List E820Entry} {P : PmmRun → Prop}
    (hboot : P (pmmBoot T img map)) (halloc : ∀ s, P s → P (PmmOp.alloc.exec T s)) :
    P (kmainBoot T img map) := by
  have hdraw : ∀ st, P (drawRun st) → P (drawRun (drawFrame st)) := by
    intro st h
    rw [drawRun_drawFrame T]
    exact halloc _ h
  cases T with
  | x86 => exact hboot
  | x86_64 =>
      unfold kmainBoot vmmInitFrames
      refine forRange_induction (P := fun _ st => P (drawRun st)) hboot ?_
      intro _ st _ _ hst
      exact forRange_induction (P := fun _ st => P (drawRun st)) (hdraw st hst)
        fun _ st _ _ h => hdraw st h

/-! ## The heap region -/

/-- Heap frames are frames the bitmap covers, and frame 0 is not one. -/
theorem HeapFrame.bounds {p : Nat} (h : HeapFrame p) : 1 ≤ p ∧ p < maxPages := by
  obtain ⟨h₁, h₂⟩ := h
  simp only [heapStart, heapSize, pageSize, maxPages] at h₁ h₂ ⊢
  omega

/-- The heap's frames are all set and nobody holds one. -/
structure HeapKept (s : PmmRun) : Prop where
  /-- They look used to the page allocator. -/
  set : ∀ p, HeapFrame p → s.pmm.testPage p = true
  /-- They were never handed out. -/
  not_held : ∀ p ∈ s.held, ¬ HeapFrame p

/-- Set frames are not handed out. -/
theorem HeapKept.not_handedOut {s : PmmRun} (h : HeapKept s) {op : PmmOp} {p : Nat}
    (hp : p ∈ op.handedOut s.pmm) : ¬ HeapFrame p := by
  intro hheap
  have hclear := (PmmOp.handedOut_clear hp).2.2
  rw [h.set p hheap] at hclear
  exact Bool.noConfusion hclear

/-- Every step keeps the heap's frames set. -/
theorem HeapKept.step {s s' : PmmRun} {op : PmmOp} (h : HeapKept s) (hstep : PmmStep T s op s') :
    HeapKept s' := by
  obtain ⟨hback, rfl⟩ := hstep
  refine ⟨fun p hp => ?_, fun p hp => ?_⟩
  · refine (PmmOp.testPage_run T s.pmm op hp.bounds.2).mpr (Or.inl ⟨h.set p hp, fun hmem => ?_⟩)
    exact h.not_held p (hback hmem) hp
  · rcases Finset.mem_union.mp hp with hp | hp
    · exact h.not_held p (Finset.mem_sdiff.mp hp).1
    · exact h.not_handedOut hp

/-- A memory map that withholds the heap keeps its frames set from `pmm_init` on. -/
theorem HeapKept.boot {img : KernelImage T} {map : List E820Entry} (h : HeapWithheld T img map) :
    HeapKept (pmmBoot T img map) := by
  refine ⟨fun p hp => ?_, fun p hp => absurd hp (Finset.notMem_empty p)⟩
  by_contra hclear
  rw [Bool.not_eq_true] at hclear
  obtain ⟨hnamed, hres⟩ := (pmmInit_free_iff img map .static hp.bounds.2).mp hclear
  exact h p hp hres hnamed

/-- A clear frame stays clear until it is handed out. -/
theorem clear_or_held_alloc {s : PmmRun} {p : Nat} (hp : p < maxPages)
    (h : p ∈ s.held ∨ s.pmm.testPage p = false) :
    p ∈ (PmmOp.alloc.exec T s).held ∨ (PmmOp.alloc.exec T s).pmm.testPage p = false := by
  rcases h with hheld | hclear
  · left
    simp [PmmOp.exec, PmmOp.givenBack, hheld]
  · by_cases hout : p ∈ PmmOp.alloc.handedOut s.pmm
    · exact Or.inl (Finset.mem_union_right _ hout)
    · right
      rw [← Bool.not_eq_true]
      change ¬ (PmmOp.alloc.run T s.pmm).testPage p = true
      rw [PmmOp.testPage_run T s.pmm .alloc hp, hclear]
      simp [hout, PmmOp.withdrawn]

/-- Allocating again and again hands out every clear frame in the end. -/
theorem exists_handedOut {s : PmmRun} {p : Nat} (hpos : 1 ≤ p) (hp : p < maxPages)
    (hclear : s.pmm.testPage p = false) :
    ∃ s', Reachable (DriverStep T) s s' ∧ p ∈ PmmOp.alloc.handedOut s'.pmm := by
  -- every allocation below `p` leaves fewer clear frames there
  induction hk : p - s.pmm.bitmap.count p using Nat.strong_induction_on generalizing s with
  | _ k ih =>
      rcases pmmAlloc_spec s.pmm with ⟨-, hall⟩ | ⟨i, hi₁, hi₂, hi, hlow, hrun⟩
      · rw [hall p hpos hp] at hclear
        exact Bool.noConfusion hclear
      · by_cases hip : i = p
        · refine ⟨s, .refl s, ?_⟩
          rw [PmmOp.handedOut, hrun, framesAt_shiftLeft hi₁, hip, Finset.mem_Ico]
          omega
        -- some lower clear frame goes first
        · have hlt : i < p := by
            by_contra hge
            rw [hlow p hpos (by omega)] at hclear
            exact Bool.noConfusion hclear
          have hstep : DriverStep T s .alloc (PmmOp.alloc.exec T s) :=
            ⟨trivial, Finset.empty_subset _, rfl⟩
          have hpmm : (PmmOp.alloc.exec T s).pmm = s.pmm.takePage i := by
            rw [PmmOp.exec, PmmOp.run, hrun]
          have hclear' : (PmmOp.alloc.exec T s).pmm.testPage p = false := by
            rw [hpmm, Pmm.testPage_takePage, hclear, decide_eq_false hip, Bool.or_false]
          have hcount : (s.pmm.takePage i).bitmap.count p = s.pmm.bitmap.count p + 1 :=
            Bitmap.count_set hlt hi
          have hle := Bitmap.count_le (s.pmm.takePage i).bitmap p
          obtain ⟨s', ⟨as, hreach⟩, hout⟩ := ih _ (by rw [hpmm]; omega) hclear' rfl
          exact ⟨s', ⟨_, .cons hstep hreach⟩, hout⟩

/-- If the page allocator stays away from the heap, the memory map has kept it away: a heap frame
that is free after `pmm_init` ends up with `vmm_init` or with a driver that allocates often enough. -/
theorem HeapDisjoint.withheld {img : KernelImage T} {map : List E820Entry}
    (h : HeapDisjoint T img map) : HeapWithheld T img map := by
  intro p hheap hres hnamed
  obtain ⟨hpos, hlt⟩ := hheap.bounds
  have hfree : (pmmInit T img map .static).testPage p = false :=
    (pmmInit_free_iff img map .static hlt).mpr ⟨hnamed, hres⟩
  -- if `vmm_init` did not take the frame, it is still clear
  have hboot : p ∈ (kmainBoot T img map).held ∨ (kmainBoot T img map).pmm.testPage p = false :=
    kmainBoot_induction (P := fun s => p ∈ s.held ∨ s.pmm.testPage p = false) (Or.inr hfree)
      fun s hs => clear_or_held_alloc hlt hs
  rcases hboot with hheld | hclear
  · exact h.vmm p hheld hheap
  · obtain ⟨s, hreach, hout⟩ := exists_handedOut hpos hlt hclear
    exact h.drivers s hreach .alloc trivial p hout hheap

/-- The page allocator stays away from the heap exactly when the memory map keeps it away. -/
theorem heapDisjoint_iff (T : Target) (img : KernelImage T) (map : List E820Entry) :
    HeapDisjoint T img map ↔ HeapWithheld T img map := by
  constructor
  · exact HeapDisjoint.withheld
  · intro h
    have hboot : HeapKept (kmainBoot T img map) :=
      kmainBoot_induction (.boot h) fun s hs => hs.step ⟨Finset.empty_subset _, rfl⟩
    refine ⟨hboot.not_held, fun s hreach op _ p hp => ?_⟩
    have hs : HeapKept s := hreach.invariant (fun _ _ _ hs hstep => hs.step hstep.2) hboot
    exact hs.not_handedOut hp

/-- With memory from 1 MiB on, as every PC has it, the heap's frames are handed out. -/
theorem lowMemory_not_heapDisjoint : ¬ HeapDisjoint .x86 lowImage [lowMemory] := by
  intro h
  refine h.withheld 1024 ⟨by decide, by decide⟩ ?_
    ⟨lowMemory, by simp, rfl, by decide, by decide⟩
  unfold Reserved
  decide

end Aerogel
