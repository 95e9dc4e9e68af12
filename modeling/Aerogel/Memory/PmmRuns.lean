import Aerogel.Foundations.Run
import Aerogel.Memory.PmmInit
import Mathlib.Order.Interval.Finset.Nat

/-! # Ownership of page frames over whole runs

A run after `pmm_init` is a sequence of `pmm_alloc`, `pmm_alloc_n`, `pmm_free`, `pmm_free_n` and
`pmm_mark_used` calls in which frames are only given back by who holds them. `testPage_run` says once
what each operation does to the bitmap; the invariant and the ownership theorem follow from it. -/

namespace Aerogel

variable {T : Target}

/-! ## Runs -/

/-- The operations of the allocator. -/
inductive PmmOp
  | alloc
  | allocN (n : Nat)
  | free (phys : Nat)
  | freeN (phys n : Nat)
  | markUsed (start stop : Nat)
  deriving DecidableEq, Repr

/-- The allocator together with the frames that were handed out and not given back. -/
structure PmmRun where
  /-- The allocator's state. -/
  pmm : Pmm
  /-- The frames some caller holds, by index. -/
  held : Finset Nat

/-- `n` frames from a returned address on; none if the address is 0. -/
def framesAt (addr n : Nat) : Finset Nat :=
  if addr = 0 then ∅ else Finset.Ico (addr >>> pageShift) (addr >>> pageShift + n)

namespace PmmOp

/-- The allocator after the operation. -/
def run (T : Target) (pm : Pmm) : PmmOp → Pmm
  | .alloc => (pmmAlloc pm).2
  | .allocN n => (pmmAllocN pm n).2
  | .free phys => pmmFree pm phys
  | .freeN phys n => pmmFreeN T pm phys n
  | .markUsed start stop => pmmMarkUsed T pm start stop

/-- The frames the operation returns to its caller. -/
def handedOut (pm : Pmm) : PmmOp → Finset Nat
  | .alloc => framesAt (pmmAlloc pm).1 1
  | .allocN n => framesAt (pmmAllocN pm n).1 n
  | _ => ∅

/-- The frames the caller names to give them back. -/
def givenBack (T : Target) : PmmOp → Finset Nat
  | .free phys => {phys >>> pageShift}
  | .freeN phys n => (Finset.range n).image fun i => freeAddr T phys i >>> pageShift
  | _ => ∅

/-- The frames the operation withdraws without a holder. -/
def withdrawn (T : Target) : PmmOp → Finset Nat
  | .markUsed start stop => Finset.Ico (markRange T start stop).1 (markRange T start stop).2
  | _ => ∅

/-- Perform the operation and keep track of the holders. -/
def exec (T : Target) (s : PmmRun) (op : PmmOp) : PmmRun :=
  { pmm := op.run T s.pmm, held := s.held \ op.givenBack T ∪ op.handedOut s.pmm }

end PmmOp

/-- One step of a run: frames are only given back by who holds them. -/
def PmmStep (T : Target) (s : PmmRun) (op : PmmOp) (s' : PmmRun) : Prop :=
  op.givenBack T ⊆ s.held ∧ s' = op.exec T s

/-- The state after `pmm_init`: nobody holds a frame yet. -/
def pmmBoot (T : Target) (img : KernelImage T) (map : List E820Entry) : PmmRun :=
  { pmm := pmmInit T img map .static, held := ∅ }

/-! ## What one operation does -/

/-- The address of a frame determines the frame. -/
theorem framesAt_shiftLeft {p : Nat} (hp : 1 ≤ p) (n : Nat) :
    framesAt (p <<< pageShift) n = Finset.Ico p (p + n) := by
  have hne : p <<< pageShift ≠ 0 := by
    rw [Nat.shiftLeft_eq]
    simp only [pageShift]
    omega
  rw [framesAt, if_neg hne, Nat.shiftLeft_shiftRight]

/-- Only clear frames are handed out, and frame 0 is not one of them. -/
theorem PmmOp.handedOut_clear {pm : Pmm} {op : PmmOp} {p : Nat} (h : p ∈ op.handedOut pm) :
    1 ≤ p ∧ p < maxPages ∧ pm.testPage p = false := by
  cases op with
  | alloc =>
      rcases pmmAlloc_spec pm with ⟨hrun, -⟩ | ⟨i, h₁, h₂, hclear, -, hrun⟩
      · simp [handedOut, hrun, framesAt] at h
      · rw [handedOut, hrun, framesAt_shiftLeft h₁, Finset.mem_Ico] at h
        obtain rfl : p = i := by omega
        exact ⟨h₁, h₂, hclear⟩
  | allocN n =>
      rcases pmmAllocN_spec pm n with ⟨hrun, -⟩ | ⟨i, h₁, h₂, hclear, -, hrun⟩
      · simp [handedOut, hrun, framesAt] at h
      · rw [handedOut, hrun, framesAt_shiftLeft h₁, Finset.mem_Ico] at h
        exact ⟨by omega, by omega, hclear p h.1 h.2⟩
  | free phys => simp [handedOut] at h
  | freeN phys n => simp [handedOut] at h
  | markUsed start stop => simp [handedOut] at h

/-- The bitmap after an operation: a frame is set if it was and is not given back, or if it is handed
out or withdrawn. -/
theorem PmmOp.testPage_run (T : Target) (pm : Pmm) (op : PmmOp) {q : Nat} (hq : q < maxPages) :
    (op.run T pm).testPage q = true ↔
      (pm.testPage q = true ∧ q ∉ op.givenBack T) ∨ q ∈ op.handedOut pm ∨ q ∈ op.withdrawn T := by
  cases op with
  | alloc =>
      simp only [run, handedOut, givenBack, withdrawn, Finset.notMem_empty, not_false_eq_true,
        and_true, or_false]
      rcases pmmAlloc_spec pm with ⟨hrun, -⟩ | ⟨i, h₁, -, -, -, hrun⟩
      · simp [hrun, framesAt]
      · rw [hrun, framesAt_shiftLeft h₁, Pmm.testPage_takePage, Bool.or_eq_true, decide_eq_true_eq,
          Finset.mem_Ico, or_comm]
        exact or_congr_right (by omega)
  | allocN n =>
      simp only [run, handedOut, givenBack, withdrawn, Finset.notMem_empty, not_false_eq_true,
        and_true, or_false]
      rcases pmmAllocN_spec pm n with ⟨hrun, -⟩ | ⟨i, h₁, -, -, -, hrun⟩
      · simp [hrun, framesAt]
      · rw [hrun, framesAt_shiftLeft h₁, testPage_takeRange, Finset.mem_Ico]
        split_ifs with h <;> simp [h]
  | free phys =>
      simp only [run, handedOut, givenBack, withdrawn, Finset.notMem_empty, or_false,
        Finset.mem_singleton, testPage_pmmFree pm phys hq]
      split_ifs with h <;> simp [h]
  | freeN phys n =>
      simp only [run, handedOut, givenBack, withdrawn, Finset.notMem_empty, or_false,
        testPage_pmmFreeN T pm phys n hq, Finset.mem_image, Finset.mem_range, not_exists, not_and]
      exact and_congr_right fun _ => forall₂_congr fun _ _ => ne_comm
  | markUsed start stop =>
      simp only [run, handedOut, givenBack, withdrawn, Finset.notMem_empty, not_false_eq_true,
        and_true, false_or, testPage_pmmMarkUsed, Finset.mem_Ico]
      split_ifs with h <;> simp [h]

/-- Every operation keeps the account. -/
theorem PmmOp.accounted_run {pm : Pmm} (h : pm.Accounted) (T : Target) (op : PmmOp) :
    (op.run T pm).Accounted := by
  cases op with
  | alloc =>
      rcases pmmAlloc_spec pm with ⟨hrun, -⟩ | ⟨i, h₁, h₂, hclear, -, hrun⟩
      · rw [run, hrun]; exact h
      · rw [run, hrun]; exact h.takePage h₂ hclear
  | allocN n =>
      rcases pmmAllocN_spec pm n with ⟨hrun, -⟩ | ⟨i, h₁, h₂, hclear, -, hrun⟩
      · rw [run, hrun]; exact h
      · rw [run, hrun]; exact h.takeRange h₂ hclear
  | free phys => exact h.pmmFree phys
  | freeN phys n => exact h.pmmFreeN T phys n
  | markUsed start stop => exact h.pmmMarkUsed T start stop

/-! ## The invariant -/

/-- What holds in every state of a run. -/
structure PmmInv (T : Target) (img : KernelImage T) (s : PmmRun) : Prop where
  /-- The byte count agrees with the bitmap. -/
  accounted : s.pmm.Accounted
  /-- Held frames are set, and they are not reserved ones. -/
  held_set : ∀ p ∈ s.held, s.pmm.testPage p = true ∧ p < maxPages ∧ ¬ Reserved T img p
  /-- Reserved frames are set. -/
  reserved_set : ∀ p < maxPages, Reserved T img p → s.pmm.testPage p = true

variable {img : KernelImage T} {s s' : PmmRun}

/-- The invariant holds after `pmm_init`. -/
theorem PmmInv.boot (img : KernelImage T) (map : List E820Entry) :
    PmmInv T img (pmmBoot T img map) where
  accounted := accounted_pmmInit img map .static
  held_set := fun p hp => absurd hp (Finset.notMem_empty p)
  reserved_set := by
    intro p hp hres
    by_contra hclear
    rw [Bool.not_eq_true] at hclear
    exact ((pmmInit_free_iff img map .static hp).mp hclear).2 hres

/-- A frame that is handed out is not reserved. -/
theorem PmmInv.not_reserved (h : PmmInv T img s) {op : PmmOp} {p : Nat}
    (hp : p ∈ op.handedOut s.pmm) : ¬ Reserved T img p := by
  obtain ⟨-, hlt, hclear⟩ := PmmOp.handedOut_clear hp
  intro hres
  rw [h.reserved_set p hlt hres] at hclear
  exact Bool.noConfusion hclear

/-- Every step keeps the invariant. -/
theorem PmmInv.step {op : PmmOp} (h : PmmInv T img s) (hstep : PmmStep T s op s') :
    PmmInv T img s' := by
  obtain ⟨hback, rfl⟩ := hstep
  refine ⟨PmmOp.accounted_run h.accounted T op, fun p hp => ?_, fun p hp hres => ?_⟩
  -- a held frame was held before and kept, or has just been handed out
  · rcases Finset.mem_union.mp hp with hp | hp
    · obtain ⟨hheld, hkept⟩ := Finset.mem_sdiff.mp hp
      obtain ⟨hset, hlt, hres⟩ := h.held_set p hheld
      exact ⟨(PmmOp.testPage_run T s.pmm op hlt).mpr (Or.inl ⟨hset, hkept⟩), hlt, hres⟩
    · obtain ⟨-, hlt, -⟩ := PmmOp.handedOut_clear hp
      exact ⟨(PmmOp.testPage_run T s.pmm op hlt).mpr (Or.inr (Or.inl hp)), hlt, h.not_reserved hp⟩
  · -- nobody holds a reserved frame, so nobody gives one back
    refine (PmmOp.testPage_run T s.pmm op hp).mpr (Or.inl ⟨h.reserved_set p hp hres, fun hmem => ?_⟩)
    exact (h.held_set p (hback hmem)).2.2 hres

/-! ## Ownership -/

/-- Ownership of frames in a state, and what the next allocation does there. -/
structure PmmOwnership (T : Target) (img : KernelImage T) (s : PmmRun) : Prop where
  /-- `used_bytes` is `PAGE_SIZE` times the number of set bits. -/
  used_bytes : s.pmm.usedBytes = pageSize * s.pmm.bitmap.count maxPages
  /-- A frame handed out was clear, is not frame 0, not held by anybody and not reserved. -/
  handed_out : ∀ op : PmmOp, ∀ p ∈ op.handedOut s.pmm,
    s.pmm.testPage p = false ∧ p ≠ 0 ∧ p ∉ s.held ∧ ¬ Reserved T img p
  /-- `pmm_alloc` returns the lowest clear frame from 1 on. -/
  lowest : ∀ p, 1 ≤ p → p < maxPages → s.pmm.testPage p = false →
    (∀ q, 1 ≤ q → q < p → s.pmm.testPage q = true) → (pmmAlloc s.pmm).1 = p <<< pageShift
  /-- `pmm_alloc` returns 0 exactly when there is none. -/
  exhausted : (pmmAlloc s.pmm).1 = 0 ↔ ∀ p, 1 ≤ p → p < maxPages → s.pmm.testPage p = true
  /-- A `pmm_alloc` that returns 0 changes nothing. -/
  unchanged : (pmmAlloc s.pmm).1 = 0 → (pmmAlloc s.pmm).2 = s.pmm

/-- What `pmm_alloc` returns, in any state. -/
theorem pmmAlloc_lowest {pm : Pmm} {p : Nat} (h₁ : 1 ≤ p) (h₂ : p < maxPages)
    (hclear : pm.testPage p = false) (hlow : ∀ q, 1 ≤ q → q < p → pm.testPage q = true) :
    pmmAlloc pm = (p <<< pageShift, pm.takePage p) := by
  rcases pmmAlloc_spec pm with ⟨-, hall⟩ | ⟨i, hi₁, -, hi, hilow, hrun⟩
  · rw [hall p h₁ h₂] at hclear
    exact Bool.noConfusion hclear
  · -- the two lowest clear frames are the same one
    rcases lt_trichotomy i p with hip | rfl | hip
    · rw [hlow i hi₁ hip] at hi
      exact Bool.noConfusion hi
    · exact hrun
    · rw [hilow p h₁ hip] at hclear
      exact Bool.noConfusion hclear

/-- `pmm_alloc` fails only when no frame is clear, and then it changes nothing. -/
theorem pmmAlloc_eq_zero_iff (pm : Pmm) :
    (pmmAlloc pm).1 = 0 ↔ ∀ p, 1 ≤ p → p < maxPages → pm.testPage p = true := by
  rcases pmmAlloc_spec pm with ⟨hrun, hall⟩ | ⟨i, h₁, h₂, hi, -, hrun⟩
  · rw [hrun]
    exact ⟨fun _ => hall, fun _ => rfl⟩
  · rw [hrun]
    constructor
    · intro h
      simp only [Nat.shiftLeft_eq, pageShift] at h
      omega
    · intro h
      rw [h i h₁ h₂] at hi
      exact Bool.noConfusion hi

/-- In every reachable state the allocator's books are right and nothing is handed out twice. -/
theorem pmmOwnership_of_reachable (T : Target) (img : KernelImage T) (map : List E820Entry)
    (s : PmmRun) (h : Reachable (PmmStep T) (pmmBoot T img map) s) : PmmOwnership T img s := by
  have hinv : PmmInv T img s := h.invariant (fun _ _ _ hs hstep => hs.step hstep) (.boot img map)
  refine ⟨hinv.accounted, fun op p hp => ?_, fun p h₁ h₂ hclear hlow => ?_,
    pmmAlloc_eq_zero_iff s.pmm, fun h0 => ?_⟩
  · obtain ⟨hpos, -, hclear⟩ := PmmOp.handedOut_clear hp
    refine ⟨hclear, by omega, fun hheld => ?_, hinv.not_reserved hp⟩
    rw [(hinv.held_set p hheld).1] at hclear
    exact Bool.noConfusion hclear
  · rw [pmmAlloc_lowest h₁ h₂ hclear hlow]
  · rcases pmmAlloc_spec s.pmm with ⟨hrun, -⟩ | ⟨i, h₁, h₂, hi, -, -⟩
    · rw [hrun]
    · rw [(pmmAlloc_eq_zero_iff s.pmm).mp h0 i h₁ h₂] at hi
      exact Bool.noConfusion hi

/-- 256 MiB of ordinary memory from 1 MiB on. -/
def lowMemory : E820Entry := { base := 0x100000, length := 0x10000000, type := 1, acpi := 0 }

/-- A run of two allocations and a reservation. -/
theorem pmmOwnership_lowMemory :
    ∃ s, Run (PmmStep .x86) (pmmBoot .x86 lowImage [lowMemory])
      [.alloc, .markUsed 0x200000 0x300000, .allocN 4] s ∧ PmmOwnership .x86 lowImage s := by
  let s₁ := PmmOp.alloc.exec .x86 (pmmBoot .x86 lowImage [lowMemory])
  let s₂ := (PmmOp.markUsed 0x200000 0x300000).exec .x86 s₁
  have hrun : Run (PmmStep .x86) (pmmBoot .x86 lowImage [lowMemory])
      [.alloc, .markUsed 0x200000 0x300000, .allocN 4] ((PmmOp.allocN 4).exec .x86 s₂) :=
    .cons ⟨Finset.empty_subset _, rfl⟩
      (.cons ⟨Finset.empty_subset _, rfl⟩ (.single ⟨Finset.empty_subset _, rfl⟩))
  exact ⟨_, hrun, pmmOwnership_of_reachable .x86 lowImage [lowMemory] _ ⟨_, hrun⟩⟩

end Aerogel
