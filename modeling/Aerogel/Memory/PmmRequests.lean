import Aerogel.Memory.PmmRuns

/-! # What the page allocator answers

Two kinds of answers are compared with the bitmap. A request for `n` frames in a row gets the lowest
such run, and `pmm_free_n` of it is an exact undo. The figures of `pmm_total`, `pmm_used` and
`pmm_available` are taken from two different universes, the usable entries of the memory map and the
2 GiB of the bitmap, and agree only when the two are equally large. -/

namespace Aerogel

variable {T : Target} {pm : Pmm} {n p : Nat}

/-! ## Runs of frames -/

/-- `n` clear frames in a row begin at frame `p`, none of them frame 0. -/
def Pmm.FreeRun (pm : Pmm) (n p : Nat) : Prop := 1 ≤ p ∧ p + n ≤ maxPages ∧ pm.ClearRun p n

/-- From `pm` to `pm'` exactly the `n` frames from `p` on are set, and counted. -/
structure Granted (pm pm' : Pmm) (n p : Nat) : Prop where
  /-- The bitmap. -/
  bitmap : ∀ q, pm'.testPage q = true ↔ pm.testPage q = true ∨ p ≤ q ∧ q < p + n
  /-- `used_bytes`, a 64-bit counter. -/
  used : pm'.usedBytes = (pm.usedBytes + pageSize * n) % 2 ^ 64
  /-- `total_bytes`. -/
  total : pm'.totalBytes = pm.totalBytes

/-- What `pmm_alloc_n(n)` does. -/
structure ContiguousAlloc (T : Target) (pm : Pmm) (n : Nat) : Prop where
  /-- Without a run it returns 0 and changes nothing. -/
  refused : (n = 0 ∨ ¬ ∃ p, pm.FreeRun n p) → pmmAllocN pm n = (0, pm)
  /-- Otherwise it takes the lowest run. -/
  granted : n ≠ 0 → (∃ p, pm.FreeRun n p) → ∃ p, IsLeast {p | pm.FreeRun n p} p ∧
    (pmmAllocN pm n).1 = pageSize * p ∧ Granted pm (pmmAllocN pm n).2 n p
  /-- `pmm_alloc()` is `pmm_alloc_n(1)`. -/
  single : pmmAlloc pm = pmmAllocN pm 1
  /-- `pmm_free_n` of what was returned restores the allocator. -/
  undone : (pmmAllocN pm n).1 ≠ 0 → pmmFreeN T (pmmAllocN pm n).2 (pmmAllocN pm n).1 n = pm

/-- Shifting is multiplying by the page size. -/
theorem shiftLeft_pageShift (p : Nat) : p <<< pageShift = pageSize * p := by
  rw [Nat.shiftLeft_eq, pageShift, pageSize, Nat.mul_comm]

/-- The counters after a range of frames was taken. -/
theorem usedBytes_takeRange (hused : pm.usedBytes < 2 ^ 64) (n p : Nat) :
    (forRange p (p + n) Pmm.takePage pm).usedBytes = (pm.usedBytes + pageSize * n) % 2 ^ 64 ∧
      (forRange p (p + n) Pmm.takePage pm).totalBytes = pm.totalBytes := by
  have hloop : (forRange p (p + n) Pmm.takePage pm).usedBytes
        = (pm.usedBytes + pageSize * (max p (p + n) - p)) % 2 ^ 64 ∧
      (forRange p (p + n) Pmm.takePage pm).totalBytes = pm.totalBytes := by
    refine forRange_induction (P := fun i (s : Pmm) =>
      s.usedBytes = (pm.usedBytes + pageSize * (i - p)) % 2 ^ 64 ∧ s.totalBytes = pm.totalBytes) ?_ ?_
    · rw [Nat.sub_self, Nat.mul_zero, Nat.add_zero, Nat.mod_eq_of_lt hused]
      exact ⟨rfl, rfl⟩
    · rintro i s hi - ⟨hs, htotal⟩
      refine ⟨?_, htotal⟩
      simp only [Pmm.takePage, hs, pageSize]
      omega
  rwa [max_eq_right (Nat.le_add_right p n), Nat.add_sub_cancel_left] at hloop

/-- Taking a clear run grants it. -/
theorem granted_takeRange (hused : pm.usedBytes < 2 ^ 64) (n p : Nat) :
    Granted pm (forRange p (p + n) Pmm.takePage pm) n p := by
  obtain ⟨hcount, htotal⟩ := usedBytes_takeRange hused n p
  refine ⟨fun q => ?_, hcount, htotal⟩
  rw [testPage_takeRange]
  split_ifs with hq <;> simp [hq]

/-- The addresses that `pmm_free_n` computes are those of the frames. -/
theorem freeAddr_shiftLeft {i : Nat} (h : p + i < maxPages) :
    freeAddr T (p <<< pageShift) i = (p + i) <<< pageShift := by
  have hword := T.two_pow_32_le
  simp only [maxPages] at h
  simp only [freeAddr, shiftLeft_pageShift, pageSize]
  rw [Nat.mod_eq_of_lt (show 4096 * i < 2 ^ 32 by omega), Nat.mod_eq_of_lt (by omega)]
  omega

/-- Freeing one frame of a granted run is as if it had not been granted. -/
theorem Granted.pmmFree {pm' : Pmm} (h : Granted pm pm' (n + 1) p) (hclear : pm.testPage p = false)
    (hp : p < maxPages) : Granted pm (pmmFree pm' (p <<< pageShift)) n (p + 1) := by
  have hset : pm'.testPage p = true := (h.bitmap p).mpr (Or.inr ⟨le_rfl, by omega⟩)
  rw [pmmFree_of_set (by rw [Nat.shiftLeft_shiftRight, hset]; simpa using hp), Nat.shiftLeft_shiftRight]
  refine ⟨fun q => ?_, ?_, h.total⟩
  · rw [Pmm.testPage_withUsed, Pmm.testPage_clearPage, Bool.and_eq_true, h.bitmap q]
    by_cases hq : p = q
    · subst hq
      simp [hclear]
    · simp only [hq, decide_false, Bool.not_false, true_and]
      exact or_congr_right (by omega)
  · simp only [h.used, wsub, pageSize]
    omega

/-- An allocator to which nothing was granted is the same. -/
theorem Granted.eq {pm' : Pmm} (h : Granted pm pm' 0 p) (hused : pm.usedBytes < 2 ^ 64) : pm' = pm := by
  obtain ⟨bm, total, used⟩ := pm
  obtain ⟨bm', total', used'⟩ := pm'
  have hbm : bm' = bm := by
    apply Bitmap.ext_test
    intro q
    have hq := h.bitmap q
    rw [Nat.add_zero] at hq
    exact Bool.eq_iff_iff.mpr (hq.trans (or_iff_left (by omega)))
  have hused' : used' = used := by
    have hcount : used' = (used + pageSize * 0) % 2 ^ 64 := h.used
    rw [Nat.mul_zero, Nat.add_zero] at hcount
    exact hcount.trans (Nat.mod_eq_of_lt hused)
  rw [hbm, hused', show total' = total from h.total]

/-- `pmm_free_n` of a granted run restores the allocator. -/
theorem Granted.pmmFreeN {pm' : Pmm} (h : Granted pm pm' n p) (hclear : pm.ClearRun p n)
    (hpn : p + n ≤ maxPages) (hused : pm.usedBytes < 2 ^ 64) :
    pmmFreeN T pm' (p <<< pageShift) n = pm := by
  have hloop : Granted pm (Aerogel.pmmFreeN T pm' (p <<< pageShift) n) (n - max 0 n) (p + max 0 n) := by
    -- before iteration `i` the first `i` frames have been given back
    refine forRange_induction (P := fun i s => Granted pm s (n - i) (p + i)) h ?_
    intro i s _ hi hs
    rw [freeAddr_shiftLeft (by omega)]
    rw [show n - i = n - (i + 1) + 1 by omega] at hs
    exact hs.pmmFree (hclear _ (by omega) (by omega)) (by omega)
  rw [Nat.zero_max, Nat.sub_self] at hloop
  exact hloop.eq hused

/-- A single frame is a run of one. -/
theorem pmmAlloc_eq_pmmAllocN (pm : Pmm) : pmmAlloc pm = pmmAllocN pm 1 := by
  have hone : ∀ q, ¬ pm.ClearRun q 1 → pm.testPage q = true := by
    intro q hq
    by_contra hclear
    refine hq fun r h₁ h₂ => ?_
    rw [show r = q by omega]
    exact Bool.not_eq_true _ ▸ hclear
  rcases pmmAllocN_spec pm 1 with ⟨hrun, hnone⟩ | ⟨p, h₁, h₂, hclear, hleast, hrun⟩
  · have hall := hnone.resolve_left one_ne_zero
    rcases pmmAlloc_spec pm with ⟨halloc, -⟩ | ⟨p, h₁, h₂, hp, -, -⟩
    · rw [halloc, hrun]
    · rw [hone p (hall p h₁ h₂)] at hp
      exact Bool.noConfusion hp
  · rw [hrun, pmmAlloc_lowest h₁ (by omega) (hclear p le_rfl (by omega))
      fun q hq hqp => hone q (hleast.2 q hq hqp)]
    have hstep : forRange p (p + 1) Pmm.takePage pm = Pmm.takePage p pm := by
      rw [forRange, Nat.add_sub_cancel_left]
      rfl
    rw [hstep]

/-- In every state of the allocator and for every `n`, `pmm_alloc_n(n)` takes the lowest run of `n` clear
frames, and `pmm_free_n` takes it back. -/
theorem contiguousAlloc (T : Target) (pm : Pmm) (hused : pm.usedBytes < 2 ^ 64) (n : Nat) :
    ContiguousAlloc T pm n := by
  rcases pmmAllocN_spec pm n with ⟨hrun, hnone⟩ | ⟨p, h₁, h₂, hclear, ⟨hn0, hleast⟩, hrun⟩
  · refine ⟨fun _ => hrun, fun hn0 hex => ?_, pmmAlloc_eq_pmmAllocN pm, fun h0 => ?_⟩
    · obtain ⟨p, hp, hpn, hclear⟩ := hex
      exact absurd hclear (hnone.resolve_left hn0 p hp hpn)
    · rw [hrun] at h0
      exact absurd rfl h0
  · refine ⟨fun hnot => ?_, fun _ _ => ⟨p, ⟨⟨h₁, h₂, hclear⟩, ?_⟩, ?_, ?_⟩, pmmAlloc_eq_pmmAllocN pm,
      fun _ => ?_⟩
    · exact absurd ⟨p, h₁, h₂, hclear⟩ (hnot.resolve_left hn0)
    · intro q hq
      by_contra hlt
      exact hleast q hq.1 (not_le.mp hlt) hq.2.2
    · rw [hrun, shiftLeft_pageShift]
    · rw [hrun]
      exact granted_takeRange hused n p
    · rw [hrun]
      exact (granted_takeRange hused n p).pmmFreeN hclear h₂ hused

/-- The allocator before `pmm_init`, when all bits are clear. -/
theorem contiguousAlloc_static : ContiguousAlloc .x86 .static 3 :=
  contiguousAlloc .x86 .static (by decide) 3

/-! ## Reported memory -/

/-- The bytes of an entry between the bounds that `pmm_init` computes, if it is usable. -/
def E820Entry.usableBytes (T : Target) (e : E820Entry) : Nat :=
  if e.type = e820TypeUsable then entryEnd T e - entryStart T e else 0

/-- The bytes of all usable entries of a memory map. -/
def usableBytes (T : Target) (map : List E820Entry) : Nat :=
  (map.map fun e => e.usableBytes T).sum

/-- Any call of the allocator, whoever makes it. -/
def PmmCall (T : Target) (pm : Pmm) (op : PmmOp) (pm' : Pmm) : Prop := pm' = op.run T pm

/-- The free memory that is reported is the memory of the clear frames. -/
structure ReportsFree (pm : Pmm) : Prop where
  /-- `pmm_available()` counts the clear bits. -/
  available : pmmAvailable pm =
    pageSize * ((Finset.range maxPages).filter fun i => pm.testPage i = false).card
  /-- Its subtraction does not borrow. -/
  used_le : pmmUsed pm ≤ pmmTotal pm

/-- `total_bytes` after an entry of the memory map. -/
theorem totalBytes_pmmInitEntry (T : Target) (pm : Pmm) (e : E820Entry) (h : pm.totalBytes < 2 ^ 64) :
    (pmmInitEntry T pm e).totalBytes = (pm.totalBytes + e.usableBytes T) % 2 ^ 64 := by
  rw [pmmInitEntry, E820Entry.usableBytes]
  by_cases htype : e.type = e820TypeUsable
  · rw [if_neg (not_not.mpr htype), if_pos htype]
    by_cases hle : entryEnd T e ≤ entryStart T e
    · rw [if_pos hle, Nat.sub_eq_zero_of_le hle, Nat.add_zero, Nat.mod_eq_of_lt h]
    · rw [if_neg hle]
      -- clearing frames does not change the counter
      exact forRange_induction (P := fun _ (s : Pmm) => s.totalBytes = _) rfl fun _ _ _ _ hs => hs
  · rw [if_pos htype, if_neg htype, Nat.add_zero, Nat.mod_eq_of_lt h]

/-- `total_bytes` after the memory map. -/
theorem totalBytes_foldl (T : Target) (map : List E820Entry) (pm : Pmm) (h : pm.totalBytes < 2 ^ 64) :
    (map.foldl (pmmInitEntry T) pm).totalBytes = (pm.totalBytes + usableBytes T map) % 2 ^ 64 := by
  induction map generalizing pm with
  | nil => exact (Nat.mod_eq_of_lt h).symm
  | cons e map ih =>
      have hentry := totalBytes_pmmInitEntry T pm e h
      have hsum : usableBytes T (e :: map) = e.usableBytes T + usableBytes T map := by
        simp [usableBytes]
      rw [List.foldl_cons, ih _ (hentry ▸ Nat.mod_lt _ (Nat.two_pow_pos 64)), hentry, hsum,
        Nat.mod_add_mod, Nat.add_assoc]

/-- `pmm_mark_used` does not change `total_bytes`. -/
theorem totalBytes_pmmMarkUsed (T : Target) (pm : Pmm) (start stop : Nat) :
    (pmmMarkUsed T pm start stop).totalBytes = pm.totalBytes := by
  refine forRange_induction (P := fun _ (s : Pmm) => s.totalBytes = pm.totalBytes) rfl ?_
  intro i s _ _ hs
  split
  · exact hs
  · exact hs

/-- `total_bytes` after `pmm_init`. -/
theorem totalBytes_pmmInit (img : KernelImage T) (map : List E820Entry) :
    (pmmInit T img map .static).totalBytes = usableBytes T map % 2 ^ 64 := by
  simp only [pmmInit, totalBytes_pmmMarkUsed]
  rw [totalBytes_foldl T map _ (Nat.two_pow_pos 64)]
  exact congrArg (· % 2 ^ 64) (Nat.zero_add _)

/-- No call changes `total_bytes`. -/
theorem PmmOp.totalBytes_run (T : Target) (pm : Pmm) (op : PmmOp) :
    (op.run T pm).totalBytes = pm.totalBytes := by
  have hfree : ∀ (pm : Pmm) phys, (pmmFree pm phys).totalBytes = pm.totalBytes := by
    intro pm phys
    rw [pmmFree]
    split <;> rfl
  cases op with
  | alloc =>
      rcases pmmAlloc_spec pm with ⟨hrun, -⟩ | ⟨p, -, -, -, -, hrun⟩
      · rw [run, hrun]
      · rw [run, hrun]
        rfl
  | allocN n =>
      rcases pmmAllocN_spec pm n with ⟨hrun, -⟩ | ⟨p, -, -, -, -, hrun⟩
      · rw [run, hrun]
      · rw [run, hrun]
        exact forRange_induction (P := fun _ (s : Pmm) => s.totalBytes = pm.totalBytes) rfl
          fun _ _ _ _ hs => hs
  | free phys => exact hfree pm phys
  | freeN phys n =>
      exact forRange_induction (P := fun _ (s : Pmm) => s.totalBytes = pm.totalBytes) rfl
        fun _ s _ _ hs => (hfree s _).trans hs
  | markUsed start stop => exact totalBytes_pmmMarkUsed T pm start stop

/-- Where the books are right, the reports are right exactly if the total is that of the bitmap. -/
theorem Pmm.Accounted.reports_iff (h : pm.Accounted) (htotal : pm.totalBytes < 2 ^ 64) :
    ReportsFree pm ↔ pm.totalBytes = pageSize * maxPages := by
  have hcount := pm.bitmap.count_add_card_clear maxPages
  have hused : pm.usedBytes = pageSize * pm.bitmap.count maxPages := h
  have hclear : ((Finset.range maxPages).filter fun i => pm.testPage i = false).card
      = ((Finset.range maxPages).filter fun i => pm.bitmap.test i = false).card := rfl
  simp only [pageSize, maxPages] at hused hcount hclear ⊢
  constructor
  · rintro ⟨havail, hle⟩
    simp only [pmmAvailable, pmmUsed, pmmTotal, pageSize, maxPages] at havail hle
    rw [wsub_of_le hle htotal, hclear] at havail
    omega
  · intro heq
    have hle : pm.usedBytes ≤ pm.totalBytes := by omega
    refine ⟨?_, hle⟩
    rw [pmmAvailable, wsub_of_le hle htotal]
    simp only [pageSize, maxPages]
    rw [hclear]
    omega

/-- What is known of every state after `pmm_init`. -/
theorem accounted_of_calls {img : KernelImage T} {map : List E820Entry}
    (h : Reachable (PmmCall T) (pmmInit T img map .static) pm) :
    pm.Accounted ∧ pm.totalBytes = usableBytes T map % 2 ^ 64 := by
  refine h.invariant (I := fun pm => pm.Accounted ∧ pm.totalBytes = usableBytes T map % 2 ^ 64) ?_
    ⟨accounted_pmmInit img map .static, totalBytes_pmmInit img map⟩
  rintro pm op _ ⟨hacc, htotal⟩ rfl
  exact ⟨PmmOp.accounted_run hacc T op, (PmmOp.totalBytes_run T pm op).trans htotal⟩

/-- After `pmm_init` and any calls, the reported memory is right exactly if the usable entries of the
memory map add up to the 2 GiB of the bitmap. -/
theorem reportsFree_iff (T : Target) (img : KernelImage T) (map : List E820Entry) (pm : Pmm)
    (h : Reachable (PmmCall T) (pmmInit T img map .static) pm) :
    ReportsFree pm ↔ usableBytes T map % 2 ^ 64 = 2 ^ 31 := by
  obtain ⟨hacc, htotal⟩ := accounted_of_calls h
  rw [hacc.reports_iff (htotal ▸ Nat.mod_lt _ (Nat.two_pow_pos 64)), htotal]
  rfl

/-- With exactly 2 GiB of memory, also after an allocation. -/
theorem reportsFree_2GiB : ReportsFree (PmmOp.alloc.run .x86 (pmmInit .x86 lowImage
    [{ base := 0, length := 0x80000000, type := 1, acpi := 0 }] .static)) :=
  (reportsFree_iff .x86 lowImage _ _ (.tail (.refl _) (show PmmCall .x86 _ .alloc _ from rfl))).mpr
    (by decide +kernel)

/-- With 256 MiB of memory more than all of it is reported as used. -/
theorem lowMemory_not_reportsFree : ¬ ReportsFree (pmmInit .x86 lowImage [lowMemory] .static) := by
  obtain ⟨hacc, htotal⟩ := accounted_of_calls (.refl (pmmInit .x86 lowImage [lowMemory] .static))
  rw [hacc.reports_iff (htotal ▸ Nat.mod_lt _ (Nat.two_pow_pos 64)), htotal]
  decide +kernel

end Aerogel
