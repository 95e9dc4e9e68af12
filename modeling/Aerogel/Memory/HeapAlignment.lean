import Aerogel.Memory.HeapUsage

/-! # Alignment of heap pointers

Requests are rounded up to 8, and whether that makes the returned pointers multiples of 8 is a question
of the header's size: 32 bytes on x86_64, 20 on x86. There the first pointer of an aligned arena is off by
4. A call moves the block list by carving and releasing only, so what these two keep, every run keeps. -/

namespace Aerogel

variable {T : Target} {A : Arena T} {s : HeapRun} {bs bs' : List Block}

/-- In every reachable state, every pointer that `kmalloc`, `kcalloc` or `krealloc` returns is null or a
multiple of 8. -/
def PointersAligned (T : Target) (A : Arena T) (m : Mem) : Prop :=
  ∀ s, Reachable (HeapStep T) (heapBoot T A m) s →
    ∀ (r : AllocRequest) p h', r.InRange T → r.Outcome T s (.ok (p, h')) → p ≠ 0 → 8 ∣ p

/-- All headers are at multiples of 8. -/
def BlocksAligned (bs : List Block) : Prop := ∀ b ∈ bs, 8 ∣ b.addr

/-- With a header of 32 bytes every move keeps the headers aligned. -/
theorem BlocksAligned.move (h : BlocksAligned bs) (hmove : BlockMove .x86_64 bs bs') :
    BlocksAligned bs' := by
  have hhdr : 8 ∣ hdrBytes .x86_64 := ⟨4, rfl⟩
  cases hmove with
  | @carve l r b n hfit =>
      have hb : 8 ∣ b.addr := h b (by simp)
      intro c hc
      simp only [List.mem_append] at hc
      rcases hc with hc | hc | hc
      · exact h c (List.mem_append_left _ hc)
      · -- the rest of a split block begins behind a header and a rounded request
        rw [carve] at hc
        split at hc
        · obtain rfl := List.mem_singleton.mp hc
          exact hb
        · rcases List.mem_pair.mp hc with rfl | rfl
          · exact hb
          · exact Nat.dvd_add (Nat.dvd_add hb hhdr) (eight_dvd_request _ n)
      · exact h c (List.mem_append_right _ (List.mem_cons_of_mem _ hc))
  | @release l r b hused =>
      have hb : 8 ∣ b.addr := h b (by simp)
      have hrest : ∀ c ∈ (absorb (hdrBytes .x86_64) { b with used := false } r).2, 8 ∣ c.addr :=
        fun c hc => h c (List.mem_append_right _ (List.mem_cons_of_mem _ (absorb_subset _ _ hc)))
      -- merging moves no header
      rcases releaseAt_cases (hdrBytes .x86_64) l b r with ⟨-, heq⟩ | ⟨l', g, rfl, -, heq⟩
      · rw [heq]
        intro c hc
        rcases List.mem_append.mp hc with hc | hc
        · exact h c (List.mem_append_left _ hc)
        · rcases List.mem_cons.mp hc with rfl | hc
          · rw [absorb_addr]
            exact hb
          · exact hrest c hc
      · rw [heq]
        intro c hc
        rcases List.mem_append.mp hc with hc | hc
        · exact h c (by simp [hc])
        · rcases List.mem_cons.mp hc with rfl | hc
          · exact h g (by simp)
          · exact hrest c hc

/-- So does every run. -/
theorem BlocksAligned.moves (h : BlocksAligned bs) (hmoves : BlockMoves .x86_64 bs bs') :
    BlocksAligned bs' := by
  induction hmoves with
  | refl => exact h
  | tail _ hmove ih => exact ih.move hmove

/-- On x86_64 the guard of `split` never wraps. -/
theorem Arena.splitSafe_x86_64 (A : Arena .x86_64) : A.SplitSafe := by
  intro h
  cases h

/-- In every reachable state of a heap on x86_64 the headers are aligned if the arena is. -/
theorem blocksAligned_of_reachable {A : Arena .x86_64} {m : Mem} (hstart : 8 ∣ A.start)
    (hs : Reachable (HeapStep .x86_64) (heapBoot .x86_64 A m) s) :
    ∃ bs, HeapInv .x86_64 A s bs ∧ BlocksAligned bs := by
  refine hs.invariant (I := fun s => ∃ bs, HeapInv .x86_64 A s bs ∧ BlocksAligned bs) ?_
    ⟨_, .boot A m, ?_⟩
  · rintro s op s' ⟨bs, hinv, hal⟩ hstep
    obtain ⟨bs', hinv', hmoves⟩ := hinv.step_moves A.splitSafe_x86_64 hstep
    exact ⟨bs', hinv', hal.moves hmoves⟩
  · intro b hb
    obtain rfl := List.mem_singleton.mp hb
    exact hstart

/-- `kmalloc` returns null or a pointer behind a header. -/
theorem HeapInv.kmalloc_pointer (h : HeapInv T A s bs) (hsafe : A.SplitSafe) {n p : Nat} {h' : Heap}
    (hrun : Aerogel.kmalloc T s.heap n = .ok (p, h')) (hp0 : p ≠ 0) :
    ∃ b ∈ bs, p = b.addr + hdrBytes T := by
  have hn0 : n ≠ 0 := by
    rintro rfl
    rw [HeapInv.kmalloc_zero] at hrun
    cases hrun
    exact hp0 rfl
  obtain ⟨l, b, r, rfl, -, -, hp, -⟩ := h.kmalloc_carves hsafe hn0 hrun
  exact ⟨b, by simp, hp⟩

/-- Every call returns null or a pointer behind a header. -/
theorem HeapInv.pointer_of_outcome (h : HeapInv T A s bs) (hsafe : A.SplitSafe) {r : AllocRequest}
    {p : Nat} {h' : Heap} (hout : r.Outcome T s (.ok (p, h'))) (hp0 : p ≠ 0) :
    ∃ b ∈ bs, p = b.addr + hdrBytes T := by
  generalize hres : (Except.ok (p, h') : Except Halt (Nat × Heap)) = res at hout
  cases hout with
  | kmalloc n => exact h.kmalloc_pointer hsafe hres.symm hp0
  | kcalloc n k =>
      obtain ⟨h₁, hmalloc, -⟩ := HeapInv.kcalloc_cases hres.symm
      exact h.kmalloc_pointer hsafe hmalloc hp0
  | krealloc n q hq =>
      by_cases hq0 : q = 0
      · subst hq0
        exact h.kmalloc_pointer hsafe hres.symm hp0
      have hlive := hq.resolve_left hq0
      by_cases hn0 : n = 0
      · subst hn0
        simp only [Aerogel.krealloc, if_neg hq0, if_true] at hres
        obtain ⟨h₁, -, hret⟩ := bind_eq_ok.mp hres.symm
        cases hret
        exact absurd rfl hp0
      · rcases h.krealloc_cases hlive hn0 hres.symm with ⟨-, rfl, -⟩ | ⟨-, h₁, hmalloc, -⟩
        · obtain ⟨l, b, r, rfl, -, hp, -⟩ := h.block_of_live hlive
          exact ⟨b, by simp, hp⟩
        · exact h.kmalloc_pointer hsafe hmalloc hp0

/-- A fresh heap answers a request that fits with the address behind the first header. -/
theorem kmalloc_heapBoot_fst (A : Arena T) (m : Mem) {n : Nat} (hn0 : n ≠ 0)
    (hfit : hdrBytes T + request T n ≤ A.size) :
    ∃ h', kmalloc T (heapBoot T A m).heap n = .ok (A.start + hdrBytes T, h') := by
  have hstop := A.stop_lt
  have hle := A.hdr_le
  have hfind := findFree_heapInit A m (n := request T n) (by omega)
  have hsum : (A.start + hdrBytes T) % 2 ^ T.wordBits = A.start + hdrBytes T :=
    Nat.mod_eq_of_lt (by omega)
  rw [kmalloc, if_neg hn0]
  change ∃ h', (findFree T (heapInit T m A.start A.size).mem (request T n) walkFuel
    (heapInit T m A.start A.size).heapHead >>= _) = _
  rw [hfind]
  change ∃ h', (if A.start = 0 then _ else _) = _
  rw [if_neg A.start_pos.ne']
  exact ⟨_, congrArg (fun a => Except.ok (a, _)) hsum⟩

/-- Pointers of a heap in an aligned arena are aligned exactly on x86_64. -/
theorem pointersAligned_iff (T : Target) (A : Arena T) (hstart : 8 ∣ A.start) (m : Mem) :
    PointersAligned T A m ↔ T = .x86_64 := by
  cases T with
  | x86 =>
      refine ⟨fun hall => ?_, fun h => nomatch h⟩
      -- a request that is rounded to nothing is answered in every arena
      have hreq : request .x86 0xFFFFFFFF = 0 :=
        request_of_wrap (show 0xFFFFFFFF < 2 ^ 32 by decide) (show 2 ^ 32 ≤ 0xFFFFFFFF + 7 by decide)
      obtain ⟨h', hrun⟩ := kmalloc_heapBoot_fst A m (show 0xFFFFFFFF ≠ 0 by decide)
        (by rw [hreq]; exact A.hdr_le)
      have hal : 8 ∣ A.start + hdrBytes .x86 := by
        refine hall _ (.refl _) (.kmalloc 0xFFFFFFFF) _ h' (show 0xFFFFFFFF < 2 ^ 32 by decide) ?_ ?_
        · rw [← hrun]
          exact .kmalloc _
        · have := A.start_pos
          omega
      exact absurd ((Nat.dvd_add_right hstart).mp hal) (by decide)
  | x86_64 =>
      refine ⟨fun _ => rfl, fun _ s hs r p h' _ hout hp0 => ?_⟩
      obtain ⟨bs, hinv, hal⟩ := blocksAligned_of_reachable hstart hs
      obtain ⟨b, hb, rfl⟩ := hinv.pointer_of_outcome A.splitSafe_x86_64 hout hp0
      exact Nat.dvd_add (hal b hb) ⟨4, rfl⟩

/-- The kernel's heap on x86_64. -/
theorem pointersAligned_kernelArena :
    8 ∣ (kernelArena .x86_64).start ∧ PointersAligned .x86_64 (kernelArena .x86_64) fun _ => 0 :=
  ⟨by decide, (pointersAligned_iff .x86_64 (kernelArena .x86_64) (by decide) _).mpr rfl⟩

/-- On x86 the first pointer of the kernel's heap is `0x400014`. -/
theorem kernelArena_not_pointersAligned :
    8 ∣ (kernelArena .x86).start ∧ ¬ PointersAligned .x86 (kernelArena .x86) fun _ => 0 := by
  refine ⟨by decide, fun hall => ?_⟩
  obtain ⟨h', hrun⟩ := kmalloc_heapBoot_fst (kernelArena .x86) (fun _ => 0) one_ne_zero (by decide)
  have hal : 8 ∣ 0x400014 := by
    refine hall _ (.refl _) (.kmalloc 1) _ h' (show 1 < 2 ^ 32 by decide) ?_ (by decide)
    rw [show 0x400014 = (kernelArena .x86).start + hdrBytes .x86 from rfl, ← hrun]
    exact .kmalloc 1
  exact absurd hal (by decide)

end Aerogel
