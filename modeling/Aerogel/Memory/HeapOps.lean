import Aerogel.Memory.HeapRep

/-! # What each heap operation does to the block list

`Laid T A m head bs` bundles a representation with the fact that the blocks tile the arena `A`. Each
operation of `heap.c` started from a laid out arena ends, panics or diverges as its list
counterpart says, and a successful one leaves a laid out arena again. -/

namespace Aerogel

/-- An arena given to `heap_init`: a memory object that can hold a header and is below 4 GiB. Like
every C object it does not start at the null address and the address one past its end exists. -/
structure Arena (T : Target) where
  /-- First byte of the arena. -/
  start : Nat
  /-- Number of bytes. -/
  size : Nat
  /-- The arena is not at the null address. -/
  start_pos : 0 < start
  /-- There is room for one header. -/
  hdr_le : hdrBytes T ≤ size
  /-- The header's size field can describe it. -/
  size_lt : size < 2 ^ 32
  /-- The end of the arena is an address. -/
  stop_lt : start + size < 2 ^ T.wordBits

/-- The arena is small enough that the guard of `split` cannot wrap around. Only on x86 is this a
restriction: `size + sizeof(block_hdr_t) + MIN_SPLIT` is a 32-bit sum there. -/
def Arena.SplitSafe {T : Target} (A : Arena T) : Prop := T = .x86 → A.size < 2 ^ 32 - 28

variable {T : Target} {A : Arena T} {m : Mem} {head : Nat} {l r bs : List Block} {b : Block}

/-- Memory holds a block list that tiles the arena. -/
structure Laid (T : Target) (A : Arena T) (m : Mem) (head : Nat) (bs : List Block) : Prop where
  /-- The headers in memory are those of the list. -/
  rep : HeapRep T m head bs
  /-- The blocks cover the arena. -/
  tiled : Tiled (hdrBytes T) A.start bs (A.start + A.size)

namespace Laid

/-- Blocks lie inside the arena, so their addresses and ends are addresses of the target. -/
theorem bounds (h : Laid T A m head bs) (hb : b ∈ bs) :
    A.start ≤ b.addr ∧ b.addr + hdrBytes T + b.size ≤ A.start + A.size ∧
      b.addr + hdrBytes T + b.size < 2 ^ T.wordBits := by
  have := h.tiled.mem_bounds hb
  have := A.stop_lt
  omega

theorem addr_lt (h : Laid T A m head bs) (hb : b ∈ bs) : b.addr < 2 ^ T.wordBits := by
  have := h.bounds hb
  omega

/-- A walk over the block list does not run out of fuel. -/
theorem length_lt (h : Laid T A m head bs) : bs.length < walkFuel := by
  have h₁ := h.tiled.length_mul_le
  have h₂ := A.size_lt
  have h₃ : bs.length * 1 ≤ bs.length * hdrBytes T := Nat.mul_le_mul_left _ (hdrBytes_pos T)
  simp only [walkFuel]
  omega

end Laid

/-! ## Coalescing -/

/-- The forward loop of `coalesce` performs `absorb`, and writes into headers only. -/
theorem mergeForward_spec {fuel : Nat} (h : Laid T A m head (l ++ b :: r))
    (hfuel : r.length < fuel) :
    ∃ m', mergeForward T b.addr fuel m = .ok m' ∧
      Laid T A m' head (l ++ (absorb (hdrBytes T) b r).1 :: (absorb (hdrBytes T) b r).2) ∧
      ∀ x, ¬ InHeaders T (l ++ b :: r) x → m' x = m x := by
  induction r generalizing b m fuel with
  | nil =>
      obtain ⟨fuel, rfl⟩ : ∃ k, fuel = k + 1 := ⟨fuel - 1, by omega⟩
      have hnext : hdrGet T m b.addr .next = 0 := nullable_eq_none.mp h.rep.next_eq
      exact ⟨m, by rw [mergeForward, if_neg (by simp [hnext])], h, fun _ _ => rfl⟩
  | cons c r ih =>
      obtain ⟨fuel, rfl⟩ : ∃ k, fuel = k + 1 := ⟨fuel - 1, by omega⟩
      obtain ⟨hnext, hne⟩ := nullable_eq_some.mp h.rep.next_eq
      have hc : hdrGet T m c.addr .used = c.used.toNat := (h.rep.hdr c (by simp)).used
      rw [mergeForward, hnext, hc]
      unfold absorb
      by_cases hused : c.used = true
      · rw [if_neg (by simp [hused]), if_pos hused]
        exact ⟨m, rfl, h, fun _ _ => rfl⟩
      · rw [if_pos ⟨hnext ▸ hne, by simpa using hused⟩, if_neg hused]
        -- merging moves the border between the two blocks, not their outer ends
        have htiled : Tiled (hdrBytes T) A.start (l ++ join (hdrBytes T) b c :: r)
            (A.start + A.size) := by
          obtain ⟨k, h₁, h₂⟩ := Tiled.append_iff.mp h.tiled
          refine Tiled.append_iff.mpr ⟨k, h₁, ?_⟩
          obtain ⟨h₃, h₄, h₅⟩ := h₂
          refine ⟨h₃, ?_⟩
          simp only [join]
          rw [show k + hdrBytes T + (b.size + (hdrBytes T + c.size))
            = k + hdrBytes T + b.size + hdrBytes T + c.size by omega]
          exact h₅
        -- the 32-bit size field can hold the sum, since the block is inside the arena
        have hsize : b.size + (hdrBytes T + c.size) < 2 ^ 32 := by
          have := htiled.mem_bounds (b := join (hdrBytes T) b c) (by simp)
          have := A.size_lt
          simp only [join] at *
          omega
        have hrep := h.rep.mergeInto h.tiled.spread (h.addr_lt (by simp)) hsize
        obtain ⟨m', hrun, hlaid, hframe⟩ :=
          ih (b := join (hdrBytes T) b c) ⟨hrep, htiled⟩ (by simpa using hfuel)
        refine ⟨m', hrun, hlaid, fun x hx => ?_⟩
        rw [hframe x (mt (InHeaders.of_merged (b := b)) hx),
          h.rep.mergeInto_frame h.tiled.spread hx]

/-- `coalesce` after its forward loop: one backward merge, when the block before is free. -/
theorem coalesce_eq {a p : Nat} {m₁ : Mem} (hrun : mergeForward T a walkFuel m = .ok m₁)
    (hp : hdrGet T m₁ a .prev = p) :
    coalesce T m a =
      .ok (if p ≠ 0 ∧ hdrGet T m₁ p .used = 0 then mergeInto T m₁ p a else m₁) := by
  simp only [coalesce, hrun, bind, Except.bind, hp, pure, Except.pure]
  split <;> rfl

/-- `coalesce` on a block that has just been marked free performs `releaseAt`, and writes into headers
only. -/
theorem coalesce_spec (h : Laid T A m head (l ++ { b with used := false } :: r)) :
    ∃ m', coalesce T m b.addr = .ok m' ∧
      Laid T A m' head (releaseAt (hdrBytes T) l b r) ∧
      ∀ x, ¬ InHeaders T (l ++ b :: r) x → m' x = m x := by
  have htiled : Tiled (hdrBytes T) A.start (l ++ b :: r) (A.start + A.size) :=
    h.tiled.withUsed b.used
  have hrel := htiled.releaseAt
  have hfuel : r.length < walkFuel := by
    have := h.length_lt
    simp only [List.length_append, List.length_cons] at this
    omega
  obtain ⟨m₁, hrun, h₁, hframe⟩ := mergeForward_spec h hfuel
  replace hframe : ∀ x, ¬ InHeaders T (l ++ b :: r) x → m₁ x = m x := fun x hx =>
    hframe x (mt InHeaders.of_withUsed hx)
  have haddr := absorb_addr (H := hdrBytes T) { b with used := false } r
  have hprev := h₁.rep.prev_eq
  rw [haddr] at hprev
  replace hrun : mergeForward T b.addr walkFuel m = .ok m₁ := hrun
  rcases releaseAt_cases (hdrBytes T) l b r with ⟨hlast, heq⟩ | ⟨l', g, rfl, hg, heq⟩
  · -- nothing free before the block: the backward test fails
    refine ⟨m₁, ?_, heq ▸ h₁, hframe⟩
    rw [coalesce_eq hrun rfl, if_neg ?_]
    · rintro ⟨hne, hfree⟩
      rw [nullable_of_ne hne, eq_comm, List.getLast?_map, Option.map_eq_some_iff] at hprev
      obtain ⟨g, hg, haddr'⟩ := hprev
      have hused := (h₁.rep.hdr g (by simp [List.mem_of_mem_getLast? hg])).used
      rw [haddr', hfree, hlast g hg] at hused
      cases hused
  · have hgp : hdrGet T m₁ b.addr .prev = g.addr ∧ hdrGet T m₁ b.addr .prev ≠ 0 := by
      refine nullable_eq_some.mp (hprev.trans ?_)
      simp
    have hused : hdrGet T m₁ g.addr .used = 0 := by
      rw [(h₁.rep.hdr g (by simp)).used, hg]
      rfl
    -- a free block `g` before: one merge into it
    have h₂ : Laid T A m₁ head (l' ++ g :: (absorb (hdrBytes T) { b with used := false } r).1 ::
        (absorb (hdrBytes T) { b with used := false } r).2) := by
      simpa using h₁
    have hsize : g.size + (hdrBytes T + (absorb (hdrBytes T) { b with used := false } r).1.size)
        < 2 ^ 32 := by
      rw [heq] at hrel
      have := hrel.mem_bounds (b := join (hdrBytes T) g
        (absorb (hdrBytes T) { b with used := false } r).1) (by simp)
      have := A.size_lt
      simp only [join] at *
      omega
    have h₃ := h₂.rep.mergeInto h₂.tiled.spread (h₂.addr_lt (by simp)) hsize
    refine ⟨mergeInto T m₁ g.addr b.addr, ?_, ?_, fun x hx => ?_⟩
    · rw [coalesce_eq hrun hgp.1, if_pos ⟨hgp.1 ▸ hgp.2, hused⟩]
    · rw [haddr] at h₃
      rw [heq] at hrel ⊢
      exact ⟨h₃, hrel⟩
    · have hmerge := h₂.rep.mergeInto_frame h₂.tiled.spread (x := x)
      rw [haddr] at hmerge
      rw [hmerge ?_, hframe x hx]
      rintro ⟨c, hc, h₄⟩
      rw [List.mem_append, List.mem_cons, List.mem_cons] at hc
      refine hx ?_
      rcases hc with hc | rfl | rfl | hc
      · exact ⟨c, by simp [hc], h₄⟩
      · exact ⟨c, by simp, h₄⟩
      · exact ⟨b, by simp, by rwa [haddr] at h₄⟩
      · exact ⟨c, by simp [absorb_subset _ _ hc], h₄⟩

/-! ## Initialising -/

/-- The single free block `heap_init` creates. -/
def Arena.whole (A : Arena T) : Block := ⟨A.start, A.size - hdrBytes T, false⟩

/-- `heap_init` lays out the arena as one free block. -/
theorem heapInit_spec (A : Arena T) (m : Mem) :
    Laid T A (heapInit T m A.start A.size).mem (heapInit T m A.start A.size).heapHead [A.whole] := by
  have hlt : A.size < 2 ^ T.wordBits := lt_of_lt_of_le A.size_lt T.two_pow_32_le
  have h0 := A.start_pos
  have hsz := A.size_lt
  have hle := A.hdr_le
  -- the five fields of the first header, as the stores of `heap_init` leave them
  have hmagic : hdrGet T (heapInit T m A.start A.size).mem A.start .magic = heapMagic := by
    simp [heapInit, hdrGet_hdrSet_of_ne, hdrTrunc_magic]
  have hsize : hdrGet T (heapInit T m A.start A.size).mem A.start .size =
      A.size - hdrBytes T := by
    simp only [heapInit]
    rw [hdrGet_hdrSet_of_ne _ _ (by decide), hdrGet_hdrSet_of_ne _ _ (by decide),
      hdrGet_hdrSet_of_ne _ _ (by decide), hdrGet_hdrSet_same, hdrTrunc_size,
      wsub_of_le hle hlt, Nat.mod_eq_of_lt (by omega)]
  have hused : hdrGet T (heapInit T m A.start A.size).mem A.start .used = 0 := by
    simp [heapInit, hdrGet_hdrSet_of_ne, hdrTrunc_zero]
  have hnext : hdrGet T (heapInit T m A.start A.size).mem A.start .next = 0 := by
    simp [heapInit, hdrGet_hdrSet_of_ne, hdrTrunc_zero]
  have hprev : hdrGet T (heapInit T m A.start A.size).mem A.start .prev = 0 := by
    simp [heapInit, hdrTrunc_zero]
  refine ⟨⟨?_, ?_, ?_⟩, ?_⟩
  · exact nullable_of_ne (Nat.ne_of_gt h0)
  · refine ⟨?_, ?_, trivial⟩
    · simp only [Arena.whole, prevOf, hprev, nullable_zero]
    · simp only [Arena.whole, nextOf, hnext, nullable_zero]
      rfl
  · intro b hb
    obtain rfl : b = A.whole := by simpa using hb
    exact ⟨hmagic, hsize, hused⟩
  · refine ⟨rfl, ?_⟩
    simp only [Arena.whole, Tiled.nil_iff]
    omega

/-! ## Allocating -/

/-- A request rounded up to a multiple of 8. -/
def roundUp8 (n : Nat) : Nat := (n + 7) / 8 * 8

/-- `ALIGN_UP(size, 8)` of a request that does not wrap. -/
theorem alignUp_eq_roundUp8 {n : Nat} (h : n + 7 < 2 ^ T.wordBits) :
    alignUp T.wordBits T.wordBits 3 n = roundUp8 n := by
  rw [alignUp_of_lt (by cases T <;> decide) h]
  rfl

/-- What `kmalloc` rounds a request to, in `size_t`. -/
def request (T : Target) (n : Nat) : Nat := alignUp T.wordBits T.wordBits 3 n

/-- A request that does not wrap is rounded up. -/
theorem request_eq {n : Nat} (h : n + 7 < 2 ^ T.wordBits) : request T n = roundUp8 n :=
  alignUp_eq_roundUp8 h

/-- Rounding up a request that does not wrap makes it no smaller. -/
theorem le_request {n : Nat} (h : n + 7 < 2 ^ T.wordBits) : n ≤ request T n := by
  rw [request_eq h, roundUp8]
  omega

/-- Requests are rounded to a multiple of 8. -/
theorem eight_dvd_request (T : Target) (n : Nat) : 8 ∣ request T n := by
  rw [request, alignUp, clearLow_eq (by cases T <;> decide)]
  exact Nat.dvd_mul_left _ _

/-- A request that wraps is rounded to nothing. -/
theorem request_of_wrap {n : Nat} (hn : n < 2 ^ T.wordBits) (h : 2 ^ T.wordBits ≤ n + 7) :
    request T n = 0 := by
  have hword := T.two_pow_32_le
  have hsum : (n + (2 ^ 3 - 1)) % 2 ^ T.wordBits = n + 7 - 2 ^ T.wordBits := by
    change (n + 7) % 2 ^ T.wordBits = _
    rw [Nat.mod_eq_sub_mod h]
    exact Nat.mod_eq_of_lt (by omega)
  rw [request, alignUp, hsum, clearLow_of_lt (by cases T <;> decide) (by omega),
    Nat.div_eq_of_lt (by omega), Nat.zero_mul]

/-- In a split-safe arena the guard of `split` is computed without wrap-around for every request
that fits a block. -/
theorem Arena.SplitSafe.guard_lt (hsafe : A.SplitSafe) {n : Nat} (h8 : 8 ∣ n)
    (hn : n + hdrBytes T ≤ A.size) : n + hdrBytes T + minSplit < 2 ^ T.wordBits := by
  have h₁ := A.size_lt
  obtain ⟨k, rfl⟩ := h8
  cases T with
  | x86 =>
      have h₂ := hsafe rfl
      simp only [minSplit, Target.wordBits, show hdrBytes .x86 = 20 from rfl] at *
      omega
  | x86_64 =>
      simp only [minSplit, Target.wordBits, show hdrBytes .x86_64 = 32 from rfl] at *
      omega

/-- `split` followed by marking the block used carves the requested bytes out of a free block. Outside
the headers before and after nothing changes. -/
theorem split_spec {n : Nat} (h : Laid T A m head (l ++ b :: r)) (hfit : Fits n b)
    (hguard : n + hdrBytes T + minSplit < 2 ^ T.wordBits) :
    Laid T A (hdrSet T (split T m b.addr n) b.addr .used 1) head
      (l ++ (carve (hdrBytes T) minSplit n b ++ r)) ∧
    ∀ x, ¬ InHeaders T (l ++ b :: r) x →
      ¬ InHeaders T (l ++ (carve (hdrBytes T) minSplit n b ++ r)) x →
      hdrSet T (split T m b.addr n) b.addr .used 1 x = m x := by
  obtain ⟨hfree, hn⟩ := hfit
  have hbounds := h.bounds (b := b) (by simp)
  have hsz := A.size_lt
  have hslack : minSplit = 32 := rfl
  have hg : (n + hdrBytes T + minSplit) % 2 ^ T.wordBits = n + hdrBytes T + minSplit :=
    Nat.mod_eq_of_lt hguard
  have hsizeb := (h.rep.hdr b (by simp)).size
  have htiled : Tiled (hdrBytes T) A.start (l ++ (carve (hdrBytes T) minSplit n b ++ r))
    (A.start + A.size) := h.tiled.carve
  by_cases hsmall : b.size < n + hdrBytes T + minSplit
  · -- too small to split: only the flag changes
    rw [carve, if_pos hsmall] at htiled ⊢
    rw [split, hg, hsizeb, if_pos hsmall]
    refine ⟨⟨h.rep.setUsed h.tiled.spread true, htiled⟩, fun x hx _ => ?_⟩
    exact hdrSet_apply_of_outside (not_inHeaders hx (by simp))
  · rw [carve, if_neg hsmall] at htiled ⊢
    have hmod : (b.addr + hdrBytes T + n) % 2 ^ T.wordBits = b.addr + hdrBytes T + n :=
      Nat.mod_eq_of_lt (by omega)
    -- the new header lies in the payload of `b`, away from all headers
    have hapart : ∀ x ∈ l ++ b :: r, Apart T (b.addr + hdrBytes T + n) x.addr := by
      intro x hx
      by_cases hxb : x = b
      · subst hxb; exact Or.inr (by omega)
      · have := h.tiled.disjoint_of_ne hx (show b ∈ l ++ b :: r by simp) hxb
        unfold Apart
        omega
    have hguard' : ¬ b.size < (n + hdrBytes T + minSplit) % 2 ^ T.wordBits := by
      rw [hg]
      exact hsmall
    have hrep := h.rep.split h.tiled.spread (h.addr_lt (by simp)) hmod
      (by have := hdrBytes_pos T; omega) hapart hguard'
    -- the guard has made sure that neither subtraction borrows
    have hb32 : b.size < 2 ^ T.wordBits := by omega
    rw [wsub_of_le hn hb32, wsub_of_le (by omega) (by omega), Nat.mod_eq_of_lt (by omega),
      Nat.mod_eq_of_lt (show b.size - n - hdrBytes T < 2 ^ 32 by omega)] at hrep
    refine ⟨⟨hrep.setUsed (htiled.withUsed b.used).spread true, htiled⟩, fun x hx hx' => ?_⟩
    have hxb := not_inHeaders hx (b := b) (by simp)
    have hxn := not_inHeaders hx' (b := ⟨b.addr + hdrBytes T + n, b.size - n - hdrBytes T, false⟩)
      (by simp)
    rw [hdrSet_apply_of_outside hxb]
    refine split_apply_of_outside hmod (hsizeb ▸ hguard') (hapart b (by simp)) rfl hxb hxn ?_
    rcases h.rep.succ_cases with ⟨h₀, -⟩ | ⟨c, r', rfl, h₁, -⟩
    · exact Or.inl h₀
    · rw [h₁]
      exact Or.inr (not_inHeaders hx (by simp))

/-- What `kmalloc` does: it panics when no block fits the rounded request, and otherwise carves the
request out of the first block that does. -/
theorem kmalloc_spec {h : Heap} {n : Nat} (hlaid : Laid T A h.mem h.heapHead bs)
    (hsafe : A.SplitSafe) (hn0 : n ≠ 0) :
    ((∀ b ∈ bs, ¬ Fits (request T n) b) ∧ kmalloc T h n =
      .error (.panic "kmalloc: out of heap memory (requested %u bytes)" (request T n % 2 ^ 32))) ∨
    ∃ l b r h', bs = l ++ b :: r ∧ Fits (request T n) b ∧ (∀ c ∈ l, ¬ Fits (request T n) c) ∧
      findFree T h.mem (request T n) walkFuel h.heapHead = .ok b.addr ∧
      kmalloc T h n = .ok (b.addr + hdrBytes T, h') ∧
      Laid T A h'.mem h'.heapHead (l ++ (carve (hdrBytes T) minSplit (request T n) b ++ r)) ∧
      h'.heapUsed = (h.heapUsed + request T n) % 2 ^ T.wordBits ∧
      ∀ x, ¬ InHeaders T (l ++ b :: r) x →
        ¬ InHeaders T (l ++ (carve (hdrBytes T) minSplit (request T n) b ++ r)) x →
        h'.mem x = h.mem x := by
  have hround : alignUp T.wordBits T.wordBits 3 n = request T n := rfl
  rcases findFree_spec (request T n) hlaid.rep hlaid.length_lt with
    ⟨hrun, hnone⟩ | ⟨l, b, r, rfl, hfit, hfirst, hrun⟩
  · refine Or.inl ⟨hnone, ?_⟩
    simp only [kmalloc, if_neg hn0, hround, hrun, bind, Except.bind, if_true, throw,
      throwThe, MonadExceptOf.throw]
  · have hb := hlaid.bounds (b := b) (by simp)
    have hguard := hsafe.guard_lt (eight_dvd_request T n) (by have := hfit.2; omega)
    obtain ⟨hlaid', hframe⟩ := split_spec hlaid hfit hguard
    refine Or.inr ⟨l, b, r,
      { h with
        mem := hdrSet T (split T h.mem b.addr (request T n)) b.addr .used 1
        heapUsed := (h.heapUsed + request T n) % 2 ^ T.wordBits },
      rfl, hfit, hfirst, hrun, ?_, hlaid', rfl, hframe⟩
    have hne : b.addr ≠ 0 := hlaid.rep.addr_ne_zero
    simp only [kmalloc, if_neg hn0, hround, hrun, bind, Except.bind, if_neg hne, pure,
      Except.pure, Nat.mod_eq_of_lt (show b.addr + hdrBytes T < 2 ^ T.wordBits by omega)]

/-! ## Freeing -/

/-- What `kfree` does with the payload of a used block: it never panics, releases the block and writes
into headers only. -/
theorem kfree_spec {h : Heap} (hlaid : Laid T A h.mem h.heapHead (l ++ b :: r))
    (hused : b.used = true) :
    ∃ h', kfree T h (b.addr + hdrBytes T) = .ok h' ∧
      Laid T A h'.mem h'.heapHead (releaseAt (hdrBytes T) l b r) ∧
      h'.heapUsed = wsub T.wordBits h.heapUsed b.size ∧
      ∀ x, ¬ InHeaders T (l ++ b :: r) x → h'.mem x = h.mem x := by
  have hb := hlaid.bounds (b := b) (by simp)
  have hhdr := hlaid.rep.hdr b (by simp)
  have hsub : wsub T.wordBits (b.addr + hdrBytes T) (hdrBytes T) = b.addr := by
    rw [wsub_of_le (by omega) (by omega), Nat.add_sub_cancel]
  -- clearing the flag is all that happens before `coalesce`
  have hlaid' : Laid T A (hdrSet T h.mem b.addr .used 0) h.heapHead
      (l ++ { b with used := false } :: r) :=
    ⟨hlaid.rep.setUsed hlaid.tiled.spread false, hlaid.tiled.withUsed false⟩
  obtain ⟨m', hrun, hm', hframe⟩ := coalesce_spec hlaid'
  have hne : b.addr + hdrBytes T ≠ 0 := by have := hdrBytes_pos T; omega
  refine ⟨{ h with mem := m', heapUsed := wsub T.wordBits h.heapUsed b.size }, ?_, hm', rfl,
    fun x hx => (hframe x hx).trans (hdrSet_apply_of_outside (not_inHeaders hx (by simp)))⟩
  simp only [kfree, if_neg hne, hsub, hhdr.magic, hhdr.used, hused, hhdr.size, hrun, bind,
    Except.bind, pure, Except.pure, ne_eq, not_true_eq_false, if_false, Bool.toNat_true,
    one_ne_zero]

end Aerogel
