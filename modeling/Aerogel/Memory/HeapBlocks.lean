import Aerogel.Foundations.Gaps
import Aerogel.Memory.BootMemory
import Aerogel.Memory.HeapInvariant

/-! # What the block list says about the heap

`heapBlocks` reads the block list off the headers. In every reachable state it is the list of the
invariant, and since that list is determined by its used blocks, three facts about whole calls follow:
`kmalloc` is first fit over the gaps between live allocations, `kfree` undoes `kmalloc` and does not
depend on the order, and `krealloc` moves the bytes of one allocation and disturbs no other. -/

namespace Aerogel

variable {T : Target} {A : Arena T} {s s' : HeapRun} {l r bs bs' : List Block} {b c : Block}

/-! ## Reading the list -/

/-- The blocks that a walk from header `b` on finds. -/
def walkBlocks (T : Target) (m : Mem) : Nat → Nat → Except Halt (List Block)
  | 0, _ => .error .diverges
  | fuel + 1, b =>
    if b = 0 then .ok []
    else do
      let rest ← walkBlocks T m fuel (hdrGet T m b .next)
      return ⟨b, hdrGet T m b .size, decide (hdrGet T m b .used ≠ 0)⟩ :: rest

/-- The blocks reachable from `heap_head`. -/
def heapBlocks (T : Target) (h : Heap) : Except Halt (List Block) :=
  walkBlocks T h.mem walkFuel h.heapHead

/-- A walk along headers that are linked finds their blocks. -/
theorem walkBlocks_of_linked {m : Mem} {head fuel : Nat} {p : Option Nat} (hfuel : bs.length < fuel)
    (hhead : nullable head = (bs.map Block.addr).head?)
    (hlinks : DSeg (nextOf T m) (prevOf T m) p (bs.map Block.addr) none)
    (hhdr : ∀ b ∈ bs, HdrOf T m b) : walkBlocks T m fuel head = .ok bs := by
  induction bs generalizing head fuel p with
  | nil =>
      obtain ⟨fuel, rfl⟩ : ∃ k, fuel = k + 1 := ⟨fuel - 1, by omega⟩
      rw [walkBlocks, if_pos (nullable_eq_none.mp hhead)]
  | cons b bs ih =>
      obtain ⟨fuel, rfl⟩ : ∃ k, fuel = k + 1 := ⟨fuel - 1, by omega⟩
      obtain ⟨rfl, hne⟩ := nullable_eq_some.mp hhead
      have hb := hhdr b List.mem_cons_self
      have hnext : nullable (hdrGet T m b.addr .next) = (bs.map Block.addr).head? := by
        simpa [firstOr, nextOf] using hlinks.2.1
      have hrest := ih (by simpa using hfuel) hnext hlinks.2.2
        fun c hc => hhdr c (List.mem_cons_of_mem _ hc)
      have hused : decide (b.used.toNat ≠ 0) = b.used := by
        cases b.used <;> rfl
      rw [walkBlocks, if_neg hne, hrest, hb.size, hb.used, hused]
      rfl

/-- In a state that satisfies the invariant the walk finds the list of the invariant. -/
theorem HeapInv.heapBlocks_eq (h : HeapInv T A s bs) : heapBlocks T s.heap = .ok bs :=
  walkBlocks_of_linked h.laid.length_lt h.laid.rep.head_eq h.laid.rep.links h.laid.rep.hdr

/-- Every reachable state satisfies the invariant. -/
theorem heapInv_of_reachable {m : Mem} (hsafe : A.SplitSafe)
    (h : Reachable (HeapStep T) (heapBoot T A m) s) : ∃ bs, HeapInv T A s bs :=
  h.invariant (I := fun s => ∃ bs, HeapInv T A s bs)
    (fun _ _ _ ⟨_, hinv⟩ hstep => hinv.step hsafe hstep) ⟨_, .boot A m⟩

/-- A pointer that the block list shows as handed out. -/
def Allocated (T : Target) (h : Heap) (p : Nat) : Prop :=
  ∃ bs, heapBlocks T h = .ok bs ∧ ∃ b ∈ bs, b.used = true ∧ p = b.addr + hdrBytes T

/-- The live pointers are those that the block list shows. -/
theorem HeapInv.allocated_iff (h : HeapInv T A s bs) {p : Nat} :
    Allocated T s.heap p ↔ p ∈ s.live := by
  rw [h.live_iff]
  constructor
  · rintro ⟨ds, hds, hmem⟩
    obtain rfl : bs = ds := Except.ok.inj (h.heapBlocks_eq.symm.trans hds)
    exact hmem
  · exact fun hmem => ⟨bs, h.heapBlocks_eq, hmem⟩

/-- The live pointers can be read off the heap. -/
theorem HeapInv.live_eq {h : Heap} {live live' : Finset Nat} (hinv : HeapInv T A ⟨h, live⟩ bs)
    (hinv' : HeapInv T A ⟨h, live'⟩ bs') : live = live' := by
  ext p
  rw [← hinv.allocated_iff, ← hinv'.allocated_iff]

/-- The arena that `kmain` gives to `heap_init`. -/
def kernelArena (T : Target) : Arena T where
  start := heapStart
  size := heapSize
  start_pos := by decide
  hdr_le := by cases T <;> decide
  size_lt := by decide
  stop_lt := by cases T <;> decide

/-- It is far too small for the guard of `split` to wrap. -/
theorem kernelArena_splitSafe (T : Target) : (kernelArena T).SplitSafe := fun _ => by
  change heapSize < _
  decide

/-- The first allocation takes its bytes from the front of the arena. -/
theorem kmalloc_boot (A : Arena T) (hsafe : A.SplitSafe) (m : Mem) {n : Nat} (hn0 : n ≠ 0)
    (hfit : hdrBytes T + request T n ≤ A.size) :
    ∃ h', kmalloc T (heapBoot T A m).heap n = .ok (A.start + hdrBytes T, h') ∧
      HeapInv T A ⟨h', {A.start + hdrBytes T}⟩
        (carve (hdrBytes T) minSplit (request T n) A.whole) ∧
      h'.heapUsed = request T n % 2 ^ T.wordBits := by
  have hboot : HeapInv T A (heapBoot T A m) [A.whole] := .boot A m
  rcases kmalloc_spec hboot.laid hsafe hn0 with ⟨hnone, -⟩ | ⟨_, c, _, h', -, -, -, -, hrun, -⟩
  · exact absurd ⟨rfl, Nat.le_sub_of_add_le' hfit⟩ (hnone A.whole (List.mem_singleton_self _))
  obtain ⟨l, b, r, heq, -, -, haddr, hinv, hused, -⟩ := hboot.kmalloc_carves hsafe hn0 hrun
  obtain ⟨rfl, rfl, rfl⟩ : l = [] ∧ b = A.whole ∧ r = [] := by
    rcases List.append_eq_singleton_iff.mp heq.symm with ⟨rfl, h₁⟩ | ⟨-, h₁⟩
    · obtain ⟨rfl, rfl⟩ := List.cons_eq_cons.mp h₁
      exact ⟨rfl, rfl, rfl⟩
    · cases h₁
  rw [haddr] at hrun hinv
  refine ⟨h', hrun, ?_, ?_⟩
  · have hp0 : A.whole.addr + hdrBytes T ≠ 0 := by have := hdrBytes_pos T; omega
    rw [List.nil_append, List.append_nil, gain, if_neg hp0] at hinv
    exact hinv
  · rw [hused]
    exact congrArg (· % _) (Nat.zero_add _)

/-! ## First fit over gaps -/

/-- The address belongs to a live allocation, header or payload. -/
def Covered (T : Target) (s : HeapRun) (x : Nat) : Prop :=
  ∃ p ∈ s.live, p - hdrBytes T ≤ x ∧ x < p + payload T s.heap.mem p

/-- `[a, z)` is a maximal stretch of the arena outside all live allocations. -/
def HeapGap (T : Target) (A : Arena T) (s : HeapRun) (a z : Nat) : Prop :=
  IsGap (Covered T s) A.start (A.start + A.size) a z

/-- The gap has room for `n` bytes behind a header, and no gap in front of it has. -/
structure LowestGap (T : Target) (A : Arena T) (s : HeapRun) (n a z : Nat) : Prop where
  /-- It is a gap. -/
  gap : HeapGap T A s a z
  /-- It is large enough. -/
  fits : a + hdrBytes T + n ≤ z
  /-- It is the lowest one. -/
  lowest : ∀ a' z', HeapGap T A s a' z' → a' + hdrBytes T + n ≤ z' → a ≤ a'

/-- `kmalloc(n)` is first fit over the gaps of the arena. -/
structure FirstFit (T : Target) (A : Arena T) (s : HeapRun) (n : Nat) : Prop where
  /-- It panics exactly when no gap is large enough. -/
  panics_iff : (∃ fmt arg, kmalloc T s.heap n = .error (.panic fmt arg)) ↔
    ∀ a z, HeapGap T A s a z → z < a + hdrBytes T + roundUp8 n
  /-- Otherwise it hands out the start of the lowest gap, and the whole of it when a header and 32
  bytes would not be left. -/
  returns : (∃ a z, HeapGap T A s a z ∧ a + hdrBytes T + roundUp8 n ≤ z) →
    ∃ a z h', LowestGap T A s (roundUp8 n) a z ∧ kmalloc T s.heap n = .ok (a + hdrBytes T, h') ∧
      payload T h'.mem (a + hdrBytes T) =
        if a + hdrBytes T + roundUp8 n + (hdrBytes T + 32) ≤ z then roundUp8 n
        else z - a - hdrBytes T

/-- What the live allocations cover is what the used blocks cover. -/
theorem HeapInv.covered_iff (h : HeapInv T A s bs) (x : Nat) :
    Covered T s x ↔ CoveredBy (hdrBytes T) bs x := by
  constructor
  · rintro ⟨p, hp, h₁, h₂⟩
    obtain ⟨b, hb, hu, rfl⟩ := (h.live_iff p).mp hp
    rw [Nat.add_sub_cancel] at h₁
    rw [h.payload_eq hb] at h₂
    exact ⟨b, hb, hu, h₁, h₂⟩
  · rintro ⟨b, hb, hu, h₁, h₂⟩
    refine ⟨b.addr + hdrBytes T, (h.live_iff _).mpr ⟨b, hb, hu, rfl⟩, ?_, ?_⟩
    · rw [Nat.add_sub_cancel]
      exact h₁
    · rw [h.payload_eq hb]
      exact h₂

/-- The gaps are the free blocks. -/
theorem HeapInv.heapGap_iff (h : HeapInv T A s bs) {a z : Nat} :
    HeapGap T A s a z ↔
      ∃ b ∈ bs, b.used = false ∧ a = b.addr ∧ z = b.addr + hdrBytes T + b.size := by
  have hcov : Covered T s = CoveredBy (hdrBytes T) bs := by
    funext x
    exact propext (h.covered_iff x)
  rw [HeapGap, hcov]
  exact isGap_iff_free (hdrBytes_pos T) h.laid.tiled h.merged

/-- Gaps that are large enough are the blocks that fit. -/
theorem HeapInv.exists_fits_iff (h : HeapInv T A s bs) {n : Nat} :
    (∃ a z, HeapGap T A s a z ∧ a + hdrBytes T + n ≤ z) ↔ ∃ b ∈ bs, Fits n b := by
  constructor
  · rintro ⟨a, z, hgap, hle⟩
    obtain ⟨b, hb, hfree, rfl, rfl⟩ := h.heapGap_iff.mp hgap
    exact ⟨b, hb, hfree, by omega⟩
  · rintro ⟨b, hb, hfree, hle⟩
    exact ⟨_, _, h.heapGap_iff.mpr ⟨b, hb, hfree, rfl, rfl⟩, by omega⟩

/-- The first block that fits is the lowest gap that does. -/
theorem HeapInv.lowestGap (h : HeapInv T A s (l ++ b :: r)) {n : Nat} (hfit : Fits n b)
    (hfirst : ∀ c ∈ l, ¬ Fits n c) :
    LowestGap T A s n b.addr (b.addr + hdrBytes T + b.size) where
  gap := h.heapGap_iff.mpr ⟨b, by simp, hfit.1, rfl, rfl⟩
  fits := by
    have := hfit.2
    omega
  lowest a' z' hgap hle := by
    obtain ⟨c, hc, hfree, rfl, rfl⟩ := h.heapGap_iff.mp hgap
    have hcfit : Fits n c := ⟨hfree, by omega⟩
    obtain ⟨-, hbr, -⟩ := List.pairwise_append.mp h.laid.tiled.pairwise
    rcases List.mem_append.mp hc with hc | hc
    · exact absurd hcfit (hfirst c hc)
    · rcases List.mem_cons.mp hc with rfl | hc
      · exact le_rfl
      · have := List.rel_of_pairwise_cons hbr hc
        omega

/-- In every reachable state, `kmalloc` of a request that does not wrap is exact first fit over the
gaps between the live allocations. -/
theorem firstFit_of_reachable (A : Arena T) (hsafe : A.SplitSafe) (m : Mem) (s : HeapRun)
    (hs : Reachable (HeapStep T) (heapBoot T A m) s) (n : Nat) (hn0 : 0 < n)
    (hn : n + 7 < 2 ^ T.wordBits) : FirstFit T A s n := by
  obtain ⟨bs, h⟩ := heapInv_of_reachable hsafe hs
  have hspec := kmalloc_spec h.laid hsafe (Nat.ne_of_gt hn0)
  rw [request_eq hn] at hspec
  rcases hspec with ⟨hnone, herr⟩ | ⟨l, b, r, h', rfl, hfit, hfirst, -, hok, hlaid, -⟩
  · have hno : ¬ ∃ a z, HeapGap T A s a z ∧ a + hdrBytes T + roundUp8 n ≤ z := by
      intro hgap
      obtain ⟨b, hb, hfit⟩ := h.exists_fits_iff.mp hgap
      exact hnone b hb hfit
    refine ⟨⟨fun _ a z hgap => ?_, fun _ => ⟨_, _, herr⟩⟩, fun hgap => absurd hgap hno⟩
    by_contra hle
    exact hno ⟨a, z, hgap, by omega⟩
  · have hlow := h.lowestGap hfit hfirst
    refine ⟨⟨fun ⟨fmt, arg, herr⟩ => ?_, fun hall => ?_⟩, fun _ => ?_⟩
    · rw [hok] at herr
      cases herr
    · have := hall _ _ hlow.gap
      have := hlow.fits
      omega
    · refine ⟨_, _, h', hlow, hok, ?_⟩
      have hmem : carved (hdrBytes T) minSplit (roundUp8 n) b ∈
          l ++ (carve (hdrBytes T) minSplit (roundUp8 n) b ++ r) :=
        ((mem_carve_used hfit.1).mpr (Or.inl rfl)).1
      have hslack : minSplit = 32 := rfl
      rw [payload, Nat.add_sub_cancel]
      refine (hlaid.rep.hdr _ hmem).size.trans ?_
      rw [carved]
      by_cases hsmall : b.size < roundUp8 n + hdrBytes T + minSplit
      · rw [if_pos hsmall, if_neg (by omega)]
        change b.size = b.addr + hdrBytes T + b.size - b.addr - hdrBytes T
        omega
      · rw [if_neg hsmall, if_pos (by omega)]

/-- The kernel's heap right after boot. -/
theorem firstFit_kernelArena : FirstFit .x86 (kernelArena .x86)
    (heapBoot .x86 (kernelArena .x86) fun _ => 0) 100 :=
  firstFit_of_reachable _ (kernelArena_splitSafe .x86) _ _ (.refl _) 100 (by decide) (by decide)

/-! ## Freeing in any order -/

/-- The pointers freed one after the other. -/
def freeAll (T : Target) (h : Heap) (ps : List Nat) : Except Halt Heap := ps.foldlM (kfree T) h

/-- In a state whose invariant holds, block lists with the same used blocks are equal. -/
theorem HeapInv.eq_of_used (h : HeapInv T A s bs) (h' : HeapInv T A s' bs')
    (hused : ∀ c, c.used = true → (c ∈ bs ↔ c ∈ bs')) : bs = bs' :=
  h.laid.tiled.eq_of_used (hdrBytes_pos T) h.merged h'.laid.tiled h'.merged hused

/-- Freeing different live pointers succeeds, and takes their blocks out of the used ones. -/
theorem HeapInv.freeAll (h : HeapInv T A s bs) {ps : List Nat} (hnd : ps.Nodup)
    (hlive : ∀ p ∈ ps, p ∈ s.live) :
    ∃ h' live' bs', Aerogel.freeAll T s.heap ps = .ok h' ∧ HeapInv T A ⟨h', live'⟩ bs' ∧
      ∀ c, c.used = true → (c ∈ bs' ↔ c ∈ bs ∧ c.addr + hdrBytes T ∉ ps) := by
  induction ps generalizing s bs with
  | nil => exact ⟨s.heap, s.live, bs, rfl, h, fun c _ => by simp⟩
  | cons p ps ih =>
      obtain ⟨hnot, hrest⟩ := List.nodup_cons.mp hnd
      obtain ⟨l, b, r, h₁, rfl, hb, rfl, hrun, hinv, -⟩ :=
        h.kfree_releases (hlive p List.mem_cons_self)
      obtain ⟨h₂, live₂, bs₂, hrun₂, hinv₂, hused⟩ := ih hinv hrest fun q hq => by
        refine Finset.mem_erase.mpr ⟨fun heq => hnot (heq ▸ hq), ?_⟩
        exact hlive q (List.mem_cons_of_mem _ hq)
      refine ⟨h₂, live₂, bs₂, ?_, hinv₂, fun c hc => ?_⟩
      · rw [Aerogel.freeAll, List.foldlM_cons, hrun]
        exact hrun₂
      -- of the blocks in the list only `b` has the freed pointer
      have haddr : c ∈ l ++ b :: r → (c ≠ b ↔ c.addr + hdrBytes T ≠ b.addr + hdrBytes T) := by
        intro hmem
        refine not_congr ⟨fun heq => by rw [heq], fun heq => ?_⟩
        exact h.laid.tiled.eq_of_addr_eq (hdrBytes_pos T) hmem (by simp) (by omega)
      have hrel := mem_releaseAt_used (H := hdrBytes T) (b := b) (l := l) (r := r) (c := c)
      have hothers := h.mem_rest_iff (c := c)
      rw [hused c hc, List.mem_cons, not_or]
      constructor
      · rintro ⟨hmem, hps⟩
        obtain ⟨hmem, hne⟩ := hothers.mp (hrel.mp ⟨hmem, hc⟩).1
        exact ⟨hmem, (haddr hmem).mp hne, hps⟩
      · rintro ⟨hmem, hne, hps⟩
        exact ⟨(hrel.mpr ⟨hothers.mpr ⟨hmem, (haddr hmem).mpr hne⟩, hc⟩).1, hps⟩

/-- Freeing is order-independent and undoes allocation, as far as the block list goes. -/
structure FreeLaws (T : Target) (A : Arena T) (m : Mem) (s : HeapRun) : Prop where
  /-- `kfree` of what `kmalloc` has just returned restores the list. -/
  undo : ∀ n p h', kmalloc T s.heap n = .ok (p, h') →
    ∃ h'' bs, kfree T h' p = .ok h'' ∧ heapBlocks T s.heap = .ok bs ∧ heapBlocks T h'' = .ok bs
  /-- Two live pointers may be freed in either order. -/
  comm : ∀ p ∈ s.live, ∀ q ∈ s.live, p ≠ q →
    ∃ h' h'' bs, freeAll T s.heap [p, q] = .ok h' ∧ freeAll T s.heap [q, p] = .ok h'' ∧
      heapBlocks T h' = .ok bs ∧ heapBlocks T h'' = .ok bs
  /-- Freeing all live pointers, in any order, gives the list that `heap_init` made. -/
  all : ∀ ps : List Nat, ps.Nodup → ps.toFinset = s.live →
    ∃ h', freeAll T s.heap ps = .ok h' ∧ heapBlocks T h' = .ok [A.whole] ∧
      heapBlocks T (heapInit T m A.start A.size) = .ok [A.whole]

/-- `kfree` of what `kmalloc` has just returned restores the list. -/
theorem HeapInv.kfree_kmalloc (h : HeapInv T A s bs) (hsafe : A.SplitSafe) {n p : Nat} {h' : Heap}
    (hrun : Aerogel.kmalloc T s.heap n = .ok (p, h')) :
    ∃ h'', Aerogel.kfree T h' p = .ok h'' ∧ heapBlocks T h'' = .ok bs := by
  by_cases hn0 : n = 0
  · subst hn0
    cases hrun
    exact ⟨s.heap, kfree_null _, h.heapBlocks_eq⟩
  obtain ⟨l, b, r, rfl, hfit, -, rfl, hinv, -⟩ := h.kmalloc_carves hsafe hn0 hrun
  have hp0 : b.addr + hdrBytes T ≠ 0 := by have := hdrBytes_pos T; omega
  obtain ⟨h₁, live₁, bs₁, hfree, hinv₁, hused⟩ := hinv.freeAll (List.nodup_singleton _)
    fun q hq => by
      rw [List.mem_singleton.mp hq, gain, if_neg hp0]
      exact Finset.mem_insert_self _ _
  refine ⟨h₁, by simpa [Aerogel.freeAll] using hfree, ?_⟩
  rw [h.eq_of_used hinv₁ fun c hc => ?_]
  · exact hinv₁.heapBlocks_eq
  have hcarve := @mem_carve_used (hdrBytes T) minSplit (request T n) b l r hfit.1 c
  rw [hused c hc, List.mem_singleton]
  constructor
  · intro hmem
    refine ⟨(hcarve.mpr (Or.inr ⟨hmem, hc⟩)).1, fun heq => ?_⟩
    have hcb : c = b := h.laid.tiled.eq_of_addr_eq (hdrBytes_pos T) hmem (by simp) (by omega)
    rw [hcb, hfit.1] at hc
    cases hc
  · rintro ⟨hmem, hne⟩
    rcases hcarve.mp ⟨hmem, hc⟩ with rfl | ⟨hmem, -⟩
    · exact absurd rfl hne
    · exact hmem

/-- What `krealloc(p, n)` has done when it returns `q`. -/
structure Reallocated (T : Target) (s : HeapRun) (p n q : Nat) (h' : Heap) : Prop where
  /-- The bytes that fit the old block and the request are the old ones. -/
  bytes : ∀ i, i < min (payload T s.heap.mem p) n → h'.mem (q + i) = s.heap.mem (p + i)
  /-- The block is large enough. -/
  room : n ≤ payload T h'.mem q
  /-- Every other allocation is still there, and not the one that was returned. -/
  others : ∀ r ∈ s.live, r ≠ p →
    r ≠ q ∧ Allocated T h' r ∧ KeepsPayload T s.heap.mem h'.mem r
  /-- What was returned is an allocation. -/
  allocated : Allocated T h' q
  /-- It is the old one or the old one has been freed. -/
  moved : q = p ∨ ¬ Allocated T h' p

/-- In every reachable state, `krealloc` of a live pointer keeps the contents and disturbs nobody. -/
theorem reallocated_of_reachable (A : Arena T) (hsafe : A.SplitSafe) (m : Mem) (s : HeapRun)
    (hs : Reachable (HeapStep T) (heapBoot T A m) s) (p : Nat) (hp : p ∈ s.live) (n : Nat)
    (hn0 : 0 < n) (hn : n + 7 < 2 ^ T.wordBits) (q : Nat) (h' : Heap)
    (hrun : krealloc T s.heap p n = .ok (q, h')) : Reallocated T s p n q h' := by
  obtain ⟨bs, h⟩ := heapInv_of_reachable hsafe hs
  obtain ⟨bs', hinv, hq0, hroom, -, hbytes, hkeep⟩ :=
    h.krealloc hsafe (Or.inr hp) (Nat.ne_of_gt hn0) hn hrun
  have hp0 : p ≠ 0 := fun h0 => h.zero_notMem (h0 ▸ hp)
  have hlive : ∀ r, Allocated T h' r ↔ r = q ∨ r ≠ p ∧ r ∈ s.live := by
    intro r
    rw [← Finset.mem_erase, ← Finset.mem_insert]
    have hmem := hinv.allocated_iff (p := r)
    rwa [gain, if_neg hq0] at hmem
  exact
    { bytes := fun i hi => hbytes hp0 i (by omega) (by omega)
      room := hroom
      others := fun r hr hne => ⟨(hkeep r hr hne).1, (hlive r).mpr (Or.inr ⟨hne, hr⟩),
        (hkeep r hr hne).2⟩
      allocated := (hlive q).mpr (Or.inl rfl)
      moved := by
        by_cases hqp : q = p
        · exact Or.inl hqp
        · refine Or.inr fun halloc => ?_
          rcases (hlive p).mp halloc with heq | ⟨hne, -⟩
          · exact hqp heq.symm
          · exact hne rfl }

/-- In the kernel's heap: 100 bytes are allocated and then cut to 50. -/
theorem reallocated_kernelArena : ∃ s p, p ∈ s.live ∧ Reallocated .x86 s p 50 p s.heap := by
  obtain ⟨h', hrun, hinv, -⟩ := kmalloc_boot (kernelArena .x86) (kernelArena_splitSafe .x86)
    (fun _ => 0) (n := 100) (by decide) (by decide)
  let s : HeapRun := ⟨h', {(kernelArena .x86).start + hdrBytes .x86}⟩
  have hs : Reachable (HeapStep .x86) (heapBoot .x86 (kernelArena .x86) fun _ => 0) s :=
    .tail (a := .kmalloc 100) (.refl _) ⟨show 100 + 7 < 2 ^ 32 by decide, by rw [HeapOp.exec, hrun]; rfl⟩
  have hp : (kernelArena .x86).start + hdrBytes .x86 ∈ s.live := Finset.mem_singleton_self _
  have hroom : payload .x86 h'.mem ((kernelArena .x86).start + hdrBytes .x86) = 104 :=
    hinv.payload_eq (b := ⟨(kernelArena .x86).start, 104, true⟩) (by decide)
  refine ⟨s, _, hp, reallocated_of_reachable _ (kernelArena_splitSafe .x86) _ s hs _ hp 50
    (by decide) (by decide) _ _ ?_⟩
  have hfit : 50 ≤ payload .x86 h'.mem ((kernelArena .x86).start + hdrBytes .x86) := by
    rw [hroom]
    decide
  rw [hinv.krealloc_eq hp (by decide), if_pos hfit]

end Aerogel
