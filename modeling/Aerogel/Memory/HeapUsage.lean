import Aerogel.Memory.HeapBlocks

/-! # What the heap counts and what it promises

`heap_used` grows by the rounded request and shrinks by the size of the block, and the two differ
when `split` leaves a block whole. `accountOk_of_reachable` is the accounting that holds as long as
every allocation is split or fits exactly. Requests are rounded and multiplied in `size_t`;
`allMet_iff` says for which of them no reachable state hands out less than was asked for. -/

namespace Aerogel

variable {T : Target} {A : Arena T} {s s' : HeapRun} {bs : List Block}

/-! ## Accounting -/

/-- `kheap_used` is the sum of the sizes of the used blocks, and 0 when nothing is live. -/
structure AccountOk (T : Target) (s : HeapRun) : Prop where
  /-- The counter agrees with the block list. -/
  sum : ∃ bs, heapBlocks T s.heap = .ok bs ∧ kheapUsed s.heap = usedBytes bs
  /-- Without live allocations it is 0. -/
  empty : s.live = ∅ → kheapUsed s.heap = 0

/-- The block that `find_free` finds for a request of `n` bytes has the rounded size, or is large
enough to be split. -/
def ExactFit (T : Target) (h : Heap) (n : Nat) : Prop :=
  ∀ b, findFree T h.mem (request T n) walkFuel h.heapHead = .ok b → b ≠ 0 →
    hdrGet T h.mem b .size = request T n ∨
      request T n + hdrBytes T + minSplit ≤ hdrGet T h.mem b .size

/-- The operation allocates nothing, or a block that fits. -/
def HeapOp.Exact (T : Target) (s : HeapRun) : HeapOp → Prop
  | .kmalloc n => n = 0 ∨ ExactFit T s.heap n
  | .kcalloc n k => n * k % 2 ^ T.wordBits = 0 ∨ ExactFit T s.heap (n * k % 2 ^ T.wordBits)
  | .krealloc p n =>
    n = 0 ∨ (p ≠ 0 ∧ n ≤ payload T s.heap.mem p) ∨ ExactFit T s.heap n
  | .kfree _ => True
  | .write _ _ => True

/-- One step of a run whose allocations all fit. -/
def ExactStep (T : Target) (s : HeapRun) (op : HeapOp) (s' : HeapRun) : Prop :=
  HeapStep T s op s' ∧ op.Exact T s

/-- The block list is represented and the counter agrees with it. -/
structure AccountInv (T : Target) (A : Arena T) (s : HeapRun) (bs : List Block) : Prop where
  /-- The representation invariant. -/
  inv : HeapInv T A s bs
  /-- The counter. -/
  used : s.heap.heapUsed = usedBytes bs

namespace AccountInv

/-- What is handed out is less than a word can count. -/
theorem usedBytes_lt (h : HeapInv T A s bs) : usedBytes bs < 2 ^ T.wordBits := by
  have h₁ := h.laid.tiled.usedBytes_le
  have h₂ := A.size_lt
  have h₃ := T.two_pow_32_le
  omega

/-- The accounting as a walk of the block list sees it. -/
theorem accountOk (h : AccountInv T A s bs) : AccountOk T s := by
  refine ⟨⟨bs, h.inv.heapBlocks_eq, h.used⟩, fun hempty => ?_⟩
  refine h.used.trans (usedBytes_eq_zero fun b hb => ?_)
  rw [← Bool.not_eq_true]
  intro hu
  have hlive := (h.inv.live_iff _).mpr ⟨b, hb, hu, rfl⟩
  rw [hempty] at hlive
  exact Finset.notMem_empty _ hlive

/-- `kmalloc` of a request that fits adds the size of the block it hands out. -/
theorem kmalloc (h : AccountInv T A s bs) (hsafe : A.SplitSafe) {n p : Nat} {h' : Heap}
    (hexact : n = 0 ∨ ExactFit T s.heap n) (hrun : Aerogel.kmalloc T s.heap n = .ok (p, h')) :
    ∃ bs', AccountInv T A ⟨h', gain s.live p⟩ bs' := by
  by_cases hn0 : n = 0
  · subst hn0
    cases hrun
    exact ⟨bs, ⟨h.inv.laid, h.inv.merged, h.inv.live_iff⟩, h.used⟩
  obtain ⟨l, b, r, rfl, hfit, hfind, rfl, hinv, hused, -⟩ := h.inv.kmalloc_carves hsafe hn0 hrun
  have hfits := hexact.resolve_left hn0 b.addr hfind h.inv.laid.rep.addr_ne_zero
  rw [(h.inv.laid.rep.hdr b (by simp)).size] at hfits
  have hsize : (carved (hdrBytes T) minSplit (request T n) b).size = request T n := by
    simp only [carved]
    split <;> omega
  have hsum := @usedBytes_carve (hdrBytes T) minSplit (request T n) b l r hfit.1
  refine ⟨_, hinv, ?_⟩
  have hlt := usedBytes_lt hinv
  rw [hsum, hsize] at hlt
  rw [hused, h.used, hsum, hsize, Nat.mod_eq_of_lt hlt]

/-- `kfree` of a live pointer subtracts the size of its block. -/
theorem kfree (h : AccountInv T A s bs) {p : Nat} (hp : p ∈ s.live) :
    ∃ h' bs', Aerogel.kfree T s.heap p = .ok h' ∧ AccountInv T A ⟨h', s.live.erase p⟩ bs' := by
  obtain ⟨l, b, r, h', rfl, hb, rfl, hrun, hinv, hused, -⟩ := h.inv.kfree_releases hp
  have hsum := usedBytes_releaseAt (H := hdrBytes T) (l := l) (r := r) hb
  have hlt := usedBytes_lt h.inv
  refine ⟨h', _, hrun, hinv, ?_⟩
  rw [hused, h.used, wsub_of_le (by omega) hlt]
  omega

/-- Writing into a live payload is not counted. -/
theorem of_payload_write (h : AccountInv T A s bs) {p : Nat} (hp : p ∈ s.live) {m' : Mem}
    (hm : ∀ x, x < p ∨ p + payload T s.heap.mem p ≤ x → m' x = s.heap.mem x) :
    AccountInv T A { s with heap := { s.heap with mem := m' } } bs :=
  ⟨h.inv.of_payload_write hp hm, h.used⟩

/-- `kcalloc` counts as its `kmalloc`. -/
theorem kcalloc (h : AccountInv T A s bs) (hsafe : A.SplitSafe) {n k p : Nat} {h' : Heap}
    (hn : n * k % 2 ^ T.wordBits + 7 < 2 ^ T.wordBits)
    (hexact : n * k % 2 ^ T.wordBits = 0 ∨ ExactFit T s.heap (n * k % 2 ^ T.wordBits))
    (hrun : Aerogel.kcalloc T s.heap n k = .ok (p, h')) :
    ∃ bs', AccountInv T A ⟨h', gain s.live p⟩ bs' := by
  obtain ⟨h₁, hmalloc, hres⟩ := HeapInv.kcalloc_cases hrun
  obtain ⟨bs', hacc⟩ := h.kmalloc hsafe hexact hmalloc
  rcases hres with ⟨-, rfl⟩ | ⟨hp0, rfl⟩
  · exact ⟨bs', hacc⟩
  · refine ⟨bs', hacc.of_payload_write (p := p) ?_ fun x => h.inv.kcalloc_clear hsafe hn hp0 hmalloc⟩
    simp only [gain, if_neg hp0, Finset.mem_insert, true_or]

/-- `krealloc` counts the new block and discounts the old one. -/
theorem krealloc (h : AccountInv T A s bs) (hsafe : A.SplitSafe) {p n q : Nat} {h' : Heap}
    (hp : p = 0 ∨ p ∈ s.live) (hn : n + 7 < 2 ^ T.wordBits)
    (hexact : n = 0 ∨ (p ≠ 0 ∧ n ≤ payload T s.heap.mem p) ∨ ExactFit T s.heap n)
    (hrun : Aerogel.krealloc T s.heap p n = .ok (q, h')) :
    ∃ bs', AccountInv T A ⟨h', gain (s.live.erase p) q⟩ bs' := by
  by_cases hp0 : p = 0
  · subst hp0
    rw [Finset.erase_eq_of_notMem h.inv.zero_notMem]
    refine h.kmalloc hsafe (hexact.imp_right fun hfit => ?_) hrun
    exact hfit.resolve_left fun hnull => hnull.1 rfl
  have hlive := hp.resolve_left hp0
  by_cases hn0 : n = 0
  · subst hn0
    obtain ⟨h₁, bs', hfree, hacc⟩ := h.kfree hlive
    simp only [Aerogel.krealloc, if_neg hp0, if_true, hfree] at hrun
    cases hrun
    exact ⟨bs', hacc⟩
  rcases h.inv.krealloc_cases hlive hn0 hrun with ⟨-, rfl, rfl⟩ | ⟨hgrow, h₁, hmalloc, hfree⟩
  · refine ⟨bs, ?_, h.used⟩
    rw [gain, if_neg hp0, Finset.insert_erase hlive]
    exact h.inv
  have hfit : ExactFit T s.heap n :=
    (hexact.resolve_left hn0).resolve_left fun hroom => absurd hroom.2 (Nat.not_le.mpr hgrow)
  obtain ⟨-, -, hres, -, hold⟩ := h.inv.kmalloc hsafe hmalloc
  have hq0 := hres hn0
  have hlive₁ : ∀ x, x ∈ gain s.live q ↔ x = q ∨ x ∈ s.live := by
    intro x
    rw [gain, if_neg hq0, Finset.mem_insert]
  -- three counted steps: the new block, the copy, the old block
  obtain ⟨bs₁, hacc₁⟩ := h.kmalloc hsafe (Or.inr hfit) hmalloc
  have hacc₂ := hacc₁.of_payload_write ((hlive₁ q).mpr (Or.inl rfl))
    fun x => h.inv.krealloc_copy hsafe hlive hn hgrow hmalloc
  obtain ⟨h₂, bs', hfree', hacc₃⟩ := hacc₂.kfree ((hlive₁ p).mpr (Or.inr hlive))
  obtain rfl : h₂ = h' := Except.ok.inj (hfree'.symm.trans hfree)
  refine ⟨bs', ?_⟩
  rw [gain, if_neg hq0, ← Finset.erase_insert_of_ne (hold p hlive).1.symm]
  rwa [gain, if_neg hq0] at hacc₃

/-- Every exact step keeps the accounting. -/
theorem step (hsafe : A.SplitSafe) {op : HeapOp} (h : AccountInv T A s bs)
    (hstep : ExactStep T s op s') : ∃ bs', AccountInv T A s' bs' := by
  obtain ⟨⟨hallow, hexec⟩, hexact⟩ := hstep
  cases op with
  | kmalloc n =>
      obtain ⟨res, hrun, hres⟩ := bind_eq_ok.mp hexec
      cases hres
      exact h.kmalloc hsafe hexact hrun
  | kcalloc n k =>
      obtain ⟨res, hrun, hres⟩ := bind_eq_ok.mp hexec
      cases hres
      exact h.kcalloc hsafe hallow hexact hrun
  | krealloc p n =>
      obtain ⟨res, hrun, hres⟩ := bind_eq_ok.mp hexec
      cases hres
      exact h.krealloc hsafe hallow.1 hallow.2 hexact hrun
  | kfree p =>
      obtain ⟨h', hrun, hres⟩ := bind_eq_ok.mp hexec
      cases hres
      rcases hallow with rfl | hp
      · rw [HeapInv.kfree_null] at hrun
        cases hrun
        rw [Finset.erase_eq_of_notMem h.inv.zero_notMem]
        exact ⟨bs, h⟩
      · obtain ⟨h'', bs', hfree, hacc⟩ := h.kfree hp
        obtain rfl : h'' = h' := Except.ok.inj (hfree.symm.trans hrun)
        exact ⟨bs', hacc⟩
  | write a v =>
      obtain ⟨p, hp, h₁, h₂⟩ := hallow
      cases hexec
      exact ⟨bs, h.of_payload_write hp fun x hx => Function.update_of_ne (by omega) _ _⟩

end AccountInv

/-- What an allocation is asked for. -/
inductive AllocRequest
  /-- `kmalloc(size)`. -/
  | kmalloc (size : Nat)
  /-- `krealloc(p, size)`. -/
  | krealloc (size : Nat)
  /-- `kcalloc(n, size)`. -/
  | kcalloc (n size : Nat)

namespace AllocRequest

/-- The arguments are values of `size_t`. -/
def InRange (T : Target) : AllocRequest → Prop
  | .kmalloc n => n < 2 ^ T.wordBits
  | .krealloc n => n < 2 ^ T.wordBits
  | .kcalloc n k => n < 2 ^ T.wordBits ∧ k < 2 ^ T.wordBits

/-- The number of bytes that are asked for. -/
def bytes : AllocRequest → Nat
  | .kmalloc n => n
  | .krealloc n => n
  | .kcalloc n k => n * k

/-- What a call with this request may end in; `krealloc` takes a null or live pointer. -/
inductive Outcome (T : Target) (s : HeapRun) : AllocRequest → Except Halt (Nat × Heap) → Prop
  | kmalloc (n : Nat) : Outcome T s (.kmalloc n) (Aerogel.kmalloc T s.heap n)
  | krealloc (n p : Nat) : p = 0 ∨ p ∈ s.live →
      Outcome T s (.krealloc n) (Aerogel.krealloc T s.heap p n)
  | kcalloc (n k : Nat) : Outcome T s (.kcalloc n k) (Aerogel.kcalloc T s.heap n k)

/-- Rounding up does not wrap, and neither does the product, unless the wrapped product is still too
large for the arena. -/
def Fits (T : Target) (A : Arena T) : AllocRequest → Prop
  | .kmalloc n => n + 7 < 2 ^ T.wordBits
  | .krealloc n => n + 7 < 2 ^ T.wordBits
  | .kcalloc n k => n * k + 7 < 2 ^ T.wordBits ∨
      (n * k % 2 ^ T.wordBits ≠ 0 ∧ n * k % 2 ^ T.wordBits + 7 < 2 ^ T.wordBits ∧
        A.size < hdrBytes T + roundUp8 (n * k % 2 ^ T.wordBits))

end AllocRequest

/-- A call for this many bytes ended well: in a block that is large enough or in a panic. -/
def Met (T : Target) (bytes : Nat) : Except Halt (Nat × Heap) → Prop
  | .ok (p, h') => bytes = 0 ∨ (p ≠ 0 ∧ bytes ≤ payload T h'.mem p)
  | .error e => ∃ fmt arg, e = .panic fmt arg

/-- In every reachable state, every call with this request ends well. -/
def AllMet (T : Target) (A : Arena T) (m : Mem) (r : AllocRequest) : Prop :=
  ∀ s, Reachable (HeapStep T) (heapBoot T A m) s → ∀ res, r.Outcome T s res → Met T r.bytes res

namespace HeapInv

/-- `kmalloc` of a request that does not wrap ends well. -/
theorem kmalloc_met (h : HeapInv T A s bs) (hsafe : A.SplitSafe) {n : Nat}
    (hn : n + 7 < 2 ^ T.wordBits) : Met T n (Aerogel.kmalloc T s.heap n) := by
  by_cases hn0 : n = 0
  · subst hn0
    exact Or.inl rfl
  rcases kmalloc_spec h.laid hsafe hn0 with ⟨-, herr⟩ | ⟨_, b, _, h', -, -, -, -, hok, -⟩
  · rw [herr]
    exact ⟨_, _, rfl⟩
  · rw [hok]
    obtain ⟨-, -, hres, hroom, -⟩ := h.kmalloc hsafe hok
    exact Or.inr ⟨hres hn0, (le_request hn).trans (hroom (hres hn0))⟩

/-- `krealloc` of a live pointer fails only when its `kmalloc` does. -/
theorem krealloc_error (h : HeapInv T A s bs) (hsafe : A.SplitSafe) {p n : Nat} {e : Halt}
    (hp : p ∈ s.live) (hn : n + 7 < 2 ^ T.wordBits)
    (hrun : Aerogel.krealloc T s.heap p n = .error e) : Aerogel.kmalloc T s.heap n = .error e := by
  have hp0 : p ≠ 0 := fun h0 => h.zero_notMem (h0 ▸ hp)
  by_cases hn0 : n = 0
  · subst hn0
    obtain ⟨h', -, hfree, -⟩ := h.kfree hp
    simp only [Aerogel.krealloc, if_neg hp0, if_true, hfree] at hrun
    cases hrun
  rw [h.krealloc_eq hp hn0] at hrun
  by_cases hfit : n ≤ payload T s.heap.mem p
  · rw [if_pos hfit] at hrun
    cases hrun
  rw [if_neg hfit] at hrun
  cases hmalloc : Aerogel.kmalloc T s.heap n with
  | error e' =>
      rw [hmalloc] at hrun
      exact hrun
  | ok res =>
      -- the old pointer is still live behind the copy, so `kfree` returns
      obtain ⟨q, h₁⟩ := res
      obtain ⟨_, hinv₁, hres, -⟩ := h.kmalloc hsafe hmalloc
      have hlive₁ : ∀ x, x ∈ gain s.live q ↔ x = q ∨ x ∈ s.live := by
        intro x
        rw [gain, if_neg (hres hn0), Finset.mem_insert]
      obtain ⟨h₂, -, hfree, -⟩ := (hinv₁.of_payload_write ((hlive₁ q).mpr (Or.inl rfl))
        fun x => h.krealloc_copy hsafe hp hn (Nat.not_le.mp hfit) hmalloc).kfree
        ((hlive₁ p).mpr (Or.inr hp))
      simp only [hmalloc, bind, Except.bind] at hrun
      rw [hfree] at hrun
      cases hrun

/-- `krealloc` to a size that does not wrap ends well. -/
theorem krealloc_met (h : HeapInv T A s bs) (hsafe : A.SplitSafe) {p n : Nat}
    (hp : p = 0 ∨ p ∈ s.live) (hn : n + 7 < 2 ^ T.wordBits) :
    Met T n (Aerogel.krealloc T s.heap p n) := by
  cases hrun : Aerogel.krealloc T s.heap p n with
  | ok res =>
      by_cases hn0 : n = 0
      · exact Or.inl hn0
      · obtain ⟨-, -, hq0, hroom, -⟩ := h.krealloc hsafe hp hn0 hn hrun
        exact Or.inr ⟨hq0, hroom⟩
  | error e =>
      have hmet := h.kmalloc_met hsafe hn
      rcases hp with rfl | hp
      · rw [show Aerogel.kmalloc T s.heap n = .error e from hrun] at hmet
        exact hmet
      · rw [h.krealloc_error hsafe hp hn hrun] at hmet
        exact hmet

/-- `kcalloc` ends well when the product does not wrap. -/
theorem kcalloc_met (h : HeapInv T A s bs) (hsafe : A.SplitSafe) {n k : Nat}
    (hn : n * k + 7 < 2 ^ T.wordBits) : Met T (n * k) (Aerogel.kcalloc T s.heap n k) := by
  have hmod : n * k % 2 ^ T.wordBits = n * k := Nat.mod_eq_of_lt (by omega)
  have hmet := h.kmalloc_met hsafe hn
  rw [Aerogel.kcalloc, hmod]
  cases hmalloc : Aerogel.kmalloc T s.heap (n * k) with
  | error e =>
      rw [hmalloc] at hmet
      exact hmet
  | ok res =>
      obtain ⟨p, h₁⟩ := res
      rw [hmalloc] at hmet
      obtain ⟨_, hinv₁, -⟩ := h.kmalloc hsafe hmalloc
      by_cases hp0 : p = 0
      · simp only [bind, Except.bind, hp0, ne_eq, not_true_eq_false, if_false, pure, Except.pure]
        exact Or.inl (hmet.resolve_right fun hroom => hroom.1 hp0)
      · simp only [bind, Except.bind, if_pos hp0, pure, Except.pure]
        have hp : p ∈ gain s.live p := by
          rw [gain, if_neg hp0]
          exact Finset.mem_insert_self _ _
        have hsize : payload T (memset h₁.mem p 0 (n * k)) p = payload T h₁.mem p :=
          hinv₁.payload_of_write hp hp fun x => h.kcalloc_clear hsafe hn hp0 hmalloc
        refine hmet.imp_right fun hroom => ⟨hp0, ?_⟩
        rw [hsize]
        exact hroom.2

/-- `kcalloc` panics when what is left of the product is still too large for the arena. -/
theorem kcalloc_met_of_large (h : HeapInv T A s bs) (hsafe : A.SplitSafe) {n k : Nat}
    (hn0 : n * k % 2 ^ T.wordBits ≠ 0) (hn : n * k % 2 ^ T.wordBits + 7 < 2 ^ T.wordBits)
    (hlarge : A.size < hdrBytes T + roundUp8 (n * k % 2 ^ T.wordBits)) (bytes : Nat) :
    Met T bytes (Aerogel.kcalloc T s.heap n k) := by
  rw [Aerogel.kcalloc]
  rcases kmalloc_spec h.laid hsafe hn0 with ⟨-, herr⟩ | ⟨l, b, r, -, rfl, hfit, -⟩
  · rw [herr]
    exact ⟨_, _, rfl⟩
  · have hbounds := h.laid.bounds (b := b) (by simp)
    have hsize := hfit.2
    rw [request_eq hn] at hsize
    omega

end HeapInv

/-- A request that wraps when it is rounded is larger than the arena. -/
theorem Arena.SplitSafe.size_lt_of_wrap (hsafe : A.SplitSafe) {n : Nat}
    (hwrap : 2 ^ T.wordBits ≤ n + 7) : A.size < n := by
  have h₁ := A.size_lt
  cases T with
  | x86 =>
      have h₂ := hsafe rfl
      simp only [Target.wordBits] at hwrap
      omega
  | x86_64 =>
      simp only [Target.wordBits] at hwrap
      omega

/-- In the fresh heap, a request whose rounded size fits is answered with a block of the arena. -/
theorem kmalloc_boot_payload (A : Arena T) (hsafe : A.SplitSafe) (m : Mem) {n : Nat} (hn0 : n ≠ 0)
    (hfit : hdrBytes T + request T n ≤ A.size) :
    ∃ p h', kmalloc T (heapBoot T A m).heap n = .ok (p, h') ∧ hdrBytes T ≤ p ∧
      payload T h'.mem p ≤ A.size := by
  obtain ⟨h', hrun, hinv, -⟩ := kmalloc_boot A hsafe m hn0 hfit
  have hroom : hdrBytes T + payload T h'.mem (A.start + hdrBytes T) ≤ A.size :=
    hinv.payload_le (Finset.mem_singleton_self _)
  exact ⟨_, h', hrun, Nat.le_add_left _ _, by omega⟩

/-- A request that wraps when it is rounded is not met in the fresh heap. -/
theorem not_met_kmalloc_boot (A : Arena T) (hsafe : A.SplitSafe) (m : Mem) {n : Nat}
    (hn : n < 2 ^ T.wordBits) (hwrap : 2 ^ T.wordBits ≤ n + 7) :
    ¬ Met T n (kmalloc T (heapBoot T A m).heap n) := by
  have hlarge := hsafe.size_lt_of_wrap hwrap
  have hfit : hdrBytes T + request T n ≤ A.size := by
    rw [request_of_wrap hn hwrap]
    exact A.hdr_le
  obtain ⟨p, h', hrun, -, hroom⟩ := kmalloc_boot_payload A hsafe m (by omega) hfit
  rw [hrun]
  rintro (h0 | ⟨-, hle⟩) <;> omega

/-- A product that wraps, or almost, is not met in the fresh heap when what is left of it fits. -/
theorem not_met_kcalloc_boot (A : Arena T) (hsafe : A.SplitSafe) (m : Mem) {n k : Nat}
    (hnot : ¬ (AllocRequest.kcalloc n k).Fits T A) :
    ¬ Met T (n * k) (kcalloc T (heapBoot T A m).heap n k) := by
  obtain ⟨hwrap, hrest⟩ := not_or.mp hnot
  have hlarge := hsafe.size_lt_of_wrap (Nat.not_lt.mp hwrap)
  have hlt : n * k % 2 ^ T.wordBits < 2 ^ T.wordBits := Nat.mod_lt _ (Nat.two_pow_pos _)
  rw [kcalloc]
  generalize n * k % 2 ^ T.wordBits = bytes at hrest hlt ⊢
  by_cases h0 : bytes = 0
  · -- nothing is left of the product, and null is returned
    subst h0
    rintro (h0 | ⟨hp, -⟩)
    · omega
    · exact hp rfl
  have hfit : hdrBytes T + request T bytes ≤ A.size := by
    by_cases hround : bytes + 7 < 2 ^ T.wordBits
    · rw [request_eq hround]
      by_contra hgt
      exact hrest ⟨h0, hround, Nat.not_le.mp hgt⟩
    · rw [request_of_wrap hlt (Nat.not_lt.mp hround)]
      exact A.hdr_le
  obtain ⟨p, h', hrun, hp, hroom⟩ := kmalloc_boot_payload A hsafe m h0 hfit
  have hpos := hdrBytes_pos T
  have hp0 : p ≠ 0 := by omega
  simp only [hrun, bind, Except.bind, if_pos hp0, pure, Except.pure]
  -- the header in front of the block is not what is cleared
  have hsize : payload T (memset h'.mem p 0 bytes) p = payload T h'.mem p := by
    refine (blockHdr T).get_congr .size fun x _ hx => ?_
    have hend : x < p - hdrBytes T + hdrBytes T := hx
    rw [memset_apply, if_neg (by omega)]
  rintro (h0 | ⟨-, hle⟩)
  · omega
  · rw [hsize] at hle
    omega

/-- No reachable state hands out less than a request asks for exactly when rounding it up does not
wrap and, for `kcalloc`, the product does not either, or what is left of it is too large. -/
theorem allMet_iff (A : Arena T) (hsafe : A.SplitSafe) (m : Mem) (r : AllocRequest)
    (hr : r.InRange T) : AllMet T A m r ↔ r.Fits T A := by
  constructor
  · intro hall
    have hboot := hall _ (.refl _)
    cases r with
    | kmalloc n =>
        by_contra hwrap
        exact not_met_kmalloc_boot A hsafe m hr (Nat.not_lt.mp hwrap) (hboot _ (.kmalloc n))
    | krealloc n =>
        by_contra hwrap
        exact not_met_kmalloc_boot A hsafe m hr (Nat.not_lt.mp hwrap)
          (hboot _ (.krealloc n 0 (Or.inl rfl)))
    | kcalloc n k =>
        by_contra hwrap
        exact not_met_kcalloc_boot A hsafe m hwrap (hboot _ (.kcalloc n k))
  · intro hfits s hs res hres
    obtain ⟨bs, h⟩ := heapInv_of_reachable hsafe hs
    cases hres with
    | kmalloc n => exact h.kmalloc_met hsafe hfits
    | krealloc n p hp => exact h.krealloc_met hsafe hp hfits
    | kcalloc n k =>
        rcases hfits with hn | ⟨hn0, hn, hlarge⟩
        · exact h.kcalloc_met hsafe hn
        · exact h.kcalloc_met_of_large hsafe hn0 hn hlarge _

/-- In the kernel's heap a `kcalloc` of 100 records of 40 bytes is met in every state. -/
theorem allMet_kernelArena : AllMet .x86 (kernelArena .x86) (fun _ => 0) (.kcalloc 100 40) :=
  (allMet_iff _ (kernelArena_splitSafe .x86) _ (.kcalloc 100 40) ⟨by decide, by decide⟩).mpr
    (Or.inl (by decide))

/-- `kmalloc(2 ** 32 - 1)` returns a block of no bytes on x86. -/
theorem kernelArena_kmalloc_not_met :
    ¬ ∀ s, Reachable (HeapStep .x86) (heapBoot .x86 (kernelArena .x86) fun _ => 0) s →
      Met .x86 0xFFFFFFFF (kmalloc .x86 s.heap 0xFFFFFFFF) := fun hall =>
  not_met_kmalloc_boot (kernelArena .x86) (kernelArena_splitSafe .x86) (fun _ => 0)
    (show 0xFFFFFFFF < 2 ^ 32 by decide) (show 2 ^ 32 ≤ 0xFFFFFFFF + 7 by decide) (hall _ (.refl _))

end Aerogel
