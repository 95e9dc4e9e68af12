import Aerogel.Foundations.Run
import Aerogel.Memory.HeapOps
import Mathlib.Data.Finset.Basic
import Mathlib.Logic.Relation

/-! # The heap's representation invariant over whole runs

A run of the heap is a sequence of `kmalloc`, `kcalloc`, `krealloc` and `kfree` calls, and of stores
by the owners of live payloads. `HeapWellFormed` says what a walk of the block list finds in a state:
contiguous blocks from one end of the arena to the other, linked both ways, merged, with live
payloads disjoint from each other and from every header. It holds in every reachable state exactly
when the guard of `split` cannot wrap around (`Arena.SplitSafe`). -/

namespace Aerogel

variable {T : Target}

/-! ## Runs -/

/-- The heap together with the pointers handed out and not yet given back. -/
structure HeapRun where
  /-- The heap's state. -/
  heap : Heap
  /-- The live pointers. -/
  live : Finset Nat

/-- What may happen in a run: the four calls, and a store into a live payload by its owner. -/
inductive HeapOp
  | kmalloc (size : Nat)
  | kcalloc (n size : Nat)
  | krealloc (ptr size : Nat)
  | kfree (ptr : Nat)
  | write (addr : Nat) (byte : UInt8)

/-- Size of the payload at `p`, as its header says. -/
def payload (T : Target) (m : Mem) (p : Nat) : Nat := hdrGet T m (p - hdrBytes T) .size

/-- A returned pointer is live unless it is null. -/
def gain (live : Finset Nat) (p : Nat) : Finset Nat := if p = 0 then live else insert p live

/-- The contract of the calls: only null or live pointers are given back, a request does not wrap
when it is rounded up to 8, and owners write into their own payloads. -/
def HeapOp.Allowed (T : Target) (s : HeapRun) : HeapOp → Prop
  | .kmalloc n => n + 7 < 2 ^ T.wordBits
  | .kcalloc n k => n * k % 2 ^ T.wordBits + 7 < 2 ^ T.wordBits
  | .krealloc p n => (p = 0 ∨ p ∈ s.live) ∧ n + 7 < 2 ^ T.wordBits
  | .kfree p => p = 0 ∨ p ∈ s.live
  | .write a _ => ∃ p ∈ s.live, p ≤ a ∧ a < p + payload T s.heap.mem p

/-- Perform an operation and record what is live afterwards. -/
def HeapOp.exec (T : Target) (s : HeapRun) : HeapOp → Except Halt HeapRun
  | .kmalloc n => do
    let (p, h) ← Aerogel.kmalloc T s.heap n
    return ⟨h, gain s.live p⟩
  | .kcalloc n k => do
    let (p, h) ← Aerogel.kcalloc T s.heap n k
    return ⟨h, gain s.live p⟩
  | .krealloc p n => do
    let (q, h) ← Aerogel.krealloc T s.heap p n
    return ⟨h, gain (s.live.erase p) q⟩
  | .kfree p => do
    let h ← Aerogel.kfree T s.heap p
    return ⟨h, s.live.erase p⟩
  | .write a v => return { s with heap := { s.heap with mem := Function.update s.heap.mem a v } }

/-- One step of a run: an allowed operation that returns. -/
def HeapStep (T : Target) (s : HeapRun) (op : HeapOp) (s' : HeapRun) : Prop :=
  op.Allowed T s ∧ op.exec T s = .ok s'

/-- The state after `heap_init`, on top of any memory contents. -/
def heapBoot (T : Target) (A : Arena T) (m : Mem) : HeapRun := ⟨heapInit T m A.start A.size, ∅⟩

/-! ## The invariant as a walk sees it -/

/-- Walking by `next` from `b` visits these headers and ends at null. -/
def Visits (T : Target) (m : Mem) : Nat → List Nat → Prop
  | b, [] => b = 0
  | b, a :: as => b = a ∧ a ≠ 0 ∧ Visits T m (hdrGet T m a .next) as

/-- The visited headers are those of a contiguous, merged and properly linked block list. -/
structure ListOk (T : Target) (A : Arena T) (m : Mem) (addrs : List Nat) : Prop where
  /-- The first block starts the arena. -/
  first : addrs.head? = some A.start
  /-- Addresses strictly increase. -/
  increasing : addrs.Pairwise (· < ·)
  /-- Every block ends where the next one starts. -/
  contiguous : addrs.IsChain fun a b => a + hdrBytes T + hdrGet T m a .size = b
  /-- The last block ends where the arena ends. -/
  last : ∀ a, addrs.getLast? = some a →
    a + hdrBytes T + hdrGet T m a .size = A.start + A.size
  /-- The first block has no predecessor. -/
  prev_first : ∀ a, addrs.head? = some a → hdrGet T m a .prev = 0
  /-- Backward links invert forward links. -/
  prev_next : addrs.IsChain fun a b => hdrGet T m a .next = b ∧ hdrGet T m b .prev = a
  /-- Every block carries the magic number. -/
  magic : ∀ a ∈ addrs, hdrGet T m a .magic = heapMagic
  /-- No two neighbours are free. -/
  merged : addrs.IsChain fun a b => ¬ (hdrGet T m a .used = 0 ∧ hdrGet T m b .used = 0)

/-- Live payloads lie inside the arena, apart from each other and from every header. -/
structure PayloadsOk (T : Target) (A : Arena T) (m : Mem) (live : Finset Nat)
    (addrs : List Nat) : Prop where
  /-- Payloads lie inside the arena. -/
  inside : ∀ p ∈ live, A.start ≤ p ∧ p + payload T m p ≤ A.start + A.size
  /-- Payloads do not overlap headers. -/
  headers : ∀ p ∈ live, ∀ a ∈ addrs, a + hdrBytes T ≤ p ∨ p + payload T m p ≤ a
  /-- Payloads do not overlap each other. -/
  disjoint : ∀ p ∈ live, ∀ q ∈ live, p ≠ q →
    p + payload T m p ≤ q ∨ q + payload T m q ≤ p

/-- The heap is well formed: a walk from `heap_head` ends and finds a proper block list, around
properly separated live payloads. -/
def HeapWellFormed (T : Target) (A : Arena T) (s : HeapRun) : Prop :=
  ∃ addrs, Visits T s.heap.mem s.heap.heapHead addrs ∧ ListOk T A s.heap.mem addrs ∧
    PayloadsOk T A s.heap.mem s.live addrs

/-! ## The inductive invariant -/

variable {A : Arena T} {s : HeapRun} {l r bs : List Block} {b : Block}

/-- The state represents a tiled, merged block list whose used blocks are the live pointers. -/
structure HeapInv (T : Target) (A : Arena T) (s : HeapRun) (bs : List Block) : Prop where
  /-- Memory holds the list and it tiles the arena. -/
  laid : Laid T A s.heap.mem s.heap.heapHead bs
  /-- Free neighbours are merged. -/
  merged : NoAdjacentFree bs
  /-- The live pointers are the payloads of the used blocks. -/
  live_iff : ∀ p, p ∈ s.live ↔ ∃ b ∈ bs, b.used = true ∧ p = b.addr + hdrBytes T

/-- The payload at `q` has the same size and the same bytes in both memories. -/
structure KeepsPayload (T : Target) (m m' : Mem) (q : Nat) : Prop where
  /-- The size in the header. -/
  size : payload T m' q = payload T m q
  /-- The bytes. -/
  bytes : ∀ x, q ≤ x → x < q + payload T m q → m' x = m x

namespace KeepsPayload

variable {m m' m'' : Mem} {q : Nat}

/-- Nothing happens to a payload when nothing happens. -/
theorem refl (m : Mem) (q : Nat) : KeepsPayload T m m q := ⟨rfl, fun _ _ _ => rfl⟩

/-- A payload that is kept twice is kept. -/
theorem trans (h : KeepsPayload T m m' q) (h' : KeepsPayload T m' m'' q) :
    KeepsPayload T m m'' q :=
  ⟨h'.size.trans h.size, fun x h₁ h₂ =>
    (h'.bytes x h₁ (by rw [h.size]; exact h₂)).trans (h.bytes x h₁ h₂)⟩

end KeepsPayload

/-! ## Moves of the block list -/

/-- An elementary change of the block list: a block that fits a request is carved, or a used block is
released. -/
inductive BlockMove (T : Target) : List Block → List Block → Prop
  | carve {l r : List Block} {b : Block} {n : Nat} : Fits (request T n) b →
      BlockMove T (l ++ b :: r) (l ++ (carve (hdrBytes T) minSplit (request T n) b ++ r))
  | release {l r : List Block} {b : Block} : b.used = true →
      BlockMove T (l ++ b :: r) (releaseAt (hdrBytes T) l b r)

/-- Any number of moves. -/
abbrev BlockMoves (T : Target) : List Block → List Block → Prop := Relation.ReflTransGen (BlockMove T)

namespace HeapInv

/-- A live pointer belongs to a used block, which is found in front of it. -/
theorem block_of_live (h : HeapInv T A s bs) {p : Nat} (hp : p ∈ s.live) :
    ∃ l b r, bs = l ++ b :: r ∧ b.used = true ∧ p = b.addr + hdrBytes T ∧
      payload T s.heap.mem p = b.size := by
  obtain ⟨b, hb, hused, rfl⟩ := (h.live_iff p).mp hp
  obtain ⟨l, r, rfl⟩ := List.append_of_mem hb
  refine ⟨l, b, r, rfl, hused, rfl, ?_⟩
  rw [payload, Nat.add_sub_cancel]
  exact (h.laid.rep.hdr b hb).size

/-- The null address is never live. -/
theorem zero_notMem (h : HeapInv T A s bs) : 0 ∉ s.live := by
  intro h0
  obtain ⟨l, b, r, -, -, hb, -⟩ := h.block_of_live h0
  have := hdrBytes_pos T
  omega

/-- Payloads of different live pointers do not overlap. -/
theorem disjoint (h : HeapInv T A s bs) {p q : Nat} (hp : p ∈ s.live) (hq : q ∈ s.live)
    (hpq : p ≠ q) : p + payload T s.heap.mem p ≤ q ∨ q + payload T s.heap.mem q ≤ p := by
  obtain ⟨l, b, r, rfl, -, rfl, hsize⟩ := h.block_of_live hp
  obtain ⟨l', c, r', heq, -, rfl, hsize'⟩ := h.block_of_live hq
  have hc : c ∈ l ++ b :: r := heq ▸ (show c ∈ l' ++ c :: r' by simp)
  have hdisj := h.laid.tiled.disjoint_of_ne (show b ∈ l ++ b :: r by simp) hc
    (by rintro rfl; exact hpq rfl)
  rw [hsize, hsize']
  omega

/-- Bytes changed inside one live payload leave the invariant alone. -/
theorem of_payload_write (h : HeapInv T A s bs) {p : Nat} (hp : p ∈ s.live) {m' : Mem}
    (hm : ∀ x, x < p ∨ p + payload T s.heap.mem p ≤ x → m' x = s.heap.mem x) :
    HeapInv T A { s with heap := { s.heap with mem := m' } } bs := by
  obtain ⟨l, b, r, rfl, hused, rfl, hsize⟩ := h.block_of_live hp
  refine ⟨⟨h.laid.rep.congr fun c hc f => ?_, h.laid.tiled⟩, h.merged, h.live_iff⟩
  refine (blockHdr T).get_congr f fun x hx₁ hx₂ => hm x ?_
  rw [hsize]
  have hlt : x < c.addr + hdrBytes T := hx₂
  by_cases hcb : c = b
  · subst hcb; omega
  · have := h.laid.tiled.disjoint_of_ne hc (show b ∈ l ++ b :: r by simp) hcb
    omega

/-- The size of a payload only depends on the block list. -/
theorem payload_eq (h : HeapInv T A s bs) {b : Block} (hb : b ∈ bs) :
    payload T s.heap.mem (b.addr + hdrBytes T) = b.size := by
  rw [payload, Nat.add_sub_cancel]
  exact (h.laid.rep.hdr b hb).size

/-- A block that is in the list before and after keeps its payload, when nothing outside the headers
changes. -/
theorem keeps (h : HeapInv T A s bs) {s' : HeapRun} {bs' : List Block} (h' : HeapInv T A s' bs')
    (hframe : ∀ x, ¬ InHeaders T bs x → ¬ InHeaders T bs' x → s'.heap.mem x = s.heap.mem x)
    {b : Block} (hb : b ∈ bs) (hb' : b ∈ bs') :
    KeepsPayload T s.heap.mem s'.heap.mem (b.addr + hdrBytes T) where
  size := (h'.payload_eq hb').trans (h.payload_eq hb).symm
  bytes x h₁ h₂ := by
    rw [h.payload_eq hb] at h₂
    exact hframe x (h.laid.tiled.payload_not_inHeaders hb h₁ h₂)
      (h'.laid.tiled.payload_not_inHeaders hb' h₁ h₂)

/-- Bytes changed inside one live payload leave all sizes alone. -/
theorem payload_of_write (h : HeapInv T A s bs) {p q : Nat} (hp : p ∈ s.live) (hq : q ∈ s.live)
    {m' : Mem} (hm : ∀ x, x < p ∨ p + payload T s.heap.mem p ≤ x → m' x = s.heap.mem x) :
    payload T m' q = payload T s.heap.mem q := by
  obtain ⟨c, hc, -, rfl⟩ := (h.live_iff q).mp hq
  exact ((h.of_payload_write hp hm).payload_eq hc).trans (h.payload_eq hc).symm

/-- A payload and its header fit the arena. -/
theorem payload_le (h : HeapInv T A s bs) {p : Nat} (hp : p ∈ s.live) :
    hdrBytes T + payload T s.heap.mem p ≤ A.size := by
  obtain ⟨c, hc, -, rfl⟩ := (h.live_iff p).mp hp
  have := h.laid.bounds hc
  rw [h.payload_eq hc]
  omega

/-- A write into one live payload keeps the others. -/
theorem keeps_of_payload_write (h : HeapInv T A s bs) {p q : Nat} (hp : p ∈ s.live)
    (hq : q ∈ s.live) (hne : q ≠ p) {m' : Mem}
    (hm : ∀ x, x < p ∨ p + payload T s.heap.mem p ≤ x → m' x = s.heap.mem x) :
    KeepsPayload T s.heap.mem m' q := by
  have hdisj := h.disjoint hp hq (Ne.symm hne)
  exact ⟨h.payload_of_write hp hq hm, fun x h₁ h₂ => hm x (by omega)⟩

/-- A successful `kmalloc` carves the request out of the first block that fits. -/
theorem kmalloc_carves (h : HeapInv T A s bs) (hsafe : A.SplitSafe) {n p : Nat} {h' : Heap}
    (hn0 : n ≠ 0) (hrun : Aerogel.kmalloc T s.heap n = .ok (p, h')) :
    ∃ l b r, bs = l ++ b :: r ∧ Fits (request T n) b ∧
      findFree T s.heap.mem (request T n) walkFuel s.heap.heapHead = .ok b.addr ∧
      p = b.addr + hdrBytes T ∧
      HeapInv T A ⟨h', gain s.live p⟩
        (l ++ (carve (hdrBytes T) minSplit (request T n) b ++ r)) ∧
      h'.heapUsed = (s.heap.heapUsed + request T n) % 2 ^ T.wordBits ∧
      ∀ x, ¬ InHeaders T bs x →
        ¬ InHeaders T (l ++ (carve (hdrBytes T) minSplit (request T n) b ++ r)) x →
        h'.mem x = s.heap.mem x := by
  rcases kmalloc_spec h.laid hsafe hn0 with
    ⟨-, herr⟩ | ⟨l, b, r, h'', rfl, hfit, -, hfind, hok, hlaid, hused, hframe⟩
  · rw [herr] at hrun; cases hrun
  rw [hok] at hrun
  cases hrun
  have hp0 : b.addr + hdrBytes T ≠ 0 := by have := hdrBytes_pos T; omega
  refine ⟨l, b, r, rfl, hfit, hfind, rfl, ⟨hlaid, h.merged.carve hfit.1, fun q => ?_⟩, hused, hframe⟩
  -- the carved list is what the used blocks and the live pointers agree on again
  rw [gain, if_neg hp0, Finset.mem_insert, h.live_iff]
  constructor
  · rintro (rfl | ⟨c, hc, hu, rfl⟩)
    · exact ⟨carved _ _ _ b, ((mem_carve_used hfit.1).mpr (Or.inl rfl)).1, rfl, rfl⟩
    · exact ⟨c, ((mem_carve_used hfit.1).mpr (Or.inr ⟨hc, hu⟩)).1, hu, rfl⟩
  · rintro ⟨c, hc, hu, rfl⟩
    rcases (mem_carve_used hfit.1).mp ⟨hc, hu⟩ with rfl | ⟨hc, hu⟩
    · exact Or.inl rfl
    · exact Or.inr ⟨c, hc, hu, rfl⟩

/-- A request for nothing changes nothing. -/
theorem kmalloc_zero (h : Heap) : Aerogel.kmalloc T h 0 = .ok (0, h) := rfl

/-- A successful `kmalloc` hands out a new block, large enough for the rounded request, and keeps the
live payloads. -/
theorem kmalloc (h : HeapInv T A s bs) (hsafe : A.SplitSafe) {n p : Nat} {h' : Heap}
    (hrun : Aerogel.kmalloc T s.heap n = .ok (p, h')) :
    ∃ bs', HeapInv T A ⟨h', gain s.live p⟩ bs' ∧ (n ≠ 0 → p ≠ 0) ∧
      (p ≠ 0 → request T n ≤ payload T h'.mem p) ∧
      ∀ q ∈ s.live, q ≠ p ∧ KeepsPayload T s.heap.mem h'.mem q := by
  by_cases hn0 : n = 0
  · subst hn0
    cases hrun
    exact ⟨bs, ⟨h.laid, h.merged, h.live_iff⟩, fun hn => absurd rfl hn, fun h0 => absurd rfl h0,
      fun q hq => ⟨fun h0 => h.zero_notMem (h0 ▸ hq), .refl _ q⟩⟩
  obtain ⟨l, b, r, rfl, hfit, -, rfl, hinv, -, hframe⟩ := h.kmalloc_carves hsafe hn0 hrun
  have hp0 : b.addr + hdrBytes T ≠ 0 := by have := hdrBytes_pos T; omega
  refine ⟨_, hinv, fun _ => hp0, fun _ => ?_, fun q hq => ?_⟩
  · have hmem : carved (hdrBytes T) minSplit (request T n) b ∈
        l ++ (carve (hdrBytes T) minSplit (request T n) b ++ r) :=
      ((mem_carve_used hfit.1).mpr (Or.inl rfl)).1
    exact le_of_le_of_eq (le_carved_size hfit.2) (hinv.payload_eq hmem).symm
  · obtain ⟨c, hc, hu, rfl⟩ := (h.live_iff _).mp hq
    refine ⟨fun heq => ?_, ?_⟩
    -- a live block is used, the one that was found is free
    · have hcb : c = b := h.laid.tiled.eq_of_addr_eq (hdrBytes_pos T) hc (by simp) (by omega)
      rw [hcb, hfit.1] at hu
      cases hu
    · exact h.keeps hinv hframe hc ((mem_carve_used hfit.1).mpr (Or.inr ⟨hc, hu⟩)).1

/-- The blocks besides a given one. -/
theorem mem_rest_iff (h : HeapInv T A s (l ++ b :: r)) {c : Block} :
    c ∈ l ∨ c ∈ r ↔ c ∈ l ++ b :: r ∧ c ≠ b := by
  have hnot : b ∉ l ∧ b ∉ r := by
    obtain ⟨-, hbr, hl⟩ := List.pairwise_append.mp h.laid.tiled.spread
    have hpos := hdrBytes_pos T
    refine ⟨fun hb => ?_, fun hb => ?_⟩
    · have := hl b hb b (by simp); omega
    · have := List.rel_of_pairwise_cons hbr hb; omega
  rw [List.mem_append, List.mem_cons]
  constructor
  · rintro (hc | hc)
    · exact ⟨Or.inl hc, fun heq => hnot.1 (heq ▸ hc)⟩
    · exact ⟨Or.inr (Or.inr hc), fun heq => hnot.2 (heq ▸ hc)⟩
  · rintro ⟨hc | hc | hc, hne⟩
    · exact Or.inl hc
    · exact absurd hc hne
    · exact Or.inr hc

/-- `kfree` of a live pointer returns and releases its block. -/
theorem kfree_releases (h : HeapInv T A s bs) {p : Nat} (hp : p ∈ s.live) :
    ∃ l b r h', bs = l ++ b :: r ∧ b.used = true ∧ p = b.addr + hdrBytes T ∧
      Aerogel.kfree T s.heap p = .ok h' ∧
      HeapInv T A ⟨h', s.live.erase p⟩ (releaseAt (hdrBytes T) l b r) ∧
      h'.heapUsed = wsub T.wordBits s.heap.heapUsed b.size ∧
      ∀ x, ¬ InHeaders T bs x → h'.mem x = s.heap.mem x := by
  obtain ⟨l, b, r, rfl, hused, rfl, -⟩ := h.block_of_live hp
  obtain ⟨h', hrun, hlaid, hheapUsed, hframe⟩ := kfree_spec h.laid hused
  refine ⟨l, b, r, h', rfl, hused, rfl, hrun, ⟨hlaid, h.merged.releaseAt, fun q => ?_⟩, hheapUsed,
    hframe⟩
  -- pointers determine blocks, so taking `b` out takes out one pointer
  rw [Finset.mem_erase, h.live_iff]
  constructor
  · rintro ⟨hne, c, hc, hu, rfl⟩
    have hcb : c ≠ b := fun heq => hne (by rw [heq])
    exact ⟨c, (mem_releaseAt_used.mpr ⟨h.mem_rest_iff.mpr ⟨hc, hcb⟩, hu⟩).1, hu, rfl⟩
  · rintro ⟨c, hc, hu, rfl⟩
    obtain ⟨hmem, hcb⟩ := h.mem_rest_iff.mp (mem_releaseAt_used.mp ⟨hc, hu⟩).1
    refine ⟨fun heq => hcb ?_, c, hmem, hu, rfl⟩
    exact h.laid.tiled.eq_of_addr_eq (hdrBytes_pos T) hmem (by simp) (by omega)

/-- `kfree` of a live pointer returns, takes it out of the live ones and keeps the other payloads. -/
theorem kfree (h : HeapInv T A s bs) {p : Nat} (hp : p ∈ s.live) :
    ∃ h' bs', Aerogel.kfree T s.heap p = .ok h' ∧ HeapInv T A ⟨h', s.live.erase p⟩ bs' ∧
      ∀ q ∈ s.live, q ≠ p → KeepsPayload T s.heap.mem h'.mem q := by
  obtain ⟨l, b, r, h', rfl, hused, rfl, hrun, hinv, -, hframe⟩ := h.kfree_releases hp
  refine ⟨h', _, hrun, hinv, fun q hq hne => ?_⟩
  obtain ⟨c, hc, hu, rfl⟩ := (h.live_iff _).mp hq
  have hcb : c ≠ b := fun heq => hne (by rw [heq])
  exact h.keeps hinv (fun x hx _ => hframe x hx) hc
    (mem_releaseAt_used.mpr ⟨h.mem_rest_iff.mpr ⟨hc, hcb⟩, hu⟩).1

/-- The freshly initialised heap. -/
theorem boot (A : Arena T) (m : Mem) : HeapInv T A (heapBoot T A m) [A.whole] := by
  refine ⟨heapInit_spec A m, .singleton _, fun p => ?_⟩
  simp [heapBoot, Arena.whole]

/-- A null `kfree` changes nothing. -/
theorem kfree_null (h : Heap) : Aerogel.kfree T h 0 = .ok h := rfl

/-- What `krealloc` does with a live pointer and a request other than 0, when `kmalloc` is not to
blame: it returns the pointer if its block is large enough, and moves the payload otherwise. -/
theorem krealloc_eq (h : HeapInv T A s bs) {p n : Nat} (hp : p ∈ s.live) (hn0 : n ≠ 0) :
    Aerogel.krealloc T s.heap p n =
      if n ≤ payload T s.heap.mem p then .ok (p, s.heap)
      else do
        let (nb, h₁) ← Aerogel.kmalloc T s.heap n
        let h₂ ← Aerogel.kfree T { h₁ with
          mem := memcpy h₁.mem nb p (payload T h₁.mem p) } p
        return (nb, h₂) := by
  obtain ⟨l, b, r, rfl, hused, rfl, hsize⟩ := h.block_of_live hp
  have hhdr := h.laid.rep.hdr b (by simp)
  have hbounds := h.laid.bounds (b := b) (by simp)
  have hp0 : b.addr + hdrBytes T ≠ 0 := by have := hdrBytes_pos T; omega
  have hsub : wsub T.wordBits (b.addr + hdrBytes T) (hdrBytes T) = b.addr := by
    rw [wsub_of_le (by omega) (by omega), Nat.add_sub_cancel]
  simp only [Aerogel.krealloc, if_neg hp0, if_neg hn0, hsub, hhdr.magic, ne_eq, not_true_eq_false,
    if_false, payload, Nat.add_sub_cancel]
  rfl

/-- A successful `krealloc` of a live pointer to a size other than 0: either nothing happens, or a new
block is allocated, the payload copied and the old block freed. -/
theorem krealloc_cases (h : HeapInv T A s bs) {p n q : Nat} {h' : Heap} (hp : p ∈ s.live)
    (hn0 : n ≠ 0) (hrun : Aerogel.krealloc T s.heap p n = .ok (q, h')) :
    (n ≤ payload T s.heap.mem p ∧ q = p ∧ h' = s.heap) ∨
      (payload T s.heap.mem p < n ∧ ∃ h₁, Aerogel.kmalloc T s.heap n = .ok (q, h₁) ∧
        Aerogel.kfree T { h₁ with mem := memcpy h₁.mem q p (payload T h₁.mem p) } p = .ok h') := by
  rw [h.krealloc_eq hp hn0] at hrun
  by_cases hfit : n ≤ payload T s.heap.mem p
  · rw [if_pos hfit] at hrun
    cases hrun
    exact Or.inl ⟨hfit, rfl, rfl⟩
  rw [if_neg hfit] at hrun
  obtain ⟨⟨nb, h₁⟩, hmalloc, hrest⟩ := bind_eq_ok.mp hrun
  obtain ⟨h₂, hfree, hres⟩ := bind_eq_ok.mp hrest
  cases hres
  exact Or.inr ⟨by omega, h₁, hmalloc, hfree⟩

/-- When `krealloc` moves a payload, its copy stays inside the new one. -/
theorem krealloc_copy (h : HeapInv T A s bs) (hsafe : A.SplitSafe) {p n nb : Nat} {h₁ : Heap}
    (hp : p ∈ s.live) (hn : n + 7 < 2 ^ T.wordBits) (hgrow : payload T s.heap.mem p < n)
    (hrun : Aerogel.kmalloc T s.heap n = .ok (nb, h₁)) {x : Nat}
    (hx : x < nb ∨ nb + payload T h₁.mem nb ≤ x) :
    memcpy h₁.mem nb p (payload T h₁.mem p) x = h₁.mem x := by
  obtain ⟨-, -, hres, hroom, hold⟩ := h.kmalloc hsafe hrun
  have hle := (le_request hn).trans (hroom (hres (by omega)))
  rw [(hold p hp).2.size]
  exact memcpy_apply_of_outside _ (by omega)

/-- `krealloc` of a live or null pointer to a size other than 0: the result is live and large enough,
starts with the old bytes, and the other payloads are kept. -/
theorem krealloc (h : HeapInv T A s bs) (hsafe : A.SplitSafe) {p n q : Nat} {h' : Heap}
    (hp : p = 0 ∨ p ∈ s.live) (hn0 : n ≠ 0) (hn : n + 7 < 2 ^ T.wordBits)
    (hrun : Aerogel.krealloc T s.heap p n = .ok (q, h')) :
    ∃ bs', HeapInv T A ⟨h', gain (s.live.erase p) q⟩ bs' ∧ q ≠ 0 ∧ n ≤ payload T h'.mem q ∧
      (q = p ∨ q ∉ s.live) ∧
      (p ≠ 0 → ∀ i, i < payload T s.heap.mem p → i < n → h'.mem (q + i) = s.heap.mem (p + i)) ∧
      ∀ r ∈ s.live, r ≠ p → r ≠ q ∧ KeepsPayload T s.heap.mem h'.mem r := by
  by_cases hp0 : p = 0
  · -- a null pointer is never live: this is `kmalloc`
    subst hp0
    rw [Finset.erase_eq_of_notMem h.zero_notMem]
    obtain ⟨bs', hinv, hres, hroom, hold⟩ := h.kmalloc hsafe hrun
    exact ⟨bs', hinv, hres hn0, (le_request hn).trans (hroom (hres hn0)),
      Or.inr fun hq => (hold q hq).1 rfl, fun h0 => absurd rfl h0, fun r hr _ => hold r hr⟩
  have hlive := hp.resolve_left hp0
  rcases h.krealloc_cases hlive hn0 hrun with ⟨hfit, rfl, rfl⟩ | ⟨hgrow, h₁, hmalloc, hfree⟩
  · -- large enough already: the same pointer is returned
    refine ⟨bs, ?_, hp0, hfit, Or.inl rfl, fun _ _ _ _ => rfl, fun r _ hne => ⟨hne, .refl _ r⟩⟩
    rw [gain, if_neg hp0, Finset.insert_erase hlive]
    exact h
  obtain ⟨bs₁, hinv₁, hres, hroom, hold⟩ := h.kmalloc hsafe hmalloc
  have hnb0 : q ≠ 0 := hres hn0
  have hlive₁ : ∀ x, x ∈ gain s.live q ↔ x = q ∨ x ∈ s.live := by
    intro x; rw [gain, if_neg hnb0, Finset.mem_insert]
  have hnb := (hlive₁ q).mpr (Or.inl rfl)
  have hp₁ := (hlive₁ p).mpr (Or.inr hlive)
  -- the old block is still live with its size, so the copy stays inside the new payload
  obtain ⟨hne, hkeep⟩ := hold p hlive
  have hle : n ≤ payload T h₁.mem q := (le_request hn).trans (hroom hnb0)
  have hframe := fun x => h.krealloc_copy hsafe hlive hn hgrow hmalloc (x := x)
  have hinv₂ := hinv₁.of_payload_write hnb hframe
  obtain ⟨h₂, bs', hfree', hinv₃, hfreed⟩ := hinv₂.kfree hp₁
  obtain rfl : h₂ = h' := Except.ok.inj (hfree'.symm.trans hfree)
  have hlive' : gain (s.live.erase p) q = (gain s.live q).erase p := by
    rw [gain, gain, if_neg hnb0, if_neg hnb0, Finset.erase_insert_of_ne hne.symm]
  -- the new payload is kept by `kfree`, and it holds what was copied
  have hkeepq := hfreed q hnb hne.symm
  have hsizeq : payload T (memcpy h₁.mem q p (payload T h₁.mem p)) q = payload T h₁.mem q :=
    hinv₁.payload_of_write hnb hnb hframe
  refine ⟨bs', ?_, hnb0, ?_, Or.inr fun hq => (hold q hq).1 rfl, fun _ i hi hin => ?_,
    fun r hr hrp => ?_⟩
  · rw [hlive']
    exact hinv₃
  · rw [hkeepq.size, hsizeq]
    exact hle
  · have hdisj : q + payload T h₁.mem q ≤ p ∨ p + payload T h₁.mem p ≤ q :=
      hinv₁.disjoint hnb hp₁ (Ne.symm hne)
    have hbyte := hkeepq.bytes (q + i) (by omega) (by rw [hsizeq]; omega)
    have hcopy : memcpy h₁.mem q p (payload T h₁.mem p) (q + i) = h₁.mem (p + i) :=
      memcpy_apply_of_disjoint h₁.mem (by rw [hkeep.size] at hdisj ⊢; omega)
        (by rw [hkeep.size]; exact hi)
    exact hbyte.trans (hcopy.trans (hkeep.bytes (p + i) (by omega) (by omega)))
  · obtain ⟨hrq, hkeepr⟩ := hold r hr
    have hr₁ := (hlive₁ r).mpr (Or.inr hr)
    exact ⟨hrq, (hkeepr.trans (hinv₁.keeps_of_payload_write hnb hr₁ hrq hframe)).trans
      (hfreed r hr₁ hrp)⟩

/-- A successful `kcalloc` is a `kmalloc` whose payload is cleared unless it is null. -/
theorem kcalloc_cases {h h' : Heap} {n k p : Nat} (hrun : Aerogel.kcalloc T h n k = .ok (p, h')) :
    ∃ h₁, Aerogel.kmalloc T h (n * k % 2 ^ T.wordBits) = .ok (p, h₁) ∧
      ((p = 0 ∧ h' = h₁) ∨
        (p ≠ 0 ∧ h' = { h₁ with mem := memset h₁.mem p 0 (n * k % 2 ^ T.wordBits) })) := by
  obtain ⟨⟨q, h₁⟩, hmalloc, hres⟩ := bind_eq_ok.mp hrun
  dsimp only at hres
  by_cases hq : q = 0
  · rw [if_neg (not_not.mpr hq)] at hres
    cases hres
    exact ⟨_, hmalloc, Or.inl ⟨hq, rfl⟩⟩
  · rw [if_pos hq] at hres
    cases hres
    exact ⟨h₁, hmalloc, Or.inr ⟨hq, rfl⟩⟩

/-- What `kcalloc` clears is inside the new payload. -/
theorem kcalloc_clear (h : HeapInv T A s bs) (hsafe : A.SplitSafe) {n p : Nat} {h₁ : Heap}
    (hn : n + 7 < 2 ^ T.wordBits) (hp0 : p ≠ 0) (hrun : Aerogel.kmalloc T s.heap n = .ok (p, h₁))
    {x : Nat} (hx : x < p ∨ p + payload T h₁.mem p ≤ x) : memset h₁.mem p 0 n x = h₁.mem x := by
  obtain ⟨-, -, -, hroom, -⟩ := h.kmalloc hsafe hrun
  have hle := (le_request hn).trans (hroom hp0)
  rw [memset_apply, if_neg (by omega)]

/-- `kmalloc` makes at most one move. -/
theorem kmalloc_moves (h : HeapInv T A s bs) (hsafe : A.SplitSafe) {n p : Nat} {h' : Heap}
    (hrun : Aerogel.kmalloc T s.heap n = .ok (p, h')) :
    ∃ bs', HeapInv T A ⟨h', gain s.live p⟩ bs' ∧ BlockMoves T bs bs' := by
  by_cases hn0 : n = 0
  · subst hn0
    rw [kmalloc_zero] at hrun
    cases hrun
    exact ⟨bs, h, .refl⟩
  · obtain ⟨l, b, r, rfl, hfit, -, -, hinv, -, -⟩ := h.kmalloc_carves hsafe hn0 hrun
    exact ⟨_, hinv, .single (.carve hfit)⟩

/-- `kfree` of a live pointer makes one move. -/
theorem kfree_moves (h : HeapInv T A s bs) {p : Nat} {h' : Heap} (hp : p ∈ s.live)
    (hrun : Aerogel.kfree T s.heap p = .ok h') :
    ∃ bs', HeapInv T A ⟨h', s.live.erase p⟩ bs' ∧ BlockMoves T bs bs' := by
  obtain ⟨l, b, r, h'', rfl, hused, -, hfree, hinv, -, -⟩ := h.kfree_releases hp
  obtain rfl : h'' = h' := Except.ok.inj (hfree.symm.trans hrun)
  exact ⟨_, hinv, .single (.release hused)⟩

/-- `kcalloc` moves as its `kmalloc`. -/
theorem kcalloc_moves (h : HeapInv T A s bs) (hsafe : A.SplitSafe) {n k p : Nat} {h' : Heap}
    (hn : n * k % 2 ^ T.wordBits + 7 < 2 ^ T.wordBits)
    (hrun : Aerogel.kcalloc T s.heap n k = .ok (p, h')) :
    ∃ bs', HeapInv T A ⟨h', gain s.live p⟩ bs' ∧ BlockMoves T bs bs' := by
  obtain ⟨h₁, hmalloc, hres⟩ := kcalloc_cases hrun
  obtain ⟨bs', hinv, hmoves⟩ := h.kmalloc_moves hsafe hmalloc
  rcases hres with ⟨-, rfl⟩ | ⟨hp0, rfl⟩
  · exact ⟨bs', hinv, hmoves⟩
  · refine ⟨bs', hinv.of_payload_write (p := p) ?_ fun x => h.kcalloc_clear hsafe hn hp0 hmalloc, hmoves⟩
    simp only [gain, if_neg hp0, Finset.mem_insert, true_or]

/-- `krealloc` moves as its `kmalloc` and its `kfree`. -/
theorem krealloc_moves (h : HeapInv T A s bs) (hsafe : A.SplitSafe) {p n q : Nat} {h' : Heap}
    (hp : p = 0 ∨ p ∈ s.live) (hn : n + 7 < 2 ^ T.wordBits)
    (hrun : Aerogel.krealloc T s.heap p n = .ok (q, h')) :
    ∃ bs', HeapInv T A ⟨h', gain (s.live.erase p) q⟩ bs' ∧ BlockMoves T bs bs' := by
  by_cases hp0 : p = 0
  · subst hp0
    rw [Finset.erase_eq_of_notMem h.zero_notMem]
    exact h.kmalloc_moves hsafe hrun
  have hlive := hp.resolve_left hp0
  by_cases hn0 : n = 0
  · subst hn0
    simp only [Aerogel.krealloc, if_neg hp0, if_true] at hrun
    obtain ⟨h₁, hfree, hres⟩ := bind_eq_ok.mp hrun
    cases hres
    exact h.kfree_moves hlive hfree
  rcases h.krealloc_cases hlive hn0 hrun with ⟨-, rfl, rfl⟩ | ⟨hgrow, h₁, hmalloc, hfree⟩
  · refine ⟨bs, ?_, .refl⟩
    rw [gain, if_neg hp0, Finset.insert_erase hlive]
    exact h
  obtain ⟨-, -, hres, -, hold⟩ := h.kmalloc hsafe hmalloc
  have hq0 := hres hn0
  have hlive₁ : ∀ x, x ∈ gain s.live q ↔ x = q ∨ x ∈ s.live := by
    intro x
    rw [gain, if_neg hq0, Finset.mem_insert]
  -- the new block is carved, the copy stays inside it, the old block is released
  obtain ⟨bs₁, hinv₁, hmoves₁⟩ := h.kmalloc_moves hsafe hmalloc
  have hinv₂ := hinv₁.of_payload_write ((hlive₁ q).mpr (Or.inl rfl))
    fun x => h.krealloc_copy hsafe hlive hn hgrow hmalloc
  obtain ⟨bs', hinv₃, hmoves₂⟩ := hinv₂.kfree_moves ((hlive₁ p).mpr (Or.inr hlive)) hfree
  refine ⟨bs', ?_, hmoves₁.trans hmoves₂⟩
  rw [gain, if_neg hq0, ← Finset.erase_insert_of_ne (hold p hlive).1.symm]
  rwa [gain, if_neg hq0] at hinv₃

/-- Every step of a run moves the block list. -/
theorem step_moves (hsafe : A.SplitSafe) {s' : HeapRun} {op : HeapOp} (h : HeapInv T A s bs)
    (hstep : HeapStep T s op s') : ∃ bs', HeapInv T A s' bs' ∧ BlockMoves T bs bs' := by
  obtain ⟨hallow, hexec⟩ := hstep
  cases op with
  | kmalloc n =>
      obtain ⟨res, hrun, hres⟩ := bind_eq_ok.mp hexec
      cases hres
      exact h.kmalloc_moves hsafe hrun
  | kcalloc n k =>
      obtain ⟨res, hrun, hres⟩ := bind_eq_ok.mp hexec
      cases hres
      exact h.kcalloc_moves hsafe hallow hrun
  | krealloc p n =>
      obtain ⟨res, hrun, hres⟩ := bind_eq_ok.mp hexec
      cases hres
      exact h.krealloc_moves hsafe hallow.1 hallow.2 hrun
  | kfree p =>
      obtain ⟨h', hrun, hres⟩ := bind_eq_ok.mp hexec
      cases hres
      rcases hallow with rfl | hp
      · rw [kfree_null] at hrun
        cases hrun
        rw [Finset.erase_eq_of_notMem h.zero_notMem]
        exact ⟨bs, h, .refl⟩
      · exact h.kfree_moves hp hrun
  | write a v =>
      obtain ⟨p, hp, h₁, h₂⟩ := hallow
      cases hexec
      exact ⟨bs, h.of_payload_write hp fun x hx => Function.update_of_ne (by omega) _ _, .refl⟩

/-- Every step of a run keeps the invariant. -/
theorem step (hsafe : A.SplitSafe) {s' : HeapRun} {op : HeapOp} (h : HeapInv T A s bs)
    (hstep : HeapStep T s op s') : ∃ bs', HeapInv T A s' bs' := by
  obtain ⟨bs', hinv, -⟩ := h.step_moves hsafe hstep
  exact ⟨bs', hinv⟩

end HeapInv

/-! ## From the block list to the walk -/

/-- A walk is determined by where it starts. -/
theorem Visits.unique {m : Mem} {b : Nat} {as as' : List Nat} (h : Visits T m b as)
    (h' : Visits T m b as') : as = as' := by
  induction as generalizing b as' with
  | nil =>
      cases as' with
      | nil => rfl
      | cons a as' => exact absurd (h'.1.symm.trans h) h'.2.1
  | cons a as ih =>
      cases as' with
      | nil => exact absurd (h.1.symm.trans h') h.2.1
      | cons c as' =>
          obtain rfl : a = c := h.1.symm.trans h'.1
          rw [ih h.2.2 h'.2.2]

/-- Walking a linked stretch that ends in null visits its blocks. -/
theorem visits_of_linked {m : Mem} {head : Nat} {p : Option Nat}
    (hhead : nullable head = (bs.map Block.addr).head?)
    (hlinks : DSeg (nextOf T m) (prevOf T m) p (bs.map Block.addr) none) :
    Visits T m head (bs.map Block.addr) := by
  induction bs generalizing head p with
  | nil => exact nullable_eq_none.mp hhead
  | cons b bs ih =>
      obtain ⟨rfl, hne⟩ := nullable_eq_some.mp hhead
      refine ⟨rfl, hne, ih ?_ hlinks.2.2⟩
      simpa [firstOr, nextOf] using hlinks.2.1

/-- Walking a represented heap visits its blocks. -/
theorem HeapRep.visits {m : Mem} {head : Nat} (h : HeapRep T m head bs) :
    Visits T m head (bs.map Block.addr) :=
  visits_of_linked h.head_eq h.links

/-- Neighbours of a represented heap are linked to each other. -/
theorem HeapRep.isChain_links {m : Mem} {head : Nat} (h : HeapRep T m head bs) :
    (bs.map Block.addr).IsChain fun a b => hdrGet T m a .next = b ∧ hdrGet T m b .prev = a :=
  h.links.isChain.imp fun _ _ hab => ⟨(nullable_eq_some.mp hab.1).1, (nullable_eq_some.mp hab.2).1⟩

/-- The inductive invariant is what a walk sees. -/
theorem HeapInv.wellFormed (h : HeapInv T A s bs) : HeapWellFormed T A s := by
  have hH := hdrBytes_pos T
  have hrep := h.laid.rep
  have htiled := h.laid.tiled
  have hA := A.hdr_le
  refine ⟨bs.map Block.addr, hrep.visits, ⟨?_, ?_, ?_, ?_, ?_, hrep.isChain_links, ?_, ?_⟩,
    ⟨?_, ?_, ?_⟩⟩
  · cases bs with
    | nil => simp only [Tiled.nil_iff] at htiled; omega
    | cons b bs => simp only [List.map_cons, List.head?_cons, htiled.1]
  · rw [List.pairwise_map]
    exact htiled.pairwise.imp fun hxy => by omega
  · rw [List.isChain_map]
    refine htiled.isChain.imp_of_mem_imp fun x y hx _ hxy => ?_
    rw [(hrep.hdr x hx).size]
    exact hxy
  · intro a ha
    rw [List.getLast?_map, Option.map_eq_some_iff] at ha
    obtain ⟨b, hb, rfl⟩ := ha
    rw [(hrep.hdr b (List.mem_of_mem_getLast? hb)).size]
    exact htiled.getLast_stop hb
  · intro a ha
    cases bs with
    | nil => cases ha
    | cons b bs => cases ha; exact nullable_eq_none.mp hrep.links.1
  · intro a ha
    obtain ⟨b, hb, rfl⟩ := List.mem_map.mp ha
    exact (hrep.hdr b hb).magic
  · rw [List.isChain_map]
    refine List.IsChain.imp_of_mem_imp (fun x y hx hy hxy => ?_) h.merged
    rw [(hrep.hdr x hx).used, (hrep.hdr y hy).used, Bool.toNat_eq_zero, Bool.toNat_eq_zero]
    rintro ⟨h₁, h₂⟩
    rw [h₁, h₂] at hxy
    exact absurd hxy (by decide)
  · intro p hp
    obtain ⟨l, b, r, rfl, -, rfl, hsize⟩ := h.block_of_live hp
    have := h.laid.bounds (b := b) (by simp)
    rw [hsize]
    omega
  · intro p hp a ha
    obtain ⟨l, b, r, rfl, -, rfl, hsize⟩ := h.block_of_live hp
    obtain ⟨c, hc, rfl⟩ := List.mem_map.mp ha
    rw [hsize]
    by_cases hcb : c = b
    · subst hcb; exact Or.inl le_rfl
    · have := htiled.disjoint_of_ne hc (show b ∈ l ++ b :: r by simp) hcb
      omega
  · exact fun p hp q hq hpq => h.disjoint hp hq hpq

/-! ## Where the guard of `split` wraps around -/

/-- The request that uses up an arena to the last multiple of 8. -/
def Arena.wholeRequest (A : Arena T) : Nat := (A.size - hdrBytes T) / 8 * 8

/-- The only block of a fresh heap is found by every request that fits. -/
theorem findFree_heapInit (A : Arena T) (m : Mem) {n : Nat} (hfit : n ≤ A.size - hdrBytes T) :
    findFree T (heapInit T m A.start A.size).mem n walkFuel
      (heapInit T m A.start A.size).heapHead = .ok A.start := by
  have hlaid := heapInit_spec A m
  rcases findFree_spec n hlaid.rep hlaid.length_lt with ⟨-, hnone⟩ | ⟨l, b, r, heq, -, -, hrun⟩
  · exact absurd ⟨rfl, hfit⟩ (hnone A.whole (List.mem_singleton_self _))
  · cases l with
    | nil =>
        cases heq
        exact hrun
    | cons x l => simp at heq

/-- The request that uses up the arena fits. -/
theorem findFree_wholeRequest (A : Arena .x86) (m : Mem) :
    findFree .x86 (heapInit .x86 m A.start A.size).mem A.wholeRequest walkFuel
      (heapInit .x86 m A.start A.size).heapHead = .ok A.start :=
  findFree_heapInit A m (show (A.size - 20) / 8 * 8 ≤ A.size - 20 by omega)

/-- In a wide arena `split` goes past its guard, and the size of the new block borrows. -/
theorem heapRep_split_wholeRequest (A : Arena .x86) (m : Mem) (hwide : 2 ^ 32 - 28 ≤ A.size) :
    HeapRep .x86 (hdrSet .x86 (split .x86 (heapInit .x86 m A.start A.size).mem A.start A.wholeRequest)
      A.start .used 1) (heapInit .x86 m A.start A.size).heapHead
      [⟨A.start, A.wholeRequest, true⟩,
       ⟨A.start + 20 + A.wholeRequest, A.size - 20 - A.wholeRequest + 2 ^ 32 - 20, false⟩] := by
  have hpos := A.start_pos
  have hsz := A.size_lt
  have hstop : A.start + A.size < 2 ^ 32 := A.stop_lt
  have hH : hdrBytes .x86 = 20 := rfl
  have hslack : minSplit = 32 := rfl
  have hlaid := heapInit_spec A m
  have hreq : A.wholeRequest = (A.size - 20) / 8 * 8 := rfl
  generalize A.wholeRequest = n at hreq ⊢
  have hs : Spread .x86 ([] ++ [A.whole]) := List.pairwise_singleton _ _
  have hmod : (A.whole.addr + hdrBytes .x86 + n) % 2 ^ Target.x86.wordBits = A.start + 20 + n := by
    simp only [Arena.whole, Target.wordBits, hH]
    exact Nat.mod_eq_of_lt (by omega)
  have hguard : ¬ A.whole.size < (n + hdrBytes .x86 + minSplit) % 2 ^ Target.x86.wordBits := by
    simp only [Arena.whole, Target.wordBits, hH, hslack]
    omega
  have hsplit := HeapRep.split (l := []) (r := []) hlaid.rep hs (hlaid.addr_lt (by simp)) hmod
    (by omega) (by
      intro x hx
      obtain rfl : x = A.whole := by simpa using hx
      exact Or.inr (by simp only [Arena.whole, hH]; omega)) hguard
  have hsize : wsub Target.x86.wordBits (wsub Target.x86.wordBits A.whole.size n) (hdrBytes .x86)
      % 2 ^ 32 = A.size - 20 - n + 2 ^ 32 - 20 := by
    simp only [Arena.whole, Target.wordBits, hH]
    rw [wsub_of_le (a := A.size - 20) (b := n) (by omega) (by omega),
      wsub_of_lt (a := A.size - 20 - n) (b := 20) (by omega) (by omega),
      Nat.mod_eq_of_lt (by omega)]
  rw [hsize, Nat.mod_eq_of_lt (show n < 2 ^ 32 by omega)] at hsplit
  refine HeapRep.setUsed (l := []) (b := ⟨A.start, n, A.whole.used⟩) hsplit ?_ true
  refine List.pairwise_pair.mpr ?_
  simp only [hH]
  omega

/-- The step lemma's converse: on x86, in an arena that is not split-safe, allocating the whole
arena makes the guard of `split` wrap. The block is split although nothing is left, and the new
header claims almost 4 GiB behind the end of the arena. -/
theorem not_wellFormed_of_wrap (A : Arena .x86) (m : Mem) (hwide : 2 ^ 32 - 28 ≤ A.size) :
    ∃ s, HeapStep .x86 (heapBoot .x86 A m) (.kmalloc A.wholeRequest) s ∧
      ¬ HeapWellFormed .x86 A s := by
  have hpos := A.start_pos
  have hstop : A.start + A.size < 2 ^ 32 := A.stop_lt
  have hH : hdrBytes .x86 = 20 := rfl
  have hrep := heapRep_split_wholeRequest A m hwide
  have hfind := findFree_wholeRequest A m
  have hreq : A.wholeRequest = (A.size - 20) / 8 * 8 := rfl
  generalize A.wholeRequest = n at hrep hfind hreq ⊢
  have hround : roundUp8 n = n := by
    unfold roundUp8
    omega
  have hnw : n + 7 < 2 ^ Target.x86.wordBits := by
    simp only [Target.wordBits]
    omega
  set h₀ := heapInit .x86 m A.start A.size with hh₀
  refine ⟨⟨{ h₀ with
    mem := hdrSet .x86 (split .x86 h₀.mem A.start n) A.start .used 1
    heapUsed := (h₀.heapUsed + n) % 2 ^ Target.x86.wordBits }, gain ∅ (A.start + 20)⟩, ?_, ?_⟩
  · refine ⟨hnw, ?_⟩
    have hne : A.start ≠ 0 := by omega
    have hn0 : n ≠ 0 := by omega
    simp only [HeapOp.exec, heapBoot, ← hh₀, kmalloc, if_neg hn0, alignUp_eq_roundUp8 hnw, hround,
      hfind, bind, Except.bind, if_neg hne, pure, Except.pure, hH]
    rw [Nat.mod_eq_of_lt (show A.start + 20 < 2 ^ Target.x86.wordBits by
      simp only [Target.wordBits]; omega)]
  · rintro ⟨addrs, hvisits, hlist, -⟩
    -- a walk sees the new header last, and it does not end at the end of the arena
    have haddrs := hvisits.unique hrep.visits
    have hlast := hlist.last (A.start + 20 + n) (by rw [haddrs]; rfl)
    have hsize := (hrep.hdr ⟨A.start + 20 + n, A.size - 20 - n + 2 ^ 32 - 20, false⟩ (by simp)).size
    simp only [hH] at hlast
    rw [hsize] at hlast
    omega

/-- An arena of almost 4 GiB, as large as a 32-bit target can address. -/
def wideArena : Arena .x86 where
  start := 8
  size := 0xFFFFFFF0
  start_pos := by decide
  hdr_le := by decide
  size_lt := by decide
  stop_lt := by decide

end Aerogel
