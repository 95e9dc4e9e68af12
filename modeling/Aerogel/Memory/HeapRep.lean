import Aerogel.Memory.Heap

/-! # The heap's memory represents a block list

`HeapRep T m head bs` says that the headers found in memory from `head` on are those of the blocks
`bs`, in order and linked both ways. Each pointer operation of `heap.c` is matched with the list
operation it performs: `find_free` with a search, `split` with inserting a block, one merge of
`coalesce` with `join`, the whole of `coalesce` with `releaseAt`. -/

namespace Aerogel

variable {T : Target} {m m' : Mem} {head : Nat} {l r bs : List Block} {b c : Block}

/-- A pointer as an optional address. -/
def nullable (a : Nat) : Option Nat := if a = 0 then none else some a

@[simp] theorem nullable_zero : nullable 0 = none := rfl

theorem nullable_of_ne {a : Nat} (h : a ≠ 0) : nullable a = some a := if_neg h

theorem nullable_eq_some {a x : Nat} : nullable a = some x ↔ a = x ∧ a ≠ 0 := by
  unfold nullable
  split <;> simp_all

theorem nullable_eq_none {a : Nat} : nullable a = none ↔ a = 0 := by
  unfold nullable
  split <;> simp_all

/-- The forward link of the header at `a`. -/
def nextOf (T : Target) (m : Mem) (a : Nat) : Option Nat := nullable (hdrGet T m a .next)

/-- The backward link of the header at `a`. -/
def prevOf (T : Target) (m : Mem) (a : Nat) : Option Nat := nullable (hdrGet T m a .prev)

/-- The data fields of the header at `b.addr` are those of block `b`. -/
structure HdrOf (T : Target) (m : Mem) (b : Block) : Prop where
  /-- Every header carries the magic number. -/
  magic : hdrGet T m b.addr .magic = heapMagic
  /-- The size field. -/
  size : hdrGet T m b.addr .size = b.size
  /-- The used flag. -/
  used : hdrGet T m b.addr .used = b.used.toNat

/-- Memory holds the block list `bs`, starting at `head`. -/
structure HeapRep (T : Target) (m : Mem) (head : Nat) (bs : List Block) : Prop where
  /-- The walk starts at the first block. -/
  head_eq : nullable head = (bs.map Block.addr).head?
  /-- The headers are linked both ways in list order. -/
  links : DSeg (nextOf T m) (prevOf T m) none (bs.map Block.addr) none
  /-- Every header holds its block's data. -/
  hdr : ∀ b ∈ bs, HdrOf T m b

/-- Later headers start after earlier ones have ended. -/
def Spread (T : Target) (bs : List Block) : Prop :=
  bs.Pairwise fun x y => x.addr + hdrBytes T ≤ y.addr

theorem Tiled.spread {a z : Nat} (h : Tiled (hdrBytes T) a bs z) : Spread T bs :=
  h.pairwise.imp fun hxy => by omega

/-- The bytes that the headers of a block list occupy. -/
def InHeaders (T : Target) (bs : List Block) (x : Nat) : Prop :=
  ∃ b ∈ bs, b.addr ≤ x ∧ x < b.addr + hdrBytes T

/-- A byte that is in no header is not in the header of a given block. -/
theorem not_inHeaders {x : Nat} (h : ¬ InHeaders T bs x) (hb : b ∈ bs) :
    x < b.addr ∨ b.addr + hdrBytes T ≤ x := by
  by_contra hin
  exact h ⟨b, hb, by omega, by omega⟩

/-- Headers stay where they are when a block is marked. -/
theorem InHeaders.of_withUsed {u : Bool} {x : Nat}
    (h : InHeaders T (l ++ { b with used := u } :: r) x) : InHeaders T (l ++ b :: r) x := by
  obtain ⟨d, hd, hx⟩ := h
  rw [List.mem_append, List.mem_cons] at hd
  rcases hd with hd | rfl | hd
  · exact ⟨d, by simp [hd], hx⟩
  · exact ⟨b, by simp, hx⟩
  · exact ⟨d, by simp [hd], hx⟩

/-- Merging makes no new header. -/
theorem InHeaders.of_merged {x : Nat} (h : InHeaders T (l ++ join (hdrBytes T) b c :: r) x) :
    InHeaders T (l ++ b :: c :: r) x := by
  obtain ⟨d, hd, hx⟩ := h
  rw [List.mem_append, List.mem_cons] at hd
  rcases hd with hd | rfl | hd
  · exact ⟨d, by simp [hd], hx⟩
  · exact ⟨b, by simp, hx⟩
  · exact ⟨d, by simp [hd], hx⟩

/-- The payload of a block of a tiling holds no header. -/
theorem Tiled.payload_not_inHeaders {a z x : Nat} (h : Tiled (hdrBytes T) a bs z) (hb : b ∈ bs)
    (h₁ : b.addr + hdrBytes T ≤ x) (h₂ : x < b.addr + hdrBytes T + b.size) :
    ¬ InHeaders T bs x := by
  rintro ⟨c, hc, h₃, h₄⟩
  by_cases hcb : c = b
  · rw [hcb] at h₄
    omega
  · have := h.disjoint_of_ne hc hb hcb
    omega

/-- Blocks before and after a given one have headers apart from its own. -/
theorem Spread.apart (h : Spread T (l ++ b :: r)) :
    (∀ x ∈ l, Apart T x.addr b.addr) ∧ ∀ x ∈ r, Apart T b.addr x.addr := by
  obtain ⟨-, hbr, hl⟩ := List.pairwise_append.mp h
  exact ⟨fun x hx => Or.inl (hl x hx b (by simp)),
    fun x hx => Or.inl (List.rel_of_pairwise_cons hbr hx)⟩

/-- Blocks on the two sides of a cut have headers apart from each other. -/
theorem Spread.apart_append (h : Spread T (l ++ r)) {x y : Block} (hx : x ∈ l) (hy : y ∈ r) :
    Apart T x.addr y.addr :=
  Or.inl ((List.pairwise_append.mp h).2.2 x hx y hy)

theorem HdrOf.congr (h : HdrOf T m b) (heq : ∀ f, hdrGet T m' b.addr f = hdrGet T m b.addr f) :
    HdrOf T m' b :=
  ⟨(heq _).trans h.magic, (heq _).trans h.size, (heq _).trans h.used⟩

/-- A linked stretch whose headers are not disturbed stays linked. -/
theorem linked_keep {p n : Option Nat}
    (h : DSeg (nextOf T m) (prevOf T m) p (l.map Block.addr) n)
    (heq : ∀ x ∈ l, ∀ f, hdrGet T m' x.addr f = hdrGet T m x.addr f) :
    DSeg (nextOf T m') (prevOf T m') p (l.map Block.addr) n := by
  refine DSeg.congr h ?_ ?_
  · intro a ha
    obtain ⟨x, hx, rfl⟩ := List.mem_map.mp ha
    rw [nextOf, nextOf, heq x hx]
  · intro a ha
    obtain ⟨x, hx, rfl⟩ := List.mem_map.mp ha
    rw [prevOf, prevOf, heq x hx]

/-- The representation only depends on the headers. -/
theorem HeapRep.congr (h : HeapRep T m head bs)
    (heq : ∀ b ∈ bs, ∀ f, hdrGet T m' b.addr f = hdrGet T m b.addr f) :
    HeapRep T m' head bs := by
  exact ⟨h.head_eq, linked_keep h.links heq, fun b hb => (h.hdr b hb).congr (heq b hb)⟩

/-- The forward link of a represented block is its successor's address, 0 for the last one. -/
theorem HeapRep.next_eq (h : HeapRep T m head (l ++ b :: r)) :
    nullable (hdrGet T m b.addr .next) = (r.map Block.addr).head? := by
  have hl := h.links
  rw [List.map_append, List.map_cons] at hl
  have := hl.next_eq
  simpa [firstOr, nextOf] using this

/-- The backward link of a represented block is its predecessor's address, 0 for the first one. -/
theorem HeapRep.prev_eq (h : HeapRep T m head (l ++ b :: r)) :
    nullable (hdrGet T m b.addr .prev) = (l.map Block.addr).getLast? := by
  have hl := h.links
  rw [List.map_append, List.map_cons] at hl
  have := hl.prev_eq
  simpa [lastOr, prevOf] using this

/-- Every represented block has a nonzero address. -/
theorem HeapRep.addr_ne_zero (h : HeapRep T m head (l ++ b :: r)) : b.addr ≠ 0 := by
  rcases List.eq_nil_or_concat' l with rfl | ⟨l', x, rfl⟩
  · obtain ⟨h₁, h₂⟩ := nullable_eq_some.mp h.head_eq
    exact h₁ ▸ h₂
  · have h' : HeapRep T m head (l' ++ x :: b :: r) := by simpa using h
    obtain ⟨h₁, h₂⟩ := nullable_eq_some.mp h'.next_eq
    exact h₁ ▸ h₂

/-- The forward link of a block is null exactly when it is the last one. -/
theorem HeapRep.succ_cases (h : HeapRep T m head (l ++ b :: r)) :
    hdrGet T m b.addr .next = 0 ∧ r = [] ∨
      ∃ c r', r = c :: r' ∧ hdrGet T m b.addr .next = c.addr ∧ c.addr ≠ 0 := by
  have hnext := h.next_eq
  cases r with
  | nil => exact Or.inl ⟨nullable_eq_none.mp hnext, rfl⟩
  | cons c r' =>
      obtain ⟨h₁, h₂⟩ := nullable_eq_some.mp hnext
      exact Or.inr ⟨c, r', rfl, h₁, h₁ ▸ h₂⟩

/-- Between two memories, the headers of `r` keep everything except that the first one's backward
link now is `p`. -/
structure Reentered (T : Target) (m m' : Mem) (r : List Block) (p : Option Nat) : Prop where
  /-- Headers behind the first one are untouched. -/
  tail : ∀ x ∈ r.tail, ∀ f, hdrGet T m' x.addr f = hdrGet T m x.addr f
  /-- The first header's backward link is redirected. -/
  first : ∀ c, r.head? = some c → prevOf T m' c.addr = p
  /-- The first header's other fields are untouched. -/
  keep : ∀ c, r.head? = some c → ∀ f, f ≠ .prev → hdrGet T m' c.addr f = hdrGet T m c.addr f

namespace Reentered

variable {p p' n : Option Nat}

/-- Everything but backward links is untouched. -/
theorem hdrGet_eq (h : Reentered T m m' r p) {x : Block} (hx : x ∈ r) {f : HdrField}
    (hf : f ≠ .prev) : hdrGet T m' x.addr f = hdrGet T m x.addr f := by
  cases r with
  | nil => cases hx
  | cons c r =>
      rcases List.mem_cons.mp hx with rfl | hx
      · exact h.keep x rfl f hf
      · exact h.tail x hx f

/-- The headers still hold their blocks' data. -/
theorem hdrOf (h : Reentered T m m' r p) {x : Block} (hx : x ∈ r) (hdr : HdrOf T m x) :
    HdrOf T m' x :=
  ⟨(h.hdrGet_eq hx (by decide)).trans hdr.magic, (h.hdrGet_eq hx (by decide)).trans hdr.size,
    (h.hdrGet_eq hx (by decide)).trans hdr.used⟩

/-- The stretch stays linked and is entered through the new link. -/
theorem linked (h : Reentered T m m' r p')
    (hl : DSeg (nextOf T m) (prevOf T m) p (r.map Block.addr) n) :
    DSeg (nextOf T m') (prevOf T m') p' (r.map Block.addr) n := by
  have hnext : ∀ a ∈ r.map Block.addr, nextOf T m' a = nextOf T m a := by
    intro a ha
    obtain ⟨x, hx, rfl⟩ := List.mem_map.mp ha
    rw [nextOf, nextOf, h.hdrGet_eq hx (by decide)]
  refine DSeg.reEnd hl ?_ ?_ ?_ ?_
  · intro a ha
    cases r with
    | nil => cases ha
    | cons c r => cases ha; exact h.first c rfl
  · intro a ha
    obtain ⟨r', hr'⟩ := List.getLast?_eq_some_iff.mp ha
    rw [hnext a (by simp [hr'])]
    rw [hr'] at hl
    exact hl.next_eq
  · intro a ha
    rw [← List.map_tail] at ha
    obtain ⟨x, hx, rfl⟩ := List.mem_map.mp ha
    rw [prevOf, prevOf, h.tail x hx]
  · exact fun a ha => hnext a (List.dropLast_subset _ ha)

end Reentered

/-! ## Searching -/

/-- The blocks `find_free` looks for: free and of at least `n` bytes. -/
def Fits (n : Nat) (b : Block) : Prop := b.used = false ∧ n ≤ b.size

/-- The outcome of a search: the first block that fits, or the null address when none does. -/
def SearchResult (n : Nat) (bs : List Block) (res : Except Halt Nat) : Prop :=
  (res = .ok 0 ∧ ∀ b ∈ bs, ¬ Fits n b) ∨
  ∃ l b r, bs = l ++ b :: r ∧ Fits n b ∧ (∀ c ∈ l, ¬ Fits n c) ∧ res = .ok b.addr

/-- The loop of `find_free` over a linked suffix of the block list. -/
theorem findFree_suffix (n : Nat) {fuel : Nat} {p : Option Nat} (hfuel : bs.length < fuel)
    (hhead : nullable head = (bs.map Block.addr).head?)
    (hlinks : DSeg (nextOf T m) (prevOf T m) p (bs.map Block.addr) none)
    (hhdr : ∀ b ∈ bs, HdrOf T m b) : SearchResult n bs (findFree T m n fuel head) := by
  induction bs generalizing fuel head p with
  | nil =>
      obtain ⟨fuel, rfl⟩ : ∃ k, fuel = k + 1 := ⟨fuel - 1, by omega⟩
      rw [findFree, if_pos (nullable_eq_none.mp hhead)]
      exact Or.inl ⟨rfl, by simp⟩
  | cons b bs ih =>
      obtain ⟨fuel, rfl⟩ : ∃ k, fuel = k + 1 := ⟨fuel - 1, by omega⟩
      obtain ⟨rfl, hne⟩ := nullable_eq_some.mp hhead
      have hb := hhdr b (by simp)
      -- the test of the loop, on the block instead of its header
      have hcond : hdrGet T m b.addr .used = 0 ∧ n ≤ hdrGet T m b.addr .size ↔ Fits n b := by
        rw [hb.used, hb.size, Fits, Bool.toNat_eq_zero]
      rw [findFree, if_neg hne]
      by_cases hfit : Fits n b
      · rw [if_pos (hcond.mpr hfit)]
        exact Or.inr ⟨[], b, bs, rfl, hfit, by simp, rfl⟩
      · rw [if_neg (mt hcond.mp hfit)]
        have hnext : nullable (hdrGet T m b.addr .next) = (bs.map Block.addr).head? := by
          simpa [firstOr, nextOf] using hlinks.2.1
        rcases ih (by simpa using hfuel) hnext hlinks.2.2 fun c hc => hhdr c (by simp [hc]) with
          ⟨hr, hnone⟩ | ⟨l, c, r, rfl, hc, hl, hr⟩
        · refine Or.inl ⟨hr, fun d hd => ?_⟩
          rcases List.mem_cons.mp hd with rfl | hd
          · exact hfit
          · exact hnone d hd
        · refine Or.inr ⟨b :: l, c, r, rfl, hc, fun d hd => ?_, hr⟩
          rcases List.mem_cons.mp hd with rfl | hd
          · exact hfit
          · exact hl d hd

/-- `find_free` on a represented heap is a first-fit search of its block list. -/
theorem findFree_spec (n : Nat) {fuel : Nat} (h : HeapRep T m head bs) (hfuel : bs.length < fuel) :
    SearchResult n bs (findFree T m n fuel head) :=
  findFree_suffix n hfuel h.head_eq h.links h.hdr

/-! ## Rewriting one block's data -/

/-- Writing the used flag of a block changes the flag and nothing else. -/
theorem HeapRep.setUsed (h : HeapRep T m head (l ++ b :: r)) (hs : Spread T (l ++ b :: r))
    (u : Bool) : HeapRep T (hdrSet T m b.addr .used u.toNat) head
      (l ++ { b with used := u } :: r) := by
  obtain ⟨hleft, hright⟩ := hs.apart
  have hmap : (l ++ { b with used := u } :: r).map Block.addr = (l ++ b :: r).map Block.addr := by
    simp
  -- no link changes: other headers are apart, and the own ones are other fields
  have hlink : ∀ f, f ≠ HdrField.used → ∀ a ∈ (l ++ b :: r).map Block.addr,
      hdrGet T (hdrSet T m b.addr .used u.toNat) a f = hdrGet T m a f := by
    intro f hf a ha
    obtain ⟨x, hx, rfl⟩ := List.mem_map.mp ha
    rcases List.mem_append.mp hx with hx | hx
    · exact hdrGet_hdrSet_of_apart (hleft x hx).symm
    rcases List.mem_cons.mp hx with rfl | hx
    · exact hdrGet_hdrSet_of_ne _ _ (Ne.symm hf)
    · exact hdrGet_hdrSet_of_apart (hright x hx)
  refine ⟨hmap ▸ h.head_eq, ?_, ?_⟩
  · rw [hmap]
    refine DSeg.congr h.links ?_ ?_
    · intro a ha; rw [nextOf, nextOf, hlink .next (by decide) a ha]
    · intro a ha; rw [prevOf, prevOf, hlink .prev (by decide) a ha]
  · intro x hx
    rcases List.mem_append.mp hx with hx | hx
    · exact (h.hdr x (by simp [hx])).congr fun f => hdrGet_hdrSet_of_apart (hleft x hx).symm
    rcases List.mem_cons.mp hx with rfl | hx
    · have hb := h.hdr b (by simp)
      refine ⟨?_, ?_, ?_⟩
      · exact (hdrGet_hdrSet_of_ne _ _ (by decide)).trans hb.magic
      · exact (hdrGet_hdrSet_of_ne _ _ (by decide)).trans hb.size
      · refine (hdrGet_hdrSet_same _ _ _).trans ?_
        cases u
        · exact hdrTrunc_zero T _
        · exact hdrTrunc_used_one T
    · exact (h.hdr x (by simp [hx])).congr fun f => hdrGet_hdrSet_of_apart (hright x hx)

/-! ## Splitting a block -/

/-- Memory after the five assignments to the new header of `split`. -/
def newHdr (T : Target) (m : Mem) (b n nb : Nat) : Mem :=
  let m₁ := hdrSet T m nb .magic heapMagic
  let m₂ := hdrSet T m₁ nb .size
    (wsub T.wordBits (wsub T.wordBits (hdrGet T m b .size) n) (hdrBytes T))
  let m₃ := hdrSet T m₂ nb .used 0
  let m₄ := hdrSet T m₃ nb .next (hdrGet T m b .next)
  hdrSet T m₄ nb .prev b

/-- Headers apart from the new one are not disturbed by writing it. -/
theorem hdrGet_newHdr_of_apart {a n nb x : Nat} (h : Apart T nb x) (f : HdrField) :
    hdrGet T (newHdr T m a n nb) x f = hdrGet T m x f := by
  simp only [newHdr, hdrGet_hdrSet_of_apart h]

/-- `split` past its guard: write the new header, then relink its two neighbours. -/
theorem split_eq {a n nb : Nat} (hnb : (a + hdrBytes T + n) % 2 ^ T.wordBits = nb)
    (hguard : ¬ hdrGet T m a .size < (n + hdrBytes T + minSplit) % 2 ^ T.wordBits)
    (hapart : Apart T nb a) :
    split T m a n =
      hdrSet T (hdrSet T
        (if hdrGet T m a .next ≠ 0 then hdrSet T (newHdr T m a n nb) (hdrGet T m a .next) .prev nb
          else newHdr T m a n nb) a .next nb) a .size n := by
  rw [split, if_neg hguard, hnb]
  simp only [newHdr, hdrGet_hdrSet_of_apart hapart]

section SplitReads

variable {a n nb nx : Nat} (hnb : (a + hdrBytes T + n) % 2 ^ T.wordBits = nb)
  (hguard : ¬ hdrGet T m a .size < (n + hdrBytes T + minSplit) % 2 ^ T.wordBits)
  (hapart : Apart T nb a) (hnx : hdrGet T m a .next = nx)
include hnb hguard hapart hnx

/-- `split` leaves every header alone that is apart from the three it writes. -/
theorem hdrGet_split_of_apart {x : Nat} (hxa : Apart T a x) (hxn : Apart T nb x)
    (hxnx : nx = 0 ∨ Apart T nx x) (f : HdrField) :
    hdrGet T (split T m a n) x f = hdrGet T m x f := by
  rw [split_eq hnb hguard hapart, hnx, hdrGet_hdrSet_of_apart hxa, hdrGet_hdrSet_of_apart hxa]
  split
  · rename_i hne
    rw [hdrGet_hdrSet_of_apart (hxnx.resolve_left hne), hdrGet_newHdr_of_apart hxn]
  · rw [hdrGet_newHdr_of_apart hxn]

/-- The header that is split gets the requested size and a link to the new header. -/
theorem hdrGet_split_self (hnxa : nx = 0 ∨ Apart T nx a) :
    hdrGet T (split T m a n) a .size = n % 2 ^ 32 ∧
    hdrGet T (split T m a n) a .next = hdrTrunc T .next nb ∧
    ∀ f, f ≠ .size → f ≠ .next → hdrGet T (split T m a n) a f = hdrGet T m a f := by
  rw [split_eq hnb hguard hapart, hnx]
  refine ⟨?_, ?_, ?_⟩
  · rw [hdrGet_hdrSet_same, hdrTrunc_size]
  · rw [hdrGet_hdrSet_of_ne _ _ (by decide), hdrGet_hdrSet_same]
  · intro f hf₁ hf₂
    rw [hdrGet_hdrSet_of_ne _ _ (Ne.symm hf₁), hdrGet_hdrSet_of_ne _ _ (Ne.symm hf₂)]
    split
    · rename_i hne
      rw [hdrGet_hdrSet_of_apart (hnxa.resolve_left hne), hdrGet_newHdr_of_apart hapart]
    · rw [hdrGet_newHdr_of_apart hapart]

/-- The new header. -/
theorem hdrGet_split_new (hnxn : nx = 0 ∨ Apart T nx nb) :
    hdrGet T (split T m a n) nb .magic = heapMagic ∧
    hdrGet T (split T m a n) nb .size =
      wsub T.wordBits (wsub T.wordBits (hdrGet T m a .size) n) (hdrBytes T) % 2 ^ 32 ∧
    hdrGet T (split T m a n) nb .used = 0 ∧
    hdrGet T (split T m a n) nb .next = nx ∧
    hdrGet T (split T m a n) nb .prev = hdrTrunc T .prev a := by
  have hread : ∀ f, hdrGet T (split T m a n) nb f = hdrGet T (newHdr T m a n nb) nb f := by
    intro f
    rw [split_eq hnb hguard hapart, hnx, hdrGet_hdrSet_of_apart hapart.symm,
      hdrGet_hdrSet_of_apart hapart.symm]
    split
    · rename_i hne
      rw [hdrGet_hdrSet_of_apart (hnxn.resolve_left hne)]
    · rfl
  have hlt : nx < 2 ^ T.wordBits := hnx ▸ hdrGet_next_lt m a
  refine ⟨?_, ?_, ?_, ?_, ?_⟩
  · rw [hread]
    simp [newHdr, hdrGet_hdrSet_of_ne, hdrTrunc_magic]
  · rw [hread]
    simp [newHdr, hdrGet_hdrSet_of_ne, hdrTrunc_size]
  · rw [hread]
    simp [newHdr, hdrGet_hdrSet_of_ne, hdrTrunc_zero]
  · rw [hread]
    simp [newHdr, hdrGet_hdrSet_of_ne, hnx, hdrTrunc_next hlt]
  · rw [hread]
    simp [newHdr]

/-- The old successor is linked back to the new header. -/
theorem hdrGet_split_succ (hne : nx ≠ 0) (hnxa : Apart T nx a) (hnxn : Apart T nx nb) :
    hdrGet T (split T m a n) nx .prev = hdrTrunc T .prev nb ∧
    ∀ f, f ≠ .prev → hdrGet T (split T m a n) nx f = hdrGet T m nx f := by
  rw [split_eq hnb hguard hapart, hnx, if_pos hne]
  refine ⟨?_, ?_⟩
  · rw [hdrGet_hdrSet_of_apart hnxa.symm, hdrGet_hdrSet_of_apart hnxa.symm, hdrGet_hdrSet_same]
  · intro f hf
    rw [hdrGet_hdrSet_of_apart hnxa.symm, hdrGet_hdrSet_of_apart hnxa.symm,
      hdrGet_hdrSet_of_ne _ _ (Ne.symm hf), hdrGet_newHdr_of_apart hnxn.symm]

/-- `split` writes into the three headers and nowhere else. -/
theorem split_apply_of_outside {x : Nat} (hxa : x < a ∨ a + hdrBytes T ≤ x)
    (hxn : x < nb ∨ nb + hdrBytes T ≤ x) (hxnx : nx = 0 ∨ x < nx ∨ nx + hdrBytes T ≤ x) :
    split T m a n x = m x := by
  have hnew : newHdr T m a n nb x = m x := by
    simp only [newHdr, hdrSet_apply_of_outside hxn]
  rw [split_eq hnb hguard hapart, hnx, hdrSet_apply_of_outside hxa,
    hdrSet_apply_of_outside hxa]
  split
  · rename_i hne
    rw [hdrSet_apply_of_outside (hxnx.resolve_left hne), hnew]
  · exact hnew

end SplitReads

/-- `split` inserts the new block behind the one it shrinks. Nothing is assumed about the sizes: the
links are right wherever the new header lies, as long as it is apart from the others. -/
theorem HeapRep.split {n nb : Nat} (h : HeapRep T m head (l ++ b :: r))
    (hs : Spread T (l ++ b :: r)) (hb : b.addr < 2 ^ T.wordBits)
    (hnb : (b.addr + hdrBytes T + n) % 2 ^ T.wordBits = nb) (hnb0 : nb ≠ 0)
    (hapart : ∀ x ∈ l ++ b :: r, Apart T nb x.addr)
    (hguard : ¬ b.size < (n + hdrBytes T + minSplit) % 2 ^ T.wordBits) :
    HeapRep T (Aerogel.split T m b.addr n) head
      (l ++ ⟨b.addr, n % 2 ^ 32, b.used⟩ ::
        ⟨nb, wsub T.wordBits (wsub T.wordBits b.size n) (hdrBytes T) % 2 ^ 32, false⟩ :: r) := by
  have hhdr := h.hdr b (by simp)
  have hsucc := h.succ_cases
  have hbn : Apart T nb b.addr := hapart b (by simp)
  have hnblt : nb < 2 ^ T.wordBits := hnb ▸ Nat.mod_lt _ (Nat.two_pow_pos _)
  obtain ⟨hleft, hright⟩ := hs.apart
  rw [← hhdr.size] at hguard
  have hnx : ∀ x, (∀ c ∈ r, Apart T c.addr x) →
      hdrGet T m b.addr .next = 0 ∨ Apart T (hdrGet T m b.addr .next) x := by
    intro x hx
    rcases hsucc with ⟨h₀, -⟩ | ⟨c, r', rfl, h₁, -⟩
    · exact Or.inl h₀
    · exact Or.inr (h₁ ▸ hx c (by simp))
  have hself := hdrGet_split_self hnb hguard hbn rfl (hnx _ fun c hc => (hright c hc).symm)
  have hnew := hdrGet_split_new hnb hguard hbn rfl
    (hnx _ fun c hc => (hapart c (by simp [hc])).symm)
  have hl : ∀ x ∈ l, ∀ f, hdrGet T (Aerogel.split T m b.addr n) x.addr f = hdrGet T m x.addr f := by
    intro x hx
    exact hdrGet_split_of_apart hnb hguard hbn rfl (hleft x hx).symm (hapart x (by simp [hx]))
      (hnx _ fun c hc => (hs.apart_append hx (by simp [hc])).symm)
  -- in `r` only the first block's backward link changes
  have hr : Reentered T m (Aerogel.split T m b.addr n) r (some nb) := by
    rcases hsucc with ⟨-, rfl⟩ | ⟨c, r', rfl, h₁, h₂⟩
    · exact ⟨by simp, by simp, by simp⟩
    have hs' : Spread T ((l ++ [b]) ++ c :: r') := by simpa using hs
    have hc := hdrGet_split_succ hnb hguard hbn h₁ h₂ (hright c (by simp)).symm
      (hapart c (by simp)).symm
    refine ⟨fun x hx => ?_, ?_, ?_⟩
    · exact hdrGet_split_of_apart hnb hguard hbn h₁ (hright x (List.mem_of_mem_tail hx))
        (hapart x (by simp [List.mem_of_mem_tail hx])) (Or.inr (hs'.apart.2 x hx))
    · rintro d ⟨⟩
      rw [prevOf, hc.1, hdrTrunc_prev hnblt, nullable_of_ne hnb0]
    · rintro d ⟨⟩
      exact hc.2
  have hlinks := h.links
  rw [List.map_append, List.map_cons, DSeg.append_iff, DSeg.cons_iff] at hlinks
  obtain ⟨hlinkl, hprevb, -, hlinkr⟩ := hlinks
  refine ⟨?_, ?_, ?_⟩
  · have := h.head_eq
    cases l <;> simpa using this
  · rw [List.map_append, List.map_cons, List.map_cons, DSeg.append_iff, DSeg.cons_iff, DSeg.cons_iff]
    refine ⟨linked_keep hlinkl hl, ?_, ?_, ?_, ?_, ?_⟩
    · rw [prevOf, hself.2.2 .prev (by decide) (by decide)]
      exact hprevb
    · rw [nextOf, hself.2.1, hdrTrunc_next hnblt, nullable_of_ne hnb0]
      rfl
    · rw [prevOf, hnew.2.2.2.2, hdrTrunc_prev hb, nullable_of_ne h.addr_ne_zero]
    · rw [nextOf, hnew.2.2.2.1, h.next_eq]
      simp [firstOr]
    · exact hr.linked hlinkr
  · intro x hx
    rcases List.mem_append.mp hx with hx | hx
    · exact (h.hdr x (by simp [hx])).congr (hl x hx)
    rcases List.mem_cons.mp hx with rfl | hx
    · exact ⟨(hself.2.2 _ (by decide) (by decide)).trans hhdr.magic, hself.1,
        (hself.2.2 _ (by decide) (by decide)).trans hhdr.used⟩
    rcases List.mem_cons.mp hx with rfl | hx
    · exact ⟨hnew.1, hhdr.size ▸ hnew.2.1, hnew.2.2.1⟩
    · exact hr.hdrOf hx (h.hdr x (by simp [hx]))

/-! ## Merging two blocks -/

section MergeReads

variable {a d nx : Nat} (had : Apart T a d) (hnx : hdrGet T m d .next = nx)
include had hnx

/-- One merge of `coalesce` with its reads resolved. -/
theorem mergeInto_eq :
    mergeInto T m a d =
      (if nx ≠ 0 then
        hdrSet T (hdrSet T (hdrSet T m a .size
          (hdrGet T m a .size + (hdrBytes T + hdrGet T m d .size))) a .next nx) nx .prev a
      else hdrSet T (hdrSet T m a .size
          (hdrGet T m a .size + (hdrBytes T + hdrGet T m d .size))) a .next nx) := by
  have hlt : nx < 2 ^ T.wordBits := hnx ▸ hdrGet_next_lt m d
  simp only [mergeInto, hdrGet_hdrSet_of_apart had, hnx, hdrGet_hdrSet_same, hdrTrunc_next hlt]

/-- A merge leaves every header alone that is apart from the two it writes. -/
theorem hdrGet_mergeInto_of_apart {x : Nat} (hxa : Apart T a x) (hxnx : nx = 0 ∨ Apart T nx x)
    (f : HdrField) : hdrGet T (mergeInto T m a d) x f = hdrGet T m x f := by
  rw [mergeInto_eq had hnx]
  split
  · rename_i hne
    rw [hdrGet_hdrSet_of_apart (hxnx.resolve_left hne), hdrGet_hdrSet_of_apart hxa,
      hdrGet_hdrSet_of_apart hxa]
  · rw [hdrGet_hdrSet_of_apart hxa, hdrGet_hdrSet_of_apart hxa]

/-- The growing header gets both sizes, the swallowed header's bytes and its link. -/
theorem hdrGet_mergeInto_self (hnxa : nx = 0 ∨ Apart T nx a) :
    hdrGet T (mergeInto T m a d) a .size =
      (hdrGet T m a .size + (hdrBytes T + hdrGet T m d .size)) % 2 ^ 32 ∧
    hdrGet T (mergeInto T m a d) a .next = nx ∧
    ∀ f, f ≠ .size → f ≠ .next → hdrGet T (mergeInto T m a d) a f = hdrGet T m a f := by
  have hlt : nx < 2 ^ T.wordBits := hnx ▸ hdrGet_next_lt m d
  have hread : ∀ f, hdrGet T (mergeInto T m a d) a f =
      hdrGet T (hdrSet T (hdrSet T m a .size
        (hdrGet T m a .size + (hdrBytes T + hdrGet T m d .size))) a .next nx) a f := by
    intro f
    rw [mergeInto_eq had hnx]
    split
    · rename_i hne
      rw [hdrGet_hdrSet_of_apart (hnxa.resolve_left hne)]
    · rfl
  refine ⟨?_, ?_, ?_⟩
  · rw [hread, hdrGet_hdrSet_of_ne _ _ (by decide), hdrGet_hdrSet_same, hdrTrunc_size]
  · rw [hread, hdrGet_hdrSet_same, hdrTrunc_next hlt]
  · intro f hf₁ hf₂
    rw [hread, hdrGet_hdrSet_of_ne _ _ (Ne.symm hf₂), hdrGet_hdrSet_of_ne _ _ (Ne.symm hf₁)]

/-- The successor of the swallowed header is linked back to the growing one. -/
theorem hdrGet_mergeInto_succ (hne : nx ≠ 0) (hnxa : Apart T nx a) :
    hdrGet T (mergeInto T m a d) nx .prev = hdrTrunc T .prev a ∧
    ∀ f, f ≠ .prev → hdrGet T (mergeInto T m a d) nx f = hdrGet T m nx f := by
  rw [mergeInto_eq had hnx, if_pos hne]
  refine ⟨hdrGet_hdrSet_same _ _ _, fun f hf => ?_⟩
  rw [hdrGet_hdrSet_of_ne _ _ (Ne.symm hf), hdrGet_hdrSet_of_apart hnxa.symm,
    hdrGet_hdrSet_of_apart hnxa.symm]

/-- A merge writes into the growing header and that behind the swallowed one, and nowhere else. -/
theorem mergeInto_apply_of_outside {x : Nat} (hxa : x < a ∨ a + hdrBytes T ≤ x)
    (hxnx : nx = 0 ∨ x < nx ∨ nx + hdrBytes T ≤ x) : mergeInto T m a d x = m x := by
  rw [mergeInto_eq had hnx]
  split
  · rename_i hne
    rw [hdrSet_apply_of_outside (hxnx.resolve_left hne),
      hdrSet_apply_of_outside hxa, hdrSet_apply_of_outside hxa]
  · rw [hdrSet_apply_of_outside hxa, hdrSet_apply_of_outside hxa]

end MergeReads

/-- One merge of `coalesce` replaces two neighbours by their `join`. -/
theorem HeapRep.mergeInto (h : HeapRep T m head (l ++ b :: c :: r))
    (hs : Spread T (l ++ b :: c :: r)) (hb : b.addr < 2 ^ T.wordBits)
    (hsize : b.size + (hdrBytes T + c.size) < 2 ^ 32) :
    HeapRep T (Aerogel.mergeInto T m b.addr c.addr) head (l ++ join (hdrBytes T) b c :: r) := by
  have h' : HeapRep T m head ((l ++ [b]) ++ c :: r) := by simpa using h
  have hs' : Spread T ((l ++ [b]) ++ c :: r) := by simpa using hs
  have hhdr := h.hdr b (by simp)
  have hhdrc := h.hdr c (by simp)
  have hsucc := h'.succ_cases
  obtain ⟨hleft, hright⟩ := hs.apart
  have hbc : Apart T b.addr c.addr := hright c (by simp)
  have hnx : ∀ x, (∀ d ∈ r, Apart T d.addr x) →
      hdrGet T m c.addr .next = 0 ∨ Apart T (hdrGet T m c.addr .next) x := by
    intro x hx
    rcases hsucc with ⟨h₀, -⟩ | ⟨d, r', rfl, h₁, -⟩
    · exact Or.inl h₀
    · exact Or.inr (h₁ ▸ hx d (by simp))
  have hself := hdrGet_mergeInto_self hbc rfl (hnx _ fun d hd => (hright d (by simp [hd])).symm)
  have hl : ∀ x ∈ l, ∀ f,
      hdrGet T (Aerogel.mergeInto T m b.addr c.addr) x.addr f = hdrGet T m x.addr f := by
    intro x hx
    exact hdrGet_mergeInto_of_apart hbc rfl (hleft x hx).symm
      (hnx _ fun d hd => (hs.apart_append hx (by simp [hd])).symm)
  have hr : Reentered T m (Aerogel.mergeInto T m b.addr c.addr) r (some b.addr) := by
    rcases hsucc with ⟨-, rfl⟩ | ⟨d, r', rfl, h₁, h₂⟩
    · exact ⟨by simp, by simp, by simp⟩
    have hs'' : Spread T ((l ++ [b, c]) ++ d :: r') := by simpa using hs
    have hd := hdrGet_mergeInto_succ hbc h₁ h₂ (hright d (by simp)).symm
    refine ⟨fun x hx => ?_, ?_, ?_⟩
    · exact hdrGet_mergeInto_of_apart hbc h₁ (hright x (by simp [List.mem_of_mem_tail hx]))
        (Or.inr (hs''.apart.2 x hx))
    · rintro e ⟨⟩
      rw [prevOf, hd.1, hdrTrunc_prev hb, nullable_of_ne h.addr_ne_zero]
    · rintro e ⟨⟩
      exact hd.2
  have hlinks := h.links
  rw [List.map_append, List.map_cons, List.map_cons, DSeg.append_iff, DSeg.cons_iff,
    DSeg.cons_iff] at hlinks
  obtain ⟨hlinkl, hprevb, -, -, -, hlinkr⟩ := hlinks
  refine ⟨?_, ?_, ?_⟩
  · have := h.head_eq
    cases l <;> simpa [join] using this
  · rw [List.map_append, List.map_cons, DSeg.append_iff, DSeg.cons_iff]
    refine ⟨linked_keep hlinkl hl, ?_, ?_, ?_⟩
    · rw [prevOf]
      exact (congrArg nullable (hself.2.2 .prev (by decide) (by decide))).trans hprevb
    · rw [nextOf]
      refine (congrArg nullable hself.2.1).trans (h'.next_eq.trans ?_)
      simp [firstOr]
    · exact hr.linked hlinkr
  · intro x hx
    rcases List.mem_append.mp hx with hx | hx
    · exact (h.hdr x (by simp [hx])).congr (hl x hx)
    rcases List.mem_cons.mp hx with rfl | hx
    · refine ⟨(hself.2.2 _ (by decide) (by decide)).trans hhdr.magic, ?_,
        (hself.2.2 _ (by decide) (by decide)).trans hhdr.used⟩
      refine hself.1.trans ?_
      rw [hhdr.size, hhdrc.size, Nat.mod_eq_of_lt hsize]
      rfl
    · exact hr.hdrOf hx (h.hdr x (by simp [hx]))

/-- Merging two neighbours writes into headers only. -/
theorem HeapRep.mergeInto_frame (h : HeapRep T m head (l ++ b :: c :: r))
    (hs : Spread T (l ++ b :: c :: r)) {x : Nat} (hx : ¬ InHeaders T (l ++ b :: c :: r) x) :
    Aerogel.mergeInto T m b.addr c.addr x = m x := by
  have h' : HeapRep T m head ((l ++ [b]) ++ c :: r) := by simpa using h
  have hbc : Apart T b.addr c.addr := hs.apart.2 c (by simp)
  refine mergeInto_apply_of_outside hbc rfl (not_inHeaders hx (by simp)) ?_
  rcases h'.succ_cases with ⟨h₀, -⟩ | ⟨d, r', rfl, h₁, -⟩
  · exact Or.inl h₀
  · rw [h₁]
    exact Or.inr (not_inHeaders hx (by simp))

end Aerogel
