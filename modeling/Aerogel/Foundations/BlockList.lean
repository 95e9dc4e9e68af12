import Mathlib.Data.List.Chain

/-! # Block lists of a first-fit allocator

The abstract view of an arena managed by headers in front of every block: a list of blocks in
address order, each with its payload size and whether it is used. `Tiled H a bs z` says that the
blocks, each preceded by a header of `H` bytes, cover `[a, z)` without gap or overlap;
`NoAdjacentFree` says that free neighbours have been merged. The two operations are `carve` (take a
free block, splitting off what is left when it is large enough) and `releaseAt` (free a block and
merge it with its free neighbours); both keep the two predicates. -/

namespace Aerogel

/-- One block of the arena: the address of its header, its payload size and whether it is used. -/
structure Block where
  /-- Address of the block's header. -/
  addr : Nat
  /-- Payload size in bytes, header excluded. -/
  size : Nat
  /-- Whether the payload is handed out. -/
  used : Bool
  deriving DecidableEq, Repr

variable {H : Nat}

/-! ## Tilings -/

/-- The blocks, each with a header of `H` bytes, cover `[a, z)` exactly and in order. -/
def Tiled (H : Nat) : Nat → List Block → Nat → Prop
  | a, [], z => a = z
  | a, b :: bs, z => b.addr = a ∧ Tiled H (a + H + b.size) bs z

namespace Tiled

@[simp] theorem nil_iff {a z : Nat} : Tiled H a [] z ↔ a = z := Iff.rfl

@[simp] theorem cons_iff {a z : Nat} {b : Block} {bs : List Block} :
    Tiled H a (b :: bs) z ↔ b.addr = a ∧ Tiled H (a + H + b.size) bs z := Iff.rfl

/-- A tiling splits at the address where its left part stops. -/
theorem append_iff {a z : Nat} {l r : List Block} :
    Tiled H a (l ++ r) z ↔ ∃ m, Tiled H a l m ∧ Tiled H m r z := by
  induction l generalizing a with
  | nil => simp
  | cons b l ih =>
      rw [List.cons_append, cons_iff, ih]
      constructor
      · rintro ⟨hb, m, h₁, h₂⟩; exact ⟨m, ⟨hb, h₁⟩, h₂⟩
      · rintro ⟨m, ⟨hb, h₁⟩, h₂⟩; exact ⟨hb, m, h₁, h₂⟩

/-- Whether a block is handed out does not matter to a tiling. -/
theorem withUsed {a z : Nat} {b : Block} {l r : List Block} (h : Tiled H a (l ++ b :: r) z)
    (u : Bool) : Tiled H a (l ++ { b with used := u } :: r) z := by
  obtain ⟨m, h₁, h₂⟩ := append_iff.mp h
  exact append_iff.mpr ⟨m, h₁, h₂⟩

/-- The headers alone account for `H` bytes a block. -/
theorem length_mul_le {a z : Nat} {bs : List Block} (h : Tiled H a bs z) :
    a + bs.length * H ≤ z := by
  induction bs generalizing a with
  | nil => simpa using h.le
  | cons b bs ih =>
      have h' := ih h.2
      rw [List.length_cons, Nat.succ_mul]
      omega

/-- A tiling never ends before it starts. -/
theorem le {a z : Nat} {bs : List Block} (h : Tiled H a bs z) : a ≤ z := by
  have := h.length_mul_le
  omega

/-- Every block, header included, lies inside the tiled interval. -/
theorem mem_bounds {a z : Nat} {bs : List Block} (h : Tiled H a bs z) {b : Block} (hb : b ∈ bs) :
    a ≤ b.addr ∧ b.addr + H + b.size ≤ z := by
  induction bs generalizing a with
  | nil => cases hb
  | cons c bs ih =>
      obtain ⟨hc, hrest⟩ := h
      rcases List.mem_cons.mp hb with rfl | hb
      · exact ⟨hc.ge, hc ▸ hrest.le⟩
      · have := ih hrest hb
        omega

/-- Blocks later in a tiling start where an earlier one has ended. -/
theorem pairwise {a z : Nat} {bs : List Block} (h : Tiled H a bs z) :
    bs.Pairwise fun b c => b.addr + H + b.size ≤ c.addr := by
  induction bs generalizing a with
  | nil => exact .nil
  | cons b bs ih =>
      obtain ⟨hb, hrest⟩ := h
      refine .cons (fun c hc => ?_) (ih hrest)
      have := (hrest.mem_bounds hc).1
      omega

/-- Two different places of a tiling are occupied by disjoint blocks. -/
theorem disjoint_of_ne {a z : Nat} {bs : List Block} (h : Tiled H a bs z) {b c : Block}
    (hb : b ∈ bs) (hc : c ∈ bs) (hne : b ≠ c) :
    b.addr + H + b.size ≤ c.addr ∨ c.addr + H + c.size ≤ b.addr := by
  induction bs generalizing a with
  | nil => cases hb
  | cons d bs ih =>
      obtain ⟨hd, hrest⟩ := h
      -- either block may be the first one
      rcases List.mem_cons.mp hb with rfl | hb' <;> rcases List.mem_cons.mp hc with rfl | hc'
      · exact absurd rfl hne
      · have := (hrest.mem_bounds hc').1; omega
      · have := (hrest.mem_bounds hb').1; omega
      · exact ih hrest hb' hc'

/-- With a nonempty header, a block is determined by its address. -/
theorem eq_of_addr_eq (hH : 0 < H) {a z : Nat} {bs : List Block} (h : Tiled H a bs z)
    {b c : Block} (hb : b ∈ bs) (hc : c ∈ bs) (haddr : b.addr = c.addr) : b = c := by
  by_contra hne
  have := h.disjoint_of_ne hb hc hne
  omega

/-- Neighbouring blocks of a tiling touch. -/
theorem isChain {a z : Nat} {bs : List Block} (h : Tiled H a bs z) :
    bs.IsChain fun b c => b.addr + H + b.size = c.addr := by
  induction bs generalizing a with
  | nil => exact .nil
  | cons b bs ih =>
      obtain ⟨hb, hrest⟩ := h
      refine List.isChain_cons.mpr ⟨fun c hc => ?_, ih hrest⟩
      cases bs with
      | nil => cases hc
      | cons d bs =>
          cases hc
          rw [hb]
          exact hrest.1.symm

/-- The last block of a tiling ends where the tiling ends. -/
theorem getLast_stop {a z : Nat} {bs : List Block} (h : Tiled H a bs z) {b : Block}
    (hb : bs.getLast? = some b) : b.addr + H + b.size = z := by
  obtain ⟨l, rfl⟩ := List.getLast?_eq_some_iff.mp hb
  obtain ⟨m, -, h₂⟩ := append_iff.mp h
  obtain ⟨h₃, h₄⟩ := h₂
  rw [h₃]
  exact h₄

end Tiled

/-- No two neighbouring blocks are both free. -/
def NoAdjacentFree (bs : List Block) : Prop :=
  bs.IsChain fun b c => b.used = true ∨ c.used = true

/-! ## Taking a block -/

/-- Hand out the first `n` bytes of block `b`; what is left becomes a free block when it can hold
a header and `slack` more bytes, and is handed out too otherwise. -/
def carve (H slack n : Nat) (b : Block) : List Block :=
  if b.size < n + H + slack then [{ b with used := true }]
  else [⟨b.addr, n, true⟩, ⟨b.addr + H + n, b.size - n - H, false⟩]

/-- The block that `carve` hands out. -/
def carved (H slack n : Nat) (b : Block) : Block :=
  ⟨b.addr, if b.size < n + H + slack then b.size else n, true⟩

/-- The handed out block is the first of the carved ones, at the address of the original. -/
theorem carve_eq (H slack n : Nat) (b : Block) :
    ∃ rest, carve H slack n b = carved H slack n b :: rest ∧ ∀ c ∈ rest, c.used = false := by
  unfold carve carved
  split
  · exact ⟨[], rfl, by simp⟩
  · exact ⟨_, rfl, by simp⟩

/-- A block that is large enough is carved into one of at least `n` bytes. -/
theorem le_carved_size {slack n : Nat} {b : Block} (h : n ≤ b.size) :
    n ≤ (carved H slack n b).size := by
  simp only [carved]
  split <;> omega

/-- Carving keeps a tiling. -/
theorem Tiled.carve {slack n a z : Nat} {b : Block} {l r : List Block}
    (h : Tiled H a (l ++ b :: r) z) : Tiled H a (l ++ (Aerogel.carve H slack n b ++ r)) z := by
  obtain ⟨m, h₁, hb, h₂⟩ := append_iff.mp h
  refine append_iff.mpr ⟨m, h₁, ?_⟩
  unfold Aerogel.carve
  split
  · exact ⟨hb, h₂⟩
  · refine ⟨hb, ?_, ?_⟩
    · simp only [hb]
    · have : m + H + n + H + (b.size - n - H) = m + H + b.size := by omega
      rw [this]
      exact h₂

/-- Carving a free block leaves no two free neighbours: what follows a free block is used. -/
theorem NoAdjacentFree.carve {slack n : Nat} {b : Block} {l r : List Block}
    (h : NoAdjacentFree (l ++ b :: r)) (hfree : b.used = false) :
    NoAdjacentFree (l ++ (Aerogel.carve H slack n b ++ r)) := by
  obtain ⟨hl, hbr, -⟩ := List.isChain_append.mp h
  obtain ⟨hnext, hr⟩ := List.isChain_cons.mp hbr
  have hused : ∀ y ∈ r.head?, y.used = true := by
    intro y hy
    have := hnext y hy
    rw [hfree] at this
    exact this.resolve_left (by decide)
  unfold Aerogel.carve
  split
  · refine List.isChain_append.mpr ⟨hl, List.isChain_cons.mpr ⟨?_, hr⟩, ?_⟩
    · exact fun _ _ => Or.inl rfl
    · rintro x - y hy; cases hy; exact Or.inr rfl
  -- the remainder is free, so its new neighbour must not be
  · refine List.isChain_append.mpr ⟨hl, List.isChain_cons.mpr ⟨?_, List.isChain_cons.mpr ⟨?_, hr⟩⟩, ?_⟩
    · exact fun _ _ => Or.inl rfl
    · exact fun y hy => Or.inr (hused y hy)
    · rintro x - y hy; cases hy; exact Or.inr rfl

/-- After carving, the used blocks are those from before and the handed out one. -/
theorem mem_carve_used {slack n : Nat} {b : Block} {l r : List Block} (hfree : b.used = false)
    {c : Block} :
    (c ∈ l ++ (Aerogel.carve H slack n b ++ r) ∧ c.used = true) ↔
      c = carved H slack n b ∨ (c ∈ l ++ b :: r ∧ c.used = true) := by
  obtain ⟨rest, heq, hrest⟩ := carve_eq H slack n b
  have hused : (carved H slack n b).used = true := rfl
  rw [heq]
  simp only [List.cons_append, List.mem_append, List.mem_cons]
  constructor
  · rintro ⟨hl | rfl | hc | hr, hu⟩
    · exact Or.inr ⟨Or.inl hl, hu⟩
    · exact Or.inl rfl
    · rw [hrest c hc] at hu; cases hu
    · exact Or.inr ⟨Or.inr (Or.inr hr), hu⟩
  · rintro (rfl | ⟨hl | rfl | hr, hu⟩)
    · exact ⟨Or.inr (Or.inl rfl), hused⟩
    · exact ⟨Or.inl hl, hu⟩
    · rw [hfree] at hu; cases hu
    · exact ⟨Or.inr (Or.inr (Or.inr hr)), hu⟩

/-! ## Giving a block back -/

/-- Two neighbouring blocks as one: the second's header becomes payload. -/
def join (H : Nat) (b c : Block) : Block := { b with size := b.size + (H + c.size) }

/-- Merge `b` with all the free blocks that follow it. -/
def absorb (H : Nat) (b : Block) : List Block → Block × List Block
  | [] => (b, [])
  | c :: r => if c.used then (b, c :: r) else absorb H (join H b c) r

/-- Free block `b` between `l` and `r`: merge it with the free blocks that follow, then with the
one before it if that one is free. -/
def releaseAt (H : Nat) (l : List Block) (b : Block) (r : List Block) : List Block :=
  let s := absorb H { b with used := false } r
  match l.getLast? with
  | some g => if g.used then l ++ s.1 :: s.2 else l.dropLast ++ join H g s.1 :: s.2
  | none => s.1 :: s.2

/-- Merging keeps a tiling. -/
theorem Tiled.absorb {a z : Nat} {b : Block} {r : List Block} (h : Tiled H a (b :: r) z) :
    Tiled H a ((Aerogel.absorb H b r).1 :: (Aerogel.absorb H b r).2) z := by
  induction r generalizing b with
  | nil => exact h
  | cons c r ih =>
      unfold Aerogel.absorb
      split
      · exact h
      · obtain ⟨hb, hc, hr⟩ := h
        refine ih ⟨hb, ?_⟩
        have : a + H + (join H b c).size = a + H + b.size + H + c.size := by
          simp only [join]; omega
        rw [this]
        exact hr

/-- Merging never changes the state of the block it grows. -/
theorem absorb_used (b : Block) (r : List Block) : (absorb H b r).1.used = b.used := by
  induction r generalizing b with
  | nil => rfl
  | cons c r ih =>
      unfold absorb
      split
      · rfl
      · rw [ih]; rfl

/-- Merging never moves the block it grows. -/
theorem absorb_addr (b : Block) (r : List Block) : (absorb H b r).1.addr = b.addr := by
  induction r generalizing b with
  | nil => rfl
  | cons c r ih =>
      unfold absorb
      split
      · rfl
      · rw [ih]; rfl

/-- Merging stops at a used block. -/
theorem absorb_head_used (b : Block) (r : List Block) :
    ∀ y ∈ (absorb H b r).2.head?, y.used = true := by
  induction r generalizing b with
  | nil => rintro y ⟨⟩
  | cons c r ih =>
      unfold absorb
      split
      · rename_i hc; rintro y ⟨⟩; exact hc
      · exact ih _

/-- What merging leaves behind it is a part of what followed. -/
theorem absorb_isChain {R : Block → Block → Prop} (b : Block) {r : List Block} (h : r.IsChain R) :
    (absorb H b r).2.IsChain R := by
  induction r generalizing b with
  | nil => exact h
  | cons c r ih =>
      unfold absorb
      split
      · exact h
      · exact ih _ h.tail

/-- Merging leaves nothing behind that was not there. -/
theorem absorb_subset (b : Block) (r : List Block) : (absorb H b r).2 ⊆ r := by
  induction r generalizing b with
  | nil => exact List.Subset.refl _
  | cons c r ih =>
      unfold absorb
      split
      · exact List.Subset.refl _
      · exact List.subset_cons_of_subset c (ih _)

/-- Merging keeps every used block. -/
theorem mem_absorb_used (b : Block) (r : List Block) {c : Block} :
    (c ∈ (absorb H b r).2 ∧ c.used = true) ↔ (c ∈ r ∧ c.used = true) := by
  induction r generalizing b with
  | nil => simp [absorb]
  | cons d r ih =>
      unfold absorb
      split
      · rfl
      · rename_i hd
        rw [ih, List.mem_cons]
        constructor
        · rintro ⟨h, hu⟩; exact ⟨Or.inr h, hu⟩
        · rintro ⟨rfl | h, hu⟩
          · exact absurd hu hd
          · exact ⟨h, hu⟩

/-- The two shapes of a release: no free block before, or one that is extended. -/
theorem releaseAt_cases (H : Nat) (l : List Block) (b : Block) (r : List Block) :
    ((∀ g ∈ l.getLast?, g.used = true) ∧
      releaseAt H l b r = l ++ (absorb H { b with used := false } r).1 ::
        (absorb H { b with used := false } r).2) ∨
    ∃ l' g, l = l' ++ [g] ∧ g.used = false ∧
      releaseAt H l b r = l' ++ join H g (absorb H { b with used := false } r).1 ::
        (absorb H { b with used := false } r).2 := by
  unfold releaseAt
  rcases List.eq_nil_or_concat' l with rfl | ⟨l', g, rfl⟩
  · exact Or.inl ⟨by simp, rfl⟩
  · simp only [List.getLast?_concat, List.dropLast_concat]
    cases hg : g.used with
    | true => exact Or.inl ⟨by rintro g' ⟨⟩; exact hg, rfl⟩
    | false => exact Or.inr ⟨l', g, rfl, hg, rfl⟩

/-- Releasing keeps a tiling. -/
theorem Tiled.releaseAt {a z : Nat} {b : Block} {l r : List Block}
    (h : Tiled H a (l ++ b :: r) z) : Tiled H a (Aerogel.releaseAt H l b r) z := by
  obtain ⟨m, h₁, h₂⟩ := append_iff.mp h
  have h₃ : Tiled H m ({ b with used := false } :: r) z := h₂
  have h₄ := h₃.absorb
  rcases releaseAt_cases H l b r with ⟨-, heq⟩ | ⟨l', g, rfl, -, heq⟩
  · rw [heq]
    exact append_iff.mpr ⟨m, h₁, h₄⟩
  · rw [heq]
    obtain ⟨k, h₅, hg, h₆⟩ := append_iff.mp h₁
    -- `g` ends where the released block starts, so the joined block fills both
    obtain rfl : k + H + g.size = m := h₆
    refine append_iff.mpr ⟨k, h₅, hg, ?_⟩
    obtain ⟨-, h₇⟩ := h₄
    simp only [join]
    rw [show ∀ x, k + H + (g.size + (H + x)) = k + H + g.size + H + x by intro x; omega]
    exact h₇

/-- Releasing leaves no two free neighbours. One backward merge is enough because the block before
a free one was used. -/
theorem NoAdjacentFree.releaseAt {b : Block} {l r : List Block}
    (h : NoAdjacentFree (l ++ b :: r)) : NoAdjacentFree (Aerogel.releaseAt H l b r) := by
  obtain ⟨hl, hbr, -⟩ := List.isChain_append.mp h
  have hr : r.IsChain _ := (List.isChain_cons.mp hbr).2
  have htail := absorb_isChain (H := H) { b with used := false } hr
  have hhead := absorb_head_used (H := H) { b with used := false } r
  rcases releaseAt_cases H l b r with ⟨hlast, heq⟩ | ⟨l', g, rfl, hg, heq⟩
  · rw [heq]
    refine List.isChain_append.mpr ⟨hl, List.isChain_cons.mpr ⟨?_, htail⟩, ?_⟩
    · exact fun y hy => Or.inr (hhead y hy)
    · exact fun x hx _ _ => Or.inl (hlast x hx)
  · rw [heq]
    -- `g` was free, so the block before `g` was used
    obtain ⟨hl', -, hlg⟩ := List.isChain_append.mp hl
    refine List.isChain_append.mpr ⟨hl', List.isChain_cons.mpr ⟨?_, htail⟩, ?_⟩
    · exact fun y hy => Or.inr (hhead y hy)
    · intro x hx y _
      have := hlg x hx g rfl
      rw [hg] at this
      exact Or.inl (this.resolve_right (by decide))

/-- After a release, the used blocks are those from before except the released one. -/
theorem mem_releaseAt_used {b : Block} {l r : List Block} {c : Block} :
    (c ∈ Aerogel.releaseAt H l b r ∧ c.used = true) ↔ ((c ∈ l ∨ c ∈ r) ∧ c.used = true) := by
  have hfree : (absorb H { b with used := false } r).1.used = false := absorb_used _ _
  have htail := mem_absorb_used (H := H) { b with used := false } r (c := c)
  rcases releaseAt_cases H l b r with ⟨-, heq⟩ | ⟨l', g, rfl, hg, heq⟩
  · rw [heq]
    simp only [List.mem_append, List.mem_cons]
    constructor
    · rintro ⟨hl | rfl | hr, hu⟩
      · exact ⟨Or.inl hl, hu⟩
      · rw [hfree] at hu; cases hu
      · exact ⟨Or.inr (htail.mp ⟨hr, hu⟩).1, hu⟩
    · rintro ⟨hl | hr, hu⟩
      · exact ⟨Or.inl hl, hu⟩
      · exact ⟨Or.inr (Or.inr (htail.mpr ⟨hr, hu⟩).1), hu⟩
  · rw [heq]
    simp only [List.mem_append, List.mem_cons, List.not_mem_nil, or_false]
    constructor
    · rintro ⟨hl | rfl | hr, hu⟩
      · exact ⟨Or.inl (Or.inl hl), hu⟩
      · rw [join, hg] at hu; cases hu
      · exact ⟨Or.inr (htail.mp ⟨hr, hu⟩).1, hu⟩
    · rintro ⟨(hl | rfl) | hr, hu⟩
      · exact ⟨Or.inl hl, hu⟩
      · rw [hg] at hu; cases hu
      · exact ⟨Or.inr (Or.inr (htail.mpr ⟨hr, hu⟩).1), hu⟩

/-! ## How much is handed out -/

/-- The bytes of a block that are handed out. -/
def Block.usedSize (b : Block) : Nat := if b.used then b.size else 0

/-- The sum of the sizes of the used blocks. -/
def usedBytes : List Block → Nat
  | [] => 0
  | b :: bs => b.usedSize + usedBytes bs

@[simp] theorem usedBytes_nil : usedBytes [] = 0 := rfl

@[simp] theorem usedBytes_cons (b : Block) (bs : List Block) :
    usedBytes (b :: bs) = b.usedSize + usedBytes bs := rfl

@[simp] theorem usedBytes_append (l r : List Block) :
    usedBytes (l ++ r) = usedBytes l + usedBytes r := by
  induction l with
  | nil => exact (Nat.zero_add _).symm
  | cons b l ih => rw [List.cons_append, usedBytes_cons, usedBytes_cons, ih, Nat.add_assoc]

@[simp] theorem Block.usedSize_of_used {b : Block} (h : b.used = true) : b.usedSize = b.size :=
  if_pos h

@[simp] theorem Block.usedSize_of_free {b : Block} (h : b.used = false) : b.usedSize = 0 := by
  rw [usedSize, h]
  rfl

/-- Carving a free block hands out the carved one. -/
theorem usedBytes_carve {slack n : Nat} {b : Block} {l r : List Block} (hfree : b.used = false) :
    usedBytes (l ++ (carve H slack n b ++ r)) =
      usedBytes (l ++ b :: r) + (carved H slack n b).size := by
  unfold carve carved
  split <;> simp [Block.usedSize, hfree] <;> omega

/-- Merging a block with the free ones behind it hands out nothing. -/
theorem usedBytes_absorb (b : Block) (r : List Block) : usedBytes (absorb H b r).2 = usedBytes r := by
  induction r generalizing b with
  | nil => rfl
  | cons c r ih =>
      unfold absorb
      split
      · rfl
      · rename_i hc
        rw [ih, usedBytes_cons, Block.usedSize_of_free (Bool.not_eq_true _ ▸ hc), Nat.zero_add]

/-- Releasing a used block takes back its size. -/
theorem usedBytes_releaseAt {b : Block} {l r : List Block} (hused : b.used = true) :
    usedBytes (releaseAt H l b r) + b.size = usedBytes (l ++ b :: r) := by
  have hfree : (absorb H { b with used := false } r).1.used = false := absorb_used _ _
  have hrest := usedBytes_absorb (H := H) { b with used := false } r
  rcases releaseAt_cases H l b r with ⟨-, heq⟩ | ⟨l', g, rfl, hg, heq⟩
  · rw [heq]
    simp [hused, hfree, hrest]
    omega
  · have hjoin : (join H g (absorb H { b with used := false } r).1).used = false := hg
    rw [heq]
    simp [hused, hg, hjoin, hrest]
    omega

/-- No more is handed out than there is. -/
theorem Tiled.usedBytes_le {a z : Nat} {bs : List Block} (h : Tiled H a bs z) :
    a + usedBytes bs ≤ z := by
  induction bs generalizing a with
  | nil => exact le_of_eq h
  | cons b bs ih =>
      have hrest := ih h.2
      have hb : b.usedSize ≤ b.size := by
        unfold Block.usedSize
        split <;> omega
      rw [usedBytes_cons]
      omega

/-- Nothing is handed out when no block is used. -/
theorem usedBytes_eq_zero {bs : List Block} (h : ∀ b ∈ bs, b.used = false) : usedBytes bs = 0 := by
  induction bs with
  | nil => rfl
  | cons b bs ih =>
      rw [usedBytes_cons, Block.usedSize_of_free (h b List.mem_cons_self),
        ih fun c hc => h c (List.mem_cons_of_mem _ hc)]

end Aerogel
