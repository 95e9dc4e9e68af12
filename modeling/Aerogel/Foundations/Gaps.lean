import Aerogel.Foundations.BlockList

/-! # The gaps between used blocks

A merged block list holds no information beyond its used blocks: `Tiled.eq_of_used` says that two
merged tilings of one interval with the same used blocks are equal, and `isGap_iff_free` that the
free blocks are the maximal stretches that no used block covers. Results about the operations follow
from what they do to the set of used blocks, in whatever order they merge. -/

namespace Aerogel

variable {H : Nat} {a z : Nat} {b c : Block} {bs bs' : List Block}

/-! ## Used blocks determine the list -/

/-- The block behind a free one is used. -/
theorem NoAdjacentFree.used_of_free (h : NoAdjacentFree (b :: c :: bs)) (hb : b.used = false) :
    c.used = true := by
  obtain ⟨hnext, -⟩ := List.isChain_cons.mp h
  have hbc := hnext c rfl
  rw [hb] at hbc
  exact hbc.resolve_left Bool.false_ne_true

/-- The block behind a block of a merged tiling, when the block is free. -/
theorem Tiled.next_of_free (h : Tiled H a (b :: bs) z) (hm : NoAdjacentFree (b :: bs))
    (hb : b.used = false) :
    (bs = [] ∧ a + H + b.size = z) ∨
      ∃ c ∈ bs, c.used = true ∧ c.addr = a + H + b.size := by
  cases bs with
  | nil => exact Or.inl ⟨rfl, h.2⟩
  | cons c bs => exact Or.inr ⟨c, List.mem_cons_self, hm.used_of_free hb, h.2.1⟩

/-- With the same used blocks, a free block at the same place does not end later. -/
theorem Tiled.size_le_of_used (hH : 0 < H) (h : Tiled H a (b :: bs) z)
    (hm : NoAdjacentFree (b :: bs)) (h' : Tiled H a (c :: bs') z) (hb : b.used = false)
    (hc : c.used = false) (hused : ∀ d, d.used = true → d ∈ b :: bs → d ∈ c :: bs') :
    c.size ≤ b.size := by
  by_contra hlt
  have haddr : c.addr = a := h'.1
  rcases h.next_of_free hm hb with ⟨-, hend⟩ | ⟨d, hd, hu, hdaddr⟩
  · have := (h'.mem_bounds (List.mem_cons_self : c ∈ c :: bs')).2
    omega
  · -- the used block behind `b` would lie inside `c`
    have hmem := hused d hu (List.mem_cons_of_mem _ hd)
    have hne : d ≠ c := by
      rintro rfl
      rw [hc] at hu
      cases hu
    have := h'.disjoint_of_ne hmem List.mem_cons_self hne
    omega

/-- A tiling with a block in it is not empty. -/
theorem Tiled.lt_of_cons (hH : 0 < H) (h : Tiled H a (b :: bs) z) : a < z := by
  have hstop := (h.mem_bounds (List.mem_cons_self : b ∈ b :: bs)).2
  have hstart : b.addr = a := h.1
  omega

/-- Merged tilings with the same used blocks begin with the same block. -/
theorem Tiled.head_eq_of_used (hH : 0 < H) (h : Tiled H a (b :: bs) z)
    (hm : NoAdjacentFree (b :: bs)) (h' : Tiled H a (c :: bs') z) (hm' : NoAdjacentFree (c :: bs'))
    (hused : ∀ d, d.used = true → (d ∈ b :: bs ↔ d ∈ c :: bs')) : b = c := by
  have haddr : b.addr = c.addr := h.1.trans h'.1.symm
  cases hb : b.used with
  | true => exact h'.eq_of_addr_eq hH ((hused b hb).mp List.mem_cons_self) List.mem_cons_self haddr
  | false =>
      cases hc : c.used with
      | true =>
          exact h.eq_of_addr_eq hH List.mem_cons_self ((hused c hc).mpr List.mem_cons_self) haddr
      | false =>
          have h₁ := h.size_le_of_used hH hm h' hb hc fun d hd => (hused d hd).mp
          have h₂ := h'.size_le_of_used hH hm' h hc hb fun d hd => (hused d hd).mpr
          have hsize : b.size = c.size := Nat.le_antisymm h₂ h₁
          have hflag : b.used = c.used := hb.trans hc.symm
          cases b
          cases c
          simp only at haddr hsize hflag
          rw [haddr, hsize, hflag]

/-- A merged tiling is determined by its used blocks. -/
theorem Tiled.eq_of_used (hH : 0 < H) (h : Tiled H a bs z) (hm : NoAdjacentFree bs)
    (h' : Tiled H a bs' z) (hm' : NoAdjacentFree bs')
    (hused : ∀ c, c.used = true → (c ∈ bs ↔ c ∈ bs')) : bs = bs' := by
  induction bs generalizing a bs' with
  | nil =>
      cases bs' with
      | nil => rfl
      | cons c bs' => exact absurd h (h'.lt_of_cons hH).ne
  | cons b bs ih =>
      cases bs' with
      | nil => exact absurd h' (h.lt_of_cons hH).ne
      | cons c bs' =>
          obtain rfl := h.head_eq_of_used hH hm h' hm' hused
          -- `b` itself is in neither rest: everything behind it has a higher address
          have hnot : ∀ {ds : List Block}, Tiled H (a + H + b.size) ds z → b ∉ ds := by
            intro ds hds hmem
            have hstart : b.addr = a := h.1
            have := (hds.mem_bounds hmem).1
            omega
          have hrest : ∀ d, d.used = true → (d ∈ bs ↔ d ∈ bs') := by
            intro d hd
            have hiff := hused d hd
            rw [List.mem_cons, List.mem_cons] at hiff
            constructor
            · intro hmem
              exact (hiff.mp (Or.inr hmem)).resolve_left fun heq => hnot h.2 (heq ▸ hmem)
            · intro hmem
              exact (hiff.mpr (Or.inr hmem)).resolve_left fun heq => hnot h'.2 (heq ▸ hmem)
          rw [ih h.2 (List.isChain_cons.mp hm).2 h'.2 (List.isChain_cons.mp hm').2 hrest]

/-! ## Gaps -/

/-- `[a, z)` is a maximal stretch of `[lo, hi)` without covered addresses. -/
structure IsGap (covered : Nat → Prop) (lo hi a z : Nat) : Prop where
  /-- The stretch begins inside. -/
  lo_le : lo ≤ a
  /-- There is something in it. -/
  lt : a < z
  /-- The stretch ends inside. -/
  le_hi : z ≤ hi
  /-- Nothing in it is covered. -/
  clear : ∀ x, a ≤ x → x < z → ¬ covered x
  /-- It cannot be extended to the left. -/
  left : a = lo ∨ covered (a - 1)
  /-- It cannot be extended to the right. -/
  right : z = hi ∨ covered z

/-- An address that belongs to a used block, its header included. -/
def CoveredBy (H : Nat) (bs : List Block) (x : Nat) : Prop :=
  ∃ b ∈ bs, b.used = true ∧ b.addr ≤ x ∧ x < b.addr + H + b.size

/-- Every address of a tiled interval belongs to a block. -/
theorem Tiled.exists_mem (h : Tiled H a bs z) {x : Nat} (hax : a ≤ x) (hxz : x < z) :
    ∃ l b r, bs = l ++ b :: r ∧ b.addr ≤ x ∧ x < b.addr + H + b.size := by
  induction bs generalizing a with
  | nil =>
      have hstop : a = z := h
      omega
  | cons b bs ih =>
      obtain ⟨hb, hrest⟩ := h
      rcases Nat.lt_or_ge x (a + H + b.size) with hlt | hge
      · exact ⟨[], b, bs, rfl, by omega, by omega⟩
      · obtain ⟨l, c, r, rfl, h₁, h₂⟩ := ih hrest hge
        exact ⟨b :: l, c, r, rfl, h₁, h₂⟩

/-- What lies in a free block is not covered. -/
theorem Tiled.not_coveredBy (h : Tiled H a bs z) (hb : b ∈ bs) (hfree : b.used = false) {x : Nat}
    (h₁ : b.addr ≤ x) (h₂ : x < b.addr + H + b.size) : ¬ CoveredBy H bs x := by
  rintro ⟨c, hc, hu, h₃, h₄⟩
  have hne : b ≠ c := by
    rintro rfl
    rw [hfree] at hu
    cases hu
  have := h.disjoint_of_ne hb hc hne
  omega

/-- In front of a free block of a merged tiling is the start or a used block. -/
theorem Tiled.left_of_free (hH : 0 < H) {l r : List Block} (h : Tiled H a (l ++ b :: r) z)
    (hm : NoAdjacentFree (l ++ b :: r)) (hfree : b.used = false) :
    b.addr = a ∨ CoveredBy H (l ++ b :: r) (b.addr - 1) := by
  obtain ⟨k, h₁, hk, -⟩ := Tiled.append_iff.mp h
  rcases List.eq_nil_or_concat' l with rfl | ⟨l', g, rfl⟩
  · have hstart : a = k := h₁
    exact Or.inl (hk.trans hstart.symm)
  · obtain ⟨-, -, hlast⟩ := List.isChain_append.mp hm
    have hgb := hlast g List.getLast?_concat b rfl
    rw [hfree] at hgb
    have hstop := h₁.getLast_stop (List.getLast?_concat : (l' ++ [g]).getLast? = some g)
    have hmem : g ∈ l' ++ [g] ++ b :: r :=
      List.mem_append_left _ (List.mem_append_right _ (List.mem_singleton_self g))
    exact Or.inr ⟨g, hmem, hgb.resolve_right Bool.false_ne_true, by omega, by omega⟩

/-- Behind a free block of a merged tiling is the end or a used block. -/
theorem Tiled.right_of_free (hH : 0 < H) {l r : List Block} (h : Tiled H a (l ++ b :: r) z)
    (hm : NoAdjacentFree (l ++ b :: r)) (hfree : b.used = false) :
    b.addr + H + b.size = z ∨ CoveredBy H (l ++ b :: r) (b.addr + H + b.size) := by
  obtain ⟨k, -, h₂⟩ := Tiled.append_iff.mp h
  obtain ⟨-, hmr, -⟩ := List.isChain_append.mp hm
  have hk : b.addr = k := h₂.1
  rcases h₂.next_of_free hmr hfree with ⟨-, hend⟩ | ⟨c, hc, hu, haddr⟩
  · exact Or.inl (by omega)
  · have hmem : c ∈ l ++ b :: r := List.mem_append_right _ (List.mem_cons_of_mem _ hc)
    exact Or.inr ⟨c, hmem, hu, by omega, by omega⟩

/-- The gaps of a merged tiling are its free blocks. -/
theorem isGap_iff_free {lo hi : Nat} (hH : 0 < H) (h : Tiled H lo bs hi) (hm : NoAdjacentFree bs) :
    IsGap (CoveredBy H bs) lo hi a z ↔
      ∃ b ∈ bs, b.used = false ∧ a = b.addr ∧ z = b.addr + H + b.size := by
  constructor
  · intro hgap
    have hlo := hgap.lo_le
    have hlt := hgap.lt
    have hhi := hgap.le_hi
    obtain ⟨l, b, r, rfl, h₁, h₂⟩ := h.exists_mem hlo (by omega)
    have hmem : b ∈ l ++ b :: r := List.mem_append_right _ List.mem_cons_self
    have hbounds := h.mem_bounds hmem
    have hfree : b.used = false := by
      rw [← Bool.not_eq_true]
      intro hu
      exact hgap.clear a le_rfl hlt ⟨b, hmem, hu, h₁, h₂⟩
    refine ⟨b, hmem, hfree, ?_, ?_⟩
    · -- to the left the stretch goes on as far as the block
      by_contra hne
      rcases hgap.left with heq | hcov
      · omega
      · exact h.not_coveredBy hmem hfree (by omega) (by omega) hcov
    · by_contra hne
      rcases Nat.lt_or_ge z (b.addr + H + b.size) with hshort | hlong
      · rcases hgap.right with heq | hcov
        · omega
        · exact h.not_coveredBy hmem hfree (by omega) (by omega) hcov
      · rcases h.right_of_free hH hm hfree with heq | hcov
        · omega
        · exact hgap.clear _ (by omega) (by omega) hcov
  · rintro ⟨b, hmem, hfree, rfl, rfl⟩
    obtain ⟨l, r, rfl⟩ := List.append_of_mem hmem
    have hbounds := h.mem_bounds hmem
    exact
      { lo_le := hbounds.1
        lt := by omega
        le_hi := hbounds.2
        clear := fun x h₁ h₂ => h.not_coveredBy hmem hfree h₁ h₂
        left := h.left_of_free hH hm hfree
        right := h.right_of_free hH hm hfree }

end Aerogel
