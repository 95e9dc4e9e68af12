import Aerogel.Memory.HeapBlocks
import Aerogel.Memory.HeapOwners

/-! # Allocating from a heap with room

To exhibit a run of code that allocates one has to know that its allocations succeed. `Blank` says that
some free block has room for `N` bytes and that all free payloads are filled with one byte; it is kept by
small allocations, with a smaller `N`, and by writes into live payloads. What a new payload holds before
it is written to is that byte. -/

namespace Aerogel

variable {T : Target} {A : Arena T} {h : Heap} {live : Finset Nat} {bs : List Block} {N n p : Nat}
  {v : UInt8}

/-- Every byte of every free payload is `v`. -/
def FreeFilled (T : Target) (m : Mem) (bs : List Block) (v : UInt8) : Prop :=
  ∀ b ∈ bs, b.used = false → ∀ x, b.addr + hdrBytes T ≤ x → x < b.addr + hdrBytes T + b.size → m x = v

/-- A heap with a free block of `N` bytes whose free payloads are filled with `v`. -/
def Blank (T : Target) (A : Arena T) (h : Heap) (live : Finset Nat) (N : Nat) (v : UInt8) : Prop :=
  ∃ bs, HeapInv T A ⟨h, live⟩ bs ∧ (∃ b ∈ bs, Fits N b) ∧ FreeFilled T h.mem bs v

/-- The heap is in order. -/
theorem Blank.heapInv (hb : Blank T A h live N v) : ∃ bs, HeapInv T A ⟨h, live⟩ bs := by
  obtain ⟨bs, hinv, -⟩ := hb
  exact ⟨bs, hinv⟩

/-- Less room. -/
theorem Blank.mono (hb : Blank T A h live N v) {N' : Nat} (hN : N' ≤ N) : Blank T A h live N' v := by
  obtain ⟨bs, hinv, ⟨b, hmem, hfree, hsize⟩, hfill⟩ := hb
  exact ⟨bs, hinv, ⟨b, hmem, hfree, hN.trans hsize⟩, hfill⟩

/-- Writes into a live payload. -/
theorem Blank.write (hb : Blank T A h live N v) (m' : Mem) (hp : p ∈ live)
    (hm : ∀ x, x < p ∨ p + payload T h.mem p ≤ x → m' x = h.mem x) :
    Blank T A { h with mem := m' } live N v := by
  obtain ⟨bs, hinv, hroom, hfill⟩ := hb
  refine ⟨bs, hinv.of_payload_write hp hm, hroom, fun b hmem hfree x h₁ h₂ => ?_⟩
  obtain ⟨c, hc, hused, rfl⟩ := (hinv.live_iff p).mp hp
  have hpay : payload T h.mem (c.addr + hdrBytes T) = c.size := hinv.payload_eq hc
  have hne : b ≠ c := by
    intro heq
    rw [heq, hused] at hfree
    cases hfree
  have hdisj := hinv.laid.tiled.disjoint_of_ne hmem hc hne
  exact (hm x (by omega)).trans (hfill b hmem hfree x h₁ h₂)

/-- A free block of the list after `kmalloc` lies inside a free block of the list before. -/
theorem exists_free_of_carve {H slack k : Nat} {l r : List Block} {b c : Block} (hfree : b.used = false)
    (hc : c ∈ l ++ (carve H slack k b ++ r)) (hcfree : c.used = false) :
    ∃ c₀ ∈ l ++ b :: r, c₀.used = false ∧ c₀.addr ≤ c.addr ∧ c.addr + c.size ≤ c₀.addr + c₀.size := by
  rcases List.mem_append.mp hc with hc | hc
  · exact ⟨c, List.mem_append_left _ hc, hcfree, le_rfl, le_rfl⟩
  rcases List.mem_append.mp hc with hc | hc
  · refine ⟨b, by simp, hfree, ?_⟩
    rw [carve] at hc
    split_ifs at hc with hsmall
    · rw [List.mem_singleton.mp hc] at hcfree
      cases hcfree
    · rcases List.mem_cons.mp hc with rfl | hc
      · cases hcfree
      · obtain rfl := List.mem_singleton.mp hc
        exact ⟨by simp only; omega, by simp only; omega⟩
  · exact ⟨c, by simp [hc], hcfree, le_rfl, le_rfl⟩

/-- The block with room is still there, or what is left of it. -/
theorem exists_fits_carve {H slack k : Nat} {l r : List Block} {b c : Block} (hfree : b.used = false)
    (hc : c ∈ l ++ b :: r) (hfit : Fits N c) (hN : k + H + slack ≤ N) :
    ∃ c' ∈ l ++ (carve H slack k b ++ r), Fits (N - k - H) c' := by
  have hsize := hfit.2
  rcases List.mem_append.mp hc with hc | hc
  · exact ⟨c, List.mem_append_left _ hc, hfit.1, by omega⟩
  rcases List.mem_cons.mp hc with rfl | hc
  · refine ⟨⟨c.addr + H + k, c.size - k - H, false⟩, ?_, rfl, by simp only; omega⟩
    rw [carve, if_neg (by omega)]
    simp
  · exact ⟨c, by simp [hc], hfit.1, by omega⟩

/-- A small allocation succeeds, and its payload is filled with the byte of the free payloads. -/
theorem Blank.kmalloc (hb : Blank T A h live N v) (hsafe : A.SplitSafe) (hn0 : n ≠ 0) (hn : n ≤ 400)
    (hN : 512 ≤ N) :
    ∃ p h', Aerogel.kmalloc T h n = .ok (p, h') ∧ Handed T h live n p h' ∧
      Blank T A h' (insert p live) (N - 512) v ∧ ∀ x, p ≤ x → x < p + n → h'.mem x = v := by
  obtain ⟨bs, hinv, ⟨c, hc, hfit⟩, hfill⟩ := hb
  have hword := T.two_pow_32_le
  have hreq : request T n ≤ n + 7 ∧ n ≤ request T n := by
    rw [request_eq (by omega), roundUp8]
    omega
  have hhdr : hdrBytes T ≤ 32 := by cases T <;> decide
  have hslack : minSplit = 32 := rfl
  rcases kmalloc_spec hinv.laid hsafe hn0 with ⟨hnone, -⟩ | ⟨_, _, _, h', -, -, -, -, hrun, -⟩
  · have hsize := hfit.2
    exact absurd ⟨hfit.1, by omega⟩ (hnone c hc)
  obtain ⟨l, b, r, rfl, hbfit, -, heq, hinv', -, hframe⟩ := hinv.kmalloc_carves hsafe hn0 hrun
  rw [heq] at hrun hinv'
  have hp0 : b.addr + hdrBytes T ≠ 0 := by have := hdrBytes_pos T; omega
  rw [gain, if_neg hp0] at hinv'
  have hb : b ∈ l ++ b :: r := by simp
  refine ⟨_, h', hrun, (hinv.handed hsafe (Finset.empty_subset _) hn0 (by omega) hrun).1,
    ⟨_, hinv', ?_, fun d hd hdfree x h₁ h₂ => ?_⟩, fun x h₁ h₂ => ?_⟩
  · obtain ⟨c', hc', hfree', hsize'⟩ :
        ∃ c' ∈ l ++ (carve (hdrBytes T) minSplit (request T n) b ++ r),
          Fits (N - request T n - hdrBytes T) c' :=
      exists_fits_carve hbfit.1 hc hfit (by omega)
    exact ⟨c', hc', hfree', by omega⟩
  · obtain ⟨d₀, hd₀, hfree₀, hlo, hhi⟩ := exists_free_of_carve hbfit.1 hd hdfree
    rw [hframe x (hinv.laid.tiled.payload_not_inHeaders hd₀ (by omega) (by omega))
      (hinv'.laid.tiled.payload_not_inHeaders hd h₁ h₂)]
    exact hfill d₀ hd₀ hfree₀ x (by omega) (by omega)
  · have hcarved : carved (hdrBytes T) minSplit (request T n) b ∈
        l ++ (carve (hdrBytes T) minSplit (request T n) b ++ r) :=
      ((mem_carve_used hbfit.1).mpr (Or.inl rfl)).1
    have hsize : request T n ≤ (carved (hdrBytes T) minSplit (request T n) b).size :=
      le_carved_size hbfit.2
    have hbsize := hbfit.2
    have haddr : (carved (hdrBytes T) minSplit (request T n) b).addr = b.addr := rfl
    rw [hframe x (hinv.laid.tiled.payload_not_inHeaders hb h₁ (by omega))
      (hinv'.laid.tiled.payload_not_inHeaders hcarved (by omega) (by omega))]
    exact hfill b hb hbfit.1 x h₁ (by omega)

/-- A fresh heap in memory that is filled with one byte. -/
theorem Blank.boot (A : Arena T) {m : Mem}
    (hm : ∀ x, A.start + hdrBytes T ≤ x → x < A.start + A.size → m x = v) :
    Blank T A (heapBoot T A m).heap ∅ (A.size - hdrBytes T) v := by
  refine ⟨[A.whole], .boot A m, ⟨A.whole, List.mem_singleton_self _, rfl, le_rfl⟩,
    fun b hb _ x h₁ h₂ => ?_⟩
  obtain rfl := List.mem_singleton.mp hb
  have hhdr := A.hdr_le
  have hstart : A.whole.addr = A.start := rfl
  have hsize : A.whole.size = A.size - hdrBytes T := rfl
  have hout : x < A.start ∨ A.start + hdrBytes T ≤ x := Or.inr (by omega)
  have hmem : (heapBoot T A m).heap.mem x = m x := by
    simp only [heapBoot, heapInit, hdrSet_apply_of_outside hout]
  rw [hmem]
  exact hm x (by omega) (by omega)

end Aerogel
