import Aerogel.Memory.HeapInvariant
import Mathlib.Data.Finset.Card

/-! # Code that owns some of the heap's allocations

A module of the kernel that keeps records on the heap only touches the allocations it owns. `Acts` says
this of a stretch of its code: the heap's invariant is kept, every allocation the code does not own is
still there with its bytes, and what the code owns afterwards it owned before or has been handed on the
way. Such stretches compose, so that a caller never looks at the block list again. -/

namespace Aerogel

variable {T : Target} {A : Arena T} {s s' s'' : HeapRun} {bs : List Block}
  {own own' own'' : Finset Nat} {m m' : Mem} {p q n : Nat}

/-- What is live after a pointer has been handed out. -/
theorem mem_gain {live : Finset Nat} : q ∈ gain live p ↔ q = p ∧ p ≠ 0 ∨ q ∈ live := by
  rw [gain]
  split_ifs with hp
  · simp [hp]
  · simp [hp]

/-! ## Reading kept payloads -/

/-- A record inside a payload that is kept reads the same. -/
theorem KeepsPayload.get_eq {F : Type} {L : StructLayout F} (h : KeepsPayload T m m' q)
    (hroom : L.size ≤ payload T m q) (f : F) : L.get m' q f = L.get m q f :=
  L.get_congr f fun x h₁ h₂ => h.bytes x h₁ (by omega)

/-- A live pointer is an address of the target, and so is the end of its payload. -/
theorem HeapInv.payload_stop_lt (h : HeapInv T A s bs) (hp : p ∈ s.live) :
    p + payload T s.heap.mem p < 2 ^ T.wordBits := by
  obtain ⟨b, hb, -, rfl⟩ := (h.live_iff p).mp hp
  have hbounds := h.laid.bounds hb
  have hstop := A.stop_lt
  rw [h.payload_eq hb]
  omega

/-- There are no more live pointers than blocks, and every block has a header. -/
theorem HeapInv.card_live_le (h : HeapInv T A s bs) : s.live.card * hdrBytes T ≤ A.size := by
  have hsub : s.live ⊆ (bs.map fun b => b.addr + hdrBytes T).toFinset := by
    intro p hp
    obtain ⟨b, hb, -, rfl⟩ := (h.live_iff p).mp hp
    exact List.mem_toFinset.mpr (List.mem_map.mpr ⟨b, hb, rfl⟩)
  have hcard : s.live.card ≤ bs.length := by
    calc s.live.card ≤ (bs.map fun b => b.addr + hdrBytes T).toFinset.card := Finset.card_le_card hsub
      _ ≤ (bs.map fun b => b.addr + hdrBytes T).length := List.toFinset_card_le _
      _ = bs.length := List.length_map _
  have htiled := h.laid.tiled.length_mul_le
  calc s.live.card * hdrBytes T ≤ bs.length * hdrBytes T := Nat.mul_le_mul_right _ hcard
    _ ≤ A.size := by omega

/-- Every live pointer has a header in front of it, so there are not many of them. -/
theorem HeapInv.length_lt_of_nodup (h : HeapInv T A s bs) {l : List Nat} (hnd : l.Nodup)
    (hlive : ∀ p ∈ l, p ∈ s.live) : l.length < 2 ^ 28 := by
  have hsub : l.toFinset ⊆ s.live := fun p hp => hlive p (List.mem_toFinset.mp hp)
  have hcard := Finset.card_le_card hsub
  rw [List.toFinset_card_of_nodup hnd] at hcard
  have hle := h.card_live_le
  have hsize := A.size_lt
  have hhdr : 20 ≤ hdrBytes T := by cases T <;> decide
  have hmul : s.live.card * 20 ≤ s.live.card * hdrBytes T := Nat.mul_le_mul_left _ hhdr
  omega

/-! ## Stretches of code and what they own -/

/-- From `s` to `s'`, code that owned `own` at the start and owns `own'` at the end has touched nothing
else. -/
structure Acts (T : Target) (A : Arena T) (s : HeapRun) (own : Finset Nat) (s' : HeapRun)
    (own' : Finset Nat) : Prop where
  /-- The heap's invariant holds at the end. -/
  inv : ∃ bs, HeapInv T A s' bs
  /-- What is owned is live. -/
  owned : own' ⊆ s'.live
  /-- Allocations of others are kept. -/
  keeps : ∀ q ∈ s.live, q ∉ own → q ∈ s'.live ∧ KeepsPayload T s.heap.mem s'.heap.mem q
  /-- What is owned at the end was owned at the start, or is new. -/
  fresh : ∀ q ∈ own', q ∈ own ∨ q ∉ s.live

namespace Acts

/-- One stretch after the other. -/
theorem trans (h : Acts T A s own s' own') (h' : Acts T A s' own' s'' own'') :
    Acts T A s own s'' own'' where
  inv := h'.inv
  owned := h'.owned
  keeps q hq hnot := by
    obtain ⟨hq', hkeep⟩ := h.keeps q hq hnot
    have hnot' : q ∉ own' := by
      intro hmem
      rcases h.fresh q hmem with hown | hfresh
      · exact hnot hown
      · exact hfresh hq
    obtain ⟨hq'', hkeep'⟩ := h'.keeps q hq' hnot'
    exact ⟨hq'', hkeep.trans hkeep'⟩
  fresh q hq := by
    by_cases hmem : q ∈ own'
    · exact h.fresh q hmem
    · -- what the second stretch was handed was not live in between
      have hnew := (h'.fresh q hq).resolve_left hmem
      by_contra hold
      rw [not_or, not_not] at hold
      exact hnew (h.keeps q hold.2 hold.1).1

/-- Owning more at the start, or claiming less at the end. -/
theorem weaken (h : Acts T A s own s' own') {big small : Finset Nat} (hbig : own ⊆ big)
    (hsmall : small ⊆ own') : Acts T A s big s' small where
  inv := h.inv
  owned := hsmall.trans h.owned
  keeps q hq hnot := h.keeps q hq fun hmem => hnot (hbig hmem)
  fresh q hq := (h.fresh q (hsmall hq)).imp_left fun hmem => hbig hmem

/-- Allocations that are left alone stay with their owner. -/
theorem frame (h : Acts T A s own s' own') {rest : Finset Nat} (hlive : rest ⊆ s.live)
    (hdisj : ∀ q ∈ rest, q ∉ own) : Acts T A s (own ∪ rest) s' (own' ∪ rest) where
  inv := h.inv
  owned := Finset.union_subset h.owned fun q hq => (h.keeps q (hlive hq) (hdisj q hq)).1
  keeps q hq hnot := h.keeps q hq fun hmem => hnot (Finset.mem_union_left _ hmem)
  fresh q hq := by
    rcases Finset.mem_union.mp hq with hq | hq
    · exact (h.fresh q hq).imp_left fun hmem => Finset.mem_union_left _ hmem
    · exact Or.inl (Finset.mem_union_right _ hq)

/-- Doing nothing. -/
theorem refl (h : HeapInv T A s bs) (hown : own ⊆ s.live) : Acts T A s own s own :=
  ⟨⟨bs, h⟩, hown, fun q hq _ => ⟨hq, .refl _ q⟩, fun _ hq => Or.inl hq⟩

/-- Writing into a payload that is owned. -/
theorem write (h : HeapInv T A s bs) (hown : own ⊆ s.live) (hp : p ∈ own)
    (hm : ∀ x, x < p ∨ p + payload T s.heap.mem p ≤ x → m' x = s.heap.mem x) :
    Acts T A s own { s with heap := { s.heap with mem := m' } } own where
  inv := ⟨bs, h.of_payload_write (hown hp) hm⟩
  owned := hown
  keeps _ hq hnot :=
    ⟨hq, h.keeps_of_payload_write (hown hp) hq (fun heq => hnot (heq ▸ hp)) hm⟩
  fresh _ hq := Or.inl hq

/-- A pointer that `kmalloc` returns is owned from then on, unless it is null. -/
theorem kmalloc (h : HeapInv T A s bs) (hsafe : A.SplitSafe) (hown : own ⊆ s.live) {h' : Heap}
    (hrun : Aerogel.kmalloc T s.heap n = .ok (p, h')) :
    Acts T A s own ⟨h', gain s.live p⟩ (gain own p) := by
  obtain ⟨bs', hinv, -, -, hold⟩ := h.kmalloc hsafe hrun
  refine ⟨⟨bs', hinv⟩, fun q hq => ?_, fun q hq _ => ⟨?_, (hold q hq).2⟩, fun q hq => ?_⟩
  · rw [mem_gain] at hq ⊢
    exact hq.imp_right fun hmem => hown hmem
  · exact mem_gain.mpr (Or.inr hq)
  · rcases mem_gain.mp hq with ⟨rfl, -⟩ | hmem
    · exact Or.inr fun hlive => (hold q hlive).1 rfl
    · exact Or.inl hmem

/-- `krealloc` exchanges the pointer it is given for the one it returns. -/
theorem krealloc (h : HeapInv T A s bs) (hsafe : A.SplitSafe) {h' : Heap} (hp : p = 0 ∨ p ∈ s.live)
    (hn0 : n ≠ 0) (hn : n + 7 < 2 ^ T.wordBits)
    (hrun : Aerogel.krealloc T s.heap p n = .ok (q, h')) :
    Acts T A s (gain ∅ p) ⟨h', gain (s.live.erase p) q⟩ {q} := by
  obtain ⟨bs', hinv, hq0, -, hfresh, -, hold⟩ := h.krealloc hsafe hp hn0 hn hrun
  refine ⟨⟨bs', hinv⟩, fun r hr => ?_, fun r hr hnot => ?_, fun r hr => ?_⟩
  · exact mem_gain.mpr (Or.inl ⟨Finset.mem_singleton.mp hr, hq0⟩)
  · have hr0 : r ≠ 0 := fun h0 => h.zero_notMem (h0 ▸ hr)
    have hrp : r ≠ p := fun heq => hnot (mem_gain.mpr (Or.inl ⟨heq, heq ▸ hr0⟩))
    exact ⟨mem_gain.mpr (Or.inr (Finset.mem_erase.mpr ⟨hrp, hr⟩)), (hold r hr hrp).2⟩
  · obtain rfl := Finset.mem_singleton.mp hr
    exact hfresh.imp_left fun heq => mem_gain.mpr (Or.inl ⟨heq, heq ▸ hq0⟩)

end Acts

/-- What `kmalloc` has handed out when it returns `p` for a request of `n` bytes: a new allocation with
room for them. The others are kept. -/
structure Handed (T : Target) (h : Heap) (live : Finset Nat) (n p : Nat) (h' : Heap) : Prop where
  ne_zero : p ≠ 0
  new : p ∉ live
  room : n ≤ payload T h'.mem p
  keeps : ∀ q ∈ live, KeepsPayload T h.mem h'.mem q

/-- A request that is not 0 and does not wrap is met in full. -/
theorem HeapInv.handed {h h' : Heap} {live : Finset Nat} (hinv : HeapInv T A ⟨h, live⟩ bs)
    (hsafe : A.SplitSafe) (hown : own ⊆ live) (hn0 : n ≠ 0) (hn : n + 7 < 2 ^ T.wordBits)
    (hrun : Aerogel.kmalloc T h n = .ok (p, h')) :
    Handed T h live n p h' ∧ Acts T A ⟨h, live⟩ own ⟨h', insert p live⟩ (insert p own) := by
  obtain ⟨-, -, hres, hroom, hold⟩ := hinv.kmalloc hsafe hrun
  have hp0 := hres hn0
  have hacts := Acts.kmalloc hinv hsafe hown hrun
  rw [gain, gain, if_neg hp0, if_neg hp0] at hacts
  exact ⟨⟨hp0, fun hp => (hold p hp).1 rfl, (le_request hn).trans (hroom hp0),
    fun q hq => (hold q hq).2⟩, hacts⟩

/-! ## Calls that return -/

/-- The call returns, or panics because no block of the heap is large enough. -/
def ReturnsUnlessFull {α : Type} (x : Except Halt α) : Prop :=
  (∃ r, x = .ok r) ∨
    ∃ arg, x = .error (.panic "kmalloc: out of heap memory (requested %u bytes)" arg)

/-- A sequence of such calls. -/
theorem ReturnsUnlessFull.bind {α β : Type} {x : Except Halt α} {f : α → Except Halt β}
    (hx : ReturnsUnlessFull x) (hf : ∀ r, x = .ok r → ReturnsUnlessFull (f r)) :
    ReturnsUnlessFull (x >>= f) := by
  rcases hx with ⟨r, rfl⟩ | ⟨arg, rfl⟩
  · exact hf r rfl
  · exact Or.inr ⟨arg, rfl⟩

/-- `kmalloc` has no other way to end. -/
theorem HeapInv.kmalloc_returns (h : HeapInv T A s bs) (hsafe : A.SplitSafe) (n : Nat) :
    ReturnsUnlessFull (Aerogel.kmalloc T s.heap n) := by
  by_cases hn0 : n = 0
  · subst hn0
    exact Or.inl ⟨_, HeapInv.kmalloc_zero _⟩
  · rcases kmalloc_spec h.laid hsafe hn0 with ⟨-, herr⟩ | ⟨_, _, _, _, -, -, -, -, hok, -⟩
    · exact Or.inr ⟨_, herr⟩
    · exact Or.inl ⟨_, hok⟩

/-- Neither has `krealloc` of a live or null pointer. -/
theorem HeapInv.krealloc_returns (h : HeapInv T A s bs) (hsafe : A.SplitSafe)
    (hp : p = 0 ∨ p ∈ s.live) (hn0 : n ≠ 0) (hn : n + 7 < 2 ^ T.wordBits) :
    ReturnsUnlessFull (Aerogel.krealloc T s.heap p n) := by
  by_cases hp0 : p = 0
  · subst hp0
    exact h.kmalloc_returns hsafe n
  have hlive := hp.resolve_left hp0
  rw [h.krealloc_eq hlive hn0]
  split_ifs with hfit
  · exact Or.inl ⟨_, rfl⟩
  refine (h.kmalloc_returns hsafe n).bind fun ⟨nb, h₁⟩ hmalloc => ?_
  -- the old block is still live after the copy, so it can be freed
  obtain ⟨bs₁, hinv₁, hres, -, -⟩ := h.kmalloc hsafe hmalloc
  have hnb : nb ∈ gain s.live nb := mem_gain.mpr (Or.inl ⟨rfl, hres hn0⟩)
  have hinv₂ := hinv₁.of_payload_write hnb fun x =>
    h.krealloc_copy hsafe hlive hn (Nat.lt_of_not_le hfit) hmalloc (x := x)
  obtain ⟨h₂, -, hfree, -⟩ := hinv₂.kfree (mem_gain.mpr (Or.inr hlive))
  exact Or.inl ⟨(nb, h₂), bind_eq_ok.mpr ⟨h₂, hfree, rfl⟩⟩

end Aerogel
