import Aerogel.Filesystem.TmpfsRuns

/-! # What tmpfs gives away of old memory

Neither `kmalloc` nor `krealloc` clears what it hands out, and `tmpfs.c` does not either: a file made from
a null pointer, or one that is written behind its end, shows bytes that an earlier owner of the memory has
left. Two runs of the same calls return the same as long as every position that is read has been stored to;
they need not when one has not, even if they start from heaps that only differ in free memory. -/

namespace Aerogel

variable {T : Target} {A : Arena T} {C : TmpfsCode} {live : Finset Nat}

/-! ## Two runs -/

/-- Two heaps with the same blocks whose memories only differ in free payloads. -/
structure SameBlocks (T : Target) (s₁ s₂ : HeapRun) : Prop where
  head : s₁.heap.heapHead = s₂.heap.heapHead
  used : s₁.heap.heapUsed = s₂.heap.heapUsed
  live : s₁.live = s₂.live
  blocks : ∃ bs, heapBlocks T s₁.heap = .ok bs ∧ heapBlocks T s₂.heap = .ok bs ∧
    ∀ x, (∀ b ∈ bs, b.used = false → x < b.addr + hdrBytes T ∨ b.addr + hdrBytes T + b.size ≤ x) →
      s₁.heap.mem x = s₂.heap.mem x

/-- All runs of these calls from the two heaps return the same. -/
def SameAnswers (T : Target) (C : TmpfsCode) (s₁ s₂ : HeapRun) (ops : List TmpfsOp) : Prop :=
  ∀ es₁ es₂ t₁ t₂, Run (TmpfsStep T C) ⟨s₁.heap, []⟩ es₁ t₁ → Run (TmpfsStep T C) ⟨s₂.heap, []⟩ es₂ t₂ →
    es₁.map Prod.fst = ops → es₂.map Prod.fst = ops → es₁ = es₂

/-- The call is answered from what the file's own history says: a read only returns positions that were
stored to, and a null pointer comes with a size that can be rounded up. -/
def TmpfsOp.Determined (T : Target) (ns : List NodeSpec) : TmpfsOp → Prop
  | .read i off sz => ∀ f, ns[i]? = some (.file f) → f.Covers off sz
  | .mkfile _ _ (.null size) => size + 7 < 2 ^ T.wordBits
  | _ => True

/-- Every call of the sequence is determined when its turn comes. -/
def AllDetermined (T : Target) : List NodeSpec → List TmpfsOp → Prop
  | _, [] => True
  | ns, op :: ops => op.Determined T ns ∧ AllDetermined T (op.apply ns) ops

variable {ns : List NodeSpec} {op : TmpfsOp} {out out' : TmpfsOut}

theorem TmpfsOp.Determined.nullFits (hd : op.Determined T ns) : op.NullFits T := by
  cases op with
  | mkfile i name data =>
      cases data with
      | null size => exact hd
      | buffer bytes => trivial
  | create name => trivial
  | mkdir i name => trivial
  | write i off buf => trivial
  | read i off sz => trivial

/-- A determined call has one answer. -/
theorem Answers.unique (h₁ : Answers ns op out) (h₂ : Answers ns op out') (hd : op.Determined T ns) :
    out = out' := by
  cases h₁ with
  | create => cases h₂; rfl
  | mkdir => cases h₂; rfl
  | mkfile => cases h₂; rfl
  | write => cases h₂; rfl
  | read hf hreads =>
      cases h₂ with
      | read hf' hreads' =>
          obtain rfl := NodeSpec.file.inj (Option.some.inj (hf.symm.trans hf'))
          obtain ⟨rfl, rfl⟩ := hreads.unique hreads' (hd _ hf)
          rfl

/-- Two runs of the same calls from states that show the same nodes return the same. -/
theorem TmpfsInv.sameAnswers (hsafe : A.SplitSafe) {A' : Arena T} (hsafe' : A'.SplitSafe)
    {s s' t t' : TmpfsRun} {live' : Finset Nat} {objs objs' : List TmpObj} {k k' : Nat}
    {es es' : List (TmpfsOp × TmpfsOut)} (hinv : TmpfsInv T A s ns live objs k)
    (hinv' : TmpfsInv T A' s' ns live' objs' k') (hrun : Run (TmpfsStep T C) s es t)
    (hrun' : Run (TmpfsStep T C) s' es' t') (hops : es.map Prod.fst = es'.map Prod.fst)
    (hdet : AllDetermined T ns (es.map Prod.fst)) : es = es' := by
  induction hrun generalizing ns live objs k s' live' objs' k' es' with
  | nil _ =>
      cases hrun' with
      | nil _ => rfl
      | cons _ _ => cases hops
  | @cons _ _ _ e es hstep _ ih =>
      cases hrun' with
      | nil _ => cases hops
      | @cons _ _ _ e' es' hstep' hrest' =>
          obtain ⟨op, out⟩ := e
          obtain ⟨op', out'⟩ := e'
          obtain ⟨rfl, htail⟩ := List.cons_eq_cons.mp hops
          obtain ⟨hd, hdet⟩ := hdet
          obtain ⟨_, _, _, hinv₁, hanswers, -⟩ := hinv.step hsafe hd.nullFits hstep
          obtain ⟨_, _, _, hinv₁', hanswers', -⟩ := hinv'.step hsafe' hd.nullFits hstep'
          obtain rfl := hanswers.unique hanswers' hd
          rw [ih hinv₁ hinv₁' hrest' htail hdet]

/-- Runs of the same calls from any two reachable heaps, whatever their free memory holds, return the same
if every position that is read was covered by the initial data or an earlier write. -/
theorem sameAnswers_of_determined (A : Arena T) (hsafe : A.SplitSafe) (m₁ m₂ : Mem) (s₁ s₂ : HeapRun)
    (hs₁ : Reachable (HeapStep T) (heapBoot T A m₁) s₁) (hs₂ : Reachable (HeapStep T) (heapBoot T A m₂) s₂)
    (C : TmpfsCode) (ops : List TmpfsOp) (hdet : AllDetermined T [] ops) :
    SameAnswers T C s₁ s₂ ops := by
  intro es₁ es₂ t₁ t₂ hrun₁ hrun₂ hops₁ hops₂
  obtain ⟨bs₁, hinv₁⟩ := heapInv_of_reachable hsafe hs₁
  obtain ⟨bs₂, hinv₂⟩ := heapInv_of_reachable hsafe hs₂
  exact TmpfsInv.sameAnswers hsafe hsafe (.start hinv₁) (.start hinv₂) hrun₁ hrun₂
    (hops₁.trans hops₂.symm) (hops₁ ▸ hdet)

/-- On the kernel heap right after boot, whatever the free memory was filled with: a file with data reads
the same. -/
theorem sameAnswers_kernelArena : ∃ es t₁ t₂,
    es.map Prod.fst = [.create 0, .mkfile 0 0 (.buffer [65, 66, 67]), .read 1 0 3] ∧
    Run (TmpfsStep .x86 ⟨0, 0, 0, 0⟩)
      ⟨(heapBoot .x86 (kernelArena .x86) (filledArena .x86 0)).heap, []⟩ es t₁ ∧
    Run (TmpfsStep .x86 ⟨0, 0, 0, 0⟩)
      ⟨(heapBoot .x86 (kernelArena .x86) (filledArena .x86 1)).heap, []⟩ es t₂ := by
  have hdet : AllDetermined .x86 [] [.create 0, .mkfile 0 0 (.buffer [65, 66, 67]), .read 1 0 3] := by
    refine ⟨trivial, trivial, fun f hf => ?_, trivial⟩
    obtain rfl := NodeSpec.file.inj (Option.some.inj hf)
    decide
  have hreturns := fun v => Blank.exists_run (blank_kernelArena .x86 v (by decide)) (kernelArena_splitSafe .x86)
    ⟨0, 0, 0, 0⟩ (show (FileData.buffer [65, 66, 67]).size ≠ 0 by decide) (by decide)
  obtain ⟨t₁, node₁, hrun₁, hnode₁, -⟩ := hreturns 0
  obtain ⟨t₂, node₂, hrun₂, hnode₂, -⟩ := hreturns 1
  have hread : (TmpfsOp.read 1 0 3).Typed .x86 := ⟨by decide, by decide⟩
  have hfull₁ := hrun₁.append (.single (.read hnode₁ hread))
  have hfull₂ := hrun₂.append (.single (.read hnode₂ hread))
  have hsame := sameAnswers_of_determined (kernelArena .x86) (kernelArena_splitSafe .x86) _ _ _ _
    (.refl _) (.refl _) ⟨0, 0, 0, 0⟩ _ hdet _ _ _ _ hfull₁ hfull₂ rfl rfl
  exact ⟨_, t₁, t₂, rfl, hfull₁, hsame ▸ hfull₂⟩

/-! ## The leak -/

/-- Kernel heaps that were filled with different bytes have the same blocks and only differ in free
memory. -/
theorem sameBlocks_kernelArena (T : Target) (v w : UInt8) :
    SameBlocks T (heapBoot T (kernelArena T) (filledArena T v))
      (heapBoot T (kernelArena T) (filledArena T w)) := by
  refine ⟨rfl, rfl, rfl, _, (HeapInv.boot _ _).heapBlocks_eq, (HeapInv.boot _ _).heapBlocks_eq,
    fun x hx => ?_⟩
  have hfree := hx (kernelArena T).whole (List.mem_singleton_self _) rfl
  have hstart : (kernelArena T).whole.addr = (kernelArena T).start := rfl
  have hsize : (kernelArena T).whole.size = (kernelArena T).size - hdrBytes T := rfl
  have hle := (kernelArena T).hdr_le
  have hout : filledArena T v x = filledArena T w x := by
    rw [filledArena, filledArena, if_neg (by omega), if_neg (by omega)]
  -- `heap_init` writes the same header into both memories
  simp only [heapBoot, heapInit, hdrSet, StructLayout.set, Mem.store, hout]

/-- The calls of a program that makes a file of 8 bytes from a null pointer and reads one of them. -/
def nullFileOps : List TmpfsOp := [.create 0, .mkfile 0 0 (.null 8), .read 1 0 1]

/-- They return a byte of the memory's earlier contents. -/
theorem nullFileOps_returns (C : TmpfsCode) (v : UInt8) :
    ∃ s, Run (TmpfsStep .x86 C) ⟨(heapBoot .x86 (kernelArena .x86) (filledArena .x86 v)).heap, []⟩
      [(.create 0, .made), (.mkfile 0 0 (.null 8), .made), (.read 1 0 1, .got 1 [v])] s := by
  obtain ⟨s, node, hrun, hnode, hread⟩ := Blank.exists_run (blank_kernelArena .x86 v (by decide))
    (kernelArena_splitSafe .x86) C (show (FileData.null 8).size ≠ 0 by decide) (by decide)
  have hstep : TmpfsStep .x86 C s (.read 1 0 1, .got 1 [v]) s := by
    have htyped : (TmpfsOp.read 1 0 1).Typed .x86 := ⟨by decide, by decide⟩
    have hgot := TmpfsStep.read (C := C) hnode htyped
    rwa [hread 8 rfl] at hgot
  exact ⟨s, hrun.append (.single hstep)⟩

/-- Two kernel heaps with the same blocks, right after boot, from which the same three calls return
different bytes. -/
theorem kernelArena_not_sameAnswers : ∃ s₁ s₂ : HeapRun,
    Reachable (HeapStep .x86) (heapBoot .x86 (kernelArena .x86) (filledArena .x86 0)) s₁ ∧
    Reachable (HeapStep .x86) (heapBoot .x86 (kernelArena .x86) (filledArena .x86 1)) s₂ ∧
    SameBlocks .x86 s₁ s₂ ∧ ¬ SameAnswers .x86 ⟨0, 0, 0, 0⟩ s₁ s₂ nullFileOps := by
  refine ⟨_, _, .refl _, .refl _, sameBlocks_kernelArena .x86 0 1, fun hsame => ?_⟩
  obtain ⟨t₁, hrun₁⟩ := nullFileOps_returns ⟨0, 0, 0, 0⟩ 0
  obtain ⟨t₂, hrun₂⟩ := nullFileOps_returns ⟨0, 0, 0, 0⟩ 1
  have heq := hsame _ _ _ _ hrun₁ hrun₂ rfl rfl
  simp at heq

end Aerogel
