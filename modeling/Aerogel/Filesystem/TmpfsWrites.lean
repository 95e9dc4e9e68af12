import Aerogel.Filesystem.TmpfsRuns

/-! # Where `tmpfs_write` stores

The end of the range that `tmpfs_write` is asked to store in is computed in 32 bits from an offset of 64,
and `krealloc` rounds it up once more. `WriteInside` is what a caller expects of the call: either the
bytes are in the file, or the call stored nothing and returned a smaller count. It holds exactly when the
range ends where neither sum wraps around and the block has the bytes that the size promises. -/

namespace Aerogel

variable {T : Target} {A : Arena T} {h h' h₁ : Heap} {live : Finset Nat} {o : TmpObj}
  {off need n : Nat} {buf : List UInt8}

/-! ## The statement -/

/-- The bytes were stored in the file: they lie below its size and in its own block, at the offset, and
no allocation of anyone else was touched. A file that is long enough keeps its block. -/
structure StoredInside (T : Target) (A : Arena T) (h : Heap) (live : Finset Nat) (o : TmpObj)
    (off : Nat) (buf : List UInt8) (h' : Heap) : Prop where
  /-- The size of the file. -/
  size : off + buf.length ≤ fileGet T h'.mem o.record .size
  /-- Its block. -/
  block : ∃ live' q, fileGet T h'.mem o.record .data = q ∧
    Acts T A ⟨h, live⟩ o.ptrs ⟨h', live'⟩ { o with buf := q }.ptrs ∧
    { o with buf := q }.Owned live' ∧ q ≠ 0 ∧ off + buf.length ≤ payload T h'.mem q ∧
    h'.mem.bytes (q + off) buf.length = buf
  /-- Without growth the block is the old one. -/
  same : off + buf.length ≤ fileGet T h.mem o.record .size →
    fileGet T h'.mem o.record .data = o.buf

/-- What is expected of a call that returns `n`. -/
structure WriteInside (T : Target) (A : Arena T) (h : Heap) (live : Finset Nat) (o : TmpObj)
    (off : Nat) (buf : List UInt8) (n : Nat) (h' : Heap) : Prop where
  /-- All bytes were stored. -/
  stored : n = buf.length → 0 < n → StoredInside T A h live o off buf h'
  /-- The end of the range is no file size. -/
  refused : 2 ^ 32 ≤ off + buf.length → n < buf.length ∧ h'.mem = h.mem

/-- The end of the range is a file size, can be rounded up to 8, and lies inside the block unless the
file is too short. -/
def WriteFits (T : Target) (m : Mem) (o : TmpObj) (off sz : Nat) : Prop :=
  off + sz < 2 ^ 32 ∧ (0 < sz → off + sz + 7 < 2 ^ T.wordBits ∧
    (off + sz ≤ fileGet T m o.record .size → o.buf ≠ 0 ∧ off + sz ≤ payload T m o.buf))

/-! ## Calls that fit -/

/-- The count is that of the bytes given, and they are stored wherever the record points to. -/
theorem tmpfsWrite_eq_ok (hnode : HoldsNode T h.mem o.node o.record)
    (hrun : tmpfsWrite T h o.node off buf = .ok (n, h')) :
    n = buf.length ∧ ∃ h₁,
      growFile T h o.node o.record ((off % 2 ^ 32 + buf.length) % 2 ^ 32) = .ok h₁ ∧
      h' = { h₁ with
        mem := h₁.mem.storeList
          ((fileGet T h₁.mem o.record .data + off % 2 ^ 32) % 2 ^ T.wordBits) buf } := by
  rw [tmpfsWrite, hnode.fsData] at hrun
  obtain ⟨h₁, hgrow, hres⟩ := bind_eq_ok.mp hrun
  obtain ⟨rfl, rfl⟩ := Prod.mk.inj (Except.ok.inj hres)
  exact ⟨rfl, h₁, hgrow, rfl⟩

/-- A file that is long enough is not grown. -/
theorem growFile_of_le (hle : need ≤ fileGet T h.mem o.record .size) :
    growFile T h o.node o.record need = .ok h :=
  if_neg (Nat.not_lt.mpr hle)

/-- A write within the size, as it is computed, only stores. -/
theorem tmpfsWrite_of_le (hs : FileState T A h live o)
    (hle : (off % 2 ^ 32 + buf.length) % 2 ^ 32 ≤ fileGet T h.mem o.record .size) :
    tmpfsWrite T h o.node off buf = .ok (buf.length, { h with
      mem := h.mem.storeList ((o.buf + off % 2 ^ 32) % 2 ^ T.wordBits) buf }) := by
  rw [tmpfsWrite, hs.node.fsData, growFile_of_le hle, ← hs.data]
  rfl

/-- After the first part of `tmpfs_write` the file has its size and the room for it. -/
theorem growFile_room (hs : FileState T A h live o) (hsafe : A.SplitSafe) (hneed : need < 2 ^ 32)
    (hword : need + 7 < 2 ^ T.wordBits)
    (hroom : need ≤ fileGet T h.mem o.record .size → o.buf ≠ 0 ∧ need ≤ payload T h.mem o.buf)
    (hrun : growFile T h o.node o.record need = .ok h₁) :
    ∃ live₁ q, Acts T A ⟨h, live⟩ o.ptrs ⟨h₁, live₁⟩ { o with buf := q }.ptrs ∧
      FileState T A h₁ live₁ { o with buf := q } ∧ need ≤ fileGet T h₁.mem o.record .size ∧ q ≠ 0 ∧
      need ≤ payload T h₁.mem q ∧ (need ≤ fileGet T h.mem o.record .size → q = o.buf) := by
  by_cases hlt : fileGet T h.mem o.record .size < need
  · obtain ⟨live₁, q, hacts, ho, hq0, hf⟩ := growFile_grown (f := .unset need) hs hsafe hlt hneed hword
      rfl (fun m q _ => ByteFile.heldAt_unset m q need) hrun
    obtain ⟨bs₁, hinv₁⟩ := hacts.inv
    exact ⟨live₁, q, hacts, hf.state hinv₁ ho, hf.file.size.ge, hq0, hf.file.fits hq0,
      fun hle => absurd hle (Nat.not_le.mpr hlt)⟩
  · have hle := Nat.not_lt.mp hlt
    rw [growFile_of_le hle] at hrun
    obtain rfl := Except.ok.inj hrun
    obtain ⟨bs, hinv⟩ := hs.inv
    exact ⟨live, o.buf, .refl hinv hs.owned.ptrs_subset, hs, hle, (hroom hle).1, (hroom hle).2,
      fun _ => rfl⟩

/-- Bytes that fit into the block are stored there, and nothing else changes. -/
theorem FileState.store (hs : FileState T A h live o) (h0 : o.buf ≠ 0)
    (hroom : off + buf.length ≤ payload T h.mem o.buf) :
    Acts T A ⟨h, live⟩ o.ptrs ⟨{ h with mem := h.mem.storeList (o.buf + off) buf }, live⟩ o.ptrs ∧
      payload T (h.mem.storeList (o.buf + off) buf) o.buf = payload T h.mem o.buf ∧
      (∀ g, fileGet T (h.mem.storeList (o.buf + off) buf) o.record g = fileGet T h.mem o.record g) ∧
      (h.mem.storeList (o.buf + off) buf).bytes (o.buf + off) buf.length = buf := by
  obtain ⟨bs, hinv⟩ := hs.inv
  have hframe : ∀ x, x < o.buf ∨ o.buf + payload T h.mem o.buf ≤ x →
      h.mem.storeList (o.buf + off) buf x = h.mem x := fun x hx =>
    Mem.storeList_apply_of_outside _ (by omega)
  obtain ⟨hacts, hsize, hkeep⟩ := hs.owned.write hinv _ (TmpObj.buf_mem_ptrs h0) hframe
  have hrec := hkeep o.record o.record_mem_ptrs hs.owned.buf_ne_record.symm
  exact ⟨hacts, hsize, hrec.get_eq hs.room, Mem.bytes_storeList _ _ (List.prefix_refl buf)⟩

/-- A call whose range fits stores all bytes in the file. -/
theorem storedInside_of_fits (hs : FileState T A h live o) (hsafe : A.SplitSafe)
    (hfits : WriteFits T h.mem o off buf.length) (hpos : 0 < buf.length)
    (hrun : tmpfsWrite T h o.node off buf = .ok (n, h')) : StoredInside T A h live o off buf h' := by
  obtain ⟨hlt, hfits⟩ := hfits
  obtain ⟨hword, hroom⟩ := hfits hpos
  obtain ⟨-, h₁, hgrow, rfl⟩ := tmpfsWrite_eq_ok hs.node hrun
  rw [Nat.mod_eq_of_lt (show off < 2 ^ 32 by omega), Nat.mod_eq_of_lt hlt] at hgrow
  obtain ⟨live₁, q, hacts₁, hs₁, hsize₁, hq0, hroom₁, hsame⟩ :=
    growFile_room hs hsafe hlt hword hroom hgrow
  obtain ⟨bs₁, hinv₁⟩ := hs₁.inv
  have hstop : q + payload T h₁.mem q < 2 ^ T.wordBits :=
    hinv₁.payload_stop_lt (hs₁.owned.buf_mem.resolve_left hq0)
  have hdata : fileGet T h₁.mem o.record .data = q := hs₁.data
  rw [Nat.mod_eq_of_lt (show off < 2 ^ 32 by omega), hdata,
    Nat.mod_eq_of_lt (show q + off < 2 ^ T.wordBits by omega)]
  obtain ⟨hacts₂, hpay, hrec, hbytes⟩ := hs₁.store hq0 hroom₁
  have hdata₂ := (hrec .data).trans hdata
  exact
    { size := hsize₁.trans_eq (hrec .size).symm
      block := ⟨live₁, q, hdata₂, hacts₁.trans hacts₂, hs₁.owned, hq0, hroom₁.trans_eq hpay.symm, hbytes⟩
      same := fun hle => hdata₂.trans (hsame hle) }

/-! ## Calls that do not -/

/-- In front of every payload there is room for a header. -/
theorem HeapInv.hdrBytes_le {s : HeapRun} {bs : List Block} {p : Nat} (hinv : HeapInv T A s bs)
    (hp : p ∈ s.live) : hdrBytes T ≤ p := by
  obtain ⟨b, -, -, rfl⟩ := (hinv.live_iff p).mp hp
  exact Nat.le_add_left _ _

/-- Storing behind a pointer leaves its header alone. -/
theorem payload_storeList (m : Mem) {p a : Nat} (hp : hdrBytes T ≤ p) (ha : p ≤ a) :
    payload T (m.storeList a buf) p = payload T m p := by
  refine (blockHdr T).get_congr .size fun x _ hx => ?_
  have hhdr : (blockHdr T).size = hdrBytes T := rfl
  exact Mem.storeList_apply_of_outside _ (by omega)

/-- Bytes that were stored in the file did fit. -/
theorem writeFits_of_storedInside (hs : FileState T A h live o) (hlt : off + buf.length < 2 ^ 32)
    (hrun : tmpfsWrite T h o.node off buf = .ok (n, h'))
    (hin : StoredInside T A h live o off buf h') : off + buf.length + 7 < 2 ^ T.wordBits ∧
      (off + buf.length ≤ fileGet T h.mem o.record .size →
        o.buf ≠ 0 ∧ off + buf.length ≤ payload T h.mem o.buf) := by
  obtain ⟨live', q, hq, hacts, ho, hq0, hroom, -⟩ := hin.block
  obtain ⟨bs', hinv'⟩ := hacts.inv
  have hlive : q ∈ live' := ho.buf_mem.resolve_left hq0
  have hstop : q + payload T h'.mem q < 2 ^ T.wordBits := hinv'.payload_stop_lt hlive
  have hhdr := hinv'.hdrBytes_le hlive
  have h20 : 20 ≤ hdrBytes T := by cases T <;> decide
  refine ⟨by omega, fun hle => ?_⟩
  -- without growth the header of the block is the old one, so that it has had the room all along
  obtain rfl := hq.symm.trans (hin.same hle)
  have hstart : o.buf + off < 2 ^ T.wordBits := by omega
  obtain ⟨-, h₁, hgrow, rfl⟩ := tmpfsWrite_eq_ok hs.node hrun
  rw [Nat.mod_eq_of_lt (show off < 2 ^ 32 by omega), Nat.mod_eq_of_lt hlt, growFile_of_le hle] at hgrow
  obtain rfl := Except.ok.inj hgrow
  rw [hs.data, Nat.mod_eq_of_lt (show off < 2 ^ 32 by omega),
    Nat.mod_eq_of_lt hstart, payload_storeList _ hhdr (Nat.le_add_right _ _)] at hroom
  exact ⟨hq0, hroom⟩

/-! ## Files of runs -/

/-- Every file of every state that calls of tmpfs reach from a reachable heap is in such a state. -/
theorem fileState_of_run {m : Mem} {s₀ : HeapRun} {C : TmpfsCode} {s : TmpfsRun}
    {es : List (TmpfsOp × TmpfsOut)} {i node : Nat} (hsafe : A.SplitSafe)
    (hs₀ : Reachable (HeapStep T) (heapBoot T A m) s₀) (hrun : Run (TmpfsStep T C) ⟨s₀.heap, []⟩ es s)
    (hnull : ∀ e ∈ es, e.1.NullFits T) (hi : s.nodes[i]? = some (.file, node)) :
    ∃ live o f, o.node = node ∧ FileState T A s.heap live o ∧ FileObj T s.heap.mem o f ∧
      (specAfter (es.map Prod.fst))[i]? = some (.file f) := by
  obtain ⟨bs₀, hbs₀⟩ := heapInv_of_reachable hsafe hs₀
  obtain ⟨live, objs, k, hinv⟩ := (TmpfsInv.start hbs₀).run hsafe hrun hnull
  obtain ⟨bs, hheap⟩ := hinv.heap
  obtain ⟨o, f, -, hnode, -, howned, hspec, hobj⟩ := hinv.exists_file hi
  exact ⟨live, o, f, hnode, hobj.state hheap howned, hobj, hspec⟩

/-- On the kernel heap right after boot a file of three bytes can be made. -/
theorem exists_threeBytes (T : Target) : ∃ h live o, FileState T (kernelArena T) h live o ∧
    fileGet T h.mem o.record .size = 3 ∧ o.buf ≠ 0 ∧ 3 ≤ payload T h.mem o.buf := by
  obtain ⟨s, node, hrun, hnode, -⟩ := Blank.exists_run (blank_kernelArena T 0 (by decide)) (kernelArena_splitSafe T)
    ⟨0, 0, 0, 0⟩ (show (FileData.buffer [65, 66, 67]).size ≠ 0 by decide) (by decide)
  obtain ⟨live, o, f, -, hstate, hobj, hspec⟩ := fileState_of_run (kernelArena_splitSafe T) (.refl _) hrun
    (by simp [TmpfsOp.NullFits]) hnode
  have hf : ByteFile.ofBytes [65, 66, 67] = f := by
    simpa [specAfter, TmpfsOp.apply, FileData.toFile] using hspec
  subst hf
  have h0 : o.buf ≠ 0 := fun h0 => absurd (hobj.file.null h0) (by decide)
  exact ⟨s.heap, live, o, hstate, hobj.file.size, h0, hobj.file.fits h0⟩

/-! ## The condition -/

/-- In every state of a file, on both targets, for every offset and every buffer: a call of `tmpfs_write`
that returns stays inside the file exactly when its range fits. -/
theorem writeInside_iff (A : Arena T) (hsafe : A.SplitSafe) (h : Heap) (live : Finset Nat) (o : TmpObj)
    (hs : FileState T A h live o) (off : Nat) (buf : List UInt8) (n : Nat) (h' : Heap)
    (hrun : tmpfsWrite T h o.node off buf = .ok (n, h')) :
    WriteInside T A h live o off buf n h' ↔ WriteFits T h.mem o off buf.length := by
  obtain ⟨hn, -⟩ := tmpfsWrite_eq_ok hs.node hrun
  constructor
  · intro hin
    have hlt : off + buf.length < 2 ^ 32 := by
      by_contra hge
      exact absurd (hin.refused (Nat.not_lt.mp hge)).1 (by omega)
    exact ⟨hlt, fun hpos => writeFits_of_storedInside hs hlt hrun (hin.stored hn (hn ▸ hpos))⟩
  · intro hfits
    exact
      { stored := fun _ hpos => storedInside_of_fits hs hsafe hfits (hn ▸ hpos) hrun
        refused := fun hge => absurd hfits.1 (Nat.not_lt.mpr hge) }

/-- Two bytes at offset 1 of a file of three bytes. -/
theorem writeInside_threeBytes : ∃ h live o h', tmpfsWrite .x86 h o.node 1 [68, 69] = .ok (2, h') ∧
    WriteInside .x86 (kernelArena .x86) h live o 1 [68, 69] 2 h' := by
  obtain ⟨h, live, o, hs, hsize, h0, hroom⟩ := exists_threeBytes .x86
  have hrun := @tmpfsWrite_of_le _ _ _ _ _ 1 [68, 69] hs (by rw [hsize]; decide)
  refine ⟨h, live, o, _, hrun, ?_⟩
  refine (writeInside_iff _ (kernelArena_splitSafe .x86) h live o hs 1 [68, 69] 2 _ hrun).mpr ?_
  exact ⟨by decide, fun _ => ⟨by decide, fun _ => ⟨h0, hroom⟩⟩⟩

/-- One byte at offset `2 ^ 32` of a file of three bytes: the call stores it at offset 0 and reports
success, and the file is no longer than before. -/
theorem writeInside_truncates : ∃ h live o h', FileState .x86_64 (kernelArena .x86_64) h live o ∧
    fileGet .x86_64 h.mem o.record .size = 3 ∧
    tmpfsWrite .x86_64 h o.node (2 ^ 32) [68] = .ok (1, h') ∧ h'.mem o.buf = 68 ∧
    fileGet .x86_64 h'.mem o.record .size = 3 ∧
    ¬ WriteInside .x86_64 (kernelArena .x86_64) h live o (2 ^ 32) [68] 1 h' := by
  obtain ⟨h, live, o, hs, hsize, h0, hroom⟩ := exists_threeBytes .x86_64
  have hrun := @tmpfsWrite_of_le _ _ _ _ _ (2 ^ 32) [68] hs (by rw [hsize]; decide)
  obtain ⟨bs, hinv⟩ := hs.inv
  have hstop : o.buf + payload .x86_64 h.mem o.buf < 2 ^ Target.x86_64.wordBits :=
    hinv.payload_stop_lt (hs.owned.buf_mem.resolve_left h0)
  have hdst : (o.buf + 2 ^ 32 % 2 ^ 32) % 2 ^ Target.x86_64.wordBits = o.buf := by
    rw [Nat.mod_self, Nat.add_zero, Nat.mod_eq_of_lt (by omega)]
  rw [hdst] at hrun
  have hlong : 0 + [(68 : UInt8)].length ≤ payload .x86_64 h.mem o.buf := by
    simp only [List.length_singleton]
    omega
  obtain ⟨-, -, hrec, -⟩ := hs.store h0 hlong
  refine ⟨h, live, o, _, hs, hsize, hrun, ?_, (hrec .size).trans hsize, fun hin => ?_⟩
  · exact Mem.storeList_apply h.mem (i := 0) (by decide)
  · exact absurd (hin.refused (by decide)).1 (by decide)

end Aerogel
