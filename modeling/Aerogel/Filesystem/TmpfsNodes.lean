import Aerogel.Filesystem.TmpfsObjects
import Aerogel.Memory.HeapRoom

/-! # Making tmpfs nodes

`tmpfs_create` and `tmpfs_mkfile` allocate a node and a record, and a file its bytes. When they return,
the new allocations hold an empty directory or the file with its initial data. On a heap that has room they
do return, and a file that was made without data has the bytes that the memory had. -/

namespace Aerogel

variable {T : Target} {A : Arena T} {C : TmpfsCode} {h h' : Heap} {live own : Finset Nat}
  {bs : List Block} {fields : List (NodeField × Nat)} {data : FileData} {d f n name : Nat}

/-! ## What is made -/

/-- A new file, as its user knows it. -/
def FileData.toFile : FileData → ByteFile
  | .null size => .unset size
  | .buffer bytes => .ofBytes bytes

/-- Requests for records do not wrap. -/
theorem records_lt (T : Target) : (vfsNode T).size + 7 < 2 ^ T.wordBits ∧
    (tmpfsFile T).size + 7 < 2 ^ T.wordBits ∧ (tmpfsDir T).size + 7 < 2 ^ T.wordBits := by
  cases T <;> decide

/-- Everything that is written to a new node lies inside it, the byte behind the name included. -/
theorem initNode_apply_of_outside (m : Mem) (name : Nat) (fields : List (NodeField × Nat)) {n x : Nat}
    (hx : x < n ∨ n + (vfsNode T).size ≤ x) :
    (vfsNode T).setAll (strncpy (memset m n 0 (vfsNode T).size) (n + (vfsNode T).off .name) name 255) n
      fields x = m x := by
  have hname : (vfsNode T).off .name + 256 ≤ (vfsNode T).size := by cases T <;> decide
  rw [(vfsNode T).setAll_apply_of_outside _ _ hx, strncpy_apply_of_outside _ (by omega),
    memset_apply, if_neg (by omega)]

/-- A new node is an allocation of its own and has the fields it was given. -/
theorem newNode_spec (hinv : HeapInv T A ⟨h, live⟩ bs) (hsafe : A.SplitSafe) (hown : own ⊆ live)
    (hnd : (fields.map Prod.fst).Nodup) (hrun : newNode T h name fields = .ok (n, h')) :
    Acts T A ⟨h, live⟩ own ⟨h', insert n live⟩ (insert n own) ∧ n ∉ live ∧
      (vfsNode T).size ≤ payload T h'.mem n ∧
      (∀ g v, (g, v) ∈ fields → nodeGet T h'.mem n g = v % 256 ^ (vfsNode T).width g) ∧
      ∀ q ∈ live, KeepsPayload T h.mem h'.mem q := by
  obtain ⟨⟨n, h₁⟩, hmalloc, hres⟩ := bind_eq_ok.mp hrun
  obtain ⟨rfl, rfl⟩ := Prod.mk.inj (Except.ok.inj hres)
  obtain ⟨hnode, hacts₁⟩ := hinv.handed hsafe hown (by cases T <;> decide) (records_lt T).1 hmalloc
  obtain ⟨bs₁, hinv₁⟩ := hacts₁.inv
  have hframe : ∀ x, x < n ∨ n + payload T h₁.mem n ≤ x →
      (vfsNode T).setAll (strncpy (memset h₁.mem n 0 (vfsNode T).size)
        (n + (vfsNode T).off .name) name 255) n fields x = h₁.mem x := by
    intro x hx
    have hroom := hnode.room
    exact initNode_apply_of_outside _ _ _ (by omega)
  have hmem : n ∈ insert n live := Finset.mem_insert_self _ _
  refine ⟨hacts₁.trans (.write hinv₁ hacts₁.owned (Finset.mem_insert_self _ _) hframe), hnode.new, ?_,
    fun g v hgv => (vfsNode T).get_setAll _ n hnd hgv, fun q hq => (hnode.keeps q hq).trans ?_⟩
  · exact hnode.room.trans_eq (hinv₁.payload_of_write hmem hmem hframe).symm
  · refine hinv₁.keeps_of_payload_write hmem (Finset.mem_insert_of_mem hq) ?_ hframe
    rintro rfl
    exact hnode.new hq

/-- `tmpfs_create` makes an empty directory. -/
theorem tmpfsCreate_spec (hinv : HeapInv T A ⟨h, live⟩ bs) (hsafe : A.SplitSafe)
    (hrun : tmpfsCreate T C h name = .ok (n, h')) :
    ∃ live' d, Acts T A ⟨h, live⟩ ∅ ⟨h', live'⟩ (TmpObj.mk .dir n d 0).ptrs ∧
      (TmpObj.mk .dir n d 0).Owned live' ∧ DirObj T h'.mem ⟨.dir, n, d, 0⟩ 0 := by
  obtain ⟨⟨d, h₁⟩, hmalloc, hres⟩ := bind_eq_ok.mp hrun
  obtain ⟨hrec, hacts₁⟩ := hinv.handed hsafe (Finset.empty_subset _) (by cases T <;> decide)
    (records_lt T).2.2 hmalloc
  have hroom₁ := hrec.room
  obtain ⟨bs₁, hinv₁⟩ := hacts₁.inv
  have hd₁ : d ∈ insert d live := Finset.mem_insert_self _ _
  have hframe : ∀ x, x < d ∨ d + payload T h₁.mem d ≤ x →
      memset h₁.mem d 0 (tmpfsDir T).size x = h₁.mem x := by
    intro x hx
    rw [memset_apply, if_neg (by omega)]
  have hacts₂ := Acts.write hinv₁ hacts₁.owned (Finset.mem_insert_self _ _) hframe
  obtain ⟨bs₂, hinv₂⟩ := hacts₂.inv
  obtain ⟨hacts₃, hnew₃, hroom₃, hget, hkeep₃⟩ := newNode_spec hinv₂ hsafe hacts₂.owned
    (by change List.Nodup [NodeField.flags, .fsData, .readdir, .finddir]; decide) hres
  have hdn : d ≠ n := by
    rintro rfl
    exact hnew₃ hd₁
  have hn : n ∈ insert n (insert d live) := Finset.mem_insert_self _ _
  have hd : d ∈ insert n (insert d live) := Finset.mem_insert_of_mem hd₁
  obtain ⟨bs₃, hinv₃⟩ := hacts₃.inv
  have hdlt : d + payload T h'.mem d < 2 ^ T.wordBits := hinv₃.payload_stop_lt hd
  refine ⟨_, d, ((hacts₁.trans hacts₂).trans hacts₃).weaken subset_rfl fun q hq => ?_,
    ⟨hn, hd, Or.inl rfl, hdn.symm, fun h0 => ?_, hrec.ne_zero.symm⟩, ⟨hroom₃, ?_⟩, 0, 0, ?_, le_rfl, le_rfl,
    fun h0 => absurd rfl h0, fun _ => rfl⟩
  · rcases TmpObj.mem_ptrs.mp hq with ⟨-, h0⟩ | rfl | rfl
    · exact absurd rfl h0
    · exact Finset.mem_insert_self _ _
    · exact Finset.mem_insert_of_mem (Finset.mem_insert_self _ _)
  · have h0n : 0 = n := h0
    exact hinv₃.zero_notMem (h0n ▸ hn)
  · rw [hget .fsData d (by simp), vfsNode_width_fsData, mod_ptr (by omega)]
  · have hzero : HoldsDir T (memset h₁.mem d 0 (tmpfsDir T).size) d 0 0 0 :=
      { room := hroom₁.trans_eq (hinv₁.payload_of_write hd₁ hd₁ hframe).symm
        entries_eq := get_memset_zero _ _ _ _
        count_eq := get_memset_zero _ _ _ _
        cap_eq := get_memset_zero _ _ _ _ }
    exact hzero.keep (hkeep₃ d hd₁)

/-- The first part of `tmpfs_mkfile` makes a record and a buffer that hold the new file. -/
theorem newFile_spec (hinv : HeapInv T A ⟨h, live⟩ bs) (hsafe : A.SplitSafe) (hlt : data.size < 2 ^ 32)
    (hsize : data.size + 7 < 2 ^ T.wordBits) (hrun : newFile T h data = .ok (f, h')) :
    ∃ live' p, Acts T A ⟨h, live⟩ ∅ ⟨h', live'⟩ (gain {f} p) ∧ p ≠ f ∧
      HoldsFile T h'.mem f p data.toFile := by
  obtain ⟨⟨f, h₁⟩, hmalloc₁, hrest⟩ := bind_eq_ok.mp hrun
  obtain ⟨⟨p, h₂⟩, hmalloc₂, hres⟩ := bind_eq_ok.mp hrest
  obtain ⟨hrec, hacts₁⟩ := hinv.handed hsafe (Finset.empty_subset _) (by cases T <;> decide)
    (records_lt T).2.1 hmalloc₁
  obtain ⟨bs₁, hinv₁⟩ := hacts₁.inv
  have hacts₂ := Acts.kmalloc hinv₁ hsafe hacts₁.owned hmalloc₂
  obtain ⟨bs₂, hinv₂, hp0, hproom, hold₂⟩ := hinv₁.kmalloc hsafe hmalloc₂
  obtain ⟨hfp, hkeepf⟩ := hold₂ f (Finset.mem_insert_self _ _)
  have hown : f ∈ gain (insert f ∅) p := mem_gain.mpr (Or.inr (Finset.mem_insert_self _ _))
  have hpown : p ≠ 0 → p ∈ gain (insert f ∅) p := fun h0 => mem_gain.mpr (Or.inl ⟨rfl, h0⟩)
  have hfroom : (tmpfsFile T).size ≤ payload T h₂.mem f := hrec.room.trans_eq hkeepf.size.symm
  -- the record is filled in before the bytes are copied
  have hunset : (ByteFile.unset data.size).size = data.size := rfl
  obtain ⟨m₃, hm₃, hassign, hfile₃, -⟩ := HoldsFile.assign hinv₂ hacts₂.owned hown hfroom hfp.symm
    (fun h0 => hacts₂.owned (hpown h0)) hunset hlt
    (fun h0 => (le_request hsize).trans (hproom h0)) (fun h0 => not_not.mp fun hn0 => hp0 hn0 h0)
    (ByteFile.heldAt_unset _ _ _)
  have hacts₃ := (hacts₁.trans hacts₂).trans hassign
  obtain ⟨bs₃, hinv₃⟩ := hacts₃.inv
  dsimp only at hres
  rw [← hm₃] at hres
  cases data with
  | null size =>
      obtain ⟨rfl, rfl⟩ := Prod.mk.inj (Except.ok.inj hres)
      exact ⟨_, p, hacts₃, hfp.symm, hfile₃⟩
  | buffer bytes =>
      dsimp only at hres
      rw [hfile₃.data] at hres
      obtain ⟨rfl, rfl⟩ := Prod.mk.inj (Except.ok.inj hres)
      obtain ⟨hacts₄, hfile₄, -⟩ := hfile₃.store 0 p bytes hinv₃ hacts₃.owned
        (hacts₂.owned hown) hfp.symm hpown (Nat.zero_add _).le fun _ => rfl
      refine ⟨_, p, hacts₃.trans hacts₄, hfp.symm, ?_⟩
      rw [FileData.toFile, ← ByteFile.write_unset]
      exact hfile₄

/-- The node that `tmpfs_mkfile` makes for a record holds the same file. -/
theorem fileNode_spec {p : Nat} (hinv : HeapInv T A ⟨h, live⟩ bs) (hsafe : A.SplitSafe)
    (hown : gain {f} p ⊆ live) (hpf : p ≠ f) (hfile : HoldsFile T h.mem f p data.toFile)
    (hrun : newNode T h name [(.flags, vfsFile), (.size, data.size), (.fsData, f), (.read, C.read),
      (.write, C.write)] = .ok (n, h')) :
    Acts T A ⟨h, live⟩ (gain {f} p) ⟨h', insert n live⟩ (TmpObj.mk .file n f p).ptrs ∧
      (TmpObj.mk .file n f p).Owned (insert n live) ∧
      FileObj T h'.mem ⟨.file, n, f, p⟩ data.toFile := by
  obtain ⟨hacts, hnew, hroom, hget, hkeep⟩ := newNode_spec hinv hsafe hown
    (by change List.Nodup [NodeField.flags, .size, .fsData, .read, .write]; decide) hrun
  obtain ⟨bs', hinv'⟩ := hacts.inv
  have hf : f ∈ live := hown (mem_gain.mpr (Or.inr (Finset.mem_singleton_self f)))
  have hn : n ∈ insert n live := Finset.mem_insert_self _ _
  have hplive : p = 0 ∨ p ∈ live := by
    by_cases h0 : p = 0
    · exact Or.inl h0
    · exact Or.inr (hown (mem_gain.mpr (Or.inl ⟨rfl, h0⟩)))
  have hnf : n ≠ f := fun heq => hnew (heq ▸ hf)
  have hpn : p ≠ n := by
    intro heq
    rcases hplive with h0 | hp
    · exact hinv'.zero_notMem (h0 ▸ heq ▸ hn)
    · exact hnew (heq ▸ hp)
  have hflt := hinv.payload_stop_lt hf
  have hdata : data.size = data.toFile.size := by cases data <;> rfl
  refine ⟨hacts.weaken subset_rfl fun q hq => ?_, ⟨hn, Finset.mem_insert_of_mem hf,
      hplive.imp_right fun hp => Finset.mem_insert_of_mem hp, hnf, hpn, hpf⟩,
    ⟨hroom, ?_⟩, ?_, hfile.keep (hkeep f hf) fun h0 => hkeep p (hplive.resolve_left h0)⟩
  · rcases TmpObj.mem_ptrs.mp hq with ⟨rfl, h0⟩ | rfl | rfl
    · exact Finset.mem_insert_of_mem (mem_gain.mpr (Or.inl ⟨rfl, h0⟩))
    · exact Finset.mem_insert_self _ _
    · exact Finset.mem_insert_of_mem (mem_gain.mpr (Or.inr (Finset.mem_singleton_self _)))
  · rw [hget .fsData f (by simp), vfsNode_width_fsData, mod_ptr (by omega)]
  · have hsize_lt := hfile.size_lt
    rw [hget .size data.size (by simp), mod_vfsNode_size (by omega), hdata]

/-! ## On a heap with room -/

variable {o : TmpObj} {es : List Nat} {N : Nat} {v : UInt8}

/-- A node can be made. -/
theorem Blank.newNode (hb : Blank T A h live N v) (hsafe : A.SplitSafe) (hN : 512 ≤ N) (name : Nat)
    (fields : List (NodeField × Nat)) :
    ∃ n h', Aerogel.newNode T h name fields = .ok (n, h') ∧
      Blank T A h' (insert n live) (N - 512) v := by
  obtain ⟨p, h₁, hrun, hnode, hb₁, -⟩ := hb.kmalloc hsafe (n := (vfsNode T).size)
    (by cases T <;> decide) (by cases T <;> decide) hN
  refine ⟨p, _, bind_eq_ok.mpr ⟨_, hrun, rfl⟩, hb₁.write _ (Finset.mem_insert_self _ _) fun x hx => ?_⟩
  have hroom := hnode.room
  exact initNode_apply_of_outside _ _ _ (by omega)

/-- A directory can be made. -/
theorem Blank.create (hb : Blank T A h live N v) (hsafe : A.SplitSafe) (hN : 1024 ≤ N) (name : Nat) :
    ∃ n h' live', tmpfsCreate T C h name = .ok (n, h') ∧ Blank T A h' live' (N - 1024) v := by
  obtain ⟨d, h₁, hrun, hrec, hb₁, -⟩ := hb.kmalloc hsafe (n := (tmpfsDir T).size)
    (by cases T <;> decide) (by cases T <;> decide) (by omega)
  have hroom := hrec.room
  have hb₂ := hb₁.write (memset h₁.mem d 0 (tmpfsDir T).size) (Finset.mem_insert_self _ _)
    fun x hx => by rw [memset_apply, if_neg (by omega)]
  obtain ⟨n, h₃, hnode, hb₃⟩ := hb₂.newNode hsafe (by omega) name
    [(.flags, vfsDir), (.fsData, d), (.readdir, C.readdir), (.finddir, C.finddir)]
  exact ⟨n, h₃, _, bind_eq_ok.mpr ⟨_, hrun, hnode⟩, hb₃.mono (by omega)⟩

/-- The record of a file can be made; if no data are given, its bytes are those of the free memory. -/
theorem Blank.newFile (hb : Blank T A h live N v) (hsafe : A.SplitSafe) (hN : 1024 ≤ N)
    (h0 : data.size ≠ 0) (hle : data.size ≤ 400) :
    ∃ f h' live', Aerogel.newFile T h data = .ok (f, h') ∧ Blank T A h' live' (N - 1024) v ∧
      ∀ size, data = .null size → h'.mem (fileGet T h'.mem f .data) = v := by
  have hword := T.two_pow_32_le
  obtain ⟨f, h₁, hrun₁, hrec, hb₁, -⟩ := hb.kmalloc hsafe (n := (tmpfsFile T).size)
    (by cases T <;> decide) (by cases T <;> decide) (by omega)
  obtain ⟨p, h₂, hrun₂, hbuf, hb₂, hfill⟩ := hb₁.kmalloc hsafe h0 hle (by omega)
  obtain ⟨bs₂, hinv₂⟩ := hb₂.heapInv
  have hf : f ∈ insert p (insert f live) := Finset.mem_insert_of_mem (Finset.mem_insert_self _ _)
  have hp : p ∈ insert p (insert f live) := Finset.mem_insert_self _ _
  have hfp : f ≠ p := fun heq => hbuf.new (heq ▸ Finset.mem_insert_self f live)
  have hkeepf := hbuf.keeps f (Finset.mem_insert_self _ _)
  have hplt : p + payload T h₂.mem p < 2 ^ T.wordBits := hinv₂.payload_stop_lt hp
  have hdisj : f + payload T h₂.mem f ≤ p ∨ p + payload T h₂.mem p ≤ f := hinv₂.disjoint hf hp hfp
  obtain ⟨m₃, hm₃⟩ : ∃ m₃, m₃ = (tmpfsFile T).set ((tmpfsFile T).set h₂.mem f .data p) f .size
    data.size := ⟨_, rfl⟩
  have hframe₃ : ∀ x, x < f ∨ f + payload T h₂.mem f ≤ x → m₃ x = h₂.mem x := by
    intro x hx
    have hroom := hrec.room.trans_eq hkeepf.size.symm
    rw [hm₃]
    exact setFile_apply_of_outside _ _ _ (by omega)
  have hdata : fileGet T m₃ f .data = p := by
    rw [hm₃]
    exact fileGet_data_set (by omega) _ _ _
  have hb₃ := hb₂.write m₃ hf hframe₃
  have hpay : payload T m₃ p = payload T h₂.mem p := hinv₂.payload_of_write hf hp hframe₃
  cases data with
  | null size =>
      refine ⟨f, { h₂ with mem := m₃ }, _, ?_, hb₃.mono (by omega), fun _ _ => ?_⟩
      · rw [hm₃]
        exact bind_eq_ok.mpr ⟨_, hrun₁, bind_eq_ok.mpr ⟨_, hrun₂, rfl⟩⟩
      · have hsize : size ≠ 0 := h0
        have hbyte := hfill p le_rfl (Nat.lt_add_of_pos_right (Nat.pos_of_ne_zero hsize))
        rw [hdata]
        exact (hframe₃ p (by omega)).trans hbyte
  | buffer bytes =>
      have hb₄ := hb₃.write (m₃.storeList p bytes) hp fun x hx =>
        Mem.storeList_apply_of_outside _ (by
          have hlen : bytes.length ≤ payload T h₂.mem p := hbuf.room
          dsimp only at hx
          omega)
      refine ⟨f, { h₂ with mem := m₃.storeList p bytes }, _, ?_, hb₄.mono (by omega), fun _ hnull => ?_⟩
      · refine bind_eq_ok.mpr ⟨_, hrun₁, bind_eq_ok.mpr ⟨_, hrun₂, ?_⟩⟩
        dsimp only
        rw [← hm₃, hdata]
        rfl
      · cases hnull

/-- There is room for one more entry, or a table with room can be made. -/
theorem Blank.growDir (hb : Blank T A h live N v) (hsafe : A.SplitSafe) (hN : 512 ≤ N)
    (ho : o.Owned live) (hd : DirListing T h.mem o es)
    (hroom : o.buf = 0 ∨ es.length < dirGet T h.mem o.record .cap) :
    ∃ h' live', Aerogel.growDir T h o.record = .ok h' ∧ Blank T A h' live' (N - 512) v := by
  obtain ⟨cap, hdir, hle, -, hnull⟩ := hd.dir
  by_cases hfull : cap ≤ es.length
  · have h0 : o.buf = 0 := hroom.resolve_right (by rw [hdir.cap_eq]; omega)
    have hcap := hnull h0
    obtain ⟨bs, hinv⟩ := hb.heapInv
    obtain ⟨-, hsize₁, -⟩ := ho.set hinv o.record_mem_ptrs hdir.room .cap 4
    have hdir₁ := hdir.set_cap (c := 4) (by decide) hsize₁
    have hb₁ := hb.write ((tmpfsDir T).set h.mem o.record .cap 4) ho.record_mem fun x hx => by
      have hroom := hdir.room
      exact (tmpfsDir T).set_apply_of_outside _ _ _ (by omega)
    obtain ⟨p, h₂, hrun, hhanded, hb₂, -⟩ := hb₁.kmalloc hsafe (n := 4 * T.ptrBytes % 2 ^ T.wordBits)
      (by cases T <;> decide) (by cases T <;> decide) hN
    have hdir₂ := hdir₁.keep (hhanded.keeps o.record ho.record_mem)
    have hb₃ := hb₂.write ((tmpfsDir T).set h₂.mem o.record .entries p)
      (Finset.mem_insert_of_mem ho.record_mem) fun x hx => by
        have hroom := hdir₂.room
        exact (tmpfsDir T).set_apply_of_outside _ _ _ (by omega)
    refine ⟨_, _, ?_, hb₃⟩
    rw [Aerogel.growDir, hdir.count_eq, hdir.cap_eq, hcap, if_pos (Nat.zero_le _)]
    dsimp only
    rw [if_neg (not_not.mpr rfl), hdir₁.cap_eq, hdir₁.entries_eq, h0]
    exact bind_eq_ok.mpr ⟨_, hrun, rfl⟩
  · refine ⟨h, live, ?_, hb.mono (by omega)⟩
    rw [Aerogel.growDir, hdir.count_eq, hdir.cap_eq, if_neg hfull]
    rfl

/-- An entry of a directory can be made, as long as its table need not be moved. -/
theorem Blank.dirAdd (hb : Blank T A h live N v) (hsafe : A.SplitSafe) (hN : 512 ≤ N)
    (ho : o.Owned live) (hd : DirListing T h.mem o es) (hk : es.length < 2 ^ 28)
    (hroom : o.buf = 0 ∨ es.length < dirGet T h.mem o.record .cap) (n : Nat) :
    ∃ h' live', Aerogel.dirAdd T h o.record n = .ok h' ∧ Blank T A h' live' (N - 512) v := by
  obtain ⟨h₁, live₁, hgrow, hb₁⟩ := hb.growDir hsafe hN ho hd hroom
  obtain ⟨bs, hinv⟩ := hb.heapInv
  obtain ⟨bs₁, hinv₁⟩ := hb₁.heapInv
  obtain ⟨live', q, cap, hacts, ho₁, -, hdir₁, hlt, hq0, hfits, -⟩ :=
    growDir_spec hinv hsafe ho hd hk hgrow
  obtain ⟨bs', hinv'⟩ := hacts.inv
  obtain rfl := hinv₁.live_eq hinv'
  have hqlive : q ∈ live₁ := ho₁.buf_mem.resolve_left hq0
  have hqlt : q + payload T h₁.mem q < 2 ^ T.wordBits := hinv₁.payload_stop_lt hqlive
  have hslot := slot_le (T := T) hlt
  have hroom₁ := hdir₁.room
  obtain ⟨-, hsize₂, hkeep₂⟩ :=
    ho₁.set hinv₁ (TmpObj.record_mem_ptrs _) hdir₁.room .count (es.length + 1)
  have hdir₂ := hdir₁.set_count (c := es.length + 1) (by omega) hsize₂
  have hbuf₂ := hkeep₂ q (TmpObj.buf_mem_ptrs hq0) ho₁.buf_ne_record
  have hb₂ := hb₁.write ((tmpfsDir T).set h₁.mem o.record .count (es.length + 1)) ho₁.record_mem
    fun x hx => (tmpfsDir T).set_apply_of_outside _ _ _ (by dsimp only at hx; omega)
  have hb₃ := hb₂.write (p := q) (Mem.store ((tmpfsDir T).set h₁.mem o.record .count (es.length + 1))
    (q + es.length * T.ptrBytes) T.ptrBytes n) hqlive fun x hx =>
      Mem.store_apply_of_outside _ (by dsimp only at hx; rw [hbuf₂.size] at hx; omega)
  refine ⟨_, live₁, bind_eq_ok.mpr ⟨h₁, hgrow, ?_⟩, hb₃⟩
  dsimp only
  rw [hdir₁.count_eq, hdir₂.entries_eq,
    Nat.mod_eq_of_lt (show q + es.length * T.ptrBytes < 2 ^ T.wordBits by omega)]
  rfl

/-- The first byte of a file in which nothing was stored is what memory has there. -/
theorem tmpfsRead_unset {size : Nat} (hinv : HeapInv T A ⟨h, live⟩ bs) (ho : o.Owned live)
    (hf : FileObj T h.mem o (.unset size)) (h0 : size ≠ 0) :
    tmpfsRead T h.mem o.node 0 1 = (1, [h.mem o.buf]) := by
  have hlen : (ByteFile.unset size).readLen 0 1 = 1 := by
    change (if size ≤ 0 then 0 else min 1 (size - 0)) = 1
    rw [if_neg (by omega)]
    omega
  rw [tmpfsRead_eq hinv ho hf 0 (by decide), hlen]
  rfl

/-- A file can be made in an empty directory; if no data are given, a read returns what is left in
memory. -/
theorem Blank.mkfile (hb : Blank T A h live N v) (hsafe : A.SplitSafe) (hN : 2048 ≤ N)
    (ho : o.Owned live) (hbuf : o.buf = 0) (hd : DirObj T h.mem o 0) (h0 : data.size ≠ 0)
    (hle : data.size ≤ 400) (name : Nat) :
    ∃ n h', tmpfsMkfile T C h o.node name data = .ok (n, h') ∧
      ∀ size, data = .null size → tmpfsRead T h'.mem n 0 1 = (1, [v]) := by
  have hword := T.two_pow_32_le
  obtain ⟨f, h₁, live₁, hfile, hb₁, hbyte⟩ := hb.newFile hsafe (by omega) h0 hle
  obtain ⟨n, h₂, hnode, hb₂⟩ := hb₁.newNode hsafe (by omega) name
    [(.flags, vfsFile), (.size, data.size), (.fsData, f), (.read, C.read), (.write, C.write)]
  obtain ⟨bs, hinv⟩ := hb.heapInv
  obtain ⟨bs₁, hinv₁⟩ := hb₁.heapInv
  obtain ⟨bs₂, hinv₂⟩ := hb₂.heapInv
  obtain ⟨live', p, hacts₁, hpf, hholds⟩ := newFile_spec hinv hsafe (by omega) (by omega) hfile
  obtain ⟨bs', hinv'⟩ := hacts₁.inv
  obtain rfl := hinv₁.live_eq hinv'
  obtain ⟨hacts₂, hof, hobj⟩ := fileNode_spec hinv₁ hsafe hacts₁.owned hpf hholds hnode
  obtain ⟨-, -, -, -, hkeep₂⟩ := newNode_spec hinv₁ hsafe hacts₁.owned
    (by change List.Nodup [NodeField.flags, .size, .fsData, .read, .write]; decide) hnode
  -- the directory is as it was, so its first entry can be made
  have hfile_acts := hacts₁.trans hacts₂
  have hkeepo : ∀ q ∈ o.ptrs, q ∈ insert n live₁ ∧ KeepsPayload T h.mem h₂.mem q := fun q hq =>
    hfile_acts.keeps q (ho.ptrs_subset hq) (Finset.notMem_empty q)
  have ho₂ := ho.mono fun q hq => (hkeepo q hq).1
  have hd₂ := hd.keep fun q hq => (hkeepo q hq).2
  obtain ⟨es, hlen, hlist⟩ := hd₂.exists_listing
  obtain ⟨h₃, -, hadd, -⟩ := hb₂.dirAdd hsafe (by omega) ho₂ hlist (by omega) (Or.inl hbuf) n
  refine ⟨n, h₃, ?_, fun size hnull => ?_⟩
  · refine bind_eq_ok.mpr ⟨_, hfile, bind_eq_ok.mpr ⟨_, hnode, bind_eq_ok.mpr ⟨h₃, ?_, rfl⟩⟩⟩
    rw [hd₂.node.fsData]
    exact hadd
  · obtain ⟨live₃, q, hacts₃, -, -⟩ := dirAdd_spec hinv₂ hsafe ho₂ hd₂ (by decide) hadd
    obtain ⟨bs₃, hinv₃⟩ := hacts₃.inv
    -- the file's allocations are new, so they are not the directory's
    have hkeepf : ∀ r ∈ (TmpObj.mk .file n f p).ptrs, r ∈ live₃ ∧ KeepsPayload T h₂.mem h₃.mem r :=
      fun r hr => by
        refine hacts₃.keeps r (hof.ptrs_subset hr) fun hro => ?_
        rcases hfile_acts.fresh r hr with hmem | hnew
        · exact Finset.notMem_empty r hmem
        · exact hnew (ho.ptrs_subset hro)
    have hobj₃ := hobj.keep fun r hr => (hkeepf r hr).2
    have hof₃ := hof.mono fun r hr => (hkeepf r hr).1
    subst hnull
    have hsize : size ≠ 0 := h0
    have hp0 : p ≠ 0 := fun hp0 => hsize (hholds.null hp0)
    have hfits : size ≤ payload T h₁.mem p := hholds.fits hp0
    have hplive : p ∈ live₁ := hacts₁.owned (mem_gain.mpr (Or.inl ⟨rfl, hp0⟩))
    have hbyte₁ : h₁.mem p = v := by
      have := hbyte size rfl
      rwa [hholds.data] at this
    have hbyte₃ : h₃.mem p = v := by
      have hpay₂ := (hkeep₂ p hplive).size
      rw [(hkeepf p (TmpObj.buf_mem_ptrs hp0)).2.bytes p le_rfl (by omega),
        (hkeep₂ p hplive).bytes p le_rfl (by omega), hbyte₁]
    exact (tmpfsRead_unset hinv₃ hof₃ hobj₃ hsize).trans (by rw [hbyte₃])

end Aerogel
