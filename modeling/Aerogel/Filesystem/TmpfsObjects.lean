import Aerogel.Filesystem.Tmpfs

/-! # The allocations behind a tmpfs node

A node comes with a record (`tmpfs_file_t` or `tmpfs_dir_t`) and a buffer, the file's bytes or the
directory's entries, which is null as long as there are none. A `TmpObj` names these three allocations.
Every function of `tmpfs.c` acts on the heap as the owner of the allocations of one node (`Acts`) and
leaves them in a state that the predicates here describe. -/

namespace Aerogel

variable {T : Target} {A : Arena T} {h h' : Heap} {live : Finset Nat} {bs : List Block} {m m' : Mem}

/-- What a node was made as. -/
inductive NodeKind
  | file | dir
  deriving DecidableEq, Repr

/-- The allocations behind a node. -/
structure TmpObj where
  /-- What the node was made as. -/
  kind : NodeKind
  /-- The node. -/
  node : Nat
  /-- Its `fs_data`. -/
  record : Nat
  /-- The bytes of the file or the entries of the directory; null if there are none. -/
  buf : Nat

namespace TmpObj

variable {o : TmpObj} {p q n : Nat}

/-- The pointers that belong to the node. -/
def ptrs (o : TmpObj) : Finset Nat := gain {o.node, o.record} o.buf

/-- The allocations are live and different ones. -/
structure Owned (o : TmpObj) (live : Finset Nat) : Prop where
  node_mem : o.node ∈ live
  record_mem : o.record ∈ live
  buf_mem : o.buf = 0 ∨ o.buf ∈ live
  node_ne : o.node ≠ o.record
  buf_ne_node : o.buf ≠ o.node
  buf_ne_record : o.buf ≠ o.record

theorem mem_ptrs : p ∈ o.ptrs ↔ p = o.buf ∧ o.buf ≠ 0 ∨ p = o.node ∨ p = o.record := by
  rw [ptrs, mem_gain, Finset.mem_insert, Finset.mem_singleton]

theorem node_mem_ptrs (o : TmpObj) : o.node ∈ o.ptrs := mem_ptrs.mpr (Or.inr (Or.inl rfl))

theorem record_mem_ptrs (o : TmpObj) : o.record ∈ o.ptrs := mem_ptrs.mpr (Or.inr (Or.inr rfl))

theorem buf_mem_ptrs (h0 : o.buf ≠ 0) : o.buf ∈ o.ptrs := mem_ptrs.mpr (Or.inl ⟨rfl, h0⟩)

/-- Owned pointers are live. -/
theorem Owned.ptrs_subset (ho : o.Owned live) : o.ptrs ⊆ live := by
  intro p hp
  rcases mem_ptrs.mp hp with ⟨rfl, h0⟩ | rfl | rfl
  · exact ho.buf_mem.resolve_left h0
  · exact ho.node_mem
  · exact ho.record_mem

/-- They stay owned while others act. -/
theorem Owned.mono (ho : o.Owned live) {live' : Finset Nat} (hsub : o.ptrs ⊆ live') :
    o.Owned live' where
  node_mem := hsub o.node_mem_ptrs
  record_mem := hsub o.record_mem_ptrs
  buf_mem := by
    by_cases h0 : o.buf = 0
    · exact Or.inl h0
    · exact Or.inr (hsub (buf_mem_ptrs h0))
  node_ne := ho.node_ne
  buf_ne_node := ho.buf_ne_node
  buf_ne_record := ho.buf_ne_record

/-- `krealloc` of the buffer: the object has a new buffer that begins with the old bytes, and its node
and record are as before. -/
theorem Owned.regrow (ho : o.Owned live) (hinv : HeapInv T A ⟨h, live⟩ bs) (hsafe : A.SplitSafe)
    (hn0 : n ≠ 0) (hn : n + 7 < 2 ^ T.wordBits) (hrun : krealloc T h o.buf n = .ok (q, h')) :
    ∃ live', Acts T A ⟨h, live⟩ o.ptrs ⟨h', live'⟩ { o with buf := q }.ptrs ∧
      { o with buf := q }.Owned live' ∧ q ≠ 0 ∧ n ≤ payload T h'.mem q ∧
      KeepsPayload T h.mem h'.mem o.node ∧ KeepsPayload T h.mem h'.mem o.record ∧
      (o.buf ≠ 0 → ∀ i, i < payload T h.mem o.buf → i < n → h'.mem (q + i) = h.mem (o.buf + i)) := by
  have hacts := Acts.krealloc hinv hsafe ho.buf_mem hn0 hn hrun
  obtain ⟨-, -, hq0, hroom, hfresh, hbytes, hold⟩ := hinv.krealloc hsafe ho.buf_mem hn0 hn hrun
  obtain ⟨hqnode, hkeepnode⟩ := hold o.node ho.node_mem ho.buf_ne_node.symm
  obtain ⟨hqrec, hkeeprec⟩ := hold o.record ho.record_mem ho.buf_ne_record.symm
  have hnot : ∀ r ∈ ({o.node, o.record} : Finset Nat), r ∉ gain ∅ o.buf := by
    intro r hr hmem
    rcases mem_gain.mp hmem with ⟨rfl, -⟩ | hmem
    · rcases Finset.mem_insert.mp hr with heq | heq
      · exact ho.buf_ne_node heq
      · exact ho.buf_ne_record (Finset.mem_singleton.mp heq)
    · exact Finset.notMem_empty r hmem
  have hlive : ({o.node, o.record} : Finset Nat) ⊆ live := by
    refine Finset.insert_subset ho.node_mem (Finset.singleton_subset_iff.mpr ho.record_mem)
  -- the node and the record are framed around the call
  have hframed : Acts T A ⟨h, live⟩ o.ptrs ⟨h', gain (live.erase o.buf) q⟩
      { o with buf := q }.ptrs := by
    refine (hacts.frame hlive hnot).weaken (fun r hr => ?_) fun r hr => ?_
    · rcases Finset.mem_union.mp hr with hr | hr
      · rcases mem_gain.mp hr with ⟨rfl, h0⟩ | hr
        · exact buf_mem_ptrs h0
        · exact absurd hr (Finset.notMem_empty r)
      · exact mem_gain.mpr (Or.inr hr)
    · rcases mem_gain.mp hr with ⟨rfl, -⟩ | hr
      · exact Finset.mem_union_left _ (Finset.mem_singleton_self _)
      · exact Finset.mem_union_right _ hr
  refine ⟨_, hframed, ?_, hq0, hroom, hkeepnode, hkeeprec, hbytes⟩
  have hsub := hframed.owned
  exact
    { node_mem := hsub (node_mem_ptrs _)
      record_mem := hsub (record_mem_ptrs _)
      buf_mem := Or.inr (hsub (buf_mem_ptrs hq0))
      node_ne := ho.node_ne
      buf_ne_node := hqnode.symm
      buf_ne_record := hqrec.symm }

/-- A write into one payload of the object leaves the others alone. -/
theorem Owned.write (ho : o.Owned live) (hinv : HeapInv T A ⟨h, live⟩ bs) (m' : Mem) (hp : p ∈ o.ptrs)
    (hm : ∀ x, x < p ∨ p + payload T h.mem p ≤ x → m' x = h.mem x) :
    Acts T A ⟨h, live⟩ o.ptrs ⟨{ h with mem := m' }, live⟩ o.ptrs ∧
      payload T m' p = payload T h.mem p ∧
      ∀ q ∈ o.ptrs, q ≠ p → KeepsPayload T h.mem m' q := by
  have hlive := ho.ptrs_subset
  exact ⟨.write hinv hlive hp hm, hinv.payload_of_write (hlive hp) (hlive hp) hm,
    fun q hq hne => hinv.keeps_of_payload_write (hlive hp) (hlive hq) hne hm⟩

/-- Assigning a field of a record of the object. -/
theorem Owned.set {F : Type} {L : StructLayout F} (ho : o.Owned live)
    (hinv : HeapInv T A ⟨h, live⟩ bs) (hp : p ∈ o.ptrs) (hroom : L.size ≤ payload T h.mem p) (g : F)
    (v : Nat) :
    Acts T A ⟨h, live⟩ o.ptrs ⟨{ h with mem := L.set h.mem p g v }, live⟩ o.ptrs ∧
      payload T (L.set h.mem p g v) p = payload T h.mem p ∧
      ∀ q ∈ o.ptrs, q ≠ p → KeepsPayload T h.mem (L.set h.mem p g v) q :=
  ho.write hinv _ hp fun _ hx => L.set_apply_of_outside _ _ _ (by omega)

end TmpObj

/-! ## What memory holds for a node -/

section Holds

variable {node record buf v : Nat} {f : ByteFile}

/-- A field as wide as a pointer holds every address. -/
theorem mod_ptr (hv : v < 2 ^ T.wordBits) : v % 256 ^ T.ptrBytes = v := by
  rw [T.pow_ptrBytes, Nat.mod_eq_of_lt hv]

theorem vfsNode_width_fsData (T : Target) : (vfsNode T).width .fsData = T.ptrBytes := by
  cases T <;> rfl

theorem tmpfsFile_width_data (T : Target) : (tmpfsFile T).width .data = T.ptrBytes := by
  cases T <;> rfl

theorem tmpfsDir_width_entries (T : Target) : (tmpfsDir T).width .entries = T.ptrBytes := by
  cases T <;> rfl

/-- The 64-bit `size` of a node holds every 32-bit number. -/
theorem mod_vfsNode_size (hv : v < 2 ^ 32) : v % 256 ^ (vfsNode T).width .size = v := by
  cases T <;> exact Nat.mod_eq_of_lt (lt_trans hv (by decide))

theorem mod_tmpfsFile_size (hv : v < 2 ^ 32) : v % 256 ^ (tmpfsFile T).width .size = v := by
  cases T <;> exact Nat.mod_eq_of_lt hv

theorem mod_tmpfsDir_count (hv : v < 2 ^ 32) : v % 256 ^ (tmpfsDir T).width .count = v := by
  cases T <;> exact Nat.mod_eq_of_lt hv

theorem mod_tmpfsDir_cap (hv : v < 2 ^ 32) : v % 256 ^ (tmpfsDir T).width .cap = v := by
  cases T <;> exact Nat.mod_eq_of_lt hv

/-- A file's record after its buffer and its size have been assigned. -/
theorem fileGet_data_set (hv : v < 2 ^ T.wordBits) (m : Mem) (record size : Nat) :
    fileGet T ((tmpfsFile T).set ((tmpfsFile T).set m record .data v) record .size size) record .data
      = v := by
  rw [fileGet, (tmpfsFile T).get_set_of_ne _ _ _ (by decide), (tmpfsFile T).get_set_same,
    tmpfsFile_width_data, mod_ptr hv]

/-- Both assignments stay inside the record. -/
theorem setFile_apply_of_outside (m : Mem) {record x : Nat} (data size : Nat)
    (hx : x < record ∨ record + (tmpfsFile T).size ≤ x) :
    (tmpfsFile T).set ((tmpfsFile T).set m record .data data) record .size size x = m x := by
  rw [(tmpfsFile T).set_apply_of_outside _ _ _ hx, (tmpfsFile T).set_apply_of_outside _ _ _ hx]

/-- The node has room for a `vfs_node_t` and points to its record. -/
structure HoldsNode (T : Target) (m : Mem) (node record : Nat) : Prop where
  room : (vfsNode T).size ≤ payload T m node
  fsData : nodeGet T m node .fsData = record

/-- The record is that of a file, and its buffer has the bytes of the file. -/
structure HoldsFile (T : Target) (m : Mem) (record buf : Nat) (f : ByteFile) : Prop where
  room : (tmpfsFile T).size ≤ payload T m record
  data : fileGet T m record .data = buf
  size : fileGet T m record .size = f.size
  fits : buf ≠ 0 → f.size ≤ payload T m buf
  null : buf = 0 → f.size = 0
  held : f.HeldAt m buf

/-- The record is that of a directory with these fields. -/
structure HoldsDir (T : Target) (m : Mem) (record entries count cap : Nat) : Prop where
  room : (tmpfsDir T).size ≤ payload T m record
  entries_eq : dirGet T m record .entries = entries
  count_eq : dirGet T m record .count = count
  cap_eq : dirGet T m record .cap = cap

/-- The 32-bit size of a file. -/
theorem HoldsFile.size_lt (hf : HoldsFile T m record buf f) : f.size < 2 ^ 32 := by
  have hlt : fileGet T m record .size < _ := (tmpfsFile T).get_lt m record .size
  rw [hf.size] at hlt
  cases T <;> exact hlt

theorem HoldsNode.keep (hn : HoldsNode T m node record) (hkeep : KeepsPayload T m m' node) :
    HoldsNode T m' node record :=
  ⟨hn.room.trans_eq hkeep.size.symm, (hkeep.get_eq hn.room .fsData).trans hn.fsData⟩

theorem HoldsFile.keep (hf : HoldsFile T m record buf f) (hrec : KeepsPayload T m m' record)
    (hbuf : buf ≠ 0 → KeepsPayload T m m' buf) : HoldsFile T m' record buf f where
  room := hf.room.trans_eq hrec.size.symm
  data := (hrec.get_eq hf.room .data).trans hf.data
  size := (hrec.get_eq hf.room .size).trans hf.size
  fits h0 := (hf.fits h0).trans_eq (hbuf h0).size.symm
  null := hf.null
  held := hf.held.congr fun i hi => by
    have h0 : buf ≠ 0 := fun h0 => by
      rw [hf.null h0] at hi
      exact Nat.not_lt_zero i hi
    have hfits := hf.fits h0
    exact (hbuf h0).bytes _ (by omega) (by omega)

theorem HoldsDir.keep {count cap : Nat} (hd : HoldsDir T m record buf count cap)
    (hrec : KeepsPayload T m m' record) : HoldsDir T m' record buf count cap where
  room := hd.room.trans_eq hrec.size.symm
  entries_eq := (hrec.get_eq hd.room .entries).trans hd.entries_eq
  count_eq := (hrec.get_eq hd.room .count).trans hd.count_eq
  cap_eq := (hrec.get_eq hd.room .cap).trans hd.cap_eq

/-- A record that is assigned a buffer and a size is that of the file which the buffer has. -/
theorem HoldsFile.assign {own : Finset Nat} {size : Nat} (hinv : HeapInv T A ⟨h, live⟩ bs)
    (hown : own ⊆ live) (hrec : record ∈ own) (hroom : (tmpfsFile T).size ≤ payload T h.mem record)
    (hne : buf ≠ record) (hbuf : buf ≠ 0 → buf ∈ live) (hsize : f.size = size) (hlt : size < 2 ^ 32)
    (hfits : buf ≠ 0 → size ≤ payload T h.mem buf) (hnull : buf = 0 → size = 0)
    (hheld : f.HeldAt h.mem buf) :
    ∃ m', m' = (tmpfsFile T).set ((tmpfsFile T).set h.mem record .data buf) record .size size ∧
      Acts T A ⟨h, live⟩ own ⟨{ h with mem := m' }, live⟩ own ∧ HoldsFile T m' record buf f ∧
      ∀ q ∈ live, q ≠ record → KeepsPayload T h.mem m' q := by
  obtain ⟨m', hm'⟩ : ∃ m', m' = (tmpfsFile T).set ((tmpfsFile T).set h.mem record .data buf) record
    .size size := ⟨_, rfl⟩
  have hframe : ∀ x, x < record ∨ record + payload T h.mem record ≤ x → m' x = h.mem x := by
    intro x hx
    rw [hm']
    exact setFile_apply_of_outside _ _ _ (by omega)
  have hlive := hown hrec
  have hkeep : ∀ q ∈ live, q ≠ record → KeepsPayload T h.mem m' q := fun q hq hqr =>
    hinv.keeps_of_payload_write hlive hq hqr hframe
  have hbuflt : buf < 2 ^ T.wordBits := by
    by_cases h0 : buf = 0
    · rw [h0]
      exact Nat.two_pow_pos _
    · exact (Nat.le_add_right _ _).trans_lt (hinv.payload_stop_lt (hbuf h0))
  refine ⟨m', hm', .write hinv hown hrec hframe, ?_, hkeep⟩
  exact
    { room := hroom.trans_eq (hinv.payload_of_write hlive hlive hframe).symm
      data := by
        rw [hm']
        exact fileGet_data_set hbuflt _ _ _
      size := by
        rw [hm', fileGet, (tmpfsFile T).get_set_same, mod_tmpfsFile_size hlt, hsize]
      fits := fun h0 => by
        rw [hsize, (hkeep buf (hbuf h0) hne).size]
        exact hfits h0
      null := fun h0 => hsize.trans (hnull h0)
      held := hheld.congr fun i hi => by
        have h0 : buf ≠ 0 := fun h0 => by
          have := hnull h0
          omega
        have := hfits h0
        exact (hkeep buf (hbuf h0) hne).bytes _ (by omega) (by omega) }

/-- Storing bytes in the buffer, within the size of the file, writes them to the file. -/
theorem HoldsFile.store {own : Finset Nat} (hf : HoldsFile T h.mem record buf f) (off dst : Nat)
    (bytes : List UInt8) (hinv : HeapInv T A ⟨h, live⟩ bs) (hown : own ⊆ live)
    (hrec : record ∈ live) (hne : buf ≠ record) (hbuf : buf ≠ 0 → buf ∈ own)
    (hfit : off + bytes.length ≤ f.size) (hdst : bytes ≠ [] → dst = buf + off) :
    Acts T A ⟨h, live⟩ own ⟨{ h with mem := h.mem.storeList dst bytes }, live⟩ own ∧
      HoldsFile T (h.mem.storeList dst bytes) record buf (f.write off bytes) ∧
      ∀ q ∈ live, q ≠ buf → KeepsPayload T h.mem (h.mem.storeList dst bytes) q := by
  have hsize := ByteFile.size_write hfit
  by_cases hnil : bytes = []
  · -- nothing is stored, wherever that would have been
    have hmem : ∀ a, h.mem.storeList a bytes = h.mem := by
      intro a
      funext x
      exact Mem.storeList_apply_of_outside _ (by rw [hnil, List.length_nil]; omega)
    have hheld := hf.held.write off bytes
    rw [hmem] at hheld ⊢
    exact ⟨.refl hinv hown, ⟨hf.room, hf.data, hf.size.trans hsize.symm,
      fun h0 => hsize.trans_le (hf.fits h0), fun h0 => hsize.trans (hf.null h0), hheld⟩,
      fun q _ _ => .refl _ q⟩
  · have hpos := List.length_pos_iff.mpr hnil
    have h0 : buf ≠ 0 := fun h0 => by
      have := hf.null h0
      omega
    have hfits := hf.fits h0
    have hlive := hown (hbuf h0)
    rw [hdst hnil]
    have hframe : ∀ x, x < buf ∨ buf + payload T h.mem buf ≤ x →
        h.mem.storeList (buf + off) bytes x = h.mem x := fun x hx =>
      Mem.storeList_apply_of_outside _ (by omega)
    have hkeep : ∀ q ∈ live, q ≠ buf → KeepsPayload T h.mem (h.mem.storeList (buf + off) bytes) q :=
      fun q hq hqb => hinv.keeps_of_payload_write hlive hq hqb hframe
    have hrec' := hkeep record hrec hne.symm
    refine ⟨.write hinv hown (hbuf h0) hframe, ?_, hkeep⟩
    exact
      { room := hf.room.trans_eq hrec'.size.symm
        data := (hrec'.get_eq hf.room .data).trans hf.data
        size := ((hrec'.get_eq hf.room .size).trans hf.size).trans hsize.symm
        fits := fun _ => (hsize.trans_le hfits).trans_eq
          (hinv.payload_of_write hlive hlive hframe).symm
        null := fun h0' => absurd h0' h0
        held := hf.held.write off bytes }

end Holds

/-! ## Files -/

section Files

variable {o : TmpObj} {f : ByteFile} {need off sz n : Nat} {bytes : List UInt8}

/-- The object is a file's: its node and record agree on what the file is. -/
structure FileObj (T : Target) (m : Mem) (o : TmpObj) (f : ByteFile) : Prop where
  node : HoldsNode T m o.node o.record
  nodeSize : nodeGet T m o.node .size = f.size
  file : HoldsFile T m o.record o.buf f

theorem FileObj.keep (hf : FileObj T m o f) (hkeep : ∀ p ∈ o.ptrs, KeepsPayload T m m' p) :
    FileObj T m' o f where
  node := hf.node.keep (hkeep _ o.node_mem_ptrs)
  nodeSize := ((hkeep _ o.node_mem_ptrs).get_eq hf.node.room .size).trans hf.nodeSize
  file := hf.file.keep (hkeep _ o.record_mem_ptrs) fun h0 => hkeep _ (TmpObj.buf_mem_ptrs h0)

/-- The object is a file's on this heap, whatever its record says about the size. -/
structure FileState (T : Target) (A : Arena T) (h : Heap) (live : Finset Nat) (o : TmpObj) : Prop where
  inv : ∃ bs, HeapInv T A ⟨h, live⟩ bs
  owned : o.Owned live
  node : HoldsNode T h.mem o.node o.record
  room : (tmpfsFile T).size ≤ payload T h.mem o.record
  data : fileGet T h.mem o.record .data = o.buf

theorem FileObj.state (hf : FileObj T h.mem o f) (hinv : HeapInv T A ⟨h, live⟩ bs) (ho : o.Owned live) :
    FileState T A h live o :=
  ⟨⟨bs, hinv⟩, ho, hf.node, hf.file.room, hf.file.data⟩

/-- A file that is too short gets a new block, in which every file is held that the bytes moved there
hold. -/
theorem growFile_grown (hs : FileState T A h live o) (hsafe : A.SplitSafe)
    (hlt : fileGet T h.mem o.record .size < need) (hneed : need < 2 ^ 32)
    (hword : need + 7 < 2 ^ T.wordBits) (hsize : f.size = need)
    (hheld : ∀ (m : Mem) q, (o.buf ≠ 0 → ∀ i, i < payload T h.mem o.buf → i < need →
      m (q + i) = h.mem (o.buf + i)) → f.HeldAt m q)
    (hrun : growFile T h o.node o.record need = .ok h') :
    ∃ live' q, Acts T A ⟨h, live⟩ o.ptrs ⟨h', live'⟩ { o with buf := q }.ptrs ∧
      { o with buf := q }.Owned live' ∧ q ≠ 0 ∧ FileObj T h'.mem { o with buf := q } f := by
  obtain ⟨bs, hinv⟩ := hs.inv
  rw [growFile, if_pos hlt, hs.data] at hrun
  obtain ⟨⟨q, h₁⟩, hre, hres⟩ := bind_eq_ok.mp hrun
  obtain rfl := Except.ok.inj hres
  obtain ⟨live₁, hacts₁, ho₁, hq0, hroom, hnode₁, hrec₁, hbytes⟩ :=
    hs.owned.regrow hinv hsafe (by omega) hword hre
  obtain ⟨bs₁, hinv₁⟩ := hacts₁.inv
  -- the record gets the new pointer and the new size
  obtain ⟨m₂, hm₂, hacts₂, hfile₂, hkeep₂⟩ := HoldsFile.assign hinv₁ ho₁.ptrs_subset
    (TmpObj.record_mem_ptrs _) (hs.room.trans_eq hrec₁.size.symm) ho₁.buf_ne_record
    ho₁.buf_mem.resolve_left hsize hneed (fun _ => hroom) (fun h0 => absurd h0 hq0)
    (hheld _ q hbytes)
  have hnode₂ := hkeep₂ o.node ho₁.node_mem ho₁.node_ne
  -- and the node the new size
  obtain ⟨bs₂, hinv₂⟩ := hacts₂.inv
  have hnoderoom := (hs.node.room.trans_eq hnode₁.size.symm).trans_eq hnode₂.size.symm
  obtain ⟨hacts₃, hsize₃, hkeep₃⟩ := ho₁.set hinv₂ (TmpObj.node_mem_ptrs _) hnoderoom .size
    (fileGet T m₂ o.record .size)
  rw [← hm₂]
  refine ⟨live₁, q, (hacts₁.trans hacts₂).trans hacts₃, ho₁, hq0, ⟨?_, ?_⟩, ?_, ?_⟩
  · exact hnoderoom.trans_eq hsize₃.symm
  · rw [nodeGet, (vfsNode T).get_set_of_ne _ _ _ (by decide), hnode₂.get_eq, hnode₁.get_eq]
    · exact hs.node.fsData
    · exact hs.node.room
    · exact hs.node.room.trans_eq hnode₁.size.symm
  · rw [nodeGet, (vfsNode T).get_set_same, hfile₂.size, mod_vfsNode_size hfile₂.size_lt]
  · exact hfile₂.keep (hkeep₃ _ (TmpObj.record_mem_ptrs _) ho₁.node_ne.symm) fun _ =>
      hkeep₃ _ (TmpObj.buf_mem_ptrs hq0) ho₁.buf_ne_node

/-- The first part of `tmpfs_write` makes the file long enough and keeps its bytes. -/
theorem growFile_spec (hinv : HeapInv T A ⟨h, live⟩ bs) (hsafe : A.SplitSafe) (ho : o.Owned live)
    (hf : FileObj T h.mem o f) (hneed : need + 8 < 2 ^ 32)
    (hrun : growFile T h o.node o.record need = .ok h') :
    ∃ live' q, Acts T A ⟨h, live⟩ o.ptrs ⟨h', live'⟩ { o with buf := q }.ptrs ∧
      { o with buf := q }.Owned live' ∧ FileObj T h'.mem { o with buf := q } (f.grow need) := by
  have hword := T.two_pow_32_le
  by_cases hlt : f.size < need
  · have hheld : ∀ (m : Mem) q, (o.buf ≠ 0 → ∀ i, i < payload T h.mem o.buf → i < need →
        m (q + i) = h.mem (o.buf + i)) → (f.grow need).HeldAt m q := by
      intro m q hbytes
      refine hf.file.held.congr fun i hi => ?_
      have h0 : o.buf ≠ 0 := fun h0 => by
        rw [hf.file.null h0] at hi
        exact Nat.not_lt_zero i hi
      have hfits := hf.file.fits h0
      exact hbytes h0 i (by omega) (by omega)
    obtain ⟨live₁, q, hacts, ho₁, -, hf₁⟩ := growFile_grown (hf.state hinv ho) hsafe
      (hf.file.size.trans_lt hlt) (by omega) (by omega) (max_eq_right hlt.le) hheld hrun
    exact ⟨live₁, q, hacts, ho₁, hf₁⟩
  · rw [growFile, hf.file.size, if_neg hlt] at hrun
    cases hrun
    have hgrow : f.grow need = f := by
      have hmax : max f.size need = f.size := max_eq_left (by omega)
      simp only [ByteFile.grow, hmax]
    rw [hgrow]
    exact ⟨live, o.buf, .refl hinv ho.ptrs_subset, ho, hf⟩

/-- `tmpfs_write` returns the number of bytes given and writes them to the file. -/
theorem tmpfsWrite_spec (hinv : HeapInv T A ⟨h, live⟩ bs) (hsafe : A.SplitSafe) (ho : o.Owned live)
    (hf : FileObj T h.mem o f) (hoff : off + bytes.length + 8 < 2 ^ 32)
    (hrun : tmpfsWrite T h o.node off bytes = .ok (n, h')) :
    n = bytes.length ∧ ∃ live' q, Acts T A ⟨h, live⟩ o.ptrs ⟨h', live'⟩ { o with buf := q }.ptrs ∧
      { o with buf := q }.Owned live' ∧
      FileObj T h'.mem { o with buf := q } (f.write off bytes) := by
  rw [tmpfsWrite, hf.node.fsData, Nat.mod_eq_of_lt (show off < 2 ^ 32 by omega),
    Nat.mod_eq_of_lt (show off + bytes.length < 2 ^ 32 by omega)] at hrun
  obtain ⟨h₁, hgrow, hres⟩ := bind_eq_ok.mp hrun
  obtain ⟨rfl, rfl⟩ := Prod.mk.inj (Except.ok.inj hres)
  obtain ⟨live₁, q, hacts₁, ho₁, hf₁⟩ := growFile_spec hinv hsafe ho hf (by omega) hgrow
  obtain ⟨bs₁, hinv₁⟩ := hacts₁.inv
  have hfit : off + bytes.length ≤ (f.grow (off + bytes.length)).size := le_max_right _ _
  have hdst : bytes ≠ [] → (q + off) % 2 ^ T.wordBits = q + off := by
    intro hnil
    have hpos := List.length_pos_iff.mpr hnil
    have hq0 : q ≠ 0 := fun h0 => by
      have := hf₁.file.null h0
      omega
    have hfits : (f.grow (off + bytes.length)).size ≤ payload T h₁.mem q := hf₁.file.fits hq0
    have hqlt : q + payload T h₁.mem q < 2 ^ T.wordBits :=
      hinv₁.payload_stop_lt (ho₁.buf_mem.resolve_left hq0)
    exact Nat.mod_eq_of_lt (by omega)
  rw [hf₁.file.data]
  obtain ⟨hacts₂, hfile₂, hkeep₂⟩ := hf₁.file.store off _ bytes hinv₁ hacts₁.owned
    ho₁.record_mem ho₁.buf_ne_record TmpObj.buf_mem_ptrs hfit hdst
  have hnode₂ := hkeep₂ o.node ho₁.node_mem ho₁.buf_ne_node.symm
  have hsize := ByteFile.size_write hfit
  rw [ByteFile.write_grow] at hfile₂ hsize
  exact ⟨rfl, live₁, q, hacts₁.trans hacts₂, ho₁, hf₁.node.keep hnode₂,
    ((hnode₂.get_eq hf₁.node.room .size).trans hf₁.nodeSize).trans hsize.symm, hfile₂⟩

/-- `tmpfs_write` returns unless the heap is exhausted. -/
theorem tmpfsWrite_returns (hinv : HeapInv T A ⟨h, live⟩ bs) (hsafe : A.SplitSafe) (ho : o.Owned live)
    (hf : FileObj T h.mem o f) (hoff : off + bytes.length + 8 < 2 ^ 32) :
    ReturnsUnlessFull (tmpfsWrite T h o.node off bytes) := by
  have hword := T.two_pow_32_le
  refine .bind ?_ fun h₁ _ => Or.inl ⟨_, rfl⟩
  rw [hf.node.fsData, Nat.mod_eq_of_lt (show off < 2 ^ 32 by omega),
    Nat.mod_eq_of_lt (show off + bytes.length < 2 ^ 32 by omega), growFile, hf.file.size, hf.file.data]
  split_ifs with hlt
  · exact (hinv.krealloc_returns hsafe ho.buf_mem (by omega) (by omega)).bind fun _ _ =>
      Or.inl ⟨_, rfl⟩
  · exact Or.inl ⟨_, rfl⟩

/-- `tmpfs_read` copies the bytes of the buffer from the offset on, up to the end of the file. -/
theorem tmpfsRead_eq (hinv : HeapInv T A ⟨h, live⟩ bs) (ho : o.Owned live) (hf : FileObj T h.mem o f)
    (off : Nat) (hsz : sz < 2 ^ 32) : tmpfsRead T h.mem o.node off sz =
      (f.readLen off sz, h.mem.bytes (o.buf + off) (f.readLen off sz)) := by
  have hlt := hf.file.size_lt
  rw [tmpfsRead, hf.node.fsData, hf.file.size, hf.file.data]
  by_cases hend : f.size ≤ off
  · have hlen : f.readLen off sz = 0 := if_pos hend
    rw [if_pos hend, hlen]
    rfl
  · have h0 : o.buf ≠ 0 := fun h0 => hend ((hf.file.null h0).trans_le (Nat.zero_le off))
    have hfits := hf.file.fits h0
    have hstop : o.buf + payload T h.mem o.buf < 2 ^ T.wordBits :=
      hinv.payload_stop_lt (ho.buf_mem.resolve_left h0)
    have hcount : (if f.size < (off + sz) % 2 ^ 64 then wsub 64 f.size off % 2 ^ 32 else sz)
        = f.readLen off sz := by
      rw [ByteFile.readLen, if_neg hend, Nat.mod_eq_of_lt (show off + sz < 2 ^ 64 by omega),
        wsub_of_le (by omega) (by omega), Nat.mod_eq_of_lt (show f.size - off < 2 ^ 32 by omega)]
      split_ifs with hlong
      · exact (min_eq_right (by omega)).symm
      · exact (min_eq_left (by omega)).symm
    rw [if_neg hend, hcount, Nat.mod_eq_of_lt (show off < 2 ^ 32 by omega),
      Nat.mod_eq_of_lt (show o.buf + off < 2 ^ T.wordBits by omega)]

/-- `tmpfs_read` returns what a read of the file may return. -/
theorem tmpfsRead_spec (hinv : HeapInv T A ⟨h, live⟩ bs) (ho : o.Owned live)
    (hf : FileObj T h.mem o f) (hsz : sz < 2 ^ 32) :
    f.Reads off sz (tmpfsRead T h.mem o.node off sz).1 (tmpfsRead T h.mem o.node off sz).2 := by
  rw [tmpfsRead_eq hinv ho hf off hsz]
  exact hf.file.held.reads

end Files

/-! ## Directories -/

section Directories

variable {o : TmpObj} {es : List Nat} {record entries count cap k n c : Nat}

/-- The object is a directory's, with at most `k` entries and a table that has room for them. -/
structure DirObj (T : Target) (m : Mem) (o : TmpObj) (k : Nat) : Prop where
  node : HoldsNode T m o.node o.record
  dir : ∃ count cap, HoldsDir T m o.record o.buf count cap ∧ count ≤ k ∧ count ≤ cap ∧
    (o.buf ≠ 0 → cap * T.ptrBytes ≤ payload T m o.buf) ∧ (o.buf = 0 → cap = 0)

/-- The object is a directory's, and these are its entries, pointers to nodes. -/
structure DirListing (T : Target) (m : Mem) (o : TmpObj) (es : List Nat) : Prop where
  node : HoldsNode T m o.node o.record
  dir : ∃ cap, HoldsDir T m o.record o.buf es.length cap ∧ es.length ≤ cap ∧
    (o.buf ≠ 0 → cap * T.ptrBytes ≤ payload T m o.buf) ∧ (o.buf = 0 → cap = 0)
  slots : ∀ (i : Nat) e, es[i]? = some e → m.load (o.buf + i * T.ptrBytes) T.ptrBytes = e

/-- A listing forgets its entries. -/
theorem DirListing.dirObj (hd : DirListing T m o es) (hk : es.length ≤ k) : DirObj T m o k := by
  obtain ⟨cap, hdir, hrest⟩ := hd.dir
  exact ⟨hd.node, es.length, cap, hdir, hk, hrest⟩

/-- What the table of a directory holds is its listing. -/
theorem DirObj.exists_listing (hd : DirObj T m o k) : ∃ es, es.length ≤ k ∧ DirListing T m o es := by
  obtain ⟨count, cap, hdir, hk, hrest⟩ := hd.dir
  refine ⟨List.ofFn fun i : Fin count => m.load (o.buf + i * T.ptrBytes) T.ptrBytes, ?_, hd.node, ?_, ?_⟩
  · rw [List.length_ofFn]
    exact hk
  · rw [List.length_ofFn]
    exact ⟨cap, hdir, hrest⟩
  · intro i e hi
    obtain ⟨hlt, rfl⟩ := List.getElem?_eq_some_iff.mp hi
    rw [List.getElem_ofFn]

theorem DirObj.keep (hd : DirObj T m o k) (hkeep : ∀ p ∈ o.ptrs, KeepsPayload T m m' p) :
    DirObj T m' o k := by
  obtain ⟨count, cap, hdir, hk, hle, hfits, hnull⟩ := hd.dir
  refine ⟨hd.node.keep (hkeep _ o.node_mem_ptrs), count, cap,
    hdir.keep (hkeep _ o.record_mem_ptrs), hk, hle, fun h0 => ?_, hnull⟩
  rw [(hkeep _ (TmpObj.buf_mem_ptrs h0)).size]
  exact hfits h0

theorem DirObj.mono (hd : DirObj T m o k) {k' : Nat} (hk : k ≤ k') : DirObj T m o k' := by
  obtain ⟨count, cap, hdir, hcount, hrest⟩ := hd.dir
  exact ⟨hd.node, count, cap, hdir, hcount.trans hk, hrest⟩

/-- The size of the entry table stays far below the end of the address space. -/
theorem table_lt (hc : c ≤ 2 ^ 29) : c * T.ptrBytes + 7 < 2 ^ T.wordBits := by
  cases T
  · change c * 4 + 7 < 2 ^ 32
    omega
  · change c * 8 + 7 < 2 ^ 64
    omega

theorem HoldsDir.set_cap (hd : HoldsDir T m record entries count cap) (hc : c < 2 ^ 32)
    (hsize : payload T ((tmpfsDir T).set m record .cap c) record = payload T m record) :
    HoldsDir T ((tmpfsDir T).set m record .cap c) record entries count c where
  room := hd.room.trans_eq hsize.symm
  entries_eq := ((tmpfsDir T).get_set_of_ne m record c (by decide)).trans hd.entries_eq
  count_eq := ((tmpfsDir T).get_set_of_ne m record c (by decide)).trans hd.count_eq
  cap_eq := ((tmpfsDir T).get_set_same m record .cap c).trans (mod_tmpfsDir_cap hc)

theorem HoldsDir.set_count (hd : HoldsDir T m record entries count cap) (hc : c < 2 ^ 32)
    (hsize : payload T ((tmpfsDir T).set m record .count c) record = payload T m record) :
    HoldsDir T ((tmpfsDir T).set m record .count c) record entries c cap where
  room := hd.room.trans_eq hsize.symm
  entries_eq := ((tmpfsDir T).get_set_of_ne m record c (by decide)).trans hd.entries_eq
  count_eq := ((tmpfsDir T).get_set_same m record .count c).trans (mod_tmpfsDir_count hc)
  cap_eq := ((tmpfsDir T).get_set_of_ne m record c (by decide)).trans hd.cap_eq

theorem HoldsDir.set_entries (hd : HoldsDir T m record entries count cap) (hc : c < 2 ^ T.wordBits)
    (hsize : payload T ((tmpfsDir T).set m record .entries c) record = payload T m record) :
    HoldsDir T ((tmpfsDir T).set m record .entries c) record c count cap where
  room := hd.room.trans_eq hsize.symm
  entries_eq := by
    rw [dirGet, (tmpfsDir T).get_set_same, tmpfsDir_width_entries, mod_ptr hc]
  count_eq := ((tmpfsDir T).get_set_of_ne m record c (by decide)).trans hd.count_eq
  cap_eq := ((tmpfsDir T).get_set_of_ne m record c (by decide)).trans hd.cap_eq

/-- The capacity of a table once there is room for one more entry. -/
def grownCap (cap count : Nat) : Nat := if cap ≤ count then (if cap ≠ 0 then cap * 2 else 4) else cap

/-- A slot of the table lies inside it. -/
theorem slot_le {i cap : Nat} (hi : i < cap) : i * T.ptrBytes + T.ptrBytes ≤ cap * T.ptrBytes := by
  rw [← Nat.succ_mul]
  exact Nat.mul_le_mul_right _ hi

/-- A directory with entries has a table. -/
theorem DirListing.buf_ne_zero (hd : DirListing T m o es) {i e : Nat} (hi : es[i]? = some e) :
    o.buf ≠ 0 := by
  obtain ⟨cap, -, hle, -, hnull⟩ := hd.dir
  obtain ⟨hlt, -⟩ := List.getElem?_eq_some_iff.mp hi
  intro h0
  have hcap := hnull h0
  omega

theorem DirListing.keep (hd : DirListing T m o es) (hkeep : ∀ p ∈ o.ptrs, KeepsPayload T m m' p) :
    DirListing T m' o es := by
  obtain ⟨cap, hdir, hle, hfits, hnull⟩ := hd.dir
  refine ⟨hd.node.keep (hkeep _ o.node_mem_ptrs), ⟨cap, hdir.keep (hkeep _ o.record_mem_ptrs), hle,
    fun h0 => ?_, hnull⟩, fun i e hi => ?_⟩
  · rw [(hkeep _ (TmpObj.buf_mem_ptrs h0)).size]
    exact hfits h0
  · have h0 := hd.buf_ne_zero hi
    have hroom := hfits h0
    obtain ⟨hlt, -⟩ := List.getElem?_eq_some_iff.mp hi
    have hslot := slot_le (T := T) (show i < cap by omega)
    rw [← hd.slots i e hi]
    exact Mem.load_congr fun x h₁ h₂ =>
      (hkeep _ (TmpObj.buf_mem_ptrs h0)).bytes x (by omega) (by omega)

/-- The first part of `dir_add` makes sure that there is room for one more entry, and keeps those there
are. -/
theorem growDir_spec (hinv : HeapInv T A ⟨h, live⟩ bs) (hsafe : A.SplitSafe) (ho : o.Owned live)
    (hd : DirListing T h.mem o es) (hk : es.length < 2 ^ 28) (hrun : growDir T h o.record = .ok h') :
    ∃ live' q cap, Acts T A ⟨h, live⟩ o.ptrs ⟨h', live'⟩ { o with buf := q }.ptrs ∧
      { o with buf := q }.Owned live' ∧ KeepsPayload T h.mem h'.mem o.node ∧
      HoldsDir T h'.mem o.record q es.length cap ∧ es.length < cap ∧ q ≠ 0 ∧
      cap * T.ptrBytes ≤ payload T h'.mem q ∧
      cap = grownCap (dirGet T h.mem o.record .cap) es.length ∧
      ∀ (i : Nat) e, es[i]? = some e → h'.mem.load (q + i * T.ptrBytes) T.ptrBytes = e := by
  obtain ⟨cap, hdir, hle, hfits, hnull⟩ := hd.dir
  rw [growDir, hdir.count_eq, hdir.cap_eq] at hrun
  by_cases hfull : cap ≤ es.length
  · -- the doubled capacity is at least 4, and neither it nor the table's size wraps
    obtain ⟨c, hc⟩ : ∃ c, c = if cap ≠ 0 then cap * 2 else 4 := ⟨_, rfl⟩
    have hc0 : es.length < c ∧ c ≤ 2 ^ 29 := by
      split_ifs at hc <;> omega
    have htable := table_lt (T := T) hc0.2
    have hpos : 0 < c * T.ptrBytes := Nat.mul_pos (by omega) T.ptrBytes_pos
    obtain ⟨hacts₁, hsize₁, hkeep₁⟩ := ho.set hinv o.record_mem_ptrs hdir.room .cap c
    obtain ⟨bs₁, hinv₁⟩ := hacts₁.inv
    have hdir₁ := hdir.set_cap (by omega) hsize₁
    rw [if_pos hfull, ← hc] at hrun
    dsimp only at hrun
    rw [hdir₁.cap_eq, hdir₁.entries_eq, Nat.mod_eq_of_lt (by omega)] at hrun
    obtain ⟨⟨q, h₂⟩, hre, hres⟩ := bind_eq_ok.mp hrun
    obtain rfl := Except.ok.inj hres
    obtain ⟨live₂, hacts₂, ho₂, hq0, hroom₂, hnode₂, hrec₂, hbytes₂⟩ :=
      ho.regrow hinv₁ hsafe (by omega) htable hre
    obtain ⟨bs₂, hinv₂⟩ := hacts₂.inv
    have hqlt : q + payload T h₂.mem q < 2 ^ T.wordBits :=
      hinv₂.payload_stop_lt (ho₂.buf_mem.resolve_left hq0)
    have hdir₂ := hdir₁.keep hrec₂
    obtain ⟨hacts₃, hsize₃, hkeep₃⟩ := ho₂.set hinv₂ (TmpObj.record_mem_ptrs _) hdir₂.room .entries q
    have hnode₁ := hkeep₁ o.node o.node_mem_ptrs ho.node_ne
    have hnode₃ := hkeep₃ o.node (TmpObj.node_mem_ptrs _) ho₂.node_ne
    have hbuf₃ := hkeep₃ q (TmpObj.buf_mem_ptrs hq0) ho₂.buf_ne_record
    refine ⟨live₂, q, c, (hacts₁.trans hacts₂).trans hacts₃, ho₂, (hnode₁.trans hnode₂).trans hnode₃,
      hdir₂.set_entries (by omega) hsize₃, hc0.1, hq0, hroom₂.trans_eq hbuf₃.size.symm, ?_,
      fun i e hi => ?_⟩
    · rw [hdir.cap_eq, grownCap, if_pos hfull]
      exact hc
    -- the bytes of the table are moved along
    have h0 := hd.buf_ne_zero hi
    have hroom := hfits h0
    obtain ⟨hlt, -⟩ := List.getElem?_eq_some_iff.mp hi
    have hslot := slot_le (T := T) (show i < cap by omega)
    have hslot₂ := slot_le (T := T) (show i < c by omega)
    have hbuf₁ := hkeep₁ o.buf (TmpObj.buf_mem_ptrs h0) ho.buf_ne_record
    have hpay₁ := hbuf₁.size
    rw [← hd.slots i e hi]
    refine Mem.load_eq_of_bytes fun j hj => ?_
    have hkept := hbuf₃.bytes (q + (i * T.ptrBytes + j)) (by omega) (by omega)
    have hmoved := hbytes₂ h0 (i * T.ptrBytes + j) (by dsimp only; omega) (by omega)
    have hold := hbuf₁.bytes (o.buf + (i * T.ptrBytes + j)) (by omega) (by omega)
    rw [Nat.add_assoc, Nat.add_assoc]
    exact (hkept.trans hmoved).trans hold
  · rw [if_neg hfull] at hrun
    obtain rfl := Except.ok.inj hrun
    have hq0 : o.buf ≠ 0 := fun h0 => by
      have := hnull h0
      omega
    refine ⟨live, o.buf, cap, .refl hinv ho.ptrs_subset, ho, .refl _ _, hdir, by omega, hq0, hfits hq0,
      ?_, hd.slots⟩
    rw [hdir.cap_eq, grownCap, if_neg hfull]

/-- `dir_add` adds one entry to the directory, behind the others. -/
theorem dirAdd_listing (hinv : HeapInv T A ⟨h, live⟩ bs) (hsafe : A.SplitSafe) (ho : o.Owned live)
    (hd : DirListing T h.mem o es) (hk : es.length < 2 ^ 28) (hrun : dirAdd T h o.record n = .ok h') :
    ∃ live' q, Acts T A ⟨h, live⟩ o.ptrs ⟨h', live'⟩ { o with buf := q }.ptrs ∧
      { o with buf := q }.Owned live' ∧ KeepsPayload T h.mem h'.mem o.node ∧
      DirListing T h'.mem { o with buf := q } (es ++ [n % 256 ^ T.ptrBytes]) ∧
      dirGet T h'.mem o.record .cap = grownCap (dirGet T h.mem o.record .cap) es.length := by
  obtain ⟨h₁, hgrow, hres⟩ := bind_eq_ok.mp hrun
  obtain ⟨live₁, q, cap, hacts₁, ho₁, hnode₁, hdir₁, hlt, hq0, hfits, hcap, hslots₁⟩ :=
    growDir_spec hinv hsafe ho hd hk hgrow
  obtain ⟨bs₁, hinv₁⟩ := hacts₁.inv
  have hqlt : q + payload T h₁.mem q < 2 ^ T.wordBits :=
    hinv₁.payload_stop_lt (ho₁.buf_mem.resolve_left hq0)
  have hslot := slot_le (T := T) hlt
  obtain ⟨hacts₂, hsize₂, hkeep₂⟩ :=
    ho₁.set hinv₁ (TmpObj.record_mem_ptrs _) hdir₁.room .count (es.length + 1)
  obtain ⟨bs₂, hinv₂⟩ := hacts₂.inv
  have hdir₂ := hdir₁.set_count (c := es.length + 1) (by omega) hsize₂
  have hnode₂ := hkeep₂ o.node (TmpObj.node_mem_ptrs _) ho₁.node_ne
  have hbuf₂ := hkeep₂ q (TmpObj.buf_mem_ptrs hq0) ho₁.buf_ne_record
  dsimp only at hres
  rw [hdir₁.count_eq, hdir₂.entries_eq,
    Nat.mod_eq_of_lt (show q + es.length * T.ptrBytes < 2 ^ T.wordBits by omega)] at hres
  obtain rfl := Except.ok.inj hres
  obtain ⟨hacts₃, hsize₃, hkeep₃⟩ := ho₁.write (p := q) hinv₂
    (Mem.store ((tmpfsDir T).set h₁.mem o.record .count (es.length + 1)) (q + es.length * T.ptrBytes)
      T.ptrBytes n)
    (TmpObj.buf_mem_ptrs hq0) fun x hx =>
      Mem.store_apply_of_outside _ (by dsimp only at hx; rw [hbuf₂.size] at hx; omega)
  have hnode₃ := hkeep₃ o.node (TmpObj.node_mem_ptrs _) ho₁.buf_ne_node.symm
  have hrec₃ := hkeep₃ o.record (TmpObj.record_mem_ptrs _) ho₁.buf_ne_record.symm
  have hnode := (hnode₁.trans hnode₂).trans hnode₃
  have hlen : (es ++ [n % 256 ^ T.ptrBytes]).length = es.length + 1 := List.length_append
  refine ⟨live₁, q, (hacts₁.trans hacts₂).trans hacts₃, ho₁, hnode, ⟨hd.node.keep hnode, ⟨cap, ?_, ?_,
    fun _ => (hfits.trans_eq hbuf₂.size.symm).trans_eq hsize₃.symm, fun h0 => absurd h0 hq0⟩, ?_⟩,
    (hdir₂.keep hrec₃).cap_eq.trans hcap⟩
  · rw [hlen]
    exact hdir₂.keep hrec₃
  · rw [hlen]
    exact hlt
  · intro i e hi
    rw [List.getElem?_append] at hi
    split_ifs at hi with hold
    · -- the slots in front of the new one are as they were
      have hbelow := slot_le (T := T) hold
      have hin := slot_le (T := T) (show i < cap by omega)
      rw [Mem.load_store_of_disjoint _ (Or.inr (by dsimp only; omega)), ← hslots₁ i e hi]
      exact Mem.load_congr fun x h₁ h₂ => hbuf₂.bytes x (by dsimp only at h₁; omega)
        (by dsimp only at h₂; omega)
    · obtain ⟨hi0, rfl⟩ := List.getElem?_eq_some_iff.mp hi
      rw [List.length_singleton] at hi0
      obtain rfl : i = es.length := by omega
      simp only [Nat.sub_self, List.getElem_cons_zero]
      exact Mem.load_store_same _ _ _ _

/-- `dir_add` adds one entry, whatever the others are. -/
theorem dirAdd_spec (hinv : HeapInv T A ⟨h, live⟩ bs) (hsafe : A.SplitSafe) (ho : o.Owned live)
    (hd : DirObj T h.mem o k) (hk : k < 2 ^ 28) (hrun : dirAdd T h o.record n = .ok h') :
    ∃ live' q, Acts T A ⟨h, live⟩ o.ptrs ⟨h', live'⟩ { o with buf := q }.ptrs ∧
      { o with buf := q }.Owned live' ∧ DirObj T h'.mem { o with buf := q } (k + 1) := by
  obtain ⟨es, hlen, hlist⟩ := hd.exists_listing
  obtain ⟨live', q, hacts, ho', -, hlist', -⟩ := dirAdd_listing hinv hsafe ho hlist (by omega) hrun
  refine ⟨live', q, hacts, ho', hlist'.dirObj ?_⟩
  rw [List.length_append, List.length_singleton]
  omega

end Directories

end Aerogel
