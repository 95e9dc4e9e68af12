import Aerogel.Filesystem.FatDirectory

/-! # VFAT directories and their decoding

What a FAT32 directory means, without a driver: logical entries, and how VFAT writes them down as
directory entries of 32 bytes. A long name is split into fragments of 13 units, which stand in front of
their short entry in descending order. `Encodes` relates a row of directory entries to the logical
entries it stands for; `scan_encodes` says that the loop of `load_dir` finds exactly these. -/

namespace Aerogel

namespace Vfat

/-! ## Logical entries -/

/-- A name of 8 and 3 characters. -/
structure ShortName where
  /-- In front of the dot. -/
  base : List UInt8
  /-- Behind the dot. -/
  ext : List UInt8
  /-- There is something in front of the dot. -/
  base_ne : base ≠ []
  /-- At most 8 characters in front of it. -/
  base_le : base.length ≤ 8
  /-- At most 3 characters behind it. -/
  ext_le : ext.length ≤ 3
  /-- No NULs and no spaces. -/
  base_ok : ∀ b ∈ base, b ≠ 0 ∧ b ≠ 0x20
  /-- No NULs and no spaces. -/
  ext_ok : ∀ b ∈ ext, b ≠ 0 ∧ b ≠ 0x20
  /-- The first character has no other meaning. -/
  first_ok : ∀ b ∈ base.head?, b ≠ 0x05 ∧ b ≠ 0xE5 ∧ b ≠ 0x2E

/-- The characters of the name. -/
def ShortName.text (n : ShortName) : List UInt8 :=
  n.base ++ if n.ext = [] then [] else 0x2E :: n.ext

/-- A long name: UTF-16 units in 1 .. 255. -/
structure LongName where
  /-- The units. -/
  units : List UInt8
  /-- None is 0. -/
  units_ok : ∀ u ∈ units, u ≠ 0
  /-- There is at least one. -/
  units_ne : units ≠ []
  /-- There are at most 255. -/
  units_le : units.length ≤ 255

/-- The name of an entry. -/
inductive EntryName
  /-- A name of 8 and 3 characters. -/
  | short (n : ShortName)
  /-- A long name. -/
  | long (n : LongName)

/-- The characters of the name. -/
def EntryName.text : EntryName → List UInt8
  | .short n => n.text
  | .long n => n.units

/-- Files and directories. -/
inductive EntryKind
  | file
  | dir
  deriving DecidableEq, Repr

/-- A logical entry of a directory. -/
structure LogicalEntry where
  /-- A file or a directory. -/
  kind : EntryKind
  /-- Its first cluster. -/
  cluster : Nat
  /-- Its size; a directory has none. -/
  size : Nat
  /-- Its name. -/
  name : EntryName
  /-- A cluster number has 32 bits. -/
  cluster_lt : cluster < 2 ^ 32
  /-- A size has 32 bits. -/
  size_lt : size < 2 ^ 32
  /-- The size of a directory is 0. -/
  dir_size : kind = .dir → size = 0

/-! ## Directory entries -/

/-- Where unit `j` of a fragment is. -/
def unitOff (j : Nat) : Nat :=
  if j < 5 then 1 + 2 * j else if j < 11 then 14 + 2 * (j - 5) else 28 + 2 * (j - 11)

/-- How many fragments a long name has. -/
def LongName.fragments (n : LongName) : Nat := (n.units.length + 12) / 13

/-- The unit at a position of the fragments: behind the name a 0 and then padding. -/
def LongName.unitAt (n : LongName) (p : Nat) : Nat :=
  if h : p < n.units.length then n.units[p].toNat else if p = n.units.length then 0 else 0xFFFF

/-- The entry is fragment `i` of the name. -/
structure IsFragment (n : LongName) (i : Nat) (r : Dirent) : Prop where
  /-- The number of the fragment from 1 on, with a mark on the last one. -/
  order : (r 0).toNat = if i + 1 = n.fragments then 0x40 + (i + 1) else i + 1
  /-- The attributes of fragments. -/
  attr : r.field .attr = fatAttrLfn
  /-- The units. -/
  units : ∀ j < 13, r.mem.load (unitOff j) 2 = n.unitAt (13 * i + j)

/-- The entry has the name, padded with spaces. -/
structure HasShortName (n : ShortName) (r : Dirent) : Prop where
  /-- In front of the dot. -/
  base : ∀ i < 8, r.mem i = n.base.getD i 0x20
  /-- Behind the dot. -/
  ext : ∀ i < 3, r.mem (8 + i) = n.ext.getD i 0x20

/-- The entry has a name that a short entry may have, such as the alias of a long name. -/
structure HasAlias (r : Dirent) : Prop where
  /-- It is not the end of the directory. -/
  ne_end : r 0 ≠ 0x00
  /-- It is not deleted. -/
  ne_deleted : r 0 ≠ 0xE5
  /-- It is not a dot entry. -/
  ne_dot : r 0 ≠ 0x2E

/-- The entry says what the logical entry is. -/
structure Describes (r : Dirent) (e : LogicalEntry) : Prop where
  /-- It is not a volume label. -/
  not_label : r.field .attr &&& fatAttrVolid = 0
  /-- A file or a directory. -/
  kind : r.field .attr &&& fatAttrDir ≠ 0 ↔ e.kind = .dir
  /-- The first cluster, upper half. -/
  clusterHi : r.field .clusterHi = e.cluster / 2 ^ 16
  /-- The first cluster, lower half. -/
  clusterLo : r.field .clusterLo = e.cluster % 2 ^ 16
  /-- The size. -/
  size : r.field .size = e.size

/-- Entries that stand for nothing. -/
inductive Skipped (r : Dirent) : Prop
  /-- A deleted entry. -/
  | deleted (h : r 0 = 0xE5)
  /-- A volume label. -/
  | label (hend : r 0 ≠ 0x00) (hattr : r.field .attr &&& fatAttrVolid ≠ 0)
      (hlfn : r.field .attr ≠ fatAttrLfn)
  /-- The entry of the directory itself, or of the one above. -/
  | dot (h : r 0 = 0x2E) (hlfn : r.field .attr ≠ fatAttrLfn)

/-- A row of directory entries stands for a list of logical entries. -/
inductive Encodes : List Dirent → List LogicalEntry → Prop
  /-- Nothing. -/
  | nil : Encodes [] []
  /-- Something that stands for nothing. -/
  | skip {r : Dirent} {rs : List Dirent} {es : List LogicalEntry} :
      Skipped r → Encodes rs es → Encodes (r :: rs) es
  /-- An entry with a short name. -/
  | short {r : Dirent} {rs : List Dirent} {e : LogicalEntry} {es : List LogicalEntry}
      {n : ShortName} : e.name = .short n → HasShortName n r → Describes r e → Encodes rs es →
      Encodes (r :: rs) (e :: es)
  /-- An entry with a long name: the fragments, last one first, and a short entry. -/
  | long {frags : List Dirent} {r : Dirent} {rs : List Dirent} {e : LogicalEntry}
      {es : List LogicalEntry} {n : LongName} : e.name = .long n → frags.length = n.fragments →
      (∀ (i : Nat) (h : i < frags.reverse.length), IsFragment n i frags.reverse[i]) → HasAlias r →
      Describes r e → Encodes rs es → Encodes (frags ++ r :: rs) (e :: es)

/-! ## Names -/

/-- A padded field is copied without its padding. -/
theorem copyPadded_eq {de : Dirent} {s : List UInt8} {n off : Nat} (hlen : s.length ≤ n)
    (hok : ∀ b ∈ s, b ≠ 0x20) (hde : ∀ i < n, de.mem (off + i) = s.getD i 0x20)
    (out : List UInt8) : copyPadded de n off out = out ++ s := by
  induction n generalizing s off out with
  | zero =>
      obtain rfl := List.length_eq_zero_iff.mp (Nat.le_zero.mp hlen)
      exact (List.append_nil out).symm
  | succ n ih =>
      have hhead : de.mem off = s.getD 0 0x20 := hde 0 (Nat.succ_pos n)
      rw [copyPadded, hhead]
      cases s with
      | nil =>
          rw [List.append_nil]
          exact if_neg (not_not.mpr rfl)
      | cons b s =>
          have hb : b ≠ 0x20 := hok b List.mem_cons_self
          rw [List.getD_cons_zero, if_pos hb]
          rw [ih (Nat.le_of_succ_le_succ hlen) (fun x hx => hok x (List.mem_cons_of_mem b hx))
            (fun i hi => ?_), List.append_assoc, List.singleton_append]
          have h := hde (i + 1) (Nat.succ_lt_succ hi)
          rw [List.getD_cons_succ] at h
          rw [← h, Nat.add_assoc, Nat.add_comm 1 i]

/-- `parse_83` reads the name off its entry. -/
theorem parse83_eq {n : ShortName} {r : Dirent} (h : HasShortName n r) : parse83 r = n.text := by
  have hbase : copyPadded r 8 0 [] = n.base := by
    refine (copyPadded_eq n.base_le (fun b hb => (n.base_ok b hb).2) (fun i hi => ?_) []).trans
      (List.nil_append _)
    rw [Nat.zero_add]
    exact h.base i hi
  have hext : ∀ out, copyPadded r 3 8 out = out ++ n.ext :=
    copyPadded_eq n.ext_le (fun b hb => (n.ext_ok b hb).2) h.ext
  have hfirst : r.mem 8 = n.ext.getD 0 0x20 := h.ext 0 (by decide)
  rw [parse83, hbase, hext, hfirst, ShortName.text]
  cases hcase : n.ext with
  | nil =>
      have hspace : ([] : List UInt8).getD 0 0x20 = 0x20 := rfl
      rw [hspace, if_neg (not_not.mpr rfl), if_pos rfl, List.append_nil]
  | cons b s =>
      have hb : b ≠ 0x20 := (n.ext_ok b (hcase ▸ List.mem_cons_self)).2
      rw [List.getD_cons_zero, if_pos hb, if_neg (List.cons_ne_nil b s), List.append_assoc,
        List.singleton_append]

/-- Behind the name there are no more units to copy. -/
theorem LongName.unitAt_of_le (n : LongName) {p : Nat} (hp : n.units.length ≤ p) :
    n.unitAt p = 0 ∨ n.unitAt p = 0xFFFF := by
  rw [LongName.unitAt, dif_neg (by omega)]
  split_ifs
  · exact .inl rfl
  · exact .inr rfl

/-- A unit of the name is copied as a character. -/
theorem LongName.unitAt_of_lt (n : LongName) {p : Nat} (hp : p < n.units.length) :
    n.unitAt p ≠ 0 ∧ n.unitAt p ≠ 0xFFFF ∧ UInt8.ofNat (n.unitAt p &&& 0xFF) = n.units[p] := by
  have hunit : n.unitAt p = n.units[p].toNat := dif_pos hp
  have hne : n.units[p] ≠ 0 := n.units_ok _ (List.getElem_mem hp)
  have hlt := n.units[p].toNat_lt
  have hand : n.units[p].toNat &&& 0xFF = n.units[p].toNat := by
    refine (Nat.and_two_pow_sub_one_eq_mod _ 8).trans ?_
    exact Nat.mod_eq_of_lt hlt
  rw [hunit, hand, UInt8.ofNat_toNat]
  refine ⟨fun h => hne (UInt8.toNat_inj.mp h), by omega, rfl⟩

/-- A piece of a fragment continues the name, as far as the name goes. -/
theorem copyUnits_eq {l : Dirent} (n : LongName) {k off p : Nat}
    (hl : ∀ t < k, l.mem.load (off + 2 * t) 2 = n.unitAt (p + t)) :
    copyUnits l k off (n.units.take p) = n.units.take (p + k) := by
  induction k generalizing off p with
  | zero => rfl
  | succ k ih =>
      have hhead : l.mem.load off 2 = n.unitAt p := hl 0 (Nat.succ_pos k)
      have hle := n.units_le
      rw [copyUnits]
      simp only [hhead]
      rcases Nat.lt_or_ge p n.units.length with hp | hp
      · obtain ⟨hne, hne', hchar⟩ := n.unitAt_of_lt hp
        have hlen : (n.units.take p).length = p := by
          rw [List.length_take]
          omega
        rw [if_pos ⟨by omega, hne, hne'⟩, hchar, ← List.take_succ_eq_append_getElem hp]
        rw [ih fun t ht => ?_]
        · congr 1
          omega
        · have h := hl (t + 1) (Nat.succ_lt_succ ht)
          rw [show off + 2 + 2 * t = off + 2 * (t + 1) by omega, h]
          congr 1
          omega
      · -- the name has ended, with a 0 or at the end of a fragment
        have hstop : ¬ ((n.units.take p).length < 255 ∧ n.unitAt p ≠ 0 ∧ n.unitAt p ≠ 0xFFFF) := by
          rintro ⟨-, h₁, h₂⟩
          rcases n.unitAt_of_le hp with h | h
          · exact h₁ h
          · exact h₂ h
        rw [if_neg hstop, List.take_of_length_le hp, List.take_of_length_le (by omega)]

/-- A fragment continues the name by 13 units. -/
theorem copyFragment_eq {n : LongName} {i : Nat} {l : Dirent} (h : IsFragment n i l) :
    copyFragment l (n.units.take (13 * i)) = n.units.take (13 * (i + 1)) := by
  have h₁ : copyUnits l 5 1 (n.units.take (13 * i)) = n.units.take (13 * i + 5) := by
    refine copyUnits_eq n fun t ht => ?_
    rw [← h.units t (by omega), unitOff, if_pos ht]
  have h₂ : copyUnits l 6 14 (n.units.take (13 * i + 5)) = n.units.take (13 * i + 5 + 6) := by
    refine copyUnits_eq n fun t ht => ?_
    rw [Nat.add_assoc (13 * i), ← h.units (5 + t) (by omega), unitOff, if_neg (by omega),
      if_pos (by omega), Nat.add_sub_cancel_left]
  have h₃ : copyUnits l 2 28 (n.units.take (13 * i + 5 + 6)) =
      n.units.take (13 * i + 5 + 6 + 2) := by
    refine copyUnits_eq n fun t ht => ?_
    rw [show 13 * i + 5 + 6 + t = 13 * i + (11 + t) by omega, ← h.units (11 + t) (by omega), unitOff,
      if_neg (by omega), if_neg (by omega), Nat.add_sub_cancel_left]
  rw [copyFragment, h₁, h₂, h₃]
  congr 1

/-- Fragments from number `i` on continue the name. -/
theorem parseLfnLoop_eq {n : LongName} {ls : List Dirent} {i : Nat}
    (h : ∀ (j : Nat) (hj : j < ls.length), IsFragment n (i + j) ls[j]) :
    parseLfnLoop ls (n.units.take (13 * i)) = n.units.take (13 * (i + ls.length)) := by
  induction ls generalizing i with
  | nil => rfl
  | cons l ls ih =>
      have hle := n.units_le
      rw [parseLfnLoop]
      split_ifs with hroom
      · have hrest : ∀ (j : Nat) (hj : j < ls.length), IsFragment n (i + 1 + j) ls[j] := by
          intro j hj
          have hj' := h (j + 1) (Nat.succ_lt_succ hj)
          rwa [List.getElem_cons_succ, show i + (j + 1) = i + 1 + j by omega] at hj'
        have hfirst : IsFragment n i l := h 0 (Nat.succ_pos _)
        rw [copyFragment_eq hfirst, ih hrest, List.length_cons]
        congr 2
        omega
      · -- 255 units are the whole name
        have hlen : n.units.length ≤ 13 * i := by
          rw [List.length_take] at hroom
          omega
        rw [List.take_of_length_le hlen, List.take_of_length_le (by omega)]

/-- `parse_lfn` reads the name off its fragments. -/
theorem parseLfn_eq {n : LongName} {frags : List Dirent} (hlen : frags.length = n.fragments)
    (h : ∀ (i : Nat) (hi : i < frags.reverse.length), IsFragment n i frags.reverse[i]) :
    parseLfn frags = n.units := by
  have hfrags : ∀ (j : Nat) (hj : j < frags.reverse.length), IsFragment n (0 + j) frags.reverse[j] := by
    intro j hj
    rw [Nat.zero_add]
    exact h j hj
  have hloop := parseLfnLoop_eq hfrags
  rw [Nat.mul_zero, List.take_zero, Nat.zero_add, List.length_reverse, hlen] at hloop
  rw [parseLfn, hloop]
  apply List.take_of_length_le
  rw [LongName.fragments]
  omega

/-! ## Scanning -/

/-- `fs_data` of the node for an entry. -/
def LogicalEntry.fsData (e : LogicalEntry) : FsData :=
  match e.kind with
  | .file => .file ⟨e.cluster, e.size, e.cluster_lt, e.size_lt⟩
  | .dir => .dir e.cluster

/-- `flags` of the node for an entry. -/
def LogicalEntry.flags (e : LogicalEntry) : Nat :=
  match e.kind with
  | .file => vfsFile
  | .dir => vfsDir

/-- The node shows the entry. -/
structure Shows (e : LogicalEntry) (node : DirNode) : Prop where
  /-- Its name. -/
  name : node.name = e.name.text
  /-- `VFS_FILE` or `VFS_DIR`. -/
  flags : node.flags = e.flags
  /-- Its size. -/
  size : node.size = e.size
  /-- Its first cluster, and the size again for a file. -/
  fsData : node.fsData = e.fsData

/-- The two halves of a cluster number. -/
theorem Describes.clusterStart_eq {r : Dirent} {e : LogicalEntry} (h : Describes r e) :
    r.clusterStart = e.cluster := by
  have hlo : e.cluster % 2 ^ 16 < 2 ^ 16 := Nat.mod_lt _ (by decide)
  rw [Dirent.clusterStart, h.clusterHi, h.clusterLo, ← Nat.shiftLeft_add_eq_or_of_lt hlo,
    Nat.shiftLeft_eq]
  exact Nat.div_add_mod' _ _

/-- The name `load_dir` gives the node of an entry. -/
theorem makeNode_name (sc : DirScan) (r : Dirent) : (sc.makeNode r).1.name =
    if sc.lfns ≠ [] then parseLfn (sc.lfns.map Prod.snd) else parse83 r := by
  simp only [DirScan.makeNode]
  split_ifs <;> rfl

/-- Making a node uses up the fragments and leaves the entries alone. -/
theorem makeNode_scan (sc : DirScan) (r : Dirent) :
    (sc.makeNode r).2.lfns = [] ∧ (sc.makeNode r).2.entries = sc.entries := by
  simp only [DirScan.makeNode]
  split_ifs <;> exact ⟨rfl, rfl⟩

/-- The node of an entry shows it, when it has the right name. -/
theorem Describes.shows_makeNode {r : Dirent} {e : LogicalEntry} (h : Describes r e) {sc : DirScan}
    (hname : (if sc.lfns ≠ [] then parseLfn (sc.lfns.map Prod.snd) else parse83 r) = e.name.text) :
    Shows e (sc.makeNode r).1 := by
  have hrest : (sc.makeNode r).1.flags = e.flags ∧ (sc.makeNode r).1.size = e.size ∧
      (sc.makeNode r).1.fsData = e.fsData := by
    have hcluster := h.clusterStart_eq
    have hsize := h.size
    cases hk : e.kind with
    | dir =>
        have hattr : r.field .attr &&& fatAttrDir ≠ 0 := h.kind.mpr hk
        have hzero := e.dir_size hk
        simp only [DirScan.makeNode, if_pos hattr, LogicalEntry.flags, LogicalEntry.fsData, hk, hzero,
          hcluster, and_self]
    | file =>
        have hattr : ¬ (r.field .attr &&& fatAttrDir ≠ 0) := by
          rw [h.kind, hk]
          exact nofun
        simp only [DirScan.makeNode, if_neg hattr, LogicalEntry.flags, LogicalEntry.fsData, hk, hsize,
          hcluster, and_self]
  exact ⟨(makeNode_name sc r).trans hname, hrest.1, hrest.2.1, hrest.2.2⟩

/-- Putting a node behind the others. -/
theorem addNode_scan (sc : DirScan) (node : DirNode) :
    (sc.addNode node).lfns = sc.lfns ∧ (sc.addNode node).entries = sc.entries ++ [node] := by
  simp only [DirScan.addNode]
  split_ifs <;> exact ⟨rfl, rfl⟩

/-- What stands for nothing only makes `load_dir` forget fragments. -/
theorem Skipped.step {r : Dirent} (h : Skipped r) (sc : DirScan) :
    sc.step r = some { sc with lfns := [] } := by
  rw [DirScan.step]
  cases h with
  | deleted h =>
      have hne : r 0 ≠ 0x00 := by
        rw [h]
        decide
      rw [if_neg hne, if_pos h]
  | label hend hattr hlfn =>
      rw [if_neg hend, if_neg hlfn, if_pos hattr]
      split_ifs <;> rfl
  | dot h hlfn =>
      have hne : r 0 ≠ 0x00 := by
        rw [h]
        decide
      rw [if_neg hne, if_neg hlfn, if_pos h]
      split_ifs <;> rfl

/-- A name has at most 20 fragments. -/
theorem LongName.fragments_le (n : LongName) : n.fragments ≤ 20 := by
  have h := n.units_le
  rw [LongName.fragments]
  omega

/-- A name has a fragment. -/
theorem LongName.fragments_pos (n : LongName) : 0 < n.fragments := by
  have h := List.length_pos_iff.mpr n.units_ne
  rw [LongName.fragments]
  omega

/-- A fragment is put behind the others. -/
theorem IsFragment.step {n : LongName} {i : Nat} {r : Dirent} (h : IsFragment n i r)
    (hi : i < n.fragments) (sc : DirScan) (hroom : sc.lfns.length < 20) :
    ∃ sc', sc.step r = some sc' ∧ sc'.lfns.map Prod.snd = sc.lfns.map Prod.snd ++ [r] ∧
      sc'.entries = sc.entries := by
  have horder := h.order
  have hle := n.fragments_le
  -- the number of a fragment is neither an end mark nor a deletion mark
  have hend : r 0 ≠ 0x00 := by
    intro h0
    rw [h0] at horder
    change 0 = _ at horder
    split_ifs at horder
  have hdel : r 0 ≠ 0xE5 := by
    intro h0
    rw [h0] at horder
    change 229 = _ at horder
    split_ifs at horder <;> omega
  refine ⟨{ sc with
    lfns := sc.lfns ++ [(sc.heap.next, r)], heap := (sc.heap.kmalloc .lfn).2 }, ?_, ?_, rfl⟩
  · rw [DirScan.step, if_neg hend, if_neg hdel, if_pos h.attr, if_pos hroom]
    rfl
  · exact List.map_append

/-- A short entry becomes a node. -/
theorem Describes.step {r : Dirent} {e : LogicalEntry} (h : Describes r e) (halias : HasAlias r)
    {sc : DirScan}
    (hname : (if sc.lfns ≠ [] then parseLfn (sc.lfns.map Prod.snd) else parse83 r) = e.name.text) :
    ∃ sc' node, sc.step r = some sc' ∧ sc'.lfns = [] ∧ sc'.entries = sc.entries ++ [node] ∧
      Shows e node := by
  have hlfn : r.field .attr ≠ fatAttrLfn := by
    intro heq
    have hlabel := h.not_label
    rw [heq] at hlabel
    exact absurd hlabel (by decide)
  obtain ⟨hlfns, hentries⟩ := makeNode_scan sc r
  obtain ⟨hlfns', hentries'⟩ := addNode_scan (sc.makeNode r).2 (sc.makeNode r).1
  refine ⟨(sc.makeNode r).2.addNode (sc.makeNode r).1, (sc.makeNode r).1, ?_, ?_, ?_,
    h.shows_makeNode hname⟩
  · rw [DirScan.step, if_neg halias.ne_end, if_neg halias.ne_deleted, if_neg hlfn,
      if_neg (not_not.mpr h.not_label), if_neg halias.ne_dot]
  · rw [hlfns', hlfns]
  · rw [hentries', hentries]

/-- One more entry of the inner loop. -/
theorem scan_cons {sc sc' : DirScan} {r : Dirent} (h : sc.step r = some sc') (rs : List Dirent) :
    DirScan.scan (r :: rs) sc = DirScan.scan rs sc' := by
  rw [DirScan.scan, h]

/-- Fragments are collected. -/
theorem scan_fragments {n : LongName} {frags : List Dirent} (sc : DirScan) (rest : List Dirent)
    (hfrags : ∀ r ∈ frags, ∃ i < n.fragments, IsFragment n i r)
    (hroom : sc.lfns.length + frags.length ≤ 20) :
    ∃ sc', DirScan.scan (frags ++ rest) sc = DirScan.scan rest sc' ∧
      sc'.lfns.map Prod.snd = sc.lfns.map Prod.snd ++ frags ∧ sc'.entries = sc.entries := by
  induction frags generalizing sc with
  | nil => exact ⟨sc, rfl, (List.append_nil _).symm, rfl⟩
  | cons r frags ih =>
      obtain ⟨i, hi, hr⟩ := hfrags r List.mem_cons_self
      rw [List.length_cons] at hroom
      obtain ⟨sc₁, hstep, hlfns, hentries⟩ := hr.step hi sc (by omega)
      have hlen := congrArg List.length hlfns
      rw [List.length_append, List.length_map, List.length_map, List.length_singleton] at hlen
      obtain ⟨sc', hscan, hlfns', hentries'⟩ := ih sc₁
        (fun q hq => hfrags q (List.mem_cons_of_mem r hq)) (by omega)
      refine ⟨sc', ?_, ?_, hentries'.trans hentries⟩
      · rw [List.cons_append, scan_cons hstep, hscan]
      · rw [hlfns', hlfns, List.append_assoc, List.singleton_append]

/-- Short names are aliases. -/
theorem HasShortName.hasAlias {n : ShortName} {r : Dirent} (h : HasShortName n r) : HasAlias r := by
  obtain ⟨b, s, hbase⟩ := List.exists_cons_of_ne_nil n.base_ne
  have hr : r 0 = b := by
    have h0 := h.base 0 (by decide)
    rw [hbase, List.getD_cons_zero] at h0
    exact h0
  have hfirst := n.first_ok b (by rw [hbase]; rfl)
  have hok := n.base_ok b (hbase ▸ List.mem_cons_self)
  exact ⟨hr ▸ hok.1, hr ▸ hfirst.2.1, hr ▸ hfirst.2.2⟩

/-- The inner loop of `load_dir` finds the logical entries, in order. -/
theorem scan_encodes {rs : List Dirent} {es : List LogicalEntry} (h : Encodes rs es) (sc : DirScan)
    (hlfns : sc.lfns = []) (rest : List Dirent) :
    ∃ sc' nodes, DirScan.scan (rs ++ rest) sc = DirScan.scan rest sc' ∧ sc'.lfns = [] ∧
      sc'.entries = sc.entries ++ nodes ∧ List.Forall₂ Shows es nodes := by
  induction h generalizing sc with
  | nil => exact ⟨sc, [], rfl, hlfns, (List.append_nil _).symm, .nil⟩
  | skip hskip _ ih =>
      obtain ⟨sc', nodes, hscan, hlfns', hentries, hshows⟩ := ih { sc with lfns := [] } rfl
      refine ⟨sc', nodes, ?_, hlfns', hentries, hshows⟩
      rw [List.cons_append, scan_cons (hskip.step sc), hscan]
  | @short r rs e es n hn hshort hdesc _ ih =>
      have hname : (if sc.lfns ≠ [] then parseLfn (sc.lfns.map Prod.snd) else parse83 r) =
          e.name.text := by
        rw [if_neg (not_not.mpr hlfns), parse83_eq hshort, hn]
        rfl
      obtain ⟨sc₁, node, hstep, hlfns₁, hentries₁, hshow⟩ := hdesc.step hshort.hasAlias hname
      obtain ⟨sc', nodes, hscan, hlfns', hentries, hshows⟩ := ih sc₁ hlfns₁
      refine ⟨sc', node :: nodes, ?_, hlfns', ?_, .cons hshow hshows⟩
      · rw [List.cons_append, scan_cons hstep, hscan]
      · rw [hentries, hentries₁, List.append_assoc, List.singleton_append]
  | @long frags r rs e es n hn hlen hfrags halias hdesc _ ih =>
      have hle := n.fragments_le
      have hmem : ∀ q ∈ frags, ∃ i < n.fragments, IsFragment n i q := by
        intro q hq
        obtain ⟨i, hi, rfl⟩ := List.getElem_of_mem (List.mem_reverse.mpr hq)
        refine ⟨i, ?_, hfrags i hi⟩
        rwa [List.length_reverse, hlen] at hi
      obtain ⟨sc₀, hscan₀, hlfns₀, hentries₀⟩ := scan_fragments sc (r :: rs ++ rest) hmem
        (by rw [hlfns, List.length_nil]; omega)
      rw [hlfns, List.map_nil, List.nil_append] at hlfns₀
      have hne : sc₀.lfns ≠ [] := by
        intro hnil
        rw [hnil, List.map_nil] at hlfns₀
        have hpos := n.fragments_pos
        rw [← hlen, ← hlfns₀] at hpos
        exact absurd hpos (by decide)
      have hname : (if sc₀.lfns ≠ [] then parseLfn (sc₀.lfns.map Prod.snd) else parse83 r) =
          e.name.text := by
        rw [if_pos hne, hlfns₀, parseLfn_eq hlen hfrags, hn]
        rfl
      obtain ⟨sc₁, node, hstep, hlfns₁, hentries₁, hshow⟩ := hdesc.step halias hname
      obtain ⟨sc', nodes, hscan, hlfns', hentries, hshows⟩ := ih sc₁ hlfns₁
      refine ⟨sc', node :: nodes, ?_, hlfns', ?_, .cons hshow hshows⟩
      · rw [List.append_assoc, hscan₀, List.cons_append, scan_cons hstep, hscan]
      · rw [hentries, hentries₁, hentries₀, List.append_assoc, List.singleton_append]

end Vfat

end Aerogel
