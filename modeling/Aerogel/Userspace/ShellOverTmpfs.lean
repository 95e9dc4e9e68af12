import Aerogel.Filesystem.TmpfsPaths
import Aerogel.Userspace.ShellReplies

/-! # The shell on tmpfs

The shell calls `vfs.c`, behind which is tmpfs with its nodes on the kernel heap. Here its rounds run between calls
of tmpfs by the rest of the kernel, and what they print is read off the tree that the calls have made:
`transcript_of_run`. -/

namespace Aerogel

namespace Shell

open Printf (ascii)
open LineEditor (Reader readline isEnter)

/-! ## The calls of `vfs.c` -/

/-- `vfs.c` with tmpfs mounted: its root at `root`, the buffer of `resolve` at `scratch`. -/
def tmpfsVfs (T : Target) (C : TmpfsCode) (root scratch : Nat) : VfsCalls where
  openPath fuel m path := openPath T C m root path scratch fuel
  read m n off sz := (vfsRead T C m n off sz).getD (0, [])
  readdir m n idx := (vfsReaddir T C m n idx).getD 0
  flags m n := nodeGet T m n .flags
  name n := n + (vfsNode T).off .name

/-! ## What the tree shows -/

/-- The bytes of a file, of which those are known that were stored. -/
def BytesOf (f : ByteFile) (bytes : List UInt8) : Prop :=
  bytes.length = f.size ∧ ∀ i v, f.stored i = some v → bytes[i]? = some v

/-- The node is a directory. -/
def isDirNode : Option (List UInt8 × Content ByteFile) → Bool
  | some (_, .dir _) => true
  | _ => false

/-- A node as its directory's listing shows it. -/
def entryOf (t : FileTree) (i : Nat) : List UInt8 × Bool := ((t.nameOf i).getD [], isDirNode t[i]?)

/-- A node shows this. -/
def Seen.Of (t : FileTree) (i : Nat) : Seen → Prop
  | .file bytes => ∃ x f, t[i]? = some (x, .leaf f) ∧ BytesOf f bytes
  | .dir entries => ∃ x es, t[i]? = some (x, .dir es) ∧ entries = es.map (entryOf t)

/-- Where a path leads: only those lead somewhere that begin with a slash. -/
def nodeAt (t : FileTree) (root : Nat) (path : List UInt8) : Option Nat :=
  if path.head? = some slash then t.walk root (components path) else none

/-- Paths show what the tree has there. -/
def SeesTree (t : FileTree) (root : Nat) (path : List UInt8 → Option Seen) : Prop :=
  ∀ s, match path s with
    | none => nodeAt t root s = none
    | some seen => ∃ i, nodeAt t root s = some i ∧ seen.Of t i

section Instance

variable {K : Machine} {A : Arena K.target} {C : TmpfsCode} {buf lo hi root scratch k i : Nat} {m : Mem}
  {s s' : TmpfsRun} {t : FileTree} {live : Finset Nat} {objs : List TmpObj}

/-- Strings on the heap are outside the locals. -/
theorem readable_of_inside {a : Nat} {str : List UInt8} (hlo : lo < hi) (hout : ∀ x, lo ≤ x → x < hi → A.Outside x)
    (hstr : CStr m a str) (hpos : 0 < a) (hlt : a < 2 ^ K.target.wordBits)
    (hin : ∀ x, a ≤ x → x ≤ a + str.length → ¬ A.Outside x) : Readable K.target m lo hi a str := by
  refine ⟨⟨hstr, ?_⟩, hpos, hlt⟩
  -- a common byte would be on the heap and outside it
  by_contra hover
  rw [not_or, not_lt, not_le] at hover
  exact hin (max a lo) (Nat.le_max_left _ _) (by omega) (hout _ (Nat.le_max_right _ _) (by omega))

/-- An entry of a directory. -/
theorem entry_shows (hvfs : K.vfs = tmpfsVfs K.target C root scratch) (hlo : lo < hi)
    (hout : ∀ x, lo ≤ x → x < hi → A.Outside x) (hinv : StoreInv K.target A C s t live objs k)
    (hlt : i < t.length) : EntryShows K lo hi s.heap.mem (s.addr i) (entryOf t i) := by
  obtain ⟨bs, hheap⟩ := hinv.base.heap
  obtain ⟨o, ⟨x, c⟩, ho, he, haddr, howned, hhead⟩ := hinv.exists_node hlt
  obtain ⟨hoff, -, hsize⟩ := vfsNode_name K.target
  have hroom := hhead.named.room
  have hstop : o.node + payload K.target s.heap.mem o.node < 2 ^ K.target.wordBits :=
    hheap.payload_stop_lt howned.node_mem
  have hne := hinv.addr_ne_zero hlt
  have hname : entryOf t i = (x, isDirNode (some (x, c))) := by rw [entryOf, NameTree.nameOf, he]; rfl
  -- the field for the name has 256 bytes
  have hlen : x.length ≤ 255 := by
    have hshort := length_nodeName_le K.target s.heap.mem o.node
    rwa [hhead.name] at hshort
  have hstr := hhead.named.cStr
  rw [hhead.name] at hstr
  rw [hname]
  refine ⟨hne, ?_, ?_, hlen⟩
  · have hflags := hinv.fixed_eq he (g := .flags) (by decide)
    rw [hvfs]
    change nodeGet K.target s.heap.mem (s.addr i) .flags &&& vfsDir ≠ 0 ↔ _
    rw [hflags]
    cases c with
    | dir es => exact iff_of_true (show vfsDir &&& vfsDir ≠ 0 by decide) rfl
    | leaf f => exact iff_of_false (show ¬ vfsFile &&& vfsDir ≠ 0 by decide) Bool.false_ne_true
  · rw [hvfs]
    change Readable K.target _ lo hi (s.addr i + (vfsNode K.target).off .name) x
    rw [haddr] at hne ⊢
    exact readable_of_inside hlo hout hstr (by omega) (by omega) fun z h₁ h₂ =>
      hheap.payload_inside howned.node_mem (show o.node ≤ z by omega)
        (show z < o.node + payload K.target s.heap.mem o.node by omega)

/-- The node of a directory. -/
theorem dir_shows (hvfs : K.vfs = tmpfsVfs K.target C root scratch) (hC : C.Linked K.target) (hlo : lo < hi)
    (hout : ∀ x, lo ≤ x → x < hi → A.Outside x) (hinv : StoreInv K.target A C s t live objs k)
    {x : List UInt8} {es : List Nat} (hdir : t[i]? = some (x, .dir es)) :
    DirShows K lo hi s.heap.mem (s.addr i) (es.map s.addr) (es.map (entryOf t)) := by
  have hlt := (List.getElem?_eq_some_iff.mp hdir).1
  obtain ⟨o, -, ho, -, -⟩ := hinv.exists_node hlt
  refine ⟨?_, fun idx => ?_, ?_, ?_⟩
  · have hflags : nodeGet K.target s.heap.mem (s.addr i) .flags = vfsDir := hinv.fixed_eq hdir (by decide)
    rw [hvfs]
    change nodeGet K.target s.heap.mem (s.addr i) .flags &&& vfsFile = 0
    rw [hflags]
    rfl
  · have hent : t.entries i = es := by rw [NameTree.entries, hdir]; rfl
    rw [hvfs]
    change (vfsReaddir K.target C s.heap.mem (s.addr i) idx).getD 0 = _
    rw [(hinv.showsTree hC).lists i idx hlt, hent, List.getD_eq_getElem?_getD, List.getElem?_map]
    rfl
  · rw [List.forall₂_map_left_iff, List.forall₂_map_right_iff, List.forall₂_same]
    exact fun j hj => entry_shows hvfs hlo hout hinv (hinv.entries_lt hdir j hj)
  · -- the array of the entries has to fit on the heap
    have hle := (hinv.dir_length_le ho hdir).2
    have hk := hinv.base.entries
    have hobjs := hinv.base.length_lt
    rw [List.length_map]
    omega

/-- The node of a file, whose bytes are those in memory. -/
theorem file_shows (hvfs : K.vfs = tmpfsVfs K.target C root scratch) (hC : C.Linked K.target)
    (hinv : StoreInv K.target A C s t live objs k) {x : List UInt8} {f : ByteFile}
    (hleaf : t[i]? = some (x, .leaf f)) : ∃ bytes, BytesOf f bytes ∧
      ∀ m, A.SameInside s.heap.mem m → FileShows K m (s.addr i) bytes := by
  obtain ⟨bs, hheap⟩ := hinv.base.heap
  have hlt := (List.getElem?_eq_some_iff.mp hleaf).1
  obtain ⟨o, e, ho, -, haddr, howned, -⟩ := hinv.exists_node hlt
  -- the object that stands for the file keeps `f` in its buffer
  have hspec : (FileTree.specs t)[i]? = some (.file f) := by
    rw [FileTree.specs, List.getElem?_map, hleaf]
    rfl
  obtain ⟨-, hobj⟩ := hinv.base.holds i o _ ho hspec
  have hsize := hobj.file.size_lt
  have hall : f.readLen 0 f.size = f.size := by
    rw [ByteFile.readLen]
    split_ifs <;> omega
  have hlength := Mem.length_bytes s.heap.mem o.buf f.size
  refine ⟨s.heap.mem.bytes o.buf f.size, ⟨hlength, fun j v hv => ?_⟩, fun m hm => ?_⟩
  · have hreads : f.Reads 0 f.size _ _ := hobj.file.held.reads
    -- bytes were stored below the size only
    have hstored := hreads.stored j v
    rw [hall, Nat.zero_add] at hstored
    refine hstored ?_ hv
    by_contra hge
    rw [f.inside j (Nat.le_of_not_lt hge)] at hv
    cases hv
  -- another memory that is the same on the heap
  have hinv' := hinv.withMem hm
  obtain ⟨bs', hheap'⟩ := hinv'.base.heap
  obtain ⟨-, hobj'⟩ := hinv'.base.holds i o _ ho hspec
  have hread : ∀ off sz, sz < 2 ^ 32 → vfsRead K.target C m (s.addr i) off sz =
      some (f.readLen off sz, m.bytes (o.buf + off) (f.readLen off sz)) := by
    intro off sz hsz
    have hptr : nodeGet K.target m (s.addr i) .read = C.read := hinv'.fixed_eq hleaf (g := .read) (by decide)
    have hne := hC.ne_zero C.read (by simp)
    rw [vfsRead, hptr, if_neg (by simp [hinv.addr_ne_zero hlt, hne]), if_pos rfl, haddr]
    exact congrArg some (tmpfsRead_eq hheap' howned hobj' off hsz)
  have hheld : (ByteFile.ofBytes (s.heap.mem.bytes o.buf f.size)).HeldAt m o.buf := by
    intro j v hv
    obtain ⟨hj, rfl⟩ := List.getElem?_eq_some_iff.mp hv
    rw [Mem.getElem_bytes]
    rw [hlength] at hj
    have h0 : o.buf ≠ 0 := fun h0 => by
      have hnull := hobj.file.null h0
      omega
    have hfits := hobj.file.fits h0
    exact (hheap.keeps_outside (howned.buf_mem.resolve_left h0) hm).bytes _ (Nat.le_add_right _ _) (by omega)
  refine ⟨?_, ?_, by rwa [hlength], fun off sz hsz => ?_⟩
  · have hflags : nodeGet K.target m (s.addr i) .flags = vfsFile := hinv'.fixed_eq hleaf (by decide)
    rw [hvfs]
    change nodeGet K.target m (s.addr i) .flags &&& vfsFile ≠ 0
    rw [hflags]
    decide
  · -- `vfs_readdir` refuses what is not a directory
    have hent : t.entries i = [] := by rw [NameTree.entries, hleaf]; rfl
    have hlist := (hinv'.showsTree hC).lists i 0 hlt
    rw [hent] at hlist
    rw [hvfs]
    exact congrArg (Option.getD · 0) hlist
  · have hall : (ByteFile.ofBytes (s.heap.mem.bytes o.buf f.size)).Reads off sz _ _ := hheld.reads
    have hreads := hall.eq_of_bytes
    have hlen : (ByteFile.ofBytes (s.heap.mem.bytes o.buf f.size)).readLen off sz = f.readLen off sz := by
      have hofBytes : (ByteFile.ofBytes (s.heap.mem.bytes o.buf f.size)).size = f.size := hlength
      rw [ByteFile.readLen, ByteFile.readLen, hofBytes]
    rw [hlen] at hreads
    rw [hvfs, ← hreads]
    change (vfsRead K.target C m (s.addr i) off sz).getD (0, []) = _
    rw [hread off sz hsz]
    rfl

/-- Paths lead to nodes that exist. -/
theorem nodeAt_lt (hinv : StoreInv K.target A C s t live objs k) (hroot : root < t.length) {path : List UInt8}
    (h : nodeAt t root path = some i) : i < t.length := by
  rw [nodeAt] at h
  split_ifs at h
  exact hinv.grown.walk_lt hroot h

/-- `vfs_open` finds the node at a path. -/
theorem opens_path (hvfs : K.vfs = tmpfsVfs K.target C (s.addr root) scratch) (hC : C.Linked K.target)
    (hscratch : lo ≤ scratch ∧ scratch + 256 ≤ hi) (hout : ∀ x, lo ≤ x → x < hi → A.Outside x)
    (hinv : StoreInv K.target A C s t live objs k) (hroot : root < t.length) {a : Nat} {path : List UInt8}
    (ha : Readable K.target s.heap.mem lo hi a path) (hlen : path.length ≤ 255) :
    Printf.Terminates (fun fuel => K.vfs.openPath fuel s.heap.mem a) ((nodeAt t root path).map s.addr) := by
  obtain ⟨⟨hstr, hapart⟩, hpos, -⟩ := ha
  rw [hvfs]
  change Printf.Terminates (fun fuel => openPath K.target C s.heap.mem (s.addr root) a scratch fuel) _
  by_cases hslash : path.head? = some slash
  · obtain ⟨q, rfl⟩ : ∃ q, path = slash :: q := by
      cases path with
      | nil => exact nomatch hslash
      | cons c q => exact ⟨q, by rw [Option.some.inj hslash]⟩
    rw [List.length_cons] at hlen hapart
    have hargs : OpenArgs A s.heap.mem a scratch q :=
      ⟨by omega, hstr, by omega, by omega, fun z h₁ h₂ => hout z (by omega) (by omega)⟩
    rw [nodeAt, if_pos hslash]
    exact ⟨q.length + 2, fun fuel hfuel => hinv.openPath_eq hC hroot hargs hfuel⟩
  · -- `resolve` wants a slash in front
    have hfirst : s.heap.mem a ≠ slash := by
      cases path with
      | nil =>
          rw [show s.heap.mem a = 0 from hstr]
          decide
      | cons c q =>
          rw [hstr.1]
          exact fun hc => hslash (congrArg some hc)
    rw [nodeAt, if_neg hslash]
    refine ⟨0, fun fuel _ => ?_⟩
    change openPath K.target C s.heap.mem (s.addr root) a scratch fuel = _
    rw [openPath, vfsOpen, resolve, if_pos (.inr hfirst)]
    rfl

/-- Paths show what the tree has there, whatever the rest of the kernel writes outside the heap. -/
theorem exists_shows (hvfs : K.vfs = tmpfsVfs K.target C (s.addr root) scratch) (hC : C.Linked K.target)
    (hscratch : lo ≤ scratch ∧ scratch + 256 ≤ hi) (hout : ∀ x, lo ≤ x → x < hi → A.Outside x)
    (hinv : StoreInv K.target A C s t live objs k) (hroot : root < t.length) :
    ∃ path, SeesTree t root path ∧ ∀ m, A.SameInside s.heap.mem m → Shows K lo hi m path := by
  -- the locals are not on the heap
  have hsame : ∀ {m m' : Mem}, SameBut lo hi m m' → A.SameInside m m' := fun hm x hx => by
    refine hm x ?_
    by_contra hin
    exact hx (hout x (by omega) (by omega))
  have hnode : ∀ i, i < t.length → ∃ seen : Seen, seen.Of t i ∧
      ∀ m, A.SameInside s.heap.mem m → NodeShows K lo hi m (s.addr i) seen := by
    intro i hlt
    obtain ⟨⟨x, c⟩, hc⟩ : ∃ e, t[i]? = some e := ⟨_, List.getElem?_eq_getElem hlt⟩
    cases c with
    | dir es =>
        refine ⟨.dir (es.map (entryOf t)), ⟨x, es, hc, rfl⟩, fun m hm => ⟨es.map s.addr, fun m' hm' => ?_⟩⟩
        have hboth : A.SameInside s.heap.mem m' := fun z hz => (hsame hm' z hz).trans (hm z hz)
        exact dir_shows hvfs hC (by omega) hout (hinv.withMem hboth) hc
    | leaf f =>
        obtain ⟨bytes, hbytes, hshows⟩ := file_shows hvfs hC hinv hc
        exact ⟨.file bytes, ⟨x, f, hc, hbytes⟩, fun m hm m' hm' =>
          hshows m' fun z hz => (hsame hm' z hz).trans (hm z hz)⟩
  -- what a path shows is what the node shows that it leads to
  choose seen hof hshows using hnode
  obtain ⟨path, hpath⟩ : ∃ path : List UInt8 → Option Seen, ∀ str, path str =
      (nodeAt t root str).bind fun i => if hlt : i < t.length then some (seen i hlt) else none := ⟨_, fun _ => rfl⟩
  have hnone : ∀ str, nodeAt t root str = none → path str = none := fun str hat => by rw [hpath, hat]; rfl
  have hsome : ∀ str i (hat : nodeAt t root str = some i), path str = some (seen i (nodeAt_lt hinv hroot hat)) :=
    fun str i hat => by rw [hpath, hat, Option.bind_some, dif_pos (nodeAt_lt hinv hroot hat)]
  refine ⟨path, fun str => ?_, fun m hm a str ha hlen => ?_⟩
  · cases hat : nodeAt t root str with
    | none => rw [hnone str hat]
    | some i =>
        rw [hsome str i hat]
        exact ⟨i, rfl, hof i _⟩
  · have hopen := opens_path (s := s.withMem m) hvfs hC hscratch hout (hinv.withMem hm) hroot ha hlen
    cases hat : nodeAt t root str with
    | none =>
        rw [hat] at hopen
        rw [hnone str hat]
        exact hopen
    | some i =>
        rw [hat] at hopen
        rw [hsome str i hat]
        exact ⟨s.addr i, hopen, hshows i _ m hm⟩

end Instance

/-! ## Sessions -/

/-- What happens: the rest of the kernel calls tmpfs, or a line is typed. -/
inductive Turn
  | call (c : StoreCall)
  | line (polls : List (Option Keyboard.KeyEvent)) (env : Env)

/-- tmpfs, and everything the shell has done. -/
structure Session where
  /-- tmpfs. -/
  fs : TmpfsRun
  /-- The events so far. -/
  out : List Event

section Session

variable (K : Machine) (A : Arena K.target) (C : TmpfsCode) (root r buf : Nat)

/-- A turn, before which the rest of the kernel may have written anything outside the heap, as long as the
literals are in their places when the shell runs. The node number `root` is mounted, and is at `r`. -/
inductive SessionStep : Session → Turn → Session → Prop
  | call {S : Session} {c : StoreCall} {fs : TmpfsRun} : .reset ∉ S.out → StoreStep K.target A C S.fs c fs →
      SessionStep S (.call c) ⟨fs, S.out⟩
  | line {S : Session} {polls : List (Option Keyboard.KeyEvent)} {env : Env} {m m' : Mem} {out : List Event} :
      .reset ∉ S.out → A.SameInside S.fs.heap.mem m → Loaded K m → root < S.fs.nodes.length →
      S.fs.addr root = r → (∃ e ∈ polls.reduceOption, isEnter e) →
      Printf.Terminates (fun fuel => shellRound K fuel env buf polls ⟨m, S.out⟩) ⟨m', out⟩ →
      SessionStep S (.line polls env) ⟨S.fs.withMem m', out⟩

variable {K A C root r buf}

/-- What the shell does in the course of these turns, on a tree. -/
inductive Transcript (root : Nat) : FileTree → List Turn → List Event → Prop
  | nil (t : FileTree) : Transcript root t [] []
  | call {t : FileTree} {c : StoreCall} {turns : List Turn} {out : List Event} :
      Transcript root (c.op.onTree t c.name) turns out → Transcript root t (.call c :: turns) out
  | line {t : FileTree} {polls : List (Option Keyboard.KeyEvent)} {env : Env} {turns : List Turn}
      {out : List Event} {path : List UInt8 → Option Seen} {reader : Reader} : SeesTree t root path →
      readline polls = some reader → Transcript root t turns out →
      Transcript root t (.line polls env :: turns) ((View.mk path env).roundEvents polls reader ++ out)

variable (K A C r buf) in
/-- The shell is linked to tmpfs, with its locals, its line and the literals outside the heap. -/
structure Installed (lo hi : Nat) : Prop where
  vfs : ∃ scratch, K.vfs = tmpfsVfs K.target C r scratch ∧ lo ≤ scratch ∧ scratch + 256 ≤ hi
  layout : Layout K buf lo hi
  locals_outside : ∀ x, lo ≤ x → x < hi → A.Outside x
  buf_outside : ∀ x, buf ≤ x → x < buf + 256 → A.Outside x
  code : C.Linked K.target
  safe : A.SplitSafe

variable {lo hi k : Nat} {S S' : Session} {t : FileTree} {live : Finset Nat} {objs : List TmpObj}

/-- A round shows the tree, and leaves the heap as it was. -/
theorem Installed.round (hK : Installed K A C r buf lo hi) (hinv : StoreInv K.target A C S.fs t live objs k)
    (hroot : root < S.fs.nodes.length) (haddr : S.fs.addr root = r) {m : Mem} (hm : A.SameInside S.fs.heap.mem m)
    (hl : Loaded K m) {polls : List (Option Keyboard.KeyEvent)} (henter : ∃ e ∈ polls.reduceOption, isEnter e)
    (env : Env) : ∃ path reader m', SeesTree t root path ∧ readline polls = some reader ∧
      Printf.Terminates (fun fuel => shellRound K fuel env buf polls ⟨m, S.out⟩)
        ⟨m', S.out ++ (View.mk path env).roundEvents polls reader⟩ ∧ A.SameInside S.fs.heap.mem m' := by
  obtain ⟨scratch, hvfs, hscratch⟩ := hK.vfs
  have hlen : S.fs.nodes.length = t.length := by rw [hinv.base.nodes, List.length_map, hinv.length_eq]
  rw [hlen] at hroot
  rw [← haddr] at hvfs
  obtain ⟨path, hsees, hshows⟩ := exists_shows hvfs hK.code hscratch hK.locals_outside hinv hroot
  -- neither the locals nor the line are on the heap
  have hsame : ∀ m', Untouched buf lo hi m m' → A.SameInside S.fs.heap.mem m' := fun m' hm' x hx => by
    rw [hm' x ?_ ?_, hm x hx]
    · by_contra hin
      exact hx (hK.locals_outside x (by omega) (by omega))
    · by_contra hin
      exact hx (hK.buf_outside x (by omega) (by omega))
  obtain ⟨reader, m', hread, hrun, hm'⟩ := shellRound_does (V := ⟨path, env⟩) (v := ⟨m, S.out⟩) hK.layout hl henter
    fun m' hm' => hshows m' (hsame m' hm')
  exact ⟨path, reader, m', hsees, hread, hrun, hsame m' hm'⟩

/-- A run of turns has a transcript, and ends with the tree of its calls. -/
theorem Installed.run (hK : Installed K A C r buf lo hi) {turns : List Turn}
    (hinv : StoreInv K.target A C S.fs t live objs k) (hrun : Run (SessionStep K A C root r buf) S turns S') :
    ∃ out, Transcript root t turns out ∧ S'.out = S.out ++ out ∧
      ∃ t' live' objs' k', StoreInv K.target A C S'.fs t' live' objs' k' := by
  induction hrun generalizing t live objs k with
  | nil S => exact ⟨[], .nil t, (List.append_nil _).symm, t, live, objs, k, hinv⟩
  | @cons S S₁ S₂ turn turns hstep _ ih =>
      cases hstep with
      | call _ hstep =>
          obtain ⟨live₁, objs₁, k₁, hinv₁⟩ := hinv.step hK.code hK.safe hstep
          obtain ⟨out, htranscript, hout, hrest⟩ := ih hinv₁
          exact ⟨out, .call htranscript, hout, hrest⟩
      | line hup hm hl hroot haddr henter hrun =>
          obtain ⟨path, reader, m', hsees, hread, hrun', hm'⟩ := hK.round hinv hroot haddr hm hl henter _
          -- a round has one result
          obtain ⟨rfl, rfl⟩ := State.mk.inj (hrun.unique hrun')
          obtain ⟨out, htranscript, hout, hrest⟩ := ih (hinv.withMem hm')
          exact ⟨_, .line hsees hread htranscript, by rw [hout, List.append_assoc], hrest⟩

end Session

/-- What the shell prints is what the tree shows: in every session of typed lines and other calls of tmpfs, from
any reachable heap, the prompts, the listings of `ls`, the pieces of `cat` and all other replies are those of the
tree that the calls so far have made, and the shell answers every further line that is ended by Enter. -/
theorem transcript_of_run (K : Machine) (A : Arena K.target) (C : TmpfsCode) (root r buf lo hi : Nat)
    (hK : Installed K A C r buf lo hi) (m : Mem) (s₀ : HeapRun)
    (hs₀ : Reachable (HeapStep K.target) (heapBoot K.target A m) s₀) (turns : List Turn) (S : Session)
    (hrun : Run (SessionStep K A C root r buf) ⟨⟨s₀.heap, []⟩, []⟩ turns S) :
    Transcript root [] turns S.out ∧
      ∀ polls env m, .reset ∉ S.out → A.SameInside S.fs.heap.mem m → Loaded K m → root < S.fs.nodes.length →
        S.fs.addr root = r → (∃ e ∈ polls.reduceOption, isEnter e) →
        ∃ S', SessionStep K A C root r buf S (.line polls env) S' := by
  obtain ⟨bs, hbs⟩ := heapInv_of_reachable hK.safe hs₀
  obtain ⟨out, htranscript, hout, t, live, objs, k, hinv⟩ := hK.run (S := ⟨⟨s₀.heap, []⟩, []⟩) (.start hbs) hrun
  rw [List.nil_append] at hout
  refine ⟨hout ▸ htranscript, fun polls env m hup hm hl hroot haddr henter => ?_⟩
  obtain ⟨path, reader, m', -, -, hrun', -⟩ := hK.round hinv hroot haddr hm hl henter env
  exact ⟨_, .line hup hm hl hroot haddr henter hrun'⟩

/-! ## A session -/

/-- Memory with the literals 128 bytes apart from 0x10000000 on. -/
def someLiterals : Mem := fun x =>
  if 0x10000000 ≤ x then
    (ascii (literals.getD ((x - 0x10000000) / 128) "")).getD ((x - 0x10000000) % 128) 0
  else 0

/-- A shell whose root is at `r`. -/
def someMachine (r : Nat) : Machine where
  target := .x86
  vfs := tmpfsVfs .x86 someCode r 0x20000000
  lit s := 0x10000000 + 128 * literals.idxOf s
  frame _ := 0x20001000
  chunk := 0x20002000
  junk _ := 0

/-- Literals are short. -/
theorem literals_short : ∀ s ∈ literals, 0 ∉ ascii s ∧ (ascii s).length < 128 := by decide

theorem outside_of_ge {x : Nat} (hx : 0x10000000 ≤ x) : (kernelArena .x86).Outside x :=
  .inr ((show (kernelArena .x86).start + (kernelArena .x86).size ≤ 0x10000000 by decide).trans hx)

theorem loaded_someLiterals (r : Nat) (m : Mem) (hm : ∀ x, 0x10000000 ≤ x → m x = someLiterals x) :
    Loaded (someMachine r) m := by
  intro s hs
  obtain ⟨hnul, hlen⟩ := literals_short s hs
  have hchar : ∀ i < 128, m (0x10000000 + 128 * literals.idxOf s + i) = (ascii s).getD i 0 := by
    intro i hi
    -- the literal that an address belongs to, and the character
    have hdiv : (0x10000000 + 128 * literals.idxOf s + i - 0x10000000) / 128 = literals.idxOf s := by omega
    have hmod : (0x10000000 + 128 * literals.idxOf s + i - 0x10000000) % 128 = i := by omega
    have hget : literals.getD (literals.idxOf s) "" = s := by
      rw [List.getD_eq_getElem _ _ (List.idxOf_lt_length_of_mem hs), List.getElem_idxOf]
    rw [hm _ (by omega), someLiterals, if_pos (by omega), hdiv, hmod, hget]
  refine Printf.cStr_of_getD hnul (fun i hi => hchar i (by omega)) ?_
  have hend := hchar _ hlen
  rwa [List.getD_eq_default _ _ le_rfl] at hend

theorem layout_someMachine (r : Nat) : Layout (someMachine r) 0x18000000 0x20000000 0x20003000 := by
  have hlit : ∀ s ∈ literals, literals.idxOf s < 40 ∧ (ascii s).length < 128 := fun s hs =>
    ⟨(List.idxOf_lt_length_of_mem hs).trans_le (by decide), (literals_short s hs).2⟩
  constructor
  case frame =>
    intro s _
    change 0x20000000 ≤ 0x20001000 ∧ 0x20001000 + 1024 ≤ 0x20003000
    decide
  case chunk =>
    change 0x20000000 ≤ 0x20002000 ∧ 0x20002000 + 64 ≤ 0x20003000
    decide
  case chunk_apart =>
    change 0x20002000 + 64 ≤ 0x20001000 ∨ 0x20001000 + 1024 ≤ 0x20002000
    decide
  case hi_le =>
    change 0x20003000 ≤ 2 ^ 32
    decide
  case lit_lt =>
    intro s hs
    have hidx := hlit s hs
    change 0 < 0x10000000 + 128 * literals.idxOf s ∧ 0x10000000 + 128 * literals.idxOf s < 2 ^ 32
    omega
  case lit_apart =>
    intro s hs
    have hidx := hlit s hs
    change 0x10000000 + 128 * literals.idxOf s + _ < _ ∨ _ ≤ 0x10000000 + 128 * literals.idxOf s
    omega
  case lit_buf =>
    intro s hs
    have hidx := hlit s hs
    change 0x10000000 + 128 * literals.idxOf s + _ < _ ∨ _ ≤ 0x10000000 + 128 * literals.idxOf s
    omega
  case buf_lt =>
    change 0 < 0x18000000 ∧ 0x18000000 + 256 ≤ 2 ^ 32
    decide
  case buf_apart => decide

theorem installed_someMachine (r : Nat) : Installed (someMachine r) (kernelArena .x86) someCode r 0x18000000
    0x20000000 0x20003000 :=
  ⟨⟨0x20000000, rfl, by decide, by decide⟩, layout_someMachine r, fun x hx _ => outside_of_ge (by omega),
    fun x hx _ => outside_of_ge (by omega), linked_someCode, kernelArena_splitSafe .x86⟩

/-- The keys of `"cat /a"` and Enter. -/
def someKeys : List (Option Keyboard.KeyEvent) := (ascii "cat /a\n").map fun c => some ⟨0, c, 0, true⟩

/-- Nothing runs. -/
def someEnv : Env := ⟨0, 0, 0, 0, none, none⟩

/-- The tree in which `"/a"` is a file. -/
def someTree : FileTree := treeAfter [createCall, mkfileCall]

/-- `cat /a` prints the file. -/
theorem cat_someTree {path : List UInt8 → Option Seen} (h : SeesTree someTree 0 path) (reader : Reader) :
    .text [65, 66] ∈ (View.mk path someEnv).roundEvents someKeys reader := by
  have hat : nodeAt someTree 0 (ascii "/a") = some 1 := rfl
  have hleaf : someTree[1]? = some ([97], .leaf (.ofBytes [65, 66])) := rfl
  have hseen := h (ascii "/a")
  have hpath : path (ascii "/a") = some (.file [65, 66]) := by
    cases hp : path (ascii "/a") with
    | none =>
        rw [hp, hat] at hseen
        exact nomatch hseen
    | some seen =>
        rw [hp] at hseen
        obtain ⟨i, hi, hof⟩ := hseen
        obtain rfl := Option.some.inj (hat.symm.trans hi)
        cases seen with
        | dir entries =>
            obtain ⟨x, es, hdir, -⟩ := hof
            exact nomatch (Prod.mk.inj (Option.some.inj (hleaf.symm.trans hdir))).2
        | file bytes =>
            obtain ⟨x, f, hfile, hlen, hstored⟩ := hof
            obtain ⟨-, hf⟩ := Prod.mk.inj (Option.some.inj (hleaf.symm.trans hfile))
            obtain rfl := Content.leaf.inj hf
            have h₀ := hstored 0 65 rfl
            have h₁ := hstored 1 66 rfl
            obtain ⟨a, b, rfl⟩ := List.length_eq_two.mp hlen
            obtain rfl : a = 65 := Option.some.inj h₀
            obtain rfl : b = 66 := Option.some.inj h₁
            rfl
  -- the line has two words, and the first is the command
  have hargs : argsOf someKeys = [ascii "cat", ascii "/a"] := by decide
  have hcat : commands.find? (fun c => ascii c.name = ascii "cat") = some .cat := by decide
  rw [View.roundEvents, hargs, View.replyTo, hcat]
  refine List.mem_append_right _ ?_
  change _ ∈ catReply (ascii "/a") (path (ascii "/a"))
  rw [hpath]
  exact List.mem_singleton.mpr rfl

/-- After the file `"a"` was made, `cat /a` prints its bytes. -/
theorem transcript_of_run_cat : ∃ r S, Run (SessionStep (someMachine r) (kernelArena .x86) someCode 0 r 0x18000000)
    ⟨⟨(heapBoot .x86 (kernelArena .x86) (filledArena .x86 0)).heap, []⟩, []⟩
    [.call createCall, .call mkfileCall, .line someKeys someEnv] S ∧ .text [65, 66] ∈ S.out := by
  obtain ⟨s, s₁, hcreate, hmkfile, hlen⟩ := exists_store
  have hK := installed_someMachine (s₁.addr 0)
  have hcalls : Run (SessionStep (someMachine (s₁.addr 0)) (kernelArena .x86) someCode 0 (s₁.addr 0) 0x18000000)
      ⟨⟨(heapBoot .x86 (kernelArena .x86) (filledArena .x86 0)).heap, []⟩, []⟩ [.call createCall, .call mkfileCall]
      ⟨s₁, []⟩ := .cons (.call List.not_mem_nil hcreate) (.single (.call List.not_mem_nil hmkfile))
  -- the literals are put into memory outside the heap
  have hloaded := loaded_someLiterals (s₁.addr 0) ((kernelArena .x86).overlay someLiterals s₁.heap.mem) fun x hx =>
    if_pos (outside_of_ge hx)
  have hnodes : 0 < s₁.nodes.length := by
    obtain ⟨live, objs, k, hinv⟩ := StoreInv.of_run linked_someCode (kernelArena_splitSafe .x86)
      (.refl (heapBoot .x86 (kernelArena .x86) (filledArena .x86 0))) (.cons hcreate (.single hmkfile))
    rw [hinv.base.nodes, List.length_map, hinv.length_eq]
    decide
  obtain ⟨-, hanswers⟩ := transcript_of_run _ _ someCode 0 _ _ _ _ hK (filledArena .x86 0) _ (.refl _) _ _ hcalls
  obtain ⟨S, hline⟩ := hanswers someKeys someEnv _ List.not_mem_nil
    ((kernelArena .x86).sameInside_overlay someLiterals _) hloaded hnodes rfl ⟨⟨0, 0x0A, 0, true⟩, by decide, rfl⟩
  have hrun := hcalls.append (.single hline)
  obtain ⟨htranscript, -⟩ := transcript_of_run _ _ someCode 0 _ _ _ _ hK (filledArena .x86 0) _ (.refl _) _ _ hrun
  obtain ⟨out, hout⟩ : ∃ out, out = S.out := ⟨_, rfl⟩
  refine ⟨s₁.addr 0, S, hrun, ?_⟩
  rw [← hout] at htranscript ⊢
  -- two calls and a line
  obtain _ | htranscript := htranscript
  obtain _ | htranscript := htranscript
  obtain _ | _ | ⟨hsees, hread, hrest⟩ := htranscript
  exact List.mem_append_left _ (cat_someTree hsees _)

end Shell

end Aerogel
