import Aerogel.Libc.Decimal
import Aerogel.Userspace.Shell

/-! # What the shell replies

`replyTo` says on lists what the shell does with the words of a line, when `View.path` is what a path shows. The
theorem is `shellRound_does`: a round that is typed on the keyboard has that reply, for every file system whose
calls show the same, and it leaves memory as it was outside the line's buffer and the stack. -/

namespace Aerogel

namespace Shell

open Printf (Arg ascii render kprint numeral StrOutside)
open LineEditor (Reader readLoop readline typed rawEdit isEnter)

/-! ## Replies -/

/-- What is at a path: the bytes of a file, or names and whether they are directories. -/
inductive Seen
  | file (bytes : List UInt8)
  | dir (entries : List (List UInt8 × Bool))

/-- What the shell can see. -/
structure View where
  /-- The file system. -/
  path : List UInt8 → Option Seen
  /-- The rest of the kernel. -/
  env : Env

/-- The first `k` pieces of a list, of 63 bytes each. -/
def pieces : Nat → List UInt8 → List (List UInt8)
  | 0, _ => []
  | k + 1, l => if l = [] then [] else l.take 63 :: pieces k (l.drop 63)

/-- `%u`. -/
def decimal (n : UInt32) : List UInt8 := numeral 10 false n.toNat

/-- The line of an entry. -/
def entryReply (e : List UInt8 × Bool) : List Event :=
  [.color (if e.2 then .lightBlue else .lightGray) .black,
    .text (ascii "  " ++ (e.1 ++ ((if e.2 then ascii "/" else []) ++ ascii "\n")))]

/-- `ls`. A file has no entries. -/
def lsReply (path : List UInt8) : Option Seen → List Event
  | none => [.text (ascii "ls: no such directory: " ++ (path ++ ascii "\n"))]
  | some (.file _) => [.color .lightGray .black]
  | some (.dir entries) => entries.flatMap entryReply ++ [.color .lightGray .black]

/-- `cat`. A piece ends at its first NUL. -/
def catReply (path : List UInt8) : Option Seen → List Event
  | some (.file bytes) => (pieces bytes.length bytes).map fun piece => .text (piece.takeWhile (· != 0))
  | _ => [.text (ascii "cat: not found: " ++ (path ++ ascii "\n"))]

/-- The words of `echo`. -/
def echoReply : List (List UInt8) → List Event
  | [] => []
  | w :: ws => .text (w ++ (if ws = [] then [] else ascii " ")) :: echoReply ws

/-- `ps`: there are no field widths, so the directives are not recognised. -/
def psReply (env : Env) : List Event :=
  [.text (ascii "  ID  NAME             STATE\n"), .text (ascii "  --  ---------------  --------\n")] ++
    (if env.current.isSome then [.text (ascii "  ?3u ?16s RUNNING\n")] else []) ++
    [.text (ascii "  (run-queue threads omitted in Phase 7)\n")]

/-- `mem`. -/
def memReply (env : Env) : List Event :=
  [.text (ascii "  Total : " ++ (decimal (mib env.total) ++ ascii " MiB\n")),
    .text (ascii "  Used  : " ++ (decimal (mib env.used) ++ ascii " MiB\n")),
    .text (ascii "  Free  : " ++ (decimal (mib env.available) ++ ascii " MiB\n"))]

/-- `uptime`: the ticks are cut to 32 bits. -/
def uptimeReply (env : Env) : List Event :=
  let secs := env.ticks.toUInt32 / 100
  [.text (ascii "  Uptime: " ++
    (decimal (secs / 60) ++ (ascii " min " ++ (decimal (secs % 60) ++ ascii " sec\n"))))]

/-- `ifconfig`: nor are the directives of the MAC address. -/
def ifconfigReply (env : Env) : List Event :=
  match env.net with
  | none => [.text (ascii "  No network interface\n")]
  | some (_, ip) => [.text (ascii "  eth0  MAC: ?2x:?2x:?2x:?2x:?2x:?2x\n"),
      .text (ascii "        IP:  " ++ (decimal ((ip >>> 24) &&& 0xFF) ++ (ascii "." ++
        (decimal ((ip >>> 16) &&& 0xFF) ++ (ascii "." ++ (decimal ((ip >>> 8) &&& 0xFF) ++ (ascii "." ++
          (decimal (ip &&& 0xFF) ++ ascii "\n"))))))))]

/-- What a command replies. -/
def View.reply (V : View) : Command → List (List UInt8) → List Event
  | .help, _ => [.text (ascii "Commands: help ls cat echo clear ps mem uptime reboot ifconfig netpoll\n")]
  | .ls, args => lsReply (args.headD (ascii "/")) (V.path (args.headD (ascii "/")))
  | .cat, [] => [.text (ascii "usage: cat <path>\n")]
  | .cat, path :: _ => catReply path (V.path path)
  | .echo, args => echoReply args ++ [.text (ascii "\n")]
  | .clear, _ => [.clear]
  | .ps, _ => psReply V.env
  | .mem, _ => memReply V.env
  | .uptime, _ => uptimeReply V.env
  | .reboot, _ => [.text (ascii "Rebooting...\n"), .reset]
  | .ifconfig, _ => ifconfigReply V.env
  | .netpoll, _ => [.netPoll, .text (ascii "Network polled.\n")]

/-- What the words of a line are replied to. -/
def View.replyTo (V : View) : List (List UInt8) → List Event
  | [] => []
  | cmd :: args =>
    match commands.find? fun c => ascii c.name = cmd with
    | some c => V.reply c args
    | none => [.text (cmd ++ ascii ": command not found\n")]

/-! ## Surroundings -/

/-- The strings of the source, formats among them. -/
def literals : List String := commands.map Command.name ++ [
  "/", "", " ", "\n", "%s", "%s%s", "  %s%s\n", "aerogel> ", "Rebooting...\n", "Network polled.\n",
  "Commands: help ls cat echo clear ps mem uptime reboot ifconfig netpoll\n", "%s: command not found\n",
  "ls: no such directory: %s\n", "usage: cat <path>\n", "cat: not found: %s\n",
  "  ID  NAME             STATE\n", "  --  ---------------  --------\n", "  %-3u %-16s RUNNING\n",
  "  (run-queue threads omitted in Phase 7)\n", "  Total : %u MiB\n", "  Used  : %u MiB\n",
  "  Free  : %u MiB\n", "  Uptime: %u min %u sec\n", "  eth0  MAC: %02x:%02x:%02x:%02x:%02x:%02x\n",
  "        IP:  %u.%u.%u.%u\n", "  No network interface\n"]

/-- Memory is as it was below `lo` and from `hi` on. -/
def SameBut (lo hi : Nat) (m m' : Mem) : Prop := ∀ x, x < lo ∨ hi ≤ x → m' x = m x

/-- Where things are: the locals of the functions between `lo` and `hi`, the literals and the line in front of
them or behind, and apart from each other. -/
structure Layout (K : Machine) (buf lo hi : Nat) : Prop where
  frame : ∀ s ∈ literals, lo ≤ K.frame s ∧ K.frame s + 1024 ≤ hi
  chunk : lo ≤ K.chunk ∧ K.chunk + 64 ≤ hi
  chunk_apart : K.chunk + 64 ≤ K.frame "%s" ∨ K.frame "%s" + 1024 ≤ K.chunk
  hi_le : hi ≤ 2 ^ K.target.wordBits
  lit_lt : ∀ s ∈ literals, 0 < K.lit s ∧ K.lit s < 2 ^ K.target.wordBits
  lit_apart : ∀ s ∈ literals, K.lit s + (ascii s).length < lo ∨ hi ≤ K.lit s
  lit_buf : ∀ s ∈ literals, K.lit s + (ascii s).length < buf ∨ buf + 256 ≤ K.lit s
  buf_lt : 0 < buf ∧ buf + 256 ≤ 2 ^ K.target.wordBits
  buf_apart : buf + 256 ≤ lo ∨ hi ≤ buf

/-- The literals are in memory. -/
def Loaded (K : Machine) (m : Mem) : Prop := ∀ s ∈ literals, CStr m (K.lit s) (ascii s)

/-- A pointer to a string that lies outside the locals. -/
structure Readable (T : Target) (m : Mem) (lo hi a : Nat) (s : List UInt8) : Prop where
  outside : StrOutside m lo hi a s
  pos : 0 < a
  lt : a < 2 ^ T.wordBits

variable {K : Machine} {buf lo hi fuel : Nat} {m m' m'' : Mem} {v : State} {a : Nat} {s text : List UInt8}
  {out out' : List Event} {V : View}

namespace SameBut

theorem refl (m : Mem) : SameBut lo hi m m := fun _ _ => rfl

theorem trans (h : SameBut lo hi m m') (h' : SameBut lo hi m' m'') : SameBut lo hi m m'' := fun x hx =>
  (h' x hx).trans (h x hx)

end SameBut

theorem Readable.congr {T : Target} (h : Readable T m lo hi a s) (hm : SameBut lo hi m m') :
    Readable T m' lo hi a s := by
  obtain ⟨⟨hstr, hout⟩, hpos, hlt⟩ := h
  refine ⟨⟨hstr.congr fun x h₁ h₂ => hm x ?_, hout⟩, hpos, hlt⟩
  omega

theorem Loaded.readable (hl : Loaded K m) (L : Layout K buf lo hi) {w : String} (hw : w ∈ literals) :
    Readable K.target m lo hi (K.lit w) (ascii w) :=
  ⟨⟨hl w hw, L.lit_apart w hw⟩, (L.lit_lt w hw).1, (L.lit_lt w hw).2⟩

theorem Loaded.congr (hl : Loaded K m) (L : Layout K buf lo hi) (hm : SameBut lo hi m m') : Loaded K m' :=
  fun _ hw => ((hl.readable L hw).congr hm).outside.1

/-- The words of a line, at these addresses. -/
def Given (T : Target) (m : Mem) (lo hi : Nat) (args : List Nat) (ws : List (List UInt8)) : Prop :=
  List.Forall₂ (fun a w => Readable T m lo hi a w ∧ w.length ≤ 255) args ws

theorem Given.congr {T : Target} {args : List Nat} {ws : List (List UInt8)} (h : Given T m lo hi args ws)
    (hm : SameBut lo hi m m') : Given T m' lo hi args ws := h.imp fun _ _ h => ⟨h.1.congr hm, h.2⟩

/-! ## What a part of the code does -/

/-- The code from `v` on does `out`, and leaves memory as it was outside the locals. -/
def Does (lo hi : Nat) (run : Nat → Except Halt State) (v : State) (out : List Event) : Prop :=
  ∃ m', Printf.Terminates run ⟨m', v.out ++ out⟩ ∧ SameBut lo hi v.mem m'

namespace Does

variable {run : Nat → Except Halt State} {e : Event}

theorem done (v : State) : Does lo hi (fun _ => .ok v) v [] := by
  refine ⟨v.mem, ⟨0, fun _ _ => ?_⟩, .refl _⟩
  rw [List.append_nil]

/-- One part after the other. -/
theorem bind (h : Does lo hi run v out) (next : Nat → State → Except Halt State)
    (h' : ∀ m', SameBut lo hi v.mem m' → Does lo hi (fun fuel => next fuel ⟨m', v.out ++ out⟩)
      ⟨m', v.out ++ out⟩ out') : Does lo hi (fun fuel => run fuel >>= next fuel) v (out ++ out') := by
  obtain ⟨m', ⟨N, hN⟩, hm⟩ := h
  obtain ⟨m'', ⟨M, hM⟩, hm'⟩ := h' m' hm
  -- the greater of the two amounts of fuel is enough for both
  refine ⟨m'', ⟨max N M, fun fuel hfuel => ?_⟩, hm.trans hm'⟩
  have hfirst := hN fuel ((le_max_left N M).trans hfuel)
  have hsecond := hM fuel ((le_max_right N M).trans hfuel)
  dsimp only
  rw [hfirst, ← List.append_assoc]
  exact hsecond

/-- An event in front. -/
theorem emit (h : Does lo hi run (v.emit e) out) : Does lo hi run v (e :: out) := by
  obtain ⟨m', hrun, hm⟩ := h
  refine ⟨m', ?_, hm⟩
  rwa [State.emit, List.append_assoc, List.singleton_append] at hrun

/-- An event behind. -/
theorem event (v : State) (e : Event) : Does lo hi (fun _ => .ok (v.emit e)) v [e] :=
  ⟨v.mem, ⟨0, fun _ _ => rfl⟩, .refl _⟩

/-- The locals may have changed before. -/
theorem scratch (hm : SameBut lo hi v.mem m) (h : Does lo hi run ⟨m, v.out⟩ out) : Does lo hi run v out := by
  obtain ⟨m', hrun, hm'⟩ := h
  exact ⟨m', hrun, hm.trans hm'⟩

/-- The code may be replaced where there is enough fuel. -/
theorem congr {run' : Nat → Except Halt State} {N : Nat} (h : Does lo hi run v out)
    (heq : ∀ fuel, N ≤ fuel → run' fuel = run fuel) : Does lo hi run' v out := by
  obtain ⟨m', ⟨M, hM⟩, hm⟩ := h
  refine ⟨m', ⟨max N M, fun fuel hfuel => ?_⟩, hm⟩
  rw [heq fuel ((le_max_left N M).trans hfuel)]
  exact hM fuel ((le_max_right N M).trans hfuel)

end Does

/-! ## Texts -/

/-- A text without a NUL, of no more than `n` characters. -/
def Clean (n : Nat) (s : List UInt8) : Prop := 0 ∉ s ∧ s.length ≤ n

instance (n : Nat) (s : List UInt8) : Decidable (Clean n s) := inferInstanceAs (Decidable (_ ∧ _))

namespace Clean

variable {n k : Nat} {t : List UInt8}

theorem append (hs : Clean n s) (ht : Clean k t) : Clean (n + k) (s ++ t) := by
  obtain ⟨hs, hn⟩ := hs
  obtain ⟨ht, hk⟩ := ht
  refine ⟨fun h0 => ?_, ?_⟩
  · rcases List.mem_append.mp h0 with h0 | h0
    · exact hs h0
    · exact ht h0
  · rw [List.length_append]
    omega

theorem decimal (x : UInt32) : Clean 32 (decimal x) := by
  refine ⟨(Printf.isNumeralText_numeral (by decide) false _).zero_notMem (by decide), ?_⟩
  exact Printf.length_numeral_le (le_refl 10) false (x.toNat_lt.trans (by decide))

end Clean

theorem Readable.clean {T : Target} (h : Readable T m lo hi a s) (hlen : s.length ≤ 255) : Clean 255 s :=
  ⟨h.outside.1.zero_notMem, hlen⟩

/-- The argument is passed as this word. -/
def ArgAt (T : Target) (m : Mem) (lo hi : Nat) : Arg → Nat → Prop
  | .word n, w => w = n
  | .str s, w => StrOutside m lo hi (w % 2 ^ T.wordBits) s

/-- Arguments are where `va_arg` looks for them. -/
theorem passed_of_argAt {T : Target} {args : List Arg} {ws : List Nat} {ap : Printf.VaList}
    (h : List.Forall₂ (ArgAt T m lo hi) args ws) (hap : ∀ i < ws.length, ap i = ws.getD i 0) :
    Printf.Passed T m lo hi ap args := by
  induction h generalizing ap with
  | nil => exact trivial
  | @cons arg w args ws harg _ ih =>
      have hw : ap 0 = w := hap 0 (Nat.succ_pos _)
      have hrest := @ih ap.rest fun i hi => hap (i + 1) (Nat.succ_lt_succ hi)
      cases arg with
      | word n => exact ⟨hw.trans harg, hrest⟩
      | str s => exact ⟨by rwa [hw], hrest⟩

/-- A string outside the locals is one outside the buffer of `kprintf`. -/
theorem Readable.argAt {T : Target} (h : Readable T m lo hi a s) {frame : Nat} (h₁ : lo ≤ frame)
    (h₂ : frame + 1024 ≤ hi) : ArgAt T m frame (frame + 1024) (.str s) a := by
  obtain ⟨⟨hstr, hout⟩, -, hlt⟩ := h
  rw [ArgAt, Nat.mod_eq_of_lt hlt]
  exact ⟨hstr, by omega⟩

/-- `kprintf` prints what its format makes of its arguments. -/
theorem say_does {fmt : String} {args : List Arg} {ws : List Nat} (L : Layout K buf lo hi) (hl : Loaded K v.mem)
    (hfmt : fmt ∈ literals) (hargs : List.Forall₂ (ArgAt K.target v.mem (K.frame fmt) (K.frame fmt + 1024)) args ws)
    (hrender : render K.target (ascii fmt) args = some text) (hclean : Clean 1023 text) :
    Does lo hi (fun fuel => say K fuel fmt ws v) v [.text text] := by
  obtain ⟨hnul, hlen⟩ := hclean
  obtain ⟨hlo, hhi⟩ := L.frame fmt hfmt
  have hout := L.lit_apart fmt hfmt
  have hpassed : Printf.Passed K.target v.mem (K.frame fmt) (K.frame fmt + 1024) (fun i => ws.getD i (K.junk i))
      args := passed_of_argAt hargs fun i hi => by
    simp only [List.getD_eq_getElem _ _ hi]
  obtain ⟨m', ⟨N, hN⟩, hm⟩ := Printf.kprint_eq (hl fmt hfmt) (by omega) hrender hpassed (by omega) hnul
  refine ⟨m', ⟨N, fun fuel hfuel => ?_⟩, fun x hx => hm x (by omega)⟩
  have hrun : kprint K.target fuel v.mem (K.frame fmt) (K.lit fmt) _ = _ := hN fuel hfuel
  dsimp only
  rw [say, hrun]
  rfl

/-- A format without directives. -/
theorem say_plain {fmt : String} (L : Layout K buf lo hi) (hl : Loaded K v.mem) (hfmt : fmt ∈ literals)
    (hrender : render K.target (ascii fmt) [] = some text) (hclean : Clean 1023 text) :
    Does lo hi (fun fuel => say K fuel fmt [] v) v [.text text] :=
  say_does L hl hfmt .nil hrender hclean

/-- A format with one string. -/
theorem say_str {fmt : String} (L : Layout K buf lo hi) (hl : Loaded K v.mem) (hfmt : fmt ∈ literals)
    (ha : Readable K.target v.mem lo hi a s) (hrender : render K.target (ascii fmt) [.str s] = some text)
    (hclean : Clean 1023 text) : Does lo hi (fun fuel => say K fuel fmt [a] v) v [.text text] :=
  say_does L hl hfmt (.cons (ha.argAt (L.frame fmt hfmt).1 (L.frame fmt hfmt).2) .nil) hrender hclean

/-- A format with two strings. -/
theorem say_strs {fmt : String} {b : Nat} {t : List UInt8} (L : Layout K buf lo hi) (hl : Loaded K v.mem)
    (hfmt : fmt ∈ literals) (ha : Readable K.target v.mem lo hi a s) (hb : Readable K.target v.mem lo hi b t)
    (hrender : render K.target (ascii fmt) [.str s, .str t] = some text) (hclean : Clean 1023 text) :
    Does lo hi (fun fuel => say K fuel fmt [a, b] v) v [.text text] := by
  obtain ⟨h₁, h₂⟩ := L.frame fmt hfmt
  exact say_does L hl hfmt (.cons (ha.argAt h₁ h₂) (.cons (hb.argAt h₁ h₂) .nil)) hrender hclean

/-- A format with numbers. -/
theorem say_words {fmt : String} {ws : List Nat} (L : Layout K buf lo hi) (hl : Loaded K v.mem)
    (hfmt : fmt ∈ literals) (hrender : render K.target (ascii fmt) (ws.map Arg.word) = some text)
    (hclean : Clean 1023 text) : Does lo hi (fun fuel => say K fuel fmt ws v) v [.text text] := by
  refine say_does L hl hfmt ?_ hrender hclean
  rw [List.forall₂_map_left_iff, List.forall₂_same]
  exact fun _ _ => rfl

/-! ## What the file system shows -/

/-- An entry of a directory. -/
structure EntryShows (K : Machine) (lo hi : Nat) (m : Mem) (e : Nat) (entry : List UInt8 × Bool) : Prop where
  ne_zero : e ≠ 0
  flags : K.vfs.flags m e &&& vfsDir ≠ 0 ↔ entry.2 = true
  name : Readable K.target m lo hi (K.vfs.name e) entry.1
  short : entry.1.length ≤ 255

/-- The node of a directory, with these entries. -/
structure DirShows (K : Machine) (lo hi : Nat) (m : Mem) (node : Nat) (es : List Nat)
    (entries : List (List UInt8 × Bool)) : Prop where
  flags : K.vfs.flags m node &&& vfsFile = 0
  lists : ∀ i, K.vfs.readdir m node i = es.getD i 0
  each : List.Forall₂ (EntryShows K lo hi m) es entries
  count : entries.length < 2 ^ 32

/-- The node of a file. -/
structure FileShows (K : Machine) (m : Mem) (node : Nat) (bytes : List UInt8) : Prop where
  flags : K.vfs.flags m node &&& vfsFile ≠ 0
  lists : K.vfs.readdir m node 0 = 0
  size : bytes.length < 2 ^ 32
  reads : ∀ off sz, sz < 2 ^ 32 →
    K.vfs.read m node off sz = (((bytes.drop off).take sz).length, (bytes.drop off).take sz)

/-- The node shows this, whatever the locals are. -/
def NodeShows (K : Machine) (lo hi : Nat) (m : Mem) (node : Nat) : Seen → Prop
  | .file bytes => ∀ m', SameBut lo hi m m' → FileShows K m' node bytes
  | .dir entries => ∃ es, ∀ m', SameBut lo hi m m' → DirShows K lo hi m' node es entries

/-- `vfs_open` finds what paths show. -/
def Shows (K : Machine) (lo hi : Nat) (m : Mem) (path : List UInt8 → Option Seen) : Prop :=
  ∀ a s, Readable K.target m lo hi a s → s.length ≤ 255 →
    match path s with
    | none => Printf.Terminates (fun fuel => K.vfs.openPath fuel m a) none
    | some seen => ∃ node, Printf.Terminates (fun fuel => K.vfs.openPath fuel m a) (some node) ∧
        NodeShows K lo hi m node seen

/-! ## The commands -/

/-- A line of `ls`. -/
theorem entry_does {e : Nat} {entry : List UInt8 × Bool} (L : Layout K buf lo hi) (hl : Loaded K v.mem)
    (h : EntryShows K lo hi v.mem e entry) :
    Does lo hi (fun fuel => say K fuel "  %s%s\n"
      [K.vfs.name e, if K.vfs.flags v.mem e &&& vfsDir ≠ 0 then K.lit "/" else K.lit ""]
      (v.emit (.color (if K.vfs.flags v.mem e &&& vfsDir ≠ 0 then .lightBlue else .lightGray) .black))) v
      (entryReply entry) := by
  obtain ⟨name, isDir⟩ := entry
  have hflags := h.flags
  have hname := h.name.clean h.short
  apply Does.emit
  cases isDir with
  | false =>
      -- the second string is empty
      have hno : ¬ K.vfs.flags v.mem e &&& vfsDir ≠ 0 := fun hc => Bool.false_ne_true (hflags.mp hc)
      rw [if_neg hno, if_neg hno]
      change Does lo hi _ _ [.text (ascii "  " ++ (name ++ ([] ++ ascii "\n")))]
      refine say_strs L hl (by decide) h.name (hl.readable L (by decide)) (t := []) ?_ ?_
      · simp [render, ascii, Printf.convert]
      · exact (show Clean 2 (ascii "  ") by decide).append
          (hname.append (show Clean 766 ([] ++ ascii "\n") by decide))
  | true =>
      -- the second string is a slash
      have hyes : K.vfs.flags v.mem e &&& vfsDir ≠ 0 := hflags.mpr rfl
      rw [if_pos hyes, if_pos hyes]
      change Does lo hi _ _ [.text (ascii "  " ++ (name ++ (ascii "/" ++ ascii "\n")))]
      refine say_strs L hl (by decide) h.name (hl.readable L (by decide)) ?_ ?_
      · simp [render, ascii, Printf.convert]
      · exact (show Clean 2 (ascii "  ") by decide).append
          (hname.append (show Clean 766 (ascii "/" ++ ascii "\n") by decide))

/-- `ls` prints the entries from number `i` on. -/
theorem lsLoop_does {dir i : Nat} {es : List Nat} {all rest : List (List UInt8 × Bool)} (L : Layout K buf lo hi)
    (hl : Loaded K v.mem) (hdir : ∀ m', SameBut lo hi v.mem m' → DirShows K lo hi m' dir es all)
    (hrest : all.drop i = rest) {rounds : Nat → Nat} {N : Nat}
    (hrounds : ∀ fuel, N ≤ fuel → rest.length < rounds fuel) :
    Does lo hi (fun fuel => lsLoop K fuel dir (rounds fuel) i v) v (rest.flatMap entryReply) := by
  have hnow := hdir v.mem (.refl _)
  have hlen := hnow.each.length_eq
  induction rest generalizing i v rounds with
  | nil =>
      -- there are no more entries
      have hend : es.getD i 0 = 0 := List.getD_eq_default _ _ (by rw [hlen]; exact List.drop_eq_nil_iff.mp hrest)
      refine (Does.done v).congr (N := N) fun fuel hfuel => ?_
      obtain ⟨k, hk⟩ := Nat.exists_eq_add_one.mpr (Nat.zero_lt_of_lt (hrounds fuel hfuel))
      rw [hk, lsLoop]
      exact if_pos ((hnow.lists i).trans hend)
  | cons entry rest ih =>
      have hlt : i < all.length := by
        by_contra hge
        rw [List.drop_eq_nil_iff.mpr (Nat.le_of_not_lt hge)] at hrest
        exact nomatch hrest
      rw [List.drop_eq_getElem_cons hlt] at hrest
      obtain ⟨hentry, hdrop⟩ := List.cons.inj hrest
      have hshows : EntryShows K lo hi v.mem es[i] entry := hentry ▸ hnow.each.get _ _
      have hread : K.vfs.readdir v.mem dir i = es[i] := by
        rw [hnow.lists, List.getD_eq_getElem]
      -- there are fewer entries than `i` can count
      have hcount := hnow.count
      have hnext : (i + 1) % 2 ^ 32 = i + 1 := Nat.mod_eq_of_lt (by omega)
      have hgo : ∀ fuel, N ≤ fuel → rest.length < rounds fuel - 1 := fun fuel hfuel => by
        have hpos := hrounds fuel hfuel
        rw [List.length_cons] at hpos
        omega
      rw [List.flatMap_cons]
      refine ((entry_does L hl hshows).bind
        (fun fuel v => lsLoop K fuel dir (rounds fuel - 1) ((i + 1) % 2 ^ 32) v) fun m' hm => ?_).congr (N := N)
        fun fuel hfuel => ?_
      · rw [hnext]
        have hdir' := fun m'' (hm' : SameBut lo hi m' m'') => hdir m'' (hm.trans hm')
        exact ih (hl.congr L hm) hdir' hdrop hgo (hdir' m' (.refl _))
      · obtain ⟨k, hk⟩ := Nat.exists_eq_add_one.mpr (Nat.zero_lt_of_lt (hrounds fuel hfuel))
        have hne := hshows.ne_zero
        rw [hk, lsLoop, hread]
        exact if_neg hne

/-- `cmd_ls` with a path. -/
theorem cmdLs_does {path : List UInt8 → Option Seen} (L : Layout K buf lo hi) (hl : Loaded K v.mem)
    (hpath : Shows K lo hi v.mem path) (ha : Readable K.target v.mem lo hi a s) (hs : s.length ≤ 255) :
    Does lo hi (fun fuel => cmdLs K fuel a v) v (lsReply s (path s)) := by
  have hpos := ha.pos
  have hopen := hpath a s ha hs
  have hcolor : ∀ v : State, Does lo hi (fun _ => .ok (v.emit (.color .lightGray .black))) v _ := fun v =>
    .event v _
  cases hseen : path s with
  | none =>
      rw [hseen] at hopen
      obtain ⟨N, hN⟩ := hopen
      -- nothing is there
      have hclean := (show Clean 700 (ascii "ls: no such directory: ") by decide).append
        ((ha.clean hs).append (show Clean 68 (ascii "\n") by decide))
      have hsay : Does lo hi (fun fuel => say K fuel "ls: no such directory: %s\n" [a] v) v (lsReply s none) :=
        say_str L hl (by decide) ha (by simp [render, ascii, Printf.convert]) hclean
      refine hsay.congr (N := N) fun fuel hfuel => ?_
      have hrun : K.vfs.openPath fuel v.mem a = .ok none := hN fuel hfuel
      rw [cmdLs, if_neg (by omega), hrun]
      rfl
  | some seen =>
      rw [hseen] at hopen
      obtain ⟨node, ⟨N, hN⟩, hnode⟩ := hopen
      have hloop : ∃ entries : List (List UInt8 × Bool), lsReply s (some seen) =
          entries.flatMap entryReply ++ [.color .lightGray .black] ∧
          Does lo hi (fun fuel => lsLoop K fuel node fuel 0 v) v (entries.flatMap entryReply) := by
        cases seen with
        | file bytes =>
            -- a file has no first entry
            refine ⟨[], rfl, (Does.done v).congr (N := 1) fun fuel hfuel => ?_⟩
            obtain ⟨k, rfl⟩ := Nat.exists_eq_add_one.mpr hfuel
            rw [lsLoop]
            exact if_pos (hnode v.mem (.refl _)).lists
        | dir entries =>
            -- as many rounds as there are entries, and one that finds the end
            obtain ⟨es, hes⟩ := hnode
            exact ⟨entries, rfl, lsLoop_does L hl hes rfl (N := entries.length + 1) fun fuel hfuel => hfuel⟩
      obtain ⟨entries, hreply, hdoes⟩ := hloop
      rw [hreply]
      refine (hdoes.bind (fun _ v => .ok (v.emit (.color .lightGray .black))) fun m' _ => hcolor _).congr (N := N)
        fun fuel hfuel => ?_
      have hrun : K.vfs.openPath fuel v.mem a = .ok (some node) := hN fuel hfuel
      rw [cmdLs, if_neg (by omega), hrun]
      rfl

/-- Bytes with a NUL behind them are a string up to their first NUL. -/
theorem cStr_takeWhile {piece : List UInt8} (hbytes : ∀ i < piece.length, m (a + i) = piece.getD i 0)
    (hend : m (a + piece.length) = 0) : CStr m a (piece.takeWhile (· != 0)) := by
  induction piece generalizing a with
  | nil => exact hend
  | cons c piece ih =>
      have hfirst : m a = c := hbytes 0 (Nat.succ_pos _)
      by_cases hc : c = 0
      · rw [List.takeWhile_cons_of_neg (by simp [hc])]
        exact hfirst.trans hc
      · rw [List.takeWhile_cons_of_pos (by simp [hc])]
        refine ⟨hfirst, hc, ih (fun i hi => ?_) ?_⟩
        · rw [Nat.add_assoc, Nat.add_comm 1 i]
          exact hbytes (i + 1) (Nat.succ_lt_succ hi)
        · rwa [Nat.add_assoc, Nat.add_comm 1]

/-- `chunk` holds a piece, and `kprintf` prints it. -/
theorem chunk_does {piece : List UInt8} (L : Layout K buf lo hi) (hl : Loaded K v.mem) (hlen : piece.length ≤ 63) :
    Does lo hi (fun fuel => say K fuel "%s" [K.chunk]
      { v with mem := Function.update (Mem.storeList v.mem K.chunk piece) (K.chunk + piece.length) 0 }) v
      [.text (piece.takeWhile (· != 0))] := by
  have hchunk := L.chunk
  have hapart := L.chunk_apart
  have hlt := L.hi_le
  obtain ⟨m, hm⟩ : ∃ m, m = Function.update (Mem.storeList v.mem K.chunk piece) (K.chunk + piece.length) 0 :=
    ⟨_, rfl⟩
  -- `chunk` is one of the locals
  have hsame : SameBut lo hi v.mem m := fun x hx => by
    rw [hm, Function.update_of_ne (by omega), Mem.storeList_apply_of_outside _ (by omega)]
  have hstr : CStr m K.chunk (piece.takeWhile (· != 0)) := by
    refine cStr_takeWhile (fun i hi => ?_) ?_
    · rw [hm, Function.update_of_ne (by omega)]
      exact Mem.storeList_apply _ hi
    · rw [hm, Function.update_self]
  have hshort := (List.takeWhile_prefix (· != 0)).length_le.trans hlen
  have harg : ArgAt K.target m (K.frame "%s") (K.frame "%s" + 1024) (.str (piece.takeWhile (· != 0))) K.chunk := by
    rw [ArgAt, Nat.mod_eq_of_lt (by omega)]
    exact ⟨hstr, by omega⟩
  have hrender : render K.target (ascii "%s") [.str (piece.takeWhile (· != 0))] =
      some (piece.takeWhile (· != 0)) := by
    simp [render, ascii, Printf.convert]
  rw [← hm]
  exact Does.scratch hsame
    (say_does L (hl.congr L hsame) (by decide) (.cons harg .nil) hrender ⟨hstr.zero_notMem, by omega⟩)

/-- At the end of the file `cat` stops. -/
theorem catLoop_end {f off : Nat} {bytes : List UInt8} (L : Layout K buf lo hi) (hf : FileShows K v.mem f bytes)
    (hend : bytes.drop off = []) {rounds : Nat → Nat} {N : Nat} (hrounds : ∀ fuel, N ≤ fuel → 0 < rounds fuel) :
    Does lo hi (fun fuel => catLoop K fuel f (rounds fuel) off v) v [] := by
  have hread : K.vfs.read v.mem f off 63 = (0, []) := by
    rw [hf.reads off 63 (by decide), hend]
    rfl
  have hchunk := L.chunk
  -- `vfs_read` copies nothing
  have hsame : SameBut lo hi v.mem (Mem.storeList v.mem K.chunk []) := fun x hx =>
    Mem.storeList_apply_of_outside _ (by rw [List.length_nil]; omega)
  refine (Does.scratch hsame (.done _)).congr (N := N) fun fuel hfuel => ?_
  obtain ⟨r, hr⟩ := Nat.exists_eq_add_one.mpr (hrounds fuel hfuel)
  rw [hr, catLoop, hread]
  rfl

/-- `cat` prints the rest of the file in pieces. -/
theorem catLoop_does {f off k : Nat} {bytes : List UInt8} (L : Layout K buf lo hi) (hl : Loaded K v.mem)
    (hf : ∀ m', SameBut lo hi v.mem m' → FileShows K m' f bytes) (hk : (bytes.drop off).length ≤ k)
    {rounds : Nat → Nat} {N : Nat} (hrounds : ∀ fuel, N ≤ fuel → k < rounds fuel) :
    Does lo hi (fun fuel => catLoop K fuel f (rounds fuel) off v) v
      ((pieces k (bytes.drop off)).map fun piece => .text (piece.takeWhile (· != 0))) := by
  induction k generalizing v off rounds with
  | zero =>
      exact catLoop_end L (hf v.mem (.refl _)) (List.length_eq_zero_iff.mp (Nat.le_zero.mp hk)) hrounds
  | succ k ih =>
      -- the next 63 bytes, or what is left
      obtain ⟨piece, hpiece⟩ : ∃ piece, piece = (bytes.drop off).take 63 := ⟨_, rfl⟩
      have hlen : piece.length ≤ 63 := by
        rw [hpiece]
        exact List.length_take_le _ _
      have hread : K.vfs.read v.mem f off 63 = (piece.length, piece) := by
        rw [(hf v.mem (.refl _)).reads off 63 (by decide), ← hpiece]
      by_cases hnil : bytes.drop off = []
      · rw [pieces, if_pos hnil]
        exact catLoop_end L (hf v.mem (.refl _)) hnil fun fuel hfuel => (Nat.succ_pos k).trans (hrounds fuel hfuel)
      · have hsize := (hf v.mem (.refl _)).size
        have hpos := List.length_pos_of_ne_nil hnil
        have hcount : piece.length = min 63 (bytes.drop off).length := by rw [hpiece, List.length_take]
        rw [List.length_drop] at hpos hk hcount
        -- the offset does not wrap, since the size is of 32 bits
        have hnext : (off + piece.length) % 2 ^ 32 = off + piece.length := Nat.mod_eq_of_lt (by omega)
        have hdrop : (bytes.drop off).drop 63 = bytes.drop (off + piece.length) := by
          rw [List.drop_drop]
          by_cases hlong : 63 ≤ bytes.length - off
          · rw [hcount, Nat.min_eq_left hlong]
          · rw [List.drop_eq_nil_iff.mpr (by omega), List.drop_eq_nil_iff.mpr (by omega)]
        rw [pieces, if_neg hnil, List.map_cons, hdrop, ← hpiece]
        refine ((chunk_does L hl hlen).bind
          (fun fuel v => catLoop K fuel f (rounds fuel - 1) ((off + piece.length) % 2 ^ 32) v)
          fun m' hm => ?_).congr (N := N) fun fuel hfuel => ?_
        · rw [hnext]
          refine ih (hl.congr L hm) (fun m'' hm' => hf m'' (hm.trans hm')) ?_ fun fuel hfuel => ?_
          · rw [List.length_drop]
            omega
          · have := hrounds fuel hfuel
            omega
        · obtain ⟨r, hr⟩ := Nat.exists_eq_add_one.mpr (Nat.zero_lt_of_lt (hrounds fuel hfuel))
          rw [hr, catLoop, hread]
          exact if_pos (by omega)

/-- `cmd_cat` with a path. -/
theorem cmdCat_does {path : List UInt8 → Option Seen} (L : Layout K buf lo hi) (hl : Loaded K v.mem)
    (hpath : Shows K lo hi v.mem path) (ha : Readable K.target v.mem lo hi a s) (hs : s.length ≤ 255) :
    Does lo hi (fun fuel => cmdCat K fuel a v) v (catReply s (path s)) := by
  have hpos := ha.pos
  have hopen := hpath a s ha hs
  have hclean := (show Clean 700 (ascii "cat: not found: ") by decide).append
    ((ha.clean hs).append (show Clean 68 (ascii "\n") by decide))
  have hsay : Does lo hi (fun fuel => say K fuel "cat: not found: %s\n" [a] v) v (catReply s none) :=
    say_str L hl (by decide) ha (by simp [render, ascii, Printf.convert]) hclean
  cases hseen : path s with
  | none =>
      rw [hseen] at hopen
      obtain ⟨N, hN⟩ := hopen
      refine hsay.congr (N := N) fun fuel hfuel => ?_
      have hrun : K.vfs.openPath fuel v.mem a = .ok none := hN fuel hfuel
      rw [cmdCat, if_neg (by omega), hrun]
      rfl
  | some seen =>
      rw [hseen] at hopen
      obtain ⟨node, ⟨N, hN⟩, hnode⟩ := hopen
      cases seen with
      | file bytes =>
          have hloop : Does lo hi (fun fuel => catLoop K fuel node fuel 0 v) v (catReply s (some (.file bytes))) :=
            catLoop_does L hl hnode le_rfl (N := bytes.length + 1) fun fuel hfuel => hfuel
          refine hloop.congr (N := N) fun fuel hfuel => ?_
          have hrun : K.vfs.openPath fuel v.mem a = .ok (some node) := hN fuel hfuel
          have hflags := (hnode v.mem (.refl _)).flags
          rw [cmdCat, if_neg (by omega), hrun]
          exact if_neg hflags
      | dir entries =>
          -- a directory has another flag
          obtain ⟨es, hes⟩ := hnode
          refine hsay.congr (N := N) fun fuel hfuel => ?_
          have hrun : K.vfs.openPath fuel v.mem a = .ok (some node) := hN fuel hfuel
          have hflags := (hes v.mem (.refl _)).flags
          rw [cmdCat, if_neg (by omega), hrun]
          exact if_pos hflags

/-- The words of `echo`. -/
theorem echoLoop_does {args : List Nat} {ws : List (List UInt8)} (L : Layout K buf lo hi) (hl : Loaded K v.mem)
    (hargs : Given K.target v.mem lo hi args ws) :
    Does lo hi (fun fuel => echoLoop K fuel args v) v (echoReply ws) := by
  induction args generalizing v ws with
  | nil =>
      cases hargs
      exact .done v
  | cons a args ih =>
    cases hargs with
    | @cons _ w _ ws hword hrest =>
      obtain ⟨ha, hlen⟩ := hword
      have hnil : args = [] ↔ ws = [] := by
        rw [← List.length_eq_zero_iff, hrest.length_eq, List.length_eq_zero_iff]
      -- a blank, but not behind the last word
      obtain ⟨sep, hsep, hchars, hlit⟩ : ∃ sep ∈ literals, ascii sep = (if ws = [] then [] else ascii " ") ∧
          K.lit sep = if args = [] then K.lit "" else K.lit " " := by
        by_cases hws : ws = []
        · rw [if_pos hws, if_pos (hnil.mpr hws)]
          exact ⟨"", by decide, rfl, rfl⟩
        · rw [if_neg hws, if_neg fun hc => hws (hnil.mp hc)]
          exact ⟨" ", by decide, rfl, rfl⟩
      have hclean : Clean 768 (ascii sep) := by
        rw [hchars]
        split_ifs <;> decide
      have hsay : Does lo hi (fun fuel => say K fuel "%s%s" [a, K.lit sep] v) v [.text (w ++ ascii sep)] :=
        say_strs L hl (by decide) ha (hl.readable L hsep) (by simp [render, ascii, Printf.convert])
          ((ha.clean hlen).append hclean)
      rw [hlit, hchars] at hsay
      rw [echoReply]
      exact hsay.bind (fun fuel v => echoLoop K fuel args v) fun m' hm => ih (hl.congr L hm) (Given.congr hrest hm)

/-- A number of 32 bits fits into a word. -/
theorem toNat_mod_word (T : Target) (x : UInt32) : x.toNat % 2 ^ T.wordBits = x.toNat :=
  Nat.mod_eq_of_lt (x.toNat_lt.trans_le T.two_pow_32_le)

/-- `cmd_ps`. -/
theorem cmdPs_does (env : Env) (L : Layout K buf lo hi) (hl : Loaded K v.mem) :
    Does lo hi (fun fuel => cmdPs K fuel env v) v (psReply env) := by
  have hplain : ∀ {v : State} {fmt : String}, Loaded K v.mem → fmt ∈ literals →
      render K.target (ascii fmt) [] = some (ascii fmt) → Clean 1023 (ascii fmt) →
      Does lo hi (fun fuel => say K fuel fmt [] v) v [.text (ascii fmt)] := fun hl hfmt hrender hclean =>
    say_plain L hl hfmt hrender hclean
  unfold cmdPs
  refine (hplain hl (by decide) rfl (by decide)).bind _ fun m₁ hm₁ => ?_
  have hl₁ := hl.congr L hm₁
  refine (hplain hl₁ (by decide) rfl (by decide)).bind _ fun m₂ hm₂ => ?_
  have hl₂ := hl₁.congr L hm₂
  have hlast := fun v (hl : Loaded K v.mem) => hplain (v := v) hl
    (show "  (run-queue threads omitted in Phase 7)\n" ∈ literals by decide) rfl (by decide)
  cases hcur : env.current with
  | none => exact hlast _ hl₂
  | some cur =>
      -- `%-3u` and `%-16s` take no argument
      have hline : ∀ v : State, Loaded K v.mem →
          Does lo hi (fun fuel => say K fuel "  %-3u %-16s RUNNING\n" [cur.1.toNat, cur.2] v) v
            [.text (ascii "  ?3u ?16s RUNNING\n")] := fun v hl => say_words L hl (by decide) rfl (by decide)
      exact (hline _ hl₂).bind _ fun m₃ hm₃ => hlast _ (hl₂.congr L hm₃)

/-- `cmd_mem`. -/
theorem cmdMem_does (env : Env) (L : Layout K buf lo hi) (hl : Loaded K v.mem) :
    Does lo hi (fun fuel => cmdMem K fuel env v) v (memReply env) := by
  have hline : ∀ {v : State} {fmt : String} {front : List UInt8}, Loaded K v.mem → fmt ∈ literals →
      Clean 10 front → (∀ n, render K.target (ascii fmt) [.word n] =
        some (front ++ (numeral 10 false (n % 2 ^ K.target.wordBits) ++ ascii " MiB\n"))) → ∀ x : UInt32,
      Does lo hi (fun fuel => say K fuel fmt [x.toNat] v) v [.text (front ++ (decimal x ++ ascii " MiB\n"))] := by
    intro v fmt front hl hfmt hfront hrender x
    refine say_words L hl hfmt ?_ (hfront.append ((Clean.decimal x).append (show Clean 981 _ by decide)))
    rw [List.map_singleton, hrender, toNat_mod_word]
    rfl
  unfold cmdMem
  have htotal : ∀ n, render K.target (ascii "  Total : %u MiB\n") [.word n] = some (ascii "  Total : " ++ _) :=
    fun n => rfl
  have hused : ∀ n, render K.target (ascii "  Used  : %u MiB\n") [.word n] = some (ascii "  Used  : " ++ _) :=
    fun n => rfl
  have hfree : ∀ n, render K.target (ascii "  Free  : %u MiB\n") [.word n] = some (ascii "  Free  : " ++ _) :=
    fun n => rfl
  refine (hline hl (by decide) (by decide) htotal _).bind _ fun m₁ hm₁ => ?_
  have hl₁ := hl.congr L hm₁
  refine (hline hl₁ (by decide) (by decide) hused _).bind _ fun m₂ hm₂ => ?_
  exact hline (hl₁.congr L hm₂) (by decide) (by decide) hfree _

/-- `cmd_uptime`. -/
theorem cmdUptime_does (env : Env) (L : Layout K buf lo hi) (hl : Loaded K v.mem) :
    Does lo hi (fun fuel => cmdUptime K fuel env v) v (uptimeReply env) := by
  have hrender : ∀ n k, render K.target (ascii "  Uptime: %u min %u sec\n") [.word n, .word k] =
      some (ascii "  Uptime: " ++ (numeral 10 false (n % 2 ^ K.target.wordBits) ++ (ascii " min " ++
        (numeral 10 false (k % 2 ^ K.target.wordBits) ++ ascii " sec\n")))) := fun n k => rfl
  refine say_words L hl (by decide) ?_ ?_
  · rw [List.map_cons, List.map_singleton, hrender, toNat_mod_word, toNat_mod_word]
    rfl
  · exact (show Clean 10 _ by decide).append ((Clean.decimal _).append
      ((show Clean 5 _ by decide).append ((Clean.decimal _).append (show Clean 944 _ by decide))))

/-- `ifconfig`. -/
theorem cmdIfconfig_does (env : Env) (L : Layout K buf lo hi) (hl : Loaded K v.mem) :
    Does lo hi (fun fuel => cmdIfconfig K fuel env v) v (ifconfigReply env) := by
  unfold cmdIfconfig ifconfigReply
  cases env.net with
  | none => exact say_plain L hl (by decide) rfl (by decide)
  | some net =>
      obtain ⟨mac, ip⟩ := net
      -- `%02x` takes no argument
      have hmac : Does lo hi (fun fuel => say K fuel "  eth0  MAC: %02x:%02x:%02x:%02x:%02x:%02x\n"
          [(mac 0).toNat, (mac 1).toNat, (mac 2).toNat, (mac 3).toNat, (mac 4).toNat, (mac 5).toNat] v) v
          [.text (ascii "  eth0  MAC: ?2x:?2x:?2x:?2x:?2x:?2x\n")] := say_words L hl (by decide) rfl (by decide)
      have hrender : ∀ a b c d, render K.target (ascii "        IP:  %u.%u.%u.%u\n")
          [.word a, .word b, .word c, .word d] = some (ascii "        IP:  " ++
            (numeral 10 false (a % 2 ^ K.target.wordBits) ++ (ascii "." ++
              (numeral 10 false (b % 2 ^ K.target.wordBits) ++ (ascii "." ++
                (numeral 10 false (c % 2 ^ K.target.wordBits) ++ (ascii "." ++
                  (numeral 10 false (d % 2 ^ K.target.wordBits) ++ ascii "\n")))))))) := fun a b c d => rfl
      refine hmac.bind _ fun m₁ hm₁ => say_words L (hl.congr L hm₁) (by decide) ?_ ?_
      · simp only [List.map_cons, List.map_nil, hrender, toNat_mod_word]
        rfl
      · have hdot : Clean 1 (ascii ".") := by decide
        exact (show Clean 13 _ by decide).append ((Clean.decimal _).append (hdot.append ((Clean.decimal _).append
          (hdot.append ((Clean.decimal _).append (hdot.append
            ((Clean.decimal _).append (show Clean 879 _ by decide))))))))

/-! ## Dispatch -/

/-- The commands are compared in their order. -/
theorem findCommand_eq {cmd : Nat} {w : List UInt8} (hl : Loaded K m) (hcmd : CStr m cmd w) {cs : List Command}
    (hfuel : w.length < fuel) :
    findCommand K fuel m cmd cs = .ok (cs.find? fun c => ascii c.name = w) := by
  induction cs with
  | nil => rfl
  | cons c cs ih =>
      -- `strcmp` returns 0 for the same characters only
      have hname : c.name ∈ literals := List.mem_append_left _ (List.mem_map_of_mem (by cases c <;> decide))
      obtain ⟨r, hr, hiff⟩ := hcmd.strcmp_eq (hl c.name hname) hfuel
      rw [findCommand, hr]
      change (if r = 0 then _ else _) = _
      by_cases heq : ascii c.name = w
      · rw [if_pos (hiff.mpr heq.symm), List.find?_cons_of_pos (by simpa using heq)]
        rfl
      · rw [if_neg fun h0 => heq (hiff.mp h0).symm, List.find?_cons_of_neg (by simpa using heq), ih]

/-- A command replies. -/
theorem command_does {args : List Nat} {ws : List (List UInt8)} {c : Command} (L : Layout K buf lo hi)
    (hl : Loaded K v.mem) (hargs : Given K.target v.mem lo hi args ws) (hpath : Shows K lo hi v.mem V.path)
    {cmd : Nat} {w : List UInt8} (hcmd : CStr v.mem cmd w) (hfind : (commands.find? fun c => ascii c.name = w) = some c) :
    Does lo hi (fun fuel => dispatch K fuel V.env (cmd :: args) v) v (V.reply c ws) := by
  have hrun : ∀ fuel, w.length + 1 ≤ fuel → findCommand K fuel v.mem cmd commands = .ok (some c) :=
    fun fuel hfuel => by rw [findCommand_eq hl hcmd hfuel, hfind]
  cases c with
  | help =>
      have hsay : Does lo hi (fun fuel => cmdHelp K fuel v) v (V.reply .help ws) :=
        say_plain L hl (by decide) rfl (by decide)
      exact hsay.congr fun fuel hfuel => by rw [dispatch, hrun fuel hfuel]; rfl
  | ls =>
      suffices hls : Does lo hi (fun fuel => cmdLs K fuel (args.headD 0) v) v (V.reply .ls ws) from
        hls.congr fun fuel hfuel => by rw [dispatch, hrun fuel hfuel]; rfl
      cases hargs with
      | nil =>
          -- the root is listed without an argument
          have hroot := hl.readable L (show "/" ∈ literals by decide)
          refine (cmdLs_does L hl hpath hroot (by decide)).congr (N := 0) fun fuel _ => ?_
          change cmdLs K fuel 0 v = _
          simp only [cmdLs, ite_self, if_true]
      | cons h _ => exact cmdLs_does L hl hpath h.1 h.2
  | cat =>
      suffices hcat : Does lo hi (fun fuel => cmdCat K fuel (args.headD 0) v) v (V.reply .cat ws) from
        hcat.congr fun fuel hfuel => by rw [dispatch, hrun fuel hfuel]; rfl
      cases hargs with
      | nil => exact say_plain L hl (by decide) rfl (by decide)
      | cons h _ => exact cmdCat_does L hl hpath h.1 h.2
  | echo =>
      have hloop : Does lo hi (fun fuel => cmdEcho K fuel args v) v (V.reply .echo ws) :=
        (echoLoop_does L hl hargs).bind _ fun m' hm => say_plain L (hl.congr L hm) (by decide) rfl (by decide)
      exact hloop.congr fun fuel hfuel => by rw [dispatch, hrun fuel hfuel]; rfl
  | clear => exact (Does.event v .clear).congr fun fuel hfuel => by rw [dispatch, hrun fuel hfuel]; rfl
  | ps => exact (cmdPs_does V.env L hl).congr fun fuel hfuel => by rw [dispatch, hrun fuel hfuel]; rfl
  | mem => exact (cmdMem_does V.env L hl).congr fun fuel hfuel => by rw [dispatch, hrun fuel hfuel]; rfl
  | uptime => exact (cmdUptime_does V.env L hl).congr fun fuel hfuel => by rw [dispatch, hrun fuel hfuel]; rfl
  | reboot =>
      have hsay : Does lo hi (fun fuel => cmdReboot K fuel v) v (V.reply .reboot ws) :=
        (say_plain L hl (by decide) rfl (by decide)).bind _ fun m' _ => .event _ .reset
      exact hsay.congr fun fuel hfuel => by rw [dispatch, hrun fuel hfuel]; rfl
  | ifconfig => exact (cmdIfconfig_does V.env L hl).congr fun fuel hfuel => by rw [dispatch, hrun fuel hfuel]; rfl
  | netpoll =>
      have hsay : Does lo hi (fun fuel => cmdNetpoll K fuel v) v (V.reply .netpoll ws) :=
        .emit (say_plain L hl (by decide) rfl (by decide))
      exact hsay.congr fun fuel hfuel => by rw [dispatch, hrun fuel hfuel]; rfl

/-- `dispatch` replies to every line. -/
theorem dispatch_does {args : List Nat} {ws : List (List UInt8)} (L : Layout K buf lo hi) (hl : Loaded K v.mem)
    (hargs : Given K.target v.mem lo hi args ws) (hpath : Shows K lo hi v.mem V.path) :
    Does lo hi (fun fuel => dispatch K fuel V.env args v) v (V.replyTo ws) := by
  cases hargs with
  | nil => exact .done v
  | @cons cmd w args ws hcmd hrest =>
      cases hfind : commands.find? fun c => ascii c.name = w with
      | some c =>
          rw [View.replyTo, hfind]
          exact command_does L hl hrest hpath hcmd.1.outside.1 hfind
      | none =>
          -- no command has this name
          rw [View.replyTo, hfind]
          have hclean := (hcmd.1.clean hcmd.2).append (show Clean 768 (ascii ": command not found\n") by decide)
          have hsay : Does lo hi (fun fuel => say K fuel "%s: command not found\n" [cmd] v) v
              [.text (w ++ ascii ": command not found\n")] :=
            say_str L hl (by decide) hcmd.1 (by simp [render, ascii, Printf.convert]) hclean
          refine hsay.congr (N := w.length + 1) fun fuel hfuel => ?_
          rw [dispatch, findCommand_eq hl hcmd.1.outside.1 hfuel, hfind]
          rfl

/-! ## Lines -/

/-- What `readline` leaves in the buffer. -/
def lineOf (polls : List (Option Keyboard.KeyEvent)) : List UInt8 := (typed polls).foldl (rawEdit 255) []

/-- The words that `parse_args` makes of it. -/
def argsOf (polls : List (Option Keyboard.KeyEvent)) : List (List UInt8) := (words 0x20 (lineOf polls)).take 16

/-- A line is no longer than the room for it. -/
theorem length_foldl_rawEdit_le {cap : Nat} (cs : List UInt8) {raw : List UInt8} (h : raw.length ≤ cap) :
    (cs.foldl (rawEdit cap) raw).length ≤ cap := by
  induction cs generalizing raw with
  | nil => exact h
  | cons c cs ih =>
      apply ih
      rw [rawEdit]
      split_ifs
      · rw [List.length_dropLast]
        omega
      · rw [List.length_append, List.length_singleton]
        omega
      · exact h

/-- The buffer keeps its size. -/
theorem length_readLoop {cap : Nat} {polls : List (Option Keyboard.KeyEvent)} {r r' : Reader}
    (h : readLoop cap polls r = some r') : r'.buf.length = r.buf.length := by
  have hstore : ∀ (r : Reader) i c, (r.store i c).buf.length = r.buf.length := fun r i c => List.length_set
  fun_induction readLoop cap polls r with
  | case1 => exact nomatch h
  | case2 polls r ih => exact ih h
  | case3 e polls r hc ih => exact ih h
  | case4 e polls r hc he =>
      obtain rfl := Option.some.inj h
      exact hstore _ _ _
  | case5 e polls r hc he hb ih => exact ih h
  | case6 e polls r hc he hb hs r' ih => exact (ih h).trans (hstore _ _ _)
  | case7 e polls r hc he hb hs ih => exact ih h

/-- `readline` leaves the line in the buffer. -/
theorem readline_leaves {polls : List (Option Keyboard.KeyEvent)} (henter : ∃ e ∈ polls.reduceOption, isEnter e)
    (m : Mem) (buf : Nat) : ∃ r, readline polls = some r ∧ r.buf.length = 256 ∧
      CStr (Mem.storeList m buf r.buf) buf (lineOf polls) ∧ (lineOf polls).length ≤ 255 := by
  obtain ⟨r, hr⟩ := LineEditor.readLoop_eq henter (Reader.holds_start 255)
  have hlen : r.buf.length = 256 := (length_readLoop hr.returned).trans List.length_replicate
  -- behind the line there is a NUL, and what was there before
  obtain ⟨rest, hbuf⟩ := hr.held
  have hshort : (lineOf polls).length ≤ 255 := length_foldl_rawEdit_le _ (Nat.zero_le _)
  have hsplit : r.buf = lineOf polls ++ 0 :: rest := hbuf
  have hfits : (lineOf polls).length < r.buf.length := by omega
  refine ⟨r, hr.returned, hlen, Printf.cStr_of_getD hr.nul (fun i hi => ?_) ?_, hshort⟩
  · have hi' : i < (lineOf polls).length := hi
    rw [Mem.storeList_apply _ (hi'.trans hfits), hsplit, List.getD_append _ _ _ _ hi']
  · rw [Mem.storeList_apply _ hfits, hsplit, List.getD_append_right _ _ _ _ le_rfl, Nat.sub_self]
    exact rfl

section Fuel

open CommandLine (Parser skipSpaces skipWord argLoop parseArgs)

variable {p p' : Parser} {rounds : Nat}

/-- More fuel does not change a result. -/
theorem skipSpaces_succ (h : skipSpaces fuel p = .ok p') : skipSpaces (fuel + 1) p = .ok p' := by
  induction fuel generalizing p with
  | zero => exact nomatch h
  | succ fuel ih =>
      rw [skipSpaces] at h ⊢
      split_ifs at h ⊢
      · exact ih h
      · exact h

theorem skipWord_succ (h : skipWord fuel p = .ok p') : skipWord (fuel + 1) p = .ok p' := by
  induction fuel generalizing p with
  | zero => exact nomatch h
  | succ fuel ih =>
      rw [skipWord] at h ⊢
      split_ifs at h ⊢
      · exact ih h
      · exact h

theorem argLoop_succ (h : argLoop fuel rounds p = .ok p') : argLoop (fuel + 1) (rounds + 1) p = .ok p' := by
  induction rounds generalizing p with
  | zero => exact nomatch h
  | succ rounds ih =>
      rw [argLoop] at h ⊢
      split_ifs at h ⊢
      · obtain ⟨q, hword, h⟩ := bind_eq_ok.mp h
        rw [skipWord_succ hword]
        change (if q.mem q.p ≠ 0 then _ else _) = _
        split_ifs at h ⊢
        · obtain ⟨q', hspaces, h⟩ := bind_eq_ok.mp h
          rw [skipSpaces_succ hspaces]
          exact ih h
        · exact ih h
      · exact h

theorem parseArgs_of_le {buf N : Nat} (h : parseArgs N m buf = .ok p') (hfuel : N ≤ fuel) :
    parseArgs fuel m buf = .ok p' := by
  induction fuel, hfuel using Nat.le_induction with
  | base => exact h
  | succ fuel _ ih =>
      obtain ⟨q, hspaces, hloop⟩ := bind_eq_ok.mp ih
      rw [parseArgs, skipSpaces_succ hspaces]
      exact argLoop_succ hloop

end Fuel

/-- `parse_args` finds the words, and stays in the buffer. -/
theorem parseArgs_given {line : List UInt8} (L : Layout K buf lo hi) (h : CStr m buf line)
    (hlen : line.length ≤ 255) : ∃ p, Printf.Terminates (fun fuel => CommandLine.parseArgs fuel m buf) p ∧
      Given K.target p.mem lo hi p.args ((words 0x20 line).take 16) ∧
      ∀ x, x < buf ∨ buf + 256 ≤ x → p.mem x = m x := by
  obtain ⟨hpos, hbuf⟩ := L.buf_lt
  have hapart := L.buf_apart
  have hshort := List.length_dropWhile_le (· == 0x20) line
  -- the line is no longer than 255 characters, so 256 rounds are enough
  obtain ⟨q, hrun, hadv⟩ := @CommandLine.skipSpaces_eq ⟨m, buf, [], [buf]⟩ line 256 h (by omega)
  obtain ⟨p, new, hrun', hcuts⟩ :=
    @CommandLine.argLoop_eq q _ 256 256 hadv.str (head?_dropWhile_ne line) (by omega) (by omega)
  have hdist : q.p + (line.dropWhile (· == 0x20)).length = buf + line.length := hadv.dist
  have hle : buf ≤ q.p := hadv.le
  have hq : q.args = [] := hadv.args
  have hargs : p.args = new := by rw [hcuts.args, hq, List.nil_append]
  have hwords := hcuts.words
  rw [words_dropWhile, show q.argc = 0 by rw [CommandLine.Parser.argc, hq]; rfl] at hwords
  have hparse : CommandLine.parseArgs 256 m buf = .ok p := by
    rw [CommandLine.parseArgs, hrun]
    exact hrun'
  refine ⟨p, ⟨256, fun fuel hfuel => parseArgs_of_le hparse hfuel⟩, ?_, fun x hx => ?_⟩
  · rw [hargs]
    refine hwords.imp fun a w hword => ?_
    obtain ⟨hstr, hlow, hhigh⟩ := hword
    exact ⟨⟨⟨hstr, by omega⟩, by omega, by omega⟩, by omega⟩
  · rw [hcuts.frame x (by omega)]
    exact congrFun hadv.mem x

/-- Memory is as it was, the locals and the line apart. -/
def Untouched (buf lo hi : Nat) (m m' : Mem) : Prop :=
  ∀ x, (x < lo ∨ hi ≤ x) → (x < buf ∨ buf + 256 ≤ x) → m' x = m x

/-- A round behind `readline`. -/
theorem round_does {line : List UInt8} (L : Layout K buf lo hi) (hl : Loaded K v.mem) (h : CStr v.mem buf line)
    (hlen : line.length ≤ 255) (hpath : ∀ m, Untouched buf lo hi v.mem m → Shows K lo hi m V.path) :
    ∃ m', Printf.Terminates (fun fuel => round K fuel V.env buf v)
      ⟨m', v.out ++ .color .lightGray .black :: V.replyTo ((words 0x20 line).take 16)⟩ ∧
      Untouched buf lo hi v.mem m' := by
  obtain ⟨p, ⟨N, hN⟩, hgiven, hframe⟩ := parseArgs_given L h hlen
  -- `parse_args` writes into the line only
  have hbuf : ∀ w ∈ literals, CStr p.mem (K.lit w) (ascii w) := fun w hw => by
    have hout := L.lit_buf w hw
    exact (hl w hw).congr fun x h₁ h₂ => hframe x (by omega)
  obtain ⟨m', ⟨M, hM⟩, hm⟩ := dispatch_does (v := { v.emit (.color .lightGray .black) with mem := p.mem }) L hbuf
    hgiven (hpath p.mem fun x _ hx => hframe x hx)
  refine ⟨m', ⟨max N M, fun fuel hfuel => ?_⟩, fun x h₁ h₂ => (hm x h₁).trans (hframe x h₂)⟩
  have hparse : CommandLine.parseArgs fuel v.mem buf = .ok p := hN fuel ((le_max_left N M).trans hfuel)
  have hrun := hM fuel ((le_max_right N M).trans hfuel)
  change round K fuel V.env buf v = _
  rw [round, hparse, List.append_cons]
  exact hrun

/-- What a round does, on what is typed: `r` is what `readline` made of it. -/
def View.roundEvents (V : View) (polls : List (Option Keyboard.KeyEvent)) (r : Reader) : List Event :=
  [.color .lightGreen .black, .text (ascii "aerogel> "), .color .white .black, .echo r.echo,
    .color .lightGray .black] ++ V.replyTo (argsOf polls)

/-- A round of the shell replies to what is typed. -/
theorem shellRound_does {polls : List (Option Keyboard.KeyEvent)} (L : Layout K buf lo hi) (hl : Loaded K v.mem)
    (henter : ∃ e ∈ polls.reduceOption, isEnter e)
    (hpath : ∀ m, Untouched buf lo hi v.mem m → Shows K lo hi m V.path) :
    ∃ r m', readline polls = some r ∧
      Printf.Terminates (fun fuel => shellRound K fuel V.env buf polls v) ⟨m', v.out ++ V.roundEvents polls r⟩ ∧
      Untouched buf lo hi v.mem m' := by
  -- the prompt
  have hsay : Does lo hi (fun fuel => say K fuel "aerogel> " [] (v.emit (.color .lightGreen .black))) v
      [.color .lightGreen .black, .text (ascii "aerogel> ")] := .emit (say_plain L hl (by decide) rfl (by decide))
  obtain ⟨m₁, ⟨N, hN⟩, hm₁⟩ := hsay
  -- the line
  obtain ⟨r, hread, hsize, hline, hlen⟩ := readline_leaves henter m₁ buf
  have hbuf : ∀ x, x < buf ∨ buf + 256 ≤ x → Mem.storeList m₁ buf r.buf x = m₁ x := fun x hx =>
    Mem.storeList_apply_of_outside _ (by omega)
  have hl₂ : Loaded K (Mem.storeList m₁ buf r.buf) := fun w hw => by
    have hout := L.lit_buf w hw
    exact ((hl.congr L hm₁) w hw).congr fun x h₁ h₂ => hbuf x (by omega)
  have hm₂ : Untouched buf lo hi v.mem (Mem.storeList m₁ buf r.buf) := fun x h₁ h₂ => (hbuf x h₂).trans (hm₁ x h₁)
  obtain ⟨m', ⟨M, hM⟩, hm'⟩ := round_does
    (v := ⟨Mem.storeList m₁ buf r.buf, v.out ++ [.color .lightGreen .black, .text (ascii "aerogel> ")] ++
      [.color .white .black] ++ [.echo r.echo]⟩) L hl₂ hline hlen
    fun m hm => hpath m fun x h₁ h₂ => (hm x h₁ h₂).trans (hm₂ x h₁ h₂)
  refine ⟨r, m', hread, ⟨max N M, fun fuel hfuel => ?_⟩, fun x h₁ h₂ => (hm' x h₁ h₂).trans (hm₂ x h₁ h₂)⟩
  have hprompt : say K fuel "aerogel> " [] (v.emit (.color .lightGreen .black)) = _ :=
    hN fuel ((le_max_left N M).trans hfuel)
  have hround := hM fuel ((le_max_right N M).trans hfuel)
  change shellRound K fuel V.env buf polls v = _
  rw [shellRound, hprompt, View.roundEvents, argsOf]
  -- the events are the same, in another bracketing
  simp only [List.append_assoc, List.cons_append, List.nil_append] at hround ⊢
  refine Eq.trans ?_ hround
  dsimp only [bind, Except.bind]
  rw [hread]
  simp [State.emit]

end Shell

end Aerogel
