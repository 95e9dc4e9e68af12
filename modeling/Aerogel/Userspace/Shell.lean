import Aerogel.Drivers.VgaText
import Aerogel.Filesystem.Vfs
import Aerogel.Foundations.RingRecords
import Aerogel.Libc.Kprint
import Aerogel.Userspace.CommandLine
import Aerogel.Userspace.LineEditor

/-! # The shell

`dispatch` and the commands of `shell.c`. What a command does is a list of `Event`s: texts that `kprintf` hands
to its backend, colours and a cleared screen, and what goes to other parts of the kernel. Nodes are addresses, and
`vfs.c` is called through `VfsCalls`, whatever file system is behind it. The strings of the source are literals
somewhere in memory. -/

namespace Aerogel

namespace Shell

open Printf (kprint)

/-! ## Surroundings -/

/-- What a command does. -/
inductive Event
  /-- `kprintf` prints a text. -/
  | text (s : List UInt8)
  /-- `vga_set_color`. -/
  | color (fg bg : VgaColor)
  /-- `vga_clear`. -/
  | clear
  /-- What `readline` echoes. -/
  | echo (s : List UInt8)
  /-- `net_poll`. -/
  | netPoll
  /-- `outb(0x64, 0xFE)`. -/
  | reset

/-- The functions of `vfs.c`, for some file system. No file system sets `close`. -/
structure VfsCalls where
  /-- `vfs_open(path, VFS_O_RDONLY)`, with fuel. -/
  openPath : Nat → Mem → Nat → Except Halt (Option Nat)
  /-- `vfs_read(n, off, sz, buf)`: the result and the bytes that it copies. -/
  read : Mem → Nat → Nat → Nat → Nat × List UInt8
  /-- `vfs_readdir(n, idx)`, 0 for NULL. -/
  readdir : Mem → Nat → Nat → Nat
  /-- `n->flags`. -/
  flags : Mem → Nat → Nat
  /-- The address of `n->name`. -/
  name : Nat → Nat

/-- What other parts of the kernel answer. -/
structure Env where
  /-- `pmm_total()`. -/
  total : UInt64
  /-- `pmm_used()`. -/
  used : UInt64
  /-- `pmm_available()`. -/
  available : UInt64
  /-- `pit_ticks()`. -/
  ticks : UInt64
  /-- `thread_current()`: its `id` and where its `name` is. -/
  current : Option (UInt32 × Nat)
  /-- `net_up()`, and then `net_get_mac` and `net_our_ip()`. -/
  net : Option ((Fin 6 → UInt8) × UInt32)

/-- The shell in its surroundings. -/
structure Machine where
  /-- The target. -/
  target : Target
  /-- The file systems. -/
  vfs : VfsCalls
  /-- Where the literals are. -/
  lit : String → Nat
  /-- Where the buffer of `kprintf` is when it is called with a format. -/
  frame : String → Nat
  /-- Where `chunk` is. -/
  chunk : Nat
  /-- What stands behind the arguments of a call. -/
  junk : Nat → Nat

/-- Memory, and what was done. -/
structure State where
  /-- Memory. -/
  mem : Mem
  /-- The events. -/
  out : List Event

/-- An event. -/
def State.emit (v : State) (e : Event) : State := { v with out := v.out ++ [e] }

variable (K : Machine) (fuel : Nat)

/-- `kprintf(fmt, ...)`. -/
def say (fmt : String) (args : List Nat) (v : State) : Except Halt State := do
  let (m, s) ← kprint K.target fuel v.mem (K.frame fmt) (K.lit fmt) fun i => args.getD i (K.junk i)
  return { v with mem := m }.emit (.text s)

/-! ## Commands -/

/-- `cmd_help`. -/
def cmdHelp (v : State) : Except Halt State :=
  say K fuel "Commands: help ls cat echo clear ps mem uptime reboot ifconfig netpoll\n" [] v

/-- The loop of `cmd_ls`, from entry `i` on. -/
def lsLoop (dir : Nat) : Nat → Nat → State → Except Halt State
  | 0, _, _ => .error .diverges
  | rounds + 1, i, v =>
    let e := K.vfs.readdir v.mem dir i
    -- NULL ends the listing
    if e = 0 then .ok v
    else do
      let isDir := K.vfs.flags v.mem e &&& vfsDir ≠ 0
      let v := v.emit (.color (if isDir then .lightBlue else .lightGray) .black)
      let v ← say K fuel "  %s%s\n" [K.vfs.name e, if isDir then K.lit "/" else K.lit ""] v
      lsLoop dir rounds ((i + 1) % 2 ^ 32) v

/-- `cmd_ls`; the path is 0 for NULL. -/
def cmdLs (path : Nat) (v : State) : Except Halt State := do
  -- without an argument, the root
  let path := if path = 0 then K.lit "/" else path
  match ← K.vfs.openPath fuel v.mem path with
  | none => say K fuel "ls: no such directory: %s\n" [path] v
  | some dir => do
    let v ← lsLoop K fuel dir fuel 0 v
    return v.emit (.color .lightGray .black)

/-- The loop of `cmd_cat`, from `off` on. -/
def catLoop (f : Nat) : Nat → Nat → State → Except Halt State
  | 0, _, _ => .error .diverges
  | rounds + 1, off, v =>
    -- one byte of `chunk` is left for the NUL
    let (n, bytes) := K.vfs.read v.mem f off 63
    let m := Mem.storeList v.mem K.chunk bytes
    if 0 < n then do
      let v ← say K fuel "%s" [K.chunk] { v with mem := Function.update m (K.chunk + n) 0 }
      catLoop f rounds ((off + n) % 2 ^ 32) v
    else .ok { v with mem := m }

/-- `cmd_cat`; the path is 0 for NULL. -/
def cmdCat (path : Nat) (v : State) : Except Halt State := do
  if path = 0 then say K fuel "usage: cat <path>\n" [] v
  else
    match ← K.vfs.openPath fuel v.mem path with
    | none => say K fuel "cat: not found: %s\n" [path] v
    | some f =>
      -- what is not a file is reported like what is not there
      if K.vfs.flags v.mem f &&& vfsFile = 0 then say K fuel "cat: not found: %s\n" [path] v
      else catLoop K fuel f fuel 0 v

/-- `cmd_ps`. -/
def cmdPs (env : Env) (v : State) : Except Halt State := do
  let v ← say K fuel "  ID  NAME             STATE\n" [] v
  let v ← say K fuel "  --  ---------------  --------\n" [] v
  let v ← match env.current with
    | some (id, name) => say K fuel "  %-3u %-16s RUNNING\n" [id.toNat, name] v
    | none => .ok v
  say K fuel "  (run-queue threads omitted in Phase 7)\n" [] v

/-- `(u32)(bytes >> 20)`. -/
def mib (bytes : UInt64) : UInt32 := (bytes >>> 20).toUInt32

/-- `cmd_mem`. -/
def cmdMem (env : Env) (v : State) : Except Halt State := do
  let v ← say K fuel "  Total : %u MiB\n" [(mib env.total).toNat] v
  let v ← say K fuel "  Used  : %u MiB\n" [(mib env.used).toNat] v
  say K fuel "  Free  : %u MiB\n" [(mib env.available).toNat] v

/-- `cmd_uptime`. -/
def cmdUptime (env : Env) (v : State) : Except Halt State :=
  let secs := env.ticks.toUInt32 / 100
  say K fuel "  Uptime: %u min %u sec\n" [(secs / 60).toNat, (secs % 60).toNat] v

/-- `cmd_reboot`. Nothing happens after the reset: the source does not return from here. -/
def cmdReboot (v : State) : Except Halt State := do
  let v ← say K fuel "Rebooting...\n" [] v
  return v.emit .reset

/-- The loop of `echo` over the arguments that are left. -/
def echoLoop : List Nat → State → Except Halt State
  | [], v => .ok v
  | a :: args, v => do
    let v ← say K fuel "%s%s" [a, if args = [] then K.lit "" else K.lit " "] v
    echoLoop args v

/-- `echo`. -/
def cmdEcho (args : List Nat) (v : State) : Except Halt State := do
  let v ← echoLoop K fuel args v
  say K fuel "\n" [] v

/-- `ifconfig`. -/
def cmdIfconfig (env : Env) (v : State) : Except Halt State :=
  match env.net with
  | some (mac, ip) => do
    let v ← say K fuel "  eth0  MAC: %02x:%02x:%02x:%02x:%02x:%02x\n"
      [(mac 0).toNat, (mac 1).toNat, (mac 2).toNat, (mac 3).toNat, (mac 4).toNat, (mac 5).toNat] v
    say K fuel "        IP:  %u.%u.%u.%u\n" [((ip >>> 24) &&& 0xFF).toNat, ((ip >>> 16) &&& 0xFF).toNat,
      ((ip >>> 8) &&& 0xFF).toNat, (ip &&& 0xFF).toNat] v
  | none => say K fuel "  No network interface\n" [] v

/-- `netpoll`. -/
def cmdNetpoll (v : State) : Except Halt State := say K fuel "Network polled.\n" [] (v.emit .netPoll)

/-! ## Dispatch -/

/-- The commands. -/
inductive Command
  | help | ls | cat | echo | clear | ps | mem | uptime | reboot | ifconfig | netpoll
  deriving DecidableEq

/-- What they are called. -/
def Command.name : Command → String
  | .help => "help"
  | .ls => "ls"
  | .cat => "cat"
  | .echo => "echo"
  | .clear => "clear"
  | .ps => "ps"
  | .mem => "mem"
  | .uptime => "uptime"
  | .reboot => "reboot"
  | .ifconfig => "ifconfig"
  | .netpoll => "netpoll"

/-- The commands in the order of `dispatch`. -/
def commands : List Command :=
  [.help, .ls, .cat, .echo, .clear, .ps, .mem, .uptime, .reboot, .ifconfig, .netpoll]

/-- The first of the commands whose name `strcmp` finds equal to `cmd`. -/
def findCommand (m : Mem) (cmd : Nat) : List Command → Except Halt (Option Command)
  | [] => .ok none
  | c :: cs => do
    let r ← strcmp m m fuel cmd (K.lit c.name)
    if r = 0 then return some c
    findCommand m cmd cs

/-- `dispatch`, on `args[0]` to `args[argc - 1]`. -/
def dispatch (env : Env) (args : List Nat) (v : State) : Except Halt State :=
  match args with
  | [] => .ok v
  | cmd :: rest => do
    match ← findCommand K fuel v.mem cmd commands with
    -- `argc > 1 ? args[1] : NULL` for `ls` and `cat`
    | some .help => cmdHelp K fuel v
    | some .ls => cmdLs K fuel (rest.headD 0) v
    | some .cat => cmdCat K fuel (rest.headD 0) v
    | some .echo => cmdEcho K fuel rest v
    | some .clear => return v.emit .clear
    | some .ps => cmdPs K fuel env v
    | some .mem => cmdMem K fuel env v
    | some .uptime => cmdUptime K fuel env v
    | some .reboot => cmdReboot K fuel v
    | some .ifconfig => cmdIfconfig K fuel env v
    | some .netpoll => cmdNetpoll K fuel v
    | none => say K fuel "%s: command not found\n" [cmd] v

/-- A round of `shell_run` behind `readline`, which has left the line in `buf`. -/
def round (env : Env) (buf : Nat) (v : State) : Except Halt State := do
  -- the words are cut out of the line in place, and `args` points into it
  let p ← CommandLine.parseArgs fuel v.mem buf
  dispatch K fuel env p.args { v.emit (.color .lightGray .black) with mem := p.mem }

/-- A round of `shell_run`, on what `keyboard_poll` answers. `readline` waits for Enter. -/
def shellRound (env : Env) (buf : Nat) (polls : List (Option Keyboard.KeyEvent)) (v : State) :
    Except Halt State := do
  let v ← say K fuel "aerogel> " [] (v.emit (.color .lightGreen .black))
  let v := v.emit (.color .white .black)
  match LineEditor.readline polls with
  | none => .error .diverges
  | some r => round K fuel env buf { v.emit (.echo r.echo) with mem := Mem.storeList v.mem buf r.buf }

end Shell

end Aerogel
