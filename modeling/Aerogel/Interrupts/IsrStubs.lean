import Aerogel.Foundations.WordStack
import Aerogel.Machine

/-! # The way into an interrupt handler and back: `idt.c` and `isr.asm`

The processor finds the stub of a vector in the descriptor table that `idt_init` has filled, saves the
interrupted program's place on its stack and jumps there. The stubs make every stack look alike, with or
without an error code, and the common stub saves the registers, calls `isr_dispatch` with the address of all
this, and takes it down again. The assembly of both targets is written as operations of `Cpu`. -/

namespace Aerogel

namespace Isr

/-- A machine word. -/
abbrev Word (T : Target) : Type := BitVec (8 * T.ptrBytes)

/-- The general registers that occur in `isr.asm`; the 32-bit and the 64-bit one have the same name here. -/
inductive Reg
  | ax | bx | cx | dx | bp | si | di | r8 | r9 | r10 | r11 | r12 | r13 | r14 | r15
  deriving DecidableEq, Repr

/-- The data segment registers that occur in `isr.asm`. -/
inductive Seg
  | ds | es | fs | gs
  deriving DecidableEq, Repr

/-- The machine of a target, with what an interrupt saves. -/
structure Machine (T : Target) where
  /-- General registers, stack pointer, program counter and memory. -/
  cpu : Cpu Reg T.ptrBytes
  /-- The data segment registers. -/
  seg : Seg → BitVec 16
  /-- The code segment. -/
  cs : BitVec 16
  /-- The stack segment. -/
  ss : BitVec 16
  /-- The flags. -/
  flags : Word T

/-- The general registers of a target. -/
def generalRegs : Target → List Reg
  | .x86 => [.ax, .cx, .dx, .bx, .bp, .si, .di]
  | .x86_64 => [.ax, .bx, .cx, .dx, .bp, .si, .di, .r8, .r9, .r10, .r11, .r12, .r13, .r14, .r15]

/-! ## `idt.c` -/

/-- The fields of `idt_entry_t` on x86. -/
inductive Gate32Field
  | offsetLow | selector | zero | flags | offsetHigh
  deriving DecidableEq, Repr

/-- The fields of `idt_entry_t` on x86_64. -/
inductive Gate64Field
  | offsetLow | selector | ist | flags | offsetMid | offsetHigh | zero
  deriving DecidableEq, Repr

/-- `idt_entry_t` on x86. -/
def gate32 : StructLayout Gate32Field where
  off
    | .offsetLow => 0 | .selector => 2 | .zero => 4 | .flags => 5 | .offsetHigh => 6
  width
    | .offsetLow => 2 | .selector => 2 | .zero => 1 | .flags => 1 | .offsetHigh => 2
  size := 8
  inside := by intro f; cases f <;> decide
  disjoint := by intro f g h; cases f <;> cases g <;> first | exact absurd rfl h | decide

/-- `idt_entry_t` on x86_64. -/
def gate64 : StructLayout Gate64Field where
  off
    | .offsetLow => 0 | .selector => 2 | .ist => 4 | .flags => 5 | .offsetMid => 6 | .offsetHigh => 8
    | .zero => 12
  width
    | .offsetLow => 2 | .selector => 2 | .ist => 1 | .flags => 1 | .offsetMid => 2 | .offsetHigh => 4
    | .zero => 4
  size := 16
  inside := by intro f; cases f <;> decide
  disjoint := by intro f g h; cases f <;> cases g <;> first | exact absurd rfl h | decide

/-- `sizeof(idt_entry_t)`. -/
def gateSize : Target → Nat
  | .x86 => 8
  | .x86_64 => 16

/-- `idt_set_gate`, with `idt` at the given address. -/
def idtSetGate (T : Target) (m : Mem) (idt num base sel flags : Nat) : Mem :=
  match T with
  | .x86 =>
    let a := idt + num * 8
    let m := gate32.set m a .offsetLow (base &&& 0xFFFF)
    let m := gate32.set m a .offsetHigh ((base >>> 16) &&& 0xFFFF)
    let m := gate32.set m a .selector sel
    let m := gate32.set m a .zero 0
    gate32.set m a .flags flags
  | .x86_64 =>
    let a := idt + num * 16
    let m := gate64.set m a .offsetLow (base &&& 0xFFFF)
    let m := gate64.set m a .offsetMid ((base >>> 16) &&& 0xFFFF)
    let m := gate64.set m a .offsetHigh ((base >>> 32) &&& 0xFFFFFFFF)
    let m := gate64.set m a .selector sel
    let m := gate64.set m a .ist 0
    let m := gate64.set m a .flags flags
    gate64.set m a .zero 0

/-- The loop of `idt_init`, for the first `n` stubs. -/
def idtGates (T : Target) (m : Mem) (idt : Nat) (stubs : Nat → Word T) : Nat → Mem
  | 0 => m
  | n + 1 => idtSetGate T (idtGates T m idt stubs n) idt n (stubs n).toNat 0x08 0x8E

/-- `idt_init`, with `idt` at the given address and the stubs where the linker put them. -/
def idtInit (T : Target) (m : Mem) (idt : Nat) (stubs : Nat → Word T) : Mem :=
  idtGates T m idt stubs 48

/-! ## The processor -/

/-- What the processor reads from an entry of the table. -/
structure Gate (T : Target) where
  /-- The address of the handler. -/
  offset : Word T
  /-- Its code segment. -/
  selector : BitVec 16
  /-- Present bit, privilege and type. -/
  attr : BitVec 8
  deriving DecidableEq

/-- The gate of a vector. -/
def gateAt (T : Target) (m : Mem) (idt num : Nat) : Gate T :=
  match T with
  | .x86 =>
    let a := idt + num * 8
    { offset := BitVec.ofNat _ (gate32.get m a .offsetLow + 2 ^ 16 * gate32.get m a .offsetHigh)
      selector := BitVec.ofNat _ (gate32.get m a .selector)
      attr := BitVec.ofNat _ (gate32.get m a .flags) }
  | .x86_64 =>
    let a := idt + num * 16
    { offset := BitVec.ofNat _ (gate64.get m a .offsetLow + 2 ^ 16 * gate64.get m a .offsetMid +
        2 ^ 32 * gate64.get m a .offsetHigh)
      selector := BitVec.ofNat _ (gate64.get m a .selector)
      attr := BitVec.ofNat _ (gate64.get m a .flags) }

namespace Machine

variable {T : Target}

/-- Where the processor begins to save: the stack pointer, on x86_64 rounded down to 16 bytes. -/
def saveBase : (T : Target) → Machine T → Word T
  | .x86, s => s.cpu.sp
  | .x86_64, s => s.cpu.sp &&& ~~~0xF

/-- What the processor saves, in the order it is pushed. -/
def saved : (T : Target) → Machine T → List (Word T)
  | .x86, s => [s.flags, s.cs.setWidth _, s.cpu.pc]
  | .x86_64, s => [s.ss.setWidth _, s.cpu.sp, s.flags, s.cs.setWidth _, s.cpu.pc]

/-- TF, IF, NT, RF and VM, which an interrupt gate clears. -/
def clearedFlags : Nat := 0x34300

/-- An interrupt without change of privilege, through a gate, with an error code if the exception has
one. -/
def deliver (s : Machine T) (g : Gate T) (err : Option (Word T)) : Machine T :=
  { s with
    cpu := { (s.saved ++ err.toList).foldl Cpu.pushWord { s.cpu with sp := s.saveBase } with
      pc := g.offset }
    cs := g.selector
    flags := s.flags &&& ~~~(BitVec.ofNat _ clearedFlags) }

/-- `push`. -/
def pushWord (s : Machine T) (v : Word T) : Machine T := { s with cpu := s.cpu.pushWord v }

/-- `push r`. -/
def push (s : Machine T) (r : Reg) : Machine T := { s with cpu := s.cpu.push r }

/-- `pop r`. -/
def pop (s : Machine T) (r : Reg) : Machine T := { s with cpu := s.cpu.pop r }

/-- `add sp, d`. -/
def addSp (s : Machine T) (d : Nat) : Machine T := { s with cpu := s.cpu.addSp d }

/-- `mov r, v`. -/
def mov (s : Machine T) (r : Reg) (v : Word T) : Machine T :=
  { s with cpu := { s.cpu with regs := Function.update s.cpu.regs r v } }

/-- A word with other low 16 bits. -/
def setLow (v : Word T) (low : BitVec 16) : Word T := (v &&& ~~~0xFFFF) ||| low.setWidth _

/-- `mov ax, v`: the other bits of the register stay. -/
def movAx (s : Machine T) (v : BitVec 16) : Machine T := s.mov .ax (setLow (s.cpu.regs .ax) v)

/-- `mov r, ax` for a segment register. -/
def movSegAx (s : Machine T) (r : Seg) : Machine T :=
  { s with seg := Function.update s.seg r ((s.cpu.regs .ax).setWidth 16) }

/-- `pusha`. -/
def pusha (s : Machine T) : Machine T :=
  let sp := s.cpu.sp
  (((((((s.push .ax).push .cx).push .dx).push .bx).pushWord sp).push .bp).push .si).push .di

/-- The registers of `popa`; the stack pointer is passed over. -/
def popaSlots : List (Option Reg) :=
  [some .di, some .si, some .bp, none, some .bx, some .dx, some .cx, some .ax]

/-- `popa`. -/
def popa (s : Machine T) : Machine T := { s with cpu := popaSlots.foldl Cpu.popSlot s.cpu }

/-- `iret` and `iretq` without change of privilege. -/
def iret : (T : Target) → Machine T → Machine T
  | .x86, s =>
    { s with
      cpu := { s.cpu with
        pc := s.cpu.stackWord 0
        sp := s.cpu.sp + BitVec.ofNat _ 12 }
      cs := (s.cpu.stackWord 4).setWidth 16
      flags := s.cpu.stackWord 8 }
  | .x86_64, s =>
    { s with
      cpu := { s.cpu with
        pc := s.cpu.stackWord 0
        sp := s.cpu.stackWord 24 }
      cs := (s.cpu.stackWord 8).setWidth 16
      flags := s.cpu.stackWord 16
      ss := (s.cpu.stackWord 32).setWidth 16 }

end Machine

/-! ## `isr.asm` -/

/-- The vectors whose stub is an `ISR_ERR`. -/
def isrErr : List Nat := [8, 10, 11, 12, 13, 14, 17, 21, 30]

/-- The stub `isr_n`, up to its jump. -/
def isrStub {T : Target} (n : Nat) (s : Machine T) : Machine T :=
  let s := if n ∈ isrErr then s else s.pushWord 0
  s.pushWord (BitVec.ofNat _ n)

/-- Where the linker put the code. -/
structure StubAddrs (T : Target) where
  /-- `isr_n`. -/
  stubs : Nat → Word T
  /-- `isr_dispatch`. -/
  isrDispatch : Word T
  /-- What follows the call in `isr_common_stub`. -/
  afterCall : Word T

/-- `isr_common_stub` as far as the call of `isr_dispatch`. -/
def commonEntry : (T : Target) → StubAddrs T → Machine T → Machine T
  | .x86, K, s =>
    let s := s.pusha
    let s := s.movAx (s.seg .ds)
    let s := s.push .ax
    let s := s.movAx 0x10
    let s := s.movSegAx .ds
    let s := s.movSegAx .es
    let s := s.movSegAx .fs
    let s := s.movSegAx .gs
    let s := s.pushWord s.cpu.sp
    { s with cpu := s.cpu.call K.isrDispatch K.afterCall }
  | .x86_64, K, s =>
    let s := s.push .ax
    let s := s.push .bx
    let s := s.push .cx
    let s := s.push .dx
    let s := s.push .bp
    let s := s.push .si
    let s := s.push .di
    let s := s.push .r8
    let s := s.push .r9
    let s := s.push .r10
    let s := s.push .r11
    let s := s.push .r12
    let s := s.push .r13
    let s := s.push .r14
    let s := s.push .r15
    let s := s.mov .di s.cpu.sp
    { s with cpu := s.cpu.call K.isrDispatch K.afterCall }

/-- The registers that `isr_common_stub` pops on x86_64. -/
def poppedRegs : List Reg :=
  [.r15, .r14, .r13, .r12, .r11, .r10, .r9, .r8, .di, .si, .bp, .dx, .cx, .bx, .ax]

/-- `isr_common_stub` from behind the call on. -/
def commonExit : (T : Target) → Machine T → Machine T
  | .x86, s =>
    let s := s.addSp 4
    let s := s.pop .ax
    let s := s.movSegAx .ds
    let s := s.movSegAx .es
    let s := s.movSegAx .fs
    let s := s.movSegAx .gs
    let s := s.popa
    let s := s.addSp 8
    s.iret
  | .x86_64, s =>
    let s := { s with cpu := poppedRegs.foldl Cpu.pop s.cpu }
    let s := s.addSp 16
    s.iret

/-- The processor takes vector `n` through the table at `idt`, and the stub it finds there runs as far as
the call of `isr_dispatch`. -/
def enter {T : Target} (K : StubAddrs T) (idt n : Nat) (err : Option (Word T)) (s : Machine T) :
    Machine T :=
  commonEntry T K (isrStub n (s.deliver (gateAt T s.cpu.mem idt n) err))

/-- The address of the frame, as `isr_dispatch` gets it. -/
def frameArg : (T : Target) → Machine T → Word T
  | .x86, s => s.cpu.stackWord 4
  | .x86_64, s => s.cpu.regs .di

end Isr

end Aerogel
