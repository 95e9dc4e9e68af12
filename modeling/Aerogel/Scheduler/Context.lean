import Aerogel.Foundations.WordStack
import Aerogel.Libc.Strings
import Aerogel.Scheduler.Sched

/-! # Thread contexts: `thread_create` and `switch.asm`

A suspended thread is a stack pointer in its record and a frame on its stack: the callee-saved
registers and the address to return to. `switch_context` builds such a frame for the caller and takes
down that of another thread; `thread_create` builds the first one by hand, with a return into
`thread_trampoline`. The assembly of both targets is written as operations of `Cpu`. -/

namespace Aerogel

namespace Context

/-- A machine word. -/
abbrev Word (T : Target) : Type := BitVec (8 * T.ptrBytes)

/-- The registers that occur in `switch.asm`; the 32-bit and the 64-bit one have the same name here. -/
inductive Reg
  | ax | cx | bx | bp | si | di | r12 | r13 | r14 | r15
  deriving DecidableEq, Repr

/-- The machine of a target. -/
abbrev Machine (T : Target) : Type := Cpu Reg T.ptrBytes

/-- Where the linker put the code. -/
structure CodeAddrs (T : Target) where
  /-- `switch_context`. -/
  switchContext : Word T
  /-- `thread_trampoline`. -/
  threadTrampoline : Word T
  /-- What follows the call in `thread_trampoline`. -/
  afterCall : Word T

/-! ## `switch.asm` -/

/-- `switch_context`. -/
def switchContext : (T : Target) → Machine T → Machine T
  | .x86, s =>
    let s := s.push .bp
    let s := s.push .bx
    let s := s.push .si
    let s := s.push .di
    let s := s.loadStack .ax 20
    let s := s.storeSp .ax
    let s := s.loadSp 24
    let s := s.pop .di
    let s := s.pop .si
    let s := s.pop .bx
    let s := s.pop .bp
    s.ret
  | .x86_64, s =>
    let s := s.push .bp
    let s := s.push .bx
    let s := s.push .r12
    let s := s.push .r13
    let s := s.push .r14
    let s := s.push .r15
    let s := s.storeSp .di
    let s := s.movSp .si
    let s := s.pop .r15
    let s := s.pop .r14
    let s := s.pop .r13
    let s := s.pop .r12
    let s := s.pop .bx
    let s := s.pop .bp
    s.ret

/-- `thread_trampoline` as far as the call of `fn`. -/
def threadTrampoline : (T : Target) → CodeAddrs T → Machine T → Machine T
  | .x86, K, s =>
    let s := s.pop .ax
    let s := s.pop .cx
    let s := s.push .cx
    s.call (s.regs .ax) K.afterCall
  | .x86_64, K, s =>
    let s := s.pop .ax
    let s := s.pop .di
    s.call (s.regs .ax) K.afterCall

/-! ## `thread_create` -/

/-- `THREAD_STACK_SIZE`. -/
abbrev threadStackSize : Nat := 16 * 1024

/-- `THREAD_NAME_LEN`. -/
abbrev threadNameLen : Nat := 32

/-- The fields of `thread_t`. -/
inductive ThreadField
  | id | name | state | esp | stack | wakeTick | quantumRemaining | next | prev
  deriving DecidableEq, Repr

/-- Where the fields of `thread_t` are. -/
def threadLayout : Target → StructLayout ThreadField
  | .x86 =>
    { off := fun
        | .id => 0 | .name => 4 | .state => 36 | .esp => 40 | .stack => 44 | .wakeTick => 48
        | .quantumRemaining => 56 | .next => 60 | .prev => 64
      width := fun
        | .id => 4 | .name => 32 | .state => 4 | .esp => 4 | .stack => 4 | .wakeTick => 8
        | .quantumRemaining => 4 | .next => 4 | .prev => 4
      size := 68
      inside := by intro f; cases f <;> decide
      disjoint := by intro f g h; cases f <;> cases g <;> first | exact absurd rfl h | decide }
  | .x86_64 =>
    { off := fun
        | .id => 0 | .name => 4 | .state => 36 | .esp => 40 | .stack => 48 | .wakeTick => 56
        | .quantumRemaining => 64 | .next => 72 | .prev => 80
      width := fun
        | .id => 4 | .name => 32 | .state => 4 | .esp => 8 | .stack => 8 | .wakeTick => 8
        | .quantumRemaining => 4 | .next => 8 | .prev => 8
      size := 88
      inside := by intro f; cases f <;> decide
      disjoint := by intro f g h; cases f <;> cases g <;> first | exact absurd rfl h | decide }

/-- How many zeros `thread_create` puts onto the stack. -/
def zeroWords : Target → Nat
  | .x86 => 4
  | .x86_64 => 6

/-- The words `thread_create` puts onto the stack, in this order. -/
def initialWords (T : Target) (K : CodeAddrs T) (fn arg : Word T) : List (Word T) :=
  [arg, fn, K.threadTrampoline] ++ List.replicate (zeroWords T) 0

/-- `thread_create` with what `kmalloc` returned for the record and for the stack. -/
def threadCreate (T : Target) (K : CodeAddrs T) (m : Mem) (t stack name nextId : Nat)
    (fn arg : Word T) : Except Halt Mem :=
  let L := threadLayout T
  let m := memset m t 0 L.size
  let m := L.set m t .stack stack
  if stack = 0 then .error (.panic "thread_create: out of memory" 0)
  else
    let m := strncpy m (t + L.off .name) name (threadNameLen - 1)
    let m := L.set m t .id nextId
    -- `THREAD_READY` is 0
    let m := L.set m t .state 0
    let m := L.set m t .quantumRemaining schedQuantumTicks
    let sp := stack + threadStackSize
    let words := initialWords T K fn arg
    let m := m.storeDown sp words
    .ok (L.set m t .esp (sp - words.length * T.ptrBytes))

end Context

end Aerogel
