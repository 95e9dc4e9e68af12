import Aerogel.Foundations.Erasure
import Aerogel.Interrupts.IsrStubs

/-! # Interrupts are transparent

`idt_init` leads every vector below 48 to its stub (`gateAt_idtInit`). On the way in, the stub leaves a frame
on the stack of the interrupted program (`enter_spec`); if `isr_dispatch` keeps to the calling convention
and does not touch the frame, the way out restores everything the program can see (`commonExit_spec`). -/

namespace Aerogel

namespace Isr

variable {T : Target}

/-! ## The descriptor table -/

/-- An entry depends on its own bytes. -/
theorem gateAt_congr {m m' : Mem} {idt num : Nat}
    (h : ∀ x, idt + num * gateSize T ≤ x → x < idt + num * gateSize T + gateSize T → m' x = m x) :
    gateAt T m' idt num = gateAt T m idt num := by
  cases T with
  | x86 =>
      have hget : ∀ f, gate32.get m' (idt + num * 8) f = gate32.get m (idt + num * 8) f :=
        fun f => gate32.get_congr f h
      simp only [gateAt, hget]
  | x86_64 =>
      have hget : ∀ f, gate64.get m' (idt + num * 16) f = gate64.get m (idt + num * 16) f :=
        fun f => gate64.get_congr f h
      simp only [gateAt, hget]

/-- What `idt_set_gate` stores on x86. -/
def gate32Values (base sel flags : Nat) : List (Gate32Field × Nat) :=
  [(.offsetLow, base &&& 0xFFFF), (.offsetHigh, (base >>> 16) &&& 0xFFFF), (.selector, sel), (.zero, 0),
    (.flags, flags)]

/-- What `idt_set_gate` stores on x86_64. -/
def gate64Values (base sel flags : Nat) : List (Gate64Field × Nat) :=
  [(.offsetLow, base &&& 0xFFFF), (.offsetMid, (base >>> 16) &&& 0xFFFF),
    (.offsetHigh, (base >>> 32) &&& 0xFFFFFFFF), (.selector, sel), (.ist, 0), (.flags, flags), (.zero, 0)]

/-- No field is stored twice. -/
theorem nodup_gate32Values (base sel flags : Nat) :
    ((gate32Values base sel flags).map Prod.fst).Nodup := by
  change [Gate32Field.offsetLow, .offsetHigh, .selector, .zero, .flags].Nodup
  decide

/-- No field is stored twice. -/
theorem nodup_gate64Values (base sel flags : Nat) :
    ((gate64Values base sel flags).map Prod.fst).Nodup := by
  change [Gate64Field.offsetLow, .offsetMid, .offsetHigh, .selector, .ist, .flags, .zero].Nodup
  decide

/-- `idt_set_gate` writes one entry. -/
theorem idtSetGate_apply_of_outside (m : Mem) {idt num x : Nat} (base sel flags : Nat)
    (h : x < idt + num * gateSize T ∨ idt + num * gateSize T + gateSize T ≤ x) :
    idtSetGate T m idt num base sel flags x = m x := by
  cases T with
  | x86 => exact gate32.setAll_apply_of_outside m (gate32Values base sel flags) h
  | x86_64 => exact gate64.setAll_apply_of_outside m (gate64Values base sel flags) h

/-- The halves of an address on x86. -/
theorem join_halves {base : Nat} (h : base < 2 ^ 32) :
    (base &&& 0xFFFF) % 256 ^ 2 + 2 ^ 16 * (((base >>> 16) &&& 0xFFFF) % 256 ^ 2) = base := by
  have h₁ : base &&& 0xFFFF = base % 2 ^ 16 := Nat.and_two_pow_sub_one_eq_mod base 16
  have h₂ : (base >>> 16) &&& 0xFFFF = base / 2 ^ 16 % 2 ^ 16 := by
    rw [Nat.shiftRight_eq_div_pow]
    exact Nat.and_two_pow_sub_one_eq_mod _ 16
  rw [h₁, h₂]
  omega

/-- The parts of an address on x86_64. -/
theorem join_parts {base : Nat} (h : base < 2 ^ 64) :
    (base &&& 0xFFFF) % 256 ^ 2 + 2 ^ 16 * (((base >>> 16) &&& 0xFFFF) % 256 ^ 2) +
      2 ^ 32 * (((base >>> 32) &&& 0xFFFFFFFF) % 256 ^ 4) = base := by
  have h₁ : base &&& 0xFFFF = base % 2 ^ 16 := Nat.and_two_pow_sub_one_eq_mod base 16
  have h₂ : (base >>> 16) &&& 0xFFFF = base / 2 ^ 16 % 2 ^ 16 := by
    rw [Nat.shiftRight_eq_div_pow]
    exact Nat.and_two_pow_sub_one_eq_mod _ 16
  have h₃ : (base >>> 32) &&& 0xFFFFFFFF = base / 2 ^ 32 % 2 ^ 32 := by
    rw [Nat.shiftRight_eq_div_pow]
    exact Nat.and_two_pow_sub_one_eq_mod _ 32
  rw [h₁, h₂, h₃]
  omega

/-- The processor reads from an entry what `idt_set_gate` was given. -/
theorem gateAt_idtSetGate (m : Mem) (idt num : Nat) (base : Word T) :
    gateAt T (idtSetGate T m idt num base.toNat 0x08 0x8E) idt num = ⟨base, 0x08, 0x8E⟩ := by
  have hlt := base.isLt
  cases T with
  | x86 =>
      have hget : ∀ f v, (f, v) ∈ gate32Values base.toNat 0x08 0x8E →
          gate32.get (idtSetGate .x86 m idt num base.toNat 0x08 0x8E) (idt + num * 8) f =
            v % 256 ^ gate32.width f :=
        fun f v => gate32.get_setAll m (idt + num * 8) (nodup_gate32Values base.toNat 0x08 0x8E)
      unfold gateAt
      simp only [hget .offsetLow (base.toNat &&& 0xFFFF) (by simp [gate32Values]),
        hget .offsetHigh ((base.toNat >>> 16) &&& 0xFFFF) (by simp [gate32Values]),
        hget .selector 0x08 (by simp [gate32Values]), hget .flags 0x8E (by simp [gate32Values])]
      congr 1
      apply BitVec.eq_of_toNat_eq
      rw [BitVec.toNat_ofNat]
      exact (congrArg (· % _) (join_halves hlt)).trans (Nat.mod_eq_of_lt hlt)
  | x86_64 =>
      have hget : ∀ f v, (f, v) ∈ gate64Values base.toNat 0x08 0x8E →
          gate64.get (idtSetGate .x86_64 m idt num base.toNat 0x08 0x8E) (idt + num * 16) f =
            v % 256 ^ gate64.width f :=
        fun f v => gate64.get_setAll m (idt + num * 16) (nodup_gate64Values base.toNat 0x08 0x8E)
      unfold gateAt
      simp only [hget .offsetLow (base.toNat &&& 0xFFFF) (by simp [gate64Values]),
        hget .offsetMid ((base.toNat >>> 16) &&& 0xFFFF) (by simp [gate64Values]),
        hget .offsetHigh ((base.toNat >>> 32) &&& 0xFFFFFFFF) (by simp [gate64Values]),
        hget .selector 0x08 (by simp [gate64Values]), hget .flags 0x8E (by simp [gate64Values])]
      congr 1
      apply BitVec.eq_of_toNat_eq
      rw [BitVec.toNat_ofNat]
      exact (congrArg (· % _) (join_parts hlt)).trans (Nat.mod_eq_of_lt hlt)

/-- After the first `k` rounds of `idt_init` the first `k` vectors lead to their stubs. -/
theorem gateAt_idtGates (m : Mem) (idt : Nat) (stubs : Nat → Word T) {n k : Nat} (hn : n < k) :
    gateAt T (idtGates T m idt stubs k) idt n = ⟨stubs n, 0x08, 0x8E⟩ := by
  induction k with
  | zero => omega
  | succ k ih =>
      rw [idtGates]
      by_cases hk : n = k
      · rw [hk]
        exact gateAt_idtSetGate _ idt k (stubs k)
      · rw [← ih (by omega)]
        refine gateAt_congr fun x h₁ h₂ => idtSetGate_apply_of_outside _ _ _ _ ?_
        have hle : (n + 1) * gateSize T ≤ k * gateSize T := Nat.mul_le_mul_right _ (by omega)
        rw [Nat.succ_mul] at hle
        omega

/-- After `idt_init` every vector below 48 leads to its stub. -/
theorem gateAt_idtInit (m : Mem) (idt : Nat) (stubs : Nat → Word T) {n : Nat} (hn : n < 48) :
    gateAt T (idtInit T m idt stubs) idt n = ⟨stubs n, 0x08, 0x8E⟩ :=
  gateAt_idtGates m idt stubs hn

/-! ## The way in -/

/-- The words that `isr_common_stub` pushes, in this order. -/
def stubWords : (T : Target) → (Reg → Word T) → Word T → BitVec 16 → List (Word T)
  | .x86, regs, sp, ds =>
    [regs .ax, regs .cx, regs .dx, regs .bx, sp, regs .bp, regs .si, regs .di,
      Machine.setLow (regs .ax) ds]
  | .x86_64, regs, _, _ => poppedRegs.reverse.map regs

/-- The stack pointer as `pusha` saves it. -/
def espDummy (s : Machine T) (n : Nat) (err : Word T) : Word T :=
  ((s.saved ++ [err, BitVec.ofNat _ n]).foldl Cpu.pushWord { s.cpu with sp := s.saveBase }).sp

/-- The `isr_frame_t` of an interrupt, lowest address first, up to the words the processor has saved. -/
def frameWords : (T : Target) → Machine T → Nat → Word T → List (Word T)
  | .x86, s, n, err =>
    [Machine.setLow (s.cpu.regs .ax) (s.seg .ds), s.cpu.regs .di, s.cpu.regs .si, s.cpu.regs .bp,
      espDummy s n err, s.cpu.regs .bx, s.cpu.regs .dx, s.cpu.regs .cx, s.cpu.regs .ax,
      BitVec.ofNat _ n, err, s.cpu.pc, s.cs.setWidth _, s.flags]
  | .x86_64, s, n, err =>
    poppedRegs.map s.cpu.regs ++
      [BitVec.ofNat _ n, err, s.cpu.pc, s.cs.setWidth _, s.flags, s.cpu.sp, s.ss.setWidth _]

/-- Its size. -/
def frameBytes : Target → Nat
  | .x86 => 56
  | .x86_64 => 176

/-- What lies below it when `isr_dispatch` begins: its argument on x86, and the return address. -/
def callWords : (T : Target) → StubAddrs T → Word T → List (Word T)
  | .x86, K, frame => [frame, K.afterCall]
  | .x86_64, K, _ => [K.afterCall]

/-- The frame has its size. -/
theorem length_frameWords (s : Machine T) (n : Nat) (err : Word T) :
    (frameWords T s n err).length * T.ptrBytes = frameBytes T := by
  cases T <;> rfl

/-- So has the call. -/
theorem length_callWords (K : StubAddrs T) (frame : Word T) :
    (callWords T K frame).length * T.ptrBytes = 8 := by
  cases T <;> rfl

/-- The frame is what has been pushed, from the last word on. -/
theorem reverse_frameWords (s : Machine T) (n : Nat) (err : Word T) :
    (frameWords T s n err).reverse = s.saved ++ [err, BitVec.ofNat _ n] ++
      stubWords T s.cpu.regs (espDummy s n err) (s.seg .ds) := by
  cases T <;> rfl

/-- Pushing, on the whole machine. -/
theorem cpu_pushWord (s : Machine T) (v : Word T) : (s.pushWord v).cpu = s.cpu.pushWord v := rfl

theorem cpu_push (s : Machine T) (r : Reg) : (s.push r).cpu = s.cpu.pushWord (s.cpu.regs r) := rfl

theorem cpu_mov (s : Machine T) (r : Reg) (v : Word T) :
    (s.mov r v).cpu = s.cpu.setRegs (Function.update s.cpu.regs r v) := rfl

theorem cpu_movAx (s : Machine T) (v : BitVec 16) :
    (s.movAx v).cpu = s.cpu.setRegs (Function.update s.cpu.regs .ax (Machine.setLow (s.cpu.regs .ax) v)) :=
  rfl

theorem cpu_movSegAx (s : Machine T) (r : Seg) : (s.movSegAx r).cpu = s.cpu := rfl

theorem flags_pushWord (s : Machine T) (v : Word T) : (s.pushWord v).flags = s.flags := rfl

theorem flags_push (s : Machine T) (r : Reg) : (s.push r).flags = s.flags := rfl

theorem flags_mov (s : Machine T) (r : Reg) (v : Word T) : (s.mov r v).flags = s.flags := rfl

theorem flags_movAx (s : Machine T) (v : BitVec 16) : (s.movAx v).flags = s.flags := rfl

theorem flags_movSegAx (s : Machine T) (r : Seg) : (s.movSegAx r).flags = s.flags := rfl

theorem ss_pushWord (s : Machine T) (v : Word T) : (s.pushWord v).ss = s.ss := rfl

theorem ss_push (s : Machine T) (r : Reg) : (s.push r).ss = s.ss := rfl

theorem ss_mov (s : Machine T) (r : Reg) (v : Word T) : (s.mov r v).ss = s.ss := rfl

theorem ss_movAx (s : Machine T) (v : BitVec 16) : (s.movAx v).ss = s.ss := rfl

theorem ss_movSegAx (s : Machine T) (r : Seg) : (s.movSegAx r).ss = s.ss := rfl

theorem seg_push (s : Machine T) (r : Reg) : (s.push r).seg = s.seg := rfl

theorem seg_mov (s : Machine T) (r : Reg) (v : Word T) : (s.mov r v).seg = s.seg := rfl

/-- What `isr_common_stub` has on the stack when it calls `isr_dispatch`. -/
theorem commonEntry_pushes (K : StubAddrs T) (s : Machine T) :
    let c := (stubWords T s.cpu.regs s.cpu.sp (s.seg .ds)).foldl Cpu.pushWord s.cpu
    let e := (callWords T K c.sp).foldl Cpu.pushWord c
    (commonEntry T K s).cpu.sp = e.sp ∧ (commonEntry T K s).cpu.mem = e.mem := by
  cases T with
  | x86 =>
      simp only [commonEntry, Machine.pusha, cpu_push, cpu_pushWord, cpu_movAx, cpu_movSegAx, Cpu.sp_call,
        Cpu.mem_call, Cpu.regs_pushWord, Cpu.regs_setRegs, Cpu.pushWord_setRegs, Cpu.sp_setRegs,
        Cpu.mem_setRegs, Function.update_self, stubWords, callWords, List.foldl_cons, List.foldl_nil]
      exact ⟨rfl, rfl⟩
  | x86_64 =>
      simp only [commonEntry, cpu_push, cpu_mov, Cpu.sp_call, Cpu.mem_call, Cpu.regs_pushWord,
        Cpu.pushWord_setRegs, Cpu.sp_setRegs, Cpu.mem_setRegs, stubWords, poppedRegs, callWords,
        List.reverse_cons, List.reverse_nil, List.nil_append, List.cons_append, List.map_cons, List.map_nil,
        List.foldl_cons, List.foldl_nil, and_self]

/-- On x86_64 `rdi` is where the last register has been pushed. -/
theorem commonEntry_di (K : StubAddrs .x86_64) (s : Machine .x86_64) :
    (commonEntry .x86_64 K s).cpu.regs .di =
      ((stubWords .x86_64 s.cpu.regs s.cpu.sp (s.seg .ds)).foldl Cpu.pushWord s.cpu).sp := by
  have hregs : ∀ (c : Cpu Reg (Target.ptrBytes .x86_64)) target next, (c.call target next).regs = c.regs :=
    fun _ _ _ => rfl
  simp only [commonEntry, cpu_push, cpu_mov, hregs, Cpu.regs_pushWord, Cpu.regs_setRegs, Function.update_self,
    stubWords, poppedRegs, List.reverse_cons, List.reverse_nil, List.nil_append, List.cons_append,
    List.map_cons, List.map_nil, List.foldl_cons, List.foldl_nil]

variable {K : StubAddrs T} {idt n : Nat} {err : Option (Word T)} {s : Machine T}

/-- With or without an error code, the stack looks alike behind the stub of the vector. -/
theorem isrStub_pushes (g : Gate T) (herr : err.isSome ↔ n ∈ isrErr) :
    let c := (s.saved ++ [err.getD 0, BitVec.ofNat _ n]).foldl Cpu.pushWord
      { s.cpu with sp := s.saveBase }
    let t := isrStub n (s.deliver g err)
    t.cpu.sp = c.sp ∧ t.cpu.mem = c.mem ∧ t.cpu.regs = s.cpu.regs ∧ t.seg = s.seg := by
  have hregs : ∀ vs, (List.foldl Cpu.pushWord { s.cpu with sp := s.saveBase } vs).regs = s.cpu.regs :=
    fun vs => Cpu.regs_pushWords _ vs
  cases err with
  | none =>
      have hn : n ∉ isrErr := fun h => by simpa using herr.mpr h
      have heq : isrStub n (s.deliver g none) = ((s.deliver g none).pushWord 0).pushWord (BitVec.ofNat _ n) := by
        rw [isrStub]
        exact congrArg (Machine.pushWord · _) (if_neg hn)
      obtain ⟨h₁, h₂⟩ := Cpu.pushWords_congr (s := (s.deliver g none).cpu)
        (t := s.saved.foldl Cpu.pushWord { s.cpu with sp := s.saveBase })
        (by rw [Machine.deliver, Option.toList_none, List.append_nil])
        (by rw [Machine.deliver, Option.toList_none, List.append_nil]) [0, BitVec.ofNat _ n]
      rw [heq, List.foldl_append]
      refine ⟨h₁, h₂, ?_, rfl⟩
      exact hregs _
  | some e =>
      have hn : n ∈ isrErr := herr.mp rfl
      have heq : isrStub n (s.deliver g (some e)) = (s.deliver g (some e)).pushWord (BitVec.ofNat _ n) := by
        rw [isrStub]
        exact congrArg (Machine.pushWord · _) (if_pos hn)
      obtain ⟨h₁, h₂⟩ := Cpu.pushWords_congr (s := (s.deliver g (some e)).cpu)
        (t := (s.saved ++ [e]).foldl Cpu.pushWord { s.cpu with sp := s.saveBase }) rfl rfl
        [BitVec.ofNat _ n]
      have happ : s.saved ++ [(some e).getD 0, BitVec.ofNat _ n] = (s.saved ++ [e]) ++ [BitVec.ofNat _ n] := by
        simp
      rw [heq, happ, List.foldl_append]
      refine ⟨h₁, h₂, ?_, rfl⟩
      exact hregs _

/-- The processor and the stubs push the frame, and the call is pushed below it. -/
theorem enter_pushes (K : StubAddrs T) (idt : Nat) (s : Machine T) (herr : err.isSome ↔ n ∈ isrErr) :
    let c := (frameWords T s n (err.getD 0)).reverse.foldl Cpu.pushWord { s.cpu with sp := s.saveBase }
    let e := (callWords T K c.sp).foldl Cpu.pushWord c
    (enter K idt n err s).cpu.sp = e.sp ∧ (enter K idt n err s).cpu.mem = e.mem ∧
      (T = .x86_64 → frameArg T (enter K idt n err s) = c.sp) := by
  obtain ⟨hsp, hmem, hregs, hseg⟩ := isrStub_pushes (gateAt T s.cpu.mem idt n) herr
  obtain ⟨h₁, h₂⟩ := commonEntry_pushes K (isrStub n (s.deliver (gateAt T s.cpu.mem idt n) err))
  rw [hregs, hseg, hsp] at h₁ h₂
  have hframe := Cpu.pushWords_congr hsp hmem (stubWords T s.cpu.regs (espDummy s n (err.getD 0)) (s.seg .ds))
  rw [reverse_frameWords, List.foldl_append]
  rw [enter]
  have hcall := Cpu.pushWords_congr hframe.1 hframe.2 (callWords T K
    ((stubWords T s.cpu.regs (espDummy s n (err.getD 0)) (s.seg .ds)).foldl Cpu.pushWord
      (isrStub n (s.deliver (gateAt T s.cpu.mem idt n) err)).cpu).sp)
  refine ⟨h₁.trans (hcall.1.trans ?_), h₂.trans (hcall.2.trans ?_), ?_⟩
  · rw [hframe.1]
  · rw [hframe.1]
  · rintro rfl
    refine (commonEntry_di K _).trans ?_
    rw [hregs, hseg, hsp]
    exact hframe.1

/-- Where the frame is. -/
def frameAddr (s : Machine T) : Nat := s.saveBase.toNat - frameBytes T

/-- There is room on the stack for the frame and the call. -/
def HasRoom (s : Machine T) : Prop := frameBytes T + 8 ≤ s.saveBase.toNat

/-- When `isr_dispatch` begins it gets the address of the frame, which lies on the stack of the interrupted
program; nothing else of memory has changed. -/
theorem enter_spec (K : StubAddrs T) (idt : Nat) (hroom : HasRoom s) (herr : err.isSome ↔ n ∈ isrErr) :
    let e := enter K idt n err s
    e.cpu.mem.WordsAt T.ptrBytes (frameAddr s) (frameWords T s n (err.getD 0)) ∧
      e.cpu.sp.toNat + 8 = frameAddr s ∧ (frameArg T e).toNat = frameAddr s ∧
      e.cpu.mem.word T.ptrBytes e.cpu.sp.toNat = K.afterCall ∧
      ∀ x, x < frameAddr s - 8 ∨ s.saveBase.toNat ≤ x → e.cpu.mem x = s.cpu.mem x := by
  rw [HasRoom] at hroom
  obtain ⟨hsp, hmem, harg⟩ := enter_pushes K idt s herr
  have hlen : (frameWords T s n (err.getD 0)).reverse.length * T.ptrBytes = frameBytes T := by
    rw [List.length_reverse, length_frameWords]
  have hframe : frameAddr s + frameBytes T = s.saveBase.toNat := by
    rw [frameAddr]
    omega
  -- the frame
  obtain ⟨hsp₁, hmem₁⟩ := Cpu.pushWords_spec { s.cpu with sp := s.saveBase }
    (frameWords T s n (err.getD 0)).reverse (by rw [hlen]; exact Nat.le_of_add_right_le hroom)
  have hwords₁ := @Mem.wordsAt_storeDown _ s.cpu.mem s.saveBase.toNat
    (frameWords T s n (err.getD 0)).reverse (by rw [hlen]; exact Nat.le_of_add_right_le hroom)
  generalize List.foldl Cpu.pushWord { s.cpu with sp := s.saveBase } _ = c at hsp hmem harg hsp₁ hmem₁
  rw [hlen] at hsp₁ hwords₁
  rw [List.reverse_reverse] at hwords₁
  change c.sp.toNat = frameAddr s at hsp₁
  change c.mem = s.cpu.mem.storeDown s.saveBase.toNat _ at hmem₁
  -- the call
  have hcall := length_callWords K c.sp
  have hle : (callWords T K c.sp).length * T.ptrBytes ≤ c.sp.toNat := by omega
  obtain ⟨hsp₂, hmem₂⟩ := Cpu.pushWords_spec c (callWords T K c.sp) hle
  have hwords₂ := c.mem.wordsAt_storeDown hle
  rw [← hmem₂, ← hmem, ← hsp₂, ← hsp] at hwords₂
  rw [hcall, ← hsp] at hsp₂
  have hkeep : ∀ x, x < frameAddr s - 8 ∨ frameAddr s ≤ x →
      (enter K idt n err s).cpu.mem x = c.mem x := fun x hx => by
    rw [hmem, hmem₂]
    exact c.mem.storeDown_apply_of_outside hle (by rw [hcall]; omega)
  refine ⟨hwords₁.congr fun x h₁ h₂ => ?_, by omega, ?_, ?_, fun x hx => ?_⟩
  · rw [← hmem₁]
    exact (hkeep x (.inr h₁)).symm
  · cases T with
    | x86 =>
        have hlt := s.saveBase.isLt
        have hword := Cpu.stackWord_of_wordsAt (i := 1) hwords₂ rfl (by
          have hw : Target.ptrBytes .x86 = 4 := rfl
          omega)
        rw [← hsp₁]
        exact congrArg BitVec.toNat hword
    | x86_64 => rw [harg rfl, hsp₁]
  · cases T <;> exact hwords₂.1
  · rw [hkeep x (by omega), hmem₁]
    exact s.cpu.mem.storeDown_apply_of_outside (by rw [hlen]; omega) (by rw [hlen]; omega)

/-! ## The way out -/

/-- What `isr_dispatch` has to keep: it returns as the calling convention says, with the segments as they
were, and leaves the frame alone. Everything else may have changed. -/
structure DispatchReturns (frame : Nat) (e t : Machine T) : Prop where
  /-- It takes the return address off the stack. -/
  sp : t.cpu.sp.toNat = e.cpu.sp.toNat + T.ptrBytes
  /-- It goes on there. -/
  pc : t.cpu.pc = e.cpu.mem.word T.ptrBytes e.cpu.sp.toNat
  /-- The data segments. -/
  seg : t.seg = e.seg
  /-- The stack segment. -/
  ss : t.ss = e.ss
  /-- The frame. -/
  frame : ∀ x, frame ≤ x → x < frame + frameBytes T → t.cpu.mem x = e.cpu.mem x

/-- What an interrupted program sees of its processor. -/
structure SameCpu (s t : Machine T) : Prop where
  /-- The general registers. -/
  regs : ∀ q ∈ generalRegs T, t.cpu.regs q = s.cpu.regs q
  /-- The stack pointer. -/
  sp : t.cpu.sp = s.cpu.sp
  /-- The program counter. -/
  pc : t.cpu.pc = s.cpu.pc
  /-- The flags. -/
  flags : t.flags = s.flags
  /-- The segments. -/
  seg : t.seg = s.seg
  /-- The code segment. -/
  cs : t.cs = s.cs
  /-- The stack segment. -/
  ss : t.ss = s.ss

/-- All data segments are the same, as `gdt_flush` leaves them; `isr_common_stub` saves one of them on x86
and none on x86_64. -/
def FlatSegs (s : Machine T) : Prop := ∀ r, s.seg r = s.seg .ds

/-- The low half of a word with other low bits. -/
theorem setWidth_setLow (v : Word .x86) (low : BitVec 16) :
    (Machine.setLow v low).setWidth 16 = low := by
  have h : ∀ v : BitVec 32, ((v &&& ~~~0xFFFF) ||| low.setWidth 32).setWidth 16 = low := fun v => by
    apply BitVec.eq_of_getLsbD_eq
    intro i hi
    have hmask : (0xFFFF : BitVec 32).getLsbD i = true := by
      revert i
      decide
    simp only [BitVec.getLsbD_setWidth, BitVec.getLsbD_or, BitVec.getLsbD_and, BitVec.getLsbD_not, hmask]
    simp [hi, show i < 32 by omega]
  exact h v

/-- What the processor has saved on x86, and what comes back. -/
theorem iret_x86 {s u : Machine .x86} {rest : List (Word .x86)}
    (hwords : u.cpu.mem.WordsAt _ u.cpu.sp.toNat (s.cpu.pc :: s.cs.setWidth _ :: s.flags :: rest))
    (hroom : u.cpu.sp.toNat + 12 < 2 ^ 32) :
    (u.iret).cpu.pc = s.cpu.pc ∧ u.iret.cs = s.cs ∧ u.iret.flags = s.flags ∧
      u.iret.cpu.sp.toNat = u.cpu.sp.toNat + 12 := by
  have hw : Target.ptrBytes .x86 = 4 := rfl
  have hbits : 2 ^ (8 * Target.ptrBytes .x86) = 2 ^ 32 := rfl
  have hpc := Cpu.stackWord_of_wordsAt (i := 0) hwords rfl (by omega)
  have hcs := Cpu.stackWord_of_wordsAt (i := 1) hwords rfl (by omega)
  have hflags := Cpu.stackWord_of_wordsAt (i := 2) hwords rfl (by omega)
  refine ⟨hpc, ?_, hflags, Cpu.toNat_add_disp (by omega)⟩
  refine (congrArg (BitVec.setWidth 16) hcs).trans ?_
  rw [BitVec.setWidth_setWidth_of_le _ (by decide), BitVec.setWidth_eq]

/-- The words of the frame behind the saved data segment, with the registers that `popa` loads. -/
def popaWords (s : Machine .x86) (dummy : Word .x86) : List (Option Reg × Word .x86) :=
  [(some .di, s.cpu.regs .di), (some .si, s.cpu.regs .si), (some .bp, s.cpu.regs .bp), (none, dummy),
    (some .bx, s.cpu.regs .bx), (some .dx, s.cpu.regs .dx), (some .cx, s.cpu.regs .cx),
    (some .ax, s.cpu.regs .ax)]

/-- The way out on x86. -/
theorem commonExit_x86 {s t : Machine .x86} {n : Nat} {err : Word .x86} {frame : Nat}
    (hsp : t.cpu.sp.toNat + 4 = frame) (hbase : frame + 56 = s.cpu.sp.toNat) (hflat : FlatSegs s)
    (hwords : t.cpu.mem.WordsAt _ frame (frameWords .x86 s n err)) (hss : t.ss = s.ss) :
    SameCpu s (commonExit .x86 t) ∧ (commonExit .x86 t).cpu.mem = t.cpu.mem := by
  have hlt := s.cpu.sp.isLt
  have hbits : 2 ^ (8 * Target.ptrBytes .x86) = 2 ^ 32 := rfl
  have hw : Target.ptrBytes .x86 = 4 := rfl
  -- the data segments
  have hsp₁ : (t.cpu.addSp 4).sp.toNat = frame := by
    rw [Cpu.addSp, Cpu.toNat_add_disp (by omega), hsp]
  have hwords₁ : (t.cpu.addSp 4).mem.WordsAt _ (t.cpu.addSp 4).sp.toNat (frameWords .x86 s n err) := by
    rw [hsp₁]
    exact hwords
  obtain ⟨hsp₂, hmem₂, hax, -⟩ := Cpu.popSlots_spec (t.cpu.addSp 4)
    [(some .ax, Machine.setLow (s.cpu.regs .ax) (s.seg .ds))] (List.nodup_singleton _)
    ⟨hwords₁.1, trivial⟩ (by rw [hsp₁, List.length_singleton]; omega)
  rw [hsp₁, List.length_singleton] at hsp₂
  have hds := hax .ax _ (List.mem_singleton_self _)
  generalize hc₂ : List.foldl Cpu.popSlot (t.cpu.addSp 4) _ = c₂ at hsp₂ hmem₂ hds
  -- the general registers
  have hrest : c₂.mem.WordsAt _ c₂.sp.toNat ((popaWords s (espDummy s n err)).map Prod.snd ++
      [BitVec.ofNat _ n, err, s.cpu.pc, s.cs.setWidth _, s.flags]) := by
    rw [hsp₂, hmem₂]
    exact hwords.2
  obtain ⟨hpop, hback⟩ := Mem.wordsAt_append.mp hrest
  obtain ⟨hsp₃, hmem₃, hregs₃, -⟩ := Cpu.popSlots_spec c₂ (popaWords s (espDummy s n err))
    (by change [Reg.di, .si, .bp, .bx, .dx, .cx, .ax].Nodup; decide) hpop
    (by change c₂.sp.toNat + 8 * _ < _; omega)
  change _ = c₂.sp.toNat + 8 * _ at hsp₃
  generalize hc₃ : List.foldl Cpu.popSlot c₂ _ = c₃ at hsp₃ hmem₃ hregs₃
  let u : Machine .x86 := ⟨c₃.addSp 8, Function.update (Function.update (Function.update (Function.update t.seg
    .ds ((c₂.regs .ax).setWidth 16)) .es ((c₂.regs .ax).setWidth 16)) .fs ((c₂.regs .ax).setWidth 16))
    .gs ((c₂.regs .ax).setWidth 16), t.cs, t.ss, t.flags⟩
  have hu : commonExit .x86 t = u.iret := by
    subst hc₃ hc₂
    rfl
  have hspu : u.cpu.sp.toNat = frame + 44 := by
    change (c₃.addSp 8).sp.toNat = _
    rw [Cpu.addSp, Cpu.toNat_add_disp (by omega), hsp₃]
    omega
  obtain ⟨hpc, hcs, hflags, hspr⟩ := iret_x86 (s := s) (u := u)
    (by
      rw [hspu]
      have h := (@Mem.wordsAt_append _ _ _ [BitVec.ofNat _ n, err] _).mp hback
      have hpos : c₂.sp.toNat + ((popaWords s (espDummy s n err)).map Prod.snd).length * Target.ptrBytes .x86 +
          [BitVec.ofNat (8 * Target.ptrBytes .x86) n, err].length * Target.ptrBytes .x86 = frame + 44 := by
        change c₂.sp.toNat + 8 * _ + 2 * _ = _
        omega
      rw [hpos, ← hmem₃] at h
      exact h.2) (by omega)
  rw [hu]
  refine ⟨⟨fun q hq => ?_, ?_, hpc, hflags, ?_, hcs, hss⟩, ?_⟩
  · refine hregs₃ q _ ?_
    simp only [generalRegs, List.mem_cons, List.not_mem_nil, or_false] at hq
    rcases hq with rfl | rfl | rfl | rfl | rfl | rfl | rfl <;> simp [popaWords]
  · apply BitVec.eq_of_toNat_eq
    omega
  · funext r
    have hseg : (c₂.regs .ax).setWidth 16 = s.seg .ds := by
      rw [hds]
      exact setWidth_setLow _ _
    change u.seg r = s.seg r
    simp only [u, hseg]
    cases r <;> simp [hflat _]
  · change (c₃.addSp 8).mem = _
    exact hmem₃.trans hmem₂

/-- What the processor has saved on x86_64, and what comes back. -/
theorem iret_x86_64 {s u : Machine .x86_64} {rest : List (Word .x86_64)}
    (hwords : u.cpu.mem.WordsAt _ u.cpu.sp.toNat
      (s.cpu.pc :: s.cs.setWidth _ :: s.flags :: s.cpu.sp :: s.ss.setWidth _ :: rest))
    (hroom : u.cpu.sp.toNat + 32 < 2 ^ 64) :
    u.iret.cpu.pc = s.cpu.pc ∧ u.iret.cs = s.cs ∧ u.iret.flags = s.flags ∧ u.iret.cpu.sp = s.cpu.sp ∧
      u.iret.ss = s.ss := by
  have hw : Target.ptrBytes .x86_64 = 8 := rfl
  have hbits : 2 ^ (8 * Target.ptrBytes .x86_64) = 2 ^ 64 := rfl
  have hpc := Cpu.stackWord_of_wordsAt (i := 0) hwords rfl (by omega)
  have hcs := Cpu.stackWord_of_wordsAt (i := 1) hwords rfl (by omega)
  have hflags := Cpu.stackWord_of_wordsAt (i := 2) hwords rfl (by omega)
  have hsp := Cpu.stackWord_of_wordsAt (i := 3) hwords rfl (by omega)
  have hss := Cpu.stackWord_of_wordsAt (i := 4) hwords rfl (by omega)
  refine ⟨hpc, (congrArg (BitVec.setWidth 16) hcs).trans ?_, hflags, hsp,
    (congrArg (BitVec.setWidth 16) hss).trans ?_⟩
  · rw [BitVec.setWidth_setWidth_of_le _ (by decide), BitVec.setWidth_eq]
  · rw [BitVec.setWidth_setWidth_of_le _ (by decide), BitVec.setWidth_eq]

/-- The rest stays. -/
theorem iret_keeps (u : Machine T) :
    u.iret.cpu.regs = u.cpu.regs ∧ u.iret.cpu.mem = u.cpu.mem ∧ u.iret.seg = u.seg := by
  cases T <;> simp only [Machine.iret, and_self]

/-- The way out on x86_64. -/
theorem commonExit_x86_64 {s t : Machine .x86_64} {n : Nat} {err : Word .x86_64} {frame : Nat}
    (hsp : t.cpu.sp.toNat = frame) (hroom : frame + 176 < 2 ^ 64)
    (hwords : t.cpu.mem.WordsAt _ frame (frameWords .x86_64 s n err)) (hseg : t.seg = s.seg) :
    SameCpu s (commonExit .x86_64 t) ∧ (commonExit .x86_64 t).cpu.mem = t.cpu.mem := by
  have hw : Target.ptrBytes .x86_64 = 8 := rfl
  have hbits : 2 ^ (8 * Target.ptrBytes .x86_64) = 2 ^ 64 := rfl
  have hlen : poppedRegs.length = 15 := rfl
  rw [← hsp] at hwords
  obtain ⟨hpop, hback⟩ := Mem.wordsAt_append.mp hwords
  obtain ⟨hsp₁, hmem₁, hregs₁, -⟩ := Cpu.popAll_spec t.cpu poppedRegs s.cpu.regs (by decide) hpop
    (by rw [hlen]; omega)
  rw [hlen] at hsp₁
  generalize hc : poppedRegs.foldl Cpu.pop t.cpu = c at hsp₁ hmem₁ hregs₁
  let u : Machine .x86_64 := ⟨c.addSp 16, t.seg, t.cs, t.ss, t.flags⟩
  have hu : commonExit .x86_64 t = u.iret := by
    subst hc
    rfl
  have hspu : u.cpu.sp.toNat = frame + 136 := by
    change (c.addSp 16).sp.toNat = _
    rw [Cpu.addSp, Cpu.toNat_add_disp (by omega), hsp₁]
    omega
  obtain ⟨hpc, hcs, hflags, hspr, hss⟩ := iret_x86_64 (s := s) (u := u)
    (by
      rw [hspu]
      have h := (@Mem.wordsAt_append _ _ _ [BitVec.ofNat _ n, err] _).mp hback
      have hpos : t.cpu.sp.toNat + (poppedRegs.map s.cpu.regs).length * Target.ptrBytes .x86_64 +
          [BitVec.ofNat (8 * Target.ptrBytes .x86_64) n, err].length * Target.ptrBytes .x86_64 =
            frame + 136 := by
        change t.cpu.sp.toNat + 15 * _ + 2 * _ = _
        omega
      rw [hpos, ← hmem₁] at h
      exact h.2) (by omega)
  obtain ⟨hregs, hmem, hseg'⟩ := iret_keeps u
  have hall : ∀ q ∈ generalRegs .x86_64, q ∈ poppedRegs := by decide
  rw [hu]
  refine ⟨⟨fun q hq => ?_, hspr, hpc, hflags, hseg'.trans hseg, hcs, hss⟩, hmem.trans hmem₁⟩
  rw [hregs]
  exact hregs₁ q (hall q hq)

/-! ## There and back -/

/-- The processor does not save above the stack pointer. -/
theorem saveBase_le (s : Machine T) : s.saveBase.toNat ≤ s.cpu.sp.toNat := by
  cases T with
  | x86 => exact le_rfl
  | x86_64 =>
      change (s.cpu.sp &&& ~~~0xF).toNat ≤ _
      rw [BitVec.toNat_and]
      exact Nat.and_le_left

/-- The stubs push words and load registers: the flags and the stack segment stay. -/
theorem commonEntry_keeps (K : StubAddrs T) (s : Machine T) :
    (commonEntry T K s).flags = s.flags ∧ (commonEntry T K s).ss = s.ss := by
  cases T with
  | x86 => simp only [commonEntry, Machine.pusha, flags_push, flags_pushWord, flags_movAx, flags_movSegAx,
      ss_push, ss_pushWord, ss_movAx, ss_movSegAx, and_self]
  | x86_64 => simp only [commonEntry, flags_push, flags_mov, ss_push, ss_mov, and_self]

/-- So does the stub of a vector. -/
theorem isrStub_keeps (n : Nat) (s : Machine T) :
    (isrStub n s).flags = s.flags ∧ (isrStub n s).ss = s.ss ∧ (isrStub n s).seg = s.seg := by
  rw [isrStub]
  split <;> exact ⟨rfl, rfl, rfl⟩

/-- The stub and `isr_dispatch` run with the flags an interrupt gate clears. -/
theorem flags_enter (K : StubAddrs T) (idt n : Nat) (err : Option (Word T)) (s : Machine T) :
    (enter K idt n err s).flags = s.flags &&& ~~~(BitVec.ofNat _ Machine.clearedFlags) := by
  rw [enter, (commonEntry_keeps K _).1, (isrStub_keeps n _).1]
  rfl

/-- The stack segment stays. -/
theorem ss_enter (K : StubAddrs T) (idt n : Nat) (err : Option (Word T)) (s : Machine T) :
    (enter K idt n err s).ss = s.ss := by
  rw [enter, (commonEntry_keeps K _).2, (isrStub_keeps n _).2.1]
  rfl

/-- On x86_64 the data segments stay too. -/
theorem seg_enter (K : StubAddrs .x86_64) (idt n : Nat) (err : Option (Word .x86_64))
    (s : Machine .x86_64) : (enter K idt n err s).seg = s.seg := by
  have hentry : ∀ s : Machine .x86_64, (commonEntry .x86_64 K s).seg = s.seg := fun s => by
    simp only [commonEntry, seg_push, seg_mov]
  rw [enter, hentry, (isrStub_keeps n _).2.2]
  rfl

/-- The flag that lets interrupts through is cleared. -/
theorem interruptFlag_enter (K : StubAddrs T) (idt n : Nat) (err : Option (Word T)) (s : Machine T) :
    (enter K idt n err s).flags.getLsbD 9 = false := by
  have hbit : (BitVec.ofNat (8 * T.ptrBytes) Machine.clearedFlags).getLsbD 9 = true := by
    cases T <;> decide
  rw [flags_enter, BitVec.getLsbD_and, BitVec.getLsbD_not, hbit, Bool.not_true, Bool.and_false, Bool.and_false]

/-- On x86_64 the stack is aligned as a function expects it at its first instruction. -/
theorem aligned_enter {K : StubAddrs T} {s : Machine T} {err : Option (Word T)}
    (hroom : HasRoom s) (herr : err.isSome ↔ n ∈ isrErr) (hT : T = .x86_64) :
    (enter K idt n err s).cpu.sp.toNat % 16 = 8 := by
  subst hT
  have halign : s.saveBase.toNat % 16 = 0 := by
    have hmask : (~~~0xF : BitVec 64).toNat = 2 ^ 64 - 2 ^ 4 := by decide
    have hclear := @clearLow_of_lt 64 4 _ (by decide) s.cpu.sp.isLt
    change (s.cpu.sp &&& ~~~0xF).toNat % 16 = 0
    rw [BitVec.toNat_and]
    change (s.cpu.sp.toNat &&& (~~~0xF : BitVec 64).toNat) % 16 = 0
    rw [hmask]
    change clearLow 64 4 s.cpu.sp.toNat % 16 = 0
    rw [hclear]
    omega
  obtain ⟨-, hsp, -⟩ := enter_spec K idt hroom herr
  have hbytes : frameBytes .x86_64 = 176 := rfl
  rw [HasRoom] at hroom
  rw [frameAddr] at hsp
  omega

/-- The way out of an interrupt. -/
theorem commonExit_spec {t : Machine T} (hroom : HasRoom s) (hflat : T = .x86 → FlatSegs s)
    (herr : err.isSome ↔ n ∈ isrErr) (h : DispatchReturns (frameAddr s) (enter K idt n err s) t) :
    SameCpu s (commonExit T t) ∧ (commonExit T t).cpu.mem = t.cpu.mem := by
  obtain ⟨hwords, hsp, -⟩ := enter_spec K idt hroom herr
  have hkept : t.cpu.mem.WordsAt T.ptrBytes (frameAddr s) (frameWords T s n (err.getD 0)) :=
    hwords.congr fun x h₁ h₂ => by
      rw [length_frameWords] at h₂
      exact (h.frame x h₁ h₂).symm
  have hss : t.ss = s.ss := h.ss.trans (ss_enter K idt n err s)
  have hret := h.sp
  have hbase := saveBase_le s
  have hlt := s.cpu.sp.isLt
  rw [HasRoom] at hroom
  rw [frameAddr] at hsp
  cases T with
  | x86 =>
      have hbytes : frameBytes .x86 = 56 := rfl
      have hw : Target.ptrBytes .x86 = 4 := rfl
      refine commonExit_x86 ?_ ?_ (hflat rfl) hkept hss
      · rw [frameAddr]
        omega
      · have hsave : s.saveBase = s.cpu.sp := rfl
        rw [frameAddr, hsave] at *
        omega
  | x86_64 =>
      have hbytes : frameBytes .x86_64 = 176 := rfl
      have hw : Target.ptrBytes .x86_64 = 8 := rfl
      have hbits : 2 ^ (8 * Target.ptrBytes .x86_64) = 2 ^ 64 := rfl
      refine commonExit_x86_64 ?_ ?_ hkept (h.seg.trans (seg_enter K idt n err s))
      · rw [frameAddr]
        omega
      · rw [frameAddr]
        omega

/-- Interrupts are transparent. After `idt_init` the processor finds the stub of every vector below 48.
`isr_dispatch` begins with interrupts disabled and with the stack aligned, with the address of a frame that
holds the vector, the error code or 0, and everything the interrupted program had; and once it has returned
the program goes on with the registers, the flags and the segments it had, while memory is as
`isr_dispatch` left it. -/
theorem interrupt_transparent (T : Target) (K : StubAddrs T) (idt n : Nat) (m₀ : Mem)
    (err : Option (Word T)) (s t : Machine T)
    (htable : ∀ x, idt ≤ x → x < idt + 48 * gateSize T → s.cpu.mem x = idtInit T m₀ idt K.stubs x)
    (hn : n < 48) (herr : err.isSome ↔ n ∈ isrErr) (hroom : HasRoom s)
    (hflat : T = .x86 → FlatSegs s)
    (hreturns : DispatchReturns (frameAddr s) (enter K idt n err s) t) :
    gateAt T s.cpu.mem idt n = ⟨K.stubs n, 0x08, 0x8E⟩ ∧
      (enter K idt n err s).cpu.mem.WordsAt T.ptrBytes (frameAddr s) (frameWords T s n (err.getD 0)) ∧
      (frameArg T (enter K idt n err s)).toNat = frameAddr s ∧
      (enter K idt n err s).flags.getLsbD 9 = false ∧
      (T = .x86_64 → (enter K idt n err s).cpu.sp.toNat % 16 = 8) ∧
      (∀ x, x < frameAddr s - 8 ∨ s.saveBase.toNat ≤ x →
        (enter K idt n err s).cpu.mem x = s.cpu.mem x) ∧
      t.cpu.pc = K.afterCall ∧
      SameCpu s (commonExit T t) ∧ (commonExit T t).cpu.mem = t.cpu.mem := by
  obtain ⟨hwords, -, harg, hpc, hkeep⟩ := enter_spec K idt hroom herr
  obtain ⟨hsame, hmem⟩ := commonExit_spec hroom hflat herr hreturns
  refine ⟨?_, hwords, harg, interruptFlag_enter K idt n err s, aligned_enter hroom herr, hkeep,
    hreturns.pc.trans hpc, hsame, hmem⟩
  refine Eq.trans (gateAt_congr fun x h₁ h₂ => ?_) (gateAt_idtInit m₀ idt K.stubs hn)
  have hle : (n + 1) * gateSize T ≤ 48 * gateSize T := Nat.mul_le_mul_right _ (by omega)
  rw [Nat.succ_mul] at hle
  exact htable x (by omega) (by omega)

/-! ## A timer interrupt -/

/-- A function that does nothing but return. -/
def Machine.ret (s : Machine T) : Machine T := { s with cpu := s.cpu.ret }

/-- It is an `isr_dispatch`. -/
theorem dispatchReturns_ret {e : Machine T} {frame : Nat}
    (h : e.cpu.sp.toNat + T.ptrBytes < 2 ^ (8 * T.ptrBytes)) : DispatchReturns frame e e.ret where
  sp := Cpu.toNat_add_disp h
  pc := rfl
  seg := rfl
  ss := rfl
  frame _ _ _ := rfl

/-- Some addresses. -/
def someStubs : StubAddrs .x86 := ⟨fun n => BitVec.ofNat _ (0x10000 + 16 * n), 0x20000, 0x30000⟩

/-- A machine after `gdt_flush` and `idt_init`, with the table at `0x1000`. -/
def someMachine : Machine .x86 where
  cpu := ⟨fun _ => 7, 0x90000, 0x40000, idtInit .x86 (fun _ => 0) 0x1000 someStubs.stubs⟩
  seg _ := 0x10
  cs := 0x08
  ss := 0x10
  flags := 0x202

/-- There is room on its stack. -/
theorem hasRoom_someMachine : HasRoom someMachine := by
  change 56 + 8 ≤ 0x90000
  decide

/-- Its `isr_dispatch` returns from a timer interrupt. -/
theorem dispatchReturns_someMachine :
    DispatchReturns (frameAddr someMachine) (enter someStubs 0x1000 32 none someMachine)
      (enter someStubs 0x1000 32 none someMachine).ret := by
  apply dispatchReturns_ret
  obtain ⟨-, hsp, -⟩ := enter_spec (n := 32) someStubs 0x1000 hasRoom_someMachine
    (show (none : Option (Word .x86)).isSome ↔ 32 ∈ isrErr by decide)
  have hframe : frameAddr someMachine = 0x90000 - 56 := rfl
  have hw : Target.ptrBytes .x86 = 4 := rfl
  have hbits : 2 ^ (8 * Target.ptrBytes .x86) = 2 ^ 32 := rfl
  omega

/-- The timer interrupts the machine, and it goes on as if nothing had happened. -/
theorem interrupt_transparent_timer :
    gateAt .x86 someMachine.cpu.mem 0x1000 32 = ⟨0x10200, 0x08, 0x8E⟩ ∧
      SameCpu someMachine (commonExit .x86 (enter someStubs 0x1000 32 none someMachine).ret) := by
  obtain ⟨hgate, -, -, -, -, -, -, hsame, -⟩ := interrupt_transparent .x86 someStubs 0x1000 32 (fun _ => 0) none
    someMachine _ (fun _ _ _ => rfl) (by decide) (by decide) hasRoom_someMachine (fun _ _ => rfl)
    dispatchReturns_someMachine
  exact ⟨hgate, hsame⟩

end Isr

end Aerogel
