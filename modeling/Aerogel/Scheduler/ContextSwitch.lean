import Aerogel.Foundations.Run
import Aerogel.Scheduler.Context

/-! # Switching between threads

Any number of threads, each with a record and a stack of its own. The running one may change all
registers and all memory except the stacks and saved stack pointers of the others; it may create threads
and call `switch_context` the way `sched_yield` does. `Ctx` is what a suspended thread expects, and
`switch_transparent` says that it gets it, in every order of switches. -/

namespace Aerogel

namespace Context

/-! ## One switch -/

/-- The registers `switch_context` saves, in the order it pushes them. -/
def savedRegs : Target → List Reg
  | .x86 => [.bp, .bx, .si, .di]
  | .x86_64 => [.bp, .bx, .r12, .r13, .r14, .r15]

/-- The registers and the return address. -/
def frameBytes (T : Target) : Nat := ((savedRegs T).length + 1) * T.ptrBytes

/-- The arguments of `switch_context` on the stack. -/
def argBytes : Target → Nat
  | .x86 => 8
  | .x86_64 => 0

/-- The caller passes `old_esp` and `new_esp`. -/
def PassesArgs : (T : Target) → Machine T → (oldEsp newEsp : Word T) → Prop
  | .x86, s, oldEsp, newEsp => s.stackWord 0 = oldEsp ∧ s.stackWord 4 = newEsp
  | .x86_64, s, oldEsp, newEsp => s.regs .di = oldEsp ∧ s.regs .si = newEsp

/-- The argument of a function at its first instruction. -/
def argument : (T : Target) → Machine T → Word T
  | .x86, s => s.stackWord 4
  | .x86_64, s => s.regs .di

/-- No register is saved twice. -/
theorem nodup_savedRegs (T : Target) : (savedRegs T).reverse.Nodup := by
  cases T <;> decide

/-- Memory when `switch_context` leaves the caller's stack. -/
def leftBehind (T : Target) (s : Machine T) (next oldEsp : Word T) : Mem :=
  (s.mem.storeDown s.sp.toNat (next :: (savedRegs T).map s.regs)).setWord oldEsp.toNat
    (BitVec.ofNat (8 * T.ptrBytes) (s.sp.toNat - frameBytes T))

/-- The frame has one word for each register and one for the return address. -/
theorem length_frame (T : Target) (s : Machine T) (next : Word T) :
    (next :: (savedRegs T).map s.regs).length * T.ptrBytes = frameBytes T := by
  rw [List.length_cons, List.length_map, frameBytes]

/-- The state after the pushes of `switch_context`. -/
theorem pushes_spec (T : Target) (s : Machine T) (target next : Word T)
    (hroom : frameBytes T ≤ s.sp.toNat) :
    let p := (savedRegs T).foldl Cpu.push (s.call target next)
    p.sp.toNat = s.sp.toNat - frameBytes T ∧ p.regs = s.regs ∧ p.pc = target ∧
      p.mem = s.mem.storeDown s.sp.toNat (next :: (savedRegs T).map s.regs) := by
  have hframe : frameBytes T = (savedRegs T).length * T.ptrBytes + T.ptrBytes := Nat.succ_mul _ _
  have hsp : (s.call target next).sp.toNat = s.sp.toNat - T.ptrBytes :=
    Cpu.toNat_sub_width (by omega)
  obtain ⟨h₁, h₂, h₃, h₄⟩ := Cpu.pushAll_spec (s.call target next) (savedRegs T) (by omega)
  refine ⟨by rw [h₁]; omega, h₂, h₃, ?_⟩
  rw [h₄, Mem.storeDown, ← hsp]
  rfl

/-- The middle of `switch_context` on x86: both arguments are still where the caller put them. -/
theorem exchange_x86 {s p : Machine .x86} {oldEsp newEsp : Word .x86}
    (hargs : PassesArgs .x86 s oldEsp newEsp) (hsp : p.sp.toNat + 20 = s.sp.toNat)
    (htop : s.sp.toNat + 8 < 2 ^ (8 * Target.x86.ptrBytes))
    (hmem : ∀ x, s.sp.toNat ≤ x → p.mem x = s.mem x)
    (hapart : oldEsp.toNat + 4 ≤ p.sp.toNat ∨ s.sp.toNat + 8 ≤ oldEsp.toNat) :
    ((p.loadStack .ax 20).storeSp .ax).loadSp 24 =
      ⟨Function.update p.regs .ax oldEsp, newEsp, p.pc, p.mem.setWord oldEsp.toNat p.sp⟩ := by
  obtain ⟨hold, hnew⟩ := hargs
  have hw : Target.ptrBytes .x86 = 4 := rfl
  have hax : p.stackWord 20 = oldEsp := by
    rw [← hold]
    exact Cpu.stackWord_add (k := 20) (d := 0) hsp (by omega) fun x hx _ => hmem x (by omega)
  have hstored : (p.loadStack .ax 20).storeSp .ax =
      ⟨Function.update p.regs .ax oldEsp, p.sp, p.pc, p.mem.setWord oldEsp.toNat p.sp⟩ := by
    rw [Cpu.loadStack, hax, Cpu.storeSp]
    simp only [Function.update_self]
  have hspWord : ((p.loadStack .ax 20).storeSp .ax).stackWord 24 = newEsp := by
    rw [← hnew, hstored]
    refine Cpu.stackWord_add (k := 20) (d := 4) hsp (by omega) fun x h₁ h₂ => ?_
    rw [← hmem x (by omega)]
    exact p.mem.setWord_apply_of_outside _ (by omega)
  rw [Cpu.loadSp, hspWord, hstored]

/-- `switch_context` up to its pops: the caller's frame is complete, and the stack pointer is the one
passed. -/
theorem switchContext_eq (T : Target) (s : Machine T) (target next oldEsp newEsp : Word T)
    (hargs : PassesArgs T s oldEsp newEsp) (hroom : frameBytes T ≤ s.sp.toNat)
    (htop : s.sp.toNat + argBytes T < 2 ^ (8 * T.ptrBytes))
    (hapart : oldEsp.toNat + T.ptrBytes ≤ s.sp.toNat - frameBytes T ∨
      s.sp.toNat + argBytes T ≤ oldEsp.toNat) :
    ∃ regs, switchContext T (s.call target next) = Cpu.ret
      ((savedRegs T).reverse.foldl Cpu.pop ⟨regs, newEsp, target, leftBehind T s next oldEsp⟩) := by
  have hlen := length_frame T s next
  obtain ⟨hsp, hregs, hpc, hmem⟩ := pushes_spec T s target next hroom
  have hleft : ∀ p : Machine T, p.sp.toNat = s.sp.toNat - frameBytes T →
      p.mem = s.mem.storeDown s.sp.toNat (next :: (savedRegs T).map s.regs) →
      p.mem.setWord oldEsp.toNat p.sp = leftBehind T s next oldEsp := by
    intro p hsp hmem
    rw [leftBehind, hmem, ← hsp, BitVec.ofNat_toNat, BitVec.setWidth_eq]
  cases T with
  | x86 =>
      refine ⟨Function.update s.regs .ax oldEsp, ?_⟩
      have hframe : frameBytes .x86 = 20 := rfl
      have hab : argBytes .x86 = 8 := rfl
      have hw : Target.ptrBytes .x86 = 4 := rfl
      have hmid := exchange_x86 (p := (savedRegs .x86).foldl Cpu.push (s.call target next)) hargs
        (by omega) (by omega) (fun x hx => by
          rw [hmem]
          exact s.mem.storeDown_apply_of_outside (by omega) (.inr hx)) (by omega)
      rw [hleft _ hsp hmem, hregs, hpc] at hmid
      rw [← hmid]
      rfl
  | x86_64 =>
      refine ⟨s.regs, ?_⟩
      obtain ⟨hold, hnew⟩ := hargs
      have hmid : (((savedRegs .x86_64).foldl Cpu.push (s.call target next)).storeSp .di).movSp .si =
          ⟨s.regs, newEsp, target, leftBehind .x86_64 s next oldEsp⟩ := by
        rw [Cpu.movSp, Cpu.storeSp, hregs, hold, hnew, hleft _ hsp hmem, hpc]
      rw [← hmid]
      rfl

/-- The pops of `switch_context` and its return, on a stack with a frame: the registers `v`, the address
`pc`, and whatever lies behind them. -/
theorem resume_spec (T : Target) (p : Machine T) (v : Reg → Word T) (pc : Word T)
    (rest : List (Word T))
    (hwords : p.mem.WordsAt T.ptrBytes p.sp.toNat ((savedRegs T).reverse.map v ++ pc :: rest))
    (htop : p.sp.toNat + frameBytes T < 2 ^ (8 * T.ptrBytes)) :
    let r := Cpu.ret ((savedRegs T).reverse.foldl Cpu.pop p)
    r.pc = pc ∧ r.sp.toNat = p.sp.toNat + frameBytes T ∧ r.mem = p.mem ∧
      (∀ q ∈ savedRegs T, r.regs q = v q) ∧
      r.mem.WordsAt T.ptrBytes r.sp.toNat rest := by
  have hframe : frameBytes T = (savedRegs T).length * T.ptrBytes + T.ptrBytes := Nat.succ_mul _ _
  have hlen : (savedRegs T).reverse.length = (savedRegs T).length := List.length_reverse
  rw [Mem.wordsAt_append, List.length_map, hlen] at hwords
  obtain ⟨hregs, hpc, hrest⟩ := hwords
  obtain ⟨h₁, h₂, h₃, -⟩ := Cpu.popAll_spec p (savedRegs T).reverse v (nodup_savedRegs T) hregs
    (by rw [hlen]; omega)
  rw [hlen] at h₁
  have hsp : (Cpu.ret ((savedRegs T).reverse.foldl Cpu.pop p)).sp.toNat =
      p.sp.toNat + frameBytes T := by
    refine (Cpu.toNat_add_disp (by omega)).trans ?_
    rw [h₁, hframe, Nat.add_assoc]
  refine ⟨?_, hsp, h₂, fun q hq => h₃ q (List.mem_reverse.mpr hq), ?_⟩
  · change Mem.word _ _ _ = pc
    rw [h₁, h₂]
    exact hpc
  · rw [hsp, hframe, ← Nat.add_assoc]
    change Mem.WordsAt ((savedRegs T).reverse.foldl Cpu.pop p).mem _ _ _
    rw [h₂]
    exact hrest

/-! ## Suspended threads -/

/-- What a suspended thread expects. -/
inductive Ctx (T : Target)
  /-- It never ran: it is to enter `fn` with `arg`. -/
  | fresh (fn arg : Word T)
  /-- It has called `switch_context` with these registers and this stack pointer, from in front of
  `pc`. -/
  | called (regs : Reg → Word T) (sp pc : Word T)

namespace Ctx

variable {T : Target}

/-- The saved registers in its frame. -/
def regs : Ctx T → Reg → Word T
  | .fresh _ _ => fun _ => 0
  | .called regs _ _ => regs

/-- The return address in its frame. -/
def pc (K : CodeAddrs T) : Ctx T → Word T
  | .fresh _ _ => K.threadTrampoline
  | .called _ _ pc => pc

/-- What else its frame holds. -/
def rest : Ctx T → List (Word T)
  | .fresh fn arg => [fn, arg]
  | .called _ _ _ => []

/-- All of its frame, lowest address first. -/
def frame (K : CodeAddrs T) (d : Ctx T) : List (Word T) :=
  (savedRegs T).reverse.map d.regs ++ d.pc K :: d.rest

/-- Its stack pointer once the frame is taken down. -/
def Top : Ctx T → Nat → Prop
  | .fresh _ _, _ => True
  | .called _ sp _, a => a = sp.toNat

/-- The machine right after `switch_context` is what the thread expects: it goes on behind its call with
its registers and stack pointer, or enters `fn` with `arg` through `thread_trampoline`. -/
def Resumed (K : CodeAddrs T) : Ctx T → Machine T → Prop
  | .fresh fn arg, s => s.pc = K.threadTrampoline ∧
      (threadTrampoline T K s).pc = fn ∧ argument T (threadTrampoline T K s) = arg
  | .called regs sp pc, s => s.pc = pc ∧ s.sp = sp ∧ ∀ q ∈ savedRegs T, s.regs q = regs q

end Ctx

/-- The pops of `thread_trampoline`. -/
theorem trampolinePops_spec {T : Target} (s : Machine T) (fn arg : Word T) {r : Reg} (hr : r ≠ .ax)
    (hwords : s.mem.WordsAt T.ptrBytes s.sp.toNat [fn, arg])
    (htop : s.sp.toNat + 2 * T.ptrBytes < 2 ^ (8 * T.ptrBytes)) :
    ((s.pop .ax).pop r).sp.toNat = s.sp.toNat + 2 * T.ptrBytes ∧
      ((s.pop .ax).pop r).regs .ax = fn ∧ ((s.pop .ax).pop r).regs r = arg := by
  have hnodup : [Reg.ax, r].Nodup := by
    rw [List.nodup_cons, List.mem_singleton]
    exact ⟨fun h => hr h.symm, List.nodup_singleton r⟩
  have hv : [Reg.ax, r].map (fun q => if q = .ax then fn else arg) = [fn, arg] := by
    rw [List.map_cons, List.map_singleton, if_pos rfl, if_neg hr]
  obtain ⟨h₁, -, h₃, -⟩ := Cpu.popAll_spec s [.ax, r] (fun q => if q = .ax then fn else arg) hnodup
    (by rw [hv]; exact hwords) htop
  refine ⟨h₁, ?_, ?_⟩
  · have h := h₃ .ax List.mem_cons_self
    rwa [if_pos rfl] at h
  · have h := h₃ r (List.mem_cons_of_mem _ (List.mem_singleton_self r))
    rwa [if_neg hr] at h

/-- What was pushed before a call is found behind the return address. -/
theorem stackWord_call {s : Machine .x86} (target next : Word .x86) (h : 4 ≤ s.sp.toNat) :
    (s.call target next).stackWord 4 = s.mem.word 4 s.sp.toNat := by
  have hsp : (s.call target next).sp.toNat = s.sp.toNat - 4 := Cpu.toNat_sub_width h
  have hlt := s.sp.isLt
  have h := Cpu.stackWord_add (s := s) (p := s.call target next) (k := 4) (d := 0) (by omega) hlt
    fun x h₁ h₂ => s.mem.setWord_apply_of_outside _ (by
      change x < (s.call target next).sp.toNat ∨ (s.call target next).sp.toNat + 4 ≤ x
      omega)
  rw [h, Cpu.stackWord, Cpu.toNat_add_disp hlt]
  rfl

/-- `thread_trampoline` on a stack with `fn` and `arg` on top. -/
theorem threadTrampoline_spec (T : Target) (K : CodeAddrs T) (s : Machine T) (fn arg : Word T)
    (hwords : s.mem.WordsAt T.ptrBytes s.sp.toNat [fn, arg])
    (htop : s.sp.toNat + 2 * T.ptrBytes < 2 ^ (8 * T.ptrBytes)) :
    (threadTrampoline T K s).pc = fn ∧ argument T (threadTrampoline T K s) = arg := by
  cases T with
  | x86 =>
      have hw : Target.ptrBytes .x86 = 4 := rfl
      obtain ⟨hsp, hax, hcx⟩ := trampolinePops_spec s fn arg (show Reg.cx ≠ .ax by decide) hwords htop
      have hpush : (((s.pop .ax).pop .cx).push .cx).sp.toNat = s.sp.toNat + 4 := by
        refine (Cpu.toNat_sub_width (by omega)).trans ?_
        omega
      refine ⟨hax, ?_⟩
      refine (stackWord_call _ _ (by omega)).trans ?_
      rw [← hcx]
      exact Mem.word_setWord_same _ _ _
  | x86_64 =>
      obtain ⟨-, hax, hdi⟩ := trampolinePops_spec s fn arg (show Reg.di ≠ .ax by decide) hwords htop
      exact ⟨hax, hdi⟩

/-! ## Memory of the threads -/

/-- Where the records and stacks of the threads `ι` are: all apart, none at the end of memory. -/
structure Places (T : Target) (ι : Type) where
  /-- The record of a thread. -/
  tcb : ι → Nat
  /-- The stack of a thread. -/
  stack : ι → Nat
  /-- The size of the stack. -/
  size : ι → Nat
  /-- Records lie in memory. -/
  tcb_lt : ∀ i, tcb i + (threadLayout T).size < 2 ^ (8 * T.ptrBytes)
  /-- Stacks lie in memory. -/
  stack_lt : ∀ i, stack i + size i < 2 ^ (8 * T.ptrBytes)
  /-- Records do not overlap. -/
  tcb_apart : ∀ i j, i ≠ j → tcb i + (threadLayout T).size ≤ tcb j ∨
    tcb j + (threadLayout T).size ≤ tcb i
  /-- Stacks do not overlap. -/
  stack_apart : ∀ i j, i ≠ j → stack i + size i ≤ stack j ∨ stack j + size j ≤ stack i
  /-- Records do not overlap with stacks. -/
  tcb_stack_apart : ∀ i j, tcb i + (threadLayout T).size ≤ stack j ∨ stack j + size j ≤ tcb i

variable {T : Target} {ι : Type} {P : Places T ι} {K : CodeAddrs T}

namespace Places

/-- `&t->esp`. -/
def espAddr (P : Places T ι) (i : ι) : Nat := P.tcb i + (threadLayout T).off .esp

/-- `t->esp`. -/
def esp (P : Places T ι) (m : Mem) (i : ι) : Word T := m.word T.ptrBytes (P.espAddr i)

/-- The saved stack pointer is a word of the record. -/
theorem espAddr_add_le (P : Places T ι) (i : ι) :
    P.espAddr i + T.ptrBytes ≤ P.tcb i + (threadLayout T).size := by
  have h : (threadLayout T).off .esp + T.ptrBytes ≤ (threadLayout T).size := by
    cases T <;> decide
  rw [espAddr]
  omega

/-- The saved stack pointer lies in the record. -/
theorem tcb_le_espAddr (P : Places T ι) (i : ι) : P.tcb i ≤ P.espAddr i := Nat.le_add_right _ _

/-- The memory of a suspended thread that nobody else may change: its stack and its saved stack
pointer. -/
def Protects (P : Places T ι) (i : ι) (x : Nat) : Prop :=
  (P.stack i ≤ x ∧ x < P.stack i + P.size i) ∨ (P.espAddr i ≤ x ∧ x < P.espAddr i + T.ptrBytes)

end Places

/-- The frame of a suspended thread lies on its stack, where its record says. -/
structure Frame (P : Places T ι) (K : CodeAddrs T) (m : Mem) (i : ι) (d : Ctx T) : Prop where
  /-- The frame begins on the stack. -/
  lo : P.stack i ≤ (P.esp m i).toNat
  /-- The frame ends on the stack. -/
  hi : (P.esp m i).toNat + (d.frame K).length * T.ptrBytes ≤ P.stack i + P.size i
  /-- The words of the frame. -/
  words : m.WordsAt T.ptrBytes (P.esp m i).toNat (d.frame K)
  /-- The stack pointer is as it was at the call. -/
  top : d.Top ((P.esp m i).toNat + frameBytes T)

/-- A frame depends on what belongs to the thread. -/
theorem Frame.congr {m m' : Mem} {i : ι} {d : Ctx T} (h : Frame P K m i d)
    (heq : ∀ x, P.Protects i x → m' x = m x) : Frame P K m' i d := by
  have hesp : P.esp m' i = P.esp m i := Mem.word_congr fun x h₁ h₂ => heq x (.inr ⟨h₁, h₂⟩)
  have hlo := h.lo
  have hhi := h.hi
  refine ⟨?_, ?_, ?_, ?_⟩
  · rw [hesp]
    exact h.lo
  · rw [hesp]
    exact h.hi
  · rw [hesp]
    refine h.words.congr fun x h₁ h₂ => ?_
    exact (heq x (.inl ⟨by omega, by omega⟩)).symm
  · rw [hesp]
    exact h.top

/-- Registers saved by `called` are found again. -/
theorem frame_called (K : CodeAddrs T) (regs : Reg → Word T) (sp pc : Word T) :
    (Ctx.called regs sp pc).frame K = (pc :: (savedRegs T).map regs).reverse := by
  rw [List.reverse_cons, ← List.map_reverse]
  rfl

/-- The words of `thread_create` are the frame of a thread that never ran. -/
theorem frame_fresh (K : CodeAddrs T) (fn arg : Word T) :
    (Ctx.fresh fn arg).frame K = (initialWords T K fn arg).reverse := by
  cases T <;> rfl

/-- Nothing of the record of a thread is protected for another one. -/
theorem Places.Protects.outside_tcb {i j : ι} {x : Nat} (h : P.Protects j x) (hne : j ≠ i) :
    x < P.tcb i ∨ P.tcb i + (threadLayout T).size ≤ x := by
  have h₁ := P.tcb_stack_apart i j
  have h₂ := P.tcb_apart i j (Ne.symm hne)
  have h₃ := P.espAddr_add_le j
  have h₄ := P.tcb_le_espAddr j
  rcases h with h | h <;> omega

/-- Nothing of the stack of a thread is protected for another one. -/
theorem Places.Protects.outside_stack {i j : ι} {x : Nat} (h : P.Protects j x) (hne : j ≠ i) :
    x < P.stack i ∨ P.stack i + P.size i ≤ x := by
  have h₁ := P.tcb_stack_apart j i
  have h₂ := P.stack_apart i j (Ne.symm hne)
  have h₃ := P.espAddr_add_le j
  have h₄ := P.tcb_le_espAddr j
  rcases h with h | h <;> omega

/-- The frame `thread_create` builds has room on the stack. -/
theorem length_initialWords (K : CodeAddrs T) (fn arg : Word T) :
    (initialWords T K fn arg).length * T.ptrBytes ≤ threadStackSize := by
  cases T <;> exact Nat.le_of_ble_eq_true rfl

/-- `thread_create` writes into the record and the stack it was given, and nowhere else. -/
theorem threadCreate_apply_of_outside {m m' : Mem} {t stack name nextId x : Nat} {fn arg : Word T}
    (h : threadCreate T K m t stack name nextId fn arg = .ok m')
    (ht : x < t ∨ t + (threadLayout T).size ≤ x)
    (hstack : x < stack ∨ stack + threadStackSize ≤ x) : m' x = m x := by
  have hname : (threadLayout T).off .name + threadNameLen ≤ (threadLayout T).size := by
    cases T <;> decide
  have hnameLen : threadNameLen = threadNameLen - 1 + 1 := rfl
  have hlen := length_initialWords K fn arg
  rw [threadCreate] at h
  split_ifs at h
  cases h
  rw [StructLayout.set_apply_of_outside _ _ _ _ ht,
    Mem.storeDown_apply_of_outside _ (by omega) (by omega),
    StructLayout.set_apply_of_outside _ _ _ _ ht, StructLayout.set_apply_of_outside _ _ _ _ ht,
    StructLayout.set_apply_of_outside _ _ _ _ ht, strncpy_apply_of_outside _ (by omega),
    StructLayout.set_apply_of_outside _ _ _ _ ht, memset_apply, if_neg (by omega)]

/-- `thread_create` ends with the frame on the stack and its address in the record. -/
theorem threadCreate_ok {m m' : Mem} {t stack name nextId : Nat} {fn arg : Word T}
    (h : threadCreate T K m t stack name nextId fn arg = .ok m') :
    ∃ m₀ : Mem, m' = (threadLayout T).set
      (m₀.storeDown (stack + threadStackSize) (initialWords T K fn arg)) t .esp
      (stack + threadStackSize - (initialWords T K fn arg).length * T.ptrBytes) := by
  rw [threadCreate] at h
  split_ifs at h
  cases h
  exact ⟨_, rfl⟩

/-- A saved stack pointer reads back. -/
theorem Places.toNat_esp_set (P : Places T ι) (m : Mem) (i : ι) {v : Nat}
    (hv : v < 2 ^ (8 * T.ptrBytes)) :
    (P.esp ((threadLayout T).set m (P.tcb i) .esp v) i).toNat = v := by
  have hwidth : (threadLayout T).width .esp = T.ptrBytes := by cases T <;> rfl
  have hv' : v < 256 ^ T.ptrBytes := by rwa [Nat.pow_mul] at hv
  rw [Places.esp, Mem.word, StructLayout.set, hwidth, Places.espAddr, Mem.load_store_same,
    Nat.mod_eq_of_lt hv', BitVec.toNat_ofNat, Nat.mod_eq_of_lt hv]

/-- `thread_create` leaves the frame of a thread that never ran. -/
theorem frame_threadCreate {m m' : Mem} {i : ι} {name nextId : Nat} {fn arg : Word T}
    (hsize : P.size i = threadStackSize)
    (h : threadCreate T K m (P.tcb i) (P.stack i) name nextId fn arg = .ok m') :
    Frame P K m' i (.fresh fn arg) := by
  obtain ⟨m₀, rfl⟩ := threadCreate_ok h
  have hlen := length_initialWords K fn arg
  have hstack := P.stack_lt i
  have hapart := P.tcb_stack_apart i i
  have hesp := P.toNat_esp_set (m₀.storeDown (P.stack i + threadStackSize) (initialWords T K fn arg)) i
    (show P.stack i + threadStackSize - (initialWords T K fn arg).length * T.ptrBytes < _ by omega)
  refine ⟨by omega, ?_, ?_, trivial⟩
  · rw [hesp, frame_fresh, List.length_reverse]
    omega
  · rw [hesp, frame_fresh]
    refine (m₀.wordsAt_storeDown (by omega)).congr fun x h₁ h₂ => ?_
    rw [List.length_reverse] at h₂
    exact (StructLayout.set_apply_of_outside _ _ _ _ (by omega)).symm

/-- The address of a saved stack pointer is a machine word. -/
theorem Places.toNat_espAddr (P : Places T ι) (i : ι) :
    (BitVec.ofNat (8 * T.ptrBytes) (P.espAddr i)).toNat = P.espAddr i := by
  have h₁ := P.tcb_lt i
  have h₂ := P.espAddr_add_le i
  rw [BitVec.toNat_ofNat, Nat.mod_eq_of_lt (by omega)]

section Leave

variable {s : Machine T} {i : ι} (pc : Word T) (hroom : P.stack i + frameBytes T ≤ s.sp.toNat)
  (htop : s.sp.toNat ≤ P.stack i + P.size i)
include hroom htop

/-- `switch_context` leaves a frame for the caller. -/
theorem frame_leftBehind :
    Frame P K (leftBehind T s pc (BitVec.ofNat _ (P.espAddr i))) i (.called s.regs s.sp pc) := by
  have hlen := length_frame T s pc
  have hlt := s.sp.isLt
  have h₁ := P.espAddr_add_le i
  have h₂ := P.tcb_le_espAddr i
  have hapart := P.tcb_stack_apart i i
  have hesp : (P.esp (leftBehind T s pc (BitVec.ofNat _ (P.espAddr i))) i).toNat =
      s.sp.toNat - frameBytes T := by
    rw [Places.esp, leftBehind, P.toNat_espAddr, Mem.word_setWord_same, BitVec.toNat_ofNat,
      Nat.mod_eq_of_lt (by omega)]
  refine ⟨by omega, ?_, ?_, ?_⟩
  · rw [hesp, frame_called, List.length_reverse, hlen]
    omega
  · rw [hesp, frame_called, ← hlen]
    refine (s.mem.wordsAt_storeDown (by omega)).congr fun x hx₁ hx₂ => ?_
    rw [List.length_reverse] at hx₂
    rw [leftBehind, P.toNat_espAddr]
    exact (Mem.setWord_apply_of_outside _ _ (by omega)).symm
  · rw [hesp]
    exact Nat.sub_add_cancel (by omega)

/-- `switch_context` writes to what belongs to the caller. -/
theorem leftBehind_apply {j : ι} {x : Nat} (hx : P.Protects j x) (hne : j ≠ i) :
    leftBehind T s pc (BitVec.ofNat _ (P.espAddr i)) x = s.mem x := by
  have hlen := length_frame T s pc
  have h₁ := P.espAddr_add_le i
  have h₂ := P.tcb_le_espAddr i
  have htcb := hx.outside_tcb hne
  have hstack := hx.outside_stack hne
  rw [leftBehind, P.toNat_espAddr, Mem.setWord_apply_of_outside _ _ (by omega)]
  exact s.mem.storeDown_apply_of_outside (by omega) (by omega)

end Leave

/-! ## The system -/

/-- The machine and its threads. -/
structure Sys (T : Target) (ι : Type) where
  /-- The machine. -/
  cpu : Machine T
  /-- The running thread. -/
  cur : ι
  /-- What the suspended threads expect; `none` for the running thread and for threads that do not
  exist yet. -/
  ctx : ι → Option (Ctx T)

/-- What happens. -/
inductive SysOp (T : Target) (ι : Type)
  /-- The running thread runs. -/
  | run
  /-- It calls `thread_create`. -/
  | create (i : ι) (fn arg : Word T)
  /-- It calls `switch_context` for another thread, from in front of `pc`. -/
  | switch (next : ι) (pc : Word T)

/-- The call of `switch_context` in `sched_yield`: its arguments, and the caller's own stack with room
for the frame. -/
structure CallsSwitch (P : Places T ι) (s : Sys T ι) (next : ι) : Prop where
  /-- `&cur->esp` and `next->esp`. -/
  args : PassesArgs T s.cpu (BitVec.ofNat _ (P.espAddr s.cur)) (P.esp s.cpu.mem next)
  /-- There is room below the stack pointer. -/
  room : P.stack s.cur + frameBytes T ≤ s.cpu.sp.toNat
  /-- The arguments lie on the stack too. -/
  top : s.cpu.sp.toNat + argBytes T ≤ P.stack s.cur + P.size s.cur

variable [DecidableEq ι]

/-- One event. -/
inductive SysStep (P : Places T ι) (K : CodeAddrs T) : Sys T ι → SysOp T ι → Sys T ι → Prop
  /-- Registers and memory change, but not what belongs to suspended threads. -/
  | run {s : Sys T ι} (cpu : Machine T)
      (h : ∀ i, s.ctx i ≠ none → ∀ x, P.Protects i x → cpu.mem x = s.cpu.mem x) :
      SysStep P K s .run { s with cpu := cpu }
  /-- A thread is created in memory that no thread uses. -/
  | create {s : Sys T ι} {i : ι} {name nextId : Nat} {fn arg : Word T} {m : Mem} (hcur : i ≠ s.cur)
      (hnew : s.ctx i = none) (hsize : P.size i = threadStackSize)
      (hcreate : threadCreate T K s.cpu.mem (P.tcb i) (P.stack i) name nextId fn arg = .ok m) :
      SysStep P K s (.create i fn arg)
        { s with
          cpu := { s.cpu with mem := m }
          ctx := Function.update s.ctx i (some (.fresh fn arg)) }
  /-- The caller leaves its own frame and takes down that of the next thread. -/
  | switch {s : Sys T ι} {next : ι} {pc : Word T} (hnext : next ≠ s.cur)
      (hready : s.ctx next ≠ none) (hcall : CallsSwitch P s next) :
      SysStep P K s (.switch next pc)
        { cpu := switchContext T (s.cpu.call K.switchContext pc)
          cur := next
          ctx := Function.update (Function.update s.ctx s.cur
            (some (.called s.cpu.regs s.cpu.sp pc))) next none }

/-! ## All switches -/

/-- Every suspended thread has its frame; the running one has none. -/
structure SysInv (P : Places T ι) (K : CodeAddrs T) (s : Sys T ι) : Prop where
  /-- The running thread is not suspended. -/
  cur : s.ctx s.cur = none
  /-- The suspended threads. -/
  frames : ∀ i d, s.ctx i = some d → Frame P K s.cpu.mem i d

omit [DecidableEq ι] in
/-- The state right after a switch to a suspended thread. -/
theorem SysInv.switchContext_spec {s : Sys T ι} (h : SysInv P K s) {next : ι} {d : Ctx T}
    (hd : s.ctx next = some d) (hnext : next ≠ s.cur) (hcall : CallsSwitch P s next) (pc : Word T) :
    (switchContext T (s.cpu.call K.switchContext pc)).mem =
        leftBehind T s.cpu pc (BitVec.ofNat _ (P.espAddr s.cur)) ∧
      d.Resumed K (switchContext T (s.cpu.call K.switchContext pc)) := by
  have hroom := hcall.room
  have htop := hcall.top
  have hlt := P.stack_lt s.cur
  have hlt' := P.stack_lt next
  have h₁ := P.espAddr_add_le s.cur
  have h₂ := P.tcb_le_espAddr s.cur
  have hapart := P.tcb_stack_apart s.cur s.cur
  obtain ⟨regs, heq⟩ := switchContext_eq T s.cpu K.switchContext pc _ _ hcall.args (by omega)
    (by omega) (by rw [P.toNat_espAddr]; omega)
  -- the frame of the next thread is untouched
  have hsame : ∀ x, P.Protects next x →
      leftBehind T s.cpu pc (BitVec.ofNat _ (P.espAddr s.cur)) x = s.cpu.mem x :=
    fun x hx => leftBehind_apply pc hroom (by omega) hx hnext
  have hframe := (h.frames next d hd).congr hsame
  have hesp : P.esp (leftBehind T s.cpu pc (BitVec.ofNat _ (P.espAddr s.cur))) next =
      P.esp s.cpu.mem next := Mem.word_congr fun x hx₁ hx₂ => hsame x (.inr ⟨hx₁, hx₂⟩)
  have hhi := hframe.hi
  have hwords := hframe.words
  have hdtop := hframe.top
  have hlen : (d.frame K).length * T.ptrBytes = frameBytes T + d.rest.length * T.ptrBytes := by
    rw [Ctx.frame, List.length_append, List.length_map, List.length_reverse, List.length_cons,
      frameBytes]
    ring
  rw [hesp] at hhi hwords hdtop
  obtain ⟨hpc, hsp, hmem, hregs, hrest⟩ := resume_spec T
    ⟨regs, P.esp s.cpu.mem next, K.switchContext,
      leftBehind T s.cpu pc (BitVec.ofNat _ (P.espAddr s.cur))⟩ d.regs (d.pc K) d.rest hwords
    (show (P.esp s.cpu.mem next).toNat + _ < _ by omega)
  rw [heq]
  refine ⟨hmem, ?_⟩
  cases d with
  | fresh fn arg =>
      refine ⟨hpc, threadTrampoline_spec T K _ fn arg hrest ?_⟩
      have hrestLen : (Ctx.fresh fn arg).rest.length = 2 := rfl
      rw [hrestLen] at hlen
      rw [hsp]
      change (P.esp s.cpu.mem next).toNat + _ + _ < _
      omega
  | called regs' sp pc' =>
      refine ⟨hpc, ?_, hregs⟩
      apply BitVec.eq_of_toNat_eq
      rw [hsp]
      exact hdtop

/-- Every event keeps the frames. -/
theorem SysInv.step {s s' : Sys T ι} {op : SysOp T ι} (h : SysInv P K s)
    (hstep : SysStep P K s op s') : SysInv P K s' := by
  cases hstep with
  | run cpu hprotect =>
      refine ⟨h.cur, fun i d hd => ?_⟩
      have hsome : s.ctx i ≠ none := by
        rw [hd]
        exact Option.some_ne_none d
      exact (h.frames i d hd).congr (hprotect i hsome)
  | @create i name nextId fn arg m hcur hnew hsize hcreate =>
      refine ⟨?_, fun j d hd => ?_⟩
      · change Function.update s.ctx i _ s.cur = none
        rw [Function.update_of_ne hcur.symm]
        exact h.cur
      · change Function.update s.ctx i _ j = some d at hd
        by_cases hj : j = i
        · subst hj
          rw [Function.update_self] at hd
          cases hd
          exact frame_threadCreate hsize hcreate
        · rw [Function.update_of_ne hj] at hd
          refine (h.frames j d hd).congr fun x hx => ?_
          have hstack := hx.outside_stack hj
          rw [hsize] at hstack
          exact threadCreate_apply_of_outside hcreate (hx.outside_tcb hj) hstack
  | @switch next pc hnext hready hcall =>
      obtain ⟨d₀, hd₀⟩ := Option.ne_none_iff_exists'.mp hready
      obtain ⟨hmem, -⟩ := h.switchContext_spec hd₀ hnext hcall pc
      have hroom := hcall.room
      have htop := hcall.top
      refine ⟨Function.update_self _ _ _, fun j d hd => ?_⟩
      change Function.update (Function.update s.ctx s.cur _) next none j = some d at hd
      change Frame P K (switchContext T _).mem j d
      have hj : j ≠ next := by
        rintro rfl
        rw [Function.update_self] at hd
        cases hd
      rw [Function.update_of_ne hj] at hd
      rw [hmem]
      by_cases hjcur : j = s.cur
      · subst hjcur
        rw [Function.update_self] at hd
        cases hd
        exact frame_leftBehind pc hroom (by omega)
      · rw [Function.update_of_ne hjcur] at hd
        exact (h.frames j d hd).congr fun x hx => leftBehind_apply pc hroom (by omega) hx hjcur

/-- A suspended thread is left alone until somebody switches to it. -/
theorem ctx_step {s s' : Sys T ι} {op : SysOp T ι} {i : ι} {d : Ctx T} (h : SysInv P K s)
    (hstep : SysStep P K s op s') (hd : s.ctx i = some d) (hop : ∀ pc, op ≠ .switch i pc) :
    s'.ctx i = some d := by
  cases hstep with
  | run cpu _ => exact hd
  | @create j _ _ _ _ _ _ hnew _ _ =>
      have hij : i ≠ j := by
        rintro rfl
        rw [hnew] at hd
        cases hd
      change Function.update s.ctx j _ i = some d
      rw [Function.update_of_ne hij, hd]
  | @switch next pc _ _ _ =>
      have hcur : i ≠ s.cur := by
        rintro rfl
        rw [h.cur] at hd
        cases hd
      have hnext : i ≠ next := by
        rintro rfl
        exact hop pc rfl
      change Function.update (Function.update s.ctx s.cur _) next none i = some d
      rw [Function.update_of_ne hnext, Function.update_of_ne hcur, hd]

/-- A suspended thread is left alone in a run without switches to it. -/
theorem ctx_run {s s' : Sys T ι} {ops : List (SysOp T ι)} {i : ι} {d : Ctx T} (h : SysInv P K s)
    (hrun : Run (SysStep P K) s ops s') (hd : s.ctx i = some d) (hops : ∀ pc, .switch i pc ∉ ops) :
    SysInv P K s' ∧ s'.ctx i = some d := by
  induction hrun with
  | nil => exact ⟨h, hd⟩
  | cons hstep _ ih =>
      refine ih (h.step hstep) (ctx_step h hstep hd fun pc hpc => ?_) fun pc hpc => ?_
      · exact hops pc (hpc ▸ List.mem_cons_self)
      · exact hops pc (List.mem_cons_of_mem _ hpc)

/-- A suspended thread is resumed as it expects, by the next switch to it. -/
theorem resumed_of_suspended {s u v : Sys T ι} {ops : List (SysOp T ι)} {i : ι} {d : Ctx T}
    {pc : Word T} (h : SysInv P K s) (hd : s.ctx i = some d) (hrun : Run (SysStep P K) s ops u)
    (hops : ∀ pc, .switch i pc ∉ ops) (hstep : SysStep P K u (.switch i pc) v) :
    d.Resumed K v.cpu := by
  obtain ⟨hinv, hctx⟩ := ctx_run h hrun hd hops
  cases hstep with
  | switch hnext _ hcall => exact (hinv.switchContext_spec hctx hnext hcall pc).2

/-- Context switching is transparent: in every run the first switch to a thread enters its `fn` with its
`arg`, and every later one goes on behind the thread's own call of `switch_context`, with the
callee-saved registers and the stack pointer it had there. -/
theorem switch_transparent (s₀ s : Sys T ι) (ops : List (SysOp T ι)) (hinit : ∀ i, s₀.ctx i = none)
    (hrun : Run (SysStep P K) s₀ ops s) :
    (∀ i fn arg t ops' u pc v, SysStep P K s (.create i fn arg) t → Run (SysStep P K) t ops' u →
      (∀ pc', .switch i pc' ∉ ops') → SysStep P K u (.switch i pc) v →
      v.cpu.pc = K.threadTrampoline ∧ (threadTrampoline T K v.cpu).pc = fn ∧
        argument T (threadTrampoline T K v.cpu) = arg) ∧
    (∀ next pc t ops' u pc₂ v, SysStep P K s (.switch next pc) t → Run (SysStep P K) t ops' u →
      (∀ pc', .switch s.cur pc' ∉ ops') → SysStep P K u (.switch s.cur pc₂) v →
      v.cpu.pc = pc ∧ v.cpu.sp = s.cpu.sp ∧ ∀ q ∈ savedRegs T, v.cpu.regs q = s.cpu.regs q) := by
  have hinv₀ : SysInv P K s₀ := by
    refine ⟨hinit _, fun i d hd => ?_⟩
    rw [hinit i] at hd
    cases hd
  have hinv := hrun.invariant (fun _ _ _ h hstep => h.step hstep) hinv₀
  refine ⟨fun i fn arg t ops' u pc v hcreate hrun' hops hstep => ?_,
    fun next pc t ops' u pc₂ v hswitch hrun' hops hstep => ?_⟩
  · have hctx : t.ctx i = some (.fresh fn arg) := by
      cases hcreate with
      | create => exact Function.update_self _ _ _
    exact resumed_of_suspended (hinv.step hcreate) hctx hrun' hops hstep
  · have hctx : t.ctx s.cur = some (.called s.cpu.regs s.cpu.sp pc) := by
      cases hswitch with
      | switch hnext _ _ =>
          change Function.update (Function.update s.ctx s.cur _) next none s.cur = _
          rw [Function.update_of_ne hnext.symm, Function.update_self]
    exact resumed_of_suspended (hinv.step hswitch) hctx hrun' hops hstep

/-! ## Two threads -/

/-- The running thread has loaded the arguments of `switch_context` and moved its stack pointer. -/
def Sys.loadArgs {ι : Type} (P : Places .x86_64 ι) (s : Sys .x86_64 ι) (next : ι)
    (sp : Word .x86_64) : Sys .x86_64 ι :=
  { s with cpu := { s.cpu with
      regs := Function.update (Function.update s.cpu.regs .di (BitVec.ofNat _ (P.espAddr s.cur))) .si
        (P.esp s.cpu.mem next)
      sp := sp } }

/-- It may do so at any time. -/
theorem run_loadArgs (P : Places .x86_64 ι) (K : CodeAddrs .x86_64) (s : Sys .x86_64 ι) (next : ι)
    (sp : Word .x86_64) : SysStep P K s .run (s.loadArgs P next sp) :=
  .run _ fun _ _ _ _ => rfl

/-- It may then call `switch_context`. -/
theorem exists_switch (P : Places .x86_64 ι) (K : CodeAddrs .x86_64) (s : Sys .x86_64 ι) (next : ι)
    (sp pc : Word .x86_64) (hnext : next ≠ s.cur) (hready : s.ctx next ≠ none)
    (hroom : P.stack s.cur + 56 ≤ sp.toNat) (htop : sp.toNat ≤ P.stack s.cur + P.size s.cur) :
    ∃ v, SysStep P K (s.loadArgs P next sp) (.switch next pc) v ∧ v.cur = next ∧
      v.ctx s.cur ≠ none := by
  have hargs : PassesArgs .x86_64 (s.loadArgs P next sp).cpu (BitVec.ofNat _ (P.espAddr s.cur))
      (P.esp s.cpu.mem next) := by
    have hne : Reg.di ≠ .si := by decide
    simp only [PassesArgs, Sys.loadArgs, Function.update_self, Function.update_of_ne hne, and_self]
  refine ⟨_, .switch hnext hready ⟨hargs, hroom, htop⟩, rfl, ?_⟩
  change Function.update (Function.update s.ctx s.cur _) next none s.cur ≠ none
  rw [Function.update_of_ne hnext.symm, Function.update_self]
  exact Option.some_ne_none _

/-- Records and stacks for two threads. -/
def twoPlaces : Places .x86_64 Bool where
  tcb i := if i then 0x2000 else 0x1000
  stack i := if i then 0x20000 else 0x10000
  size _ := threadStackSize
  tcb_lt := by decide
  stack_lt := by decide
  tcb_apart := by decide
  stack_apart := by decide
  tcb_stack_apart := by decide

/-- Some addresses. -/
def someCode : CodeAddrs .x86_64 := ⟨0x100, 0x200, 0x210⟩

/-- A machine with one thread. -/
def oneThread : Sys .x86_64 Bool := ⟨⟨fun _ => 9, 0x12000, 0, fun _ => 0⟩, false, fun _ => none⟩

/-- A second thread is created, entered, and left for the first one. -/
theorem switch_transparent_roundTrip : ∃ t u v w x : Sys .x86_64 Bool,
    SysStep twoPlaces someCode oneThread (.create true 5 7) t ∧
    SysStep twoPlaces someCode t .run u ∧ SysStep twoPlaces someCode u (.switch true 0x300) v ∧
    SysStep twoPlaces someCode v .run w ∧ SysStep twoPlaces someCode w (.switch false 0x400) x ∧
    (threadTrampoline .x86_64 someCode v.cpu).pc = 5 ∧
    (threadTrampoline .x86_64 someCode v.cpu).regs .di = 7 ∧
    x.cpu.pc = 0x300 ∧ x.cpu.sp = 0x13000 ∧ x.cpu.regs .bx = 9 := by
  obtain ⟨t, h₁, hcur, hctx, hregs⟩ : ∃ t,
      SysStep twoPlaces someCode oneThread (.create true 5 7) t ∧ t.cur = false ∧ t.ctx true ≠ none ∧
        t.cpu.regs .bx = 9 := by
    obtain ⟨m, hm⟩ : ∃ m, threadCreate .x86_64 someCode oneThread.cpu.mem (twoPlaces.tcb true)
        (twoPlaces.stack true) 0 1 5 7 = .ok m := ⟨_, rfl⟩
    exact ⟨_, .create (by decide) rfl rfl hm, rfl, Option.some_ne_none _, rfl⟩
  have h₂ := run_loadArgs twoPlaces someCode t true 0x13000
  obtain ⟨v, h₃, hvcur, hvctx⟩ := exists_switch twoPlaces someCode t true 0x13000 0x300
    (by rw [hcur]; decide) hctx (by rw [hcur]; decide) (by rw [hcur]; decide)
  have h₄ := run_loadArgs twoPlaces someCode v false 0x23000
  rw [hcur] at hvctx
  obtain ⟨x, h₅, -, -⟩ := exists_switch twoPlaces someCode v false 0x23000 0x400
    (by rw [hvcur]; decide) hvctx (by rw [hvcur]; decide) (by rw [hvcur]; decide)
  have hfirst := (switch_transparent oneThread oneThread [] (fun _ => rfl) (.nil _)).1 true 5 7 t _ _
    _ v h₁ (.single h₂) (fun _ h => by simp at h) h₃
  have hback := (switch_transparent oneThread _ _ (fun _ => rfl) (.cons h₁ (.single h₂))).2 true 0x300 v
    _ _ 0x400 x h₃ (.single h₄) (fun _ h => by simp at h) (by
      change SysStep _ _ _ (.switch t.cur _) _
      rw [hcur]
      exact h₅)
  refine ⟨t, _, v, _, x, h₁, h₂, h₃, h₄, h₅, hfirst.2.1, hfirst.2.2, hback.1, hback.2.1, ?_⟩
  rw [hback.2.2 .bx (by decide)]
  exact hregs

end Context

end Aerogel
