import Aerogel.Foundations.ByteMemory
import Mathlib.Data.List.Nodup
import Mathlib.Logic.Function.Basic

/-! # A machine with a stack in memory

Words of `w` bytes in byte memory, and a machine with registers `R`, a stack pointer and a program
counter that pushes and pops them. Addresses wrap around at the width of a word; the lemmas ask for a
stack that does not reach over the end of memory. `pushAll_spec` and `popAll_spec` say what a row of
pushes leaves in memory and what a row of pops reads. -/

namespace Aerogel

namespace Mem

variable {w : Nat}

/-- The word at address `a`. -/
def word (m : Mem) (w a : Nat) : BitVec (8 * w) := BitVec.ofNat (8 * w) (m.load a w)

/-- Write a word at address `a`. -/
def setWord (m : Mem) (a : Nat) (v : BitVec (8 * w)) : Mem := m.store a w v.toNat

/-- A word reads back. -/
theorem word_setWord_same (m : Mem) (a : Nat) (v : BitVec (8 * w)) : (m.setWord a v).word w a = v := by
  have hlt : v.toNat < 256 ^ w := by
    have h := v.isLt
    rwa [Nat.pow_mul] at h
  rw [word, setWord, load_store_same, Nat.mod_eq_of_lt hlt, BitVec.ofNat_toNat, BitVec.setWidth_eq]

/-- Writing a word leaves bytes outside it alone. -/
theorem setWord_apply_of_outside (m : Mem) {a x : Nat} (v : BitVec (8 * w))
    (h : x < a ∨ a + w ≤ x) : m.setWord a v x = m x :=
  m.store_apply_of_outside h

/-- A word depends on its own bytes. -/
theorem word_congr {m m' : Mem} {a : Nat} (h : ∀ x, a ≤ x → x < a + w → m x = m' x) :
    m.word w a = m'.word w a := by
  rw [word, word, load_congr h]

/-- The words `vs` lie in memory from address `a` on. -/
def WordsAt (m : Mem) (w : Nat) : Nat → List (BitVec (8 * w)) → Prop
  | _, [] => True
  | a, v :: vs => m.word w a = v ∧ WordsAt m w (a + w) vs

/-- Words depend on their own bytes. -/
theorem WordsAt.congr {m m' : Mem} {a : Nat} {vs : List (BitVec (8 * w))} (h : m.WordsAt w a vs)
    (heq : ∀ x, a ≤ x → x < a + vs.length * w → m x = m' x) : m'.WordsAt w a vs := by
  induction vs generalizing a with
  | nil => trivial
  | cons v vs ih =>
      rw [List.length_cons, Nat.succ_mul] at heq
      refine ⟨?_, ih h.2 fun x h₁ h₂ => heq x (by omega) (by omega)⟩
      rw [← h.1]
      exact (word_congr fun x h₁ h₂ => heq x h₁ (by omega)).symm

/-- Words behind words. -/
theorem wordsAt_append {m : Mem} {a : Nat} {us vs : List (BitVec (8 * w))} :
    m.WordsAt w a (us ++ vs) ↔ m.WordsAt w a us ∧ m.WordsAt w (a + us.length * w) vs := by
  induction us generalizing a with
  | nil =>
      rw [List.nil_append, List.length_nil, Nat.zero_mul]
      exact ⟨fun h => ⟨trivial, h⟩, fun h => h.2⟩
  | cons u us ih =>
      have hpos : a + (u :: us).length * w = a + w + us.length * w := by
        rw [List.length_cons, Nat.succ_mul]
        omega
      rw [List.cons_append, WordsAt, WordsAt, ih, hpos]
      exact and_assoc.symm

/-- A word by its index. -/
theorem WordsAt.get {m : Mem} {a i : Nat} {vs : List (BitVec (8 * w))} {v : BitVec (8 * w)}
    (h : m.WordsAt w a vs) (hi : vs[i]? = some v) : m.word w (a + i * w) = v := by
  induction vs generalizing a i with
  | nil => cases hi
  | cons u vs ih =>
      cases i with
      | zero =>
          have ha : a + 0 * w = a := by omega
          rw [ha]
          exact h.1.trans (Option.some.inj hi)
      | succ i =>
          have ha : a + (i + 1) * w = a + w + i * w := by ring
          rw [ha]
          exact ih h.2 hi

/-- Store words downwards from address `sp`, the first one highest. -/
def storeDown (m : Mem) (sp : Nat) : List (BitVec (8 * w)) → Mem
  | [] => m
  | v :: vs => storeDown (m.setWord (sp - w) v) (sp - w) vs

/-- Outside the words stored nothing changes. -/
theorem storeDown_apply_of_outside (m : Mem) {sp x : Nat} {vs : List (BitVec (8 * w))}
    (h : vs.length * w ≤ sp) (hx : x < sp - vs.length * w ∨ sp ≤ x) : m.storeDown sp vs x = m x := by
  induction vs generalizing m sp with
  | nil => rfl
  | cons v vs ih =>
      have hlen : (v :: vs).length * w = vs.length * w + w := Nat.succ_mul _ _
      rw [hlen] at h hx
      rw [storeDown, ih _ (by omega) (by omega)]
      exact setWord_apply_of_outside _ _ (by omega)

/-- The words lie in memory in the opposite order. -/
theorem wordsAt_storeDown (m : Mem) {sp : Nat} {vs : List (BitVec (8 * w))}
    (h : vs.length * w ≤ sp) : (m.storeDown sp vs).WordsAt w (sp - vs.length * w) vs.reverse := by
  induction vs generalizing m sp with
  | nil => trivial
  | cons v vs ih =>
      have hlen : (v :: vs).length * w = vs.length * w + w := Nat.succ_mul _ _
      rw [hlen] at h ⊢
      have hstart : sp - (vs.length * w + w) = sp - w - vs.length * w := by omega
      rw [storeDown, List.reverse_cons, wordsAt_append, List.length_reverse, hstart,
        Nat.sub_add_cancel (by omega)]
      refine ⟨ih _ (by omega), ?_, trivial⟩
      -- the first word lies above the others
      refine (word_congr fun x h₁ h₂ => ?_).trans (m.word_setWord_same (sp - w) v)
      exact storeDown_apply_of_outside _ (by omega) (.inr h₁)

end Mem

/-- A machine with registers `R` and words of `w` bytes. -/
structure Cpu (R : Type) (w : Nat) where
  /-- The registers. -/
  regs : R → BitVec (8 * w)
  /-- The stack pointer. -/
  sp : BitVec (8 * w)
  /-- The address of the next instruction. -/
  pc : BitVec (8 * w)
  /-- Memory. -/
  mem : Mem

namespace Cpu

variable {R : Type} [DecidableEq R] {w : Nat}

/-- Push a word. -/
def pushWord (s : Cpu R w) (v : BitVec (8 * w)) : Cpu R w :=
  let sp := s.sp - BitVec.ofNat (8 * w) w
  { s with sp := sp, mem := s.mem.setWord sp.toNat v }

/-- `push r`. -/
def push (s : Cpu R w) (r : R) : Cpu R w := s.pushWord (s.regs r)

/-- `pop r`. -/
def pop (s : Cpu R w) (r : R) : Cpu R w :=
  { s with
    regs := Function.update s.regs r (s.mem.word w s.sp.toNat)
    sp := s.sp + BitVec.ofNat (8 * w) w }

/-- `ret`. -/
def ret (s : Cpu R w) : Cpu R w :=
  { s with pc := s.mem.word w s.sp.toNat, sp := s.sp + BitVec.ofNat (8 * w) w }

/-- `call` to an address; the next instruction is at `next`. -/
def call (s : Cpu R w) (target next : BitVec (8 * w)) : Cpu R w :=
  { s.pushWord next with pc := target }

/-- The word at `[sp + disp]`. -/
def stackWord (s : Cpu R w) (disp : Nat) : BitVec (8 * w) :=
  s.mem.word w (s.sp + BitVec.ofNat (8 * w) disp).toNat

/-- `mov r, [sp + disp]`. -/
def loadStack (s : Cpu R w) (r : R) (disp : Nat) : Cpu R w :=
  { s with regs := Function.update s.regs r (s.stackWord disp) }

/-- `mov [r], sp`. -/
def storeSp (s : Cpu R w) (r : R) : Cpu R w :=
  { s with mem := s.mem.setWord (s.regs r).toNat s.sp }

/-- `mov sp, [sp + disp]`. -/
def loadSp (s : Cpu R w) (disp : Nat) : Cpu R w := { s with sp := s.stackWord disp }

/-- `mov sp, r`. -/
def movSp (s : Cpu R w) (r : R) : Cpu R w := { s with sp := s.regs r }

/-! ## Rows of pushes and pops -/

/-- A word holds its own size. -/
theorem width_lt (w : Nat) : w < 2 ^ (8 * w) :=
  Nat.lt_two_pow_self.trans_le (Nat.pow_le_pow_right (by decide) (by omega))

/-- Moving the stack pointer down. -/
theorem toNat_sub_width {sp : BitVec (8 * w)} (h : w ≤ sp.toNat) :
    (sp - BitVec.ofNat (8 * w) w).toNat = sp.toNat - w := by
  have hw : (BitVec.ofNat (8 * w) w).toNat = w := by
    rw [BitVec.toNat_ofNat, Nat.mod_eq_of_lt (width_lt w)]
  rw [BitVec.toNat_sub_of_le (by rw [BitVec.le_def, hw]; exact h), hw]

/-- Going up from the stack pointer. -/
theorem toNat_add_disp {sp : BitVec (8 * w)} {d : Nat} (h : sp.toNat + d < 2 ^ (8 * w)) :
    (sp + BitVec.ofNat (8 * w) d).toNat = sp.toNat + d := by
  rw [BitVec.toNat_add, BitVec.toNat_ofNat, Nat.mod_eq_of_lt (a := d) (by omega), Nat.mod_eq_of_lt h]

omit [DecidableEq R] in
/-- A word above `k` bytes that were pushed since. -/
theorem stackWord_add {s p : Cpu R w} {k d : Nat} (hsp : p.sp.toNat + k = s.sp.toNat)
    (htop : s.sp.toNat + d < 2 ^ (8 * w))
    (hmem : ∀ x, s.sp.toNat + d ≤ x → x < s.sp.toNat + d + w → p.mem x = s.mem x) :
    p.stackWord (k + d) = s.stackWord d := by
  rw [stackWord, stackWord, toNat_add_disp (by omega), toNat_add_disp htop, ← Nat.add_assoc, hsp]
  exact Mem.word_congr hmem

omit [DecidableEq R] in
/-- A row of pushes stores the registers downwards. -/
theorem pushAll_spec (s : Cpu R w) (rs : List R) (h : rs.length * w ≤ s.sp.toNat) :
    (rs.foldl push s).sp.toNat = s.sp.toNat - rs.length * w ∧
    (rs.foldl push s).regs = s.regs ∧ (rs.foldl push s).pc = s.pc ∧
    (rs.foldl push s).mem = s.mem.storeDown s.sp.toNat (rs.map s.regs) := by
  induction rs generalizing s with
  | nil =>
      rw [List.length_nil, Nat.zero_mul]
      exact ⟨rfl, rfl, rfl, rfl⟩
  | cons r rs ih =>
      have hlen : (r :: rs).length * w = rs.length * w + w := Nat.succ_mul _ _
      rw [hlen] at h ⊢
      have hsp : (s.push r).sp.toNat = s.sp.toNat - w := toNat_sub_width (by omega)
      obtain ⟨h₁, h₂, h₃, h₄⟩ := ih (s.push r) (by omega)
      rw [hsp] at h₁ h₄
      refine ⟨by rw [List.foldl_cons, h₁]; omega, h₂, h₃, ?_⟩
      rw [List.foldl_cons, h₄, List.map_cons, Mem.storeDown, ← hsp]
      rfl

/-- A row of pops reads the words at the stack pointer into different registers. -/
theorem popAll_spec (s : Cpu R w) (rs : List R) (v : R → BitVec (8 * w)) (hrs : rs.Nodup)
    (hwords : s.mem.WordsAt w s.sp.toNat (rs.map v))
    (hroom : s.sp.toNat + rs.length * w < 2 ^ (8 * w)) :
    (rs.foldl pop s).sp.toNat = s.sp.toNat + rs.length * w ∧
    (rs.foldl pop s).mem = s.mem ∧
    (∀ r ∈ rs, (rs.foldl pop s).regs r = v r) ∧
    ∀ r, r ∉ rs → (rs.foldl pop s).regs r = s.regs r := by
  induction rs generalizing s with
  | nil =>
      refine ⟨?_, rfl, fun r hr => absurd hr List.not_mem_nil, fun _ _ => rfl⟩
      rw [List.length_nil, Nat.zero_mul]
      rfl
  | cons r rs ih =>
      have hlen : (r :: rs).length * w = rs.length * w + w := Nat.succ_mul _ _
      rw [hlen] at hroom ⊢
      obtain ⟨hr, hrs⟩ := List.nodup_cons.mp hrs
      have hsp : (s.pop r).sp.toNat = s.sp.toNat + w := toNat_add_disp (by omega)
      have hwords' : (s.pop r).mem.WordsAt w (s.pop r).sp.toNat (rs.map v) := by
        rw [hsp]
        exact hwords.2
      obtain ⟨h₁, h₂, h₃, h₄⟩ := ih (s.pop r) hrs hwords' (by omega)
      have hpopped : (s.pop r).regs r = v r := by
        change Function.update s.regs r (s.mem.word w s.sp.toNat) r = v r
        rw [Function.update_self]
        exact hwords.1
      rw [List.foldl_cons, h₁, h₂, hsp]
      refine ⟨by omega, rfl, fun r' hr' => ?_, fun r' hr' => ?_⟩
      · rcases List.mem_cons.mp hr' with rfl | hmem
        · rw [h₄ r' hr, hpopped]
        · exact h₃ r' hmem
      · rw [List.mem_cons, not_or] at hr'
        rw [h₄ r' hr'.2]
        exact Function.update_of_ne hr'.1 _ _

/-! ## Rows of words and slots -/

omit [DecidableEq R] in
/-- A word on the stack by its index. -/
theorem stackWord_of_wordsAt {s : Cpu R w} {vs : List (BitVec (8 * w))} {i : Nat} {v : BitVec (8 * w)}
    (h : s.mem.WordsAt w s.sp.toNat vs) (hi : vs[i]? = some v)
    (hlt : s.sp.toNat + i * w < 2 ^ (8 * w)) : s.stackWord (i * w) = v := by
  rw [stackWord, toNat_add_disp hlt]
  exact h.get hi

omit [DecidableEq R] in
/-- A row of pushes of words. -/
theorem pushWords_spec (s : Cpu R w) (vs : List (BitVec (8 * w))) (h : vs.length * w ≤ s.sp.toNat) :
    (vs.foldl pushWord s).sp.toNat = s.sp.toNat - vs.length * w ∧
      (vs.foldl pushWord s).mem = s.mem.storeDown s.sp.toNat vs := by
  induction vs generalizing s with
  | nil =>
      rw [List.length_nil, Nat.zero_mul]
      exact ⟨rfl, rfl⟩
  | cons v vs ih =>
      have hlen : (v :: vs).length * w = vs.length * w + w := Nat.succ_mul _ _
      rw [hlen] at h ⊢
      have hsp : (s.pushWord v).sp.toNat = s.sp.toNat - w := toNat_sub_width (by omega)
      obtain ⟨h₁, h₂⟩ := ih (s.pushWord v) (by omega)
      rw [hsp] at h₁ h₂
      refine ⟨by rw [List.foldl_cons, h₁]; omega, ?_⟩
      rw [List.foldl_cons, h₂, Mem.storeDown, ← hsp]
      rfl

omit [DecidableEq R] in
/-- Pushed words depend on the stack alone. -/
theorem pushWords_congr {s t : Cpu R w} (hsp : s.sp = t.sp) (hmem : s.mem = t.mem)
    (vs : List (BitVec (8 * w))) :
    (vs.foldl pushWord s).sp = (vs.foldl pushWord t).sp ∧
      (vs.foldl pushWord s).mem = (vs.foldl pushWord t).mem := by
  induction vs generalizing s t with
  | nil => exact ⟨hsp, hmem⟩
  | cons v vs ih =>
      refine ih ?_ ?_
      · rw [pushWord, pushWord, hsp]
      · rw [pushWord, pushWord, hsp, hmem]

omit [DecidableEq R] in
/-- They do not change registers. -/
theorem regs_pushWords (s : Cpu R w) (vs : List (BitVec (8 * w))) :
    (vs.foldl pushWord s).regs = s.regs := by
  induction vs generalizing s with
  | nil => rfl
  | cons v vs ih => exact ih _

/-- Other registers. -/
def setRegs (s : Cpu R w) (regs : R → BitVec (8 * w)) : Cpu R w := { s with regs := regs }

section

omit [DecidableEq R]

variable (s : Cpu R w) (f : R → BitVec (8 * w)) (v target : BitVec (8 * w)) (d : Nat)

@[simp] theorem regs_pushWord : (s.pushWord v).regs = s.regs := rfl

@[simp] theorem regs_setRegs : (s.setRegs f).regs = f := rfl

@[simp] theorem sp_setRegs : (s.setRegs f).sp = s.sp := rfl

@[simp] theorem mem_setRegs : (s.setRegs f).mem = s.mem := rfl

/-- The stack does not depend on the registers. -/
@[simp] theorem pushWord_setRegs : (s.setRegs f).pushWord v = (s.pushWord v).setRegs f := rfl

@[simp] theorem sp_call : (s.call target v).sp = (s.pushWord v).sp := rfl

@[simp] theorem mem_call : (s.call target v).mem = (s.pushWord v).mem := rfl

end

/-- `add sp, d`. -/
def addSp (s : Cpu R w) (d : Nat) : Cpu R w := { s with sp := s.sp + BitVec.ofNat (8 * w) d }

/-- Take the top word off the stack, into a register or nowhere. -/
def popSlot (s : Cpu R w) : Option R → Cpu R w
  | some r => s.pop r
  | none => s.addSp w

/-- Either way the stack pointer moves by a word. -/
theorem toNat_popSlot {s : Cpu R w} (r : Option R) (h : s.sp.toNat + w < 2 ^ (8 * w)) :
    (s.popSlot r).sp.toNat = s.sp.toNat + w := by
  cases r <;> exact toNat_add_disp h

/-- Memory stays. -/
theorem mem_popSlot (s : Cpu R w) (r : Option R) : (s.popSlot r).mem = s.mem := by
  cases r <;> rfl

/-- A row of slots: the registers among them take the words they stand at. -/
theorem popSlots_spec (s : Cpu R w) (ps : List (Option R × BitVec (8 * w)))
    (hnodup : (ps.filterMap Prod.fst).Nodup)
    (hwords : s.mem.WordsAt w s.sp.toNat (ps.map Prod.snd))
    (hroom : s.sp.toNat + ps.length * w < 2 ^ (8 * w)) :
    ((ps.map Prod.fst).foldl popSlot s).sp.toNat = s.sp.toNat + ps.length * w ∧
    ((ps.map Prod.fst).foldl popSlot s).mem = s.mem ∧
    (∀ r v, (some r, v) ∈ ps → ((ps.map Prod.fst).foldl popSlot s).regs r = v) ∧
    ∀ r, r ∉ ps.filterMap Prod.fst → ((ps.map Prod.fst).foldl popSlot s).regs r = s.regs r := by
  induction ps generalizing s with
  | nil =>
      refine ⟨?_, rfl, fun r v hr => absurd hr List.not_mem_nil, fun _ _ => rfl⟩
      rw [List.length_nil, Nat.zero_mul]
      rfl
  | cons p ps ih =>
      obtain ⟨slot, word⟩ := p
      have hlen : ((slot, word) :: ps).length * w = ps.length * w + w := Nat.succ_mul _ _
      rw [hlen] at hroom ⊢
      have hsp : (s.popSlot slot).sp.toNat = s.sp.toNat + w := toNat_popSlot slot (by omega)
      have hwords' : (s.popSlot slot).mem.WordsAt w (s.popSlot slot).sp.toNat (ps.map Prod.snd) := by
        rw [mem_popSlot, hsp]
        exact hwords.2
      have hrest : (ps.filterMap Prod.fst).Nodup := by
        cases slot with
        | none => exact hnodup
        | some r => exact (List.nodup_cons.mp hnodup).2
      obtain ⟨h₁, h₂, h₃, h₄⟩ := ih (s.popSlot slot) hrest hwords' (by omega)
      rw [List.map_cons, List.foldl_cons, h₁, h₂, mem_popSlot, hsp]
      refine ⟨by omega, rfl, fun r v hr => ?_, fun r hr => ?_⟩
      · rcases List.mem_cons.mp hr with heq | hmem
        · -- the slot in front: no later one holds the same register
          cases heq
          have hnot : r ∉ ps.filterMap Prod.fst := (List.nodup_cons.mp hnodup).1
          refine (h₄ r hnot).trans ?_
          change Function.update s.regs r (s.mem.word w s.sp.toNat) r = word
          rw [Function.update_self]
          exact hwords.1
        · exact h₃ r v hmem
      · cases slot with
        | none => exact h₄ r hr
        | some q =>
            have hr : r ≠ q ∧ r ∉ ps.filterMap Prod.fst := by
              simpa using hr
            exact (h₄ r hr.2).trans (Function.update_of_ne hr.1 _ _)

end Cpu

end Aerogel
