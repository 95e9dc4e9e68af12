import Aerogel.Foundations.Run
import Mathlib.Data.List.Find
import Mathlib.Tactic.Common

/-! # The interrupt controller: `pic_remap`, the masks and the end of an interrupt

Two 8259A controllers, the second on line 2 of the first, and the code of `isr.c` that programs them. A
request stays with its controller until it is served, most urgent first; while a line is in service nothing
behind it gets through, until an end-of-interrupt command. `Lines` is what the kernel may think instead: a
set of requests, a set of enabled lines, and at most one handler. `traces_eq` says that after `pic_remap` it
is right, whatever state the firmware has left the controllers in. -/

namespace Aerogel

namespace Pic

/-! ## The controllers -/

/-- One 8259A. -/
structure Chip where
  /-- The lines that are masked. -/
  imr : BitVec 8
  /-- The lines that request service. -/
  irr : BitVec 8
  /-- The lines that are in service. -/
  isr : BitVec 8
  /-- The vector of line 0. -/
  base : BitVec 8
  /-- How it is connected to the other one. -/
  cascade : BitVec 8
  /-- The initialisation word that the data port takes next; 0 when it takes the mask. There are four of
  them, as the first one, `0x11`, announces. -/
  icw : Nat

/-- A single line. -/
def bit (i : Nat) : BitVec 8 := 1#8 <<< i

/-- The most urgent line with a property. -/
def first (p : Nat → Bool) : Option Nat := (List.range 8).find? p

namespace Chip

/-- The command port: the first initialisation word, or a non-specific end of interrupt. -/
def command (c : Chip) (v : BitVec 8) : Chip :=
  if v.getLsbD 4 then { c with imr := 0, irr := 0, isr := 0, icw := 2 }
  else if v = 0x20 then
    match first c.isr.getLsbD with
    | none => c
    | some i => { c with isr := c.isr &&& ~~~bit i }
  else c

/-- The data port: the other initialisation words in their order, then the mask. -/
def data (c : Chip) (v : BitVec 8) : Chip :=
  match c.icw with
  | 2 => { c with base := v, icw := 3 }
  | 3 => { c with cascade := v, icw := 4 }
  | 4 => { c with icw := 0 }
  | _ => { c with imr := v }

/-- A request on a line. -/
def request (c : Chip) (i : Nat) : Chip := { c with irr := c.irr ||| bit i }

/-- The line that gets through, if the lines in `more` request service as well. -/
def output (c : Chip) (more : Nat → Bool) : Option Nat :=
  match first fun i => (c.irr.getLsbD i || more i) && !c.imr.getLsbD i with
  | none => none
  | some i => if (List.range (i + 1)).any c.isr.getLsbD then none else some i

/-- The line is served. -/
def serve (c : Chip) (i : Nat) : Chip := { c with irr := c.irr &&& ~~~bit i, isr := c.isr ||| bit i }

end Chip

/-- Both controllers. -/
structure Chips where
  /-- The one at `PIC1_CMD`. -/
  master : Chip
  /-- The one at `PIC2_CMD`. -/
  slave : Chip

/-- `outb`. -/
def Chips.outb (p : Chips) (port : Nat) (v : BitVec 8) : Chips :=
  if port = 0x20 then { p with master := p.master.command v }
  else if port = 0x21 then { p with master := p.master.data v }
  else if port = 0xA0 then { p with slave := p.slave.command v }
  else if port = 0xA1 then { p with slave := p.slave.data v }
  else p

/-- `inb` of a data port. -/
def Chips.inb (p : Chips) (port : Nat) : BitVec 8 := if port = 0x21 then p.master.imr else p.slave.imr

/-- The lines of the master that the slave drives. -/
def Chips.fromSlave (p : Chips) (i : Nat) : Bool :=
  p.master.cascade.getLsbD i && p.slave.cascade == BitVec.ofNat 8 i && (p.slave.output fun _ => false).isSome

/-- The processor asks for a vector. -/
def Chips.acknowledge (p : Chips) : Option (Nat × Chips) :=
  match p.master.output p.fromSlave with
  | none => none
  | some i =>
    if p.fromSlave i then
      match p.slave.output fun _ => false with
      | none => none
      | some j => some (p.slave.base.toNat + j, ⟨p.master.serve i, p.slave.serve j⟩)
    else some (p.master.base.toNat + i, { p with master := p.master.serve i })

/-! ## The code -/

/-- `io_wait`: a write to a port that nobody listens at. -/
def ioWait (p : Chips) : Chips := p.outb 0x80 0

/-- `pic_remap`. -/
def picRemap (p : Chips) : Chips :=
  let p := ioWait (p.outb 0x20 0x11)
  let p := ioWait (p.outb 0xA0 0x11)
  let p := ioWait (p.outb 0x21 0x20)
  let p := ioWait (p.outb 0xA1 0x28)
  let p := ioWait (p.outb 0x21 0x04)
  let p := ioWait (p.outb 0xA1 0x02)
  let p := ioWait (p.outb 0x21 0x01)
  let p := ioWait (p.outb 0xA1 0x01)
  let p := p.outb 0x21 0xFF
  p.outb 0xA1 0xFF

/-- `pic_send_eoi`. -/
def picSendEoi (p : Chips) (irq : Nat) : Chips :=
  let p := if 8 ≤ irq then p.outb 0xA0 0x20 else p
  p.outb 0x20 0x20

/-- `pic_mask_irq`. -/
def picMaskIrq (p : Chips) (irq : Nat) : Chips :=
  let port := if irq < 8 then 0x21 else 0xA1
  let bit := if irq < 8 then irq else irq - 8
  p.outb port (p.inb port ||| Pic.bit bit)

/-- `pic_unmask_irq`. -/
def picUnmaskIrq (p : Chips) (irq : Nat) : Chips :=
  let port := if irq < 8 then 0x21 else 0xA1
  let bit := if irq < 8 then irq else irq - 8
  p.outb port (p.inb port &&& ~~~Pic.bit bit)

/-- The last lines of `isr_dispatch`. -/
def dispatchEnd (p : Chips) (num : Nat) : Chips :=
  if 32 ≤ num ∧ num < 48 then picSendEoi p (num - 32) else p

/-! ## Runs -/

/-- The controllers, and the vector of the handler that runs, if one does. -/
structure PicRun where
  /-- The controllers. -/
  chips : Chips
  /-- The vector that is handled. -/
  handling : Option Nat

/-- What happens. -/
inductive Event
  /-- A device raises one of the 15 lines that are not the slave's. -/
  | raise (irq : Nat)
  /-- A driver calls `pic_mask_irq`. -/
  | mask (irq : Nat)
  /-- A driver calls `pic_unmask_irq`. -/
  | unmask (irq : Nat)
  /-- The processor takes an interrupt. -/
  | take (vector : Nat)
  /-- `isr_dispatch` is at its end. -/
  | done
  deriving DecidableEq, Repr

/-- The line gets to the controller that has it. -/
def Chips.raise (p : Chips) (irq : Nat) : Chips :=
  if irq < 8 then { p with master := p.master.request irq }
  else { p with slave := p.slave.request (irq - 8) }

/-- One event. The gates are interrupt gates: no interrupt is taken while a handler runs. -/
inductive PicStep : PicRun → Event → PicRun → Prop
  | raise {s : PicRun} {irq : Nat} (hirq : irq < 16) (h2 : irq ≠ 2) :
      PicStep s (.raise irq) { s with chips := s.chips.raise irq }
  | mask {s : PicRun} {irq : Nat} (hirq : irq < 16) :
      PicStep s (.mask irq) { s with chips := picMaskIrq s.chips irq }
  | unmask {s : PicRun} {irq : Nat} (hirq : irq < 16) :
      PicStep s (.unmask irq) { s with chips := picUnmaskIrq s.chips irq }
  | take {s : PicRun} {vector : Nat} {p : Chips} (hidle : s.handling = none)
      (hack : s.chips.acknowledge = some (vector, p)) : PicStep s (.take vector) ⟨p, some vector⟩
  | done {s : PicRun} {vector : Nat} (hbusy : s.handling = some vector) :
      PicStep s .done ⟨dispatchEnd s.chips vector, none⟩

/-! ## What the kernel may think -/

/-- Requests, enabled lines, and the vector that is handled. -/
structure Lines where
  /-- Raised and not taken yet. -/
  pending : Nat → Bool
  /-- Unmasked. -/
  enabled : Nat → Bool
  /-- The vector that is handled. -/
  handling : Option Nat

/-- The lines, most urgent first. -/
def priority : List Nat := [0, 1] ++ [8, 9, 10, 11, 12, 13, 14, 15] ++ [3, 4, 5, 6, 7]

/-- Line 2 is not among them. -/
theorem lt_of_mem_priority {irq : Nat} (h : irq ∈ priority) : irq < 16 := by
  revert irq
  decide

/-- A line can be taken. Those from 8 on go through line 2. -/
def Lines.ready (a : Lines) (irq : Nat) : Bool :=
  a.pending irq && a.enabled irq && (decide (irq < 8) || a.enabled 2)

/-- One event. -/
inductive LineStep : Lines → Event → Lines → Prop
  | raise {a : Lines} {irq : Nat} (hirq : irq < 16) (h2 : irq ≠ 2) :
      LineStep a (.raise irq) { a with pending := Function.update a.pending irq true }
  | mask {a : Lines} {irq : Nat} (hirq : irq < 16) :
      LineStep a (.mask irq) { a with enabled := Function.update a.enabled irq false }
  | unmask {a : Lines} {irq : Nat} (hirq : irq < 16) :
      LineStep a (.unmask irq) { a with enabled := Function.update a.enabled irq true }
  | take {a : Lines} {irq : Nat} (hidle : a.handling = none) (hready : priority.find? a.ready = some irq) :
      LineStep a (.take (32 + irq))
        { a with pending := Function.update a.pending irq false, handling := some (32 + irq) }
  | done {a : Lines} {vector : Nat} (hbusy : a.handling = some vector) :
      LineStep a .done { a with handling := none }

/-- Nothing requested, nothing enabled. -/
def Lines.init : Lines := ⟨fun _ => false, fun _ => false, none⟩

/-! ## Bits -/

/-- A single line is set in its word. -/
theorem getLsbD_bit {i : Nat} (hi : i < 8) (j : Nat) : (bit i).getLsbD j = decide (j = i) := by
  rw [bit, BitVec.getLsbD_shiftLeft, BitVec.getLsbD_one]
  by_cases h : j = i
  · simp [h, hi]
  · simp [h]
    omega

/-- Setting a line. -/
theorem getLsbD_set (x : BitVec 8) {i : Nat} (hi : i < 8) (j : Nat) :
    (x ||| bit i).getLsbD j = (x.getLsbD j || decide (j = i)) := by
  rw [BitVec.getLsbD_or, getLsbD_bit hi]

/-- Clearing a line. -/
theorem getLsbD_clear (x : BitVec 8) {i j : Nat} (hi : i < 8) (hj : j < 8) :
    (x &&& ~~~bit i).getLsbD j = (x.getLsbD j && !decide (j = i)) := by
  rw [BitVec.getLsbD_and, BitVec.getLsbD_not, getLsbD_bit hi, decide_eq_true hj, Bool.true_and]

/-- An end of interrupt clears the only line in service. -/
theorem command_eoi {c : Chip} {i : Nat} (hi : i < 8) (h : c.isr = bit i) :
    c.command 0x20 = { c with isr := 0 } := by
  have hfirst : ∀ i < 8, first (bit i).getLsbD = some i ∧ bit i &&& ~~~bit i = 0 := by decide
  obtain ⟨h₁, h₂⟩ := hfirst i hi
  rw [Chip.command, if_neg (by decide), if_pos rfl, h, h₁]
  simp only [h₂]

/-- While nothing is in service, the most urgent request gets through. -/
theorem output_of_idle {c : Chip} (h : c.isr = 0) (more : Nat → Bool) :
    c.output more = first fun i => (c.irr.getLsbD i || more i) && !c.imr.getLsbD i := by
  have hany : ∀ i, (List.range (i + 1)).any c.isr.getLsbD = false := fun i => by
    rw [h, List.any_eq_false]
    simp
  rw [Chip.output]
  cases first fun i => (c.irr.getLsbD i || more i) && !c.imr.getLsbD i with
  | none => rfl
  | some i => simp only [hany i, if_false, Bool.false_eq_true]

/-! ## The controllers hold the lines -/

/-- The controllers after a line has been served. -/
def Chips.served (p : Chips) (irq : Nat) : Chips :=
  if irq < 8 then { p with master := p.master.serve irq }
  else ⟨p.master.serve 2, p.slave.serve (irq - 8)⟩

/-- The lines in service while a vector is handled. -/
inductive InService : Option Nat → Chips → Prop
  /-- None. -/
  | idle {p : Chips} (hmaster : p.master.isr = 0) (hslave : p.slave.isr = 0) : InService none p
  /-- A line of the master. -/
  | master {p : Chips} {irq : Nat} (hirq : irq < 8) (hmaster : p.master.isr = bit irq)
      (hslave : p.slave.isr = 0) : InService (some (32 + irq)) p
  /-- A line of the slave, and line 2 of the master. -/
  | slave {p : Chips} {irq : Nat} (hirq : irq < 8) (hmaster : p.master.isr = bit 2)
      (hslave : p.slave.isr = bit irq) : InService (some (40 + irq)) p

/-- Only the lines in service count. -/
theorem InService.congr {v : Option Nat} {p p' : Chips} (h : InService v p)
    (hmaster : p'.master.isr = p.master.isr) (hslave : p'.slave.isr = p.slave.isr) : InService v p' := by
  cases h with
  | idle hm hs => exact .idle (hmaster.trans hm) (hslave.trans hs)
  | master hirq hm hs => exact .master hirq (hmaster.trans hm) (hslave.trans hs)
  | slave hirq hm hs => exact .slave hirq (hmaster.trans hm) (hslave.trans hs)

/-- The controllers are set up and hold these requests and masks. -/
structure Holds (s : PicRun) (a : Lines) : Prop where
  /-- The vectors. -/
  base : s.chips.master.base = 0x20 ∧ s.chips.slave.base = 0x28
  /-- The slave is on line 2. -/
  cascade : s.chips.master.cascade = 0x04 ∧ s.chips.slave.cascade = 0x02
  /-- The data ports take masks. -/
  icw : s.chips.master.icw = 0 ∧ s.chips.slave.icw = 0
  /-- The requests at the master. -/
  masterIrr : ∀ i < 8, s.chips.master.irr.getLsbD i = (a.pending i && !decide (i = 2))
  /-- The requests at the slave. -/
  slaveIrr : ∀ i < 8, s.chips.slave.irr.getLsbD i = a.pending (8 + i)
  /-- The mask of the master. -/
  masterImr : ∀ i < 8, s.chips.master.imr.getLsbD i = !a.enabled i
  /-- The mask of the slave. -/
  slaveImr : ∀ i < 8, s.chips.slave.imr.getLsbD i = !a.enabled (8 + i)
  /-- The same vector is handled. -/
  handling : s.handling = a.handling
  /-- What is in service. -/
  service : InService s.handling s.chips

/-- After `pic_remap` nothing is requested and everything is masked, whatever was before. -/
theorem holds_picRemap (p : Chips) : Holds ⟨picRemap p, none⟩ .init where
  base := ⟨rfl, rfl⟩
  cascade := ⟨rfl, rfl⟩
  icw := ⟨rfl, rfl⟩
  masterIrr i _ := BitVec.getLsbD_zero
  slaveIrr i _ := BitVec.getLsbD_zero
  masterImr := by
    change ∀ i < 8, (0xFF : BitVec 8).getLsbD i = true
    decide
  slaveImr := by
    change ∀ i < 8, (0xFF : BitVec 8).getLsbD i = true
    decide
  handling := rfl
  service := .idle rfl rfl

namespace Holds

variable {s : PicRun} {a : Lines}

/-- Which line of the master the slave drives. -/
theorem fromSlave (h : Holds s a) {i : Nat} (hi : i < 8) :
    s.chips.fromSlave i = (decide (i = 2) && (s.chips.slave.output fun _ => false).isSome) := by
  have hline : ∀ i < 8, ((0x04 : BitVec 8).getLsbD i && (0x02 : BitVec 8) == BitVec.ofNat 8 i) =
      decide (i = 2) := by decide
  rw [Chips.fromSlave, h.cascade.1, h.cascade.2, hline i hi]

/-- What the slave has to offer. -/
theorem slave_output (h : Holds s a) (hidle : s.handling = none) :
    (s.chips.slave.output fun _ => false) =
      first fun i => a.pending (8 + i) && a.enabled (8 + i) := by
  have hisr : s.chips.slave.isr = 0 := by
    have hservice := h.service
    rw [hidle] at hservice
    cases hservice with
    | idle _ hslave => exact hslave
  rw [output_of_idle hisr, first, first]
  refine List.find?_congr fun i hi => ?_
  rw [List.mem_range] at hi
  rw [h.slaveIrr i hi, h.slaveImr i hi, Bool.or_false, Bool.not_not]

/-- What the master has to offer. -/
theorem master_output (h : Holds s a) (hidle : s.handling = none) :
    s.chips.master.output s.chips.fromSlave =
      ([0, 1].find? a.ready).or
        ((if (s.chips.slave.output fun _ => false).isSome && a.enabled 2 then some 2 else none).or
          ([3, 4, 5, 6, 7].find? a.ready)) := by
  have hisr : s.chips.master.isr = 0 := by
    have hservice := h.service
    rw [hidle] at hservice
    cases hservice with
    | idle hmaster _ => exact hmaster
  have hown : ∀ i < 8, i ≠ 2 → ((s.chips.master.irr.getLsbD i || s.chips.fromSlave i) &&
      !s.chips.master.imr.getLsbD i) = a.ready i := fun i hi h2 => by
    rw [h.masterIrr i hi, h.fromSlave hi, h.masterImr i hi, Lines.ready]
    simp [h2, hi]
  have htwo : ((s.chips.master.irr.getLsbD 2 || s.chips.fromSlave 2) &&
      !s.chips.master.imr.getLsbD 2) =
        ((s.chips.slave.output fun _ => false).isSome && a.enabled 2) := by
    rw [h.masterIrr 2 (by decide), h.fromSlave (by decide), h.masterImr 2 (by decide)]
    simp
  have hrange : List.range 8 = [0, 1] ++ ([2] ++ [3, 4, 5, 6, 7]) := rfl
  rw [output_of_idle hisr, first, hrange, List.find?_append, List.find?_append]
  congr 1
  · exact List.find?_congr fun i hi => hown i (by simp at hi; omega) (by simp at hi; omega)
  congr 1
  · rw [List.find?_singleton, htwo]
  · exact List.find?_congr fun i hi => hown i (by simp at hi; omega) (by simp at hi; omega)

/-- The lines of the slave that are ready. -/
theorem find_slave (a : Lines) : [8, 9, 10, 11, 12, 13, 14, 15].find? a.ready =
    if a.enabled 2 then (first fun i => a.pending (8 + i) && a.enabled (8 + i)).map (8 + ·) else none := by
  have hmap : [8, 9, 10, 11, 12, 13, 14, 15] = (List.range 8).map (8 + ·) := rfl
  rw [hmap, List.find?_map, first]
  have hready : ∀ i, (a.ready ∘ (8 + ·)) i = (a.pending (8 + i) && a.enabled (8 + i) && a.enabled 2) :=
    fun i => by
      have hge : ¬8 + i < 8 := by omega
      simp only [Function.comp_apply, Lines.ready, decide_eq_false hge, Bool.false_or]
  cases h2 : a.enabled 2 with
  | true =>
      rw [if_pos rfl]
      congr 1
      exact List.find?_congr fun i _ => by rw [hready, h2, Bool.and_true]
  | false =>
      have hnone : (List.range 8).find? (a.ready ∘ (8 + ·)) = none := by
        rw [List.find?_eq_none]
        intro i _
        rw [hready, h2, Bool.and_false]
        exact Bool.false_ne_true
      rw [hnone]
      rfl

/-- A line of the master's own is served. -/
theorem acknowledge_master (h : Holds s a) {i : Nat} (hi : i < 8) (h2 : i ≠ 2)
    (hout : s.chips.master.output s.chips.fromSlave = some i) :
    s.chips.acknowledge = some (32 + i, { s.chips with master := s.chips.master.serve i }) := by
  have hown : s.chips.fromSlave i = false := by
    rw [h.fromSlave hi, decide_eq_false h2, Bool.false_and]
  rw [Chips.acknowledge, hout]
  simp only [hown, h.base.1, Bool.false_eq_true, if_false]
  rfl

/-- A line of the slave is served by both controllers. -/
theorem acknowledge_slave (h : Holds s a) {j : Nat} (hslave : (s.chips.slave.output fun _ => false) = some j)
    (hout : s.chips.master.output s.chips.fromSlave = some 2) :
    s.chips.acknowledge = some (40 + j, ⟨s.chips.master.serve 2, s.chips.slave.serve j⟩) := by
  have hdriven : s.chips.fromSlave 2 = true := by
    rw [h.fromSlave (by decide), hslave]
    rfl
  rw [Chips.acknowledge, hout]
  simp only [hdriven, hslave, h.base.2, if_true]
  rfl

/-- The processor gets the vector of the most urgent line that is ready. -/
theorem acknowledge_eq (h : Holds s a) (hidle : s.handling = none) :
    s.chips.acknowledge = (priority.find? a.ready).map fun irq => (32 + irq, s.chips.served irq) := by
  have hmaster := h.master_output hidle
  have hslave := h.slave_output hidle
  have hlines := find_slave a
  rw [priority, List.find?_append, List.find?_append, hlines, ← hslave]
  cases h₁ : [0, 1].find? a.ready with
  | some i =>
      have hi : i = 0 ∨ i = 1 := by
        simpa using List.mem_of_find?_eq_some h₁
      rw [h₁, Option.some_or] at hmaster
      rw [h.acknowledge_master (by omega) (by omega) hmaster, Option.some_or, Option.some_or, Option.map_some,
        Chips.served, if_pos (by omega)]
  | none =>
      rw [h₁, Option.none_or] at hmaster
      rw [Option.none_or]
      cases h₂ : (if a.enabled 2 then (s.chips.slave.output fun _ => false).map (8 + ·) else none) with
      | some irq =>
          have hen : a.enabled 2 = true := by
            by_contra hne
            rw [if_neg hne] at h₂
            cases h₂
          rw [if_pos hen] at h₂
          obtain ⟨j, hj, rfl⟩ := Option.map_eq_some_iff.mp h₂
          rw [hj, hen] at hmaster
          rw [h.acknowledge_slave hj hmaster, Option.some_or, Option.map_some, Chips.served, if_neg (by omega),
            Nat.add_sub_cancel_left]
          congr 2
          omega
      | none =>
          have hno : ((s.chips.slave.output fun _ => false).isSome && a.enabled 2) = false := by
            cases hen : a.enabled 2 with
            | false => exact Bool.and_false _
            | true =>
                rw [hen, if_pos rfl, Option.map_eq_none_iff] at h₂
                rw [h₂]
                rfl
          rw [hno, if_neg Bool.false_ne_true, Option.none_or] at hmaster
          rw [Option.none_or]
          cases h₃ : [3, 4, 5, 6, 7].find? a.ready with
          | none =>
              rw [h₃] at hmaster
              rw [Chips.acknowledge, hmaster]
              rfl
          | some i =>
              have hi : i = 3 ∨ i = 4 ∨ i = 5 ∨ i = 6 ∨ i = 7 := by
                simpa using List.mem_of_find?_eq_some h₃
              rw [h₃] at hmaster
              rw [h.acknowledge_master (by omega) (by omega) hmaster, Option.map_some, Chips.served,
                if_pos (by omega)]

/-- A device raises a line. -/
theorem raise (h : Holds s a) {irq : Nat} (hirq : irq < 16) (h2 : irq ≠ 2) :
    Holds { s with chips := s.chips.raise irq }
      { a with pending := Function.update a.pending irq true } := by
  by_cases hlow : irq < 8
  · have hchips : s.chips.raise irq = { s.chips with master := s.chips.master.request irq } := if_pos hlow
    rw [hchips]
    refine ⟨h.base, h.cascade, h.icw, fun i hi => ?_, fun i hi => ?_, h.masterImr, h.slaveImr, h.handling,
      h.service.congr rfl rfl⟩
    · change (s.chips.master.irr ||| bit irq).getLsbD i = _
      rw [getLsbD_set _ hlow, h.masterIrr i hi]
      by_cases hi' : i = irq
      · simp [hi', h2]
      · simp [hi']
    · change s.chips.slave.irr.getLsbD i = Function.update a.pending irq true (8 + i)
      rw [h.slaveIrr i hi, Function.update_of_ne (by omega)]
  · obtain ⟨j, rfl⟩ : ∃ j, irq = 8 + j := ⟨irq - 8, by omega⟩
    have hchips : s.chips.raise (8 + j) = { s.chips with slave := s.chips.slave.request j } := by
      rw [Chips.raise, if_neg hlow, Nat.add_sub_cancel_left]
    rw [hchips]
    refine ⟨h.base, h.cascade, h.icw, fun i hi => ?_, fun i hi => ?_, h.masterImr, h.slaveImr, h.handling,
      h.service.congr rfl rfl⟩
    · change s.chips.master.irr.getLsbD i = (Function.update a.pending (8 + j) true i && _)
      rw [h.masterIrr i hi, Function.update_of_ne (by omega)]
    · change (s.chips.slave.irr ||| bit j).getLsbD i = _
      rw [getLsbD_set _ (by omega), h.slaveIrr i hi]
      by_cases hi' : i = j
      · simp [hi']
      · simp [hi']

/-- A data port that is past the initialisation takes the mask. -/
theorem data_of_icw {c : Chip} (h : c.icw = 0) (v : BitVec 8) : c.data v = { c with imr := v } := by
  cases c
  cases h
  rfl

/-- Another mask for the master, which differs in one line. -/
theorem setMasterMask (h : Holds s a) {irq : Nat} {b : Bool} {m : BitVec 8} (hirq : irq < 8)
    (hm : ∀ i < 8, m.getLsbD i = if i = irq then !b else s.chips.master.imr.getLsbD i) :
    Holds { s with chips := { s.chips with master := s.chips.master.data m } }
      { a with enabled := Function.update a.enabled irq b } := by
  rw [data_of_icw h.icw.1]
  refine ⟨h.base, h.cascade, h.icw, h.masterIrr, h.slaveIrr, fun i hi => ?_, fun i hi => ?_, h.handling,
    h.service.congr rfl rfl⟩
  · change m.getLsbD i = !Function.update a.enabled irq b i
    rw [hm i hi, Function.update_apply, apply_ite (! ·), h.masterImr i hi]
  · change s.chips.slave.imr.getLsbD i = !Function.update a.enabled irq b (8 + i)
    rw [h.slaveImr i hi, Function.update_of_ne (by omega)]

/-- Another mask for the slave. -/
theorem setSlaveMask (h : Holds s a) {j : Nat} {b : Bool} {m : BitVec 8}
    (hm : ∀ i < 8, m.getLsbD i = if i = j then !b else s.chips.slave.imr.getLsbD i) :
    Holds { s with chips := { s.chips with slave := s.chips.slave.data m } }
      { a with enabled := Function.update a.enabled (8 + j) b } := by
  rw [data_of_icw h.icw.2]
  refine ⟨h.base, h.cascade, h.icw, h.masterIrr, h.slaveIrr, fun i hi => ?_, fun i hi => ?_, h.handling,
    h.service.congr rfl rfl⟩
  · change s.chips.master.imr.getLsbD i = !Function.update a.enabled (8 + j) b i
    rw [h.masterImr i hi, Function.update_of_ne (by omega)]
  · change m.getLsbD i = !Function.update a.enabled (8 + j) b (8 + i)
    rw [hm i hi, Function.update_apply, apply_ite (! ·), h.slaveImr i hi]
    exact if_congr (by omega) rfl rfl

/-- `pic_mask_irq`. -/
theorem mask (h : Holds s a) {irq : Nat} (hirq : irq < 16) :
    Holds { s with chips := picMaskIrq s.chips irq }
      { a with enabled := Function.update a.enabled irq false } := by
  by_cases hlow : irq < 8
  · have hchips : picMaskIrq s.chips irq =
        { s.chips with master := s.chips.master.data (s.chips.master.imr ||| bit irq) } := by
      rw [picMaskIrq, if_pos hlow, if_pos hlow]
      rfl
    rw [hchips]
    refine h.setMasterMask hlow fun i _ => ?_
    rw [getLsbD_set _ hlow]
    by_cases hi : i = irq <;> simp [hi]
  · obtain ⟨j, rfl⟩ : ∃ j, irq = 8 + j := ⟨irq - 8, by omega⟩
    have hchips : picMaskIrq s.chips (8 + j) =
        { s.chips with slave := s.chips.slave.data (s.chips.slave.imr ||| bit j) } := by
      rw [picMaskIrq, if_neg hlow, if_neg hlow, Nat.add_sub_cancel_left]
      rfl
    rw [hchips]
    refine h.setSlaveMask fun i _ => ?_
    rw [getLsbD_set _ (by omega)]
    by_cases hi : i = j <;> simp [hi]

/-- `pic_unmask_irq`. -/
theorem unmask (h : Holds s a) {irq : Nat} (hirq : irq < 16) :
    Holds { s with chips := picUnmaskIrq s.chips irq }
      { a with enabled := Function.update a.enabled irq true } := by
  by_cases hlow : irq < 8
  · have hchips : picUnmaskIrq s.chips irq =
        { s.chips with master := s.chips.master.data (s.chips.master.imr &&& ~~~bit irq) } := by
      rw [picUnmaskIrq, if_pos hlow, if_pos hlow]
      rfl
    rw [hchips]
    refine h.setMasterMask hlow fun i hi => ?_
    rw [getLsbD_clear _ hlow hi]
    by_cases hi : i = irq <;> simp [hi]
  · obtain ⟨j, rfl⟩ : ∃ j, irq = 8 + j := ⟨irq - 8, by omega⟩
    have hchips : picUnmaskIrq s.chips (8 + j) =
        { s.chips with slave := s.chips.slave.data (s.chips.slave.imr &&& ~~~bit j) } := by
      rw [picUnmaskIrq, if_neg hlow, if_neg hlow, Nat.add_sub_cancel_left]
      rfl
    rw [hchips]
    refine h.setSlaveMask fun i hi => ?_
    rw [getLsbD_clear _ (by omega) hi]
    by_cases hi : i = j <;> simp [hi]

/-- The most urgent line is served. -/
theorem take (h : Holds s a) (hidle : s.handling = none) {irq : Nat} (hirq : irq < 16) :
    Holds ⟨s.chips.served irq, some (32 + irq)⟩
      { a with pending := Function.update a.pending irq false, handling := some (32 + irq) } := by
  have hservice := h.service
  rw [hidle] at hservice
  obtain ⟨hm, hs⟩ : s.chips.master.isr = 0 ∧ s.chips.slave.isr = 0 := by
    cases hservice with
    | idle hm hs => exact ⟨hm, hs⟩
  by_cases hlow : irq < 8
  · rw [Chips.served, if_pos hlow]
    refine ⟨h.base, h.cascade, h.icw, fun i hi => ?_, fun i hi => ?_, h.masterImr, h.slaveImr, rfl,
      .master hlow ?_ hs⟩
    · change (s.chips.master.irr &&& ~~~bit irq).getLsbD i = (Function.update a.pending irq false i && _)
      rw [getLsbD_clear _ hlow hi, h.masterIrr i hi]
      by_cases hi' : i = irq <;> simp [hi']
    · change s.chips.slave.irr.getLsbD i = Function.update a.pending irq false (8 + i)
      rw [h.slaveIrr i hi, Function.update_of_ne (by omega)]
    · change s.chips.master.isr ||| bit irq = bit irq
      rw [hm]
      exact BitVec.zero_or
  · obtain ⟨j, rfl⟩ : ∃ j, irq = 8 + j := ⟨irq - 8, by omega⟩
    have hnum : 32 + (8 + j) = 40 + j := by omega
    rw [Chips.served, if_neg hlow, Nat.add_sub_cancel_left, hnum]
    refine ⟨h.base, h.cascade, h.icw, fun i hi => ?_, fun i hi => ?_, h.masterImr, h.slaveImr, rfl,
      .slave (by omega) ?_ ?_⟩
    · change (s.chips.master.irr &&& ~~~bit 2).getLsbD i = (Function.update a.pending (8 + j) false i && _)
      rw [getLsbD_clear _ (by decide) hi, h.masterIrr i hi, Function.update_of_ne (by omega)]
      by_cases hi' : i = 2 <;> simp [hi']
    · change (s.chips.slave.irr &&& ~~~bit j).getLsbD i = Function.update a.pending (8 + j) false (8 + i)
      rw [getLsbD_clear _ (by omega) hi, h.slaveIrr i hi]
      by_cases hi' : i = j <;> simp [hi']
    · change s.chips.master.isr ||| bit 2 = bit 2
      rw [hm]
      exact BitVec.zero_or
    · change s.chips.slave.isr ||| bit j = bit j
      rw [hs]
      exact BitVec.zero_or

/-- The end of an interrupt clears what was in service, at both controllers. -/
theorem done (h : Holds s a) {vector : Nat} (hbusy : s.handling = some vector) :
    Holds ⟨dispatchEnd s.chips vector, none⟩ { a with handling := none } := by
  have hservice := h.service
  rw [hbusy] at hservice
  cases hservice with
  | @master _ irq hirq hm hs =>
      have hchips : dispatchEnd s.chips (32 + irq) =
          { s.chips with master := { s.chips.master with isr := 0 } } := by
        rw [dispatchEnd, if_pos (by omega), Nat.add_sub_cancel_left, picSendEoi, if_neg (by omega)]
        change Chips.mk (s.chips.master.command 0x20) s.chips.slave = _
        rw [command_eoi hirq hm]
      rw [hchips]
      exact ⟨h.base, h.cascade, h.icw, h.masterIrr, h.slaveIrr, h.masterImr, h.slaveImr, rfl, .idle rfl hs⟩
  | @slave _ irq hirq hm hs =>
      have hchips : dispatchEnd s.chips (40 + irq) =
          ⟨{ s.chips.master with isr := 0 }, { s.chips.slave with isr := 0 }⟩ := by
        rw [dispatchEnd, if_pos (by omega), picSendEoi, if_pos (by omega)]
        change Chips.mk (s.chips.master.command 0x20) (s.chips.slave.command 0x20) = _
        rw [command_eoi (by decide) hm, command_eoi hirq hs]
      rw [hchips]
      exact ⟨h.base, h.cascade, h.icw, h.masterIrr, h.slaveIrr, h.masterImr, h.slaveImr, rfl, .idle rfl rfl⟩

/-- Every event at the controllers is one of the lines. -/
theorem step {s' : PicRun} {e : Event} (h : Holds s a) (hstep : PicStep s e s') :
    ∃ a', LineStep a e a' ∧ Holds s' a' := by
  cases hstep with
  | raise hirq h2 => exact ⟨_, .raise hirq h2, h.raise hirq h2⟩
  | mask hirq => exact ⟨_, .mask hirq, h.mask hirq⟩
  | unmask hirq => exact ⟨_, .unmask hirq, h.unmask hirq⟩
  | take hidle hack =>
      rw [h.acknowledge_eq hidle] at hack
      obtain ⟨irq, hfind, heq⟩ := Option.map_eq_some_iff.mp hack
      cases heq
      have hlt := lt_of_mem_priority (List.mem_of_find?_eq_some hfind)
      exact ⟨_, .take (h.handling ▸ hidle) hfind, h.take hidle hlt⟩
  | done hbusy => exact ⟨_, .done (h.handling ▸ hbusy), h.done hbusy⟩

/-- Every event of the lines can happen at the controllers. -/
theorem stepBack {a' : Lines} {e : Event} (h : Holds s a) (hstep : LineStep a e a') :
    ∃ s', PicStep s e s' ∧ Holds s' a' := by
  cases hstep with
  | raise hirq h2 => exact ⟨_, .raise hirq h2, h.raise hirq h2⟩
  | mask hirq => exact ⟨_, .mask hirq, h.mask hirq⟩
  | unmask hirq => exact ⟨_, .unmask hirq, h.unmask hirq⟩
  | take hidle hready =>
      have hidle' : s.handling = none := h.handling.trans hidle
      have hack := h.acknowledge_eq hidle'
      rw [hready, Option.map_some] at hack
      exact ⟨_, .take hidle' hack, h.take hidle' (lt_of_mem_priority (List.mem_of_find?_eq_some hready))⟩
  | done hbusy => exact ⟨_, .done (h.handling.trans hbusy), h.done (h.handling.trans hbusy)⟩

end Holds

/-! ## All runs -/

/-- The controllers are what the kernel thinks they are: after `pic_remap`, whatever state they were in, the
sequences of requests, calls of `pic_mask_irq` and `pic_unmask_irq`, interrupts with their vectors and ends of
interrupts that can happen are those of a set of requests and a set of enabled lines, from which an
interrupt takes the most urgent line that is ready. -/
theorem traces_eq (p : Chips) (es : List Event) :
    (∃ s, Run PicStep ⟨picRemap p, none⟩ es s) ↔ ∃ a, Run LineStep .init es a :=
  Run.exists_iff (fun _ _ _ _ h => h.step) (fun _ _ _ _ h => h.stepBack) (holds_picRemap p) es

/-! ## Line 2 -/

/-- While line 2 is not enabled, no line of the slave is taken. -/
theorem take_lt_of_run {es : List Event} {a a' : Lines} (hrun : Run LineStep a es a')
    (h2 : a.enabled 2 = false) (hes : .unmask 2 ∉ es) {v : Nat} (hv : .take v ∈ es) : v < 40 := by
  induction hrun with
  | nil => exact absurd hv List.not_mem_nil
  | @cons a b _ e es hstep _ ih =>
      rw [List.mem_cons, not_or] at hes
      have hb : b.enabled 2 = false := by
        cases hstep with
        | raise | take | done => exact h2
        | @mask irq _ =>
            change Function.update a.enabled irq false 2 = false
            rw [Function.update_apply]
            split
            · rfl
            · exact h2
        | @unmask irq _ =>
            have hirq : (2 : Nat) ≠ irq := fun h => hes.1 (by rw [h])
            change Function.update a.enabled irq true 2 = false
            rw [Function.update_of_ne hirq]
            exact h2
      rcases List.mem_cons.mp hv with rfl | hv
      · cases hstep with
        | take _ hready =>
            have hr := List.find?_some hready
            rw [Lines.ready, h2, Bool.or_false, Bool.and_eq_true, decide_eq_true_eq] at hr
            have := hr.2
            omega
      · exact ih hb hes.2 hv

/-- The keyboard and the timer unmask their lines, 0 and 1, and the mouse its line 12, but nobody line 2: in
every such run only vectors of the master are ever taken. -/
theorem slave_silent (p : Chips) (es : List Event) (s : PicRun)
    (hrun : Run PicStep ⟨picRemap p, none⟩ es s) (hes : ∀ irq, .unmask irq ∈ es → irq = 0 ∨ irq = 1 ∨ irq = 12)
    (v : Nat) (hv : .take v ∈ es) : v < 40 := by
  obtain ⟨a, hlines, -⟩ := hrun.simulate (fun _ _ _ _ h => h.step) (holds_picRemap p)
  refine take_lt_of_run hlines rfl (fun h => ?_) hv
  have := hes 2 h
  omega

/-- Controllers as the firmware may leave them. -/
def someChips : Chips := ⟨⟨0xB8, 0, 0, 0x08, 0x04, 0⟩, ⟨0x8F, 0, 0, 0x70, 0x02, 0⟩⟩

/-- The drivers unmask their lines, the mouse raises its line and then the keyboard. -/
def mouseMoved : List Event := [.unmask 0, .unmask 1, .unmask 12, .raise 12, .raise 1, .take 33, .done]

/-- The keyboard is served, the mouse is not. -/
theorem slave_silent_mouse : ∃ s, Run PicStep ⟨picRemap someChips, none⟩ mouseMoved s ∧
    ∀ v, .take v ∈ mouseMoved → v < 40 := by
  have hlines : ∃ a, Run LineStep .init mouseMoved a :=
    ⟨_, .cons (.unmask (by decide)) (.cons (.unmask (by decide)) (.cons (.unmask (by decide))
      (.cons (.raise (by decide) (by decide)) (.cons (.raise (by decide) (by decide))
        (.cons (show LineStep _ (.take (32 + 1)) _ from .take rfl (by decide)) (.single (.done rfl)))))))⟩
  have hiff : (∃ s, Run PicStep ⟨picRemap someChips, none⟩ mouseMoved s) ↔ ∃ a, Run LineStep .init mouseMoved a :=
    Run.exists_iff (fun _ _ _ _ h => h.step) (fun _ _ _ _ h => h.stepBack) (holds_picRemap someChips) _
  obtain ⟨s, hs⟩ := hiff.mpr hlines
  exact ⟨s, hs, slave_silent someChips mouseMoved s hs (by
    intro irq h
    simp only [mouseMoved, List.mem_cons, Event.unmask.injEq, reduceCtorEq, or_false,
      List.not_mem_nil] at h
    exact h)⟩

end Pic

end Aerogel
