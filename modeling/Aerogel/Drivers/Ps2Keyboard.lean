import Aerogel.Foundations.RingQueue
import Aerogel.Foundations.Run
import Mathlib.Data.Nat.Bitwise

/-! # Keyboard events between the interrupt handler and `keyboard_poll`

`kb_handler` turns scan codes into key events and puts them into a ring of 128 slots; `keyboard_poll`
takes them out. There is no lock: the handler may run between any two accesses of `keyboard_poll` to
`khead`, `ktail` and `kbuf`, also in the middle of copying an event. `keyboardOk_of_run` says that
events come out as they went in. -/

namespace Aerogel

namespace Keyboard

/-! ## The driver -/

/-- `KEY_BUF_SIZE`. -/
abbrev keyBufSize : Nat := 128

/-- `KEY_MOD_SHIFT`. -/
def keyModShift : UInt8 := 0x01

/-- `KEY_MOD_CTRL`. -/
def keyModCtrl : UInt8 := 0x02

/-- `KEY_MOD_ALT`. -/
def keyModAlt : UInt8 := 0x04

/-- `KEY_MOD_CAPS`. -/
def keyModCaps : UInt8 := 0x08

/-- `key_event_t`. -/
structure KeyEvent where
  /-- `scancode`. -/
  scancode : UInt8
  /-- `ascii`. -/
  ascii : UInt8
  /-- `modifiers`. -/
  modifiers : UInt8
  /-- `pressed`. -/
  pressed : Bool
  deriving DecidableEq

/-- A row of zeros in the tables. -/
def zeroRow : List UInt8 := List.replicate 8 0

/-- The rows of the keypad, the same in both tables. -/
def keypadRows : List UInt8 :=
  (['\x00', '7', '8', '9', '-', '4', '5', '6',
    '+', '1', '2', '3', '0', '.', '\x00', '\x00'].map Char.toUInt8)

/-- `sc_ascii`. -/
def scAscii : List UInt8 :=
  (['\x00', '\x1B', '1', '2', '3', '4', '5', '6',
    '7', '8', '9', '0', '-', '=', '\x08', '\x09',
    'q', 'w', 'e', 'r', 't', 'y', 'u', 'i',
    'o', 'p', '[', ']', '\x0A', '\x00', 'a', 's',
    'd', 'f', 'g', 'h', 'j', 'k', 'l', ';',
    '\x27', '\x60', '\x00', '\x5C', 'z', 'x', 'c', 'v',
    'b', 'n', 'm', ',', '.', '/', '\x00', '*',
    '\x00', ' ', '\x00', '\x00', '\x00', '\x00', '\x00', '\x00'].map Char.toUInt8) ++
  zeroRow ++ keypadRows ++ zeroRow ++ zeroRow ++ zeroRow ++ zeroRow ++ zeroRow

/-- `sc_shift`. -/
def scShift : List UInt8 :=
  (['\x00', '\x1B', '!', '@', '#', '$', '%', '^',
    '&', '*', '(', ')', '_', '+', '\x08', '\x09',
    'Q', 'W', 'E', 'R', 'T', 'Y', 'U', 'I',
    'O', 'P', '\x7B', '\x7D', '\x0A', '\x00', 'A', 'S',
    'D', 'F', 'G', 'H', 'J', 'K', 'L', ':',
    '\x22', '~', '\x00', '|', 'Z', 'X', 'C', 'V',
    'B', 'N', 'M', '<', '>', '?', '\x00', '*',
    '\x00', ' ', '\x00', '\x00', '\x00', '\x00', '\x00', '\x00'].map Char.toUInt8) ++
  zeroRow ++ keypadRows ++ zeroRow ++ zeroRow ++ zeroRow ++ zeroRow ++ zeroRow

/-- The variables of the driver. -/
structure Kb where
  /-- `kbuf`. -/
  kbuf : Nat → KeyEvent
  /-- `khead`. -/
  khead : Nat
  /-- `ktail`. -/
  ktail : Nat
  /-- `modifiers`. -/
  modifiers : UInt8
  /-- `extended`. -/
  extended : Bool

/-- `(i + 1) % KEY_BUF_SIZE` in 32 bits. -/
def nextIndex (i : Nat) : Nat := (i + 1) % 2 ^ 32 % keyBufSize

/-- `kbuf_push`. -/
def kbufPush (k : Kb) (e : KeyEvent) : Bool × Kb :=
  let next := nextIndex k.khead
  if next = k.ktail then (false, k)
  else (true, { k with kbuf := Function.update k.kbuf k.khead e, khead := next })

/-- What `kb_handler` does on a press or release of a held modifier. -/
def Kb.setModifier (k : Kb) (mask : UInt8) (pressed : Bool) : Kb :=
  { k with modifiers := if pressed then k.modifiers ||| mask else k.modifiers &&& ~~~mask }

/-- The character `kb_handler` looks up for a key. -/
def asciiOf (modifiers code : UInt8) : UInt8 :=
  if code < 128 then
    let shift := modifiers &&& keyModShift != 0
    let caps := modifiers &&& keyModCaps != 0
    let ch := (if shift then scShift else scAscii).getD code.toNat 0
    let ch := if caps ∧ 0x61 ≤ ch ∧ ch ≤ 0x7A then ch - 32 else ch
    if caps ∧ 0x41 ≤ ch ∧ ch ≤ 0x5A then ch + 32 else ch
  else 0

/-- `kb_handler` with the byte it reads from `PS2_DATA`, and the event it gave to `kbuf_push` with the
answer, if it did. -/
def kbHandler (k : Kb) (sc : UInt8) : Kb × Option (KeyEvent × Bool) :=
  if sc = 0xE0 then ({ k with extended := true }, none)
  else
    let pressed := sc &&& 0x80 == 0
    let code := sc &&& 0x7F
    let k := { k with extended := false }
    if code = 0x2A ∨ code = 0x36 then (k.setModifier keyModShift pressed, none)
    else if code = 0x1D then (k.setModifier keyModCtrl pressed, none)
    else if code = 0x38 then (k.setModifier keyModAlt pressed, none)
    else if code = 0x3A then
      (if pressed then { k with modifiers := k.modifiers ^^^ keyModCaps } else k, none)
    else if pressed = false then (k, none)
    else
      let e : KeyEvent := ⟨code, asciiOf k.modifiers code, k.modifiers, true⟩
      let (answer, k) := kbufPush k e
      (k, some (e, answer))

/-! ## Interleavings -/

/-- The fields of an event. -/
inductive Field
  | scancode
  | ascii
  | modifiers
  | pressed
  deriving DecidableEq

namespace KeyEvent

/-- Copy one field. -/
def copyField (dst src : KeyEvent) : Field → KeyEvent
  | .scancode => { dst with scancode := src.scancode }
  | .ascii => { dst with ascii := src.ascii }
  | .modifiers => { dst with modifiers := src.modifiers }
  | .pressed => { dst with pressed := src.pressed }

/-- Two events have a field in common. -/
def SameField (e e' : KeyEvent) : Field → Prop
  | .scancode => e.scancode = e'.scancode
  | .ascii => e.ascii = e'.ascii
  | .modifiers => e.modifiers = e'.modifiers
  | .pressed => e.pressed = e'.pressed

end KeyEvent

/-- All fields of an event. -/
def allFields : List Field := [.scancode, .ascii, .modifiers, .pressed]

/-- Where `keyboard_poll` is, with the values it has read. -/
inductive PollPc
  /-- Not called, or returned. -/
  | idle
  /-- `khead` was read for the comparison. -/
  | readHead (head : Nat)
  /-- `ktail` was read for the comparison: C leaves the order of the two reads open. -/
  | readTail (tail : Nat)
  /-- The two were different. -/
  | nonempty
  /-- Copying the slot at `i`: what `evt` holds so far, and the fields that are still to be copied. -/
  | copy (i : Nat) (evt : KeyEvent) (left : List Field)
  /-- `evt` is complete, and `ktail` was read once more. -/
  | advance (tail : Nat) (evt : KeyEvent)

/-- The driver, a poll under way, and what happened so far. -/
structure KbState where
  /-- The driver's variables. -/
  kb : Kb
  /-- Where `keyboard_poll` is. -/
  pc : PollPc
  /-- The events `kbuf_push` accepted, in order. -/
  accepted : List KeyEvent
  /-- The events `keyboard_poll` returned, in order. -/
  returned : List KeyEvent

/-- The driver as it starts. -/
def kbInit : KbState where
  kb := ⟨fun _ => ⟨0, 0, 0, false⟩, 0, 0, 0, false⟩
  pc := .idle
  accepted := []
  returned := []

/-- A keyboard interrupt. -/
def KbState.interrupt (s : KbState) (sc : UInt8) : KbState :=
  let (kb, push) := kbHandler s.kb sc
  { s with
    kb := kb
    accepted := match push with
      | some (e, true) => s.accepted ++ [e]
      | _ => s.accepted }

/-- How `keyboard_poll` goes on after its comparison. -/
def compared (head tail : Nat) : PollPc := if head = tail then .idle else .nonempty

/-- One access of `keyboard_poll`. -/
inductive PollStep : KbState → KbState → Prop
  /-- Called; reads `khead` first. -/
  | head {s : KbState} : s.pc = .idle → PollStep s { s with pc := .readHead s.kb.khead }
  /-- Called; reads `ktail` first. -/
  | tail {s : KbState} : s.pc = .idle → PollStep s { s with pc := .readTail s.kb.ktail }
  /-- Reads `ktail`, compares. -/
  | compareTail {s : KbState} {head : Nat} : s.pc = .readHead head →
      PollStep s { s with pc := compared head s.kb.ktail }
  /-- Reads `khead`, compares. -/
  | compareHead {s : KbState} {tail : Nat} : s.pc = .readTail tail →
      PollStep s { s with pc := compared s.kb.khead tail }
  /-- Reads `ktail` for the slot to copy; `evt` holds anything. -/
  | index {s : KbState} (evt : KeyEvent) : s.pc = .nonempty →
      PollStep s { s with pc := .copy s.kb.ktail evt allFields }
  /-- Copies one more field, in any order. -/
  | copy {s : KbState} {i : Nat} {evt : KeyEvent} {left : List Field} (f : Field) :
      s.pc = .copy i evt left → f ∈ left →
      PollStep s { s with pc := .copy i (evt.copyField (s.kb.kbuf i) f) (left.erase f) }
  /-- Reads `ktail` once more. -/
  | again {s : KbState} {i : Nat} {evt : KeyEvent} : s.pc = .copy i evt [] →
      PollStep s { s with pc := .advance s.kb.ktail evt }
  /-- Writes `ktail` and returns the event. -/
  | done {s : KbState} {tail : Nat} {evt : KeyEvent} : s.pc = .advance tail evt →
      PollStep s { s with
        kb := { s.kb with ktail := nextIndex tail }, pc := .idle, returned := s.returned ++ [evt] }

/-- What happens. -/
inductive KbOp
  /-- A keyboard interrupt with this scan code. -/
  | irq (sc : UInt8)
  /-- `keyboard_poll` makes its next access. -/
  | poll

/-- Interrupts come at any time. -/
inductive KbStep : KbState → KbOp → KbState → Prop
  /-- `kb_handler` runs to completion. -/
  | irq (s : KbState) (sc : UInt8) : KbStep s (.irq sc) (s.interrupt sc)
  /-- An access of `keyboard_poll`. -/
  | poll {s s' : KbState} : PollStep s s' → KbStep s .poll s'

/-! ## The invariant -/

/-- The indices go round the ring: wrapping at 32 bits changes nothing. -/
theorem nextIndex_eq (i : Nat) : nextIndex i = (i + 1) % keyBufSize :=
  Nat.mod_mod_of_dvd _ (by decide)

/-- A copied field agrees. -/
theorem KeyEvent.sameField_copyField (dst src : KeyEvent) (f : Field) :
    (dst.copyField src f).SameField src f := by
  cases f <;> rfl

/-- Copying one field keeps the others. -/
theorem KeyEvent.SameField.copyField {dst src : KeyEvent} {g : Field} (h : dst.SameField src g)
    (f : Field) : (dst.copyField src f).SameField src g := by
  cases f <;> cases g <;> first | exact h | rfl

/-- Events that agree in every field are equal. -/
theorem KeyEvent.ext_field {e e' : KeyEvent} (h : ∀ f, e.SameField e' f) : e = e' := by
  obtain ⟨scancode, ascii, modifiers, pressed⟩ := e
  have h₁ : scancode = e'.scancode := h .scancode
  have h₂ : ascii = e'.ascii := h .ascii
  have h₃ : modifiers = e'.modifiers := h .modifiers
  have h₄ : pressed = e'.pressed := h .pressed
  rw [h₁, h₂, h₃, h₄]

/-- What `keyboard_poll` knows where it is, when the events `q` are unread: it is the only one to write
`ktail`, and nobody takes events away. -/
def PollPc.Knows (tail : Nat) (q : List KeyEvent) : PollPc → Prop
  | .idle => True
  | .readHead head => head ≠ tail → q ≠ []
  | .readTail t => t = tail
  | .nonempty => q ≠ []
  | .copy i evt left => i = tail ∧ ∃ e q', q = e :: q' ∧ ∀ f, f ∉ left → evt.SameField e f
  | .advance t evt => t = tail ∧ ∃ q', q = evt :: q'

/-- The unread events are in the ring, behind those that were returned. -/
structure KbInv (s : KbState) (q : List KeyEvent) : Prop where
  /-- The ring holds the unread events. -/
  holds : RingQueue.Holds keyBufSize s.kb.kbuf s.kb.ktail s.kb.khead q
  /-- Nothing is lost, repeated or reordered. -/
  accepted : s.accepted = s.returned ++ q
  /-- `keyboard_poll` may rely on what it has read. -/
  pc : s.pc.Knows s.kb.ktail q

/-- More events do not change what `keyboard_poll` knows. -/
theorem PollPc.Knows.append {tail : Nat} {q : List KeyEvent} {pc : PollPc} (h : pc.Knows tail q)
    (e : KeyEvent) : pc.Knows tail (q ++ [e]) := by
  have hne : q ++ [e] ≠ [] := List.append_ne_nil_of_right_ne_nil _ (List.cons_ne_nil _ _)
  cases pc with
  | idle => trivial
  | readHead head => exact fun _ => hne
  | readTail t => exact h
  | nonempty => exact hne
  | copy i evt left =>
      obtain ⟨hi, e', q', rfl, hsame⟩ := h
      exact ⟨hi, e', q' ++ [e], List.cons_append, hsame⟩
  | advance t evt =>
      obtain ⟨ht, q', rfl⟩ := h
      exact ⟨ht, q' ++ [e], List.cons_append⟩

/-- `kbuf_push` refuses an event when 127 are unread, and only then. -/
theorem kbufPush_eq_false_iff {k : Kb} {q : List KeyEvent}
    (h : RingQueue.Holds keyBufSize k.kbuf k.ktail k.khead q) (e : KeyEvent) :
    (kbufPush k e).1 = false ↔ q.length = 127 := by
  rw [kbufPush]
  have hfull : nextIndex k.khead = k.ktail ↔ q.length + 1 = 128 := by
    rw [nextIndex_eq]
    exact h.next_eq_tail_iff
  split_ifs with hnext
  · simp only [true_iff]
    have := hfull.mp hnext
    omega
  · simp only [false_iff]
    intro hlen
    exact hnext (hfull.mpr (by omega))

/-- `kb_handler` changes the ring only through `kbuf_push`. -/
theorem kbHandler_cases (k : Kb) (sc : UInt8) :
    (∃ m x, kbHandler k sc = ({ k with modifiers := m, extended := x }, none)) ∨
    (∃ m x e, kbHandler k sc = ((kbufPush { k with modifiers := m, extended := x } e).2,
      some (e, (kbufPush { k with modifiers := m, extended := x } e).1))) := by
  simp only [kbHandler]
  split_ifs
  · exact .inl ⟨_, _, rfl⟩
  · exact .inl ⟨_, _, rfl⟩
  · exact .inl ⟨_, _, rfl⟩
  · exact .inl ⟨_, _, rfl⟩
  · exact .inl ⟨_, _, rfl⟩
  · exact .inl ⟨_, _, rfl⟩
  · exact .inl ⟨_, _, rfl⟩
  · exact .inr ⟨_, _, _, rfl⟩

/-- The handler may run at any time. -/
theorem KbInv.interrupt {s : KbState} {q : List KeyEvent} (h : KbInv s q) (sc : UInt8) :
    ∃ q', KbInv (s.interrupt sc) q' := by
  rw [KbState.interrupt]
  obtain ⟨m, x, heq⟩ | ⟨m, x, e, heq⟩ := kbHandler_cases s.kb sc
  · rw [heq]
    exact ⟨q, h.holds, h.accepted, h.pc⟩
  · rw [heq, kbufPush]
    split_ifs with hnext
    · exact ⟨q, h.holds, h.accepted, h.pc⟩
    · refine ⟨q ++ [e], ?_, ?_, h.pc.append e⟩
      · have hroom : (s.kb.khead + 1) % keyBufSize ≠ s.kb.ktail := by
          rw [← nextIndex_eq]
          exact hnext
        have hpush := h.holds.push hroom e
        rw [← nextIndex_eq] at hpush
        exact hpush
      · change s.accepted ++ [e] = s.returned ++ (q ++ [e])
        rw [h.accepted, List.append_assoc]

/-- A comparison that finds the indices different is right about the ring. -/
theorem knows_compared {head tail : Nat} {q : List KeyEvent} (h : head ≠ tail → q ≠ []) :
    (compared head tail).Knows tail q := by
  rw [compared]
  split_ifs with heq
  · trivial
  · exact h heq

/-- Every access of `keyboard_poll` keeps the events in order. -/
theorem KbInv.pollStep {s s' : KbState} {q : List KeyEvent} (h : KbInv s q) (hstep : PollStep s s') :
    ∃ q', KbInv s' q' := by
  have hpc := h.pc
  have hdiffer : s.kb.khead ≠ s.kb.ktail → q ≠ [] := fun hne hq => hne (h.holds.head_eq_tail_iff.mpr hq)
  cases hstep with
  | head _ => exact ⟨q, h.holds, h.accepted, hdiffer⟩
  | tail _ => exact ⟨q, h.holds, h.accepted, rfl⟩
  | compareTail hat =>
      rw [hat] at hpc
      exact ⟨q, h.holds, h.accepted, knows_compared hpc⟩
  | compareHead hat =>
      rw [hat] at hpc
      obtain rfl : _ = s.kb.ktail := hpc
      exact ⟨q, h.holds, h.accepted, knows_compared hdiffer⟩
  | index evt hat =>
      rw [hat] at hpc
      obtain ⟨e, q', rfl⟩ := List.exists_cons_of_ne_nil hpc
      refine ⟨_, h.holds, h.accepted, rfl, e, q', rfl, fun f hf => ?_⟩
      cases f <;> exact absurd (by decide) hf
  | copy f hat hf =>
      rw [hat] at hpc
      obtain ⟨rfl, e, q', rfl, hsame⟩ := hpc
      refine ⟨_, h.holds, h.accepted, rfl, e, q', rfl, fun g hg => ?_⟩
      rw [h.holds.front]
      by_cases hgf : g = f
      · rw [hgf]
        exact KeyEvent.sameField_copyField _ _ f
      · apply KeyEvent.SameField.copyField
        exact hsame g fun hmem => hg ((List.mem_erase_of_ne hgf).mpr hmem)
  | again hat =>
      rw [hat] at hpc
      obtain ⟨rfl, e, q', rfl, hsame⟩ := hpc
      obtain rfl : _ = e := KeyEvent.ext_field fun f => hsame f List.not_mem_nil
      exact ⟨_, h.holds, h.accepted, rfl, q', rfl⟩
  | done hat =>
      rw [hat] at hpc
      obtain ⟨rfl, q', rfl⟩ := hpc
      refine ⟨q', ?_, ?_, trivial⟩
      · rw [nextIndex_eq]
        exact h.holds.pop
      · change s.accepted = s.returned ++ [_] ++ q'
        rw [h.accepted, List.append_assoc]
        rfl

/-- Every event keeps the invariant. -/
theorem kbInv_step (s : KbState) (op : KbOp) (s' : KbState) (h : ∃ q, KbInv s q)
    (hstep : KbStep s op s') : ∃ q, KbInv s' q := by
  obtain ⟨q, h⟩ := h
  cases hstep with
  | irq sc => exact h.interrupt sc
  | poll hpoll => exact h.pollStep hpoll

/-- At the start nothing is unread. -/
theorem kbInv_kbInit : KbInv kbInit [] := ⟨.empty _ (by decide), rfl, trivial⟩

/-! ## Polling until the ring is empty -/

/-- Accesses of `keyboard_poll` alone take it to its return, with `k` more events. -/
def Finishes (s : KbState) (k : Nat) : Prop :=
  ∃ n s', Run KbStep s (List.replicate n .poll) s' ∧ s'.pc = .idle ∧ s'.accepted = s.accepted ∧
    s'.returned.length = s.returned.length + k

/-- One access that returns nothing yet. -/
theorem Finishes.step {s t : KbState} {k : Nat} (hstep : PollStep s t)
    (haccepted : t.accepted = s.accepted) (hreturned : t.returned = s.returned)
    (h : Finishes t k) : Finishes s k := by
  obtain ⟨n, s', hrun, hidle, hacc, hret⟩ := h
  refine ⟨n + 1, s', .cons (.poll hstep) hrun, hidle, ?_, ?_⟩
  · rw [hacc, haccepted]
  · rw [hret, hreturned]

/-- The last access returns the event. -/
theorem finishes_advance {s : KbState} {tail : Nat} {evt : KeyEvent}
    (h : s.pc = .advance tail evt) : Finishes s 1 :=
  ⟨1, _, .single (.poll (.done h)), rfl, rfl, List.length_append⟩

/-- The fields are copied one after the other. -/
theorem finishes_copy {s : KbState} {i : Nat} {evt : KeyEvent} {left : List Field}
    (h : s.pc = .copy i evt left) : Finishes s 1 := by
  induction left generalizing s evt with
  | nil =>
      refine .step (.again h) rfl rfl ?_
      exact finishes_advance rfl
  | cons f left ih =>
      refine .step (.copy f h List.mem_cons_self) rfl rfl ?_
      apply ih
      rw [List.erase_cons_head]

/-- Once the indices were different, an event is returned. -/
theorem finishes_nonempty {s : KbState} (h : s.pc = .nonempty) : Finishes s 1 := by
  refine .step (.index ⟨0, 0, 0, false⟩ h) rfl rfl ?_
  exact finishes_copy rfl

/-- A poll that has compared the indices ends. -/
theorem finishes_compared {s : KbState} {head tail : Nat} (h : s.pc = compared head tail) :
    ∃ k, Finishes s k := by
  rw [compared] at h
  split_ifs at h
  · exact ⟨0, 0, s, .nil s, h, rfl, rfl⟩
  · exact ⟨1, finishes_nonempty h⟩

/-- A poll that is under way ends. -/
theorem exists_finishes (s : KbState) : ∃ k, Finishes s k := by
  cases hpc : s.pc with
  | idle => exact ⟨0, 0, s, .nil s, hpc, rfl, rfl⟩
  | readHead head =>
      obtain ⟨k, h⟩ := finishes_compared (s := { s with pc := compared head s.kb.ktail }) rfl
      exact ⟨k, .step (.compareTail hpc) rfl rfl h⟩
  | readTail tail =>
      obtain ⟨k, h⟩ := finishes_compared (s := { s with pc := compared s.kb.khead tail }) rfl
      exact ⟨k, .step (.compareHead hpc) rfl rfl h⟩
  | nonempty => exact ⟨1, finishes_nonempty hpc⟩
  | copy i evt left => exact ⟨1, finishes_copy hpc⟩
  | advance tail evt => exact ⟨1, finishes_advance hpc⟩

/-- A poll of a ring with events returns one. -/
theorem finishes_idle {s : KbState} (hidle : s.pc = .idle) (hne : s.kb.khead ≠ s.kb.ktail) :
    Finishes s 1 := by
  refine .step (.head hidle) rfl rfl (.step (.compareTail rfl) rfl rfl ?_)
  apply finishes_nonempty
  change compared s.kb.khead s.kb.ktail = .nonempty
  rw [compared, if_neg hne]

/-- Polling again and again returns every accepted event. -/
theorem drains {s : KbState} {q : List KeyEvent} (h : KbInv s q) (hidle : s.pc = .idle) :
    ∃ n s', Run KbStep s (List.replicate n .poll) s' ∧ s'.returned = s.accepted := by
  induction hm : q.length generalizing s q with
  | zero =>
      obtain rfl := List.length_eq_zero_iff.mp hm
      exact ⟨0, s, .nil s, by rw [h.accepted, List.append_nil]⟩
  | succ m ih =>
      have hne : s.kb.khead ≠ s.kb.ktail := by
        intro heq
        rw [h.holds.head_eq_tail_iff.mp heq] at hm
        cases hm
      obtain ⟨n₁, t, hrun₁, hidle', hacc, hret⟩ := finishes_idle hidle hne
      obtain ⟨q', h'⟩ := hrun₁.invariant kbInv_step ⟨q, h⟩
      have hlen : q'.length = m := by
        have h₁ := congrArg List.length h.accepted
        have h₂ := congrArg List.length h'.accepted
        rw [List.length_append] at h₁ h₂
        rw [hacc] at h₂
        omega
      obtain ⟨n₂, s', hrun₂, hall⟩ := ih h' hidle' hlen
      refine ⟨n₁ + n₂, s', ?_, by rw [hall, hacc]⟩
      rw [← List.replicate_append_replicate]
      exact hrun₁.append hrun₂

/-! ## All interleavings -/

/-- Key events go through the ring first in, first out. -/
structure KbOk (s : KbState) : Prop where
  /-- The events returned are the first of those accepted, unchanged and in order. -/
  inOrder : s.returned <+: s.accepted
  /-- No event is lost: polling returns all of them. -/
  drains : ∃ n s', Run KbStep s (List.replicate n .poll) s' ∧ s'.returned = s.accepted
  /-- An event is rejected only when 127 are unread. -/
  rejects : ∀ sc e, (kbHandler s.kb sc).2 = some (e, false) →
    s.accepted.length = s.returned.length + 127
  /-- `khead` is an index. -/
  khead_lt : s.kb.khead < 128
  /-- `ktail` is an index. -/
  ktail_lt : s.kb.ktail < 128

/-- What the handler rejects found the ring full. -/
theorem KbInv.rejects {s : KbState} {q : List KeyEvent} (h : KbInv s q) {sc : UInt8} {e : KeyEvent}
    (hrej : (kbHandler s.kb sc).2 = some (e, false)) :
    s.accepted.length = s.returned.length + 127 := by
  obtain ⟨m, x, heq⟩ | ⟨m, x, e', heq⟩ := kbHandler_cases s.kb sc
  · rw [heq] at hrej
    cases hrej
  · rw [heq] at hrej
    have hfalse : (kbufPush { s.kb with modifiers := m, extended := x } e').1 = false :=
      congrArg Prod.snd (Option.some.inj hrej)
    have hlen := (kbufPush_eq_false_iff (k := { s.kb with modifiers := m, extended := x }) h.holds
      e').mp hfalse
    rw [h.accepted, List.length_append, hlen]

/-- In every interleaving of polls and keyboard interrupts the events stay in order and none is lost. -/
theorem keyboardOk_of_run (ops : List KbOp) (s : KbState) (hrun : Run KbStep kbInit ops s) :
    KbOk s := by
  obtain ⟨q, h⟩ := hrun.invariant kbInv_step ⟨[], kbInv_kbInit⟩
  refine ⟨⟨q, h.accepted.symm⟩, ?_, fun _ _ => h.rejects, h.holds.head_lt, h.holds.tail_lt⟩
  -- the poll that is under way first
  obtain ⟨k, n₁, t, hrun₁, hidle, hacc, -⟩ := exists_finishes s
  obtain ⟨q', h'⟩ := hrun₁.invariant kbInv_step ⟨q, h⟩
  obtain ⟨n₂, s', hrun₂, hall⟩ := drains h' hidle
  refine ⟨n₁ + n₂, s', ?_, by rw [hall, hacc]⟩
  rw [← List.replicate_append_replicate]
  exact hrun₁.append hrun₂

/-- Key A is pressed, and shift and B while it is being read. -/
theorem keyboardOk_interrupted : ∃ s, Run KbStep kbInit
      [.irq 0x1E, .poll, .poll, .poll, .irq 0x2A, .poll, .irq 0x30] s ∧
    s.accepted = [⟨0x1E, 0x61, 0, true⟩, ⟨0x30, 0x42, 1, true⟩] ∧ KbOk s := by
  have hrun := Run.cons (KbStep.irq kbInit 0x1E) (.cons (.poll (.head rfl))
    (.cons (.poll (.compareTail rfl)) (.cons (.poll (.index ⟨7, 7, 7, false⟩ rfl))
    (.cons (.irq _ 0x2A) (.cons (.poll (.copy .modifiers rfl (by decide)))
    (.single (.irq _ 0x30)))))))
  exact ⟨_, hrun, by decide, keyboardOk_of_run _ _ hrun⟩

end Keyboard

end Aerogel
