import Aerogel.Drivers.Ps2Keyboard

/-! # Which keys are held

`kb_handler` keeps one bit for each modifier and forgets the prefix `E0`. Next to it runs a
reference that knows every key by itself: `Keys` says which keys are held and whether caps lock is
on. The two agree as long as every byte satisfies `StepOk` (`agrees_of_run`), and a byte that does
not ends the agreement (`tracks_interrupt_iff`). -/

namespace Aerogel

namespace Keyboard

/-! ## The keys -/

/-- A key: its code, and whether that is prefixed with `E0`. -/
structure Key where
  /-- Prefixed with `E0`. -/
  extended : Bool
  /-- The code without the release bit. -/
  code : UInt8
  deriving DecidableEq

/-- The two keys of a modifier. -/
structure ModifierKeys where
  /-- The left one. -/
  left : Key
  /-- The right one. -/
  right : Key

/-- Shift. -/
def shiftKeys : ModifierKeys := ⟨⟨false, 0x2A⟩, ⟨false, 0x36⟩⟩

/-- Ctrl. -/
def ctrlKeys : ModifierKeys := ⟨⟨false, 0x1D⟩, ⟨true, 0x1D⟩⟩

/-- Alt. -/
def altKeys : ModifierKeys := ⟨⟨false, 0x38⟩, ⟨true, 0x38⟩⟩

/-- Caps lock. -/
def capsLock : Key := ⟨false, 0x3A⟩

/-- A byte is that of a press, not of a release. -/
def isPress (sc : UInt8) : Bool := sc &&& 0x80 == 0

/-- The code in a byte. -/
def codeOf (sc : UInt8) : UInt8 := sc &&& 0x7F

/-- What the bytes so far say about the keys. -/
structure Keys where
  /-- `E0` was the last byte. -/
  prefixed : Bool
  /-- Bytes that are left of a sequence with `E1`, that of the Pause key. -/
  skip : Nat
  /-- Which keys are held. -/
  held : Key → Bool
  /-- Caps lock is on. -/
  caps : Bool

/-- The key that a byte is about, if it is about one. -/
def Keys.key (k : Keys) (sc : UInt8) : Option Key :=
  if k.skip ≠ 0 ∨ sc = 0xE0 ∨ sc = 0xE1 then none else some ⟨k.prefixed, codeOf sc⟩

/-- One more byte. Caps lock is switched when its key goes down. -/
def Keys.deliver (k : Keys) (sc : UInt8) : Keys :=
  match k.key sc with
  | none =>
    if k.skip ≠ 0 then { k with skip := k.skip - 1 }
    else if sc = 0xE0 then { k with prefixed := true }
    else { k with prefixed := false, skip := 2 }
  | some key =>
    { k with
      prefixed := false
      held := Function.update k.held key (isPress sc)
      caps := if key = capsLock ∧ isPress sc ∧ k.held key = false then !k.caps else k.caps }

/-- A key of the modifier is held. -/
def Keys.holds (k : Keys) (m : ModifierKeys) : Bool := k.held m.left || k.held m.right

/-! ## The driver beside the keys -/

/-- An event with the key and what was held when it was queued. -/
structure Typed where
  /-- The event. -/
  event : KeyEvent
  /-- The key it is about. -/
  key : Option Key
  /-- A shift key was held. -/
  shift : Bool
  /-- Caps lock was on. -/
  caps : Bool

/-- The driver, the keys, and the events that were queued. -/
structure Typing where
  /-- The driver. -/
  driver : KbState
  /-- The keys. -/
  keys : Keys
  /-- The events. -/
  typed : List Typed

/-- No key is held. -/
def typingInit : Typing := ⟨kbInit, ⟨false, 0, fun _ => false, false⟩, []⟩

/-- A keyboard interrupt. -/
def Typing.interrupt (t : Typing) (sc : UInt8) : Typing where
  driver := t.driver.interrupt sc
  keys := t.keys.deliver sc
  typed := match (kbHandler t.driver.kb sc).2 with
    | some (e, true) => t.typed ++ [⟨e, t.keys.key sc, t.keys.holds shiftKeys, t.keys.caps⟩]
    | _ => t.typed

/-- Interrupts and polls, as before. -/
inductive TypingStep : Typing → KbOp → Typing → Prop
  /-- `kb_handler` runs. -/
  | irq (t : Typing) (sc : UInt8) : TypingStep t (.irq sc) (t.interrupt sc)
  /-- An access of `keyboard_poll`. -/
  | poll {t : Typing} {s : KbState} : PollStep t.driver s → TypingStep t .poll { t with driver := s }

/-- The key types a letter. -/
def isLetterKey (code : UInt8) : Bool :=
  0x61 ≤ scAscii.getD code.toNat 0 && scAscii.getD code.toNat 0 ≤ 0x7A

/-- An upper-case letter. -/
def isUpper (c : UInt8) : Bool := 0x41 ≤ c && c ≤ 0x5A

/-- The event carries the right character: a letter in upper case if exactly one of shift and caps
lock is active, and for a key with `E0` not the character of the key without it. -/
structure Typed.Right (x : Typed) : Prop where
  /-- Letters. -/
  letter : x.key = some ⟨false, x.event.scancode⟩ → isLetterKey x.event.scancode →
    isUpper x.event.ascii = xor x.shift x.caps
  /-- Keys with `E0`. -/
  extended : x.key = some ⟨true, x.event.scancode⟩ →
    x.event.ascii = 0 ∨ x.event.ascii ≠ asciiOf x.event.modifiers x.event.scancode

/-- The driver agrees with the keys. -/
structure Agrees (t : Typing) : Prop where
  /-- The bit for shift. -/
  shift : t.driver.kb.modifiers &&& keyModShift ≠ 0 ↔ t.keys.held ⟨false, 0x2A⟩ ∨
  t.keys.held ⟨false, 0x36⟩
  /-- The bit for ctrl. -/
  ctrl : t.driver.kb.modifiers &&& keyModCtrl ≠ 0 ↔ t.keys.held ⟨false, 0x1D⟩ ∨ t.keys.held ⟨true, 0x1D⟩
  /-- The bit for alt. -/
  alt : t.driver.kb.modifiers &&& keyModAlt ≠ 0 ↔ t.keys.held ⟨false, 0x38⟩ ∨ t.keys.held ⟨true, 0x38⟩
  /-- The bit for caps lock. -/
  caps : t.driver.kb.modifiers &&& keyModCaps ≠ 0 ↔ t.keys.caps
  /-- The events are those that were queued. -/
  queued : t.typed.map Typed.event = t.driver.accepted
  /-- They carry the right characters. -/
  events : ∀ x ∈ t.typed, x.Right

/-! ## Bytes that keep the agreement -/

/-- A byte with a modifier's code says what is then the case: a press that one of its keys is
held, a release that none is. -/
def ModifierOk (k : Keys) (m : ModifierKeys) (sc : UInt8) : Prop := (k.deliver sc).holds m = isPress sc

/-- The press of a key that queues an event gives it the right character. -/
structure CharOk (k : Keys) (sc : UInt8) : Prop where
  /-- A letter is not typed with caps lock alone. -/
  letter : k.key sc = some ⟨false, codeOf sc⟩ → isLetterKey (codeOf sc) → k.caps → k.holds shiftKeys
  /-- A key with `E0` has no character without it. -/
  extended : k.key sc = some ⟨true, codeOf sc⟩ → scAscii.getD (codeOf sc).toNat 0 = 0

/-- The byte keeps the agreement. -/
def StepOk (t : Typing) (sc : UInt8) : Prop :=
  sc ≠ 0xE0 →
    if codeOf sc = 0x2A ∨ codeOf sc = 0x36 then ModifierOk t.keys shiftKeys sc
    else if codeOf sc = 0x1D then ModifierOk t.keys ctrlKeys sc
    else if codeOf sc = 0x38 then ModifierOk t.keys altKeys sc
    -- caps lock goes down: it was not held before
    else if codeOf sc = 0x3A then isPress sc → t.keys.key sc = some capsLock ∧
    t.keys.held capsLock = false
    else isPress sc → nextIndex t.driver.kb.khead ≠ t.driver.kb.ktail → CharOk t.keys sc

/-! ## The modifier bits -/

/-- The byte with these bits. -/
def encode (shift ctrl alt caps : Bool) : UInt8 :=
  (if shift then keyModShift else 0) ||| (if ctrl then keyModCtrl else 0) ||| (if alt then keyModAlt else 0) |||
    (if caps then keyModCaps else 0)

/-- The bits that the keys call for. -/
def Keys.bits (k : Keys) : UInt8 := encode (k.holds shiftKeys) (k.holds ctrlKeys) (k.holds altKeys) k.caps

theorem encode_inj : ∀ {s c a l s' c' a' l' : Bool},
    encode s c a l = encode s' c' a' l' ↔ s = s' ∧ c = c' ∧ a = a' ∧ l = l' := by
  decide

theorem encode_setShift : ∀ p s c a l : Bool,
    (if p then encode s c a l ||| keyModShift else encode s c a l &&& ~~~keyModShift) = encode p c a l := by
  decide

theorem encode_setCtrl : ∀ p s c a l : Bool,
    (if p then encode s c a l ||| keyModCtrl else encode s c a l &&& ~~~keyModCtrl) = encode s p a l := by
  decide

theorem encode_setAlt : ∀ p s c a l : Bool,
    (if p then encode s c a l ||| keyModAlt else encode s c a l &&& ~~~keyModAlt) = encode s c p l := by
  decide

theorem encode_flipCaps : ∀ s c a l : Bool, encode s c a l ^^^ keyModCaps = encode s c a (!l) := by
  decide

/-- Every bit says what it should. -/
theorem encode_bits : ∀ s c a l : Bool, (encode s c a l &&& keyModShift ≠ 0 ↔ s = true) ∧
    (encode s c a l &&& keyModCtrl ≠ 0 ↔ c = true) ∧ (encode s c a l &&& keyModAlt ≠ 0 ↔ a = true) ∧
    (encode s c a l &&& keyModCaps ≠ 0 ↔ l = true) := by
  decide

/-! ## The character tables -/

/-- Ctrl and alt do not change the character. -/
theorem asciiOf_encode (s c a l : Bool) (code : UInt8) :
    asciiOf (encode s c a l) code = asciiOf (encode s false false l) code := by
  cases c <;> cases a <;> cases s <;> cases l <;> rfl

/-- What the tables give for a code below 128 and these bits. -/
theorem tables (s c a l : Bool) {code : UInt8} (hcode : code < 128) :
    (isLetterKey code → isUpper (asciiOf (encode s c a l) code) = (s && !l)) ∧
      (asciiOf (encode s c a l) code = 0 ↔ scAscii.getD code.toNat 0 = 0) := by
  have hall : ((List.range 128).all fun i =>
      ((!isLetterKey (UInt8.ofNat i)) || isUpper (asciiOf (encode s false false l) (UInt8.ofNat i)) == (s && !l)) &&
        ((asciiOf (encode s false false l) (UInt8.ofNat i) == 0) == (scAscii.getD i 0 == 0))) = true := by
    revert s l
    decide +kernel
  have hlt : code.toNat < 128 := hcode
  have h := List.all_eq_true.mp hall code.toNat (List.mem_range.mpr hlt)
  rw [UInt8.ofNat_toNat, Bool.and_eq_true, Bool.or_eq_true, Bool.not_eq_true', beq_iff_eq,
    beq_iff_eq] at h
  rw [asciiOf_encode]
  refine ⟨fun hletter => ?_, ?_⟩
  · rcases h.1 with h' | h'
    · rw [hletter] at h'
      cases h'
    · exact h'
  · have h₂ := h.2
    rw [Bool.eq_iff_iff, beq_iff_eq, beq_iff_eq] at h₂
    exact h₂

/-! ## What a byte does to the keys -/

section Byte

variable {k : Keys} {sc : UInt8}

/-- A byte with another code does not change whether a key is held. -/
theorem held_deliver_of_ne {key : Key}
    (h : codeOf sc ≠ key.code) : (k.deliver sc).held key = k.held key := by
  rw [Keys.deliver]
  cases hkey : k.key sc with
  | none =>
      dsimp only
      split_ifs <;> rfl
  | some key' =>
      have hcode : key'.code = codeOf sc := by
        rw [Keys.key] at hkey
        split_ifs at hkey
        rw [← Option.some.inj hkey]
      refine Function.update_of_ne (fun heq => h ?_) ..
      rw [heq, hcode]

/-- Nor whether those of another modifier are. -/
theorem holds_deliver_of_ne (m : ModifierKeys) (hleft : codeOf sc ≠ m.left.code)
    (hright : codeOf sc ≠ m.right.code) : (k.deliver sc).holds m = k.holds m := by
  rw [Keys.holds, held_deliver_of_ne hleft, held_deliver_of_ne hright, Keys.holds]

/-- Only a press of caps lock that was not held switches it. -/
theorem caps_deliver : (k.deliver sc).caps =
    if k.key sc = some capsLock ∧ isPress sc ∧ k.held capsLock = false then !k.caps else k.caps := by
  rw [Keys.deliver]
  cases hkey : k.key sc with
  | none =>
      have hno : ¬ ((none : Option Key) = some capsLock ∧ isPress sc ∧ k.held capsLock = false) := by
        rintro ⟨h, -⟩
        cases h
      rw [if_neg hno]
      dsimp only
      split_ifs <;> rfl
  | some key =>
      have hiff : (key = capsLock ∧ isPress sc ∧ k.held key = false) ↔
          (some key = some capsLock ∧ isPress sc ∧ k.held capsLock = false) := by
        rw [Option.some.injEq]
        refine and_congr_right fun h => ?_
        rw [h]
      exact if_congr hiff rfl rfl

/-- A byte with another code does not switch caps lock. -/
theorem caps_deliver_of_ne (h : codeOf sc ≠ 0x3A) : (k.deliver sc).caps = k.caps := by
  rw [caps_deliver, if_neg]
  rintro ⟨hkey, -, -⟩
  rw [Keys.key] at hkey
  split_ifs at hkey
  exact h (congrArg Key.code (Option.some.inj hkey))

end Byte

/-! ## One interrupt -/

/-- The driver tracks the keys: its bits are theirs, and every event queued so far was right. -/
structure Tracks (t : Typing) : Prop where
  /-- The bits. -/
  bits : t.driver.kb.modifiers = t.keys.bits
  /-- The events are those that were queued. -/
  queued : t.typed.map Typed.event = t.driver.accepted
  /-- They carry the right characters. -/
  events : ∀ x ∈ t.typed, x.Right

/-- Tracking is agreement. -/
theorem Tracks.agrees {t : Typing} (h : Tracks t) : Agrees t := by
  obtain ⟨hshift, hctrl, halt, hcaps⟩ :=
    encode_bits (t.keys.holds shiftKeys) (t.keys.holds ctrlKeys) (t.keys.holds altKeys) t.keys.caps
  have hbits : t.driver.kb.modifiers = encode _ _ _ _ := h.bits
  rw [← hbits] at hshift hctrl halt hcaps
  exact ⟨hshift.trans (Bool.or_eq_true ..).to_iff, hctrl.trans (Bool.or_eq_true ..).to_iff,
    halt.trans (Bool.or_eq_true ..).to_iff, hcaps, h.queued, h.events⟩

/-- What an interrupt has to get right: the bits, and the event if it queues one. -/
theorem Tracks.interrupt_iff {t : Typing} (h : Tracks t) (sc : UInt8) : Tracks (t.interrupt sc) ↔
    (kbHandler t.driver.kb sc).1.modifiers = (t.keys.deliver sc).bits ∧
      ∀ e, (kbHandler t.driver.kb sc).2 = some (e, true) →
        Typed.Right ⟨e, t.keys.key sc, t.keys.holds shiftKeys, t.keys.caps⟩ := by
  have hdriver : (t.interrupt sc).driver.kb = (kbHandler t.driver.kb sc).1 := rfl
  have hkeys : (t.interrupt sc).keys = t.keys.deliver sc := rfl
  have htyped : (t.interrupt sc).typed = match (kbHandler t.driver.kb sc).2 with
    | some (e, true) => t.typed ++ [⟨e, t.keys.key sc, t.keys.holds shiftKeys, t.keys.caps⟩]
    | _ => t.typed := rfl
  have haccepted : (t.interrupt sc).driver.accepted = match (kbHandler t.driver.kb sc).2 with
    | some (e, true) => t.driver.accepted ++ [e]
    | _ => t.driver.accepted := rfl
  constructor
  · intro h'
    refine ⟨h'.bits, fun e he => h'.events _ ?_⟩
    rw [htyped, he]
    exact List.mem_append_right _ (List.mem_singleton.mpr rfl)
  · rintro ⟨hbits, hevent⟩
    refine ⟨hbits, ?_, ?_⟩
    · rw [htyped, haccepted]
      split
      · rw [List.map_append, h.queued]
        rfl
      · exact h.queued
    · rw [htyped]
      split
      case h_1 e heq =>
        intro x hx
        rcases List.mem_append.mp hx with hx | hx
        · exact h.events x hx
        · rw [List.mem_singleton.mp hx]
          exact hevent e heq
      · exact h.events

/-- A byte with none of the modifiers' codes leaves the bits alone. -/
theorem bits_deliver_of_ne {k : Keys} {sc : UInt8} (hshift : ¬ (codeOf sc = 0x2A ∨ codeOf sc = 0x36))
    (hctrl : codeOf sc ≠ 0x1D) (halt : codeOf sc ≠ 0x38) (hcaps : codeOf sc ≠ 0x3A) :
    (k.deliver sc).bits = k.bits := by
  rw [not_or] at hshift
  rw [Keys.bits, holds_deliver_of_ne shiftKeys hshift.1 hshift.2,
    holds_deliver_of_ne ctrlKeys hctrl hctrl,
    holds_deliver_of_ne altKeys halt halt, caps_deliver_of_ne hcaps, Keys.bits]

/-- Setting the shift bit by the last byte is right if it says whether a shift key is held. -/
theorem bits_deliver_shift {k : Keys} {sc : UInt8} (hshift : codeOf sc = 0x2A ∨ codeOf sc = 0x36) :
    (if isPress sc then k.bits ||| keyModShift else k.bits &&& ~~~keyModShift) = (k.deliver sc).bits ↔
      ModifierOk k shiftKeys sc := by
  have hctrl : codeOf sc ≠ 0x1D := by rcases hshift with h | h <;> rw [h] <;> decide
  have halt : codeOf sc ≠ 0x38 := by rcases hshift with h | h <;> rw [h] <;> decide
  have hcaps : codeOf sc ≠ 0x3A := by rcases hshift with h | h <;> rw [h] <;> decide
  rw [Keys.bits, encode_setShift, Keys.bits, encode_inj, holds_deliver_of_ne ctrlKeys hctrl hctrl,
    holds_deliver_of_ne altKeys halt halt, caps_deliver_of_ne hcaps, ModifierOk]
  exact ⟨fun h => h.1.symm, fun h => ⟨h.symm, rfl, rfl, rfl⟩⟩

/-- The same for the ctrl bit. -/
theorem bits_deliver_ctrl {k : Keys} {sc : UInt8} (hctrl : codeOf sc = 0x1D) :
    (if isPress sc then k.bits ||| keyModCtrl else k.bits &&& ~~~keyModCtrl) = (k.deliver sc).bits ↔
      ModifierOk k ctrlKeys sc := by
  have hleft : codeOf sc ≠ 0x2A := by rw [hctrl]; decide
  have hright : codeOf sc ≠ 0x36 := by rw [hctrl]; decide
  have halt : codeOf sc ≠ 0x38 := by rw [hctrl]; decide
  have hcaps : codeOf sc ≠ 0x3A := by rw [hctrl]; decide
  rw [Keys.bits, encode_setCtrl, Keys.bits, encode_inj, holds_deliver_of_ne shiftKeys hleft hright,
    holds_deliver_of_ne altKeys halt halt, caps_deliver_of_ne hcaps, ModifierOk]
  exact ⟨fun h => h.2.1.symm, fun h => ⟨rfl, h.symm, rfl, rfl⟩⟩

/-- The same for the alt bit. -/
theorem bits_deliver_alt {k : Keys} {sc : UInt8} (halt : codeOf sc = 0x38) :
    (if isPress sc then k.bits ||| keyModAlt else k.bits &&& ~~~keyModAlt) = (k.deliver sc).bits ↔
      ModifierOk k altKeys sc := by
  have hleft : codeOf sc ≠ 0x2A := by rw [halt]; decide
  have hright : codeOf sc ≠ 0x36 := by rw [halt]; decide
  have hctrl : codeOf sc ≠ 0x1D := by rw [halt]; decide
  have hcaps : codeOf sc ≠ 0x3A := by rw [halt]; decide
  rw [Keys.bits, encode_setAlt, Keys.bits, encode_inj, holds_deliver_of_ne shiftKeys hleft hright,
    holds_deliver_of_ne ctrlKeys hctrl hctrl, caps_deliver_of_ne hcaps, ModifierOk]
  exact ⟨fun h => h.2.2.1.symm, fun h => ⟨rfl, rfl, h.symm, rfl⟩⟩

/-- Flipping the caps bit on a press is right if the caps-lock key goes down. -/
theorem bits_deliver_caps {k : Keys} {sc : UInt8} (hcaps : codeOf sc = 0x3A) :
    (if isPress sc then k.bits ^^^ keyModCaps else k.bits) = (k.deliver sc).bits ↔
      (isPress sc → k.key sc = some capsLock ∧ k.held capsLock = false) := by
  have hleft : codeOf sc ≠ 0x2A := by rw [hcaps]; decide
  have hright : codeOf sc ≠ 0x36 := by rw [hcaps]; decide
  have hctrl : codeOf sc ≠ 0x1D := by rw [hcaps]; decide
  have halt : codeOf sc ≠ 0x38 := by rw [hcaps]; decide
  rw [Keys.bits, encode_flipCaps, ← apply_ite (encode _ _ _), Keys.bits, encode_inj,
    holds_deliver_of_ne shiftKeys hleft hright, holds_deliver_of_ne ctrlKeys hctrl hctrl,
    holds_deliver_of_ne altKeys halt halt, caps_deliver]
  cases hpress : isPress sc with
  | false =>
      have hsame : ¬ (k.key sc = some capsLock ∧ false = true ∧ k.held capsLock = false) :=
        fun h => absurd h.2.1 (by decide)
      exact iff_of_true ⟨rfl, rfl, rfl, (if_neg hsame).symm⟩ fun h => absurd h (by decide)
  | true =>
      by_cases hkey : k.key sc = some capsLock ∧ k.held capsLock = false
      · refine iff_of_true ⟨rfl, rfl, rfl, ?_⟩ fun _ => hkey
        rw [if_pos rfl, if_pos ⟨hkey.1, rfl, hkey.2⟩]
      · refine iff_of_false (fun h => ?_) fun h => hkey (h rfl)
        have hflip := h.2.2.2
        rw [if_pos rfl, if_neg fun h' => hkey ⟨h'.1, h'.2.2⟩] at hflip
        exact absurd hflip (Bool.not_ne_self _)

/-- The event for a key has the right character if and only if the byte satisfies the condition. -/
theorem right_iff (k : Keys) (sc : UInt8) :
    Typed.Right ⟨⟨codeOf sc, asciiOf k.bits (codeOf sc), k.bits, true⟩, k.key sc, k.holds shiftKeys, k.caps⟩ ↔
      CharOk k sc := by
  have hcode : codeOf sc < 128 := by
    rw [UInt8.lt_iff_toNat_lt, codeOf, UInt8.toNat_and]
    exact Nat.lt_succ_of_le Nat.and_le_right
  obtain ⟨hletter, hzero⟩ := tables (k.holds shiftKeys) (k.holds ctrlKeys) (k.holds altKeys) k.caps hcode
  constructor
  · intro h
    refine ⟨fun hkey hl hcaps => ?_, fun hkey => ?_⟩
    · have hcase := (hletter hl).symm.trans (h.letter hkey hl)
      dsimp only at hcase
      rw [hcaps] at hcase
      cases hs : k.holds shiftKeys with
      | true => rfl
      | false =>
          rw [hs] at hcase
          cases hcase
    · rcases h.extended hkey with h0 | hne
      · exact hzero.mp h0
      · exact absurd rfl hne
  · intro h
    refine ⟨fun hkey hl => (hletter hl).trans ?_, fun hkey => .inl (hzero.mpr (h.extended hkey))⟩
    dsimp only
    have hcaps := h.letter hkey hl
    cases hl' : k.caps with
    | false => rw [Bool.not_false, Bool.and_true, Bool.xor_false]
    | true => rw [hcaps hl', Bool.not_true, Bool.and_false, Bool.xor_self]

/-! ## One byte -/

section Handler

variable {kb : Kb} {sc : UInt8}

/-- A shift key, or what looks like one. -/
theorem kbHandler_shift (he0 : sc ≠ 0xE0) (hshift : codeOf sc = 0x2A ∨ codeOf sc = 0x36) :
    kbHandler kb sc = (({ kb with extended := false } : Kb).setModifier keyModShift (isPress sc), none) := by
  rw [kbHandler, if_neg he0]
  exact if_pos hshift

theorem kbHandler_ctrl (he0 : sc ≠ 0xE0) (hshift : ¬ (codeOf sc = 0x2A ∨ codeOf sc = 0x36))
    (hctrl : codeOf sc = 0x1D) :
    kbHandler kb sc = (({ kb with extended := false } : Kb).setModifier keyModCtrl (isPress sc), none) := by
  rw [kbHandler, if_neg he0]
  exact (if_neg hshift).trans (if_pos hctrl)

variable (he0 : sc ≠ 0xE0) (hshift : ¬ (codeOf sc = 0x2A ∨ codeOf sc = 0x36)) (hctrl : codeOf sc ≠ 0x1D)

include he0 hshift hctrl

theorem kbHandler_alt (halt : codeOf sc = 0x38) :
    kbHandler kb sc = (({ kb with extended := false } : Kb).setModifier keyModAlt (isPress sc), none) := by
  rw [kbHandler, if_neg he0]
  exact (if_neg hshift).trans ((if_neg hctrl).trans (if_pos halt))

variable (halt : codeOf sc ≠ 0x38)

include halt

theorem kbHandler_caps (hcaps : codeOf sc = 0x3A) : kbHandler kb sc =
    (if isPress sc then { kb with extended := false, modifiers := kb.modifiers ^^^ keyModCaps }
    else { kb with extended := false }, none) := by
  rw [kbHandler, if_neg he0]
  exact (if_neg hshift).trans ((if_neg hctrl).trans ((if_neg halt).trans (if_pos hcaps)))

/-- Any other key comes up. -/
theorem kbHandler_release (hcaps : codeOf sc ≠ 0x3A) (hpress : isPress sc = false) :
    kbHandler kb sc = ({ kb with extended := false }, none) := by
  rw [kbHandler, if_neg he0]
  exact (if_neg hshift).trans ((if_neg hctrl).trans ((if_neg halt).trans
    ((if_neg hcaps).trans (if_pos hpress))))

/-- Any other key goes down. -/
theorem kbHandler_press (hcaps : codeOf sc ≠ 0x3A) (hpress : isPress sc = true) : kbHandler kb sc =
    let e : KeyEvent := ⟨codeOf sc, asciiOf kb.modifiers (codeOf sc), kb.modifiers, true⟩
    let p := kbufPush { kb with extended := false } e
    (p.2, some (e, p.1)) := by
  rw [kbHandler, if_neg he0]
  exact (if_neg hshift).trans ((if_neg hctrl).trans ((if_neg halt).trans
    ((if_neg hcaps).trans (if_neg fun h => absurd (hpress.symm.trans h) (by decide)))))

end Handler

namespace Tracks

variable {t : Typing} {sc : UInt8}

/-- A byte without an event only has to leave the right bits. -/
theorem quiet_iff (h : Tracks t) {kb : Kb} (hrun : kbHandler t.driver.kb sc = (kb, none)) :
    Tracks (t.interrupt sc) ↔ kb.modifiers = (t.keys.deliver sc).bits := by
  rw [h.interrupt_iff, hrun]
  refine and_iff_left fun e he => ?_
  cases he

/-- A byte that is taken for a modifier key. -/
theorem modifier_iff (h : Tracks t) {flag : UInt8} (hrun : kbHandler t.driver.kb sc =
      (({ t.driver.kb with extended := false } : Kb).setModifier flag (isPress sc), none)) :
    Tracks (t.interrupt sc) ↔
      (if isPress sc then t.keys.bits ||| flag else t.keys.bits &&& ~~~flag) = (t.keys.deliver sc).bits := by
  rw [h.quiet_iff hrun, Kb.setModifier]
  dsimp only
  rw [h.bits]

/-- A byte that queues an event, if there is room. -/
theorem press_iff (h : Tracks t) (hkeys : (t.keys.deliver sc).bits = t.keys.bits)
    (hrun : kbHandler t.driver.kb sc =
      let e : KeyEvent := ⟨codeOf sc, asciiOf t.driver.kb.modifiers (codeOf sc), t.driver.kb.modifiers, true⟩
      let p := kbufPush { t.driver.kb with extended := false } e
      (p.2, some (e, p.1))) :
    Tracks (t.interrupt sc) ↔ (nextIndex t.driver.kb.khead ≠ t.driver.kb.ktail → CharOk t.keys sc) := by
  rw [h.interrupt_iff, hrun]
  dsimp only
  rw [h.bits, kbufPush, hkeys]
  dsimp only
  by_cases hroom : nextIndex t.driver.kb.khead = t.driver.kb.ktail
  · -- the ring is full, and the event is dropped
    rw [if_pos hroom]
    refine iff_of_true ⟨rfl, fun e he => ?_⟩ fun hne => absurd hroom hne
    cases he
  · rw [if_neg hroom, imp_iff_right hroom, ← right_iff]
    dsimp only
    rw [and_iff_right rfl]
    constructor
    · intro hevent
      exact hevent _ rfl
    · intro hright e he
      cases he
      exact hright

end Tracks

/-- After a byte the driver still tracks the keys if and only if the byte satisfies the condition.
-/
theorem tracks_interrupt_iff {t : Typing} (h : Tracks t) (sc : UInt8) :
    Tracks (t.interrupt sc) ↔ StepOk t sc := by
  rw [StepOk]
  by_cases he0 : sc = 0xE0
  · -- the prefix itself
    rw [h.quiet_iff (if_pos he0)]
    refine iff_of_true ?_ fun hne => absurd he0 hne
    rw [bits_deliver_of_ne, ← h.bits] <;> rw [he0] <;> decide
  rw [imp_iff_right he0]
  by_cases hshift : codeOf sc = 0x2A ∨ codeOf sc = 0x36
  · rw [if_pos hshift, h.modifier_iff (kbHandler_shift he0 hshift)]
    exact bits_deliver_shift hshift
  rw [if_neg hshift]
  by_cases hctrl : codeOf sc = 0x1D
  · rw [if_pos hctrl, h.modifier_iff (kbHandler_ctrl he0 hshift hctrl)]
    exact bits_deliver_ctrl hctrl
  rw [if_neg hctrl]
  by_cases halt : codeOf sc = 0x38
  · rw [if_pos halt, h.modifier_iff (kbHandler_alt he0 hshift hctrl halt)]
    exact bits_deliver_alt halt
  rw [if_neg halt]
  by_cases hcaps : codeOf sc = 0x3A
  · rw [if_pos hcaps, h.quiet_iff (kbHandler_caps he0 hshift hctrl halt hcaps), ← bits_deliver_caps hcaps,
      ← h.bits, apply_ite Kb.modifiers]
  rw [if_neg hcaps]
  have hkeys := bits_deliver_of_ne (k := t.keys) hshift hctrl halt hcaps
  cases hpress : isPress sc with
  | false =>
      rw [h.quiet_iff (kbHandler_release he0 hshift hctrl halt hcaps hpress)]
      exact iff_of_true (h.bits.trans hkeys.symm) fun h => absurd h (by decide)
  | true =>
      rw [imp_iff_right rfl]
      exact h.press_iff hkeys (kbHandler_press he0 hshift hctrl halt hcaps hpress)

/-! ## Runs -/

/-- A step whose byte, if it is an interrupt, satisfies the condition. -/
def GoodStep (t : Typing) (op : KbOp) (t' : Typing) : Prop :=
  TypingStep t op t' ∧ ∀ sc, op = .irq sc → StepOk t sc

/-- `keyboard_poll` changes neither the modifiers nor what was queued. -/
theorem PollStep.keeps {s s' : KbState} (h : PollStep s s') :
    s'.kb.modifiers = s.kb.modifiers ∧ s'.accepted = s.accepted := by
  cases h <;> exact ⟨rfl, rfl⟩

/-- Good steps keep track of the keys. -/
theorem tracks_step (t : Typing) (op : KbOp) (t' : Typing) (h : Tracks t) (hstep : GoodStep t op t') :
    Tracks t' := by
  obtain ⟨hstep, hok⟩ := hstep
  cases hstep with
  | irq sc => exact (tracks_interrupt_iff h sc).mpr (hok sc rfl)
  | poll hpoll =>
      obtain ⟨hmods, haccepted⟩ := hpoll.keeps
      exact ⟨hmods.trans h.bits, h.queued.trans haccepted.symm, h.events⟩

/-- At the start no key is held. -/
theorem tracks_typingInit : Tracks typingInit := ⟨rfl, rfl, fun _ hx => absurd hx List.not_mem_nil⟩

/-- In every run, with polls in between, in which every byte satisfies the condition, the driver
agrees with the keys that are held in every state. -/
theorem agrees_of_run (ops : List KbOp) (t : Typing) (hrun : Run GoodStep typingInit ops t) : Agrees t :=
  (hrun.invariant tracks_step tracks_typingInit).agrees

/-- Shift and A go down, and up again. -/
theorem agrees_of_run_shift : ∃ t,
    Run GoodStep typingInit [.irq 0x2A, .irq 0x1E, .irq 0x9E, .irq 0xAA] t ∧
    t.typed.map (fun x => x.event.ascii) = [0x41] ∧ Agrees t := by
  have hgood : ∀ t sc, StepOk t sc → GoodStep t (.irq sc) (t.interrupt sc) := by
    intro t sc h
    refine ⟨.irq t sc, fun sc' heq => ?_⟩
    cases heq
    exact h
  have hrun := Run.cons (hgood typingInit 0x2A fun _ => rfl) (.cons (hgood _ 0x1E fun _ _ _ => ⟨
    fun _ _ h => absurd h (by decide),
      fun h => absurd h (by decide)⟩) (.cons (hgood _ 0x9E fun _ h => absurd h
    (by decide)) (.single (hgood _ 0xAA fun _ => rfl))))
  exact ⟨_, hrun, by decide, agrees_of_run _ _ hrun⟩

/-- With caps lock alone, A types a lower-case letter. -/
theorem capsLetter_not_agrees : ∃ t, Run TypingStep typingInit [.irq 0x3A, .irq 0xBA, .irq 0x1E] t ∧
    ¬ Agrees t := by
  refine ⟨_, .cons (.irq _ 0x3A) (.cons (.irq _ 0xBA) (.single (.irq _ 0x1E))), fun h => ?_⟩
  have hright := h.events ⟨⟨0x1E, 0x61, 0x08, true⟩, some ⟨false, 0x1E⟩, false, true⟩ (List.mem_singleton.mpr rfl)
  exact absurd (hright.letter rfl rfl) (by decide)

end Keyboard

end Aerogel
