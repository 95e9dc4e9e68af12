import Aerogel.Foundations.RingRecords
import Aerogel.Foundations.Run
import Aerogel.Foundations.Word

/-! # The receive ring of the RTL8139

The device writes received frames into a ring of 8 KiB, each behind a header of four bytes; `rx_ptr`
is the driver's place in it. `rtl8139_poll` is split at every access to a device register, and frames
may arrive in between. `rxOk_of_run` says that frames are handed to the stack once and in order as
long as none is longer than 1510 bytes; `longFrame_not_rxOk` is what happens to a longer one. -/

namespace Aerogel

namespace Rtl8139

/-! ## The device -/

/-- `RX_BUF_SIZE`. -/
def rxBufSize : Nat := 8192 + 16 + 1500

/-- `ISR_ROK`. -/
def isrRok : BitVec 16 := 0x0001#16

/-- A frame as the device stores it. -/
structure RxFrame where
  /-- The frame, without its checksum. -/
  data : List UInt8
  /-- An Ethernet header at least. -/
  min_le : 14 ≤ data.length
  /-- A full Ethernet frame at most. -/
  le_max : data.length ≤ 1514
  /-- The status word in front. -/
  status : Vector UInt8 2
  /-- The frame check sequence behind. -/
  crc : Vector UInt8 4

namespace RxFrame

/-- The length in the header counts the checksum. -/
def len (f : RxFrame) : Nat := f.data.length + 4

/-- Header, frame and checksum. -/
def image (f : RxFrame) : List UInt8 :=
  f.status.toList ++ [UInt8.ofNat f.len, UInt8.ofNat (f.len / 256)] ++ f.data ++ f.crc.toList

/-- How far the device moves on: `(length + 4 + 3) & ~3`. -/
def slot (f : RxFrame) : Nat := clearLow 32 2 (f.len + 4 + 3)

/-- Header and checksum take four bytes each. -/
theorem length_image (f : RxFrame) : f.image.length = f.data.length + 8 := by
  simp only [image, List.length_append, Vector.length_toList, List.length_cons, List.length_nil]
  omega

/-- The slot is rounded up to a multiple of four. -/
theorem slot_eq (f : RxFrame) : f.slot = (f.data.length + 11) / 4 * 4 := by
  have := f.le_max
  rw [slot, clearLow_of_lt (by decide) (by rw [len]; omega), len]
  omega

/-- Frames as records of the ring. -/
def kind : RecordKind RxFrame where
  image := image
  slot := slot
  image_le f := by
    rw [length_image, slot_eq]
    omega

end RxFrame

/-- Where `rtl8139_poll` is. -/
inductive PollPc
  /-- Not called, or returned. -/
  | idle
  /-- It has read this from the interrupt status register and will write it back. -/
  | ack (isr : BitVec 16)
  /-- At the head of its loop. -/
  | loop
  deriving DecidableEq

/-- Device and driver. -/
structure RxState where
  /-- `rx_buf`. -/
  rxBuf : Mem
  /-- The device's write offset. -/
  writeOff : Nat
  /-- How many bytes the device takes for unread. -/
  unread : Nat
  /-- The interrupt status register. -/
  isr : BitVec 16
  /-- `present`. -/
  present : Bool
  /-- Whether `rx_cb` is set. -/
  rxCb : Bool
  /-- `rx_ptr`. -/
  rxPtr : Nat
  /-- Where the driver is. -/
  pc : PollPc
  /-- The frames the device has stored, oldest first. -/
  received : List RxFrame
  /-- What `rx_cb` was called with, oldest first. -/
  delivered : List (List UInt8)
  /-- The ranges of `rx_buf` that were read: offset and number of bytes. -/
  touched : List (Nat × Nat)

/-- After `rtl8139_init` with a callback. -/
def rxInit : RxState where
  rxBuf := fun _ => 0
  writeOff := 0
  unread := 0
  isr := 0
  present := true
  rxCb := true
  rxPtr := 0
  pc := .idle
  received := []
  delivered := []
  touched := []

/-- The device stores a frame and raises `ISR_ROK`. -/
def RxState.store (s : RxState) (f : RxFrame) : RxState :=
  { s with
    rxBuf := s.rxBuf.storeList s.writeOff f.image
    writeOff := (s.writeOff + f.slot) % 8192
    unread := s.unread + f.slot
    isr := s.isr ||| isrRok
    received := s.received ++ [f] }

/-! ## The driver -/

/-- `plen` of the header at `off`. -/
def plenAt (m : Mem) (off : Nat) : Nat := ((m (off + 3)).toNat <<< 8 ||| (m (off + 2)).toNat) % 2 ^ 16

/-- One step of `rtl8139_poll`, up to the next access to a register. Writing `CAPR` tells the device
how far the driver is. -/
def pollStep (s : RxState) : RxState :=
  match s.pc with
  | .idle => if s.present = false ∨ s.isr = 0 then s else { s with pc := .ack s.isr }
  | .ack isr =>
    { s with
      isr := s.isr &&& ~~~ isr
      pc := if isr &&& isrRok ≠ 0 then .loop else .idle }
  | .loop =>
    if s.unread = 0 then { s with pc := .idle }
    else
      let off := s.rxPtr % 8192
      let plen := plenAt s.rxBuf off
      if plen < 4 ∨ 1514 < plen then { s with pc := .idle, touched := (off, 4) :: s.touched }
      else
        let rxPtr := clearLow 32 2 (s.rxPtr + plen + 4 + 3) % 2 ^ 16
        let capr := wsub 16 rxPtr 16
        { s with
          delivered :=
            if s.rxCb then s.delivered ++ [s.rxBuf.bytes (off + 4) (plen - 4)] else s.delivered
          touched := (off + 4, plen - 4) :: (off, 4) :: s.touched
          rxPtr := rxPtr
          unread := (s.writeOff + 8192 - (capr + 16) % 8192) % 8192 }

/-- What happens on the card. -/
inductive RxOp
  /-- A frame arrives. -/
  | receive (f : RxFrame)
  /-- The device raises interrupt bits for other reasons. -/
  | signal (bits : BitVec 16)
  /-- The driver goes on polling. -/
  | poll

/-- One event. The ring does not overflow. -/
inductive RxStep : RxState → RxOp → RxState → Prop
  /-- A frame that fits arrives. -/
  | receive {s : RxState} {f : RxFrame} : s.unread + f.slot ≤ 8192 →
      RxStep s (.receive f) (s.store f)
  /-- Interrupt bits are raised. -/
  | signal (s : RxState) (bits : BitVec 16) :
      RxStep s (.signal bits) { s with isr := s.isr ||| bits }
  /-- The driver makes a step; polling begins anew whenever it has ended. -/
  | poll (s : RxState) : RxStep s .poll (pollStep s)

/-- Polling again and again while nothing arrives. -/
def polled : Nat → RxState → RxState
  | 0, s => s
  | n + 1, s => polled n (pollStep s)

/-- The offset of frame number `k`. -/
def frameOff (fs : List RxFrame) (k : Nat) : Nat := RxFrame.kind.total (fs.take k) % 8192

/-- The driver does what it is for. -/
structure RxOk (s : RxState) : Prop where
  /-- The callback has seen the oldest frames, once each, in order and byte for byte. -/
  in_order : s.delivered = (s.received.take s.delivered.length).map RxFrame.data
  /-- `rx_ptr` is at the oldest unread frame. -/
  pointer : s.rxPtr % 8192 = frameOff s.received s.delivered.length
  /-- Nothing outside the buffer is read. -/
  inside : ∀ r ∈ s.touched, r.1 + r.2 ≤ rxBufSize
  /-- Polling delivers everything that has arrived. -/
  complete : ∃ n, ∀ k, n ≤ k → (polled k s).delivered = s.received.map RxFrame.data

/-! ## The invariant -/

/-- The frames not yet handed to the stack. -/
def RxState.pending (s : RxState) : List RxFrame := s.received.drop s.delivered.length

/-- The driver will come to its loop: the interrupt bit is still raised, or it is on its way. -/
def WillDrain (isr : BitVec 16) : PollPc → Prop
  | .idle => isr.getLsbD 0 = true
  | .ack isr' => isr'.getLsbD 0 = true ∨ isr.getLsbD 0 = true
  | .loop => True

/-- What holds between device and driver while frames are short. -/
structure RxInv (s : RxState) : Prop where
  /-- `rtl8139_init` was successful. -/
  present : s.present = true
  /-- The stack has registered itself. -/
  rxCb : s.rxCb = true
  /-- No frame was too long. -/
  short : ∀ f ∈ s.received, f.data.length ≤ 1510
  /-- The callback has seen the oldest frames. -/
  in_order : s.delivered = (s.received.take s.delivered.length).map RxFrame.data
  /-- It has seen no more than there were. -/
  count : s.delivered.length ≤ s.received.length
  /-- `rx_ptr` is a `u16`. -/
  ptr_lt : s.rxPtr < 2 ^ 16
  /-- `rx_ptr` is aligned. -/
  ptr_dvd : s.rxPtr % 4 = 0
  /-- `rx_ptr` is at the oldest unread frame. -/
  pointer : s.rxPtr % 8192 = frameOff s.received s.delivered.length
  /-- The unread frames are in the ring, from `rx_ptr` on. -/
  placed : RxFrame.kind.Placed 8192 s.rxBuf (s.rxPtr % 8192) s.pending
  /-- The device counts them right. -/
  unread : s.unread = RxFrame.kind.total s.pending
  /-- They fit into the ring. -/
  fits : s.unread ≤ 8192
  /-- The next frame goes behind them. -/
  writeOff : s.writeOff = (s.rxPtr % 8192 + s.unread) % 8192
  /-- Nothing outside the buffer was read. -/
  inside : ∀ r ∈ s.touched, r.1 + r.2 ≤ rxBufSize
  /-- Unread frames are not forgotten. -/
  will_drain : s.unread ≠ 0 → WillDrain s.isr s.pc

/-- `ISR_ROK` is the lowest bit. -/
theorem and_isrRok_ne_zero_iff (x : BitVec 16) : x &&& isrRok ≠ 0 ↔ x.getLsbD 0 = true := by
  rw [isrRok, BitVec.and_one_eq_setWidth_ofBool_getLsbD]
  cases x.getLsbD 0 with
  | false => decide
  | true => decide

/-- A register with a bit raised is not zero. -/
theorem ne_zero_of_getLsbD {x : BitVec 16} (h : x.getLsbD 0 = true) : x ≠ 0 := by
  rintro rfl
  exact absurd h (by decide)

/-- A raised interrupt bit is enough. -/
theorem WillDrain.of_bit {isr : BitVec 16} (h : isr.getLsbD 0 = true) (pc : PollPc) :
    WillDrain isr pc := by
  cases pc with
  | idle => exact h
  | ack isr' => exact Or.inr h
  | loop => trivial

/-- More interrupt bits do no harm. -/
theorem WillDrain.or {isr : BitVec 16} {pc : PollPc} (h : WillDrain isr pc) (bits : BitVec 16) :
    WillDrain (isr ||| bits) pc := by
  cases pc with
  | idle =>
      change (isr ||| bits).getLsbD 0 = true
      rw [BitVec.getLsbD_or, show isr.getLsbD 0 = true from h, Bool.true_or]
  | ack isr' =>
      refine Or.imp_right (fun h => ?_) h
      rw [BitVec.getLsbD_or, h, Bool.true_or]
  | loop => trivial

/-- A fresh start. -/
theorem RxInv.init : RxInv rxInit where
  present := rfl
  rxCb := rfl
  short := fun f hf => by cases hf
  in_order := rfl
  count := le_rfl
  ptr_lt := by decide
  ptr_dvd := rfl
  pointer := rfl
  placed := trivial
  unread := rfl
  fits := by decide
  writeOff := rfl
  inside := fun r hr => by cases hr
  will_drain := fun h => absurd rfl h

/-- A short frame arrives. -/
theorem RxInv.receive {s : RxState} (h : RxInv s) {f : RxFrame} (hfit : s.unread + f.slot ≤ 8192)
    (hshort : f.data.length ≤ 1510) : RxInv (s.store f) := by
  have hpending : (s.store f).pending = s.pending ++ [f] :=
    List.drop_append_of_le_length h.count
  have htake : (s.received ++ [f]).take s.delivered.length
      = s.received.take s.delivered.length := List.take_append_of_le_length h.count
  have hunread := h.unread
  refine ⟨h.present, h.rxCb, fun g hg => ?_, ?_, ?_, h.ptr_lt, h.ptr_dvd, ?_, ?_, ?_, hfit, ?_,
    h.inside, fun _ => ?_⟩
  · rcases List.mem_append.mp hg with hg | hg
    · exact h.short g hg
    · rw [List.mem_singleton.mp hg]
      exact hshort
  · change s.delivered = ((s.received ++ [f]).take s.delivered.length).map RxFrame.data
    rw [htake]
    exact h.in_order
  · change s.delivered.length ≤ (s.received ++ [f]).length
    rw [List.length_append]
    exact le_trans h.count (Nat.le_add_right _ _)
  · change s.rxPtr % 8192 = frameOff (s.received ++ [f]) s.delivered.length
    rw [frameOff, htake]
    exact h.pointer
  · rw [hpending]
    have happend := h.placed.append (r := f) (Nat.mod_lt _ (by decide))
      (by rw [← hunread]; exact hfit)
    rw [← hunread, ← h.writeOff] at happend
    exact happend
  · rw [hpending, RecordKind.total_append, ← hunread]
    rfl
  · change (s.writeOff + f.slot) % 8192 = (s.rxPtr % 8192 + (s.unread + f.slot)) % 8192
    rw [h.writeOff]
    omega
  · refine WillDrain.of_bit ?_ s.pc
    change (s.isr ||| isrRok).getLsbD 0 = true
    rw [BitVec.getLsbD_or, Bool.or_eq_true]
    exact Or.inr rfl

/-! ## One frame -/

/-- The bytes of a stored frame. -/
theorem RxFrame.image_getD (f : RxFrame) :
    f.image.getD 2 0 = UInt8.ofNat f.len ∧ f.image.getD 3 0 = UInt8.ofNat (f.len / 256) ∧
      ∀ i (hi : i < f.data.length), f.image.getD (4 + i) 0 = f.data[i] := by
  have hstatus : f.status.toList.length = 2 := Vector.length_toList
  have himage : f.image = f.status.toList ++ (UInt8.ofNat f.len :: UInt8.ofNat (f.len / 256) ::
      (f.data ++ f.crc.toList)) := by
    simp [RxFrame.image]
  rw [himage]
  refine ⟨?_, ?_, fun i hi => ?_⟩
  · rw [List.getD_eq_getElem?_getD, List.getElem?_append_right (by omega), hstatus]
    rfl
  · rw [List.getD_eq_getElem?_getD, List.getElem?_append_right (by omega), hstatus]
    rfl
  · rw [List.getD_eq_getElem?_getD, List.getElem?_append_right (by omega), hstatus,
      show 4 + i - 2 = i + 1 + 1 by omega, List.getElem?_cons_succ, List.getElem?_cons_succ,
      List.getElem?_append_left hi, List.getElem?_eq_getElem hi, Option.getD_some]

/-- The driver reads the length the device wrote. -/
theorem plenAt_of_placed {m : Mem} {off : Nat} {f : RxFrame}
    (h : ∀ i < f.image.length, m (off + i) = f.image.getD i 0) : plenAt m off = f.len := by
  have hlen := f.length_image
  have hmax := f.le_max
  obtain ⟨h₂, h₃, -⟩ := f.image_getD
  have hfl : f.len = f.data.length + 4 := rfl
  rw [plenAt, h 3 (by omega), h 2 (by omega), h₂, h₃, UInt8.toNat_ofNat', UInt8.toNat_ofNat',
    ← Nat.shiftLeft_add_eq_or_of_lt (Nat.mod_lt _ (by decide)), Nat.shiftLeft_eq]
  omega

/-- The driver reads the bytes the device wrote. -/
theorem bytes_of_placed {m : Mem} {off : Nat} {f : RxFrame}
    (h : ∀ i < f.image.length, m (off + i) = f.image.getD i 0) :
    m.bytes (off + 4) (f.len - 4) = f.data := by
  have hlen := f.length_image
  have hfl : f.len - 4 = f.data.length := Nat.add_sub_cancel ..
  rw [hfl]
  apply List.ext_getElem
  · exact m.length_bytes _ _
  · intro i h₁ h₂
    rw [m.getElem_bytes, Nat.add_assoc, h (4 + i) (by omega)]
    exact f.image_getD.2.2 i h₂

/-- `rx_ptr` moves by the frame's slot, modulo `2 ^ 16`. -/
theorem rxPtr_advance {p : Nat} (f : RxFrame) (hlt : p < 2 ^ 16) (hdvd : p % 4 = 0) :
    clearLow 32 2 (p + f.len + 4 + 3) % 2 ^ 16 = (p + f.slot) % 2 ^ 16 := by
  have hmax := f.le_max
  have hfl : f.len = f.data.length + 4 := rfl
  rw [clearLow_of_lt (by decide) (by omega), f.slot_eq, hfl]
  omega

/-- The device recovers `rx_ptr` from `CAPR`. -/
theorem capr_pointer (p : Nat) : (wsub 16 p 16 + 16) % 8192 = p % 8192 := by
  rw [wsub]
  omega

/-- The state behind the oldest unread frame `f`, when `fs` are the unread frames that follow it. -/
def RxState.behind (s : RxState) (f : RxFrame) (fs : List RxFrame) : RxState :=
  { s with
    delivered := s.delivered ++ [f.data]
    touched := (s.rxPtr % 8192 + 4, f.data.length) :: (s.rxPtr % 8192, 4) :: s.touched
    rxPtr := (s.rxPtr + f.slot) % 2 ^ 16
    unread := RxFrame.kind.total fs }

section Behind

variable {s : RxState} {f : RxFrame} {fs : List RxFrame}

/-- One more frame is delivered. -/
theorem RxState.length_behind (s : RxState) (f : RxFrame) (fs : List RxFrame) :
    (s.behind f fs).delivered.length = s.delivered.length + 1 := List.length_append

/-- The oldest unread frame is the one that follows the delivered ones. -/
theorem getElem?_of_pending (h : s.pending = f :: fs) : s.received[s.delivered.length]? = some f := by
  rw [← List.head?_drop]
  exact congrArg List.head? h

/-- The frames that follow it are pending. -/
theorem pending_behind (h : s.pending = f :: fs) : (s.behind f fs).pending = fs := by
  rw [RxState.pending, RxState.length_behind, ← List.tail_drop]
  exact congrArg List.tail h

/-- The frames delivered in the state behind it. -/
theorem take_behind (h : s.pending = f :: fs) :
    s.received.take (s.behind f fs).delivered.length
      = s.received.take s.delivered.length ++ [f] := by
  rw [RxState.length_behind, List.take_add_one, getElem?_of_pending h]
  rfl

/-- What the loop does when frames are unread: it delivers the oldest one and moves on. -/
theorem RxInv.pollStep_loop (h : RxInv s) (hpc : s.pc = .loop) (hpending : s.pending = f :: fs) :
    pollStep s = s.behind f fs := by
  have hplaced := h.placed
  have htotal := h.unread
  rw [hpending] at hplaced htotal
  change s.unread = f.slot + RxFrame.kind.total fs at htotal
  have hplen := plenAt_of_placed hplaced.1
  have hbytes := bytes_of_placed hplaced.1
  have hfl : f.len = f.data.length + 4 := rfl
  have hshort := h.short f (List.mem_of_getElem? (getElem?_of_pending hpending))
  have hmin := f.min_le
  have hslot := f.slot_eq
  have hfits := h.fits
  have hwrite := h.writeOff
  have hdone : (s.writeOff + 8192 - (s.rxPtr + f.slot) % 2 ^ 16 % 8192) % 8192
      = RxFrame.kind.total fs := by omega
  rw [RxState.behind, pollStep, hpc]
  simp only
  rw [if_neg (by omega), hplen, if_neg (by omega), if_pos h.rxCb, hbytes,
    rxPtr_advance f h.ptr_lt h.ptr_dvd, capr_pointer, hdone, hfl, Nat.add_sub_cancel]

/-- The pointer behind a frame, in the ring. -/
theorem pointer_behind (s : RxState) (f : RxFrame) (fs : List RxFrame) :
    (s.behind f fs).rxPtr % 8192 = (s.rxPtr % 8192 + f.slot) % 8192 := by
  change (s.rxPtr + f.slot) % 2 ^ 16 % 8192 = _
  omega

/-- The state behind a frame keeps the invariant. -/
theorem RxInv.behind (h : RxInv s) (hpc : s.pc = .loop) (hpending : s.pending = f :: fs) :
    RxInv (s.behind f fs) := by
  have hget := getElem?_of_pending hpending
  have hplaced := h.placed
  have htotal := h.unread
  rw [hpending] at hplaced htotal
  change s.unread = f.slot + RxFrame.kind.total fs at htotal
  have hshort := h.short f (List.mem_of_getElem? hget)
  have hslot := f.slot_eq
  have hfits := h.fits
  have hptr := h.ptr_dvd
  exact
    { present := h.present
      rxCb := h.rxCb
      short := h.short
      in_order := by
        change s.delivered ++ [f.data]
          = (s.received.take (s.behind f fs).delivered.length).map RxFrame.data
        rw [take_behind hpending, List.map_append, ← h.in_order]
        rfl
      count := by
        rw [RxState.length_behind]
        exact (List.getElem?_eq_some_iff.mp hget).1
      ptr_lt := Nat.mod_lt _ (by decide)
      ptr_dvd := by
        change (s.rxPtr + f.slot) % 2 ^ 16 % 4 = 0
        omega
      pointer := by
        have hone : RxFrame.kind.total [f] = f.slot := rfl
        rw [pointer_behind, h.pointer, frameOff, frameOff]
        change _ = RxFrame.kind.total (s.received.take (s.behind f fs).delivered.length) % 8192
        rw [take_behind hpending, RecordKind.total_append, hone, Nat.mod_add_mod]
      placed := by
        rw [pending_behind hpending, pointer_behind]
        exact hplaced.2
      unread := by
        rw [pending_behind hpending]
        rfl
      fits := by
        change RxFrame.kind.total fs ≤ 8192
        omega
      writeOff := by
        rw [pointer_behind]
        change s.writeOff = ((s.rxPtr % 8192 + f.slot) % 8192 + RxFrame.kind.total fs) % 8192
        rw [h.writeOff]
        omega
      inside := by
        intro r hr
        have hoff : s.rxPtr % 8192 + 4 ≤ 8192 := by omega
        rw [rxBufSize]
        rcases List.mem_cons.mp hr with rfl | hr
        · simp only
          omega
        · rcases List.mem_cons.mp hr with rfl | hr
          · simp only
            omega
          · exact h.inside r hr
      will_drain := by
        intro _
        change WillDrain s.isr s.pc
        rw [hpc]
        trivial }

end Behind

/-- Frames that are unread are pending. -/
theorem RxInv.exists_pending {s : RxState} (h : RxInv s) (hunread : s.unread ≠ 0) :
    ∃ f fs, s.pending = f :: fs := by
  apply List.exists_cons_of_ne_nil
  intro hnil
  rw [h.unread, hnil] at hunread
  exact hunread rfl

/-- The loop keeps the invariant and gets one frame further. -/
theorem RxInv.deliver {s : RxState} (h : RxInv s) (hpc : s.pc = .loop) (hunread : s.unread ≠ 0) :
    RxInv (pollStep s) ∧ (pollStep s).pending.length + 1 = s.pending.length ∧
      (pollStep s).pc = .loop := by
  obtain ⟨f, fs, hpending⟩ := h.exists_pending hunread
  rw [h.pollStep_loop hpc hpending]
  refine ⟨h.behind hpc hpending, ?_, hpc⟩
  rw [pending_behind hpending, hpending, List.length_cons]

/-! ## Polling -/

/-- Changing only the place of the driver and the interrupt bits. -/
theorem RxInv.move {s : RxState} (h : RxInv s) (isr : BitVec 16) (pc : PollPc)
    (hdrain : s.unread ≠ 0 → WillDrain isr pc) : RxInv { s with isr := isr, pc := pc } where
  present := h.present
  rxCb := h.rxCb
  short := h.short
  in_order := h.in_order
  count := h.count
  ptr_lt := h.ptr_lt
  ptr_dvd := h.ptr_dvd
  pointer := h.pointer
  placed := h.placed
  unread := h.unread
  fits := h.fits
  writeOff := h.writeOff
  inside := h.inside
  will_drain := hdrain

/-- Outside the loop the driver only moves. -/
theorem RxInv.pollStep_idle {s : RxState} (h : RxInv s) (hpc : s.pc = .idle) :
    pollStep s = if s.isr = 0 then s else { s with pc := .ack s.isr } := by
  rw [pollStep, hpc]
  simp only [h.present, Bool.true_eq_false, false_or]

/-- Acknowledging the interrupt. -/
theorem pollStep_ack {s : RxState} {isr : BitVec 16} (hpc : s.pc = .ack isr) :
    pollStep s = { s with
      isr := s.isr &&& ~~~ isr
      pc := if isr.getLsbD 0 = true then .loop else .idle } := by
  rw [pollStep, hpc]
  simp only [and_isrRok_ne_zero_iff]

/-- The loop ends when the device reports the buffer empty. -/
theorem pollStep_loop_empty {s : RxState} (hpc : s.pc = .loop) (h : s.unread = 0) :
    pollStep s = { s with pc := .idle } := by
  rw [pollStep, hpc]
  exact if_pos h

/-- A step of the driver keeps the invariant. -/
theorem RxInv.pollStep {s : RxState} (h : RxInv s) : RxInv (pollStep s) := by
  have hdrain := h.will_drain
  cases hpc : s.pc with
  | idle =>
      rw [h.pollStep_idle hpc]
      rw [hpc] at hdrain
      split_ifs
      · exact h
      · exact h.move s.isr (.ack s.isr) fun hne => Or.inl (hdrain hne)
  | ack isr =>
      rw [pollStep_ack hpc]
      rw [hpc] at hdrain
      refine h.move _ _ fun hne => ?_
      split_ifs with hrok
      · trivial
      · -- a bit that was not read is not cleared either
        have hbit : s.isr.getLsbD 0 = true := (hdrain hne).resolve_left hrok
        rw [Bool.not_eq_true] at hrok
        change (s.isr &&& ~~~ isr).getLsbD 0 = true
        rw [BitVec.getLsbD_and, BitVec.getLsbD_not, hbit, hrok]
        rfl
  | loop =>
      by_cases hunread : s.unread = 0
      · rw [pollStep_loop_empty hpc hunread]
        exact h.move s.isr .idle fun hne => absurd hunread hne
      · exact (h.deliver hpc hunread).1

/-- The driver receives nothing by itself. -/
theorem received_pollStep (s : RxState) : (Rtl8139.pollStep s).received = s.received := by
  unfold Rtl8139.pollStep
  cases s.pc with
  | idle =>
      simp only
      split_ifs
      · rfl
      · rfl
  | ack isr => rfl
  | loop =>
      simp only
      split_ifs
      · rfl
      · rfl
      · rfl
      · rfl

/-- Polling keeps the invariant and receives nothing. -/
theorem RxInv.polled {s : RxState} (h : RxInv s) (n : Nat) :
    RxInv (polled n s) ∧ (polled n s).received = s.received := by
  induction n generalizing s with
  | zero => exact ⟨h, rfl⟩
  | succ n ih =>
      obtain ⟨hinv, hrec⟩ := ih h.pollStep
      exact ⟨hinv, hrec.trans (received_pollStep s)⟩

/-- Polling in two parts. -/
theorem polled_add (n k : Nat) (s : RxState) : Rtl8139.polled (n + k) s
    = Rtl8139.polled k (Rtl8139.polled n s) := by
  induction n generalizing s with
  | zero => rw [Nat.zero_add]; rfl
  | succ n ih =>
      rw [Nat.succ_add]
      exact ih (Rtl8139.pollStep s)

/-- Outside the loop, and in it when nothing is unread, no frame is delivered. -/
theorem RxInv.pending_pollStep {s : RxState} (h : RxInv s) (hquiet : s.pc = .loop → s.unread = 0) :
    (Rtl8139.pollStep s).pending = s.pending := by
  cases hpc : s.pc with
  | idle =>
      rw [h.pollStep_idle hpc]
      split_ifs
      · rfl
      · rfl
  | ack isr =>
      rw [pollStep_ack hpc]
      rfl
  | loop =>
      rw [pollStep_loop_empty hpc (hquiet hpc)]
      rfl

/-- Once everything is delivered, polling delivers nothing more. -/
theorem RxInv.pending_polled {s : RxState} (h : RxInv s) (hdone : s.pending = []) (n : Nat) :
    (Rtl8139.polled n s).pending = [] := by
  induction n generalizing s with
  | zero => exact hdone
  | succ n ih =>
      refine ih h.pollStep ?_
      rw [h.pending_pollStep fun _ => ?_, hdone]
      rw [h.unread, hdone]
      rfl

/-- With nothing pending the callback has seen every frame. -/
theorem RxInv.delivered_eq {s : RxState} (h : RxInv s) (hdone : s.pending = []) :
    s.delivered = s.received.map RxFrame.data := by
  have hle : s.received.length ≤ s.delivered.length := List.drop_eq_nil_iff.mp hdone
  have horder := h.in_order
  rw [List.take_of_length_le hle] at horder
  exact horder

/-- From the head of the loop, everything pending is delivered. -/
theorem RxInv.drain_loop {s : RxState} (h : RxInv s) (hpc : s.pc = .loop) :
    ∃ n, (Rtl8139.polled n s).pending = [] := by
  -- one frame per iteration
  induction hk : s.pending.length generalizing s with
  | zero => exact ⟨0, List.eq_nil_of_length_eq_zero hk⟩
  | succ k ih =>
      have hunread : s.unread ≠ 0 := by
        intro hzero
        cases hpending : s.pending with
        | nil =>
            rw [hpending] at hk
            cases hk
        | cons f fs =>
            have htotal := h.unread
            rw [hpending, hzero] at htotal
            change 0 = f.slot + RxFrame.kind.total fs at htotal
            have := f.slot_eq
            have := f.min_le
            omega
      obtain ⟨hinv, hlen, hloop⟩ := h.deliver hpc hunread
      obtain ⟨n, hn⟩ := ih hinv hloop (by omega)
      exact ⟨n + 1, hn⟩

/-- From an acknowledgement that has seen the interrupt bit. -/
theorem RxInv.drain_ack {s : RxState} (h : RxInv s) {isr : BitVec 16} (hpc : s.pc = .ack isr)
    (hrok : isr.getLsbD 0 = true) : ∃ n, (Rtl8139.polled n s).pending = [] := by
  have hloop : (Rtl8139.pollStep s).pc = .loop := by
    rw [pollStep_ack hpc]
    exact if_pos hrok
  obtain ⟨n, hn⟩ := h.pollStep.drain_loop hloop
  exact ⟨n + 1, hn⟩

/-- From outside, with the interrupt bit raised. -/
theorem RxInv.drain_idle {s : RxState} (h : RxInv s) (hpc : s.pc = .idle)
    (hrok : s.isr.getLsbD 0 = true) : ∃ n, (Rtl8139.polled n s).pending = [] := by
  have hack : (Rtl8139.pollStep s).pc = .ack s.isr := by
    rw [h.pollStep_idle hpc, if_neg (ne_zero_of_getLsbD hrok)]
  obtain ⟨n, hn⟩ := h.pollStep.drain_ack hack hrok
  exact ⟨n + 1, hn⟩

/-- Wherever the driver is, polling delivers what is pending. -/
theorem RxInv.drain {s : RxState} (h : RxInv s) : ∃ n, (Rtl8139.polled n s).pending = [] := by
  by_cases hunread : s.unread = 0
  · refine ⟨0, ?_⟩
    cases hpending : s.pending with
    | nil => exact hpending
    | cons f fs =>
        have htotal := h.unread
        rw [hpending, hunread] at htotal
        change 0 = f.slot + RxFrame.kind.total fs at htotal
        have := f.slot_eq
        have := f.min_le
        omega
  · have hdrain := h.will_drain hunread
    cases hpc : s.pc with
    | idle =>
        rw [hpc] at hdrain
        exact h.drain_idle hpc hdrain
    | loop => exact h.drain_loop hpc
    | ack isr =>
        rw [hpc] at hdrain
        by_cases hrok : isr.getLsbD 0 = true
        · exact h.drain_ack hpc hrok
        · -- the next poll will see the bit
          have hstep := pollStep_ack hpc
          rw [if_neg hrok] at hstep
          have hidle : (Rtl8139.pollStep s).pc = .idle := by rw [hstep]
          have hbit : (Rtl8139.pollStep s).isr.getLsbD 0 = true := by
            have hold : s.isr.getLsbD 0 = true := hdrain.resolve_left hrok
            rw [Bool.not_eq_true] at hrok
            rw [hstep, BitVec.getLsbD_and, BitVec.getLsbD_not, hold, hrok]
            rfl
          obtain ⟨n, hn⟩ := h.pollStep.drain_idle hidle hbit
          exact ⟨n + 1, hn⟩

/-- The invariant is what the driver is for. -/
theorem RxInv.ok {s : RxState} (h : RxInv s) : RxOk s where
  in_order := h.in_order
  pointer := h.pointer
  inside := h.inside
  complete := by
    obtain ⟨n, hn⟩ := h.drain
    refine ⟨n, fun k hk => ?_⟩
    obtain ⟨j, rfl⟩ := Nat.exists_eq_add_of_le hk
    have hinv := (h.polled n).1
    have hdone := hinv.pending_polled hn j
    rw [polled_add, (hinv.polled j).1.delivered_eq hdone, (hinv.polled j).2, (h.polled n).2]

/-! ## Runs -/

/-- An event without an overlong frame. -/
def RxOp.Short : RxOp → Prop
  | .receive f => f.data.length ≤ 1510
  | .signal _ => True
  | .poll => True

/-- Every event without an overlong frame keeps the invariant. -/
theorem RxInv.step {s s' : RxState} {op : RxOp} (h : RxInv s) (hstep : RxStep s op s')
    (hop : op.Short) : RxInv s' := by
  cases hstep with
  | receive hfit => exact h.receive hfit hop
  | signal bits => exact h.move _ _ fun hne => (h.will_drain hne).or bits
  | poll => exact h.pollStep

/-- In every run without a frame of more than 1510 bytes, every frame is delivered once and in
order. -/
theorem rxOk_of_run (ops : List RxOp) (s : RxState) (hrun : Run RxStep rxInit ops s)
    (hshort : ∀ op ∈ ops, op.Short) : RxOk s := by
  have hinv : RxInv s :=
    hrun.invariant_of_forall (fun _ _ _ h hop hstep => h.step hstep hop) hshort RxInv.init
  exact hinv.ok

/-- The smallest frame with a payload. -/
def shortFrame : RxFrame where
  data := List.replicate 60 0xAB
  min_le := by decide
  le_max := by decide
  status := #v[1, 0]
  crc := #v[1, 2, 3, 4]

/-- A frame arrives while the driver polls. -/
theorem rxOk_shortFrame : ∃ s, Run RxStep rxInit
    [.poll, .receive shortFrame, .poll, .poll, .receive shortFrame, .poll] s ∧ RxOk s := by
  have hrun := Run.cons (RxStep.poll rxInit) (.cons (RxStep.receive (f := shortFrame) (by decide))
    (.cons (.poll _) (.cons (.poll _) (.cons (RxStep.receive (f := shortFrame) (by decide))
      (.single (.poll _))))))
  exact ⟨_, hrun, rxOk_of_run _ _ hrun (by simp [RxOp.Short, shortFrame])⟩

/-- A step of the driver hands over one frame at most, and no overlong one. -/
theorem delivered_pollStep (s : RxState) : (pollStep s).delivered = s.delivered ∨
    ∃ frame : List UInt8, frame.length ≤ 1510 ∧ (pollStep s).delivered = s.delivered ++ [frame] := by
  rw [Rtl8139.pollStep]
  split
  · left
    split_ifs
    · rfl
    · rfl
  · exact Or.inl rfl
  · dsimp only
    split_ifs with hempty hlen hcb
    · exact Or.inl rfl
    · exact Or.inl rfl
    · refine Or.inr ⟨_, ?_, rfl⟩
      rw [Mem.length_bytes]
      omega
    · exact Or.inl rfl

/-- Whatever the device stores, frames of at most 1510 bytes are delivered. -/
theorem length_le_of_delivered {ops : List RxOp} {s : RxState} (hrun : Run RxStep rxInit ops s) :
    ∀ frame ∈ s.delivered, frame.length ≤ 1510 := by
  have hinit : ∀ frame ∈ rxInit.delivered, frame.length ≤ 1510 := by
    intro frame hframe
    cases hframe
  refine @Run.invariant _ _ _ (fun s : RxState => ∀ frame ∈ s.delivered, frame.length ≤ 1510)
    (fun s op s' h hstep => ?_) _ _ _ hrun hinit
  cases hstep with
  | receive _ => exact h
  | signal _ => exact h
  | poll =>
      rcases delivered_pollStep s with hsame | ⟨frame, hlen, hmore⟩
      · rw [hsame]
        exact h
      · rw [hmore]
        intro g hg
        rcases List.mem_append.mp hg with hold | hnew
        · exact h g hold
        · rw [List.mem_singleton.mp hnew]
          exact hlen

/-! ## Overlong frames -/

/-- The oldest unread frame is too long for the driver. -/
structure Stuck (s : RxState) : Prop where
  /-- The device has something to read. -/
  unread : s.unread ≠ 0
  /-- The length in its header is rejected. -/
  long : 1514 < plenAt s.rxBuf (s.rxPtr % 8192)

/-- The driver does not get past such a frame. -/
theorem Stuck.pollStep {s : RxState} (h : Stuck s) :
    Stuck (pollStep s) ∧ (pollStep s).delivered = s.delivered := by
  unfold Rtl8139.pollStep
  cases s.pc with
  | idle =>
      simp only
      split_ifs
      · exact ⟨h, rfl⟩
      · exact ⟨⟨h.unread, h.long⟩, rfl⟩
  | ack isr => exact ⟨⟨h.unread, h.long⟩, rfl⟩
  | loop =>
      simp only
      rw [if_neg h.unread, if_pos (Or.inr h.long)]
      exact ⟨⟨h.unread, h.long⟩, rfl⟩

/-- However often it polls. -/
theorem Stuck.delivered_polled {s : RxState} (h : Stuck s) (n : Nat) :
    (polled n s).delivered = s.delivered := by
  induction n generalizing s with
  | zero => rfl
  | succ n ih => exact (ih h.pollStep.1).trans h.pollStep.2

/-- An overlong frame in an empty ring. -/
theorem Stuck.of_long {f : RxFrame} (h : 1510 < f.data.length) : Stuck (rxInit.store f) := by
  have hslot := f.slot_eq
  have hmax := f.le_max
  have hfit : RxFrame.kind.total [] + RxFrame.kind.slot f ≤ 8192 := by
    change 0 + f.slot ≤ 8192
    omega
  have hplaced := @RecordKind.Placed.append _ RxFrame.kind 8192 0 rxInit.rxBuf f [] trivial
    (by decide) hfit
  have hplen := plenAt_of_placed hplaced.1
  refine ⟨?_, ?_⟩
  · change 0 + f.slot ≠ 0
    omega
  · change 1514 < plenAt (rxInit.store f).rxBuf 0
    have hfl : f.len = f.data.length + 4 := rfl
    have hbuf : plenAt (rxInit.store f).rxBuf 0 = f.len := hplen
    omega

/-- The longest Ethernet frame. -/
def longFrame : RxFrame where
  data := List.replicate 1514 0xAB
  min_le := by rw [List.length_replicate]; decide
  le_max := by rw [List.length_replicate]
  status := #v[1, 0]
  crc := #v[1, 2, 3, 4]

/-- A frame of 1514 bytes is never delivered. -/
theorem longFrame_not_rxOk : ∃ s, Run RxStep rxInit [.receive longFrame] s ∧ ¬ RxOk s := by
  have hlen : longFrame.data.length = 1514 := List.length_replicate
  have hslot := longFrame.slot_eq
  have hempty : rxInit.unread = 0 := rfl
  have hfit : rxInit.unread + longFrame.slot ≤ 8192 := by
    rw [hempty, hslot, hlen]
    decide
  have hstuck : Stuck (rxInit.store longFrame) := .of_long (by omega)
  refine ⟨_, Run.single (.receive hfit), fun hok => ?_⟩
  obtain ⟨n, hn⟩ := hok.complete
  have hall := hn n le_rfl
  rw [hstuck.delivered_polled] at hall
  cases hall

end Rtl8139

end Aerogel
