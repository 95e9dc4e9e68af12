import Mathlib.Data.Nat.Bitwise
import Mathlib.Logic.Function.Basic
import Aerogel.Foundations.Loop

/-! # The ATA driver

`ata.c` moves sectors by programmed input and output. The drives it talks to are `Drive`: a
command selects up to 256 sectors from a sector number of 28 bits, and the words of each sector
pass through the data register once the drive is ready. How long a drive is busy and when it fails
is up to `polls`, one answer for every read of a status register. The lemmas say what each access
of the driver does to the selected drive. -/

namespace Aerogel

namespace Ata

/-! ## Drives -/

/-- What a drive is when its status is read. -/
inductive Poll
  /-- It needs more time. -/
  | busy
  /-- It is done. -/
  | ready
  /-- It has failed. -/
  | fail
  deriving DecidableEq

/-- `ATA_SR_BSY`. -/
def srBsy : UInt8 := 0x80

/-- `ATA_SR_DRDY`. -/
def srDrdy : UInt8 := 0x40

/-- `ATA_SR_DRQ`. -/
def srDrq : UInt8 := 0x08

/-- `ATA_SR_ERR`. -/
def srErr : UInt8 := 0x01

/-- `ATA_CMD_READ_PIO`. -/
def cmdReadPio : UInt8 := 0x20

/-- `ATA_CMD_WRITE_PIO`. -/
def cmdWritePio : UInt8 := 0x30

/-- FLUSH CACHE. -/
def cmdFlush : UInt8 := 0xE7

/-- The sectors of a drive, 256 words each. Their numbers have 28 bits. -/
structure Disk where
  /-- Number of sectors. -/
  size : Nat
  /-- All of them can be addressed. -/
  size_le : size ≤ 2 ^ 28
  /-- The words of a sector. -/
  sector : Nat → Nat → UInt16

/-- What a drive is doing. `lba` is the sector it is at, `left` is the number of sectors from
there on. -/
inductive Phase
  /-- Nothing, after a success or an error. -/
  | idle (err : Bool)
  /-- It is reading a sector. -/
  | reading (lba left : Nat)
  /-- The words from `i` on are to be fetched. -/
  | sending (lba left i : Nat)
  /-- It is getting ready for a sector. -/
  | writing (lba left : Nat)
  /-- It has the words of `block` below `i`. -/
  | taking (lba left i : Nat) (block : Nat → UInt16)
  /-- It is flushing its cache. -/
  | flushing

/-- A drive. -/
structure Drive where
  /-- Its sectors. -/
  disk : Disk
  /-- What it is doing. -/
  phase : Phase

/-- The registers of a channel that select sectors. -/
structure Regs where
  /-- `ATA_REG_DRIVE`. -/
  drive : UInt8
  /-- `ATA_REG_SECCOUNT`. -/
  seccount : UInt8
  /-- `ATA_REG_LBA_LO`. -/
  lbaLo : UInt8
  /-- `ATA_REG_LBA_MID`. -/
  lbaMid : UInt8
  /-- `ATA_REG_LBA_HI`. -/
  lbaHi : UInt8

/-- The sector number in the registers. -/
def Regs.lba (r : Regs) : Nat :=
  r.drive.toNat % 16 * 2 ^ 24 + r.lbaHi.toNat * 2 ^ 16 + r.lbaMid.toNat * 2 ^ 8 + r.lbaLo.toNat

/-- The number of sectors in the registers, where 0 stands for 256. -/
def Regs.count (r : Regs) : Nat := if r.seccount = 0 then 256 else r.seccount.toNat

/-- The status register, and the drive once it was read. -/
def Drive.status (d : Drive) (p : Poll) : UInt8 × Drive :=
  match d.phase, p with
  | .idle err, _ => ((if err then (srDrdy ||| srErr) else srDrdy), d)
  | .sending _ _ _, _ => (srDrdy ||| srDrq, d)
  | .taking _ _ _ _, _ => (srDrdy ||| srDrq, d)
  | _, .busy => (srBsy, d)
  | _, .fail => (srDrdy ||| srErr, { d with phase := .idle true })
  | .reading lba left, .ready =>
    if lba < d.disk.size then (srDrdy ||| srDrq, { d with phase := .sending lba left 0 })
    else (srDrdy ||| srErr, { d with phase := .idle true })
  | .writing lba left, .ready =>
    if lba < d.disk.size then (srDrdy ||| srDrq, { d with phase := .taking lba left 0 fun _ => 0 })
    else (srDrdy ||| srErr, { d with phase := .idle true })
  | .flushing, .ready => (srDrdy, { d with phase := .idle false })

/-- The command register is written: whatever the drive was doing ends. -/
def Drive.command (d : Drive) (r : Regs) (c : UInt8) : Drive :=
  if c = cmdReadPio then { d with phase := .reading r.lba r.count }
  else if c = cmdWritePio then { d with phase := .writing r.lba r.count }
  else if c = cmdFlush then { d with phase := .flushing }
  else { d with phase := .idle true }

/-- The data register is read. -/
def Drive.get (d : Drive) : UInt16 × Drive :=
  match d.phase with
  | .sending lba left i =>
    if i + 1 < 256 then (d.disk.sector lba i, { d with phase := .sending lba left (i + 1) })
    else if 1 < left then (d.disk.sector lba i, { d with phase := .reading (lba + 1) (left - 1) })
    else (d.disk.sector lba i, { d with phase := .idle false })
  | _ => (0, d)

/-- The block is stored. -/
def Disk.store (d : Disk) (lba : Nat) (block : Nat → UInt16) : Disk :=
  { d with sector := Function.update d.sector lba block }

/-- The data register is written. -/
def Drive.put (d : Drive) (v : UInt16) : Drive :=
  match d.phase with
  | .taking lba left i block =>
    let block := Function.update block i v
    if i + 1 < 256 then { d with phase := .taking lba left (i + 1) block }
    else if 1 < left then { disk := d.disk.store lba block, phase := .writing (lba + 1) (left - 1) }
    else { disk := d.disk.store lba block, phase := .idle false }
  | _ => d

/-! ## Ports -/

/-- The two channels. -/
inductive Channel
  /-- At `ATA_PRIMARY_BASE`. -/
  | primary
  /-- At `ATA_SECONDARY_BASE`. -/
  | secondary
  deriving DecidableEq

/-- `ATA_PRIMARY_BASE`, `ATA_SECONDARY_BASE`. -/
def Channel.base : Channel → Nat
  | .primary => 0x1F0
  | .secondary => 0x170

/-- A drive's place: its channel, and whether it is the slave. -/
abbrev Place := Channel × Bool

/-- The drives, the registers and the answers to come. -/
structure Bus where
  /-- The drives. -/
  drives : Place → Option Drive
  /-- The registers. -/
  regs : Channel → Regs
  /-- The answers. -/
  polls : Nat → Poll

/-- The register behind a port. -/
def register (port : Nat) : Option (Channel × Nat) :=
  if 0x1F0 ≤ port ∧ port < 0x1F8 then some (.primary, port - 0x1F0)
  else if 0x170 ≤ port ∧ port < 0x178 then some (.secondary, port - 0x170)
  else none

/-- The drive that the drive register selects. -/
def Bus.selected (b : Bus) (ch : Channel) : Place := (ch, (b.regs ch).drive.toNat.testBit 4)

/-- A drive has changed. -/
def Bus.setDrive (b : Bus) (pl : Place) (d : Drive) : Bus :=
  { b with drives := Function.update b.drives pl (some d) }

/-- `inb`, of a status register. Nothing answers where there is no drive. -/
def inb (port : Nat) (b : Bus) : UInt8 × Bus :=
  match register port with
  | some (ch, 7) =>
    match b.drives (b.selected ch) with
    | some d =>
      ((d.status (b.polls 0)).1,
        { b.setDrive (b.selected ch) (d.status (b.polls 0)).2 with polls := fun i => b.polls (i + 1) })
    | none => (0, b)
  | _ => (0, b)

/-- `inw`, of a data register. -/
def inw (port : Nat) (b : Bus) : UInt16 × Bus :=
  match register port with
  | some (ch, 0) =>
    match b.drives (b.selected ch) with
    | some d => (d.get.1, b.setDrive (b.selected ch) d.get.2)
    | none => (0, b)
  | _ => (0, b)

/-- A register of a channel is written. -/
def Bus.setRegs (b : Bus) (ch : Channel) (f : Regs → Regs) : Bus :=
  { b with regs := Function.update b.regs ch (f (b.regs ch)) }

/-- `outb`. Both drives of a channel see the registers, the selected one gets the command. -/
def outb (port : Nat) (v : UInt8) (b : Bus) : Bus :=
  match register port with
  | some (ch, 2) => b.setRegs ch fun r => { r with seccount := v }
  | some (ch, 3) => b.setRegs ch fun r => { r with lbaLo := v }
  | some (ch, 4) => b.setRegs ch fun r => { r with lbaMid := v }
  | some (ch, 5) => b.setRegs ch fun r => { r with lbaHi := v }
  | some (ch, 6) => b.setRegs ch fun r => { r with drive := v }
  | some (ch, 7) =>
    match b.drives (b.selected ch) with
    | some d => b.setDrive (b.selected ch) (d.command (b.regs ch) v)
    | none => b
  | _ => b

/-- `outw`, of a data register. -/
def outw (port : Nat) (v : UInt16) (b : Bus) : Bus :=
  match register port with
  | some (ch, 0) =>
    match b.drives (b.selected ch) with
    | some d => b.setDrive (b.selected ch) (d.put v)
    | none => b
  | _ => b

/-! ## The driver -/

/-- The fields of `ata_drive_t` that transfers use. -/
structure AtaDrive where
  /-- `present`. -/
  present : Bool
  /-- `base`. -/
  base : Nat
  /-- `slave`. -/
  slave : UInt8

/-- `ATA_MAX_DRIVES`. -/
def ataMaxDrives : UInt8 := 4

/-- The place that `ata_init` probes for an entry of `drives`. -/
def place (drv : UInt8) : Place :=
  if drv = 0 then (.primary, false) else if drv = 1 then (.primary, true)
  else if drv = 2 then (.secondary, false) else (.secondary, true)

/-- `drives` after `ata_init`, which has found some of the drives. -/
def driveTable (found : UInt8 → Bool) (drv : UInt8) : AtaDrive where
  present := found drv
  base := (place drv).1.base
  slave := if (place drv).2 then 1 else 0

/-- `wait_busy` with `n` reads to go. -/
def waitBusyFrom (base : Nat) : (n : Nat) → Bus → Int × Bus
  | 0, b => (-1, b)
  | n + 1, b =>
    let s := inb (base + 7) b
    if s.1 &&& srBsy = 0 then (if s.1 &&& srErr ≠ 0 then -1 else 0, s.2) else waitBusyFrom base n s.2

/-- `wait_busy`. -/
def waitBusy (base : Nat) (b : Bus) : Int × Bus := waitBusyFrom base 100000 b

/-- `wait_drq` with `n` reads to go. -/
def waitDrqFrom (base : Nat) : (n : Nat) → Bus → Int × Bus
  | 0, b => (-1, b)
  | n + 1, b =>
    let s := inb (base + 7) b
    if s.1 &&& srErr ≠ 0 then (-1, s.2)
    else if s.1 &&& srDrq ≠ 0 then (0, s.2)
    else waitDrqFrom base n s.2

/-- `wait_drq`. -/
def waitDrq (base : Nat) (b : Bus) : Int × Bus := waitDrqFrom base 100000 b

/-- `(u8)(0xE0 | (d->slave << 4) | ((lba >> 24) & 0x0F))`. -/
def driveByte (slave : UInt8) (lba : UInt32) : UInt8 :=
  ((0xE0 : UInt32) ||| (slave.toUInt32 <<< 4) ||| ((lba >>> 24) &&& 0x0F)).toUInt8

/-- The registers are loaded and a command is given. -/
def issue (d : AtaDrive) (lba : UInt32) (count cmd : UInt8) (b : Bus) : Bus :=
  let b := outb (d.base + 6) (driveByte d.slave lba) b
  let b := outb (d.base + 2) count b
  let b := outb (d.base + 3) (lba &&& 0xFF).toUInt8 b
  let b := outb (d.base + 4) ((lba >>> 8) &&& 0xFF).toUInt8 b
  let b := outb (d.base + 5) ((lba >>> 16) &&& 0xFF).toUInt8 b
  outb (d.base + 7) cmd b

/-- The loop over the words of a sector in `ata_read`, which goes to `dst[off]` and on. -/
def readWords (base off : Nat) (dst : Nat → UInt16) (b : Bus) : (Nat → UInt16) × Bus :=
  forRange 0 256
    (fun w st => (Function.update st.1 (off + w) (inw base st.2).1, (inw base st.2).2)) (dst, b)

/-- The loop over the sectors in `ata_read`, from sector `s` on with `n` to go. -/
def readSectors (base : Nat) : (n s : Nat) → (Nat → UInt16) → Bus → Int × (Nat → UInt16) × Bus
  | 0, _, dst, b => (0, dst, b)
  | n + 1, s, dst, b =>
    let r := waitDrq base b
    if r.1 < 0 then (-1, dst, r.2)
    else
      let st := readWords base (s * 256) dst r.2
      readSectors base n (s + 1) st.1 st.2

/-- `ata_read`: the result, the buffer and the drives. -/
def ataRead (drives : UInt8 → AtaDrive) (drv : UInt8) (lba : UInt32) (count : UInt8)
    (dst : Nat → UInt16) (b : Bus) :
    Int × (Nat → UInt16) × Bus :=
  if drv ≥ ataMaxDrives ∨ (drives drv).present = false then (-1, dst, b)
  else
    let d := drives drv
    let r := waitBusy d.base b
    if r.1 < 0 then (-1, dst, r.2)
    else readSectors d.base count.toNat 0 dst (issue d lba count cmdReadPio r.2)

/-- The loop over the words of a sector in `ata_write`. -/
def writeWords (base off : Nat) (src : Nat → UInt16) (b : Bus) : Bus :=
  forRange 0 256 (fun w b => outw base (src (off + w)) b) b

/-- The loop over the sectors in `ata_write`, from sector `s` on with `n` to go. -/
def writeSectors (base : Nat) (src : Nat → UInt16) : (n s : Nat) → Bus → Int × Bus
  | 0, _, b => (0, b)
  | n + 1, s, b =>
    let r := waitDrq base b
    if r.1 < 0 then (-1, r.2)
    else
      let b := writeWords base (s * 256) src r.2
      let r := waitBusy base (outb (base + 7) cmdFlush b)
      if r.1 < 0 then (-1, r.2)
      else writeSectors base src n (s + 1) r.2

/-- `ata_write`. -/
def ataWrite (drives : UInt8 → AtaDrive) (drv : UInt8) (lba : UInt32) (count : UInt8)
    (src : Nat → UInt16) (b : Bus) :
    Int × Bus :=
  if drv ≥ ataMaxDrives ∨ (drives drv).present = false then (-1, b)
  else
    let d := drives drv
    let r := waitBusy d.base b
    if r.1 < 0 then (-1, r.2)
    else writeSectors d.base src count.toNat 0 (issue d lba count cmdWritePio r.2)

/-! ## Registers -/

variable {pl : Place} {b b' b'' : Bus} {d d' : Drive} {disk : Disk}

theorem register_base {k : Nat} (hk : k < 8) (ch : Channel) : register (ch.base + k) = some (ch, k) := by
  cases ch with
  | primary => rw [register, Channel.base, if_pos (by omega), Nat.add_sub_cancel_left]
  | secondary =>
      rw [register, Channel.base, if_neg (by omega), if_pos (by omega), Nat.add_sub_cancel_left]

/-- The low byte of a shifted sector number. -/
theorem toNat_byte (lba : UInt32) (k : UInt32) (hk : k < 32) :
    ((lba >>> k) &&& 0xFF).toUInt8.toNat = lba.toNat / 2 ^ k.toNat % 2 ^ 8 := by
  have hk' : k.toNat < 32 := hk
  rw [UInt32.toNat_toUInt8, UInt32.toNat_and, UInt32.toNat_shiftRight, Nat.mod_eq_of_lt hk',
    Nat.shiftRight_eq_div_pow]
  change (_ &&& (2 ^ 8 - 1)) % 2 ^ 8 = _
  rw [Nat.and_two_pow_sub_one_eq_mod, Nat.mod_mod]

/-- The drive register holds the upper four bits of the sector number and selects the drive. -/
theorem driveByte_spec (slave : Bool) (lba : UInt32) :
    (driveByte (if slave then 1 else 0) lba).toNat % 16 = lba.toNat / 2 ^ 24 % 16 ∧
      (driveByte (if slave then 1 else 0) lba).toNat.testBit 4 = slave := by
  have hall : ∀ t : Fin 256, ∀ slave : Bool,
      ((0xE0 : UInt32) ||| ((if slave then 1 else 0 : UInt8).toUInt32 <<< 4) |||
        (UInt32.ofNat t &&& 0x0F)).toUInt8.toNat % 16 = t % 16 ∧
      ((0xE0 : UInt32) ||| ((if slave then 1 else 0 : UInt8).toUInt32 <<< 4) |||
        (UInt32.ofNat t &&& 0x0F)).toUInt8.toNat.testBit 4 = slave := by decide +kernel
  have htop : (lba >>> 24).toNat = lba.toNat / 2 ^ 24 := by
    rw [UInt32.toNat_shiftRight, Nat.shiftRight_eq_div_pow]
    rfl
  have hlt : lba.toNat / 2 ^ 24 < 256 := by
    have := lba.toNat_lt
    omega
  have hof : UInt32.ofNat (lba.toNat / 2 ^ 24) = lba >>> 24 := by rw [← htop, UInt32.ofNat_toNat]
  have h := hall ⟨lba.toNat / 2 ^ 24, hlt⟩ slave
  rw [hof] at h
  exact h

/-- The registers of a channel are loaded and the drive there gets the command. -/
theorem issue_spec (present : Bool) (lba : UInt32) {count : UInt8} (hcount : count ≠ 0)
    (cmd : UInt8) (pl : Place)
    (b : Bus) : ∃ r : Regs, r.lba = lba.toNat % 2 ^ 28 ∧ r.count = count.toNat ∧
      issue ⟨present, pl.1.base, if pl.2 then 1 else 0⟩ lba count cmd b =
        { drives := Function.update b.drives pl ((b.drives pl).map fun d => d.command r cmd)
          regs := Function.update b.regs pl.1 r
          polls := b.polls } ∧ (pl.1, r.drive.toNat.testBit 4) = pl := by
  obtain ⟨ch, slave⟩ := pl
  obtain ⟨hdrive, hslave⟩ := driveByte_spec slave lba
  refine ⟨⟨driveByte (if slave then 1 else 0) lba, count, (lba &&& 0xFF).toUInt8, ((lba >>> 8) &&& 0xFF).toUInt8,
    ((lba >>> 16) &&& 0xFF).toUInt8⟩, ?_, if_neg hcount, ?_, by rw [hslave]⟩
  · have hlo : (lba &&& 0xFF).toUInt8.toNat = lba.toNat % 2 ^ 8 := by
      have h := toNat_byte lba 0 (by decide)
      rwa [UInt32.shiftRight_zero, UInt32.toNat_zero, Nat.pow_zero, Nat.div_one] at h
    rw [Regs.lba, hdrive, hlo, toNat_byte lba 8 (by decide), toNat_byte lba 16 (by decide)]
    change lba.toNat / 2 ^ 24 % 16 * 2 ^ 24 + lba.toNat / 2 ^ 16 % 2 ^ 8 * 2 ^ 16 +
      lba.toNat / 2 ^ 8 % 2 ^ 8 * 2 ^ 8 + lba.toNat % 2 ^ 8 = _
    omega
  · simp only [issue, outb, register_base (show 6 < 8 by decide), register_base (show 2 < 8 by decide),
      register_base (show 3 < 8 by decide), register_base (show 4 < 8 by decide),
      register_base (show 5 < 8 by decide), register_base (show 7 < 8 by decide), Bus.setRegs,
      Bus.selected, Function.update_self, Function.update_idem, hslave]
    cases h : b.drives (ch, slave) with
    | none =>
        have hnone : Function.update b.drives (ch, slave) none = b.drives := by rw [← h,
          Function.update_eq_self]
        rw [Option.map_none, hnone]
    | some d => rfl

/-! ## Waiting -/

/-- The drive at `pl` is selected on its channel. -/
structure Bus.At (b : Bus) (pl : Place) (d : Drive) : Prop where
  /-- It is selected. -/
  selected : b.selected pl.1 = pl
  /-- The drive. -/
  drive : b.drives pl = some d

/-- Only the drive at `pl` has changed, and answers were used up. -/
structure Bus.Moves (pl : Place) (b b' : Bus) (d : Drive) : Prop where
  /-- The registers. -/
  regs : b'.regs = b.regs
  /-- The drives. -/
  drives : b'.drives = Function.update b.drives pl (some d)
  /-- The answers. -/
  polls : ∃ k, b'.polls = fun i => b.polls (i + k)

theorem Bus.Moves.at (h : Bus.Moves pl b b' d) (hsel : b.selected pl.1 = pl) : b'.At pl d where
  selected := by rw [Bus.selected, h.regs]; exact hsel
  drive := by rw [h.drives, Function.update_self]

theorem Bus.Moves.trans (h : Bus.Moves pl b b' d)
    (h' : Bus.Moves pl b' b'' d') : Bus.Moves pl b b'' d' := by
  obtain ⟨k, hk⟩ := h.polls
  obtain ⟨k', hk'⟩ := h'.polls
  refine ⟨h'.regs.trans h.regs, by rw [h'.drives, h.drives, Function.update_idem], k' + k, ?_⟩
  rw [hk', hk]
  exact funext fun i => congrArg b.polls (Nat.add_assoc i k' k)

theorem Bus.At.moves_refl (h : b.At pl d) : Bus.Moves pl b b d :=
  ⟨rfl, by rw [← h.drive, Function.update_eq_self], 0, rfl⟩

/-- The status register of the selected drive. -/
theorem Bus.At.inb (h : b.At pl d) : (inb (pl.1.base + 7) b).1 = (d.status (b.polls 0)).1 ∧
    Bus.Moves pl b (inb (pl.1.base + 7) b).2 (d.status (b.polls 0)).2 ∧
    (inb (pl.1.base + 7) b).2.polls = fun i => b.polls (i + 1) := by
  have heq : Ata.inb (pl.1.base + 7) b = ((d.status (b.polls 0)).1,
      { b.setDrive pl (d.status (b.polls 0)).2 with polls := fun i => b.polls (i + 1) }) := by
    simp only [Ata.inb, register_base (show 7 < 8 by decide), h.selected, h.drive]
  rw [heq]
  exact ⟨rfl, ⟨rfl, rfl, 1, rfl⟩, rfl⟩

/-- Within `n` reads the drive is ready, and it does not fail. -/
def Answers (n : Nat) (polls : Nat → Poll) : Prop := (∀ i, polls i ≠ .fail) ∧ ∃ j < n, polls j = .ready

/-- An answer that is not the one waited for. -/
theorem Answers.tail {n : Nat} {polls : Nat → Poll} (h : Answers (n + 1) polls) (h0 : polls 0 = .busy) :
    Answers n fun i => polls (i + 1) := by
  obtain ⟨hfail, j, hj, hready⟩ := h
  obtain ⟨j, rfl⟩ : ∃ j', j = j' + 1 := by
    refine Nat.exists_eq_succ_of_ne_zero fun hj0 => ?_
    rw [hj0, h0] at hready
    cases hready
  exact ⟨fun i => hfail (i + 1), j, by omega, hready⟩

/-- When the drive is ready it asks for data if `ok` holds, and is `d'` then. -/
structure Seeks (d d' : Drive) (ok : Prop) : Prop where
  /-- Busy. -/
  busy : d.status .busy = (srBsy, d)
  /-- Failed. -/
  fail : (d.status .fail).1 = srDrdy ||| srErr
  /-- Ready. -/
  ready : ok → d.status .ready = (srDrdy ||| srDrq, d')
  /-- There is no such sector. -/
  error : ¬ ok → (d.status .ready).1 = srDrdy ||| srErr

theorem seeks_reading (disk : Disk) (lba left : Nat) :
    Seeks ⟨disk, .reading lba left⟩ ⟨disk, .sending lba left 0⟩ (lba < disk.size) where
  busy := rfl
  fail := rfl
  ready h := if_pos h
  error h := congrArg Prod.fst (if_neg h)

theorem seeks_writing (disk : Disk) (lba left : Nat) :
    Seeks ⟨disk, .writing lba left⟩ ⟨disk, .taking lba left 0 fun _ => 0⟩ (lba < disk.size) where
  busy := rfl
  fail := rfl
  ready h := if_pos h
  error h := congrArg Prod.fst (if_neg h)

/-- `wait_drq` on a drive that is getting ready: it succeeds only if there is the sector, and then
if the drive answers. -/
theorem waitDrqFrom_of_seeks {ok : Prop} (hd : Seeks d d' ok) (n : Nat) (h : b.At pl d) :
    ((waitDrqFrom pl.1.base n b).1 = 0 ∧ ok ∧ Bus.Moves pl b (waitDrqFrom pl.1.base n b).2 d') ∨
      ((waitDrqFrom pl.1.base n b).1 < 0 ∧ ¬ (ok ∧ Answers n b.polls)) := by
  induction n generalizing b with
  | zero =>
      refine .inr ⟨show (-1 : Int) < 0 by decide, ?_⟩
      rintro ⟨-, -, j, hj, -⟩
      omega
  | succ n ih =>
      obtain ⟨hflags, hmoves, hpolls⟩ := h.inb
      rw [waitDrqFrom]
      rw [hflags]
      cases hp : b.polls 0 with
      | busy =>
          rw [hp, hd.busy] at hmoves
          rw [hd.busy, if_neg (show ¬ srBsy &&& srErr ≠ 0 by decide),
            if_neg (show ¬ srBsy &&& srDrq ≠ 0 by decide)]
          rcases ih (hmoves.at h.selected) with ⟨hr, hok, hm⟩ | ⟨hr, hno⟩
          · exact .inl ⟨hr, hok, hmoves.trans hm⟩
          · refine .inr ⟨hr, fun hans => hno ⟨hans.1, ?_⟩⟩
            rw [hpolls]
            exact hans.2.tail hp
      | fail =>
          rw [hd.fail, if_pos (show (srDrdy ||| srErr) &&& srErr ≠ 0 by decide)]
          exact .inr ⟨show (-1 : Int) < 0 by decide, fun hans => hans.2.1 0 hp⟩
      | ready =>
          by_cases hok : ok
          · rw [hp, hd.ready hok] at hmoves
            rw [hd.ready hok, if_neg (show ¬ (srDrdy ||| srDrq) &&& srErr ≠ 0 by decide),
              if_pos (show (srDrdy ||| srDrq) &&& srDrq ≠ 0 by decide)]
            exact .inl ⟨rfl, hok, hmoves⟩
          · rw [hd.error hok, if_pos (show (srDrdy ||| srErr) &&& srErr ≠ 0 by decide)]
            exact .inr ⟨show (-1 : Int) < 0 by decide, fun hans => hok hans.1⟩

/-- `wait_drq` on a drive that does nothing fails. -/
theorem waitDrqFrom_idle (n : Nat)
    (h : b.At pl ⟨disk, .idle false⟩) : (waitDrqFrom pl.1.base n b).1 < 0 := by
  induction n generalizing b with
  | zero => exact show (-1 : Int) < 0 by decide
  | succ n ih =>
      obtain ⟨hflags, hmoves, -⟩ := h.inb
      rw [waitDrqFrom]
      rw [hflags, show Drive.status ⟨disk, .idle false⟩ (b.polls 0) = (srDrdy, ⟨disk, .idle false⟩) from rfl,
        if_neg (show ¬ srDrdy &&& srErr ≠ 0 by decide), if_neg (show ¬ srDrdy &&& srDrq ≠ 0 by decide)]
      exact ih (hmoves.at h.selected)

/-- `wait_drq` where there is no drive fails. -/
theorem waitDrqFrom_none (n : Nat) (hsel : b.selected pl.1 = pl) (h : b.drives pl = none) :
    (waitDrqFrom pl.1.base n b).1 < 0 := by
  have hinb : Ata.inb (pl.1.base + 7) b = (0, b) := by
    simp only [Ata.inb, register_base (show 7 < 8 by decide), hsel, h]
  induction n with
  | zero => exact show (-1 : Int) < 0 by decide
  | succ n ih =>
      rw [waitDrqFrom, hinb, if_neg (show ¬ (0 : UInt8) &&& srErr ≠ 0 by decide),
        if_neg (show ¬ (0 : UInt8) &&& srDrq ≠ 0 by decide)]
      exact ih

/-- `wait_busy` after a flush command. -/
theorem waitBusyFrom_flushing (n : Nat) (h : b.At pl ⟨disk, .flushing⟩) :
    ((waitBusyFrom pl.1.base n b).1 = 0 ∧ Bus.Moves pl b (waitBusyFrom pl.1.base n b).2 ⟨disk, .idle false⟩) ∨
      ((waitBusyFrom pl.1.base n b).1 < 0 ∧ ¬ Answers n b.polls) := by
  induction n generalizing b with
  | zero =>
      refine .inr ⟨show (-1 : Int) < 0 by decide, ?_⟩
      rintro ⟨-, j, hj, -⟩
      omega
  | succ n ih =>
      obtain ⟨hflags, hmoves, hpolls⟩ := h.inb
      rw [waitBusyFrom]
      rw [hflags]
      cases hp : b.polls 0 with
      | busy =>
          rw [hp] at hmoves
          rw [show Drive.status ⟨disk, .flushing⟩ .busy = (srBsy, ⟨disk, .flushing⟩) from rfl,
            if_neg (show ¬ srBsy &&& srBsy = 0 by decide)]
          rcases ih (hmoves.at h.selected) with ⟨hr, hm⟩ | ⟨hr, hno⟩
          · exact .inl ⟨hr, hmoves.trans hm⟩
          · refine .inr ⟨hr, fun hans => hno ?_⟩
            rw [hpolls]
            exact hans.tail hp
      | fail =>
          rw [show Drive.status ⟨disk, .flushing⟩ .fail = (srDrdy ||| srErr, ⟨disk, .idle true⟩) from rfl,
            if_pos (show (srDrdy ||| srErr) &&& srBsy = 0 by decide),
            if_pos (show (srDrdy ||| srErr) &&& srErr ≠ 0 by decide)]
          exact .inr ⟨show (-1 : Int) < 0 by decide, fun hans => hans.1 0 hp⟩
      | ready =>
          rw [hp] at hmoves
          rw [show Drive.status ⟨disk, .flushing⟩ .ready = (srDrdy, ⟨disk, .idle false⟩) from rfl,
            if_pos (show srDrdy &&& srBsy = 0 by decide), if_neg (show ¬ srDrdy &&& srErr ≠ 0 by decide)]
          exact .inl ⟨rfl, hmoves⟩

/-- `wait_busy` on a drive that does nothing. -/
theorem waitBusyFrom_idle {n : Nat} (hn : 0 < n) (h : b.At pl ⟨disk, .idle false⟩) :
    (waitBusyFrom pl.1.base n b).1 = 0 ∧
    Bus.Moves pl b (waitBusyFrom pl.1.base n b).2 ⟨disk, .idle false⟩ := by
  obtain ⟨n, rfl⟩ := Nat.exists_eq_succ_of_ne_zero hn.ne'
  obtain ⟨hflags, hmoves, -⟩ := h.inb
  rw [waitBusyFrom]
  rw [hflags, show Drive.status ⟨disk, .idle false⟩ (b.polls 0) = (srDrdy, ⟨disk, .idle false⟩) from rfl,
    if_pos (show srDrdy &&& srBsy = 0 by decide), if_neg (show ¬ srDrdy &&& srErr ≠ 0 by decide)]
  exact ⟨rfl, hmoves⟩

/-! ## Sectors and answers -/

/-- The sectors of the drives. -/
def Bus.disks (b : Bus) (pl : Place) : Option Disk := (b.drives pl).map Drive.disk

theorem Bus.Moves.disks (h : Bus.Moves pl b b' d) : b'.disks = Function.update b.disks pl (some d.disk) := by
  funext p
  rw [Bus.disks, h.drives]
  by_cases hp : p = pl
  · rw [hp, Function.update_self, Function.update_self, Option.map_some]
  · rw [Function.update_of_ne hp, Function.update_of_ne hp, Bus.disks]

/-- Reading the status stores nothing. -/
theorem status_disk (d : Drive) (p : Poll) : (d.status p).2.disk = d.disk := by
  obtain ⟨disk, phase⟩ := d
  cases phase with
  | idle err => rfl
  | sending lba left i => rfl
  | taking lba left i block => rfl
  | flushing => cases p <;> rfl
  | reading lba left =>
      cases p with
      | busy => rfl
      | fail => rfl
      | ready =>
          change (ite (lba < disk.size) _ _ : UInt8 × Drive).2.disk = disk
          split_ifs <;> rfl
  | writing lba left =>
      cases p with
      | busy => rfl
      | fail => rfl
      | ready =>
          change (ite (lba < disk.size) _ _ : UInt8 × Drive).2.disk = disk
          split_ifs <;> rfl

/-- `wait_busy` stores nothing, whatever drive is selected. -/
theorem waitBusyFrom_frame (ch : Channel) (n : Nat) (b : Bus) :
    (waitBusyFrom ch.base n b).2.regs = b.regs ∧ (waitBusyFrom ch.base n b).2.disks = b.disks := by
  have hinb : ∀ b : Bus, (Ata.inb (ch.base + 7) b).2.regs = b.regs ∧
    (Ata.inb (ch.base + 7) b).2.disks = b.disks := by
    intro b
    cases hd : b.drives (b.selected ch) with
    | none =>
        have hnone : Ata.inb (ch.base + 7) b = (0, b) := by
          simp only [Ata.inb, register_base (show 7 < 8 by decide), hd]
        rw [hnone]
        exact ⟨rfl, rfl⟩
    | some d =>
        have hat : b.At (b.selected ch) d := ⟨rfl, hd⟩
        have hmoves : Bus.Moves (b.selected ch) b (Ata.inb (ch.base + 7) b).2 (d.status (b.polls 0)).2 :=
          hat.inb.2.1
        have hsame : some d.disk = b.disks (b.selected ch) := by rw [Bus.disks, hd, Option.map_some]
        exact ⟨hmoves.regs, by rw [hmoves.disks, status_disk, hsame, Function.update_eq_self]⟩
  induction n generalizing b with
  | zero => exact ⟨rfl, rfl⟩
  | succ n ih =>
      obtain ⟨hregs, hdisks⟩ := hinb b
      rw [waitBusyFrom]
      split_ifs
      · exact ⟨hregs, hdisks⟩
      · exact ⟨hregs, hdisks⟩
      · exact ⟨(ih _).1.trans hregs, (ih _).2.trans hdisks⟩

/-- The drives do not fail, and are ready whenever they are asked often enough. -/
def Healthy (polls : Nat → Poll) : Prop :=
  (∀ i, polls i ≠ .fail) ∧ ∀ i, ∃ j < 100000, polls (i + j) = .ready

theorem Healthy.answers (h : Healthy b.polls) : Answers 100000 b.polls := by
  obtain ⟨j, hj, hready⟩ := h.2 0
  rw [Nat.zero_add] at hready
  exact ⟨h.1, j, hj, hready⟩

theorem Healthy.moves (h : Healthy b.polls) (hm : Bus.Moves pl b b' d) : Healthy b'.polls := by
  obtain ⟨k, hk⟩ := hm.polls
  rw [hk]
  refine ⟨fun i => h.1 _, fun i => ?_⟩
  obtain ⟨j, hj, hready⟩ := h.2 (i + k)
  exact ⟨j, hj, by rwa [Nat.add_right_comm] at hready⟩

/-! ## Data and commands -/

/-- A word is fetched from the selected drive. -/
theorem Bus.At.inw (h : b.At pl d) : (inw pl.1.base b).1 = d.get.1 ∧
    Bus.Moves pl b (inw pl.1.base b).2 d.get.2 := by
  have hreg := register_base (show 0 < 8 by decide) pl.1
  have heq : Ata.inw pl.1.base b = (d.get.1, b.setDrive pl d.get.2) := by
    simp only [Ata.inw, Nat.add_zero _ ▸ hreg, h.selected, h.drive]
  rw [heq]
  exact ⟨rfl, rfl, rfl, 0, rfl⟩

/-- A word is given to the selected drive. -/
theorem Bus.At.outw (h : b.At pl d) (v : UInt16) : Bus.Moves pl b (outw pl.1.base v b) (d.put v) := by
  have hreg := register_base (show 0 < 8 by decide) pl.1
  have heq : Ata.outw pl.1.base v b = b.setDrive pl (d.put v) := by
    simp only [Ata.outw, Nat.add_zero _ ▸ hreg, h.selected, h.drive]
  rw [heq]
  exact ⟨rfl, rfl, 0, rfl⟩

/-- The selected drive gets a flush command. -/
theorem Bus.At.flush (h : b.At pl d) : Bus.Moves pl b (outb (pl.1.base + 7) cmdFlush b) ⟨d.disk, .flushing⟩ := by
  have heq : outb (pl.1.base + 7) cmdFlush b = b.setDrive pl (d.command (b.regs pl.1) cmdFlush) := by
    simp only [outb, register_base (show 7 < 8 by decide), h.selected, h.drive]
  rw [heq]
  exact ⟨rfl, rfl, 0, rfl⟩

end Ata

end Aerogel
