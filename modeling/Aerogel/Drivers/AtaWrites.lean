import Aerogel.Drivers.AtaReads

/-! # Sectors written by the ATA driver

`ata_write` gives a flush command after every sector. With one sector the transfer is complete by
then; with more of them the command ends it, and the next `wait_drq` fails. So whenever the call
succeeds, the one sector is on the drive (`ataWrite_roundTrip`). -/

namespace Aerogel

namespace Ata

variable {pl : Place} {b b' : Bus} {disk : Disk} {lba left : Nat}

/-- The block made of the words from `off` on. -/
def blockAt (src : Nat → UInt16) (off i : Nat) : UInt16 := if i < 256 then src (off + i) else 0

/-- The words of a sector are taken in order, then it is stored. -/
theorem writeWords_spec (h : b.At pl ⟨disk, .taking lba left 0 fun _ => 0⟩) (off : Nat)
    (src : Nat → UInt16) :
    Bus.Moves pl b (writeWords pl.1.base off src b)
      ⟨disk.store lba (blockAt src off), .afterSector .writing lba left⟩ := by
  let P : Nat → Bus → Prop := fun i b' => Bus.Moves pl b b' (if i < 256 then
    ⟨disk, .taking lba left i fun j => if j < i then src (off + j) else 0⟩ else
    ⟨disk.store lba (blockAt src off), .afterSector .writing lba left⟩)
  have hloop : P (max 0 256) (writeWords pl.1.base off src b) := by
    refine forRange_induction h.moves_refl fun i b' _ hi hmoves => ?_
    dsimp only [P] at hmoves
    rw [if_pos hi] at hmoves
    have hmove := (hmoves.at h.selected).outw (src (off + i))
    have hblock : Function.update (fun j => if j < i then src (off + j) else 0) i (src (off + i)) =
        fun j => if j < i + 1 then src (off + j) else 0 := by
      funext j
      by_cases hj : j = i
      · rw [hj, Function.update_self, if_pos (Nat.lt_succ_self i)]
      · rw [Function.update_of_ne hj]
        exact if_congr (by omega) rfl rfl
    have hput : Drive.put ⟨disk, .taking lba left i fun j => if j < i then src (off + j) else 0⟩ (src (off + i)) =
        if i + 1 < 256 then ⟨disk, .taking lba left (i + 1) fun j => if j < i + 1 then src (off + j) else 0⟩
        else ⟨disk.store lba (blockAt src off), .afterSector .writing lba left⟩ := by
      change (ite (i + 1 < 256) _ (ite (1 < left) _ _) : Drive) = _
      rw [hblock, Phase.afterSector]
      by_cases hlast : i + 1 < 256
      · rw [if_pos hlast, if_pos hlast]
      · have hfull : (fun j => if j < i + 1 then src (off + j) else 0) = blockAt src off := by
          rw [show i + 1 = 256 by omega]
          rfl
        rw [if_neg hlast, if_neg hlast, hfull]
        split_ifs <;> rfl
    rw [hput] at hmove
    exact hmoves.trans hmove
  exact hloop

/-- The loop over the sectors succeeds with one sector only, and has stored it then. -/
theorem writeSectors_spec {n : Nat} (h : b.At pl ⟨disk, .writing lba (n + 1)⟩) (src : Nat → UInt16) :
    ((writeSectors pl.1.base src (n + 1) 0 b).1 = 0 ∧ n = 0 ∧ lba < disk.size ∧
        Bus.Moves pl b (writeSectors pl.1.base src (n + 1) 0 b).2 ⟨disk.store lba (blockAt src 0), .idle false⟩) ∨
      ((writeSectors pl.1.base src (n + 1) 0 b).1 < 0 ∧ ¬ (n = 0 ∧ lba < disk.size ∧ Healthy b.polls)) := by
  have hneg : (-1 : Int) < 0 := by decide
  have hsel := h.selected
  rw [writeSectors]
  rcases waitDrqFrom_of_seeks (seeks_writing disk lba (n + 1)) 100000 h with ⟨hr, hlt, hwait⟩ | ⟨hr, hno⟩
  · rw [← waitDrq] at hr hwait
    have hwords := hwait.trans (writeWords_spec (hwait.at hsel) (0 * 256) src)
    have hflush := hwords.trans (hwords.at hsel).flush
    rw [hr, if_neg (Int.lt_irrefl 0)]
    dsimp only
    rcases waitBusyFrom_flushing 100000 (hflush.at hsel) with ⟨hbusy, hidle⟩ | ⟨hbusy, hno⟩
    · rw [← waitBusy] at hbusy hidle
      have hmoves := hflush.trans hidle
      rw [hbusy, if_neg (Int.lt_irrefl 0)]
      cases n with
      | zero => exact .inl ⟨rfl, rfl, hlt, hmoves⟩
      | succ n =>
          -- the transfer has ended, the drive asks for nothing
          have hdrq := waitDrqFrom_idle 100000 (hmoves.at hsel)
          rw [← waitDrq] at hdrq
          rw [writeSectors, if_pos hdrq]
          exact .inr ⟨hneg, fun hok => absurd hok.1 (Nat.succ_ne_zero n)⟩
    · rw [← waitBusy] at hbusy
      rw [if_pos hbusy]
      exact .inr ⟨hneg, fun hok => hno (hok.2.2.moves hflush).answers⟩
  · rw [← waitDrq] at hr
    rw [if_pos hr]
    exact .inr ⟨hneg, fun hok => hno ⟨hok.2.1, hok.2.2.answers⟩⟩

/-! ## The call -/

/-- `ata_write` on a drive that was found. -/
theorem ataWrite_of_present {drives : UInt8 → AtaDrive} {drv : UInt8}
    (h : ¬ (drv ≥ ataMaxDrives ∨ (drives drv).present = false)) (lba : UInt32) (count : UInt8)
    (src : Nat → UInt16) (b : Bus) : ataWrite drives drv lba count src b =
      if (waitBusy (drives drv).base b).1 < 0 then (-1, (waitBusy (drives drv).base b).2)
      else writeSectors (drives drv).base src count.toNat 0
        (issue (drives drv) lba count cmdWritePio (waitBusy (drives drv).base b).2) :=
  if_neg h

/-- What a write that succeeds has done: one sector is stored, the drive is at rest, no other
drive has changed. -/
structure Wrote (drv : UInt8) (lba : Nat) (count : UInt8) (src : Nat → UInt16) (b b' : Bus)
    (disk : Disk) : Prop where
  /-- There was one sector to write. -/
  one : count.toNat = 1
  /-- The drive had it. -/
  before : b.disks (place drv) = some disk
  /-- It has a number. -/
  lt : lba < disk.size
  /-- The sectors. -/
  disks : b'.disks = Function.update b.disks (place drv) (some (disk.store lba (blockAt src 0)))
  /-- The drive. -/
  idle : b'.At (place drv) ⟨disk.store lba (blockAt src 0), .idle false⟩

theorem ataWrite_spec (found : UInt8 → Bool) (drv : UInt8) (lba : UInt32) (count : UInt8)
    (hcount : count ≠ 0) (src : Nat → UInt16) (b : Bus) :
    (ataWrite (driveTable found) drv lba count src b).1 < 0 ∨
      drv < ataMaxDrives ∧ found drv = true ∧ ∃ disk, Wrote drv (lba.toNat % 2 ^ 28) count src b
        (ataWrite (driveTable found) drv lba count src b).2 disk := by
  have hneg : (-1 : Int) < 0 := by decide
  have hpos : 0 < count.toNat := Nat.pos_of_ne_zero fun h0 => hcount (UInt8.toNat_inj.mp h0)
  obtain ⟨n, hn⟩ := Nat.exists_eq_succ_of_ne_zero hpos.ne'
  by_cases habsent : drv ≥ ataMaxDrives ∨ (driveTable found drv).present = false
  · rw [ataWrite, if_pos habsent]
    exact .inl hneg
  rw [ataWrite_of_present habsent, show (driveTable found drv).base = (place drv).1.base from rfl, hn]
  obtain ⟨hdrv, hfound⟩ := not_or.mp habsent
  split_ifs with hbusy
  · exact .inl hneg
  obtain ⟨hsel, hsame, hnone | ⟨d, r, hdisk, hlba, hcnt, hat⟩⟩ :=
    issued_drive found drv lba hcount cmdWritePio (b := b) rfl
  · -- nothing answers
    have hwait := waitDrqFrom_none 100000 hsel hnone
    rw [← waitDrq] at hwait
    rw [writeSectors, if_pos hwait]
    exact .inl hneg
  · rw [Drive.command, if_neg (by decide), if_pos rfl, hlba, hcnt, hn] at hat
    rcases writeSectors_spec hat src with ⟨-, hone, hlt, hmoves⟩ | ⟨hres, -⟩
    · have hstored := hmoves.disks
      rw [hsame] at hstored
      exact .inr ⟨UInt8.not_le.mp hdrv, Bool.not_eq_false _ ▸ hfound, d.disk, by omega, hdisk, hlt, hstored,
        hmoves.at hsel⟩
    · exact .inl hres

/-- A drive that is at rest and healthy takes one sector. -/
theorem ataWrite_of_healthy (found : UInt8 → Bool) (drv : UInt8) (lba : UInt32) (src : Nat → UInt16)
    (hdrv : drv < ataMaxDrives) (hfound : found drv = true) {b : Bus}
    (hidle : b.At (place drv) ⟨disk, .idle false⟩) (hhealthy : Healthy b.polls)
    (hlt : lba.toNat % 2 ^ 28 < disk.size) :
    (ataWrite (driveTable found) drv lba 1 src b).1 = 0 := by
  obtain ⟨hbusy, hpolls, r, hlba, hcnt, hat⟩ :=
    issued_of_idle found drv lba (show (1 : UInt8) ≠ 0 by decide) cmdWritePio hidle hhealthy rfl
  rw [Drive.command, if_neg (by decide), if_pos rfl, hlba, hcnt] at hat
  rw [ataWrite_of_present (present_driveTable hdrv hfound),
    show (driveTable found drv).base = (place drv).1.base from rfl, hbusy, if_neg (Int.lt_irrefl 0)]
  rcases writeSectors_spec (n := 0) hat src with ⟨hres, -⟩ | ⟨-, hno⟩
  · exact hres
  · exact absurd ⟨rfl, hlt, hpolls⟩ hno

/-- The drive gives the buffer back, and every other sector is as it was. -/
structure RoundTrip (found : UInt8 → Bool) (drv : UInt8) (lba : UInt32) (count : UInt8)
    (src : Nat → UInt16) (b b' : Bus) : Prop where
  /-- A read that succeeds gives the buffer. -/
  reads : ∀ polls dst, (ataRead (driveTable found) drv lba count dst { b' with polls := polls }).1 = 0 →
    ∀ j < 256 * count.toNat, (ataRead (driveTable found) drv lba count dst { b' with polls := polls }).2.1 j = src j
  /-- It succeeds if the drive answers. -/
  succeeds : ∀ polls dst, Healthy polls →
    (ataRead (driveTable found) drv lba count dst { b' with polls := polls }).1 = 0
  /-- The other sectors. -/
  others : ∀ pl i, pl ≠ place drv ∨ i < lba.toNat ∨ lba.toNat + count.toNat ≤ i →
    (b'.disks pl).map (·.sector i) = (b.disks pl).map (·.sector i)
  /-- The sizes of the drives. -/
  sizes : ∀ pl, (b'.disks pl).map Disk.size = (b.disks pl).map Disk.size

/-- What a write that succeeds has left on the drive is read back. -/
theorem ataWrite_roundTrip (found : UInt8 → Bool) (drv : UInt8) (lba : UInt32) (count : UInt8)
    (src : Nat → UInt16) (b b' : Bus) (hlba : lba.toNat < 2 ^ 28 - 255) (hcount : count ≠ 0)
    (h : ataWrite (driveTable found) drv lba count src b = (0, b')) : RoundTrip found drv lba count src b b' := by
  have hspec := ataWrite_spec found drv lba count hcount src b
  rw [h, Nat.mod_eq_of_lt (show lba.toNat < 2 ^ 28 by omega)] at hspec
  obtain ⟨hdrv, hfound, disk, hwrote⟩ := hspec.resolve_left (Int.lt_irrefl 0)
  have hone := hwrote.one
  have hlt := hwrote.lt
  refine ⟨fun polls dst hres j hj => ?_, fun polls dst hhealthy => ?_, fun pl i hother => ?_, fun pl => ?_⟩
  · rcases ataRead_spec found drv lba count hcount dst { b' with polls := polls } with
      hneg | ⟨-, disk', hdisk', -, hbuf⟩
    · omega
    · have hsame : b'.disks (place drv) = some disk' := hdisk'
      rw [hwrote.disks, Function.update_self] at hsame
      cases hsame
      rw [hbuf]
      dsimp only
      rw [if_pos hj, Nat.mod_eq_of_lt (show lba.toNat < 2 ^ 28 by omega), show j / 256 = 0 by omega,
        Nat.add_zero, show j % 256 = j by omega, Disk.store]
      dsimp only
      rw [Function.update_self, blockAt, if_pos (by omega), Nat.zero_add]
  · refine ataRead_of_healthy found drv lba count dst hdrv hfound hcount
      ⟨hwrote.idle.selected, hwrote.idle.drive⟩ hhealthy ?_
    rw [Nat.mod_eq_of_lt (show lba.toNat < 2 ^ 28 by omega)]
    change lba.toNat + count.toNat ≤ disk.size
    omega
  · rw [hwrote.disks]
    by_cases hpl : pl = place drv
    · have hi : i ≠ lba.toNat := by
        rcases hother with hne | hlow | hhigh
        · exact absurd hpl hne
        · omega
        · omega
      rw [hpl, Function.update_self, hwrote.before, Option.map_some, Option.map_some, Disk.store]
      dsimp only
      rw [Function.update_of_ne hi]
    · rw [Function.update_of_ne hpl]
  · rw [hwrote.disks]
    by_cases hpl : pl = place drv
    · rw [hpl, Function.update_self, hwrote.before]
      rfl
    · rw [Function.update_of_ne hpl]

/-- One sector of counting words, to sector 7 of the slave on the first channel. -/
theorem ataWrite_roundTrip_seven : ∃ b b',
    ataWrite (driveTable fun _ => true) 1 7 1 UInt16.ofNat b = (0, b') ∧
    RoundTrip (fun _ => true) 1 7 1 UInt16.ofNat b b' := by
  have hfst : ∀ {x : Int × Bus}, x.1 = 0 → ∃ b', x = (0, b') := fun {x} hx => ⟨x.2, Prod.ext hx rfl⟩
  obtain ⟨b', hwrite⟩ := hfst (ataWrite_of_healthy (fun _ => true) 1 7 UInt16.ofNat (by decide) rfl
    (oneDrive_at (place 1) fun _ _ => 0) healthy_ready (by decide))
  exact ⟨_, b', hwrite, ataWrite_roundTrip _ 1 7 1 _ _ _ (by decide) (by decide) hwrite⟩

end Ata

end Aerogel
