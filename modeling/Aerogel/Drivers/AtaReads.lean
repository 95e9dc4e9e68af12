import Aerogel.Drivers.Ata

/-! # Sectors read by the ATA driver

`ata_read` takes a sector number of 32 bits, the registers of a drive hold 28. `readSectors_spec`
follows the loop over the sectors: it gives the sectors that were selected, or fails.
`ataRead_iff` says for which arguments these are the sectors that were asked for. -/

namespace Aerogel

namespace Ata

variable {pl : Place} {b b' : Bus} {disk : Disk} {lba left : Nat}

/-! ## The loops -/

/-- What a drive does after the last word of a sector. -/
def Phase.afterSector (next : Nat → Nat → Phase) (lba left : Nat) : Phase :=
  if 1 < left then next (lba + 1) (left - 1) else .idle false

/-- The words of a sector are fetched in order. -/
theorem readWords_spec (h : b.At pl ⟨disk, .sending lba left 0⟩) (off : Nat) (dst : Nat → UInt16) :
    (readWords pl.1.base off dst b).1 =
        (fun j => if off ≤ j ∧ j < off + 256 then disk.sector lba (j - off) else dst j) ∧
      Bus.Moves pl b (readWords pl.1.base off dst b).2 ⟨disk, .afterSector .reading lba left⟩ := by
  let P : Nat → (Nat → UInt16) × Bus → Prop := fun i st =>
    st.1 = (fun j => if off ≤ j ∧ j < off + i then disk.sector lba (j - off) else dst j) ∧
      Bus.Moves pl b st.2 ⟨disk, if i < 256 then .sending lba left i else .afterSector .reading lba left⟩
  have hloop : P (max 0 256) (readWords pl.1.base off dst b) := by
    refine forRange_induction ⟨?_, h.moves_refl⟩ fun i st _ hi hst => ?_
    · funext j
      rw [if_neg (by omega)]
    · obtain ⟨hdst, hmoves⟩ := hst
      rw [if_pos hi] at hmoves
      obtain ⟨hword, hmove⟩ := (hmoves.at h.selected).inw
      have hget : Drive.get ⟨disk, .sending lba left i⟩ =
          (disk.sector lba i, ⟨disk, if i + 1 < 256 then .sending lba left (i + 1) else
            .afterSector .reading lba left⟩) := by
        change (ite (i + 1 < 256) _ (ite (1 < left) _ _) : UInt16 × Drive) = _
        rw [Phase.afterSector]
        split_ifs <;> rfl
      rw [hget] at hmove
      have hval : (inw pl.1.base st.2).1 = disk.sector lba i := hword.trans (congrArg Prod.fst hget)
      refine ⟨?_, hmoves.trans hmove⟩
      funext j
      dsimp only
      rw [hval, hdst]
      by_cases hj : j = off + i
      · rw [hj, Function.update_self, if_pos (by omega), Nat.add_sub_cancel_left]
      · rw [Function.update_of_ne hj]
        exact if_congr (by omega) rfl rfl
  exact hloop

/-- The sector read first and those behind it. -/
theorem sectors_succ (sector : Nat → Nat → UInt16) (dst : Nat → UInt16) (lba s n : Nat) :
    (fun j => if 256 * (s + 1) ≤ j ∧ j < 256 * (s + 1 + n) then sector (lba + 1 + (j / 256 - (s + 1))) (j % 256)
        else if s * 256 ≤ j ∧ j < s * 256 + 256 then sector lba (j - s * 256) else dst j) =
      fun j => if 256 * s ≤ j ∧ j < 256 * (s + (n + 1)) then sector (lba + (j / 256 - s)) (j % 256)
        else dst j := by
  funext j
  by_cases hfirst : s * 256 ≤ j ∧ j < s * 256 + 256
  · rw [if_neg (by omega), if_pos hfirst, if_pos (by omega), show j / 256 - s = 0 by omega,
      show j - s * 256 = j % 256 by omega, Nat.add_zero]
  · rw [if_neg hfirst]
    by_cases hrest : 256 * (s + 1) ≤ j ∧ j < 256 * (s + 1 + n)
    · rw [if_pos hrest, if_pos (by omega),
        show lba + 1 + (j / 256 - (s + 1)) = lba + (j / 256 - s) by omega]
    · rw [if_neg hrest, if_neg (by omega)]

/-- The loop over the sectors gives the sectors from `lba` on, or fails; it fails only where
sectors are missing or the drive does not answer. -/
theorem readSectors_spec {n s : Nat} (hsel : b.selected pl.1 = pl)
    (h : 0 < n → b.At pl ⟨disk, .reading lba n⟩) (dst : Nat → UInt16) :
    ((readSectors pl.1.base n s dst b).1 = 0 ∧ (0 < n → lba + n ≤ disk.size) ∧
        (readSectors pl.1.base n s dst b).2.1 = fun j => if 256 * s ≤ j ∧ j < 256 * (s + n) then
          disk.sector (lba + (j / 256 - s)) (j % 256) else dst j) ∨
      ((readSectors pl.1.base n s dst b).1 < 0 ∧ ¬ (lba + n ≤ disk.size ∧ Healthy b.polls)) := by
  induction n generalizing s lba dst b with
  | zero =>
      refine .inl ⟨rfl, fun h0 => absurd h0 (Nat.lt_irrefl 0), ?_⟩
      funext j
      rw [if_neg (by omega)]
      rfl
  | succ n ih =>
      have hat := h (Nat.succ_pos n)
      rw [readSectors]
      rcases waitDrqFrom_of_seeks (seeks_reading disk lba (n + 1)) 100000 hat with ⟨hr, hlt, hwait⟩ | ⟨hr, hno⟩
      · obtain ⟨hdst, hwords⟩ := readWords_spec (hwait.at hsel) (s * 256) dst
        rw [← waitDrq] at hr hwait hdst hwords
        have hmoves := hwait.trans hwords
        have hnext : 0 < n → Bus.At (readWords pl.1.base (s * 256) dst (waitDrq pl.1.base b).2).2 pl
            ⟨disk, .reading (lba + 1) n⟩ := by
          intro hn
          have hat' := hmoves.at hsel
          rwa [Phase.afterSector, if_pos (by omega), Nat.add_sub_cancel] at hat'
        rw [if_neg (by omega)]
        rcases ih (hmoves.at hsel).selected hnext (s := s + 1)
          (readWords pl.1.base (s * 256) dst (waitDrq pl.1.base b).2).1 with ⟨hres, hle, hbuf⟩ | ⟨hres, hno⟩
        · refine .inl ⟨hres, fun _ => ?_, ?_⟩
          · by_cases hn : 0 < n
            · have := hle hn
              omega
            · omega
          · rw [hbuf, hdst]
            exact sectors_succ disk.sector dst lba s n
        · refine .inr ⟨hres, fun hok => ?_⟩
          have hhealthy := hok.2.moves hmoves
          exact hno ⟨by omega, hhealthy⟩
      · rw [← waitDrq] at hr
        rw [if_pos hr]
        refine .inr ⟨show (-1 : Int) < 0 by decide, fun hok => ?_⟩
        have hanswers := hok.2.answers
        exact hno ⟨by omega, hanswers⟩

/-! ## The call -/

/-- After a command the drive is selected and has got it. -/
theorem issue_driveTable (found : UInt8 → Bool) (drv : UInt8) (lba : UInt32) {count : UInt8}
    (hcount : count ≠ 0)
    (cmd : UInt8) (b : Bus) : ∃ r : Regs, r.lba = lba.toNat % 2 ^ 28 ∧ r.count = count.toNat ∧
      (issue (driveTable found drv) lba count cmd b).selected (place drv).1 = place drv ∧
      (issue (driveTable found drv) lba count cmd b).polls = b.polls ∧
      (issue (driveTable found drv) lba count cmd b).drives =
        Function.update b.drives (place drv) ((b.drives (place drv)).map fun d => d.command r cmd) := by
  obtain ⟨r, hlba, hcnt, hissue, hsel⟩ := issue_spec (found drv) lba hcount cmd (place drv) b
  rw [← driveTable] at hissue
  refine ⟨r, hlba, hcnt, ?_, ?_, ?_⟩
  · rw [hissue, Bus.selected]
    dsimp only
    rw [Function.update_self]
    exact hsel
  · rw [hissue]
  · rw [hissue]

/-- A command stores nothing. -/
theorem command_disk (d : Drive) (r : Regs) (c : UInt8) : (d.command r c).disk = d.disk := by
  rw [Drive.command]
  split_ifs <;> rfl

/-- After `wait_busy` and a command no sector has changed, and the drive, if there is one, has got the
command. -/
theorem issued_drive (found : UInt8 → Bool) (drv : UInt8) (lba : UInt32) {count : UInt8}
    (hcount : count ≠ 0) (cmd : UInt8) {b b' : Bus}
    (hb' : b' = issue (driveTable found drv) lba count cmd (waitBusy (place drv).1.base b).2) :
    b'.selected (place drv).1 = place drv ∧ b'.disks = b.disks ∧ (b'.drives (place drv) = none ∨
      ∃ (d : Drive) (r : Regs), b.disks (place drv) = some d.disk ∧ r.lba = lba.toNat % 2 ^ 28 ∧
        r.count = count.toNat ∧ b'.At (place drv) (d.command r cmd)) := by
  obtain ⟨-, hdisks⟩ := waitBusyFrom_frame (place drv).1 100000 b
  rw [← waitBusy] at hdisks
  obtain ⟨r, hlba, hcnt, hsel, -, hdrives⟩ := issue_driveTable found drv lba hcount cmd
    (waitBusy (place drv).1.base b).2
  rw [← hb'] at hsel hdrives
  have hsame : b'.disks = b.disks := by
    rw [← hdisks]
    funext p
    rw [Bus.disks, hdrives, Bus.disks]
    by_cases hp : p = place drv
    · rw [hp, Function.update_self, Option.map_map]
      exact congrArg (Option.map · _) (funext fun d => command_disk d r cmd)
    · rw [Function.update_of_ne hp]
  have hself := congrFun hdrives (place drv)
  rw [Function.update_self] at hself
  refine ⟨hsel, hsame, ?_⟩
  cases hd : (waitBusy (place drv).1.base b).2.drives (place drv) with
  | none =>
      rw [hd, Option.map_none] at hself
      exact .inl hself
  | some d =>
      rw [hd, Option.map_some] at hself
      refine .inr ⟨d, r, ?_, hlba, hcnt, hsel, hself⟩
      rw [← hdisks, Bus.disks, hd, Option.map_some]

/-- A drive at rest gets the command. -/
theorem issued_of_idle (found : UInt8 → Bool) (drv : UInt8) (lba : UInt32) {count : UInt8}
    (hcount : count ≠ 0) (cmd : UInt8) {b b' : Bus} (hidle : b.At (place drv) ⟨disk, .idle false⟩)
    (hhealthy : Healthy b.polls)
    (hb' : b' = issue (driveTable found drv) lba count cmd (waitBusy (place drv).1.base b).2) :
    (waitBusy (place drv).1.base b).1 = 0 ∧ Healthy b'.polls ∧
      ∃ r : Regs, r.lba = lba.toNat % 2 ^ 28 ∧ r.count = count.toNat ∧
        b'.At (place drv) (Drive.command ⟨disk, .idle false⟩ r cmd) := by
  obtain ⟨hbusy, hmoves⟩ := waitBusyFrom_idle (n := 100000) (by decide) hidle
  rw [← waitBusy] at hbusy hmoves
  obtain ⟨r, hlba, hcnt, hsel, hpolls, hdrives⟩ := issue_driveTable found drv lba hcount cmd
    (waitBusy (place drv).1.base b).2
  rw [← hb'] at hsel hpolls hdrives
  have hself := congrFun hdrives (place drv)
  rw [Function.update_self, (hmoves.at hidle.selected).drive, Option.map_some] at hself
  refine ⟨hbusy, ?_, r, hlba, hcnt, hsel, hself⟩
  rw [hpolls]
  exact hhealthy.moves hmoves

/-- A drive that was found is in the table. -/
theorem present_driveTable {found : UInt8 → Bool} {drv : UInt8} (hdrv : drv < ataMaxDrives)
    (hfound : found drv = true) : ¬ (drv ≥ ataMaxDrives ∨ (driveTable found drv).present = false) := by
  rintro (hge | habsent)
  · exact absurd hdrv (UInt8.not_lt.mpr hge)
  · rw [driveTable, hfound] at habsent
    cases habsent

/-- The result of a read is an error, or the sectors `lba` to `lba + count - 1` of the drive are
in the buffer and nothing else has changed in it. -/
def Reads (b : Bus) (pl : Place) (lba count : Nat) (dst : Nat → UInt16)
    (r : Int × (Nat → UInt16) × Bus) : Prop :=
  r.1 < 0 ∨ r.1 = 0 ∧ ∃ disk, b.disks pl = some disk ∧ lba + count ≤ disk.size ∧
    r.2.1 = fun j => if j < 256 * count then disk.sector (lba + j / 256) (j % 256) else dst j

/-- `ata_read` on a drive that was found. -/
theorem ataRead_of_present {drives : UInt8 → AtaDrive} {drv : UInt8}
    (h : ¬ (drv ≥ ataMaxDrives ∨ (drives drv).present = false)) (lba : UInt32) (count : UInt8)
    (dst : Nat → UInt16) (b : Bus) : ataRead drives drv lba count dst b =
      if (waitBusy (drives drv).base b).1 < 0 then (-1, dst, (waitBusy (drives drv).base b).2)
      else readSectors (drives drv).base count.toNat 0 dst
        (issue (drives drv) lba count cmdReadPio (waitBusy (drives drv).base b).2) :=
  if_neg h

/-- `ata_read` reads from the lower 28 bits of the sector number on. -/
theorem ataRead_spec (found : UInt8 → Bool) (drv : UInt8) (lba : UInt32) (count : UInt8)
    (hcount : count ≠ 0) (dst : Nat → UInt16) (b : Bus) :
    Reads b (place drv) (lba.toNat % 2 ^ 28) count.toNat dst
      (ataRead (driveTable found) drv lba count dst b) := by
  have hneg : (-1 : Int) < 0 := by decide
  have hpos : 0 < count.toNat := Nat.pos_of_ne_zero fun h0 => hcount (UInt8.toNat_inj.mp h0)
  by_cases habsent : drv ≥ ataMaxDrives ∨ (driveTable found drv).present = false
  · rw [ataRead, if_pos habsent]
    exact .inl hneg
  rw [ataRead_of_present habsent, show (driveTable found drv).base = (place drv).1.base from rfl]
  split_ifs with hbusy
  · exact .inl hneg
  obtain ⟨hsel, -, hnone | ⟨d, r, hdisk, hlba, hcnt, hat⟩⟩ :=
    issued_drive found drv lba hcount cmdReadPio (b := b) rfl
  · -- nothing answers
    obtain ⟨n, hn⟩ := Nat.exists_eq_succ_of_ne_zero hpos.ne'
    have hwait := waitDrqFrom_none 100000 hsel hnone
    rw [← waitDrq] at hwait
    rw [hn, readSectors, if_pos hwait]
    exact .inl hneg
  · rw [Drive.command, if_pos rfl, hlba, hcnt] at hat
    rcases readSectors_spec (s := 0) hsel (fun _ => hat) dst with ⟨hres, hle, hbuf⟩ | ⟨hres, -⟩
    · refine .inr ⟨hres, d.disk, hdisk, hle hpos, hbuf.trans ?_⟩
      funext j
      rw [Nat.mul_zero, Nat.zero_add, Nat.sub_zero]
      exact if_congr (and_iff_right (Nat.zero_le j)) rfl rfl
    · exact .inl hres

/-- A drive that is at rest and healthy gives its sectors. -/
theorem ataRead_of_healthy (found : UInt8 → Bool) (drv : UInt8) (lba : UInt32) (count : UInt8)
    (dst : Nat → UInt16) (hdrv : drv < ataMaxDrives) (hfound : found drv = true) (hcount : count ≠ 0)
    {b : Bus} (hidle : b.At (place drv) ⟨disk, .idle false⟩) (hhealthy : Healthy b.polls)
    (hle : lba.toNat % 2 ^ 28 + count.toNat ≤ disk.size) :
    (ataRead (driveTable found) drv lba count dst b).1 = 0 := by
  obtain ⟨hbusy, hpolls, r, hlba, hcnt, hat⟩ :=
    issued_of_idle found drv lba hcount cmdReadPio hidle hhealthy rfl
  rw [Drive.command, if_pos rfl, hlba, hcnt] at hat
  rw [ataRead_of_present (present_driveTable hdrv hfound),
    show (driveTable found drv).base = (place drv).1.base from rfl, hbusy, if_neg (Int.lt_irrefl 0)]
  rcases readSectors_spec (s := 0) hat.selected (fun _ => hat) dst with ⟨hres, -⟩ | ⟨-, hno⟩
  · exact hres
  · exact absurd ⟨hle, hpolls⟩ hno

/-- The drive at a place with every sector number, at rest; the other places are empty. -/
def oneDrive (pl : Place) (sector : Nat → Nat → UInt16) : Bus where
  drives p := if p = pl then some ⟨⟨2 ^ 28, le_rfl, sector⟩, .idle false⟩ else none
  regs _ := ⟨if pl.2 then 0x10 else 0, 0, 0, 0, 0⟩
  polls _ := .ready

theorem healthy_ready : Healthy fun _ => .ready :=
  ⟨fun _ => show Poll.ready ≠ .fail by decide, fun _ => ⟨0, by decide, rfl⟩⟩

theorem oneDrive_at (pl : Place) (sector : Nat → Nat → UInt16) :
    (oneDrive pl sector).At pl ⟨⟨2 ^ 28, le_rfl, sector⟩, .idle false⟩ where
  selected := by
    have hbit : ∀ slave : Bool, (if slave then 0x10 else 0 : UInt8).toNat.testBit 4 = slave := by decide
    exact congrArg (Prod.mk pl.1) (hbit pl.2)
  drive := if_pos rfl

/-- Reads give the sectors that were asked for, or fail, if and only if the sector number has 28
bits or what is left of it reaches past the last sector number. -/
theorem ataRead_iff (drv : UInt8) (lba : UInt32) (count : UInt8) (hcount : count ≠ 0) :
    (∀ (found : UInt8 → Bool) (dst : Nat → UInt16) (b : Bus), Reads b (place drv) lba.toNat count.toNat dst
        (ataRead (driveTable found) drv lba count dst b)) ↔
      4 ≤ drv ∨ lba.toNat < 2 ^ 28 ∨ 2 ^ 28 < lba.toNat % 2 ^ 28 + count.toNat := by
  constructor
  · intro hreads
    by_contra hno
    rw [not_or, not_or, UInt8.not_le, Nat.not_lt, Nat.not_lt] at hno
    obtain ⟨hdrv, hlba, hle⟩ := hno
    -- a drive that has the selected sectors and gives them
    have hok := ataRead_of_healthy (fun _ => true) drv lba count (fun _ => 0) hdrv rfl hcount
      (oneDrive_at (place drv) fun _ _ => 0) healthy_ready hle
    rcases hreads (fun _ => true) (fun _ => 0) (oneDrive (place drv) fun _ _ => 0) with
      hneg | ⟨-, disk, -, hsize, -⟩
    · omega
    · have hpos : count.toNat ≠ 0 := fun h0 => hcount (UInt8.toNat_inj.mp h0)
      have := disk.size_le
      omega
  · rintro hcond found dst b
    rcases hcond with hdrv | hlba | hpast
    · rw [ataRead, if_pos (.inl hdrv)]
      exact .inl (show (-1 : Int) < 0 by decide)
    · have hspec := ataRead_spec found drv lba count hcount dst b
      rwa [Nat.mod_eq_of_lt hlba] at hspec
    · rcases ataRead_spec found drv lba count hcount dst b with hneg | ⟨-, disk, -, hsize, -⟩
      · exact .inl hneg
      · have := disk.size_le
        omega

/-- The last two sectors: both sides hold. -/
theorem ataRead_iff_lastSectors :
    ((∀ (found : UInt8 → Bool) (dst : Nat → UInt16) (b : Bus), Reads b (place 3) 0xFFFFFFE 2 dst
        (ataRead (driveTable found) 3 0xFFFFFFE 2 dst b)) ↔
      4 ≤ (3 : UInt8) ∨ 0xFFFFFFE < 2 ^ 28 ∨ 2 ^ 28 < 0xFFFFFFE % 2 ^ 28 + 2) ∧ 0xFFFFFFE < 2 ^ 28 :=
  ⟨ataRead_iff 3 0xFFFFFFE 2 (by decide), by decide⟩

/-- Sector `2 ^ 28` of a drive whose sector 0 holds ones: the call succeeds and the buffer holds
ones. -/
theorem ataRead_wraps : ∃ (dst : Nat → UInt16) (b : Bus),
    (ataRead (driveTable fun _ => true) 0 0x10000000 1 dst b).1 = 0 ∧
      (ataRead (driveTable fun _ => true) 0 0x10000000 1 dst b).2.1 0 = 1 ∧
      ¬ Reads b (.primary, false) 0x10000000 1 dst (ataRead (driveTable fun _ => true) 0 0x10000000 1 dst b) := by
  have hok := ataRead_of_healthy (fun _ => true) 0 0x10000000 1 (fun _ => 0) (by decide) rfl (by decide)
    (oneDrive_at (place 0) fun lba _ => if lba = 0 then 1 else 0) healthy_ready (by decide)
  refine ⟨fun _ => 0, _, hok, ?_, ?_⟩
  · rcases ataRead_spec (fun _ => true) 0 0x10000000 1 (by decide) (fun _ => 0)
      (oneDrive (place 0) fun lba _ => if lba = 0 then 1 else 0) with hneg | ⟨-, disk, hdisk, -, hbuf⟩
    · omega
    · cases hdisk
      rw [hbuf]
      rfl
  · rintro (hneg | ⟨-, disk, -, hsize, -⟩)
    · omega
    · have := disk.size_le
      omega

end Ata

end Aerogel
