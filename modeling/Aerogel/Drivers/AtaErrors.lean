import Aerogel.Foundations.Run
import Aerogel.Drivers.AtaWrites

/-! # ATA drives that have failed

A drive that has ended a command with an error shows it in its status until it gets another command. But
`ata_read` and `ata_write` begin with `wait_busy`, which fails as long as the error is shown, so that there is
no other command. `wait_busy` asks the drive that is selected, and it stays selected: the other drive of the
channel is out of reach as well. `channel_lost` follows a channel from the first read that fails on. -/

namespace Aerogel

namespace Ata

/-! ## Calls -/

/-- A call of the driver. -/
inductive AtaCall
  /-- `ata_read`. -/
  | read (drv : UInt8) (lba : UInt32) (count : UInt8) (dst : Nat → UInt16)
  /-- `ata_write`. -/
  | write (drv : UInt8) (lba : UInt32) (count : UInt8) (src : Nat → UInt16)

/-- The drive that is asked for. -/
def AtaCall.drv : AtaCall → UInt8
  | .read drv _ _ _ => drv
  | .write drv _ _ _ => drv

/-- Its result, and the drives. -/
def AtaCall.run (drives : UInt8 → AtaDrive) (b : Bus) : AtaCall → Int × Bus
  | .read drv lba count dst => ((ataRead drives drv lba count dst b).1, (ataRead drives drv lba count dst b).2.2)
  | .write drv lba count src => ataWrite drives drv lba count src b

/-! ## Channels -/

/-- Nothing has happened on a channel. -/
structure SameChannel (ch : Channel) (b b' : Bus) : Prop where
  /-- The registers. -/
  regs : b'.regs ch = b.regs ch
  /-- The drives. -/
  drives : ∀ slave, b'.drives (ch, slave) = b.drives (ch, slave)

namespace SameChannel

variable {ch ch' : Channel} {b b' b'' : Bus}

theorem refl (ch : Channel) (b : Bus) : SameChannel ch b b := ⟨rfl, fun _ => rfl⟩

theorem trans (h : SameChannel ch b b') (h' : SameChannel ch b' b'') : SameChannel ch b b'' :=
  ⟨h'.regs.trans h.regs, fun slave => (h'.drives slave).trans (h.drives slave)⟩

theorem selected (h : SameChannel ch b b') : b'.selected ch = b.selected ch := by
  rw [Bus.selected, h.regs, Bus.selected]

/-- A drive of the other channel has changed. -/
theorem setDrive (hne : ch' ≠ ch) (slave : Bool) (d : Drive) (b : Bus) :
    SameChannel ch b (b.setDrive (ch', slave) d) := by
  refine ⟨rfl, fun slave' => Function.update_of_ne ?_ _ _⟩
  intro heq
  exact hne (congrArg Prod.fst heq).symm

theorem setRegs (hne : ch' ≠ ch) (f : Regs → Regs) (b : Bus) : SameChannel ch b (b.setRegs ch' f) :=
  ⟨Function.update_of_ne hne.symm _ _, fun _ => rfl⟩

/-! The accesses to the other channel. -/

theorem inb (hne : ch' ≠ ch) (b : Bus) : SameChannel ch b (inb (ch'.base + 7) b).2 := by
  simp only [Ata.inb, register_base (show 7 < 8 by decide)]
  cases b.drives (b.selected ch') with
  | none => exact refl ch b
  | some d => exact ⟨rfl, (setDrive hne _ _ b).drives⟩

theorem inw (hne : ch' ≠ ch) (b : Bus) : SameChannel ch b (inw ch'.base b).2 := by
  have hreg := register_base (show 0 < 8 by decide) ch'
  simp only [Ata.inw, Nat.add_zero _ ▸ hreg]
  cases b.drives (b.selected ch') with
  | none => exact refl ch b
  | some d => exact setDrive hne _ _ b

theorem outw (hne : ch' ≠ ch) (v : UInt16) (b : Bus) : SameChannel ch b (outw ch'.base v b) := by
  have hreg := register_base (show 0 < 8 by decide) ch'
  simp only [Ata.outw, Nat.add_zero _ ▸ hreg]
  cases b.drives (b.selected ch') with
  | none => exact refl ch b
  | some d => exact setDrive hne _ _ b

theorem outb (hne : ch' ≠ ch) {k : Nat} (hk : k < 8) (v : UInt8) (b : Bus) :
    SameChannel ch b (outb (ch'.base + k) v b) := by
  rw [Ata.outb, register_base hk]
  split
  case h_6 heq =>
    cases heq
    cases b.drives (b.selected ch') with
    | none => exact refl ch b
    | some d => exact setDrive hne _ _ b
  case h_7 => exact refl ch b
  all_goals
    rename_i heq
    cases heq
    exact setRegs hne _ b

/-! Its calls. -/

theorem waitBusyFrom (hne : ch' ≠ ch) (n : Nat) (b : Bus) :
    SameChannel ch b (waitBusyFrom ch'.base n b).2 := by
  induction n generalizing b with
  | zero => exact refl ch b
  | succ n ih =>
      rw [Ata.waitBusyFrom]
      split_ifs
      · exact inb hne b
      · exact inb hne b
      · exact (inb hne b).trans (ih _)

theorem waitDrqFrom (hne : ch' ≠ ch) (n : Nat) (b : Bus) : SameChannel ch b (waitDrqFrom ch'.base n b).2 := by
  induction n generalizing b with
  | zero => exact refl ch b
  | succ n ih =>
      rw [Ata.waitDrqFrom]
      split_ifs
      · exact inb hne b
      · exact inb hne b
      · exact (inb hne b).trans (ih _)

theorem issue (hne : ch' ≠ ch) {d : AtaDrive} (hbase : d.base = ch'.base) (lba : UInt32) (count cmd : UInt8)
    (b : Bus) : SameChannel ch b (issue d lba count cmd b) := by
  rw [Ata.issue, hbase]
  have hdrive := outb hne (show 6 < 8 by decide) (driveByte d.slave lba) b
  have hcount := hdrive.trans (outb hne (show 2 < 8 by decide) count _)
  have hlo := hcount.trans (outb hne (show 3 < 8 by decide) (lba &&& 0xFF).toUInt8 _)
  have hmid := hlo.trans (outb hne (show 4 < 8 by decide) ((lba >>> 8) &&& 0xFF).toUInt8 _)
  have hhi := hmid.trans (outb hne (show 5 < 8 by decide) ((lba >>> 16) &&& 0xFF).toUInt8 _)
  exact hhi.trans (outb hne (show 7 < 8 by decide) cmd _)

theorem readSectors (hne : ch' ≠ ch) (n s : Nat) (dst : Nat → UInt16) (b : Bus) :
    SameChannel ch b (readSectors ch'.base n s dst b).2.2 := by
  induction n generalizing s dst b with
  | zero => exact refl ch b
  | succ n ih =>
      have hwait := waitDrqFrom hne 100000 b
      rw [Ata.readSectors]
      dsimp only
      split_ifs
      · exact hwait
      · refine (hwait.trans ?_).trans (ih _ _ _)
        refine forRange_induction
          (P := fun _ (st : (Nat → UInt16) × Bus) => SameChannel ch (waitDrq ch'.base b).2 st.2) (refl ch _) ?_
        exact fun _ st _ _ h => h.trans (inw hne st.2)

theorem writeSectors (hne : ch' ≠ ch) (src : Nat → UInt16) (n s : Nat) (b : Bus) :
    SameChannel ch b (writeSectors ch'.base src n s b).2 := by
  induction n generalizing s b with
  | zero => exact refl ch b
  | succ n ih =>
      have hwait := waitDrqFrom hne 100000 b
      have hwords : SameChannel ch b (writeWords ch'.base (s * 256) src (waitDrq ch'.base b).2) := by
        refine hwait.trans ?_
        refine forRange_induction (P := fun _ b' => SameChannel ch (waitDrq ch'.base b).2 b') (refl ch _) ?_
        exact fun _ b' _ _ h => h.trans (outw hne _ b')
      have hflush := (hwords.trans (outb hne (show 7 < 8 by decide) cmdFlush _)).trans
        (waitBusyFrom hne 100000 _)
      rw [Ata.writeSectors]
      dsimp only
      split_ifs
      · exact hwait
      · exact hflush
      · exact hflush.trans (ih _ _)

/-- A call for a drive of the other channel. -/
theorem run {found : UInt8 → Bool} {c : AtaCall} (hne : (place c.drv).1 ≠ ch) (b : Bus) :
    SameChannel ch b (c.run (driveTable found) b).2 := by
  have hbusy := waitBusyFrom hne 100000 b
  cases c with
  | read drv lba count dst =>
      rw [AtaCall.run, ataRead]
      split_ifs
      · exact refl ch b
      · dsimp only
        split_ifs
        · exact hbusy
        · exact (hbusy.trans (issue hne rfl lba count cmdReadPio _)).trans (readSectors hne _ _ dst _)
  | write drv lba count src =>
      rw [AtaCall.run, ataWrite]
      split_ifs
      · exact refl ch b
      · dsimp only
        split_ifs
        · exact hbusy
        · exact (hbusy.trans (issue hne rfl lba count cmdWritePio _)).trans (writeSectors hne src _ _ _)

end SameChannel

/-! ## Errors stay -/

/-- The selected drive of a channel shows an error. -/
def Stuck (ch : Channel) (b : Bus) : Prop := ∃ disk, b.drives (b.selected ch) = some ⟨disk, .idle true⟩

variable {ch : Channel} {b b' : Bus}

theorem Stuck.same (h : Stuck ch b) (hsame : SameChannel ch b b') : Stuck ch b' := by
  obtain ⟨disk, hdisk⟩ := h
  refine ⟨disk, ?_⟩
  rw [hsame.selected]
  exact (hsame.drives _).trans hdisk

/-- `wait_busy` sees the error. -/
theorem Stuck.waitBusy (h : Stuck ch b) :
    (waitBusy ch.base b).1 = -1 ∧ SameChannel ch b (Ata.waitBusy ch.base b).2 := by
  obtain ⟨disk, hdisk⟩ := h
  have hat : b.At (b.selected ch) ⟨disk, .idle true⟩ := ⟨rfl, hdisk⟩
  obtain ⟨hflags, hmoves, -⟩ := hat.inb
  have hstatus : Drive.status ⟨disk, .idle true⟩ (b.polls 0) = (srDrdy ||| srErr, ⟨disk, .idle true⟩) := rfl
  rw [hstatus] at hflags hmoves
  have hsel : (b.selected ch).1 = ch := rfl
  rw [hsel] at hflags hmoves
  -- the first look at the status ends the wait
  have hwait : Ata.waitBusy ch.base b = (-1, (inb (ch.base + 7) b).2) := by
    rw [Ata.waitBusy, waitBusyFrom, hflags, if_pos (show (srDrdy ||| srErr) &&& srBsy = 0 by decide),
      if_pos (show (srDrdy ||| srErr) &&& srErr ≠ 0 by decide)]
  rw [hwait]
  refine ⟨rfl, congrFun hmoves.regs ch, fun slave => ?_⟩
  rw [hmoves.drives, ← hdisk, Function.update_eq_self]

/-- A call for a drive of the channel fails, and no call changes anything on the channel. -/
theorem Stuck.run (h : Stuck ch b) (found : UInt8 → Bool) (c : AtaCall) :
    SameChannel ch b (c.run (driveTable found) b).2 ∧
      ((place c.drv).1 = ch → (c.run (driveTable found) b).1 = -1) := by
  by_cases hch : (place c.drv).1 = ch
  · obtain ⟨hresult, hsame⟩ := h.waitBusy
    have hneg : (-1 : Int) < 0 := by decide
    have hbase : (driveTable found c.drv).base = ch.base := congrArg Channel.base hch
    -- either there is no such drive, or `wait_busy` fails
    by_cases habsent : c.drv ≥ ataMaxDrives ∨ (driveTable found c.drv).present = false
    · cases c with
      | read drv lba count dst =>
          have hread : ataRead (driveTable found) drv lba count dst b = (-1, dst, b) := if_pos habsent
          rw [AtaCall.run, hread]
          exact ⟨.refl ch b, fun _ => rfl⟩
      | write drv lba count src =>
          have hwrite : ataWrite (driveTable found) drv lba count src b = (-1, b) := if_pos habsent
          rw [AtaCall.run, hwrite]
          exact ⟨.refl ch b, fun _ => rfl⟩
    · cases c with
      | read drv lba count dst =>
          rw [AtaCall.run, @ataRead_of_present _ drv habsent,
            show (driveTable found drv).base = ch.base from hbase, hresult, if_pos hneg]
          exact ⟨hsame, fun _ => rfl⟩
      | write drv lba count src =>
          rw [AtaCall.run, @ataWrite_of_present _ drv habsent,
            show (driveTable found drv).base = ch.base from hbase, hresult, if_pos hneg]
          exact ⟨hsame, fun _ => rfl⟩
  · exact ⟨.run hch b, fun heq => absurd heq hch⟩

/-- A channel whose selected drive shows an error is as it was after any calls. -/
theorem Stuck.calls {found : UInt8 → Bool} {calls : List AtaCall}
    (hrun : Run (fun b c b' => b' = (c.run (driveTable found) b).2) b calls b') (h : Stuck ch b) :
    SameChannel ch b b' := by
  induction hrun with
  | nil b => exact .refl ch b
  | cons hstep _ ih =>
      obtain ⟨hsame, -⟩ := h.run found _
      rw [← hstep] at hsame
      exact hsame.trans (ih (h.same hsame))

/-! ## The first error -/

/-- A drive is at rest, and so is whatever drive is selected on its channel, since that is the one `wait_busy`
asks. -/
structure AtRest (pl : Place) (disk : Disk) (b : Bus) : Prop where
  /-- The drive. -/
  drive : b.drives pl = some ⟨disk, .idle false⟩
  /-- The selected one. -/
  selected : ∀ d, b.drives (b.selected pl.1) = some d → ∃ disk', d = ⟨disk', .idle false⟩

/-- Drives do not stay busy for as long as they are waited for, though they may fail. -/
def Punctual (polls : Nat → Poll) : Prop := ∀ i, ∃ j < 100000, polls (i + j) ≠ .busy

variable {pl : Place} {disk : Disk} {lba left n : Nat}

/-- Some answers were used up. -/
theorem Punctual.later {polls : Nat → Poll} (h : Punctual polls) (k : Nat) : Punctual fun i => polls (i + k) := by
  intro i
  obtain ⟨j, hj, hanswer⟩ := h (i + k)
  exact ⟨j, hj, by rwa [Nat.add_right_comm] at hanswer⟩

theorem Healthy.later {polls : Nat → Poll} (h : Healthy polls) (k : Nat) : Healthy fun i => polls (i + k) := by
  refine ⟨fun i => h.1 (i + k), fun i => ?_⟩
  obtain ⟨j, hj, hanswer⟩ := h.2 (i + k)
  exact ⟨j, hj, by rwa [Nat.add_right_comm] at hanswer⟩

theorem Punctual.moves {d : Drive} (h : Punctual b.polls) (hm : Bus.Moves pl b b' d) : Punctual b'.polls := by
  obtain ⟨k, hk⟩ := hm.polls
  rw [hk]
  exact h.later k

/-- `wait_busy` finds nothing to wait for. -/
theorem AtRest.waitBusy (h : AtRest pl disk b) :
    (waitBusy pl.1.base b).1 = 0 ∧ (Ata.waitBusy pl.1.base b).2.drives = b.drives ∧
      ∃ k, (Ata.waitBusy pl.1.base b).2.polls = fun i => b.polls (i + k) := by
  cases hsel : b.drives (b.selected pl.1) with
  | none =>
      -- no drive is selected, and the bus reads 0
      have hinb : inb (pl.1.base + 7) b = (0, b) := by
        simp only [inb, register_base (show 7 < 8 by decide), hsel]
      have hwait : Ata.waitBusy pl.1.base b = (0, b) := by
        rw [Ata.waitBusy, waitBusyFrom, hinb, if_pos (show (0 : UInt8) &&& srBsy = 0 by decide),
          if_neg (show ¬ (0 : UInt8) &&& srErr ≠ 0 by decide)]
      rw [hwait]
      exact ⟨rfl, rfl, 0, rfl⟩
  | some d =>
      obtain ⟨disk', rfl⟩ := h.selected d hsel
      have hat : b.At (b.selected pl.1) ⟨disk', .idle false⟩ := ⟨rfl, hsel⟩
      obtain ⟨hresult, hmoves⟩ := waitBusyFrom_idle (n := 100000) (by decide) hat
      refine ⟨hresult, ?_, hmoves.polls⟩
      exact hmoves.drives.trans (by rw [← hsel, Function.update_eq_self])

/-- A drive that was told to read a sector finds it or shows an error. -/
theorem waitDrqFrom_reading (h : b.At pl ⟨disk, .reading lba left⟩) (hpolls : ∃ j < n, b.polls j ≠ .busy) :
    ((waitDrqFrom pl.1.base n b).1 = 0 ∧
        Bus.Moves pl b (waitDrqFrom pl.1.base n b).2 ⟨disk, .sending lba left 0⟩) ∨
      ((waitDrqFrom pl.1.base n b).1 = -1 ∧
        Bus.Moves pl b (waitDrqFrom pl.1.base n b).2 ⟨disk, .idle true⟩) := by
  have herr : (srDrdy ||| srErr) &&& srErr ≠ 0 := by decide
  induction n generalizing b with
  | zero =>
      obtain ⟨j, hj, -⟩ := hpolls
      exact absurd hj (Nat.not_lt_zero j)
  | succ n ih =>
      obtain ⟨hflags, hmoves, hrest⟩ := h.inb
      rw [waitDrqFrom, hflags]
      cases hp : b.polls 0 with
      | busy =>
          rw [hp, (seeks_reading disk lba left).busy] at hmoves
          rw [(seeks_reading disk lba left).busy, if_neg (show ¬ srBsy &&& srErr ≠ 0 by decide),
            if_neg (show ¬ srBsy &&& srDrq ≠ 0 by decide)]
          -- the answer that ends the wait is still to come
          have hlater : ∃ j < n, (inb (pl.1.base + 7) b).2.polls j ≠ .busy := by
            obtain ⟨j, hj, hne⟩ := hpolls
            obtain ⟨j, rfl⟩ := Nat.exists_eq_succ_of_ne_zero fun hj0 : j = 0 => hne (by rwa [hj0])
            exact ⟨j, Nat.lt_of_succ_lt_succ hj, by rwa [hrest]⟩
          exact (ih (hmoves.at h.selected) hlater).imp (.imp_right hmoves.trans) (.imp_right hmoves.trans)
      | fail =>
          have hstatus : Drive.status ⟨disk, .reading lba left⟩ .fail = (srDrdy ||| srErr, ⟨disk, .idle true⟩) := rfl
          rw [hp, hstatus] at hmoves
          rw [hstatus, if_pos herr]
          exact .inr ⟨rfl, hmoves⟩
      | ready =>
          by_cases hlba : lba < disk.size
          · rw [hp, (seeks_reading disk lba left).ready hlba] at hmoves
            rw [(seeks_reading disk lba left).ready hlba,
              if_neg (show ¬ (srDrdy ||| srDrq) &&& srErr ≠ 0 by decide),
              if_pos (show (srDrdy ||| srDrq) &&& srDrq ≠ 0 by decide)]
            exact .inl ⟨rfl, hmoves⟩
          · have hstatus : Drive.status ⟨disk, .reading lba left⟩ .ready =
                (srDrdy ||| srErr, ⟨disk, .idle true⟩) := if_neg hlba
            rw [hp, hstatus] at hmoves
            rw [hstatus, if_pos herr]
            exact .inr ⟨rfl, hmoves⟩

/-- The loop over the sectors ends with a drive at rest, or with one that shows an error. -/
theorem readSectors_ends {s : Nat} (h : b.At pl ⟨disk, if 0 < n then .reading lba n else .idle false⟩)
    (hpolls : Punctual b.polls) (dst : Nat → UInt16) :
    ((readSectors pl.1.base n s dst b).1 = 0 ∧
        Bus.Moves pl b (readSectors pl.1.base n s dst b).2.2 ⟨disk, .idle false⟩) ∨
      ((readSectors pl.1.base n s dst b).1 = -1 ∧
        Bus.Moves pl b (readSectors pl.1.base n s dst b).2.2 ⟨disk, .idle true⟩) := by
  induction n generalizing s lba dst b with
  | zero => exact .inl ⟨rfl, h.moves_refl⟩
  | succ n ih =>
      rw [if_pos (Nat.succ_pos n)] at h
      have hsel := h.selected
      have hanswer := hpolls 0
      simp only [Nat.zero_add] at hanswer
      rw [readSectors]
      rcases waitDrqFrom_reading h hanswer with ⟨hr, hwait⟩ | ⟨hr, hwait⟩
      · obtain ⟨-, hwords⟩ := readWords_spec (hwait.at hsel) (s * 256) dst
        rw [← waitDrq] at hr hwait hwords
        have hmoves := hwait.trans hwords
        rw [hr, if_neg (Int.lt_irrefl 0)]
        have hnext : Phase.afterSector .reading lba (n + 1) = if 0 < n then .reading (lba + 1) n else .idle false :=
          if_congr (Nat.lt_add_left_iff_pos ..) rfl rfl
        rw [hnext] at hmoves
        exact (ih (hmoves.at hsel) (hpolls.moves hmoves) _).imp (.imp_right hmoves.trans) (.imp_right hmoves.trans)
      · rw [← waitDrq] at hr hwait
        rw [hr, if_pos (show (-1 : Int) < 0 by decide)]
        exact .inr ⟨rfl, hwait⟩

/-- A read of a drive at rest that fails leaves the drive selected, with the error. -/
theorem AtRest.stuck {found : UInt8 → Bool} {drv : UInt8} (h : AtRest (place drv) disk b) (hpolls : Punctual b.polls)
    (hdrv : drv < ataMaxDrives) (hfound : found drv = true) (lba : UInt32) {count : UInt8} (hcount : count ≠ 0)
    (dst : Nat → UInt16) (hfail : (ataRead (driveTable found) drv lba count dst b).1 < 0) :
    Stuck (place drv).1 (ataRead (driveTable found) drv lba count dst b).2.2 ∧
      (ataRead (driveTable found) drv lba count dst b).2.2.disks = b.disks := by
  obtain ⟨hbusy, hdrives, k, hk⟩ := h.waitBusy
  obtain ⟨r, -, hcnt, hsel, hpolls', hissued⟩ := issue_driveTable found drv lba hcount cmdReadPio
    (Ata.waitBusy (place drv).1.base b).2
  have hpos : 0 < count.toNat := Nat.pos_of_ne_zero fun h0 => hcount (UInt8.toNat_inj.mp h0)
  rw [ataRead_of_present (present_driveTable hdrv hfound), show (driveTable found drv).base = (place drv).1.base
    from rfl, hbusy, if_neg (Int.lt_irrefl 0)] at hfail ⊢
  generalize issue (driveTable found drv) lba count cmdReadPio (Ata.waitBusy (place drv).1.base b).2 = b₁
    at hsel hpolls' hissued hfail ⊢
  have hat : b₁.At (place drv) ⟨disk, if 0 < count.toNat then .reading r.lba count.toNat else .idle false⟩ := by
    refine ⟨hsel, ?_⟩
    rw [hissued, Function.update_self, hdrives, h.drive, Option.map_some, Drive.command, if_pos rfl, hcnt,
      if_pos hpos]
  have hpunctual : Punctual b₁.polls := by
    rw [hpolls', hk]
    exact hpolls.later k
  rcases readSectors_ends (s := 0) hat hpunctual dst with ⟨hr, -⟩ | ⟨-, hmoves⟩
  · omega
  · have hend := hmoves.at hsel
    refine ⟨⟨disk, by rw [hend.selected]; exact hend.drive⟩, ?_⟩
    have hsame : b₁.disks = b.disks := by
      funext p
      rw [Bus.disks, hissued, hdrives, Bus.disks]
      by_cases hp : p = place drv
      · rw [hp, Function.update_self, Option.map_map]
        exact congrArg (Option.map · _) (funext fun d => command_disk d r cmdReadPio)
      · rw [Function.update_of_ne hp]
    rw [hmoves.disks, hsame]
    have hdisk : some disk = b.disks (place drv) := by rw [Bus.disks, h.drive, Option.map_some]
    rw [hdisk, Function.update_eq_self]

/-- After a read of a drive at rest has failed, its channel is lost: every call for a drive of the channel
fails, whatever has been called for since then, and no sector on the channel changes. -/
theorem channel_lost {found : UInt8 → Bool} {drv : UInt8} (h : AtRest (place drv) disk b)
    (hpolls : Punctual b.polls) (hdrv : drv < ataMaxDrives) (hfound : found drv = true) (lba : UInt32)
    {count : UInt8} (hcount : count ≠ 0) (dst : Nat → UInt16)
    (hfail : (ataRead (driveTable found) drv lba count dst b).1 < 0) {calls : List AtaCall}
    (hrun : Run (fun b c b' => b' = (c.run (driveTable found) b).2)
      (ataRead (driveTable found) drv lba count dst b).2.2 calls b')
    {c : AtaCall} (hc : (place c.drv).1 = (place drv).1) :
    (c.run (driveTable found) b').1 = -1 ∧
      ∀ slave, (c.run (driveTable found) b').2.disks ((place drv).1, slave) = b.disks ((place drv).1, slave) := by
  obtain ⟨hstuck, hdisks⟩ := h.stuck hpolls hdrv hfound lba hcount dst hfail
  have hrest := hstuck.calls hrun
  obtain ⟨hlast, hresult⟩ := (hstuck.same hrest).run found c
  refine ⟨hresult hc, fun slave => ?_⟩
  rw [← hdisks, Bus.disks, (hrest.trans hlast).drives, Bus.disks]

/-- Two sectors from the last one on. -/
theorem channel_lost_pastEnd : (ataRead (driveTable fun _ => true) 0 0xFFFFFFF 2 (fun _ => 0)
      (oneDrive (place 0) fun _ _ => 0)).1 < 0 ∧
    (AtaCall.run (driveTable fun _ => true)
      (ataRead (driveTable fun _ => true) 0 0xFFFFFFF 2 (fun _ => 0) (oneDrive (place 0) fun _ _ => 0)).2.2
      (.read 0 0 1 fun _ => 0)).1 = -1 := by
  have hat := oneDrive_at (place 0) fun _ _ => 0
  have hrest : AtRest (place 0) ⟨2 ^ 28, le_rfl, fun _ _ => 0⟩ (oneDrive (place 0) fun _ _ => 0) := by
    refine ⟨hat.drive, fun d hd => ?_⟩
    rw [hat.selected, hat.drive] at hd
    exact ⟨_, (Option.some.inj hd).symm⟩
  have hpolls : Punctual (oneDrive (place 0) fun _ _ => 0).polls := fun i => ⟨0, by decide, Poll.noConfusion⟩
  have hfail : (ataRead (driveTable fun _ => true) 0 0xFFFFFFF 2 (fun _ => 0)
      (oneDrive (place 0) fun _ _ => 0)).1 < 0 := by
    rcases ataRead_spec (fun _ => true) 0 0xFFFFFFF 2 (by decide) (fun _ => 0)
      (oneDrive (place 0) fun _ _ => 0) with hneg | ⟨-, disk, -, hsize, -⟩
    · exact hneg
    · -- there is no second sector
      have hle := disk.size_le
      have hlast : (0xFFFFFFF : UInt32).toNat % 2 ^ 28 + (2 : UInt8).toNat = 2 ^ 28 + 1 := by decide
      omega
  exact ⟨hfail, (channel_lost hrest hpolls (by decide) rfl 0xFFFFFFF (by decide) (fun _ => 0) hfail (.nil _)
    (c := .read 0 0 1 fun _ => 0) rfl).1⟩

end Ata

end Aerogel
