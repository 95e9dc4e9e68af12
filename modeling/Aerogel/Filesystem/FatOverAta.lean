import Aerogel.Foundations.Run
import Aerogel.Filesystem.FatDialogue
import Aerogel.Drivers.AtaErrors

/-! # Files on an ATA drive

`kmain` mounts the volume at sector 2048 of a drive with `ata_read_cb` as its `read_sector`. The callback moves
words through the data register of the drive, and the drive's state goes from call to call. As long as the driver
asks for sectors that the drive has, each call delivers the sector and leaves the drive at rest
(`Ready.ataReadCb`), so that the FAT32 driver and the drive together are the FAT32 driver on an image:
`delivers_of_run` is about everything that happens to the volume after it was mounted. -/

namespace Aerogel

namespace Ata

/-! ## `ata_read_cb` -/

/-- A byte of a buffer of words. -/
def wordByte (words : Nat → UInt16) (i : Nat) : UInt8 :=
  if i % 2 = 0 then (words (i / 2)).toUInt8 else (words (i / 2) >>> 8).toUInt8

/-- The bytes of the first sector in a buffer of words. -/
def sectorOf (words : Nat → UInt16) : Sector := fun i => wordByte words i

/-- The bytes of a disk. -/
def Disk.bytes (disk : Disk) (lba : Nat) : Sector := sectorOf (disk.sector lba)

/-- `ata_read_cb`: the sector it delivers, `none` if it fails, and the drives. All words of the buffer are
written or none, so it does not matter what the buffer held. -/
def ataReadCb (drives : UInt8 → AtaDrive) (drv : UInt8) (b : Bus) (lba : Nat) : Option Sector × Bus :=
  let r := ataRead drives drv (UInt32.ofNat lba) 1 (fun _ => 0) b
  (if r.1 < 0 then none else some (sectorOf r.2.1), r.2.2)

/-! ## Drives at rest -/

/-- A drive that can be read. -/
structure Ready (pl : Place) (disk : Disk) (b : Bus) : Prop extends AtRest pl disk b where
  /-- Drives answer. -/
  healthy : Healthy b.polls

variable {pl : Place} {disk : Disk} {b : Bus}

/-- A call delivers the sector, and the drive is at rest again. -/
theorem Ready.ataReadCb {found : UInt8 → Bool} {drv : UInt8} (hdrv : drv < ataMaxDrives)
    (hfound : found drv = true) (h : Ready (place drv) disk b) {lba : Nat} (hlba : lba < disk.size) :
    (ataReadCb (driveTable found) drv b lba).1 = some (disk.bytes lba) ∧
      Ready (place drv) disk (Ata.ataReadCb (driveTable found) drv b lba).2 := by
  have hsize := disk.size_le
  have hofNat : (UInt32.ofNat lba).toNat = lba := UInt32.toNat_ofNat_of_lt' (show lba < 2 ^ 32 by omega)
  obtain ⟨hbusy, hdrives, k, hk⟩ := h.toAtRest.waitBusy
  -- the drive gets the command
  obtain ⟨r, hreg, hcount, hsel, hpolls, hissued⟩ := issue_driveTable found drv (UInt32.ofNat lba)
    (show (1 : UInt8) ≠ 0 by decide) cmdReadPio (Ata.waitBusy (place drv).1.base b).2
  rw [hofNat, Nat.mod_eq_of_lt (by omega)] at hreg
  generalize hb₁ : issue (driveTable found drv) (UInt32.ofNat lba) 1 cmdReadPio
    (Ata.waitBusy (place drv).1.base b).2 = b₁ at hsel hpolls hissued
  have hat : b₁.At (place drv) ⟨disk, .reading lba 1⟩ := by
    refine ⟨hsel, ?_⟩
    rw [hissued, Function.update_self, hdrives, h.drive, Option.map_some, Drive.command, if_pos rfl, hreg, hcount]
    rfl
  -- it finds the sector and sends it
  have hans : Healthy b₁.polls := by
    rw [hpolls, hk]
    exact h.healthy.later k
  obtain ⟨hdrq, -, hwait⟩ : (waitDrqFrom (place drv).1.base 100000 b₁).1 = 0 ∧ lba < disk.size ∧
      Bus.Moves (place drv) b₁ (waitDrqFrom (place drv).1.base 100000 b₁).2 ⟨disk, .sending lba 1 0⟩ :=
    (waitDrqFrom_of_seeks (seeks_reading disk lba 1) 100000 hat).resolve_right fun hno =>
      hno.2 ⟨hlba, hans.answers⟩
  obtain ⟨hdst, hwords⟩ := readWords_spec (hwait.at hsel) 0 fun _ => 0
  rw [← waitDrq] at hdrq hwait hdst hwords
  have hmoves := hwait.trans hwords
  have hrest : (Phase.afterSector .reading lba 1) = .idle false := if_neg (lt_irrefl 1)
  rw [hrest] at hmoves
  have hread : ataRead (driveTable found) drv (UInt32.ofNat lba) 1 (fun _ => 0) b =
      (0, (readWords (place drv).1.base 0 (fun _ => 0) (waitDrq (place drv).1.base b₁).2).1,
        (readWords (place drv).1.base 0 (fun _ => 0) (waitDrq (place drv).1.base b₁).2).2) := by
    rw [ataRead_of_present (present_driveTable hdrv hfound),
      show (driveTable found drv).base = (place drv).1.base from rfl, hbusy, if_neg (Int.lt_irrefl 0), hb₁,
      show (1 : UInt8).toNat = 0 + 1 from rfl, readSectors, hdrq, if_neg (Int.lt_irrefl 0)]
    rfl
  rw [Ata.ataReadCb, hread]
  dsimp only
  rw [if_neg (Int.lt_irrefl 0), hdst]
  refine ⟨congrArg some (funext fun i => ?_), ?_⟩
  · have hi := i.isLt
    have hword : i.val / 2 < 256 := by omega
    simp only [sectorOf, Disk.bytes, wordByte, Nat.zero_le, true_and, Nat.zero_add, if_pos hword, Nat.sub_zero]
  · have hidle := hmoves.at hsel
    refine ⟨⟨hidle.drive, fun d hd => ?_⟩, hans.moves hmoves⟩
    rw [hidle.selected, hidle.drive] at hd
    exact ⟨disk, (Option.some.inj hd).symm⟩

end Ata

open Ata (AtaDrive Bus Disk Ready ataReadCb driveTable place)

/-! ## Calls of the driver -/

/-- Drives and driver. -/
structure DiskRun where
  /-- The drives. -/
  bus : Bus
  /-- Memory and the calls of `read_sector`. -/
  fat : FatState

/-- The drive has answered what was asked for since `st`. -/
def AnsweredByAta (drives : UInt8 → AtaDrive) (drv : UInt8) (dev : Device) (st st' : FatState)
    (b b' : Bus) : Prop :=
  Answered (ataReadCb drives drv) dev st.asked.length (newlyAsked FatState.asked st st') b b'

/-- A call for a mounted volume, or something else. -/
inductive DataCall
  /-- `fat32_read_file`. -/
  | readFile (f : FatFile) (off : UInt64) (sz : UInt32) (buf : Nat)
  /-- `load_dir`. -/
  | loadDir (dir : FatDir) (heap : Blocks)
  /-- The rest of the kernel leaves the memory like this. -/
  | other (mem : Mem)

/-- What a call returns or fills in. -/
def DataCall.Result : DataCall → Type
  | .readFile .. => Nat
  | .loadDir .. => FatDir × Blocks
  | .other _ => Unit

/-- One call, with `ata_read_cb` behind it. -/
def DataStep (drives : UInt8 → AtaDrive) (drv : UInt8) (vol : FatVol) (s : DiskRun) :
    (c : DataCall) → c.Result → DiskRun → Prop
  | .readFile f off sz buf, n, s' => ∃ dev fuel,
      fat32ReadFile dev vol f off.toNat sz.toNat buf fuel s.fat = .ok (n, s'.fat) ∧
        AnsweredByAta drives drv dev s.fat s'.fat s.bus s'.bus
  | .loadDir dir heap, r, s' => ∃ dev fuel, loadDir dev vol dir heap fuel s.fat = .ok (r.1, r.2, s'.fat) ∧
      AnsweredByAta drives drv dev s.fat s'.fat s.bus s'.bus
  | .other mem, _, s' => s' = { s with fat := { s.fat with mem } }

/-! ## What there is on the drive -/

/-- The first `k` clusters of a chain are data clusters, and what they need is on a disk of `size` sectors. -/
structure ChainOn (img : FatImage) (size start k : Nat) : Prop where
  /-- Data clusters. -/
  cluster : ∀ i < k, 2 ≤ img.chain start i ∧ img.chain start i < fatBad
  /-- The sectors. -/
  needs : ∀ lba, img.Needs start k lba → lba < size

/-- The clusters of a file. -/
def FatImage.clustersOf (img : FatImage) (f : FatFile) : Nat :=
  (f.size + img.bytesPerCluster - 1) / img.bytesPerCluster

/-- A call for a file or a directory all of which is on the disk. -/
def DataCall.OnDisk (img : FatImage) (size : Nat) (vol : FatVol) : DataCall → Prop
  | .readFile f off sz buf => ChainOn img size f.startCluster (img.clustersOf f) ∧
      FatImage.Apart vol buf (f.readCount off.toNat sz.toNat)
  | .loadDir dir _ => ∃ k es, ChainOn img size dir.cluster k ∧ img.HoldsDirectory dir.cluster k es
  | .other _ => True

/-- A call does what it should: a read returns the number of bytes there are, they are in the buffer, and
nothing else outside the sector buffer changes; a directory gets one node for every logical entry, in order. -/
def DataCall.Delivers (img : FatImage) (size : Nat) (vol : FatVol) (s : DiskRun) :
    (c : DataCall) → c.Result → DiskRun → Prop
  | .readFile f off sz buf, n, s' => n = f.readCount off.toNat sz.toNat ∧
      (∀ i < f.readCount off.toNat sz.toNat,
        (img.chainBytes f.startCluster (img.clustersOf f))[off.toNat + i]? = some (s'.fat.mem (buf + i))) ∧
      ∀ x, x < buf ∨ buf + f.readCount off.toNat sz.toNat ≤ x → FatImage.Outside vol x →
        s'.fat.mem x = s.fat.mem x
  | .loadDir dir _, r, _ => r.1.loaded = true ∧ ∀ k es, ChainOn img size dir.cluster k →
      img.HoldsDirectory dir.cluster k es → List.Forall₂ Vfat.Shows es r.1.entries
  | .other _, _, _ => True

variable {img : FatImage} {vol : FatVol} {size start k : Nat}

theorem ChainOn.chainOk (h : ChainOn img size start k) (hsize : size ≤ 2 ^ 32) : img.ChainOk start k where
  cluster := h.cluster
  fatSector_lt i hi := (h.needs _ (.inl ⟨i, hi, rfl⟩)).trans_le hsize
  sector_lt i hi s hs := (h.needs _ (.inr ⟨i, hi, s, hs, rfl⟩)).trans_le hsize

section Drive

variable {found : UInt8 → Bool} {drv : UInt8} {disk : Disk} {s s' : DiskRun} {dev : Device} {b b' : Bus}
  {st : FatState}

/-- A call of the driver that asks for sectors of the disk is one on the disk itself. -/
theorem driverCall {α : Type} {p : Device → FatState → Except Halt (α × FatState)} (hp : DriverAsks p)
    (hdrv : drv < Ata.ataMaxDrives) (hfound : found drv = true) (hready : Ready (place drv) disk b)
    {r : α × FatState} (hr : p (Device.ofDisk disk.bytes) st = .ok r) (hasks : OnlyAsks (· < disk.size) st r.2) :
    (∃ b', AnsweredByAta (driveTable found) drv (Device.ofDisk disk.bytes) st r.2 b b') ∧
    ∀ dev r' b', p dev st = .ok r' → AnsweredByAta (driveTable found) drv dev st r'.2 b b' →
      r' = r ∧ Ready (place drv) disk b' :=
  hp.steady (fun _ _ hb hlba => hb.ataReadCb hdrv hfound hlba) hready hr hasks.newlyAsked

/-- `fat32_mount` over the drive mounts the image. -/
theorem mounted_of_ata {partLba sectorBuf : Nat} (hdrv : drv < Ata.ataMaxDrives) (hfound : found drv = true)
    (hready : Ready (place drv) disk b) (hpart : partLba < disk.size) {st₁ : FatState} {v : Option FatVol}
    (hmount : fat32Mount dev partLba sectorBuf st = (v, st₁))
    (hanswered : AnsweredByAta (driveTable found) drv dev st st₁ b b') :
    fat32Mount (Device.ofDisk disk.bytes) partLba sectorBuf st = (v, st₁) ∧ Ready (place drv) disk b' := by
  have hasks : OnlyAsks (· < disk.size) st (fat32Mount (Device.ofDisk disk.bytes) partLba sectorBuf st).2 :=
    ⟨[partLba], asked_fat32Mount .., fun lba hlba => by rwa [List.mem_singleton.mp hlba]⟩
  obtain ⟨-, hcall⟩ := driverCall (asks_fat32Mount partLba sectorBuf) hdrv hfound hready rfl hasks
  obtain ⟨heq, hready'⟩ := hcall dev (v, st₁) b' (congrArg Except.ok hmount) hanswered
  exact ⟨heq.symm, hready'⟩

/-- A read of a file on the image. -/
theorem readFile_ofDisk (h : img.Mounted vol) (hspc : 1 ≤ vol.sectorsPerCluster) {f : FatFile}
    (hok : img.ChainOk f.startCluster (img.clustersOf f)) (off : UInt64) (sz : UInt32) {buf : Nat}
    (hapart : FatImage.Apart vol buf (f.readCount off.toNat sz.toNat)) : ∃ fuel st',
      fat32ReadFile (Device.ofDisk img.disk) vol f off.toNat sz.toNat buf fuel s.fat =
        .ok (f.readCount off.toNat sz.toNat, st') ∧
      ∀ b', (DataCall.readFile f off sz buf).Delivers img size vol s (f.readCount off.toNat sz.toNat) ⟨b', st'⟩ := by
  by_cases hoff : f.size ≤ off.toNat
  · -- nothing to read
    have hcount : f.readCount off.toNat sz.toNat = 0 := if_pos hoff
    refine ⟨0, s.fat, ?_, fun b' => ⟨rfl, fun i hi => ?_, fun _ _ _ => rfl⟩⟩
    · rw [fat32ReadFile, if_pos hoff, hcount]
    · rw [hcount] at hi
      exact absurd hi (Nat.not_lt_zero i)
  · have hk : f.size ≤ img.clustersOf f * img.bytesPerCluster := f.size_le_clusters (h.bytesPerCluster_pos hspc)
    have hcount := f.readCount_le off.toNat sz.toNat
    obtain ⟨st', hrun, hbytes, hframe⟩ := h.fat32ReadFile_spec hspc hok hk (show off.toNat < f.size by omega)
      sz.toNat_lt hapart (Nat.lt_succ_self _) s.fat
    refine ⟨_, st', hrun, fun b' => ⟨rfl, fun i hi => ?_, hframe⟩⟩
    rw [hbytes i hi, img.chainBytes_getElem? (by omega)]

/-- A read returns the bytes of the file and leaves the drive at rest. -/
theorem readFile_over_ata (himg : img.disk = disk.bytes) (h : img.Mounted vol) (hspc : 1 ≤ vol.sectorsPerCluster)
    (hdrv : drv < Ata.ataMaxDrives) (hfound : found drv = true) (hready : Ready (place drv) disk s.bus)
    {f : FatFile} {off : UInt64} {sz : UInt32} {buf : Nat}
    (hon : (DataCall.readFile f off sz buf).OnDisk img disk.size vol) :
    (∃ n s', DataStep (driveTable found) drv vol s (.readFile f off sz buf) n s') ∧
    ∀ n s', DataStep (driveTable found) drv vol s (.readFile f off sz buf) n s' →
      (DataCall.readFile f off sz buf).Delivers img disk.size vol s n s' ∧ Ready (place drv) disk s'.bus := by
  obtain ⟨hchain, hapart⟩ := hon
  have hok := hchain.chainOk (disk.size_le.trans (by decide))
  have hk : f.size ≤ img.clustersOf f * img.bytesPerCluster := f.size_le_clusters (h.bytesPerCluster_pos hspc)
  obtain ⟨fuel, st', hrun, hdelivers⟩ := readFile_ofDisk h hspc hok off sz hapart
  have hasks := (h.fat32ReadFile_asks hspc hok hk sz.toNat_lt hrun).mono hchain.needs
  rw [himg] at hrun
  constructor
  · obtain ⟨⟨b', hb'⟩, -⟩ := driverCall (asks_fat32ReadFile vol f off.toNat sz.toNat buf fuel) hdrv hfound hready
      hrun hasks
    exact ⟨_, ⟨b', st'⟩, _, fuel, hrun, hb'⟩
  · -- with the fuel of both runs, the one over the drive is the one on the image
    rintro n ⟨b', st₁⟩ ⟨dev, fuel', hrun', hanswered⟩
    obtain ⟨-, hcall⟩ := driverCall (asks_fat32ReadFile vol f off.toNat sz.toNat buf (max fuel fuel')) hdrv hfound
      hready (fat32ReadFile_of_le (le_max_left ..) hrun) hasks
    obtain ⟨hresult, hready'⟩ := hcall dev _ b' (fat32ReadFile_of_le (le_max_right ..) hrun') hanswered
    obtain ⟨rfl, rfl⟩ := Prod.mk.inj hresult
    exact ⟨hdelivers b', hready'⟩

/-- A directory on the image. -/
theorem loadDir_ofDisk (h : img.Mounted vol) {dir : FatDir} (heap : Blocks) {es : List Vfat.LogicalEntry}
    (hok : img.ChainOk dir.cluster k) (hdir : img.HoldsDirectory dir.cluster k es) (st : FatState) :
    ∃ fuel dir' heap' st', loadDir (Device.ofDisk img.disk) vol dir heap fuel st = .ok (dir', heap', st') ∧
      dir'.loaded = true ∧ List.Forall₂ Vfat.Shows es dir'.entries ∧
      OnlyAsks (img.Needs dir.cluster k) st st' := by
  -- the scan begins with nothing
  let sc : DirScan :=
    { lfns := [], entries := [], entriesBlock := none, cap := 0, heap := (heap.kmalloc .clusterBuf).2 }
  obtain ⟨hend, hshows⟩ := FatImage.HoldsDirectory.scan hdir (show sc.lfns = [] from rfl) rfl
  rw [FatImage.dirents, List.range_eq_range'] at hend hshows
  obtain ⟨st', hrun⟩ := h.scanClusters_spec hok k 0 (k + 1) (Nat.zero_add k) (Nat.lt_succ_self k) sc st hend
  have hasks := h.scanClusters_asks hok (Nat.zero_add k) hend hrun
  have hload : loadDir (Device.ofDisk img.disk) vol dir heap (k + 1) st =
      (scanClusters (Device.ofDisk img.disk) vol (k + 1) (img.chain dir.cluster 0) sc st).bind
        fun p => .ok ({ dir with entries := p.1.entries, loaded := true },
          p.1.heap.kfree (heap.kmalloc .clusterBuf).1, p.2) := rfl
  rw [hrun] at hload
  exact ⟨k + 1, _, _, st', hload, rfl, hshows, hasks⟩

/-- One load shows the entries that the directory has on the disk and leaves the drive at rest. -/
theorem loadDir_over_ata (himg : img.disk = disk.bytes) (h : img.Mounted vol) (hdrv : drv < Ata.ataMaxDrives)
    (hfound : found drv = true) (hready : Ready (place drv) disk s.bus) {dir : FatDir} (heap : Blocks)
    {es : List Vfat.LogicalEntry} (hchain : ChainOn img disk.size dir.cluster k)
    (hdir : img.HoldsDirectory dir.cluster k es) :
    (∃ r s', DataStep (driveTable found) drv vol s (.loadDir dir heap) r s') ∧
    ∀ r s', DataStep (driveTable found) drv vol s (.loadDir dir heap) r s' →
      (r.1.loaded = true ∧ List.Forall₂ Vfat.Shows es r.1.entries) ∧ Ready (place drv) disk s'.bus := by
  have hok := hchain.chainOk (disk.size_le.trans (by decide))
  obtain ⟨fuel, dir', heap', st', hrun, hloaded, hshows, hasks⟩ := loadDir_ofDisk h heap hok hdir s.fat
  have hasks := hasks.mono hchain.needs
  rw [himg] at hrun
  constructor
  · obtain ⟨⟨b', hb'⟩, -⟩ := driverCall (asks_loadDir vol dir heap fuel) (r := ((dir', heap'), st')) hdrv hfound
      hready (congrArg (Except.map _) hrun) hasks
    exact ⟨(dir', heap'), ⟨b', st'⟩, _, fuel, hrun, hb'⟩
  · rintro ⟨dir₁, heap₁⟩ ⟨b', st₁⟩ ⟨dev, fuel', hrun', hanswered⟩
    obtain ⟨-, hcall⟩ := driverCall (asks_loadDir vol dir heap (max fuel fuel')) (r := ((dir', heap'), st')) hdrv
      hfound hready (congrArg (Except.map _) (loadDir_of_le (le_max_left ..) hrun)) hasks
    obtain ⟨hresult, hready'⟩ := hcall dev ((dir₁, heap₁), st₁) b'
      (congrArg (Except.map _) (loadDir_of_le (le_max_right ..) hrun')) hanswered
    obtain ⟨hdirs, -⟩ := Prod.mk.inj hresult
    obtain ⟨rfl, -⟩ := Prod.mk.inj hdirs
    exact ⟨⟨hloaded, hshows⟩, hready'⟩

/-- One step after another. -/
theorem DataStep.delivers (himg : img.disk = disk.bytes) (h : img.Mounted vol) (hspc : 1 ≤ vol.sectorsPerCluster)
    (hdrv : drv < Ata.ataMaxDrives) (hfound : found drv = true) (hready : Ready (place drv) disk s.bus)
    {c : DataCall} (hon : c.OnDisk img disk.size vol) :
    (∃ r s', DataStep (driveTable found) drv vol s c r s') ∧
    ∀ r s', DataStep (driveTable found) drv vol s c r s' →
      c.Delivers img disk.size vol s r s' ∧ Ready (place drv) disk s'.bus := by
  cases c with
  | readFile f off sz buf => exact readFile_over_ata himg h hspc hdrv hfound hready hon
  | loadDir dir heap =>
      obtain ⟨k, es, hchain, hdir⟩ := hon
      obtain ⟨hreturns, hshows⟩ := loadDir_over_ata himg h hdrv hfound hready heap hchain hdir
      refine ⟨hreturns, fun r s' hstep => ?_⟩
      obtain ⟨⟨hloaded, -⟩, hready'⟩ := hshows r s' hstep
      -- the directory may be described in several ways, and each is shown
      refine ⟨⟨hloaded, fun k' es' hchain' hdir' => ?_⟩, hready'⟩
      obtain ⟨-, hshows'⟩ := loadDir_over_ata himg h hdrv hfound hready heap hchain' hdir'
      exact (hshows' r s' hstep).1.2
  | other mem =>
      refine ⟨⟨(), _, rfl⟩, fun r s' hstep => ⟨trivial, ?_⟩⟩
      rw [show s' = _ from hstep]
      exact hready

end Drive

/-! ## A small volume on a drive -/

/-- The words of a sector. -/
def wordsOf (s : Sector) (w : Nat) : UInt16 :=
  if h : w < 256 then UInt16.ofNat ((s ⟨2 * w, by omega⟩).toNat + 256 * (s ⟨2 * w + 1, by omega⟩).toNat) else 0

/-- Bytes come back out of words. -/
theorem sectorOf_wordsOf (s : Sector) : Ata.sectorOf (wordsOf s) = s := by
  funext i
  have hi := i.isLt
  have hword : i.val / 2 < 256 := by omega
  have hlo := (s ⟨2 * (i.val / 2), by omega⟩).toNat_lt
  have hhi := (s ⟨2 * (i.val / 2) + 1, by omega⟩).toNat_lt
  rw [Ata.sectorOf, Ata.wordByte, wordsOf, dif_pos hword]
  split_ifs with hpar
  · have heven : s ⟨2 * (i.val / 2), by omega⟩ = s i := congrArg s (Fin.ext (by dsimp only; omega))
    apply UInt8.toNat_inj.mp
    rw [UInt16.toNat_toUInt8, UInt16.toNat_ofNat', ← heven]
    omega
  · have hodd : s ⟨2 * (i.val / 2) + 1, by omega⟩ = s i := congrArg s (Fin.ext (by dsimp only; omega))
    apply UInt8.toNat_inj.mp
    rw [UInt16.toNat_toUInt8, UInt16.toNat_shiftRight, UInt16.toNat_ofNat', Nat.shiftRight_eq_div_pow, ← hodd]
    change _ / 2 ^ 8 % 2 ^ 8 = _
    omega

/-- A drive with the small volume. -/
def smallDisk : Disk where
  size := 2 ^ 28
  size_le := Nat.le_refl _
  sector lba := wordsOf (smallImage.disk lba)

theorem smallDisk_bytes : smallDisk.bytes = smallImage.disk := funext fun _ => sectorOf_wordsOf _

/-- The file is on the drive. -/
theorem smallFile_onDisk :
    (DataCall.readFile smallFile 500 50 8192).OnDisk smallImage smallDisk.size smallVol := by
  have hfat : ∀ i < 2, smallImage.fatSector (smallImage.chain 2 i) < 2 ^ 28 := by decide +kernel
  have hsectors : ∀ i < 2, ∀ s < smallImage.sectorsPerCluster,
      smallImage.clusterLba (smallImage.chain 2 i) + s < 2 ^ 28 := by decide +kernel
  have hclusters : smallImage.clustersOf smallFile = 2 := by decide +kernel
  rw [DataCall.OnDisk, hclusters]
  refine ⟨⟨smallImage_chainOk.cluster, ?_⟩, .inr (by decide)⟩
  rintro lba (⟨i, hi, rfl⟩ | ⟨i, hi, s, hs, rfl⟩)
  · exact hfat i hi
  · exact hsectors i hi s hs

end Aerogel
