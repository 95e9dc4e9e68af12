import Aerogel.Foundations.Dialogue
import Aerogel.Filesystem.FatDirLoad
import Aerogel.Filesystem.Fat32Read

/-! # What the FAT32 driver asks its disk

The driver is a program that asks for sectors (`Asks`), in every one of its loops. On an image it asks for the
sectors of the chains it follows and for those of the FAT that lead along them (`FatImage.Needs`), and for no
others. -/

namespace Aerogel

/-- The sectors that were asked for. -/
def FatState.asked (st : FatState) : List Nat := st.reads.map Prod.snd

/-! ## The driver asks -/

/-- A part of the driver that only calls `read_sector` asks questions. -/
abbrev DriverAsks {α : Type} (p : Device → FatState → Except Halt (α × FatState)) : Prop :=
  Asks FatState.asked p

theorem asks_readSector (dst : Nat) (r : ReadFor) (lba : Nat) :
    DriverAsks fun dev st => .ok ((), readSector dev dst r lba st) := by
  refine (Asks.ask (fun _ => lba) (fun st s => ((), (⟨s.elim st.mem (writeSector st.mem dst),
    st.reads ++ [(r, lba)]⟩ : FatState))) fun st s => ?_).congr fun dev st => ?_
  · rw [FatState.asked, FatState.asked, List.map_append]
    rfl
  · rw [FatState.asked, List.length_map]
    rfl

/-- Memory changes. -/
theorem asks_setMem (k : FatState → Mem) : DriverAsks fun _ st => .ok ((), { st with mem := k st }) := by
  refine Asks.silent (p := fun st : FatState => .ok ((), { st with mem := k st })) fun st r h => ?_
  rw [← Except.ok.inj h]
  rfl

/-- Memory is looked at. -/
theorem asks_value {α : Type} (v : FatState → α) : DriverAsks fun _ st => .ok (v st, st) := by
  refine Asks.silent (p := fun st => .ok (v st, st)) fun st r h => ?_
  rw [← Except.ok.inj h]

theorem asks_nextCluster (vol : FatVol) (cluster : Nat) :
    DriverAsks fun dev st => .ok (nextCluster dev vol cluster st) := by
  have hread := asks_readSector vol.sectorBuf .fat ((vol.fatLba + cluster * 4 % 2 ^ 32 / 512) % 2 ^ 32)
  have hvalue := asks_value fun st => st.mem.load (vol.sectorBuf + cluster * 4 % 2 ^ 32 % 512) 4 &&& 0x0FFFFFFF
  exact (hread.bind fun _ => hvalue).congr fun dev st => rfl

theorem asks_skipClusters (vol : FatVol) (skip cluster : Nat) :
    DriverAsks fun dev st => .ok (skipClusters dev vol skip cluster st) := by
  induction skip generalizing cluster with
  | zero => exact Asks.pure (some cluster)
  | succ skip ih =>
      refine ((asks_nextCluster vol cluster).bind (k := fun cluster dev st =>
        .ok (if fatEoc ≤ cluster then (none, st) else skipClusters dev vol skip cluster st)) fun c => ?_).congr
          fun dev st => rfl
      -- the chain may be shorter than what is skipped
      by_cases heoc : fatEoc ≤ c
      · simp only [if_pos heoc]
        exact Asks.pure none
      · simp only [if_neg heoc]
        exact ih c

theorem asks_copyChunk (vol : FatVol) (lba chunk dst fuel secOff byteOff wrote : Nat) :
    DriverAsks fun dev st =>
      (copyChunk dev vol lba chunk dst fuel secOff byteOff wrote st).map fun st => ((), st) := by
  induction fuel generalizing secOff byteOff wrote with
  | zero => exact Asks.error Halt.diverges
  | succ fuel ih =>
      by_cases hmore : wrote < chunk
      · -- a sector, a copy, and the rest of the chunk
        generalize htake : (if chunk - wrote < 512 - byteOff then chunk - wrote else 512 - byteOff) = take
        refine ((asks_readSector vol.sectorBuf .contents ((lba + secOff) % 2 ^ 32)).bind fun _ =>
          (asks_setMem fun st => memcpy st.mem (dst + wrote) (vol.sectorBuf + byteOff) take).bind fun _ =>
            ih (secOff + 1) 0 (wrote + take)).congr fun dev st => ?_
        rw [copyChunk, if_pos hmore, ← htake]
        rfl
      · refine (Asks.pure ()).congr fun dev st => ?_
        rw [copyChunk, if_neg hmore]
        rfl

theorem asks_readClusters (vol : FatVol) (size buf fuel readTotal inCluster cluster : Nat) :
    DriverAsks fun dev st => readClusters dev vol size buf fuel readTotal inCluster cluster st := by
  induction fuel generalizing readTotal inCluster cluster with
  | zero => exact Asks.error Halt.diverges
  | succ fuel ih =>
      by_cases hmore : readTotal < size ∧ cluster < fatEoc
      · -- a chunk, the link to the next cluster, and the rest of the chain
        generalize hchunk : (if size - readTotal < vol.bytesPerCluster - inCluster then size - readTotal
          else vol.bytesPerCluster - inCluster) = chunk
        refine ((asks_copyChunk vol (clusterToLba vol cluster) chunk (buf + readTotal) fuel (inCluster / 512)
          (inCluster % 512) 0).bind fun _ => (asks_nextCluster vol cluster).bind fun c =>
            ih (readTotal + chunk) 0 c).congr fun dev st => ?_
        rw [readClusters, if_pos hmore]
        simp only [hchunk]
        cases copyChunk dev vol (clusterToLba vol cluster) chunk (buf + readTotal) fuel (inCluster / 512)
            (inCluster % 512) 0 st with
        | error e => rfl
        | ok st' => rfl
      · refine (Asks.pure readTotal).congr fun dev st => ?_
        rw [readClusters, if_neg hmore]

theorem asks_fat32ReadFile (vol : FatVol) (f : FatFile) (off size buf fuel : Nat) :
    DriverAsks fun dev st => fat32ReadFile dev vol f off size buf fuel st := by
  by_cases hoff : f.size ≤ off
  · refine (Asks.pure 0).congr fun dev st => ?_
    rw [fat32ReadFile, if_pos hoff]
  by_cases hbpc : vol.bytesPerCluster = 0
  · -- the division by the size of a cluster
    refine (Asks.error (Halt.exception 0)).congr fun dev st => ?_
    rw [fat32ReadFile, if_neg hoff]
    exact if_pos hbpc
  generalize hsize : (if f.size < (off + size) % 2 ^ 64 then (f.size - off) % 2 ^ 32 else size) = size'
  refine ((asks_skipClusters vol (off % 2 ^ 32 / vol.bytesPerCluster) f.startCluster).bind (k := fun c dev st =>
    c.elim (.ok (0, st)) fun cluster =>
      readClusters dev vol size' buf fuel 0 (off % 2 ^ 32 % vol.bytesPerCluster) cluster st)
      fun c => ?_).congr fun dev st => ?_
  · cases c with
    | none => exact Asks.pure 0
    | some cluster => exact asks_readClusters vol size' buf fuel 0 _ cluster
  · rw [fat32ReadFile, if_neg hoff]
    dsimp only
    rw [if_neg hbpc, hsize, Except.bind]
    cases skipClusters dev vol (off % 2 ^ 32 / vol.bytesPerCluster) f.startCluster st with
    | mk c st' =>
        cases c with
        | none => rfl
        | some cluster => rfl

theorem asks_scanCluster (vol : FatVol) (lba left s : Nat) (sc : DirScan) : DriverAsks fun dev st =>
    .ok (((scanCluster dev vol lba left s sc st).1, (scanCluster dev vol lba left s sc st).2.1),
      (scanCluster dev vol lba left s sc st).2.2) := by
  induction left generalizing s sc with
  | zero => exact Asks.pure (false, sc)
  | succ left ih =>
      refine ((asks_readSector vol.sectorBuf .contents ((lba + s) % 2 ^ 32)).bind fun _ =>
        (asks_value fun st => DirScan.scan (sectorEntries st.mem vol.sectorBuf) sc).bind
          (k := fun r dev st => bif r.1 then .ok ((true, r.2), st)
            else .ok (((scanCluster dev vol lba left (s + 1) r.2 st).1,
                (scanCluster dev vol lba left (s + 1) r.2 st).2.1),
                (scanCluster dev vol lba left (s + 1) r.2 st).2.2)) fun r => ?_).congr fun dev st => ?_
      · obtain ⟨stop, sc'⟩ := r
        cases stop with
        | true => exact Asks.pure (true, sc')
        | false => exact ih (s + 1) sc'
      · rw [scanCluster]
        dsimp only [Except.bind]
        cases DirScan.scan (sectorEntries
            (readSector dev vol.sectorBuf .contents ((lba + s) % 2 ^ 32) st).mem vol.sectorBuf) sc with
        | mk stop sc' =>
            cases stop with
            | true => rfl
            | false => rfl

theorem asks_scanClusters (vol : FatVol) (fuel cluster : Nat) (sc : DirScan) :
    DriverAsks fun dev st => scanClusters dev vol fuel cluster sc st := by
  induction fuel generalizing cluster sc with
  | zero => exact Asks.error Halt.diverges
  | succ fuel ih =>
      by_cases hmore : cluster < fatEoc
      · refine ((asks_scanCluster vol (clusterToLba vol cluster) vol.sectorsPerCluster 0 sc).bind
          (k := fun r dev st => bif r.1 then .ok (r.2, st)
            else scanClusters dev vol fuel (nextCluster dev vol cluster st).1 r.2
                (nextCluster dev vol cluster st).2) fun r => ?_).congr fun dev st => ?_
        · obtain ⟨stop, sc'⟩ := r
          cases stop with
          | true => exact Asks.pure sc'
          | false => exact (asks_nextCluster vol cluster).bind fun c => ih c sc'
        · rw [scanClusters, if_pos hmore]
          dsimp only [Except.bind]
          cases scanCluster dev vol (clusterToLba vol cluster) vol.sectorsPerCluster 0 sc st with
          | mk stop rest =>
              cases stop with
              | true => rfl
              | false => rfl
      · refine (Asks.pure sc).congr fun dev st => ?_
        rw [scanClusters, if_neg hmore]

theorem asks_loadDir (vol : FatVol) (dir : FatDir) (heap : Blocks) (fuel : Nat) : DriverAsks fun dev st =>
    (loadDir dev vol dir heap fuel st).map fun r => ((r.1, r.2.1), r.2.2) := by
  unfold loadDir
  generalize heap.kmalloc .clusterBuf = allocated
  obtain ⟨buf, heap'⟩ := allocated
  dsimp only
  refine ((asks_scanClusters vol fuel dir.cluster
    { lfns := [], entries := [], entriesBlock := none, cap := 0, heap := heap' }).map fun sc =>
      ((⟨dir.cluster, sc.entries, true⟩ : FatDir), sc.heap.kfree buf)).congr fun dev st => ?_
  cases scanClusters dev vol fuel dir.cluster
      { lfns := [], entries := [], entriesBlock := none, cap := 0, heap := heap' } st with
  | error e => rfl
  | ok r => rfl

theorem fat32Mount_snd (dev : Device) (partLba sectorBuf : Nat) (st : FatState) :
    (fat32Mount dev partLba sectorBuf st).2 =
      readSector dev sectorBuf .bpb partLba { st with mem := memset st.mem sectorBuf 0 512 } := by
  rw [fat32Mount]
  dsimp only
  split_ifs <;> rfl

theorem asked_fat32Mount (dev : Device) (partLba sectorBuf : Nat) (st : FatState) :
    (fat32Mount dev partLba sectorBuf st).2.asked = st.asked ++ [partLba] := by
  rw [fat32Mount_snd, FatState.asked, readSector, List.map_append]
  rfl

theorem asks_fat32Mount (partLba sectorBuf : Nat) :
    DriverAsks fun dev st => .ok (fat32Mount dev partLba sectorBuf st) where
  grows dev st r h := by
    rw [← Except.ok.inj h, asked_fat32Mount]
    exact List.prefix_append _ _
  same dev dev' st r t hr ht := by
    rw [← Except.ok.inj hr, ← Except.ok.inj ht]
    -- the boot sector is the only one it asks for
    by_cases hsame : dev st.reads.length partLba = dev' st.reads.length partLba
    · have hread : readSector dev sectorBuf .bpb partLba { st with mem := memset st.mem sectorBuf 0 512 } =
          readSector dev' sectorBuf .bpb partLba { st with mem := memset st.mem sectorBuf 0 512 } := by
        simp only [readSector, hsame]
      left
      rw [fat32Mount, fat32Mount]
      dsimp only
      rw [hread]
    · refine .inr ⟨st.asked, partLba, [], [], le_refl _, asked_fat32Mount .., asked_fat32Mount .., ?_⟩
      rwa [FatState.asked, List.length_map]

/-! ## More rounds

What a loop does within some number of rounds it also does when it may go on for longer. -/

section Fuel

variable {dev : Device} {vol : FatVol} {st : FatState}

theorem copyChunk_succ {lba chunk dst fuel secOff byteOff wrote : Nat} {st' : FatState}
    (h : copyChunk dev vol lba chunk dst fuel secOff byteOff wrote st = .ok st') :
    copyChunk dev vol lba chunk dst (fuel + 1) secOff byteOff wrote st = .ok st' := by
  induction fuel generalizing secOff byteOff wrote st with
  | zero => exact nomatch h
  | succ fuel ih =>
      rw [copyChunk] at h ⊢
      by_cases hmore : wrote < chunk
      · rw [if_pos hmore] at h ⊢
        exact ih h
      · rwa [if_neg hmore] at h ⊢

theorem readClusters_succ {size buf fuel readTotal inCluster cluster : Nat} {r : Nat × FatState}
    (h : readClusters dev vol size buf fuel readTotal inCluster cluster st = .ok r) :
    readClusters dev vol size buf (fuel + 1) readTotal inCluster cluster st = .ok r := by
  induction fuel generalizing readTotal inCluster cluster st with
  | zero => exact nomatch h
  | succ fuel ih =>
      rw [readClusters] at h ⊢
      split_ifs at h ⊢
      · obtain ⟨st₁, hcopy, hrest⟩ := bind_eq_ok.mp h
        exact bind_eq_ok.mpr ⟨st₁, copyChunk_succ hcopy, ih hrest⟩
      · exact h

theorem fat32ReadFile_of_le {f : FatFile} {off size buf fuel fuel' : Nat} {r : Nat × FatState} (hle : fuel ≤ fuel')
    (h : fat32ReadFile dev vol f off size buf fuel st = .ok r) :
    fat32ReadFile dev vol f off size buf fuel' st = .ok r := by
  induction hle with
  | refl => exact h
  | step _ ih =>
      rw [fat32ReadFile] at ih ⊢
      by_cases hoff : f.size ≤ off
      · rwa [if_pos hoff] at ih ⊢
      by_cases hbpc : vol.bytesPerCluster = 0
      · simp only [if_neg hoff, if_pos hbpc] at ih
        cases ih
      simp only [if_neg hoff, if_neg hbpc] at ih ⊢
      cases hskip : skipClusters dev vol (off % 2 ^ 32 / vol.bytesPerCluster) f.startCluster st with
      | mk c st₁ =>
          rw [hskip] at ih
          cases c with
          | none => exact ih
          | some cluster => exact readClusters_succ ih

theorem scanClusters_succ {fuel cluster : Nat} {sc : DirScan} {r : DirScan × FatState}
    (h : scanClusters dev vol fuel cluster sc st = .ok r) :
    scanClusters dev vol (fuel + 1) cluster sc st = .ok r := by
  induction fuel generalizing cluster sc st with
  | zero => exact nomatch h
  | succ fuel ih =>
      rw [scanClusters] at h ⊢
      split_ifs at h ⊢
      · cases hcluster : scanCluster dev vol (clusterToLba vol cluster) vol.sectorsPerCluster 0 sc st with
        | mk done rest =>
            rw [hcluster] at h
            cases done with
            | true => exact h
            | false => exact ih h
      · exact h

theorem loadDir_of_le {dir : FatDir} {heap : Blocks} {fuel fuel' : Nat} {r : FatDir × Blocks × FatState}
    (hle : fuel ≤ fuel') (h : loadDir dev vol dir heap fuel st = .ok r) :
    loadDir dev vol dir heap fuel' st = .ok r := by
  induction hle with
  | refl => exact h
  | step _ ih =>
      unfold loadDir at ih ⊢
      obtain ⟨p, hscan, hrest⟩ := bind_eq_ok.mp ih
      exact bind_eq_ok.mpr ⟨p, scanClusters_succ hscan, hrest⟩

end Fuel

/-! ## What it asks for -/

/-- Since `st` nothing but such sectors was asked for. -/
def OnlyAsks (P : Nat → Prop) (st st' : FatState) : Prop :=
  ∃ new, st'.asked = st.asked ++ new ∧ ∀ lba ∈ new, P lba

namespace OnlyAsks

variable {P : Nat → Prop} {st st' st'' : FatState}

theorem refl (P : Nat → Prop) (st : FatState) : OnlyAsks P st st :=
  ⟨[], (List.append_nil _).symm, fun _ h => absurd h List.not_mem_nil⟩

theorem trans (h : OnlyAsks P st st') (h' : OnlyAsks P st' st'') : OnlyAsks P st st'' := by
  obtain ⟨new, hnew, hall⟩ := h
  obtain ⟨new', hnew', hall'⟩ := h'
  refine ⟨new ++ new', by rw [hnew', hnew, List.append_assoc], fun lba hmem => ?_⟩
  exact (List.mem_append.mp hmem).elim (hall lba) (hall' lba)

theorem readSector {lba : Nat} (h : P lba) (dev : Device) (dst : Nat) (r : ReadFor) (st : FatState) :
    OnlyAsks P st (readSector dev dst r lba st) := by
  refine ⟨[lba], ?_, fun l hl => by rwa [List.mem_singleton.mp hl]⟩
  rw [FatState.asked, Aerogel.readSector, List.map_append]
  rfl

theorem mono (h : OnlyAsks P st st') {P' : Nat → Prop} (hP : ∀ lba, P lba → P' lba) : OnlyAsks P' st st' := by
  obtain ⟨new, hnew, hall⟩ := h
  exact ⟨new, hnew, fun lba hmem => hP lba (hall lba hmem)⟩

/-- Memory does not matter. -/
theorem setMem (h : OnlyAsks P st st') (m : Mem) : OnlyAsks P st { st' with mem := m } := h

theorem newlyAsked (h : OnlyAsks P st st') : ∀ lba ∈ Aerogel.newlyAsked FatState.asked st st', P lba := by
  obtain ⟨new, hnew, hall⟩ := h
  rw [Aerogel.newlyAsked, hnew, List.drop_left]
  exact hall

/-- The sectors of a chunk. -/
theorem copyChunk {dev : Device} {vol : FatVol} {lba chunk dst fuel secOff byteOff wrote : Nat}
    (h : ∀ s, s * 512 < secOff * 512 + byteOff + (chunk - wrote) → P ((lba + s) % 2 ^ 32)) (hbyte : byteOff < 512)
    (hrun : Aerogel.copyChunk dev vol lba chunk dst fuel secOff byteOff wrote st = .ok st') :
    OnlyAsks P st st' := by
  induction fuel generalizing secOff byteOff wrote st with
  | zero => exact nomatch hrun
  | succ fuel ih =>
      rw [Aerogel.copyChunk] at hrun
      by_cases hmore : wrote < chunk
      · rw [if_pos hmore] at hrun
        have hread := readSector (h secOff (by omega)) dev vol.sectorBuf .contents st
        dsimp only at hrun
        have hrest := fun hsectors => ih hsectors (Nat.zero_lt_succ _) hrun
        refine (hread.setMem _).trans (hrest fun s hs => h s ?_)
        rw [Nat.add_zero] at hs
        -- the last sector of the chunk, or one that is used to its end
        split_ifs at hs with hall
        · rw [Nat.add_sub_cancel' hmore.le, Nat.sub_self, Nat.add_zero] at hs
          have hle : s * 512 ≤ secOff * 512 :=
            Nat.mul_le_mul_right _ (Nat.lt_succ_iff.mp (Nat.lt_of_mul_lt_mul_right hs))
          exact (hle.trans (Nat.le_add_right _ byteOff)).trans_lt
            (Nat.lt_add_of_pos_right (Nat.sub_pos_of_lt hmore))
        · have htake : wrote + (512 - byteOff) ≤ chunk := by omega
          omega
      · rw [if_neg hmore] at hrun
        rw [← Except.ok.inj hrun]
        exact refl P st

/-- The sectors of a cluster of a directory. -/
theorem scanCluster {dev : Device} {vol : FatVol} {lba left s : Nat} (sc : DirScan)
    (h : ∀ t < s + left, P ((lba + t) % 2 ^ 32)) :
    OnlyAsks P st (Aerogel.scanCluster dev vol lba left s sc st).2.2 := by
  induction left generalizing s sc st with
  | zero => exact refl P st
  | succ left ih =>
      have hread := readSector (h s (by omega)) dev vol.sectorBuf .contents st
      rw [Aerogel.scanCluster]
      split
      · exact hread
      · exact hread.trans (ih _ fun t ht => h t (by omega))

end OnlyAsks

namespace FatImage

variable {img : FatImage} {vol : FatVol} {start k : Nat} {st st' : FatState}

/-- The first `k` clusters of a chain are in these sectors, or their FAT entries are. -/
def Needs (img : FatImage) (start k lba : Nat) : Prop :=
  (∃ i < k, lba = img.fatSector (img.chain start i)) ∨
    ∃ i < k, ∃ s < img.sectorsPerCluster, lba = img.clusterLba (img.chain start i) + s

theorem Mounted.nextCluster_asks (h : img.Mounted vol) (hok : img.ChainOk start k) {i : Nat} (hi : i < k)
    (dev : Device) (st : FatState) :
    OnlyAsks (img.Needs start k) st (nextCluster dev vol (img.chain start i) st).2 := by
  have hbad := (hok.cluster i hi).2
  -- neither the offset of the entry nor its sector wraps
  have hoff : img.chain start i * 4 % 2 ^ 32 = img.chain start i * 4 :=
    Nat.mod_eq_of_lt (by unfold fatBad at hbad; omega)
  have hsec : (vol.fatLba + img.chain start i * 4 / 512) % 2 ^ 32 = img.fatSector (img.chain start i) := by
    rw [h.fatLba_eq, Nat.mod_add_mod]
    exact Nat.mod_eq_of_lt (hok.fatSector_lt i hi)
  rw [nextCluster]
  simp only [hoff, hsec]
  exact .readSector (.inl ⟨i, hi, rfl⟩) ..

theorem Mounted.skipClusters_asks (h : img.Mounted vol) (hok : img.ChainOk start k) {i skip : Nat}
    (hskip : i + skip < k) (st : FatState) : OnlyAsks (img.Needs start k) st
      (skipClusters (Device.ofDisk img.disk) vol skip (img.chain start i) st).2 := by
  induction skip generalizing i st with
  | zero => exact .refl _ st
  | succ skip ih =>
      have hnext := h.nextCluster_asks hok (i := i) (by omega) (Device.ofDisk img.disk) st
      obtain ⟨hvalue, -⟩ := h.nextCluster_eq (hok.cluster i (by omega)).2 (hok.fatSector_lt i (by omega)) st
      rw [← img.chain_succ] at hvalue
      rw [skipClusters]
      dsimp only
      rw [hvalue]
      split_ifs
      · exact hnext
      · exact hnext.trans (ih (by omega) _)

/-- The sectors of a cluster of the chain. -/
theorem Mounted.needs_sector (h : img.Mounted vol) (hok : img.ChainOk start k) {i s : Nat} (hi : i < k)
    (hs : s < img.sectorsPerCluster) :
    img.Needs start k ((clusterToLba vol (img.chain start i) + s) % 2 ^ 32) := by
  obtain ⟨h2, hbad⟩ := hok.cluster i hi
  have hsector := hok.sector_lt i hi s hs
  rw [h.clusterToLba_eq h2 hbad (by omega), Nat.mod_eq_of_lt hsector]
  exact .inr ⟨i, hi, s, hs, rfl⟩

theorem Mounted.readClusters_asks (h : img.Mounted vol) (hok : img.ChainOk start k)
    {i off size buf fuel readTotal inCluster n : Nat} (hend : off + size ≤ k * img.bytesPerCluster)
    (hin : inCluster < img.bytesPerCluster) (hpos : off + readTotal = i * img.bytesPerCluster + inCluster)
    (hrun : readClusters (Device.ofDisk img.disk) vol size buf fuel readTotal inCluster (img.chain start i) st =
      .ok (n, st')) : OnlyAsks (img.Needs start k) st st' := by
  induction fuel generalizing i readTotal inCluster st with
  | zero => cases hrun
  | succ fuel ih =>
      rw [readClusters] at hrun
      by_cases hmore : readTotal < size ∧ img.chain start i < fatEoc
      · rw [if_pos hmore] at hrun
        have hi : i < k := Nat.lt_of_mul_lt_mul_right (a := img.bytesPerCluster) (by omega)
        generalize hchunk : (if size - readTotal < vol.bytesPerCluster - inCluster then size - readTotal
          else vol.bytesPerCluster - inCluster) = chunk
        simp only [hchunk] at hrun
        have hbpc : img.bytesPerCluster = img.sectorsPerCluster * 512 := rfl
        rw [h.bytesPerCluster_eq] at hchunk
        obtain ⟨st₁, hcopy, hrest⟩ := bind_eq_ok.mp hrun
        -- the chunk stays in the cluster, so its sectors are those of the cluster
        have hsplit : inCluster / 512 * 512 + inCluster % 512 = inCluster := Nat.div_add_mod' ..
        have hasks : OnlyAsks (img.Needs start k) st st₁ := by
          refine .copyChunk (fun s hs => h.needs_sector hok hi ?_) (Nat.mod_lt _ (by decide)) hcopy
          rw [hsplit] at hs
          split_ifs at hchunk <;> omega
        obtain ⟨hvalue, -⟩ := h.nextCluster_eq (hok.cluster i hi).2 (hok.fatSector_lt i hi) st₁
        rw [← img.chain_succ] at hvalue
        rw [hvalue] at hrest
        refine (hasks.trans (h.nextCluster_asks hok hi (Device.ofDisk img.disk) st₁)).trans ?_
        by_cases hlast : size - readTotal < img.bytesPerCluster - inCluster
        · -- nothing more to read
          rw [if_pos hlast] at hchunk
          cases fuel with
          | zero => cases hrest
          | succ fuel =>
              rw [readClusters, if_neg (by omega)] at hrest
              obtain ⟨-, rfl⟩ := Prod.mk.inj (Except.ok.inj hrest)
              exact .refl _ _
        · rw [if_neg hlast] at hchunk
          refine ih (by omega) ?_ hrest
          rw [Nat.succ_mul]
          omega
      · rw [if_neg hmore] at hrun
        obtain ⟨-, rfl⟩ := Prod.mk.inj (Except.ok.inj hrun)
        exact .refl _ st

/-- Reading a file asks for the sectors of its chain. -/
theorem Mounted.fat32ReadFile_asks (h : img.Mounted vol) (hspc : 1 ≤ vol.sectorsPerCluster) {f : FatFile}
    (hok : img.ChainOk f.startCluster k) (hk : f.size ≤ k * img.bytesPerCluster) {off sz buf fuel n : Nat}
    (hsz : sz < 2 ^ 32)
    (hrun : fat32ReadFile (Device.ofDisk img.disk) vol f off sz buf fuel st = .ok (n, st')) :
    OnlyAsks (img.Needs f.startCluster k) st st' := by
  have hsize := f.size_lt
  have hbpc := h.bytesPerCluster_pos hspc
  have hcount := f.readCount_le off sz
  by_cases hoff : f.size ≤ off
  · rw [fat32ReadFile, if_pos hoff] at hrun
    obtain ⟨-, rfl⟩ := Prod.mk.inj (Except.ok.inj hrun)
    exact .refl _ st
  have hdiv : off / img.bytesPerCluster * img.bytesPerCluster + off % img.bytesPerCluster = off :=
    Nat.div_add_mod' ..
  have hskip : 0 + off / img.bytesPerCluster < k := by
    rw [Nat.zero_add, Nat.div_lt_iff_lt_mul hbpc]
    omega
  have hasks := h.skipClusters_asks hok hskip st
  obtain ⟨st₁, hrun₁, -⟩ := h.skipClusters_spec hok st hskip
  rw [hrun₁] at hasks
  rw [fat32ReadFile, if_neg hoff, f.clamp_eq (by omega) hsz, h.bytesPerCluster_eq,
    Nat.mod_eq_of_lt (show off < 2 ^ 32 by omega)] at hrun
  simp only [if_neg (Nat.pos_iff_ne_zero.mp hbpc)] at hrun
  rw [show f.startCluster = img.chain f.startCluster 0 from rfl, hrun₁] at hrun
  dsimp only at hrun
  rw [Nat.zero_add] at hrun
  exact hasks.trans (h.readClusters_asks hok (show off + f.readCount off sz ≤ k * img.bytesPerCluster by omega)
    (Nat.mod_lt off hbpc) (show off + 0 = _ from hdiv.symm) hrun)

theorem Mounted.scanClusters_asks (h : img.Mounted vol) (hok : img.ChainOk start k) {n i fuel : Nat}
    (hik : i + n = k) {sc sc' : DirScan}
    (hend : (DirScan.scan ((List.range' i n).flatMap fun j => img.clusterDirents (img.chain start j)) sc).1 = true ∨
      fatEoc ≤ img.chain start k)
    (hrun : scanClusters (Device.ofDisk img.disk) vol fuel (img.chain start i) sc st = .ok (sc', st')) :
    OnlyAsks (img.Needs start k) st st' := by
  induction n generalizing i fuel sc st with
  | zero =>
      obtain rfl : i = k := hik
      -- the entries of no clusters have no end mark, so the chain is at its end
      have heoc : ¬ img.chain start i < fatEoc := by
        rcases hend with hend | hend
        · exact absurd hend Bool.false_ne_true
        · omega
      cases fuel with
      | zero => exact nomatch hrun
      | succ fuel =>
          rw [scanClusters, if_neg heoc] at hrun
          obtain ⟨-, rfl⟩ := Prod.mk.inj (Except.ok.inj hrun)
          exact .refl _ st
  | succ n ih =>
      have hi : i < k := by omega
      obtain ⟨h2, hbad⟩ := hok.cluster i hi
      have hasks : OnlyAsks (img.Needs start k) st (scanCluster (Device.ofDisk img.disk) vol
          (clusterToLba vol (img.chain start i)) vol.sectorsPerCluster 0 sc st).2.2 := by
        refine .scanCluster sc fun t ht => h.needs_sector hok hi ?_
        rw [h.sectorsPerCluster_eq] at ht
        omega
      obtain ⟨st₁, hcluster⟩ := h.scanCluster_spec h2 hbad (hok.sector_lt i hi) sc st
      rw [hcluster] at hasks
      rw [List.range'_succ, List.flatMap_cons, DirScan.scan_append] at hend
      cases fuel with
      | zero => exact nomatch hrun
      | succ fuel =>
          rw [scanClusters, if_pos (hbad.trans (by decide)), hcluster] at hrun
          cases hscan : DirScan.scan (img.clusterDirents (img.chain start i)) sc with
          | mk done sc₁ =>
              rw [hscan] at hend hrun
              cases done with
              | true =>
                  -- the end mark is in this cluster
                  obtain ⟨-, rfl⟩ := Prod.mk.inj (Except.ok.inj hrun)
                  exact hasks
              | false =>
                  obtain ⟨hvalue, -⟩ := h.nextCluster_eq hbad (hok.fatSector_lt i hi) st₁
                  rw [← img.chain_succ] at hvalue
                  dsimp only at hrun
                  rw [hvalue] at hrun
                  exact (hasks.trans (h.nextCluster_asks hok hi (Device.ofDisk img.disk) st₁)).trans
                    (ih (by omega) hend hrun)

end FatImage

end Aerogel
