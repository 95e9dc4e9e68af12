import Aerogel.Filesystem.Fat32Read
import Aerogel.Filesystem.FatDirLoad
import Aerogel.Foundations.EventLog

/-! # What the FAT32 driver does with its sector buffer

`fat32_read_file` and `load_dir` again, with a log: which cluster a FAT entry is looked up for and what is
found, which sector of which cluster is read as contents, which bytes are copied where, and how many nodes
are made of a sector. The loops of `fat32_read_file` compute in `u32` here; `copyChunkLog_rule` and
`readClustersLog_rule` say that nothing wraps around, that the loops end whatever is on the disk, and turn
what one round preserves into what holds at the end. -/

namespace Aerogel

/-- What happens to the sector buffer. Calls of `read_sector` are numbered. -/
inductive FatEvent
  /-- `next_cluster` of a cluster: four bytes at `off` in the buffer give `value`. -/
  | lookup (call cluster off value : Nat)
  /-- Sector `s` of a cluster is read as contents. -/
  | sector (call cluster s lba : Nat)
  /-- Bytes are copied from `off` in the buffer to `dst`. -/
  | copy (dst off take : Nat)
  /-- So many nodes are made of the entries in the buffer. -/
  | nodes (count : Nat)
  deriving DecidableEq, Repr

/-- The state of the driver with the events so far, oldest first. -/
structure FatRun extends FatState where
  /-- The events. -/
  log : List FatEvent

/-- `next_cluster` with its event. -/
def nextClusterLog (dev : Device) (vol : FatVol) (cluster : Nat) (r : FatRun) : Nat × FatRun :=
  let (value, st) := nextCluster dev vol cluster r.toFatState
  (value, ⟨st, r.log ++ [.lookup r.reads.length cluster (cluster * 4 % 2 ^ 32 % 512) value]⟩)

namespace FatRun

/-- Sector `s` of a cluster is read. -/
def readContents (dev : Device) (vol : FatVol) (cluster s lba : Nat) (r : FatRun) : FatRun :=
  ⟨readSector dev vol.sectorBuf .contents lba r.toFatState,
    r.log ++ [.sector r.reads.length cluster s lba]⟩

/-- Bytes are copied out of the buffer. -/
def copyOut (vol : FatVol) (dst off take : Nat) (r : FatRun) : FatRun :=
  ⟨⟨memcpy r.mem dst (vol.sectorBuf + off) take, r.reads⟩, r.log ++ [.copy dst off take]⟩

/-- Another event, while memory stays as it is. -/
def note (e : FatEvent) (r : FatRun) : FatRun := { r with log := r.log ++ [e] }

end FatRun

/-! ## `fat32_read_file` -/

/-- The first loop of `fat32_read_file`. -/
def skipClustersLog (dev : Device) (vol : FatVol) : Nat → Nat → FatRun → Option Nat × FatRun
  | 0, cluster, r => (some cluster, r)
  | skip + 1, cluster, r =>
    let (cluster, r) := nextClusterLog dev vol cluster r
    if fatEoc ≤ cluster then (none, r) else skipClustersLog dev vol skip cluster r

/-- The inner loop of `fat32_read_file`, in `u32`. -/
def copyChunkLog (dev : Device) (vol : FatVol) (cluster lba chunk dst : Nat) :
    Nat → Nat → Nat → Nat → FatRun → Except Halt FatRun
  | 0, _, _, _, _ => .error .diverges
  | fuel + 1, secOff, byteOff, wrote, r =>
    if wrote < chunk then
      let r := r.readContents dev vol cluster secOff ((lba + secOff) % 2 ^ 32)
      let take := wsub 32 512 byteOff
      let take := if wsub 32 chunk wrote < take then wsub 32 chunk wrote else take
      let r := r.copyOut vol (dst + wrote) byteOff take
      copyChunkLog dev vol cluster lba chunk dst fuel ((secOff + 1) % 2 ^ 32) 0
        ((wrote + take) % 2 ^ 32) r
    else .ok r

/-- The outer loop of `fat32_read_file`, in `u32`. -/
def readClustersLog (dev : Device) (vol : FatVol) (size buf : Nat) :
    Nat → Nat → Nat → Nat → FatRun → Except Halt (Nat × FatRun)
  | 0, _, _, _, _ => .error .diverges
  | fuel + 1, readTotal, inCluster, cluster, r =>
    if readTotal < size ∧ cluster < fatEoc then do
      let avail := wsub 32 vol.bytesPerCluster inCluster
      let chunk := if wsub 32 size readTotal < avail then wsub 32 size readTotal else avail
      let r ← copyChunkLog dev vol cluster (clusterToLba vol cluster) chunk (buf + readTotal) fuel
        (inCluster / 512) (inCluster % 512) 0 r
      let (cluster, r) := nextClusterLog dev vol cluster r
      readClustersLog dev vol size buf fuel ((readTotal + chunk) % 2 ^ 32) 0 cluster r
    else .ok (readTotal, r)

/-- `fat32_read_file` with its events. -/
def fat32ReadFileLog (dev : Device) (vol : FatVol) (f : FatFile) (off size buf fuel : Nat) (r : FatRun) :
    Except Halt (Nat × FatRun) :=
  if f.size ≤ off then .ok (0, r)
  else
    let size := if f.size < (off + size) % 2 ^ 64 then (f.size - off) % 2 ^ 32 else size
    let off32 := off % 2 ^ 32
    if vol.bytesPerCluster = 0 then .error (.exception 0)
    else
      match skipClustersLog dev vol (off32 / vol.bytesPerCluster) f.startCluster r with
      | (none, r) => .ok (0, r)
      | (some cluster, r) =>
        readClustersLog dev vol size buf fuel 0 (off32 % vol.bytesPerCluster) cluster r

/-! ## `load_dir` -/

/-- The loop over the sectors of a cluster. -/
def scanClusterLog (dev : Device) (vol : FatVol) (cluster lba : Nat) :
    Nat → Nat → DirScan → FatRun → Bool × DirScan × FatRun
  | 0, _, sc, r => (false, sc, r)
  | left + 1, s, sc, r =>
    let r := r.readContents dev vol cluster s ((lba + s) % 2 ^ 32)
    match DirScan.scan (sectorEntries r.mem vol.sectorBuf) sc with
    | (stop, sc') =>
      let r := r.note (.nodes (sc'.entries.length - sc.entries.length))
      if stop then (true, sc', r) else scanClusterLog dev vol cluster lba left (s + 1) sc' r

/-- The loop over the clusters; the events are there also when it does not end. -/
def scanClustersLog (dev : Device) (vol : FatVol) :
    Nat → Nat → DirScan → FatRun → Except Halt DirScan × FatRun
  | 0, _, _, r => (.error .diverges, r)
  | fuel + 1, cluster, sc, r =>
    if cluster < fatEoc then
      match scanClusterLog dev vol cluster (clusterToLba vol cluster) vol.sectorsPerCluster 0 sc r with
      | (true, sc, r) => (.ok sc, r)
      | (false, sc, r) =>
        let (cluster, r) := nextClusterLog dev vol cluster r
        scanClustersLog dev vol fuel cluster sc r
    else (.ok sc, r)

/-- `load_dir` with its events. -/
def loadDirLog (dev : Device) (vol : FatVol) (dir : FatDir) (heap : Blocks) (fuel : Nat) (r : FatRun) :
    Except Halt (FatDir × Blocks) × FatRun :=
  let (buf, heap) := heap.kmalloc .clusterBuf
  let sc : DirScan := { lfns := [], entries := [], entriesBlock := none, cap := 0, heap }
  let (result, r) := scanClustersLog dev vol fuel dir.cluster sc r
  (result.map fun sc => ({ dir with entries := sc.entries, loaded := true }, sc.heap.kfree buf), r)

/-! ## Without the log -/

variable {dev : Device} {vol : FatVol} {r : FatRun}

theorem skipClustersLog_fst (skip cluster : Nat) (r : FatRun) :
    ((skipClustersLog dev vol skip cluster r).1, (skipClustersLog dev vol skip cluster r).2.toFatState) =
      skipClusters dev vol skip cluster r.toFatState := by
  induction skip generalizing cluster r with
  | zero => rfl
  | succ skip ih =>
      rw [skipClustersLog, skipClusters]
      dsimp only [nextClusterLog]
      split_ifs
      · rfl
      · exact ih _ _

theorem scanClusterLog_fst (cluster lba left s : Nat) (sc : DirScan) (r : FatRun) :
    ((scanClusterLog dev vol cluster lba left s sc r).1,
      (scanClusterLog dev vol cluster lba left s sc r).2.1,
      (scanClusterLog dev vol cluster lba left s sc r).2.2.toFatState) =
      scanCluster dev vol lba left s sc r.toFatState := by
  induction left generalizing s sc r with
  | zero => rfl
  | succ left ih =>
      rw [scanClusterLog, scanCluster]
      dsimp only [FatRun.readContents]
      generalize DirScan.scan _ sc = scanned
      obtain ⟨stop, sc'⟩ := scanned
      cases stop with
      | true => rfl
      | false => exact ih ..

theorem scanClustersLog_fst (fuel cluster : Nat) (sc : DirScan) (r : FatRun) :
    (scanClustersLog dev vol fuel cluster sc r).1.map
        (fun sc' => (sc', (scanClustersLog dev vol fuel cluster sc r).2.toFatState)) =
      scanClusters dev vol fuel cluster sc r.toFatState := by
  induction fuel generalizing cluster sc r with
  | zero => rfl
  | succ fuel ih =>
      rw [scanClustersLog, scanClusters]
      split_ifs
      · rw [← scanClusterLog_fst cluster]
        generalize scanClusterLog dev vol cluster _ _ 0 sc r = scanned
        obtain ⟨stop, sc', r'⟩ := scanned
        cases stop with
        | true => rfl
        | false => exact ih ..
      · rfl

/-- Logging does not change what `load_dir` does. -/
theorem loadDirLog_fst (dir : FatDir) (heap : Blocks) (fuel : Nat) (r : FatRun) :
    (loadDirLog dev vol dir heap fuel r).1.map
        (fun p => (p.1, p.2, (loadDirLog dev vol dir heap fuel r).2.toFatState)) =
      loadDir dev vol dir heap fuel r.toFatState := by
  rw [loadDir, loadDirLog]
  dsimp only
  rw [← scanClustersLog_fst]
  generalize scanClustersLog dev vol fuel dir.cluster _ r = scanned
  obtain ⟨result, r'⟩ := scanned
  cases result <;> rfl

/-! ## Rules for the loops of `fat32_read_file` -/

/-- The inner loop ends, nothing wraps around, and what a round preserves holds at the end. -/
theorem copyChunkLog_rule {P : Nat → Nat → Nat → FatRun → Prop} {cluster lba chunk dst : Nat}
    (hround : ∀ secOff byteOff wrote r, wrote < chunk → byteOff < 512 → P secOff byteOff wrote r →
      P (secOff + 1) 0 (wrote + min (chunk - wrote) (512 - byteOff))
        ((r.readContents dev vol cluster secOff ((lba + secOff) % 2 ^ 32)).copyOut vol (dst + wrote)
          byteOff (min (chunk - wrote) (512 - byteOff))))
    (hchunk : chunk < 2 ^ 32) {fuel secOff byteOff wrote : Nat} (hbyte : byteOff < 512)
    (hwrote : wrote ≤ chunk) (hsec : secOff + (chunk - wrote) < 2 ^ 32) (hfuel : chunk - wrote < fuel)
    (h : P secOff byteOff wrote r) :
    ∃ secOff' byteOff' r',
      copyChunkLog dev vol cluster lba chunk dst fuel secOff byteOff wrote r = .ok r' ∧
      copyChunk dev vol lba chunk dst fuel secOff byteOff wrote r.toFatState = .ok r'.toFatState ∧
      P secOff' byteOff' chunk r' := by
  induction fuel generalizing secOff byteOff wrote r with
  | zero => omega
  | succ fuel ih =>
      rw [copyChunkLog, copyChunk]
      by_cases hmore : wrote < chunk
      · -- the subtractions of the source do not wrap, and its two branches are a minimum
        have hwsub : wsub 32 512 byteOff = 512 - byteOff := wsub_of_le hbyte.le (by decide)
        have hwsub' : wsub 32 chunk wrote = chunk - wrote := wsub_of_le hwrote hchunk
        have htake : (if chunk - wrote < 512 - byteOff then chunk - wrote else 512 - byteOff) =
            min (chunk - wrote) (512 - byteOff) := by
          split <;> omega
        rw [if_pos hmore, if_pos hmore]
        simp only [hwsub, hwsub', htake]
        rw [Nat.mod_eq_of_lt (show secOff + 1 < 2 ^ 32 by omega), Nat.mod_eq_of_lt (show wrote +
          min (chunk - wrote) (512 - byteOff) < 2 ^ 32 by omega)]
        exact ih (by decide) (by omega) (by omega) (by omega) (hround secOff byteOff wrote r hmore hbyte h)
      · obtain rfl : wrote = chunk := by omega
        rw [if_neg hmore, if_neg hmore]
        exact ⟨secOff, byteOff, r, rfl, rfl, h⟩

/-- The outer loop ends, nothing wraps around, and what a round preserves holds at the end, which comes when
the request is complete or the chain has ended. -/
theorem readClustersLog_rule {P : Nat → Nat → Nat → FatRun → Prop} {size buf : Nat}
    (hround : ∀ readTotal inCluster cluster fuel r r', readTotal < size → cluster < fatEoc →
      inCluster < vol.bytesPerCluster →
      min (size - readTotal) (vol.bytesPerCluster - inCluster) < fuel →
      copyChunkLog dev vol cluster (clusterToLba vol cluster)
        (min (size - readTotal) (vol.bytesPerCluster - inCluster)) (buf + readTotal) fuel
        (inCluster / 512) (inCluster % 512) 0 r = .ok r' →
      P readTotal inCluster cluster r →
      P (readTotal + min (size - readTotal) (vol.bytesPerCluster - inCluster)) 0
        (nextClusterLog dev vol cluster r').1 (nextClusterLog dev vol cluster r').2)
    (hpos : 0 < vol.bytesPerCluster) (hbpc : vol.bytesPerCluster < 2 ^ 31) (hsize : size < 2 ^ 32)
    {fuel readTotal inCluster cluster : Nat} (hin : inCluster < vol.bytesPerCluster)
    (hle : readTotal ≤ size) (hfuel : size - readTotal + 1 < fuel)
    (h : P readTotal inCluster cluster r) :
    ∃ n inCluster' cluster' r',
      readClustersLog dev vol size buf fuel readTotal inCluster cluster r = .ok (n, r') ∧
      readClusters dev vol size buf fuel readTotal inCluster cluster r.toFatState =
        .ok (n, r'.toFatState) ∧
      n ≤ size ∧ (n = size ∨ fatEoc ≤ cluster') ∧ P n inCluster' cluster' r' := by
  induction fuel generalizing readTotal inCluster cluster r with
  | zero => omega
  | succ fuel ih =>
      rw [readClustersLog, readClusters]
      by_cases hmore : readTotal < size ∧ cluster < fatEoc
      · have hwsub : wsub 32 vol.bytesPerCluster inCluster = vol.bytesPerCluster - inCluster :=
          wsub_of_le hin.le (by omega)
        have hwsub' : wsub 32 size readTotal = size - readTotal := wsub_of_le hle hsize
        have hchunk : (if size - readTotal < vol.bytesPerCluster - inCluster then size - readTotal
            else vol.bytesPerCluster - inCluster) =
            min (size - readTotal) (vol.bytesPerCluster - inCluster) := by
          split <;> omega
        rw [if_pos hmore, if_pos hmore]
        simp only [hwsub, hwsub', hchunk]
        generalize hmin : min (size - readTotal) (vol.bytesPerCluster - inCluster) = chunk
        -- the inner loop ends; what it preserves is the caller's business
        obtain ⟨-, -, r', hlog, hplain, -⟩ :=
          @copyChunkLog_rule dev vol r (fun _ _ _ _ => True) cluster (clusterToLba vol cluster) chunk
            (buf + readTotal) (fun _ _ _ _ _ _ _ => trivial) (by omega) fuel (inCluster / 512)
            (inCluster % 512) 0 (Nat.mod_lt _ (by decide)) (Nat.zero_le _) (by omega) (by omega) trivial
        have hP := hround readTotal inCluster cluster fuel r r' hmore.1 hmore.2 hin
          (by omega) (by rw [hmin]; exact hlog) h
        rw [hmin] at hP
        rw [hlog, hplain]
        simp only [bind, Except.bind]
        rw [Nat.mod_eq_of_lt (show readTotal + chunk < 2 ^ 32 by omega)]
        exact ih hpos (by omega) (by omega) hP
      · rw [if_neg hmore, if_neg hmore]
        refine ⟨readTotal, inCluster, cluster, r, rfl, rfl, hle, ?_, h⟩
        omega

/-- The first loop: what a round preserves holds at the end, which comes when all clusters are skipped or the
chain has ended. -/
theorem skipClustersLog_rule {Q : Nat → Nat → FatRun → Prop} {skip : Nat}
    (hround : ∀ i cluster r, i < skip → (0 < i → cluster < fatEoc) → Q i cluster r →
      Q (i + 1) (nextClusterLog dev vol cluster r).1 (nextClusterLog dev vol cluster r).2)
    {i left cluster : Nat} (hleft : i + left = skip) (hvalid : 0 < i → cluster < fatEoc)
    (h : Q i cluster r) :
    ∃ cluster' r',
      (skipClustersLog dev vol left cluster r = (some cluster', r') ∧ (0 < skip → cluster' < fatEoc) ∧
        Q skip cluster' r') ∨
      (skipClustersLog dev vol left cluster r = (none, r') ∧ fatEoc ≤ cluster' ∧
        ∃ j, 0 < j ∧ j ≤ skip ∧ Q j cluster' r') := by
  induction left generalizing i cluster r with
  | zero =>
      obtain rfl : i = skip := hleft
      exact ⟨cluster, r, Or.inl ⟨rfl, hvalid, h⟩⟩
  | succ left ih =>
      have hQ := hround i cluster r (by omega) hvalid h
      rw [skipClustersLog]
      generalize nextClusterLog dev vol cluster r = next at hQ
      obtain ⟨cluster', r'⟩ := next
      dsimp only at hQ ⊢
      split_ifs with hend
      · exact ⟨cluster', r', Or.inr ⟨rfl, hend, i + 1, Nat.succ_pos i, by omega, hQ⟩⟩
      · exact ih (by omega) (fun _ => not_le.mp hend) hQ

/-- `fat32_read_file` inside a file: it returns, whatever is on the disk, and what the rounds of its loops
preserve holds at the end. -/
theorem fat32ReadFileLog_rule {Q : Nat → Nat → FatRun → Prop} {P : Nat → Nat → Nat → FatRun → Prop}
    {f : FatFile} {off sz buf : Nat}
    (hskip : ∀ i cluster r, i < off / vol.bytesPerCluster → (0 < i → cluster < fatEoc) →
      Q i cluster r → Q (i + 1) (nextClusterLog dev vol cluster r).1 (nextClusterLog dev vol cluster r).2)
    (hstart : ∀ cluster r, Q (off / vol.bytesPerCluster) cluster r →
      P 0 (off % vol.bytesPerCluster) cluster r)
    (hround : ∀ readTotal inCluster cluster fuel r r', readTotal < f.readCount off sz →
      cluster < fatEoc → inCluster < vol.bytesPerCluster →
      min (f.readCount off sz - readTotal) (vol.bytesPerCluster - inCluster) < fuel →
      copyChunkLog dev vol cluster (clusterToLba vol cluster)
        (min (f.readCount off sz - readTotal) (vol.bytesPerCluster - inCluster)) (buf + readTotal) fuel
        (inCluster / 512) (inCluster % 512) 0 r = .ok r' →
      P readTotal inCluster cluster r →
      P (readTotal + min (f.readCount off sz - readTotal) (vol.bytesPerCluster - inCluster)) 0
        (nextClusterLog dev vol cluster r').1 (nextClusterLog dev vol cluster r').2)
    (hpos : 0 < vol.bytesPerCluster) (hbpc : vol.bytesPerCluster < 2 ^ 31) (hoff : off < f.size)
    (hsz : sz < 2 ^ 32) {fuel : Nat} (hfuel : f.readCount off sz + 1 < fuel)
    (h : Q 0 f.startCluster r) :
    ∃ n r', fat32ReadFileLog dev vol f off sz buf fuel r = .ok (n, r') ∧
      fat32ReadFile dev vol f off sz buf fuel r.toFatState = .ok (n, r'.toFatState) ∧
      ((n = 0 ∧ ∃ i cluster, 0 < i ∧ i ≤ off / vol.bytesPerCluster ∧ fatEoc ≤ cluster ∧
          Q i cluster r') ∨
        ∃ inCluster cluster, n ≤ f.readCount off sz ∧ (n = f.readCount off sz ∨ fatEoc ≤ cluster) ∧
          P n inCluster cluster r') := by
  have hsize := f.size_lt
  have hcount := f.readCount_le off sz
  have hmod : off % 2 ^ 32 = off := Nat.mod_eq_of_lt (by omega)
  rw [fat32ReadFileLog, fat32ReadFile, f.clamp_eq hoff hsz, hmod]
  simp only [if_neg (not_le.mpr hoff), if_neg (Nat.pos_iff_ne_zero.mp hpos)]
  obtain ⟨cluster, r₁, ⟨hrun, -, hQ⟩ | ⟨hrun, heoc, hQ⟩⟩ :=
    skipClustersLog_rule hskip (Nat.zero_add _) (fun h0 => absurd h0 (lt_irrefl 0)) h
  · have hplain := @skipClustersLog_fst dev vol (off / vol.bytesPerCluster) f.startCluster r
    rw [hrun] at hplain ⊢
    rw [← hplain]
    obtain ⟨n, inCluster, cluster', r', hlog, hread, hn, hend, hP⟩ :=
      readClustersLog_rule hround hpos hbpc (by omega) (Nat.mod_lt off hpos) (Nat.zero_le _)
        (show f.readCount off sz - 0 + 1 < fuel by omega) (hstart cluster r₁ hQ)
    exact ⟨n, r', hlog, hread, Or.inr ⟨inCluster, cluster', hn, hend, hP⟩⟩
  · have hplain := @skipClustersLog_fst dev vol (off / vol.bytesPerCluster) f.startCluster r
    obtain ⟨j, hj₀, hj, hQ⟩ := hQ
    rw [hrun] at hplain ⊢
    rw [← hplain]
    exact ⟨0, r₁, rfl, rfl, Or.inl ⟨rfl, j, cluster, hj₀, hj, heoc, hQ⟩⟩

end Aerogel
