import Aerogel.Filesystem.FatDataClusters

/-! # Disk errors

The driver ignores what `read_sector` returns, so after a failing call it goes on with whatever the sector
buffer held before. How many calls a read makes before its last bytes arrive does not depend on the disk
(`callsFor`), and neither does which calls of `load_dir` are for contents. Errors are kept out of the results
for every volume exactly when none of these calls fails (`errorsKeptOut_iff`). -/

namespace Aerogel

/-- A disk on which the calls of `read_sector` that `fail` names fail. -/
def Device.failing (disk : Nat → Sector) (fail : Nat → Bool) : Device :=
  fun i lba => if fail i then none else some (disk lba)

variable {fail : Nat → Bool} {dev : Device} {vol : FatVol} {r r' : FatRun} {log : List FatEvent}

/-- All FAT entries so far come from calls that succeeded. -/
def LookupsOk (fail : Nat → Bool) (log : List FatEvent) : Prop :=
  ∀ call c off value, .lookup call c off value ∈ log → fail call = false

/-- The sector buffer holds a sector whose call was the last one and succeeded. -/
def SectorOk (fail : Nat → Bool) (log : List FatEvent) : Prop :=
  ∃ pre call c s lba, log = pre ++ [.sector call c s lba] ∧ fail call = false

/-- What a sector buffer must hold when bytes are copied out of it: a sector that was read and that was
located through FAT entries that were read. -/
def DataOk (fail : Nat → Bool) (log : List FatEvent) : Prop := SectorOk fail log ∧ LookupsOk fail log

namespace FatEvent

/-- The event is a copy. -/
def IsCopy : FatEvent → Prop
  | .copy .. => True
  | _ => False

/-- The event makes nodes. -/
def MakesNodes : FatEvent → Prop
  | .nodes count => 0 < count
  | _ => False

end FatEvent

/-! ## The log of a read -/

theorem sectorOk_append (log : List FatEvent) (call c s lba : Nat) :
    SectorOk fail (log ++ [.sector call c s lba]) ↔ fail call = false := by
  constructor
  · rintro ⟨pre, call', c', s', lba', h, hok⟩
    obtain ⟨-, h⟩ := List.append_inj' h rfl
    obtain ⟨rfl, -⟩ := FatEvent.sector.inj (List.singleton_inj.mp h)
    exact hok
  · exact fun hok => ⟨log, call, c, s, lba, rfl, hok⟩

theorem lookupsOk_append (log new : List FatEvent) :
    LookupsOk fail (log ++ new) ↔ LookupsOk fail log ∧ LookupsOk fail new := by
  simp only [LookupsOk, List.mem_append, or_imp, forall_and]

theorem lookupsOk_singleton (call c off value : Nat) :
    LookupsOk fail [.lookup call c off value] ↔ fail call = false := by
  refine ⟨fun h => h call c off value (List.mem_singleton_self _), fun h call' c' off' value' hmem => ?_⟩
  obtain ⟨rfl, -⟩ := FatEvent.lookup.inj (List.mem_singleton.mp hmem)
  exact h

theorem dataOk_append (log : List FatEvent) (call c s lba : Nat) :
    DataOk fail (log ++ [.sector call c s lba]) ↔ fail call = false ∧ LookupsOk fail log := by
  rw [DataOk, sectorOk_append, lookupsOk_append]
  refine and_congr_right fun _ => and_iff_left fun _ _ _ _ hmem => ?_
  exact absurd (List.mem_singleton.mp hmem) (by simp)

/-- What a log says about failing calls: the copies are good exactly when none of the first `n` calls has
failed, and copies and FAT entries are good exactly when no call has failed. -/
structure Counted (fail : Nat → Bool) (n : Nat) (r : FatRun) : Prop where
  /-- Copies. -/
  copies : Before FatEvent.IsCopy (DataOk fail) r.log ↔ ∀ k < n, fail k = false
  /-- Copies and FAT entries. -/
  all : Before FatEvent.IsCopy (DataOk fail) r.log ∧ LookupsOk fail r.log ↔
    ∀ k < r.reads.length, fail k = false
  /-- Something is copied each time. -/
  pos : ∀ dst off take, .copy dst off take ∈ r.log → 0 < take

namespace Counted

variable {n : Nat}

theorem lookup (h : Counted fail n r) (dev : Device) (c : Nat) :
    Counted fail n (nextClusterLog dev vol c r).2 ∧
      (nextClusterLog dev vol c r).2.reads.length = r.reads.length + 1 := by
  have hlen : (nextClusterLog dev vol c r).2.reads.length = r.reads.length + 1 := by
    simp [nextClusterLog, nextCluster, readSector]
  have hcopies : Before FatEvent.IsCopy (DataOk fail) (nextClusterLog dev vol c r).2.log ↔
      Before FatEvent.IsCopy (DataOk fail) r.log := by
    refine (before_append ..).trans (and_iff_left ?_)
    exact (before_singleton _).mpr False.elim
  refine ⟨⟨hcopies.trans h.copies, ?_, fun dst off take hmem => ?_⟩, hlen⟩
  · rw [hlen, Nat.forall_lt_succ_right, ← h.all, and_assoc, hcopies]
    refine and_congr_right fun _ => (lookupsOk_append ..).trans (and_congr_right fun _ => ?_)
    exact lookupsOk_singleton ..
  · rcases List.mem_append.mp hmem with hmem | hmem
    · exact h.pos dst off take hmem
    · exact absurd (List.mem_singleton.mp hmem) (by simp)

theorem copy (h : Counted fail n r) (dev : Device) (c s lba dst off : Nat) {take : Nat} (htake : 0 < take) :
    Counted fail (r.reads.length + 1) ((r.readContents dev vol c s lba).copyOut vol dst off take) ∧
      ((r.readContents dev vol c s lba).copyOut vol dst off take).reads.length = r.reads.length + 1 := by
  have hlen : ((r.readContents dev vol c s lba).copyOut vol dst off take).reads.length =
      r.reads.length + 1 := by
    simp [FatRun.copyOut, FatRun.readContents, readSector]
  have hlog : ((r.readContents dev vol c s lba).copyOut vol dst off take).log =
      r.log ++ [.sector r.reads.length c s lba, .copy dst off take] := by
    simp [FatRun.copyOut, FatRun.readContents]
  have hcopies : Before FatEvent.IsCopy (DataOk fail)
      ((r.readContents dev vol c s lba).copyOut vol dst off take).log ↔
      ∀ k < r.reads.length + 1, fail k = false := by
    rw [hlog, before_append_pair, dataOk_append, Nat.forall_lt_succ_right, ← h.all]
    simp only [FatEvent.IsCopy, false_implies, true_implies, true_and]
    tauto
  refine ⟨⟨hcopies, ?_, fun dst' off' take' hmem => ?_⟩, hlen⟩
  · rw [hcopies, hlen, and_iff_left_iff_imp, hlog, lookupsOk_append, Nat.forall_lt_succ_right, ← h.all]
    intro hok
    exact ⟨hok.1.2, fun _ _ _ _ hmem => absurd hmem (by simp)⟩
  · rw [hlog] at hmem
    rcases List.mem_append.mp hmem with hmem | hmem
    · exact h.pos dst' off' take' hmem
    · simp only [List.mem_cons, List.not_mem_nil, or_false, reduceCtorEq, false_or] at hmem
      obtain ⟨-, -, rfl⟩ := FatEvent.copy.inj hmem
      exact htake

end Counted

/-! ## The calls of a read -/

/-- How many calls of `read_sector` a read from `off` on makes up to the last of `n` bytes: those for the
sectors with these bytes, and one for each cluster before the last of them. -/
def callsFor (spc off n : Nat) : Nat :=
  if n = 0 then 0 else (off + n - 1) / 512 / spc + ((off + n - 1) / 512 - off / 512) + 1

/-- More bytes take more calls. -/
theorem callsFor_mono {n n' : Nat} (spc off : Nat) (h : n ≤ n') : callsFor spc off n ≤ callsFor spc off n' := by
  unfold callsFor
  split_ifs
  · exact le_rfl
  · exact Nat.zero_le _
  · omega
  · have hsec : (off + n - 1) / 512 ≤ (off + n' - 1) / 512 := Nat.div_le_div_right (by omega)
    have := Nat.div_le_div_right (c := spc) hsec
    omega

/-- A round of the inner loop gets to the end of its sector or of the chunk. -/
theorem sector_round {start chunk secOff byteOff wrote : Nat} (hmore : wrote < chunk) (hbyte : byteOff < 512)
    (hplace : secOff * 512 + byteOff = start + wrote) :
    0 < min (chunk - wrote) (512 - byteOff) ∧
      (wrote + min (chunk - wrote) (512 - byteOff) = chunk ∨
        (secOff + 1) * 512 + 0 = start + (wrote + min (chunk - wrote) (512 - byteOff))) ∧
      secOff + 1 = (start + (wrote + min (chunk - wrote) (512 - byteOff)) - 1) / 512 + 1 := by
  rcases Nat.le_total (chunk - wrote) (512 - byteOff) with hle | hle
  · rw [Nat.min_eq_left hle]
    omega
  · rw [Nat.min_eq_right hle]
    omega

/-- The inner loop makes a call for every sector of its chunk. -/
theorem copyChunkLog_counted {n cluster lba chunk dst fuel inCluster : Nat} (h : Counted fail n r)
    (hpos : 0 < chunk) (hin : inCluster + chunk < 2 ^ 31) (hfuel : chunk < fuel)
    (hcopy : copyChunkLog dev vol cluster lba chunk dst fuel (inCluster / 512) (inCluster % 512) 0 r = .ok r') :
    Counted fail r'.reads.length r' ∧
      r'.reads.length + inCluster / 512 = r.reads.length + (inCluster + chunk - 1) / 512 + 1 := by
  obtain ⟨secOff, byteOff, r'', hrun, -, -, hlen, hsec, n', hcounted, hn'⟩ := @copyChunkLog_rule dev vol r
    (fun secOff byteOff wrote r₁ => (wrote = chunk ∨ secOff * 512 + byteOff = inCluster + wrote) ∧
      r₁.reads.length + inCluster / 512 = r.reads.length + secOff ∧
      (0 < wrote → secOff = (inCluster + wrote - 1) / 512 + 1) ∧
      ∃ n', Counted fail n' r₁ ∧ (0 < wrote → n' = r₁.reads.length))
    cluster lba chunk dst
    (fun secOff byteOff wrote r₁ hmore hbyte ⟨hat, hlen, _, n', hcounted, _⟩ => by
      obtain ⟨htake, hat', hsec'⟩ := sector_round hmore hbyte (hat.resolve_left (Nat.ne_of_lt hmore))
      obtain ⟨hcounted', hlen'⟩ := hcounted.copy dev cluster secOff ((lba + secOff) % 2 ^ 32) (dst + wrote)
        byteOff htake
      exact ⟨hat', by omega, fun _ => hsec', _, hcounted', fun _ => hlen'.symm⟩)
    (by omega) fuel (inCluster / 512) (inCluster % 512) 0 (Nat.mod_lt _ (by decide)) (Nat.zero_le _)
    (by omega) (by omega)
    ⟨Or.inr (by omega), rfl, fun h0 => absurd h0 (lt_irrefl 0), n, h, fun h0 => absurd h0 (lt_irrefl 0)⟩
  obtain rfl : r'' = r' := Except.ok.inj (hrun.symm.trans hcopy)
  rw [hn' hpos] at hcounted
  have := hsec hpos
  exact ⟨hcounted, by omega⟩

/-- The sectors of a file from its start on, in terms of clusters. -/
theorem sector_eq {spc k p : Nat} : (k * (spc * 512) + p) / 512 = k * spc + p / 512 := by
  rw [← Nat.mul_assoc, Nat.mul_comm _ 512, Nat.mul_add_div (by decide)]

/-- The calls up to the end of a chunk in the `k`-th cluster. -/
theorem callsFor_chunk {spc off n chunk k inCluster : Nat} (hspc : 1 ≤ spc) (hpos : 0 < chunk)
    (hk : k * (spc * 512) + inCluster = off + n) (hin : inCluster + chunk ≤ spc * 512) :
    callsFor spc off (n + chunk) = k + (k * spc + (inCluster + chunk - 1) / 512 - off / 512) + 1 := by
  have hplace : off + (n + chunk) - 1 = k * (spc * 512) + (inCluster + chunk - 1) := by omega
  have hlast : (off + (n + chunk) - 1) / 512 = k * spc + (inCluster + chunk - 1) / 512 := by
    rw [hplace, sector_eq]
  -- the last sector of the chunk is in this cluster
  have hsector : (inCluster + chunk - 1) / 512 < spc := by omega
  have hcluster : (off + (n + chunk) - 1) / 512 / spc = k := by
    rw [hlast, Nat.mul_comm, Nat.mul_add_div hspc, Nat.div_eq_of_lt hsector, Nat.add_zero]
  rw [callsFor, if_neg (by omega), hcluster, hlast]

/-- A read that returns `n` bytes depends on the calls for these bytes. -/
theorem fat32ReadFileLog_counted (fail : Nat → Bool) (dev : Device) (vol : FatVol)
    (hbpc : vol.bytesPerCluster = vol.sectorsPerCluster * 512) (hspc : 1 ≤ vol.sectorsPerCluster)
    (hspc' : vol.sectorsPerCluster < 256) {f : FatFile} {off sz fuel : Nat} (hoff : off < f.size)
    (hsz : sz < 2 ^ 32) (buf : Nat) (m : Mem) (hfuel : f.readCount off sz + 1 < fuel) :
    ∃ n r, fat32ReadFileLog dev vol f off sz buf fuel ⟨⟨m, []⟩, []⟩ = .ok (n, r) ∧
      n ≤ f.readCount off sz ∧ Counted fail (callsFor vol.sectorsPerCluster off n) r := by
  obtain ⟨n, r, hlog, -, hend⟩ := @fat32ReadFileLog_rule dev vol ⟨⟨m, []⟩, []⟩
    (fun i _ r => r.reads.length = i ∧ Counted fail 0 r)
    (fun readTotal inCluster _ r => Counted fail (callsFor vol.sectorsPerCluster off readTotal) r ∧
      (readTotal < f.readCount off sz → ∃ k, k * vol.bytesPerCluster + inCluster = off + readTotal ∧
        r.reads.length + off / 512 = k + (off + readTotal) / 512))
    f off sz buf
    (fun i cluster r _ _ ⟨hlen, h⟩ => by
      obtain ⟨h', hlen'⟩ := h.lookup dev cluster
      exact ⟨by omega, h'⟩)
    (fun cluster r ⟨hlen, h⟩ => ⟨h, fun _ => ⟨off / vol.bytesPerCluster, by
      rw [Nat.mul_comm, Nat.div_add_mod, Nat.add_zero], by rw [hlen, Nat.add_zero]⟩⟩)
    (fun readTotal inCluster cluster fuel r r' hmore heoc hin hfuel hcopy ⟨h, hat⟩ => by
      obtain ⟨k, hk, hlen⟩ := hat hmore
      generalize hchunk : min (f.readCount off sz - readTotal) (vol.bytesPerCluster - inCluster) = chunk at *
      obtain ⟨h', hlen'⟩ := copyChunkLog_counted h (by omega) (by omega) hfuel hcopy
      obtain ⟨h'', hlen''⟩ := h'.lookup dev cluster
      rw [hbpc] at hk hin hchunk
      have hsec : (off + readTotal) / 512 = k * vol.sectorsPerCluster + inCluster / 512 := by
        rw [← hk, sector_eq]
      have hge : off / 512 ≤ (off + readTotal) / 512 := Nat.div_le_div_right (Nat.le_add_right ..)
      have hcalls : callsFor vol.sectorsPerCluster off (readTotal + chunk) = r'.reads.length := by
        rw [callsFor_chunk hspc (by omega) hk (by omega)]
        omega
      -- there is more to read only when the chunk has filled its cluster
      refine ⟨by rwa [hcalls], fun hmore' => ⟨k + 1, ?_, ?_⟩⟩
      · rw [hbpc, Nat.add_one_mul]
        omega
      · have hfull : off + (readTotal + chunk) = (k + 1) * (vol.sectorsPerCluster * 512) + 0 := by
          rw [Nat.add_one_mul]
          omega
        rw [hfull, sector_eq, Nat.add_one_mul]
        omega)
    (by omega) (by omega) hoff hsz fuel hfuel
    ⟨rfl, ⟨by simp, by simp [LookupsOk], by simp⟩⟩
  obtain ⟨rfl, i, cluster, -, -, -, -, h⟩ | ⟨inCluster, cluster, hn, -, h, -⟩ := hend
  · exact ⟨0, r, hlog, Nat.zero_le _, h⟩
  · exact ⟨n, r, hlog, hn, h⟩

/-- Every byte that a read counts was copied, each time from a sector that was read and that was located
through FAT entries that were read. A division by zero, on a volume without sectors in a cluster, counts
nothing. -/
def FileErrorsKeptOut (fail : Nat → Bool) (disk : Nat → Sector) (vol : FatVol) (f : FatFile)
    (off sz buf : Nat) (m : Mem) : Prop :=
  ∃ fuel₀, ∀ fuel, fuel₀ ≤ fuel →
    (∃ n r, fat32ReadFileLog (Device.failing disk fail) vol f off sz buf fuel ⟨⟨m, []⟩, []⟩ = .ok (n, r) ∧
      ∀ x, buf ≤ x → x < buf + n →
        (∃ e ∈ r.log, e.Writes x) ∧ Before (FatEvent.Writes x) (DataOk fail) r.log) ∨
    fat32ReadFileLog (Device.failing disk fail) vol f off sz buf fuel ⟨⟨m, []⟩, []⟩ = .error (.exception 0)

/-- A read keeps errors out exactly when none of the calls for the bytes it returns fails. -/
theorem bytesOk_iff (fail : Nat → Bool) (dev : Device) (vol : FatVol)
    (hbpc : vol.bytesPerCluster = vol.sectorsPerCluster * 512) (hspc : 1 ≤ vol.sectorsPerCluster)
    (hspc' : vol.sectorsPerCluster < 256) {f : FatFile} {off sz fuel : Nat} (hoff : off < f.size)
    (hsz : sz < 2 ^ 32) (buf : Nat) (m : Mem) (hfuel : f.readCount off sz + 1 < fuel) :
    ∃ n r, fat32ReadFileLog dev vol f off sz buf fuel ⟨⟨m, []⟩, []⟩ = .ok (n, r) ∧
      n ≤ f.readCount off sz ∧
      ((∀ x, buf ≤ x → x < buf + n →
        (∃ e ∈ r.log, e.Writes x) ∧ Before (FatEvent.Writes x) (DataOk fail) r.log) ↔
        ∀ k < callsFor vol.sectorsPerCluster off n, fail k = false) := by
  obtain ⟨n, r, hrun, hn, hcounted⟩ :=
    fat32ReadFileLog_counted fail dev vol hbpc hspc hspc' hoff hsz buf m hfuel
  obtain ⟨n', r', -, hrun', -, -, hbounded⟩ :=
    readBounded_of_fuel dev vol hbpc hspc hspc' f hsz buf ⟨m, []⟩ hfuel
  obtain ⟨rfl, rfl⟩ := Prod.mk.inj (Except.ok.inj (hrun'.symm.trans hrun))
  refine ⟨n', r', hrun, hn, ?_⟩
  rw [← hcounted.copies]
  constructor
  · -- the first byte of a copy is one of those counted
    intro h pre e post hlog he
    match e, he with
    | .copy dst o take, _ =>
      have hmem : FatEvent.copy dst o take ∈ r'.log := by rw [hlog]; simp
      have hwrites : FatEvent.Writes dst (.copy dst o take) :=
        ⟨le_rfl, Nat.lt_add_of_pos_right (hcounted.pos dst o take hmem)⟩
      obtain ⟨hlo, hhi⟩ := (hbounded.writes dst).mp ⟨_, hmem, hwrites⟩
      exact (h dst hlo hhi).2 pre _ post hlog hwrites
  · intro h x hlo hhi
    refine ⟨(hbounded.writes x).mpr ⟨hlo, hhi⟩, fun pre e post hlog he => h pre e post hlog ?_⟩
    match e, he with
    | .copy _ _ _, _ => exact trivial

/-! ## Volumes on which nothing ends -/

/-- A sector in which every 32-bit word is 2: every FAT entry leads to cluster 2, and every directory entry
is a file. -/
def twos : Sector := fun i => if i.val % 4 = 0 then 2 else 0

/-- A disk with such sectors behind its boot sector, which says that a cluster has `spc` sectors. -/
def twosDisk (spc : UInt8) : Nat → Sector
  | 0 => fun i => match i.val with
    | 12 => 2
    | 13 => spc
    | 14 => 1
    | 16 => 1
    | 36 => 1
    | 44 => 2
    | _ => 0
  | _ => twos

/-- The volume on it. -/
def twosVol (spc : UInt8) : FatVol where
  partLba := 0
  fatLba := 1
  dataLba := 2
  rootCluster := 2
  sectorsPerCluster := spc.toNat
  bytesPerCluster := spc.toNat * 512
  sectorBuf := 4096

theorem twosDisk_mount (spc : UInt8) :
    (fat32Mount (Device.ofDisk (twosDisk spc)) 0 4096 zeroState).1 = some (twosVol spc) := by
  have hsector : (twosDisk spc 0).load 11 2 = 512 ∧ (twosDisk spc 0).load 13 1 = spc.toNat ∧
      (twosDisk spc 0).load 14 2 = 1 ∧ (twosDisk spc 0).load 16 1 = 1 ∧ (twosDisk spc 0).load 36 4 = 1 ∧
      (twosDisk spc 0).load 44 4 = 2 := by
    simp [Sector.load, Mem.load, writeSector, twosDisk]
  simp only [fat32Mount, FatImage.readSector_mem, FatImage.bpb_get_writeSector]
  simp only [bpb, hsector]
  rfl

/-- The sector buffer holds such a sector. -/
def HoldsTwos (m : Mem) : Prop := ∀ i (hi : i < 512), m (4096 + i) = twos ⟨i, hi⟩

variable {spc : UInt8} {m : Mem}

/-- Reading such a sector, or failing to, keeps it. -/
theorem HoldsTwos.readSector {st : FatState} (h : HoldsTwos st.mem) (why : ReadFor) {lba : Nat}
    (hlba : 0 < lba) :
    HoldsTwos (readSector (Device.failing (twosDisk spc) fail) 4096 why lba st).mem := by
  intro i hi
  obtain ⟨lba, rfl⟩ : ∃ k, lba = k + 1 := ⟨lba - 1, by omega⟩
  rw [Aerogel.readSector, Device.failing]
  cases fail st.reads.length with
  | true => exact h i hi
  | false => exact writeSector_apply _ _ hi

/-- Every cluster is followed by cluster 2. -/
theorem HoldsTwos.nextCluster {st : FatState} (h : HoldsTwos st.mem) :
    (nextCluster (Device.failing (twosDisk spc) fail) (twosVol spc) 2 st).1 = 2 ∧
      HoldsTwos (nextCluster (Device.failing (twosDisk spc) fail) (twosVol spc) 2 st).2.mem := by
  have h' : HoldsTwos (Aerogel.readSector (Device.failing (twosDisk spc) fail) 4096 .fat 1 st).mem :=
    h.readSector .fat Nat.one_pos
  refine ⟨?_, h'⟩
  change Mem.load (Aerogel.readSector (Device.failing (twosDisk spc) fail) 4096 .fat 1 st).mem (4096 + 8) 4
    &&& 0x0FFFFFFF = 2
  simp only [Mem.load, Nat.reduceAdd, h' 8 (by decide), h' 9 (by decide), h' 10 (by decide),
    h' 11 (by decide)]
  decide

/-- Copying to somewhere behind the buffer keeps it as well. -/
theorem HoldsTwos.memcpy (h : HoldsTwos m) {dst : Nat} (hdst : 4096 + 512 ≤ dst) (src n : Nat) :
    HoldsTwos (memcpy m dst src n) := by
  intro i hi
  rw [memcpy_apply_of_outside _ (by omega)]
  exact h i hi

theorem clusterToLba_twosVol (spc : UInt8) : clusterToLba (twosVol spc) 2 = 2 := by
  simp [clusterToLba, twosVol, wsub]

/-- A read from such a volume is complete, whatever fails. -/
theorem fat32ReadFileLog_twos (fail : Nat → Bool) (hspc : 0 < spc.toNat) {f : FatFile}
    (hstart : f.startCluster = 2) {off sz buf fuel : Nat} (hoff : off < f.size) (hsz : sz < 2 ^ 32)
    (hbuf : 4096 + 512 ≤ buf) (hm : HoldsTwos m) (hfuel : f.readCount off sz + 1 < fuel) :
    ∃ r, fat32ReadFileLog (Device.failing (twosDisk spc) fail) (twosVol spc) f off sz buf fuel
      ⟨⟨m, []⟩, []⟩ = .ok (f.readCount off sz, r) := by
  have hspc' : spc.toNat < 256 := spc.toNat_lt
  obtain ⟨n, r, hlog, -, hend⟩ := @fat32ReadFileLog_rule (Device.failing (twosDisk spc) fail) (twosVol spc)
    ⟨⟨m, []⟩, []⟩ (fun _ cluster r => cluster = 2 ∧ HoldsTwos r.mem)
    (fun _ _ cluster r => cluster = 2 ∧ HoldsTwos r.mem) f off sz buf
    (fun i cluster r _ _ ⟨hcluster, h⟩ => by
      subst hcluster
      exact h.nextCluster)
    (fun cluster r h => h)
    (fun readTotal inCluster cluster fuel r r' hmore heoc hin hfuel hcopy ⟨hcluster, h⟩ => by
      subst hcluster
      have hin' : inCluster < spc.toNat * 512 := hin
      generalize hchunk : min (f.readCount off sz - readTotal) ((twosVol spc).bytesPerCluster - inCluster) =
        chunk at *
      have hchunk' : inCluster + chunk ≤ spc.toNat * 512 := by
        change min _ (spc.toNat * 512 - inCluster) = chunk at hchunk
        omega
      obtain ⟨-, -, r'', hrun, -, -, h'⟩ := @copyChunkLog_rule (Device.failing (twosDisk spc) fail)
        (twosVol spc) r
        (fun secOff byteOff wrote r₁ => (wrote = chunk ∨ secOff * 512 + byteOff = inCluster + wrote) ∧
          HoldsTwos r₁.mem)
        2 (clusterToLba (twosVol spc) 2) chunk (buf + readTotal)
        (fun secOff byteOff wrote r₁ hmore hbyte ⟨hat, h⟩ => by
          refine ⟨by omega, ?_⟩
          apply HoldsTwos.memcpy _ (by omega)
          apply h.readSector
          rw [clusterToLba_twosVol]
          omega)
        (by omega) fuel (inCluster / 512) (inCluster % 512) 0 (Nat.mod_lt _ (by decide)) (Nat.zero_le _)
        (by omega) (by omega) ⟨Or.inr (by omega), h⟩
      obtain rfl : r'' = r' := Except.ok.inj (hrun.symm.trans hcopy)
      exact h'.nextCluster)
    (by change 0 < spc.toNat * 512; omega) (by change spc.toNat * 512 < _; omega) hoff hsz fuel hfuel
    ⟨hstart, hm⟩
  obtain ⟨-, i, cluster, -, -, heoc, rfl, -⟩ | ⟨inCluster, cluster, -, hdone, rfl, -⟩ := hend
  · exact absurd heoc (by decide)
  · obtain rfl := hdone.resolve_right (by decide)
    exact ⟨r, hlog⟩

/-! ## Directories -/

/-- No node is made of a sector whose call failed, for as long as loading the directory takes. -/
def DirErrorsKeptOut (fail : Nat → Bool) (disk : Nat → Sector) (vol : FatVol) (cluster : Nat)
    (heap : Blocks) (m : Mem) : Prop :=
  ∀ fuel, Before FatEvent.MakesNodes (SectorOk fail)
    (loadDirLog (Device.failing disk fail) vol ⟨cluster, [], false⟩ heap fuel ⟨⟨m, []⟩, []⟩).2.log

/-- One round of the loop over the sectors. -/
theorem before_note (cluster s lba count : Nat) (r : FatRun) :
    Before FatEvent.MakesNodes (SectorOk fail)
        ((r.readContents dev vol cluster s lba).note (.nodes count)).log ↔
      Before FatEvent.MakesNodes (SectorOk fail) r.log ∧ (0 < count → fail r.reads.length = false) := by
  have hlog : ((r.readContents dev vol cluster s lba).note (.nodes count)).log =
      r.log ++ [.sector r.reads.length cluster s lba, .nodes count] := by
    simp [FatRun.note, FatRun.readContents]
  rw [hlog, before_append_pair, sectorOk_append]
  simp [FatEvent.MakesNodes]

/-- A FAT entry between two clusters. -/
theorem before_lookup (cluster : Nat) (r : FatRun) :
    Before FatEvent.MakesNodes (SectorOk fail) (nextClusterLog dev vol cluster r).2.log ↔
      Before FatEvent.MakesNodes (SectorOk fail) r.log := by
  refine (before_append ..).trans (and_iff_left ?_)
  exact (before_singleton _).mpr False.elim

theorem length_reads_note (cluster s lba count : Nat) (r : FatRun) :
    ((r.readContents dev vol cluster s lba).note (.nodes count)).reads.length = r.reads.length + 1 := by
  simp [FatRun.note, FatRun.readContents, readSector]

theorem length_reads_lookup (cluster : Nat) (r : FatRun) :
    (nextClusterLog dev vol cluster r).2.reads.length = r.reads.length + 1 := by
  simp [nextClusterLog, nextCluster, readSector]

/-- The calls for contents: all but the last one of each cluster. -/
def contentsCall (spc k : Nat) : Prop := k % (spc + 1) < spc

/-- The call for sector `s` of the `i`-th cluster. -/
theorem contentsCall_sector {spc s : Nat} (i : Nat) (hs : s < spc) : contentsCall spc (i * (spc + 1) + s) := by
  rw [contentsCall, Nat.mul_add_mod_of_lt (by omega)]
  exact hs

/-- The sectors of a cluster, when no call for contents fails. -/
theorem scanClusterLog_before (hok : ∀ k, contentsCall vol.sectorsPerCluster k → fail k = false)
    {cluster lba left s i : Nat} {sc : DirScan} (hleft : s + left = vol.sectorsPerCluster)
    (hcalls : r.reads.length = i * (vol.sectorsPerCluster + 1) + s)
    (h : Before FatEvent.MakesNodes (SectorOk fail) r.log) :
    Before FatEvent.MakesNodes (SectorOk fail) (scanClusterLog dev vol cluster lba left s sc r).2.2.log ∧
      ((scanClusterLog dev vol cluster lba left s sc r).1 = false →
        (scanClusterLog dev vol cluster lba left s sc r).2.2.reads.length =
          i * (vol.sectorsPerCluster + 1) + vol.sectorsPerCluster) := by
  induction left generalizing s sc r with
  | zero => exact ⟨h, fun _ => hcalls.trans (congrArg _ hleft)⟩
  | succ left ih =>
      rw [scanClusterLog]
      dsimp only
      generalize DirScan.scan _ sc = scanned
      obtain ⟨stop, sc'⟩ := scanned
      dsimp only
      have h' := (@before_note fail dev vol cluster s ((lba + s) % 2 ^ 32)
        (sc'.entries.length - sc.entries.length) r).mpr
        ⟨h, fun _ => hok _ (hcalls ▸ contentsCall_sector i (by omega))⟩
      cases stop with
      | true => exact ⟨h', fun hstop => absurd hstop (by simp)⟩
      | false =>
          refine ih (by omega) ?_ h'
          rw [length_reads_note, hcalls, Nat.add_assoc]

/-- The clusters of a directory, when no call for contents fails. -/
theorem scanClustersLog_before (hok : ∀ k, contentsCall vol.sectorsPerCluster k → fail k = false)
    {fuel cluster i : Nat} {sc : DirScan} (hcalls : r.reads.length = i * (vol.sectorsPerCluster + 1))
    (h : Before FatEvent.MakesNodes (SectorOk fail) r.log) :
    Before FatEvent.MakesNodes (SectorOk fail) (scanClustersLog dev vol fuel cluster sc r).2.log := by
  induction fuel generalizing cluster sc r i with
  | zero => exact h
  | succ fuel ih =>
      rw [scanClustersLog]
      split_ifs
      · obtain ⟨h', hcalls'⟩ := @scanClusterLog_before fail dev vol r hok cluster (clusterToLba vol cluster)
          vol.sectorsPerCluster 0 i sc (Nat.zero_add _) hcalls h
        generalize scanClusterLog dev vol cluster _ _ 0 sc r = scanned at h' hcalls'
        obtain ⟨stop, sc', r'⟩ := scanned
        cases stop with
        | true => exact h'
        | false =>
            have hlen := @length_reads_lookup dev vol cluster r'
            rw [hcalls' rfl, Nat.add_assoc, ← Nat.add_one_mul] at hlen
            exact ih hlen ((before_lookup cluster r').mpr h')
      · exact h

/-- The directory entries of a sector of twos. -/
def twosDirent : Dirent := fun i => if i.val % 4 = 0 then 2 else 0

theorem HoldsTwos.sectorEntries (h : HoldsTwos m) :
    sectorEntries m 4096 = List.replicate 16 twosDirent := by
  rw [List.eq_replicate_iff]
  refine ⟨by simp [Aerogel.sectorEntries], fun de hde => ?_⟩
  obtain ⟨i, hi, rfl⟩ := List.mem_map.mp hde
  have hi' := List.mem_range.mp hi
  funext k
  rw [Dirent.read, Nat.add_assoc, h (32 * i + k) (by omega), twosDirent, twos]
  congr 1
  simp only [eq_iff_iff]
  omega

/-- Each of them becomes a node. -/
theorem scan_twosDirent (n : Nat) (sc : DirScan) :
    (DirScan.scan (List.replicate n twosDirent) sc).1 = false ∧
      (DirScan.scan (List.replicate n twosDirent) sc).2.entries.length = sc.entries.length + n := by
  induction n generalizing sc with
  | zero => exact ⟨rfl, rfl⟩
  | succ n ih =>
      have hstep : sc.step twosDirent =
          some ((sc.makeNode twosDirent).2.addNode (sc.makeNode twosDirent).1) := by
        rw [DirScan.step, if_neg (by decide), if_neg (by decide), if_neg (by decide +kernel),
          if_neg (by decide +kernel), if_neg (by decide)]
      obtain ⟨hfst, hlen⟩ := ih ((sc.makeNode twosDirent).2.addNode (sc.makeNode twosDirent).1)
      rw [(Vfat.addNode_scan _ _).2, (Vfat.makeNode_scan _ _).2] at hlen
      rw [List.replicate_succ, Vfat.scan_cons hstep]
      refine ⟨hfst, hlen.trans ?_⟩
      rw [List.length_append, List.length_singleton]
      omega

/-- The sectors of a cluster of twos: there are always more, and nodes are made of each. -/
theorem scanClusterLog_twos {left s : Nat} (hs : s + left ≤ 256) (sc : DirScan) (h : HoldsTwos r.mem) :
    ∃ sc' r', scanClusterLog (Device.failing (twosDisk spc) fail) (twosVol spc) 2
        (clusterToLba (twosVol spc) 2) left s sc r = (false, sc', r') ∧ HoldsTwos r'.mem ∧
      r'.reads.length = r.reads.length + left ∧
      (Before FatEvent.MakesNodes (SectorOk fail) r'.log →
        Before FatEvent.MakesNodes (SectorOk fail) r.log ∧
          ∀ j < left, fail (r.reads.length + j) = false) := by
  induction left generalizing s sc r with
  | zero => exact ⟨sc, r, rfl, h, rfl, fun hb => ⟨hb, fun j hj => absurd hj (Nat.not_lt_zero j)⟩⟩
  | succ left ih =>
      rw [scanClusterLog]
      dsimp only
      have hread : HoldsTwos (r.readContents (Device.failing (twosDisk spc) fail) (twosVol spc) 2 s
          ((clusterToLba (twosVol spc) 2 + s) % 2 ^ 32)).mem := by
        apply h.readSector
        rw [clusterToLba_twosVol]
        omega
      obtain ⟨hfst, hlen⟩ := scan_twosDirent 16 sc
      rw [show (twosVol spc).sectorBuf = 4096 from rfl, hread.sectorEntries]
      generalize DirScan.scan (List.replicate 16 twosDirent) sc = scanned at hfst hlen
      obtain ⟨stop, sc₁⟩ := scanned
      obtain rfl : stop = false := hfst
      dsimp only at hlen ⊢
      rw [if_neg Bool.false_ne_true]
      obtain ⟨sc', r', hrun, hr', hcalls, hbefore⟩ := @ih ((r.readContents
        (Device.failing (twosDisk spc) fail) (twosVol spc) 2 s
        ((clusterToLba (twosVol spc) 2 + s) % 2 ^ 32)).note
        (.nodes (sc₁.entries.length - sc.entries.length))) (s + 1) (by omega) sc₁ hread
      rw [length_reads_note] at hcalls hbefore
      refine ⟨sc', r', hrun, hr', by omega, fun hb => ?_⟩
      obtain ⟨hb', hrest⟩ := hbefore hb
      obtain ⟨hold, hhere⟩ := (before_note ..).mp hb'
      refine ⟨hold, fun j hj => ?_⟩
      cases j with
      | zero => exact hhere (by omega)
      | succ j =>
          have := hrest j (by omega)
          rwa [Nat.add_right_comm, Nat.add_assoc] at this

/-- The clusters of twos: a scan with fuel for `fuel` clusters makes all their calls. -/
theorem scanClustersLog_twos {fuel i : Nat} (sc : DirScan) (h : HoldsTwos r.mem)
    (hcalls : r.reads.length = i * (spc.toNat + 1))
    (hb : Before FatEvent.MakesNodes (SectorOk fail)
      (scanClustersLog (Device.failing (twosDisk spc) fail) (twosVol spc) fuel 2 sc r).2.log) :
    Before FatEvent.MakesNodes (SectorOk fail) r.log ∧
      ∀ j < fuel, ∀ s < spc.toNat, fail ((i + j) * (spc.toNat + 1) + s) = false := by
  induction fuel generalizing i sc r with
  | zero => exact ⟨hb, fun j hj => absurd hj (Nat.not_lt_zero j)⟩
  | succ fuel ih =>
      obtain ⟨sc', r', hrun, hr', hlen, hbefore⟩ := @scanClusterLog_twos fail r spc spc.toNat 0
        (by have := spc.toNat_lt; omega) sc h
      rw [scanClustersLog, if_pos (by decide)] at hb
      rw [show (twosVol spc).sectorsPerCluster = spc.toNat from rfl, hrun] at hb
      obtain ⟨hnext, hmem⟩ := @HoldsTwos.nextCluster fail spc r'.toFatState hr'
      have hlen' := @length_reads_lookup (Device.failing (twosDisk spc) fail) (twosVol spc) 2 r'
      rw [hlen, hcalls, Nat.add_assoc, ← Nat.add_one_mul] at hlen'
      have hnext' : (nextClusterLog (Device.failing (twosDisk spc) fail) (twosVol spc) 2 r').1 = 2 := hnext
      change Before _ _ (scanClustersLog _ _ fuel
        (nextClusterLog (Device.failing (twosDisk spc) fail) (twosVol spc) 2 r').1 sc'
        (nextClusterLog (Device.failing (twosDisk spc) fail) (twosVol spc) 2 r').2).2.log at hb
      rw [hnext'] at hb
      -- the rounds behind this one, then the calls of this one
      obtain ⟨hb', hrest⟩ := ih sc' hmem hlen' hb
      obtain ⟨hold, hhere⟩ := hbefore ((before_lookup 2 r').mp hb')
      refine ⟨hold, fun j hj s hs => ?_⟩
      cases j with
      | zero =>
          have := hhere s hs
          rwa [hcalls] at this
      | succ j =>
          have := hrest j (by omega) s hs
          rwa [Nat.add_right_comm, Nat.add_assoc i j 1] at this

/-! ## Both -/

/-- Up to which call of a read from `off` on `read_sector` must not fail, for a file of `size` bytes. -/
def readCalls (spc size off sz : Nat) : Nat :=
  if size ≤ off ∨ spc = 0 then 0 else callsFor spc off (min sz (size - off))

/-- Memory whose every word is 2. -/
def twosMem : Mem := fun x => if x % 4 = 0 then 2 else 0

theorem holdsTwos_twosMem : HoldsTwos twosMem := by
  intro i hi
  rw [twosMem, twos]
  congr 1
  simp only [eq_iff_iff]
  omega

/-- Reads of files keep errors out when the calls they make do not fail. -/
theorem fileErrorsKeptOut (disk : Nat → Sector)
    (hbpc : vol.bytesPerCluster = vol.sectorsPerCluster * 512) (hspc : vol.sectorsPerCluster < 256)
    (f : FatFile) {off sz : Nat} (hsz : sz < 2 ^ 32) (buf : Nat) (m : Mem)
    (hok : ∀ k < readCalls vol.sectorsPerCluster f.size off sz, fail k = false) :
    FileErrorsKeptOut fail disk vol f off sz buf m := by
  refine ⟨f.readCount off sz + 2, fun fuel hfuel => ?_⟩
  by_cases hoff : f.size ≤ off
  · exact Or.inl ⟨0, _, if_pos hoff, fun x hlo hhi => absurd hhi (not_lt.mpr hlo)⟩
  by_cases hpos : vol.sectorsPerCluster = 0
  · -- the number of clusters to skip is a division by zero
    right
    rw [fat32ReadFileLog, if_neg hoff]
    simp [hbpc, hpos]
  · left
    obtain ⟨n, r, hrun, hn, hiff⟩ := bytesOk_iff fail (Device.failing disk fail) vol hbpc (by omega) hspc
      (not_le.mp hoff) hsz buf m (show f.readCount off sz + 1 < fuel by omega)
    refine ⟨n, r, hrun, hiff.mpr fun k hk => hok k (hk.trans_le ?_)⟩
    rw [readCalls, if_neg (not_or.mpr ⟨hoff, hpos⟩)]
    apply callsFor_mono
    rwa [FatFile.readCount, if_neg hoff] at hn

/-- Something is read when the first cluster holds some of the bytes. -/
theorem fat32ReadFileLog_pos (dev : Device) (vol : FatVol)
    (hbpc : vol.bytesPerCluster = vol.sectorsPerCluster * 512) (hspc : 1 ≤ vol.sectorsPerCluster)
    (hspc' : vol.sectorsPerCluster < 256) {f : FatFile} {off sz fuel : Nat} (hoff : off < f.size)
    (hsz : sz < 2 ^ 32) (buf : Nat) (r : FatRun) (hfuel : f.readCount off sz + 1 < fuel)
    (hskip : off < vol.bytesPerCluster) (hstart : f.startCluster < fatEoc) (hpos : 0 < f.readCount off sz) :
    ∃ n r', fat32ReadFileLog dev vol f off sz buf fuel r = .ok (n, r') ∧ 0 < n := by
  obtain ⟨n, r', hrun, -, hend⟩ := @fat32ReadFileLog_rule dev vol r (fun _ cluster _ => cluster < fatEoc)
    (fun readTotal _ cluster _ => 0 < readTotal ∨ cluster < fatEoc) f off sz buf
    (fun i cluster r hi => absurd hi (by rw [Nat.div_eq_of_lt hskip]; omega)) (fun cluster r h => Or.inr h)
    (fun readTotal inCluster cluster fuel r r' hmore heoc hin hfuel hcopy h => Or.inl (by omega))
    (by omega) (by omega) hoff hsz fuel hfuel hstart
  refine ⟨n, r', hrun, ?_⟩
  obtain ⟨-, i, cluster, -, -, heoc, hlt⟩ | ⟨inCluster, cluster, -, hdone, h⟩ := hend
  · exact absurd hlt (not_lt.mpr heoc)
  · omega

/-- Only the first call fails. -/
def firstFails (k : Nat) : Bool := k = 0

end Aerogel
