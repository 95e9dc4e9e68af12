import Aerogel.Filesystem.FatImage

/-! # Reading files of a FAT32 volume

`fat32_read_file` on an image whose sectors can all be read: each loop gets a specification that says
which bytes it puts where and what it leaves alone. The loops share the sector buffer with the FAT
lookups, so what they have stored must survive the reads that follow: the caller's buffer is outside the
sector buffer. -/

namespace Aerogel

namespace FatImage

variable {img : FatImage} {vol : FatVol}

/-- Address `x` is not in the sector buffer. -/
def Outside (vol : FatVol) (x : Nat) : Prop := x < vol.sectorBuf ∨ vol.sectorBuf + 512 ≤ x

/-- Every byte of a buffer is outside the sector buffer. -/
def Apart (vol : FatVol) (buf n : Nat) : Prop := buf + n ≤ vol.sectorBuf ∨ vol.sectorBuf + 512 ≤ buf

/-- Positions in a buffer that is apart. -/
theorem Apart.outside {buf n i : Nat} (h : Apart vol buf n) (hi : i < n) : Outside vol (buf + i) := by
  unfold Apart at h
  unfold Outside
  omega

/-- A part of a buffer that is apart. -/
theorem Apart.part {buf n a k : Nat} (h : Apart vol buf n) (hk : a + k ≤ n) :
    Apart vol (buf + a) k := by
  unfold Apart at h ⊢
  omega

/-! ## The inner loop -/

/-- The state after one round of the inner loop: the sector is read and `take` bytes of it, from
`byteOff` on, are copied to `dst`. -/
def copySector (img : FatImage) (vol : FatVol) (lba dst byteOff take : Nat) (st : FatState) :
    FatState where
  mem := memcpy (writeSector st.mem vol.sectorBuf (img.disk lba)) dst (vol.sectorBuf + byteOff) take
  reads := st.reads ++ [(.contents, lba)]

/-- One round of the inner loop. -/
theorem copyChunk_step {lba chunk dst fuel secOff byteOff wrote : Nat} (hmore : wrote < chunk)
    (hlba : lba + secOff < 2 ^ 32) (st : FatState) :
    copyChunk (Device.ofDisk img.disk) vol lba chunk dst (fuel + 1) secOff byteOff wrote st =
      let take := min (chunk - wrote) (512 - byteOff)
      copyChunk (Device.ofDisk img.disk) vol lba chunk dst fuel (secOff + 1) 0 (wrote + take)
        (copySector img vol (lba + secOff) (dst + wrote) byteOff take st) := by
  have htake : (if chunk - wrote < 512 - byteOff then chunk - wrote else 512 - byteOff) =
      min (chunk - wrote) (512 - byteOff) := by
    split <;> omega
  rw [copyChunk, if_pos hmore]
  simp only [htake, Nat.mod_eq_of_lt hlba]
  rfl

/-- The bytes of a sector from `byteOff` on arrive at `dst`. -/
theorem copySector_mem {lba sec dst byteOff take i : Nat} (hin : byteOff + take ≤ 512)
    (hapart : Apart vol dst take) (st : FatState) (hi : i < take) :
    (copySector img vol (lba + sec) dst byteOff take st).mem (dst + i) =
      img.byteFrom lba (sec * 512 + byteOff + i) := by
  unfold Apart at hapart
  simp only [copySector]
  rw [memcpy_apply_of_disjoint _ (by omega) hi, Nat.add_assoc, Nat.add_assoc,
    writeSector_apply _ _ (show byteOff + i < 512 by omega), byteFrom_sector]

/-- Nothing else changes outside the sector buffer. -/
theorem copySector_mem_of_outside {lba dst byteOff take x : Nat} (st : FatState)
    (hx : x < dst ∨ dst + take ≤ x) (hout : Outside vol x) :
    (copySector img vol lba dst byteOff take st).mem x = st.mem x := by
  simp only [copySector]
  rw [memcpy_apply_of_outside _ hx, writeSector_apply_of_outside _ _ hout]

/-- The inner loop copies the bytes of the sectors from `lba` on, from position `secOff * 512 + byteOff`
on, until the chunk is complete. -/
theorem copyChunk_spec {lba chunk dst fuel secOff byteOff wrote : Nat} (st : FatState)
    (hbyte : byteOff < 512) (hwrote : wrote ≤ chunk) (hapart : Apart vol dst chunk)
    (hlba : ∀ s, s * 512 < secOff * 512 + byteOff + (chunk - wrote) → lba + s < 2 ^ 32)
    (hfuel : chunk - wrote < fuel) :
    ∃ st', copyChunk (Device.ofDisk img.disk) vol lba chunk dst fuel secOff byteOff wrote st =
        .ok st' ∧
      (∀ i, wrote ≤ i → i < chunk →
        st'.mem (dst + i) = img.byteFrom lba (secOff * 512 + byteOff + (i - wrote))) ∧
      ∀ x, x < dst + wrote ∨ dst + chunk ≤ x → Outside vol x → st'.mem x = st.mem x := by
  induction fuel generalizing secOff byteOff wrote st with
  | zero => omega
  | succ fuel ih =>
      by_cases hmore : wrote < chunk
      · have hsec : lba + secOff < 2 ^ 32 := hlba secOff (by omega)
        rw [copyChunk_step hmore hsec]
        generalize htake : min (chunk - wrote) (512 - byteOff) = take
        -- a sector that is not copied to its end is the last one of the chunk
        obtain ⟨hle, hend⟩ : wrote + take ≤ chunk ∧ (wrote + take = chunk ∨ byteOff + take = 512) := by
          omega
        have hlba' : ∀ s, s * 512 < (secOff + 1) * 512 + 0 + (chunk - (wrote + take)) →
            lba + s < 2 ^ 32 := by
          intro s hs
          obtain hend | hend := hend
          · omega
          · have hpos : (secOff + 1) * 512 + 0 + (chunk - (wrote + take)) =
                secOff * 512 + byteOff + (chunk - wrote) := by omega
            exact hlba s (hpos ▸ hs)
        obtain ⟨st', hrun, hbytes, hframe⟩ :=
          @ih (secOff + 1) 0 (wrote + take)
            (copySector img vol (lba + secOff) (dst + wrote) byteOff take st) (by decide)
            (by omega) hlba' (by omega)
        refine ⟨st', hrun, fun i h₁ h₂ => ?_, fun x hx hout => ?_⟩
        · by_cases hi : i < wrote + take
          · -- copied in this round, and not touched since
            obtain ⟨j, rfl⟩ : ∃ j, i = wrote + j := ⟨i - wrote, by omega⟩
            rw [hframe _ (by omega) (hapart.outside h₂), ← Nat.add_assoc,
              copySector_mem (by omega) (hapart.part hle) st (by omega), Nat.add_sub_cancel_left]
          · rw [hbytes i (by omega) h₂, show (secOff + 1) * 512 + 0 + (i - (wrote + take)) =
              secOff * 512 + byteOff + (i - wrote) by omega]
        · rw [hframe x (by omega) hout, copySector_mem_of_outside st (by omega) hout]
      · rw [copyChunk, if_neg hmore]
        exact ⟨st, rfl, fun i h₁ h₂ => absurd h₂ (by omega), fun x _ _ => rfl⟩

/-! ## The outer loop -/

variable {start k : Nat}

/-- One round of the outer loop: a chunk of the `i`-th cluster arrives, and the next round is at the
cluster after it. -/
theorem Mounted.readClusters_step (h : img.Mounted vol) (hok : img.ChainOk start k)
    {i size buf fuel readTotal inCluster : Nat} (st : FatState) (hi : i < k)
    (hin : inCluster < img.bytesPerCluster) (hmore : readTotal < size) (hapart : Apart vol buf size)
    (hfuel : size - readTotal < fuel) :
    let chunk := min (size - readTotal) (img.bytesPerCluster - inCluster)
    ∃ st', readClusters (Device.ofDisk img.disk) vol size buf (fuel + 1) readTotal inCluster
          (img.chain start i) st =
        readClusters (Device.ofDisk img.disk) vol size buf fuel (readTotal + chunk) 0
          (img.chain start (i + 1)) st' ∧
      (∀ j < chunk, st'.mem (buf + readTotal + j) =
        img.clusterByte (img.chain start i) (inCluster + j)) ∧
      ∀ x, x < buf + readTotal ∨ buf + readTotal + chunk ≤ x → Outside vol x →
        st'.mem x = st.mem x := by
  intro chunk
  obtain ⟨h2, hbad⟩ := hok.cluster i hi
  have hbpc : img.bytesPerCluster = img.sectorsPerCluster * 512 := rfl
  have hspc : 0 < img.sectorsPerCluster := by omega
  have hlba : clusterToLba vol (img.chain start i) = img.clusterLba (img.chain start i) :=
    h.clusterToLba_eq h2 hbad (hok.sector_lt i hi 0 hspc)
  have hchunk : (if size - readTotal < vol.bytesPerCluster - inCluster then size - readTotal
      else vol.bytesPerCluster - inCluster) = chunk := by
    rw [h.bytesPerCluster_eq]
    split <;> omega
  have hsplit : inCluster / 512 * 512 + inCluster % 512 = inCluster := Nat.div_add_mod' ..
  have hapart' : Apart vol (buf + readTotal) chunk := hapart.part (by omega)
  obtain ⟨st₁, hrun, hbytes, hframe⟩ :=
    @copyChunk_spec img vol (img.clusterLba (img.chain start i)) chunk (buf + readTotal) fuel
      (inCluster / 512) (inCluster % 512) 0 st (Nat.mod_lt inCluster (by decide))
      (Nat.zero_le chunk) hapart' (fun s hs => hok.sector_lt i hi s (by rw [hsplit] at hs; omega))
      (by omega)
  obtain ⟨hnext, hkeep⟩ := h.nextCluster_eq hbad (hok.fatSector_lt i hi) st₁
  have heoc : img.chain start i < fatEoc := by unfold fatBad at hbad; unfold fatEoc; omega
  refine ⟨(nextCluster (Device.ofDisk img.disk) vol (img.chain start i) st₁).2, ?_, ?_, ?_⟩
  · rw [readClusters, if_pos ⟨hmore, heoc⟩]
    simp only [hlba, hchunk, hrun, bind, Except.bind]
    rw [chain_succ, ← hnext]
  · intro j hj
    rw [hkeep _ (hapart'.outside hj), hbytes j (Nat.zero_le j) hj, hsplit, Nat.sub_zero]
    rfl
  · intro x hx hout
    rw [hkeep x hout, hframe x hx hout]

/-- The outer loop ends when the request is complete. -/
theorem readClusters_done {off size buf fuel inCluster cluster : Nat} (st : FatState)
    (hfuel : 0 < fuel) :
    ∃ st', readClusters (Device.ofDisk img.disk) vol size buf fuel size inCluster cluster st =
        .ok (size, st') ∧
      (∀ j, size ≤ j → j < size → st'.mem (buf + j) = img.chainByte start (off + j)) ∧
      ∀ x, x < buf + size ∨ buf + size ≤ x → Outside vol x → st'.mem x = st.mem x := by
  obtain ⟨fuel, rfl⟩ : ∃ n, fuel = n + 1 := ⟨fuel - 1, by omega⟩
  rw [readClusters, if_neg fun hc => lt_irrefl _ hc.1]
  exact ⟨st, rfl, fun j h₁ h₂ => absurd h₁ (by omega), fun x _ _ => rfl⟩

/-- The outer loop reads the rest of the request when it starts at the right place of the chain. -/
theorem Mounted.readClusters_spec (h : img.Mounted vol) (hok : img.ChainOk start k)
    {i off size buf fuel readTotal inCluster : Nat} (st : FatState)
    (hend : off + size ≤ k * img.bytesPerCluster) (hin : inCluster < img.bytesPerCluster)
    (hpos : off + readTotal = i * img.bytesPerCluster + inCluster) (hle : readTotal ≤ size)
    (hapart : Apart vol buf size) (hfuel : size - readTotal + 1 < fuel) :
    ∃ st', readClusters (Device.ofDisk img.disk) vol size buf fuel readTotal inCluster
          (img.chain start i) st = .ok (size, st') ∧
      (∀ j, readTotal ≤ j → j < size → st'.mem (buf + j) = img.chainByte start (off + j)) ∧
      ∀ x, x < buf + readTotal ∨ buf + size ≤ x → Outside vol x → st'.mem x = st.mem x := by
  induction fuel generalizing i readTotal inCluster st with
  | zero => omega
  | succ fuel ih =>
      obtain rfl | hmore := Nat.eq_or_lt_of_le hle
      · exact readClusters_done st (Nat.succ_pos fuel)
      have hi : i < k := Nat.lt_of_mul_lt_mul_right (a := img.bytesPerCluster) (by omega)
      obtain ⟨st₁, hrun, hbytes, hframe⟩ :=
        h.readClusters_step hok st hi hin hmore hapart (show size - readTotal < fuel by omega)
      generalize hchunk : min (size - readTotal) (img.bytesPerCluster - inCluster) = chunk
        at hrun hbytes hframe
      -- what this round has read, in terms of the chain
      have hround : ∀ j, readTotal ≤ j → j < readTotal + chunk →
          st₁.mem (buf + j) = img.chainByte start (off + j) := by
        intro j h₁ h₂
        obtain ⟨p, rfl⟩ : ∃ p, j = readTotal + p := ⟨j - readTotal, by omega⟩
        rw [← Nat.add_assoc, ← Nat.add_assoc, hpos, Nat.add_assoc (i * _),
          img.chainByte_block start i (by omega), hbytes p (by omega)]
      -- the later rounds, if any, continue at the start of the next cluster
      have hrest : ∃ st', readClusters (Device.ofDisk img.disk) vol size buf fuel (readTotal + chunk)
            0 (img.chain start (i + 1)) st₁ = .ok (size, st') ∧
          (∀ j, readTotal + chunk ≤ j → j < size →
            st'.mem (buf + j) = img.chainByte start (off + j)) ∧
          ∀ x, x < buf + (readTotal + chunk) ∨ buf + size ≤ x → Outside vol x →
            st'.mem x = st₁.mem x := by
        by_cases hlast : readTotal + chunk = size
        · rw [hlast]
          exact readClusters_done st₁ (by omega)
        · have hnext : off + (readTotal + chunk) = (i + 1) * img.bytesPerCluster + 0 := by
            rw [Nat.succ_mul]
            omega
          exact ih st₁ (by omega) hnext (by omega) (by omega)
      obtain ⟨st', hrun', hbytes', hframe'⟩ := hrest
      refine ⟨st', hrun.trans hrun', fun j h₁ h₂ => ?_, fun x hx hout => ?_⟩
      · by_cases hj : j < readTotal + chunk
        · rw [hframe' _ (Or.inl (by omega)) (hapart.outside h₂), hround j h₁ hj]
        · exact hbytes' j (by omega) h₂
      · rw [hframe' x (by omega) hout, hframe x (by omega) hout]

/-! ## The whole read -/

/-- Skipping clusters follows the chain and changes nothing outside the sector buffer. -/
theorem Mounted.skipClusters_spec (h : img.Mounted vol) (hok : img.ChainOk start k)
    {i skip : Nat} (st : FatState) (hskip : i + skip < k) :
    ∃ st', skipClusters (Device.ofDisk img.disk) vol skip (img.chain start i) st =
        (some (img.chain start (i + skip)), st') ∧
      ∀ x, Outside vol x → st'.mem x = st.mem x := by
  induction skip generalizing i st with
  | zero => exact ⟨st, rfl, fun _ _ => rfl⟩
  | succ skip ih =>
      obtain ⟨hnext, hkeep⟩ :=
        h.nextCluster_eq (hok.cluster i (by omega)).2 (hok.fatSector_lt i (by omega)) st
      obtain ⟨st', hrun, hframe⟩ := @ih (i + 1)
        (nextCluster (Device.ofDisk img.disk) vol (img.chain start i) st).2 (by omega)
      have hvalid := (hok.cluster (i + 1) (by omega)).2
      have heoc : ¬ fatEoc ≤ img.chain start (i + 1) := by
        unfold fatBad at hvalid
        unfold fatEoc
        omega
      refine ⟨st', ?_, fun x hx => (hframe x hx).trans (hkeep x hx)⟩
      rw [skipClusters]
      simp only [hnext, ← chain_succ, if_neg heoc, hrun]
      rw [show i + 1 + skip = i + (skip + 1) by omega]

end FatImage

/-- How many bytes of a file there are to read from an offset on. -/
def FatFile.readCount (f : FatFile) (off sz : Nat) : Nat :=
  if f.size ≤ off then 0 else min sz (f.size - off)

/-- No more than the rest of the file is read. -/
theorem FatFile.readCount_le (f : FatFile) (off sz : Nat) : f.readCount off sz ≤ f.size - off := by
  rw [readCount]
  split <;> omega

/-- The clamped request of `fat32_read_file`. -/
theorem FatFile.clamp_eq (f : FatFile) {off sz : Nat} (hoff : off < f.size) (hsz : sz < 2 ^ 32) :
    (if f.size < (off + sz) % 2 ^ 64 then (f.size - off) % 2 ^ 32 else sz) = f.readCount off sz := by
  have hsize := f.size_lt
  have hsum : (off + sz) % 2 ^ 64 = off + sz := Nat.mod_eq_of_lt (by omega)
  have hrest : (f.size - off) % 2 ^ 32 = f.size - off := Nat.mod_eq_of_lt (by omega)
  rw [readCount, hsum, hrest, if_neg (show ¬ f.size ≤ off by omega)]
  split <;> omega

/-- The clusters a file needs hold its bytes. -/
theorem FatFile.size_le_clusters (f : FatFile) {b : Nat} (hb : 0 < b) :
    f.size ≤ (f.size + b - 1) / b * b := by
  have h := Nat.div_add_mod (f.size + b - 1) b
  have hmod := Nat.mod_lt (f.size + b - 1) hb
  rw [Nat.mul_comm] at h
  omega

/-- `fat32_read_file` inside a file whose chain is long enough. -/
theorem FatImage.Mounted.fat32ReadFile_spec {img : FatImage} {vol : FatVol} (h : img.Mounted vol)
    (hspc : 1 ≤ vol.sectorsPerCluster) {f : FatFile} {k : Nat}
    (hok : img.ChainOk f.startCluster k) (hk : f.size ≤ k * img.bytesPerCluster)
    {off sz buf fuel : Nat} (hoff : off < f.size) (hsz : sz < 2 ^ 32)
    (hapart : Apart vol buf (f.readCount off sz)) (hfuel : f.readCount off sz + 1 < fuel)
    (st : FatState) :
    ∃ st', fat32ReadFile (Device.ofDisk img.disk) vol f off sz buf fuel st =
        .ok (f.readCount off sz, st') ∧
      (∀ i < f.readCount off sz, st'.mem (buf + i) = img.chainByte f.startCluster (off + i)) ∧
      ∀ x, x < buf ∨ buf + f.readCount off sz ≤ x → Outside vol x → st'.mem x = st.mem x := by
  have hsize := f.size_lt
  have hbpc := h.bytesPerCluster_pos hspc
  have hcount := f.readCount_le off sz
  have hdiv : off / img.bytesPerCluster * img.bytesPerCluster + off % img.bytesPerCluster = off :=
    Nat.div_add_mod' ..
  have hskip : 0 + off / img.bytesPerCluster < k := by
    rw [Nat.zero_add, Nat.div_lt_iff_lt_mul hbpc]
    omega
  obtain ⟨st₁, hrun₁, hframe₁⟩ := h.skipClusters_spec hok st hskip
  obtain ⟨st', hrun, hbytes, hframe⟩ := h.readClusters_spec hok st₁
    (show off + f.readCount off sz ≤ k * img.bytesPerCluster by omega)
    (Nat.mod_lt off hbpc) (show off + 0 = _ from hdiv.symm) (Nat.zero_le _) hapart hfuel
  rw [Nat.zero_add] at hrun₁
  refine ⟨st', ?_, fun i hi => hbytes i (Nat.zero_le i) hi, fun x hx hout => ?_⟩
  · rw [fat32ReadFile, if_neg (by omega), f.clamp_eq hoff hsz, h.bytesPerCluster_eq,
      Nat.mod_eq_of_lt (show off < 2 ^ 32 by omega)]
    simp only [if_neg (Nat.pos_iff_ne_zero.mp hbpc)]
    rw [show f.startCluster = img.chain f.startCluster 0 from rfl, hrun₁]
    exact hrun
  · rw [hframe x hx hout, hframe₁ x hout]

/-- Reading a file is exact: on a volume that `fat32_mount` accepts, from a disk whose sectors can all be
read, `fat32_read_file` returns the number of bytes there are, these bytes are in the buffer, and nothing
else outside the driver's sector buffer has changed. -/
theorem fat32ReadFile_exact (img : FatImage) (sectorBuf : Nat) (st₀ : FatState) (vol : FatVol)
    (hmount : (fat32Mount (Device.ofDisk img.disk) img.partLba sectorBuf st₀).1 = some vol)
    (hspc : 1 ≤ vol.sectorsPerCluster) (f : FatFile)
    (hchain : img.ChainOk f.startCluster
      ((f.size + vol.bytesPerCluster - 1) / vol.bytesPerCluster))
    (off : UInt64) (sz : UInt32) (buf : Nat)
    (hapart : FatImage.Apart vol buf (f.readCount off.toNat sz.toNat)) (st : FatState) :
    ∃ fuel₀, ∀ fuel, fuel₀ ≤ fuel → ∃ st',
      fat32ReadFile (Device.ofDisk img.disk) vol f off.toNat sz.toNat buf fuel st =
        .ok (f.readCount off.toNat sz.toNat, st') ∧
      (∀ i < f.readCount off.toNat sz.toNat,
        (img.chainBytes f.startCluster
          ((f.size + vol.bytesPerCluster - 1) / vol.bytesPerCluster))[off.toNat + i]? =
            some (st'.mem (buf + i))) ∧
      ∀ x, x < buf ∨ buf + f.readCount off.toNat sz.toNat ≤ x → FatImage.Outside vol x →
        st'.mem x = st.mem x := by
  obtain ⟨h, -⟩ := FatImage.mounted_of_fat32Mount hmount
  have hsz := sz.toNat_lt
  by_cases hoff : f.size ≤ off.toNat
  · -- nothing to read
    have hcount : f.readCount off.toNat sz.toNat = 0 := if_pos hoff
    refine ⟨0, fun fuel _ => ⟨st, ?_, ?_, fun x _ _ => rfl⟩⟩
    · rw [fat32ReadFile, if_pos hoff, hcount]
    · rw [hcount]
      exact fun i hi => absurd hi (Nat.not_lt_zero i)
  · have hk := f.size_le_clusters (h.bytesPerCluster_pos hspc)
    have hcount := f.readCount_le off.toNat sz.toNat
    refine ⟨f.readCount off.toNat sz.toNat + 2, fun fuel hfuel => ?_⟩
    rw [h.bytesPerCluster_eq] at hchain ⊢
    obtain ⟨st', hrun, hbytes, hframe⟩ :=
      h.fat32ReadFile_spec hspc hchain hk (show off.toNat < f.size by omega) hsz hapart
        (show f.readCount off.toNat sz.toNat + 1 < fuel by omega) st
    refine ⟨st', hrun, fun i hi => ?_, hframe⟩
    rw [hbytes i hi, img.chainBytes_getElem? (by omega)]

/-! ## A small volume -/

/-- A volume at sector 2048, where `kmain` looks for one, with one file in clusters 2 and 3. -/
def smallImage : FatImage where
  partLba := 2048
  disk
    -- boot sector: 512 bytes in a sector, 1 sector in a cluster, 1 reserved, 1 FAT of 1 sector
    | 2048 => fun i => match i.val with
      | 12 => 2
      | 13 => 1
      | 14 => 1
      | 16 => 1
      | 36 => 1
      | 44 => 4
      | _ => 0
    -- FAT: cluster 2 is followed by cluster 3, which is the last one
    | 2049 => fun i => match i.val with
      | 8 => 3
      | 12 | 13 | 14 => 0xFF
      | 15 => 0x0F
      | _ => 0
    | lba => fun i => UInt8.ofNat (lba + i.val)

/-- The volume that `fat32_mount` makes of it. -/
def smallVol : FatVol where
  partLba := 2048
  fatLba := 2049
  dataLba := 2050
  rootCluster := 4
  sectorsPerCluster := 1
  bytesPerCluster := 512
  sectorBuf := 4096

/-- The file. -/
def smallFile : FatFile where
  startCluster := 2
  size := 600
  startCluster_lt := by decide
  size_lt := by decide

/-- Zeroed memory. -/
def zeroState : FatState := ⟨fun _ => 0, []⟩

/-- `fat32_mount` on a disk with this boot sector. -/
theorem fat32Mount_smallVol {disk : Nat → Sector} (h : disk 2048 = smallImage.disk 2048) :
    (fat32Mount (Device.ofDisk disk) 2048 4096 zeroState).1 = some smallVol := by
  have hsector : (smallImage.disk 2048).load 11 2 = 512 ∧ (smallImage.disk 2048).load 13 1 = 1 ∧
      (smallImage.disk 2048).load 14 2 = 1 ∧ (smallImage.disk 2048).load 16 1 = 1 ∧
      (smallImage.disk 2048).load 36 4 = 1 ∧ (smallImage.disk 2048).load 44 4 = 4 := by decide +kernel
  simp only [fat32Mount, FatImage.readSector_mem, FatImage.bpb_get_writeSector, h]
  simp only [bpb, hsector]
  rfl

/-- Both clusters of the file are in order. -/
theorem smallImage_chainOk : smallImage.ChainOk 2 2 where
  cluster := by decide +kernel
  fatSector_lt := by decide +kernel
  sector_lt := by decide +kernel

/-- Reading 50 bytes across the border of the two clusters. -/
theorem fat32ReadFile_smallImage :
    ∃ fuel₀, ∀ fuel, fuel₀ ≤ fuel → ∃ st',
      fat32ReadFile (Device.ofDisk smallImage.disk) smallVol smallFile 500 50 8192 fuel zeroState =
        .ok (50, st') ∧
      (∀ i < 50, (smallImage.chainBytes 2 2)[500 + i]? = some (st'.mem (8192 + i))) ∧
      ∀ x, x < 8192 ∨ 8192 + 50 ≤ x → FatImage.Outside smallVol x → st'.mem x = 0 :=
  fat32ReadFile_exact smallImage 4096 zeroState smallVol (fat32Mount_smallVol rfl) (by decide) smallFile
    smallImage_chainOk 500 50 8192 (Or.inr (by decide)) zeroState

end Aerogel
