import Aerogel.Libc.MemOps
import Aerogel.Machine

/-! # The FAT32 driver: volumes and reading files

`fat32.c` reads everything through one sector buffer inside the volume record: the boot sector, the
FAT and the contents of files. The buffer is in memory like the caller's, so what a read does to both
is explicit. A `read_sector` callback may answer every call differently and may fail; the driver ignores
its return value. Every call is recorded with what the sector is for. -/

namespace Aerogel

/-- The bytes of a sector. -/
abbrev Sector := Fin 512 → UInt8

/-- A `read_sector` callback: what the call of a given index delivers for an LBA, `none` when it
fails. -/
abbrev Device := Nat → Nat → Option Sector

/-- A disk that never fails. -/
def Device.ofDisk (disk : Nat → Sector) : Device := fun _ lba => some (disk lba)

/-- What a sector is read for. -/
inductive ReadFor
  /-- The boot sector, by `fat32_mount`. -/
  | bpb
  /-- A FAT entry, by `next_cluster`. -/
  | fat
  /-- The contents of a file or directory. -/
  | contents
  deriving DecidableEq, Repr

/-- Memory and the calls of `read_sector` so far, with their LBAs. -/
structure FatState where
  /-- Memory. -/
  mem : Mem
  /-- The calls, latest last. -/
  reads : List (ReadFor × Nat)

/-- Put a sector into memory. -/
def writeSector (m : Mem) (dst : Nat) (s : Sector) : Mem :=
  fun x => if h : dst ≤ x ∧ x < dst + 512 then s ⟨x - dst, by omega⟩ else m x

/-- A call of `read_sector`. A failing call leaves the buffer as it is. -/
def readSector (dev : Device) (dst : Nat) (r : ReadFor) (lba : Nat) (st : FatState) : FatState where
  mem := (dev st.reads.length lba).elim st.mem (writeSector st.mem dst)
  reads := st.reads ++ [(r, lba)]

/-- The fields of `fat32_bpb_t` that the driver uses. -/
inductive BpbField
  /-- `bytes_per_sector`. -/
  | bytesPerSector
  /-- `sectors_per_cluster`. -/
  | sectorsPerCluster
  /-- `reserved_sectors`. -/
  | reservedSectors
  /-- `num_fats`. -/
  | numFats
  /-- `fat_size_32`. -/
  | fatSize32
  /-- `root_cluster`. -/
  | rootCluster
  deriving DecidableEq, Repr

/-- The packed layout of `fat32_bpb_t`. -/
def bpb : StructLayout BpbField where
  off
    | .bytesPerSector => 11
    | .sectorsPerCluster => 13
    | .reservedSectors => 14
    | .numFats => 16
    | .fatSize32 => 36
    | .rootCluster => 44
  width
    | .bytesPerSector => 2
    | .sectorsPerCluster => 1
    | .reservedSectors => 2
    | .numFats => 1
    | .fatSize32 => 4
    | .rootCluster => 4
  size := 90
  inside := by intro f; cases f <;> decide
  disjoint := by intro f g; cases f <;> cases g <;> decide

/-- `fat32_vol_t`, with the address of `sector_buf` in place of the array. -/
structure FatVol where
  /-- First sector of the partition. -/
  partLba : Nat
  /-- First sector of the FAT. -/
  fatLba : Nat
  /-- Sector of cluster 2. -/
  dataLba : Nat
  /-- First cluster of the root directory. -/
  rootCluster : Nat
  /-- Sectors of a cluster. -/
  sectorsPerCluster : Nat
  /-- Bytes of a cluster. -/
  bytesPerCluster : Nat
  /-- Where `sector_buf` is. -/
  sectorBuf : Nat
  deriving DecidableEq, Repr

/-- `fat32_mount`, with the address of the `sector_buf` of the new volume: the volume, unless the boot
sector is refused. -/
def fat32Mount (dev : Device) (partLba sectorBuf : Nat) (st : FatState) :
    Option FatVol × FatState :=
  -- the volume record is cleared, so a failing read finds a sector size of 0
  let st := { st with mem := memset st.mem sectorBuf 0 512 }
  let st := readSector dev sectorBuf .bpb partLba st
  let field := bpb.get st.mem sectorBuf
  if field .bytesPerSector ≠ 512 then (none, st)
  else
    let fatLba := (partLba + field .reservedSectors) % 2 ^ 32
    (some
      { partLba
        fatLba
        dataLba := (fatLba + field .numFats * field .fatSize32) % 2 ^ 32
        rootCluster := field .rootCluster
        sectorsPerCluster := field .sectorsPerCluster
        bytesPerCluster := field .sectorsPerCluster * 512
        sectorBuf }, st)

/-- `FAT_EOC`. -/
def fatEoc : Nat := 0x0FFFFFF8

/-- `FAT_BAD`. -/
def fatBad : Nat := 0x0FFFFFF7

/-- `next_cluster`. -/
def nextCluster (dev : Device) (vol : FatVol) (cluster : Nat) (st : FatState) : Nat × FatState :=
  let fatOffset := cluster * 4 % 2 ^ 32
  let fatSec := (vol.fatLba + fatOffset / 512) % 2 ^ 32
  let fatOff := fatOffset % 512
  let st := readSector dev vol.sectorBuf .fat fatSec st
  (st.mem.load (vol.sectorBuf + fatOff) 4 &&& 0x0FFFFFFF, st)

/-- `cluster_to_lba`. -/
def clusterToLba (vol : FatVol) (cluster : Nat) : Nat :=
  (vol.dataLba + wsub 32 cluster 2 * vol.sectorsPerCluster) % 2 ^ 32

/-- `fat32_file_t`. Files are made from directory entries, whose size field has 32 bits. -/
structure FatFile where
  /-- First cluster of the file. -/
  startCluster : Nat
  /-- Size of the file in bytes. -/
  size : Nat
  /-- A cluster number is a `u32`. -/
  startCluster_lt : startCluster < 2 ^ 32
  /-- The size comes from a `u32`. -/
  size_lt : size < 2 ^ 32

/-- The first loop of `fat32_read_file`: follow the FAT over `skip` clusters, `none` when the chain ends
before. -/
def skipClusters (dev : Device) (vol : FatVol) : Nat → Nat → FatState → Option Nat × FatState
  | 0, cluster, st => (some cluster, st)
  | skip + 1, cluster, st =>
    let (cluster, st) := nextCluster dev vol cluster st
    if fatEoc ≤ cluster then (none, st) else skipClusters dev vol skip cluster st

/-- The inner loop of `fat32_read_file`: copy the bytes `wrote .. chunk` of a chunk to `dst`, sector by
sector. `wrote` never exceeds `chunk`, so no subtraction borrows. -/
def copyChunk (dev : Device) (vol : FatVol) (lba chunk dst : Nat) :
    Nat → Nat → Nat → Nat → FatState → Except Halt FatState
  | 0, _, _, _, _ => .error .diverges
  | fuel + 1, secOff, byteOff, wrote, st =>
    if wrote < chunk then
      let st := readSector dev vol.sectorBuf .contents ((lba + secOff) % 2 ^ 32) st
      let take := if chunk - wrote < 512 - byteOff then chunk - wrote else 512 - byteOff
      let st := { st with mem := memcpy st.mem (dst + wrote) (vol.sectorBuf + byteOff) take }
      copyChunk dev vol lba chunk dst fuel (secOff + 1) 0 (wrote + take) st
    else .ok st

/-- The outer loop of `fat32_read_file`: a chunk of each cluster. -/
def readClusters (dev : Device) (vol : FatVol) (size buf : Nat) :
    Nat → Nat → Nat → Nat → FatState → Except Halt (Nat × FatState)
  | 0, _, _, _, _ => .error .diverges
  | fuel + 1, readTotal, inCluster, cluster, st =>
    if readTotal < size ∧ cluster < fatEoc then do
      let lba := clusterToLba vol cluster
      let avail := vol.bytesPerCluster - inCluster
      let chunk := if size - readTotal < avail then size - readTotal else avail
      let st ← copyChunk dev vol lba chunk (buf + readTotal) fuel (inCluster / 512)
        (inCluster % 512) 0 st
      -- the FAT is read again over the sector just copied, also after the last chunk
      let (cluster, st) := nextCluster dev vol cluster st
      readClusters dev vol size buf fuel (readTotal + chunk) 0 cluster st
    else .ok (readTotal, st)

/-- `fat32_read_file`: the return value and the state after the call. -/
def fat32ReadFile (dev : Device) (vol : FatVol) (f : FatFile) (off size buf fuel : Nat)
    (st : FatState) : Except Halt (Nat × FatState) :=
  if f.size ≤ off then .ok (0, st)
  else
    let size := if f.size < (off + size) % 2 ^ 64 then (f.size - off) % 2 ^ 32 else size
    let off32 := off % 2 ^ 32
    -- `off32 / bpc` is a division by zero on a volume without sectors in a cluster
    if vol.bytesPerCluster = 0 then .error (.exception 0)
    else
      match skipClusters dev vol (off32 / vol.bytesPerCluster) f.startCluster st with
      | (none, st) => .ok (0, st)
      | (some cluster, st) =>
        readClusters dev vol size buf fuel 0 (off32 % vol.bytesPerCluster) cluster st

end Aerogel
