import Aerogel.Filesystem.Fat32
import Aerogel.Foundations.Blocks

/-! # FAT32 images

What a FAT32 volume on a disk means, without a driver: where its FAT and its clusters are, what the FAT
says about a cluster, and the bytes of a chain of clusters. Sector numbers are natural numbers here;
the driver computes them in 32 bits. -/

namespace Aerogel

/-! ## Sectors in memory -/

/-- A byte of a sector in memory. -/
theorem writeSector_apply (m : Mem) {dst i : Nat} (s : Sector) (hi : i < 512) :
    writeSector m dst s (dst + i) = s ⟨i, hi⟩ := by
  rw [writeSector, dif_pos (by omega)]
  congr 2
  omega

/-- Putting a sector into memory changes nothing else. -/
theorem writeSector_apply_of_outside (m : Mem) {dst x : Nat} (s : Sector)
    (hx : x < dst ∨ dst + 512 ≤ x) : writeSector m dst s x = m x := by
  rw [writeSector, dif_neg (by omega)]

/-- The integer at an offset in a sector. -/
def Sector.load (s : Sector) (off width : Nat) : Nat := (writeSector (fun _ => 0) 0 s).load off width

/-- A load from a sector in memory is a load from the sector. -/
theorem load_writeSector (m : Mem) {dst off width : Nat} (s : Sector) (h : off + width ≤ 512) :
    (writeSector m dst s).load (dst + off) width = s.load off width := by
  unfold Sector.load
  induction width generalizing off with
  | zero => rfl
  | succ width ih =>
      have hhead : writeSector (fun _ => 0) 0 s off = s ⟨off, by omega⟩ := by
        have h0 : writeSector (fun _ => 0) 0 s (0 + off) = s ⟨off, by omega⟩ :=
          writeSector_apply _ s (by omega)
        rwa [Nat.zero_add] at h0
      rw [Mem.load, Mem.load, writeSector_apply m s (by omega), hhead, Nat.add_assoc,
        ih (by omega)]

/-! ## Images -/

/-- A disk and the partition of it that holds a FAT32 volume. -/
structure FatImage where
  /-- The sectors of the disk. -/
  disk : Nat → Sector
  /-- First sector of the partition. -/
  partLba : Nat

namespace FatImage

variable (img : FatImage)

/-- A field of the boot sector. -/
def field (f : BpbField) : Nat := (img.disk img.partLba).load (bpb.off f) (bpb.width f)

/-- First sector of the FAT. -/
def fatLba : Nat := img.partLba + img.field .reservedSectors

/-- Sector of cluster 2, behind the FATs. -/
def dataLba : Nat := img.fatLba + img.field .numFats * img.field .fatSize32

/-- Sectors of a cluster. -/
def sectorsPerCluster : Nat := img.field .sectorsPerCluster

/-- Bytes of a cluster. -/
def bytesPerCluster : Nat := img.sectorsPerCluster * 512

/-- The sector that holds the FAT entry of a cluster. -/
def fatSector (c : Nat) : Nat := img.fatLba + c * 4 / 512

/-- The FAT entry of a cluster: its successor, or an end mark. -/
def fatEntry (c : Nat) : Nat := (img.disk (img.fatSector c)).load (c * 4 % 512) 4 % 2 ^ 28

/-- The `i`-th cluster of the chain from `start`. -/
def chain (start i : Nat) : Nat := img.fatEntry^[i] start

/-- First sector of a cluster. -/
def clusterLba (c : Nat) : Nat := img.dataLba + (c - 2) * img.sectorsPerCluster

/-- The bytes of a cluster. -/
def clusterBytes (c : Nat) : List UInt8 :=
  (List.range img.sectorsPerCluster).flatMap fun s => List.ofFn (img.disk (img.clusterLba c + s))

/-- The concatenation of the first `k` clusters of a chain. -/
def chainBytes (start k : Nat) : List UInt8 :=
  (List.range k).flatMap fun i => img.clusterBytes (img.chain start i)

/-- The first `k` clusters of a chain are data clusters that 32-bit sector numbers reach, with their
FAT entries. -/
structure ChainOk (start k : Nat) : Prop where
  /-- Clusters are numbered from 2, and the largest numbers are marks. -/
  cluster : ∀ i < k, 2 ≤ img.chain start i ∧ img.chain start i < fatBad
  /-- The FAT entries are on the disk. -/
  fatSector_lt : ∀ i < k, img.fatSector (img.chain start i) < 2 ^ 32
  /-- The sectors of the clusters are on the disk. -/
  sector_lt : ∀ i < k, ∀ s < img.sectorsPerCluster, img.clusterLba (img.chain start i) + s < 2 ^ 32

/-- The byte at a position counted from the start of a sector. -/
def byteFrom (lba p : Nat) : UInt8 := img.disk (lba + p / 512) ⟨p % 512, Nat.mod_lt p (by decide)⟩

/-- The byte at a position of a cluster. -/
def clusterByte (c p : Nat) : UInt8 := img.byteFrom (img.clusterLba c) p

/-- The byte at a position of a chain. -/
def chainByte (start p : Nat) : UInt8 :=
  img.clusterByte (img.chain start (p / img.bytesPerCluster)) (p % img.bytesPerCluster)

/-- Positions in a sector some sectors ahead. -/
theorem byteFrom_sector (lba s : Nat) {k : Nat} (hk : k < 512) :
    img.byteFrom lba (s * 512 + k) = img.disk (lba + s) ⟨k, hk⟩ := by
  have hdiv : (s * 512 + k) / 512 = s := by omega
  have hmod : (s * 512 + k) % 512 = k := by omega
  simp only [byteFrom, hdiv, hmod]

/-- The next cluster of a chain. -/
theorem chain_succ (start i : Nat) : img.chain start (i + 1) = img.fatEntry (img.chain start i) :=
  Function.iterate_succ_apply' ..

/-- The length of a cluster. -/
theorem clusterBytes_length (c : Nat) : (img.clusterBytes c).length = img.bytesPerCluster :=
  blocks_length (fun _ => List.length_ofFn) _

/-- Positions in a cluster. -/
theorem clusterBytes_getElem? {c p : Nat} (hp : p < img.bytesPerCluster) :
    (img.clusterBytes c)[p]? = some (img.clusterByte c p) := by
  rw [clusterBytes, blocks_getElem? (fun _ => List.length_ofFn) hp,
    List.getElem?_ofFn, dif_pos (Nat.mod_lt p (by decide))]
  rfl

/-- Positions in a chain. -/
theorem chainBytes_getElem? {start k p : Nat} (hp : p < k * img.bytesPerCluster) :
    (img.chainBytes start k)[p]? = some (img.chainByte start p) := by
  have hpos : 0 < img.bytesPerCluster := Nat.pos_of_ne_zero fun h0 => by simp [h0] at hp
  rw [chainBytes, blocks_getElem? (fun _ => img.clusterBytes_length _) hp,
    img.clusterBytes_getElem? (Nat.mod_lt p hpos)]
  rfl

/-- A position in the `i`-th cluster of a chain. -/
theorem chainByte_block (start i : Nat) {p : Nat} (hp : p < img.bytesPerCluster) :
    img.chainByte start (i * img.bytesPerCluster + p) = img.clusterByte (img.chain start i) p := by
  have hdiv : (i * img.bytesPerCluster + p) / img.bytesPerCluster = i := by
    rw [Nat.mul_comm, Nat.mul_add_div (by omega), Nat.div_eq_of_lt hp, Nat.add_zero]
  rw [chainByte, hdiv, Nat.mul_add_mod_of_lt hp]

/-! ## The driver on an image -/

/-- What `fat32_mount` reads off the image. -/
structure Mounted (vol : FatVol) : Prop where
  /-- The FAT, in 32 bits. -/
  fatLba_eq : vol.fatLba = img.fatLba % 2 ^ 32
  /-- Cluster 2, in 32 bits. -/
  dataLba_eq : vol.dataLba = img.dataLba % 2 ^ 32
  /-- Sectors of a cluster. -/
  sectorsPerCluster_eq : vol.sectorsPerCluster = img.sectorsPerCluster
  /-- Bytes of a cluster. -/
  bytesPerCluster_eq : vol.bytesPerCluster = img.bytesPerCluster

variable {img} {vol : FatVol} {st : FatState}

/-- Reading a sector of a disk that does not fail. -/
theorem readSector_mem (disk : Nat → Sector) (dst lba : Nat) (r : ReadFor) (st : FatState) :
    (readSector (Device.ofDisk disk) dst r lba st).mem = writeSector st.mem dst (disk lba) := rfl

/-- The fields of a boot sector that was read last. -/
theorem bpb_get_writeSector (m : Mem) (dst : Nat) (s : Sector) (f : BpbField) :
    bpb.get (writeSector m dst s) dst f = s.load (bpb.off f) (bpb.width f) := by
  apply load_writeSector
  have := bpb.inside f
  exact this.trans (by decide)

/-- `fat32_mount` of an image. -/
theorem mounted_of_fat32Mount {sectorBuf : Nat}
    (h : (fat32Mount (Device.ofDisk img.disk) img.partLba sectorBuf st).1 = some vol) :
    img.Mounted vol ∧ vol.sectorBuf = sectorBuf := by
  have hfield : ∀ (m : Mem) (f : BpbField),
      bpb.get (writeSector m sectorBuf (img.disk img.partLba)) sectorBuf f = img.field f :=
    fun m f => bpb_get_writeSector m sectorBuf _ f
  simp only [fat32Mount, readSector_mem, hfield] at h
  split at h
  · exact absurd h (by simp)
  · obtain rfl := Option.some.inj h
    refine ⟨⟨rfl, ?_, rfl, rfl⟩, rfl⟩
    simp only [dataLba, fatLba, Nat.mod_add_mod]

/-- Clusters of a volume with sectors in a cluster are not empty. -/
theorem Mounted.bytesPerCluster_pos (h : img.Mounted vol) (hspc : 1 ≤ vol.sectorsPerCluster) :
    0 < img.bytesPerCluster := by
  rw [h.sectorsPerCluster_eq] at hspc
  exact Nat.mul_pos hspc (by decide)

/-- `next_cluster` gives the FAT entry, through the sector buffer. -/
theorem Mounted.nextCluster_eq (h : img.Mounted vol) {c : Nat} (hc : c < fatBad)
    (hfat : img.fatSector c < 2 ^ 32) (st : FatState) :
    (nextCluster (Device.ofDisk img.disk) vol c st).1 = img.fatEntry c ∧
      ∀ x, x < vol.sectorBuf ∨ vol.sectorBuf + 512 ≤ x →
        (nextCluster (Device.ofDisk img.disk) vol c st).2.mem x = st.mem x := by
  have hoff : c * 4 % 2 ^ 32 = c * 4 := Nat.mod_eq_of_lt (by unfold fatBad at hc; omega)
  have hsec : (vol.fatLba + c * 4 / 512) % 2 ^ 32 = img.fatSector c := by
    rw [h.fatLba_eq, Nat.mod_add_mod]
    exact Nat.mod_eq_of_lt hfat
  -- entries are four bytes and aligned, so none crosses the end of a sector
  have hin : c * 4 % 512 + 4 ≤ 512 := by omega
  constructor
  · simp only [nextCluster, hoff, hsec, readSector_mem, load_writeSector _ _ hin]
    exact Nat.and_two_pow_sub_one_eq_mod _ 28
  · intro x hx
    simp only [nextCluster, readSector_mem]
    exact writeSector_apply_of_outside _ _ hx

/-- `cluster_to_lba` gives the first sector of a cluster. -/
theorem Mounted.clusterToLba_eq (h : img.Mounted vol) {c : Nat} (h2 : 2 ≤ c) (hc : c < fatBad)
    (hlba : img.clusterLba c < 2 ^ 32) : clusterToLba vol c = img.clusterLba c := by
  have hsub : wsub 32 c 2 = c - 2 := wsub_of_le h2 (by unfold fatBad at hc; omega)
  rw [clusterToLba, hsub, h.dataLba_eq, h.sectorsPerCluster_eq, Nat.mod_add_mod]
  exact Nat.mod_eq_of_lt hlba

end FatImage

end Aerogel
