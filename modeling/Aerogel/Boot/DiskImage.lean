import Aerogel.Foundations.RingRecords
import Aerogel.Foundations.Slices

/-! # The disk image and the loaders that read it

`create-disk.py` puts the second stage at sector 1 and the kernel at sector 17; `mbr.asm` loads 16
sectors from the one, `stage2.asm` 64 sectors from the other. Nobody checks the sizes:
`imageOk_iff` says for which binaries the three agree, `longKernel_not_imageOk` shows a kernel that is
cut off. -/

namespace Aerogel

namespace DiskImage

/-! ## The writer -/

/-- `SECTOR`. -/
abbrev sector : Nat := 512

/-- The size of the image: `DISK_MB` mebibytes. -/
abbrev diskBytes : Nat := 64 * 1024 * 1024

/-- `DATA_LBA`. -/
abbrev dataLba : Nat := 2048

/-- `data_sects`, for `DATA_MB` mebibytes. -/
abbrev dataSects : Nat := 32 * 1024 * 1024 / sector

/-- `kernel_lba`. -/
abbrev kernelLba : Nat := 17

/-- What `mkfs.fat`, `mmd` and `mcopy` leave in the image file of the data partition: they write into
the file, which keeps its size. -/
structure DataImage where
  /-- The contents of the file. -/
  bytes : List UInt8
  /-- `esp_bytes` of them. -/
  length_eq : bytes.length = dataSects * sector

/-- `I` of `struct.pack` with `<`. -/
def packU32 (n : Nat) : List UInt8 :=
  [UInt8.ofNat n, UInt8.ofNat (n / 256), UInt8.ofNat (n / 65536), UInt8.ofNat (n / 16777216)]

/-- `part`, the entry of the data partition. -/
def part : List UInt8 :=
  [0x00, 0x00, 0x20, 0x21, 0x0C, 0x00, 0xFE, 0xFF] ++ packU32 dataLba ++ packU32 dataSects

/-- The first sector: boot code, partition entry and signature. -/
def writeMbr (disk mbrBin : List UInt8) : List UInt8 :=
  let disk := sliceAssign disk 0 sector mbrBin
  let disk := sliceAssign disk 446 462 part
  let disk := disk.set 510 0x55
  disk.set 511 0xAA

/-- The second stage and the kernel. -/
def writeLoaders (disk stage2Bin kernelBin : List UInt8) : List UInt8 :=
  let disk := sliceAssign disk sector (sector + stage2Bin.length) stage2Bin
  sliceAssign disk (sector * kernelLba) (sector * kernelLba + kernelBin.length) kernelBin

/-- The data partition, when the tools that make it are installed. -/
def writeData (disk : List UInt8) : Option DataImage → List UInt8
  | none => disk
  | some fat =>
      sliceAssign disk (dataLba * sector) (dataLba * sector + fat.bytes.length) fat.bytes

/-- `make_mbr_image`: what it writes, or how it exits. -/
def makeMbrImage (kernelBin stage2Bin mbrBin : List UInt8) (fat : Option DataImage) :
    Except String (List UInt8) :=
  if mbrBin.length ≠ sector then .error "mbr.bin must be exactly 512 bytes"
  else
    let disk := List.replicate diskBytes 0
    let disk := writeMbr disk mbrBin
    let disk := writeLoaders disk stage2Bin kernelBin
    .ok (writeData disk fat)

/-! ## The readers -/

/-- A disk address packet. -/
structure Dap where
  /-- How many sectors to read. -/
  sectors : Nat
  /-- The offset to read to. -/
  off : Nat
  /-- The segment to read to. -/
  seg : Nat
  /-- The first sector. -/
  lba : Nat

/-- `dap` of `mbr.asm`. -/
def mbrDap : Dap := ⟨16, 0x7E00, 0x0000, 1⟩

/-- `kdap` of `stage2.asm`. -/
def kdap : Dap := ⟨64, 0x0000, 0x1000, 17⟩

/-- The bytes of the sectors a packet asks for. -/
def Dap.load (d : Dap) (image : List UInt8) : List UInt8 :=
  window image (d.lba * sector) (d.sectors * sector)

/-- `int 0x13` with `ah = 0x42`. -/
def Dap.read (d : Dap) (image : List UInt8) (m : Mem) : Mem :=
  m.storeList (d.seg * 16 + d.off) (d.load image)

/-- The image fits the loaders: it has its size, each loader gets its binary whole, and the data
partition is as the tools made it. -/
structure ImageOk (kernelBin stage2Bin : List UInt8) (fat : Option DataImage) (image : List UInt8) :
    Prop where
  /-- 64 MiB. -/
  size : image.length = 64 * 1024 * 1024
  /-- What `mbr.asm` loads begins with the second stage. -/
  stage2 : stage2Bin <+: mbrDap.load image
  /-- What `stage2.asm` loads begins with the kernel. -/
  kernel : kernelBin <+: kdap.load image
  /-- The data partition. -/
  data : ∀ d ∈ fat, window image (2048 * 512) d.bytes.length = d.bytes

/-! ## Sizes that fit -/

variable {disk stage2Bin kernelBin mbrBin image : List UInt8} {fat : Option DataImage}

/-- Where the loaders go, in bytes. -/
theorem writeLoaders_eq (disk stage2Bin kernelBin : List UInt8) :
    writeLoaders disk stage2Bin kernelBin = sliceAssign
      (sliceAssign disk 512 (512 + stage2Bin.length) stage2Bin) 8704 (8704 + kernelBin.length)
      kernelBin := rfl

/-- Where the data partition goes, in bytes. -/
theorem writeData_some (disk : List UInt8) (d : DataImage) :
    writeData disk (some d) = sliceAssign disk 1048576 (1048576 + d.bytes.length) d.bytes := rfl

/-- The data partition has 32 MiB. -/
theorem DataImage.length_bytes (d : DataImage) : d.bytes.length = 33554432 := d.length_eq

/-- The first sector does not change the size of the disk. -/
theorem length_writeMbr (hdisk : 512 ≤ disk.length) (hmbr : mbrBin.length = 512) :
    (writeMbr disk mbrBin).length = disk.length := by
  have h₁ : (sliceAssign disk 0 512 mbrBin).length = disk.length := by
    have h := @length_sliceAssign _ disk mbrBin 0 (Nat.zero_le _)
    rw [hmbr, Nat.zero_add] at h
    rw [h, Nat.max_eq_left hdisk]
  have h₂ : (sliceAssign (sliceAssign disk 0 512 mbrBin) 446 462 part).length =
      max (sliceAssign disk 0 512 mbrBin).length 462 :=
    length_sliceAssign (by omega)
  rw [writeMbr, List.length_set, List.length_set, h₂, h₁, Nat.max_eq_left (by omega)]

/-- An image is written for a boot sector of 512 bytes; its parts go onto a disk of 64 MiB. -/
theorem makeMbrImage_ok (h : makeMbrImage kernelBin stage2Bin mbrBin fat = .ok image) :
    ∃ disk, disk.length = 67108864 ∧
      image = writeData (writeLoaders disk stage2Bin kernelBin) fat := by
  have hblank : (List.replicate diskBytes (0 : UInt8)).length = 67108864 := List.length_replicate
  rw [makeMbrImage] at h
  split_ifs at h with hmbr
  cases h
  refine ⟨_, ?_, rfl⟩
  rw [length_writeMbr (by rw [hblank]; decide) (not_not.mp hmbr), hblank]

section Disk

variable (hdisk : disk.length = 67108864)
include hdisk

/-- The second stage on the disk. -/
theorem length_writeStage2 (stage2Bin : List UInt8) :
    (sliceAssign disk 512 (512 + stage2Bin.length) stage2Bin).length =
      max 67108864 (512 + stage2Bin.length) := by
  rw [length_sliceAssign (by omega), hdisk]

/-- Loaders that fit leave the disk its size. -/
theorem length_writeLoaders (hstage2 : stage2Bin.length ≤ 8192) (hkernel : kernelBin.length ≤ 32768) :
    (writeLoaders disk stage2Bin kernelBin).length = 67108864 := by
  have hlen := length_writeStage2 hdisk stage2Bin
  rw [writeLoaders_eq, length_sliceAssign (by omega), hlen]
  omega

/-- The data partition has its place on the disk. -/
theorem length_writeData (fat : Option DataImage) : (writeData disk fat).length = 67108864 := by
  cases fat with
  | none => exact hdisk
  | some d =>
      rw [writeData_some, length_sliceAssign (by omega), d.length_bytes, hdisk]
      decide

/-- In front of it nothing changes. -/
theorem window_writeData (fat : Option DataImage) {a n : Nat} (han : a + n ≤ 1048576) :
    window (writeData disk fat) a n = window disk a n := by
  cases fat with
  | none => rfl
  | some d =>
      rw [writeData_some]
      exact window_sliceAssign_of_le (by omega) han _

/-- A second stage that fits stays whole. -/
theorem window_writeLoaders_stage2 (hfit : stage2Bin.length ≤ 8192) :
    window (writeLoaders disk stage2Bin kernelBin) 512 stage2Bin.length = stage2Bin := by
  have hlen := length_writeStage2 hdisk stage2Bin
  rw [writeLoaders_eq, window_sliceAssign_of_le (by omega) (by omega)]
  exact window_sliceAssign_self (by omega) _

/-- The kernel is written behind the second stage. -/
theorem window_writeLoaders_kernel :
    window (writeLoaders disk stage2Bin kernelBin) 8704 kernelBin.length = kernelBin := by
  have hlen := length_writeStage2 hdisk stage2Bin
  rw [writeLoaders_eq]
  exact window_sliceAssign_self (by omega) _

/-- An image whose loaders fit. -/
theorem imageOk_of_fits (hstage2 : stage2Bin.length ≤ 8192) (hkernel : kernelBin.length ≤ 32768) :
    ImageOk kernelBin stage2Bin fat (writeData (writeLoaders disk stage2Bin kernelBin) fat) := by
  have hlen := length_writeLoaders hdisk hstage2 hkernel
  refine ⟨length_writeData hlen fat, ?_, ?_, fun d hd => ?_⟩
  · apply prefix_window_iff.mpr
    refine ⟨?_, hstage2⟩
    change window _ 512 _ = _
    rw [window_writeData hlen fat (by omega)]
    exact window_writeLoaders_stage2 hdisk hstage2
  · apply prefix_window_iff.mpr
    refine ⟨?_, hkernel⟩
    change window _ 8704 _ = _
    rw [window_writeData hlen fat (by omega)]
    exact window_writeLoaders_kernel hdisk
  · obtain rfl : fat = some d := hd
    rw [writeData_some]
    exact window_sliceAssign_self (by omega) _

end Disk

/-- What a loader reads is as long as its packet says. -/
theorem length_le_of_prefix_load {d : Dap} {bin : List UInt8} (h : bin <+: d.load image) :
    bin.length ≤ d.sectors * sector :=
  h.length_le.trans (length_window_le _ _ _)

/-- The image fits the loaders if and only if the second stage has at most 16 sectors and the kernel
at most 64. -/
theorem imageOk_iff (h : makeMbrImage kernelBin stage2Bin mbrBin fat = .ok image) :
    ImageOk kernelBin stage2Bin fat image ↔ stage2Bin.length ≤ 8192 ∧ kernelBin.length ≤ 32768 := by
  constructor
  · intro hok
    exact ⟨length_le_of_prefix_load hok.stage2, length_le_of_prefix_load hok.kernel⟩
  · rintro ⟨hstage2, hkernel⟩
    obtain ⟨disk, hdisk, rfl⟩ := makeMbrImage_ok h
    exact imageOk_of_fits hdisk hstage2 hkernel

/-- A boot sector of 512 bytes is accepted. -/
theorem exists_image (kernelBin stage2Bin : List UInt8) (fat : Option DataImage)
    (hmbr : mbrBin.length = 512) : ∃ image, makeMbrImage kernelBin stage2Bin mbrBin fat = .ok image := by
  exact ⟨_, if_neg (not_not.mpr hmbr)⟩

/-- Short binaries on a disk without a data partition. -/
theorem imageOk_iff_short : ∃ image, makeMbrImage [1] [2, 3] (List.replicate 512 0) none = .ok image ∧
    (ImageOk [1] [2, 3] none image ↔ 2 ≤ 8192 ∧ 1 ≤ 32768) := by
  obtain ⟨image, h⟩ := exists_image [1] [2, 3] none (List.length_replicate (n := 512) (a := 0))
  exact ⟨image, h, imageOk_iff h⟩

/-- A kernel of 32769 bytes is cut off. -/
theorem longKernel_not_imageOk : ∃ image,
    makeMbrImage (List.replicate 32769 1) [] (List.replicate 512 0) none = .ok image ∧
      ¬ ImageOk (List.replicate 32769 1) [] none image := by
  obtain ⟨image, h⟩ := exists_image (List.replicate 32769 1) [] none
    (List.length_replicate (n := 512) (a := 0))
  refine ⟨image, h, fun hok => ?_⟩
  have hle := length_le_of_prefix_load hok.kernel
  rw [List.length_replicate] at hle
  exact absurd hle (by decide)

/-! ## Memory -/

/-- `mbr.asm` jumps to a second stage that is there in full. -/
theorem read_mbrDap (hok : ImageOk kernelBin stage2Bin fat image) (m : Mem) :
    (mbrDap.read image m).bytes 0x7E00 stage2Bin.length = stage2Bin :=
  m.bytes_storeList _ hok.stage2

/-- `stage2.asm` jumps to a kernel that is there in full, at `KERNEL_PHYS`; reading it leaves the
second stage alone. -/
theorem read_kdap (hok : ImageOk kernelBin stage2Bin fat image) (m : Mem) :
    (kdap.read image m).bytes 0x10000 kernelBin.length = kernelBin ∧
      ∀ x < 0x10000, kdap.read image m x = m x := by
  refine ⟨m.bytes_storeList _ hok.kernel, fun x hx => ?_⟩
  exact m.storeList_apply_of_outside (.inl hx)

end DiskImage

end Aerogel
