import Mathlib.Data.Nat.Bitwise
import Aerogel.Foundations.Slices

/-! # The GPT disk image

`make_gpt_image` of `create-disk.py` assigns headers and partition entries to slices of a sector
each. They are shorter than a sector, so each assignment shortens the image. `makeGptImage_eq`
shows what comes out: the first header and entry and the EFI system partition are in place, the
second header is not, and the image is 804 bytes short. -/

namespace Aerogel

namespace GptImage

/-! ## The writer -/

/-- `SECTOR`. -/
abbrev sector : Nat := 512

/-- The size of the image when it is made: `IMG_MB` mebibytes. -/
abbrev imgBytes : Nat := 128 * 1024 * 1024

/-- `ESP_START`. -/
abbrev espStart : Nat := 2048

/-- `ESP_SECTS`, for `ESP_MB` mebibytes. -/
abbrev espSects : Nat := 32 * 1024 * 1024 / sector

/-- `esp_end`. -/
abbrev espEnd : Nat := espStart + espSects - 1

/-- `last_lba`. -/
abbrev lastLba : Nat := imgBytes / sector - 1

/-- `uuid.uuid4().bytes_le`. -/
structure Guid where
  /-- The bytes. -/
  bytes : List UInt8
  /-- 16 of them. -/
  length_eq : bytes.length = 16

/-- What `mkfs.fat`, `mmd` and `mcopy` leave in the image file of the EFI system partition. -/
structure EspImage where
  /-- The contents of the file. -/
  bytes : List UInt8
  /-- `esp_bytes` of them. -/
  length_eq : bytes.length = espSects * sector

/-- `I` and `Q` of `struct.pack` with `<`: an integer of `n` bytes. -/
def packLe : Nat → Nat → List UInt8
  | 0, _ => []
  | n + 1, v => UInt8.ofNat v :: packLe n (v / 256)

/-- `ljust(n, b"\x00")`. -/
def ljust (n : Nat) (bs : List UInt8) : List UInt8 := bs ++ List.replicate (n - bs.length) 0

/-- `encode("utf-16-le")` of characters with 16 bits. -/
def encodeUtf16Le (s : List Char) : List UInt8 := (s.map fun c => packLe 2 c.toNat).flatten

/-- One bit of the checksum. -/
def crcBit (c : UInt32) : UInt32 := if c &&& 1 = 1 then (c >>> 1) ^^^ 0xEDB88320 else c >>> 1

/-- One byte of the checksum. -/
def crcByte (c : UInt32) (b : UInt8) : UInt32 := Nat.iterate crcBit 8 (c ^^^ b.toUInt32)

/-- `binascii.crc32`. -/
def crc32 (bs : List UInt8) : UInt32 := bs.foldl crcByte 0xFFFFFFFF ^^^ 0xFFFFFFFF

/-- The check value of this checksum. -/
example : crc32 [0x31, 0x32, 0x33, 0x34, 0x35, 0x36, 0x37, 0x38, 0x39] = 0xCBF43926 := by
  decide +kernel

/-- `EFI_TYPE`. -/
def efiType : List UInt8 :=
  [0x28, 0x73, 0x2A, 0xC1, 0x1F, 0xF8, 0xD2, 0x11, 0xBA, 0x4B, 0x00, 0xA0, 0xC9, 0x3E, 0xC9, 0x3B]

/-- `part`. -/
def part (partGuid : Guid) : List UInt8 :=
  efiType ++ partGuid.bytes ++ (packLe 8 espStart ++ packLe 8 espEnd) ++ packLe 8 0x04 ++
    ljust 72 (encodeUtf16Le "EFI System Partition".toList)

/-- `part.ljust(128, b"\x00")`. -/
def entry (partGuid : Guid) : List UInt8 := ljust 128 (part partGuid)

/-- `EFI PART`. -/
def signature : List UInt8 := [0x45, 0x46, 0x49, 0x20, 0x50, 0x41, 0x52, 0x54]

/-- The fields of a header, with `crc` in the place of its checksum. -/
def headerFields (diskGuid partGuid : Guid) (primary : Bool) (partLba : Nat)
    (crc : Nat) : List (List UInt8) :=
  [signature, packLe 4 0x00010000, packLe 4 92, packLe 4 crc, packLe 4 0, packLe 8 (if primary then 1 else lastLba),
    packLe 8 (if primary then lastLba else 1), packLe 8 espStart, packLe 8 (lastLba - 1), diskGuid.bytes,
    packLe 8 partLba, packLe 4 1, packLe 4 128, packLe 4 (crc32 (entry partGuid)).toNat]

/-- `gpt_header`, which does not look at `other_lba`. -/
def gptHeader (diskGuid partGuid : Guid) (primary : Bool) (partLba _otherLba : Nat) : List UInt8 :=
  let hdr := (headerFields diskGuid partGuid primary partLba 0).flatten
  hdr.take 16 ++ packLe 4 (crc32 hdr).toNat ++ hdr.drop 20

/-- `make_gpt_image`, on what `uuid4` and the tools gave: the bytes it writes. -/
def makeGptImage (diskGuid partGuid : Guid) (esp : EspImage) : List UInt8 :=
  let bkp := lastLba - 1
  let disk := List.replicate imgBytes 0
  let disk := sliceAssign disk sector (sector * 2) (gptHeader diskGuid partGuid true 2 lastLba)
  let disk := sliceAssign disk (sector * 2) (sector * 3) (entry partGuid)
  let disk := sliceAssign disk (bkp * sector) ((bkp + 1) * sector) (entry partGuid)
  let disk := sliceAssign disk (lastLba * sector) ((lastLba + 1) * sector) (gptHeader diskGuid partGuid false bkp 1)
  sliceAssign disk (espStart * sector) (espStart * sector + esp.bytes.length) esp.bytes

/-! ## The format -/

/-- The integer in some bytes, the low one first. -/
def leNat : List UInt8 → Nat
  | [] => 0
  | b :: bs => b.toNat + 256 * leNat bs

/-- The integer in `n` bytes of the image. -/
def field (image : List UInt8) (off n : Nat) : Nat := leNat (window image off n)

/-- There is a header in sector `lba` that names itself, the other one and the sector of the
entries, and its checksums are right. -/
structure HeaderAt (image : List UInt8) (diskGuid : Guid) (lba other entries : Nat) : Prop where
  /-- `EFI PART`. -/
  signature : window image (lba * 512) 8 = signature
  /-- The size of the header. -/
  size : field image (lba * 512 + 12) 4 = 92
  /-- Its checksum, taken with 0 in the place of the checksum. -/
  crc : field image (lba * 512 + 16) 4 =
    (crc32 (sliceAssign (window image (lba * 512) 92) 16 20 [0, 0, 0, 0])).toNat
  /-- Its own sector. -/
  myLba : field image (lba * 512 + 24) 8 = lba
  /-- The sector of the other header. -/
  alternateLba : field image (lba * 512 + 32) 8 = other
  /-- The disk. -/
  diskGuid : window image (lba * 512 + 56) 16 = diskGuid.bytes
  /-- The sector of the entries. -/
  partitionEntryLba : field image (lba * 512 + 72) 8 = entries
  /-- The checksum of the entries. -/
  entriesCrc : field image (lba * 512 + 88) 4 = (crc32 (window image (entries * 512)
    (field image (lba * 512 + 80) 4 * field image (lba * 512 + 84) 4))).toNat

/-- A GPT image of 128 MiB with one partition. -/
structure GptLayout (diskGuid partGuid : Guid) (esp : EspImage) (image : List UInt8) : Prop where
  /-- 128 MiB. -/
  size : image.length = 128 * 1024 * 1024
  /-- The first header. -/
  primary : HeaderAt image diskGuid 1 262143 2
  /-- The entry that belongs to it. -/
  primaryEntry : window image (2 * 512) 128 = entry partGuid
  /-- The second header. -/
  backup : HeaderAt image diskGuid 262143 1 262142
  /-- The entry that belongs to it. -/
  backupEntry : window image (262142 * 512) 128 = entry partGuid
  /-- The sectors that a header calls usable are not those of headers and entries. -/
  usable : ∀ h ∈ [1, 262143], ∀ l ∈ [1, 2, 262142, 262143],
    ¬ (field image (h * 512 + 40) 8 ≤ l ∧ l ≤ field image (h * 512 + 48) 8)
  /-- The EFI system partition. -/
  esp : window image (2048 * 512) esp.bytes.length = esp.bytes

/-! ## Lengths -/

variable {diskGuid partGuid : Guid} {esp : EspImage}

@[simp] theorem length_packLe (n v : Nat) : (packLe n v).length = n := by
  induction n generalizing v with
  | zero => rfl
  | succ n ih => rw [packLe, List.length_cons, ih]

/-- An integer that was packed is read back. -/
theorem leNat_packLe {n v : Nat} (h : v < 256 ^ n) : leNat (packLe n v) = v := by
  induction n generalizing v with
  | zero => rw [packLe, leNat]; omega
  | succ n ih =>
      rw [packLe, leNat, ih (by rw [Nat.pow_succ] at h; omega), UInt8.toNat_ofNat']
      omega

/-- A partition entry has 128 bytes. -/
theorem length_entry (partGuid : Guid) : (entry partGuid).length = 128 := by
  have hname : (ljust 72 (encodeUtf16Le "EFI System Partition".toList)).length = 72 := by decide
  have htype : efiType.length = 16 := by decide
  have hpart : (part partGuid).length = 128 := by
    simp only [part, List.length_append, length_packLe, hname, htype, partGuid.length_eq]
  rw [entry, ljust, List.length_append, List.length_replicate, hpart]

/-- The checksum is one of the fields. -/
theorem sliceAssign_headerFields (diskGuid partGuid : Guid) (primary : Bool) (partLba crc crc' : Nat) :
    sliceAssign (headerFields diskGuid partGuid primary partLba crc).flatten 16 20 (packLe 4 crc') =
      (headerFields diskGuid partGuid primary partLba crc').flatten := by
  have hsplit : ∀ c, (headerFields diskGuid partGuid primary partLba c).flatten =
      ((headerFields diskGuid partGuid primary partLba c).take 3).flatten ++ packLe 4 c ++
        ((headerFields diskGuid partGuid primary partLba c).drop 4).flatten := by
    intro c
    rw [List.append_assoc, ← List.flatten_cons, ← List.flatten_append]
    rfl
  rw [hsplit crc, hsplit crc']
  exact sliceAssign_append (by rfl) (by rfl) _

/-- The checksum goes to its place. -/
theorem gptHeader_eq (diskGuid partGuid : Guid) (primary : Bool) (partLba otherLba : Nat) :
    gptHeader diskGuid partGuid primary partLba otherLba = (headerFields diskGuid partGuid primary partLba
      (crc32 (headerFields diskGuid partGuid primary partLba 0).flatten).toNat).flatten :=
  sliceAssign_headerFields diskGuid partGuid primary partLba 0 _

/-- A header has 92 bytes. -/
theorem length_gptHeader (diskGuid partGuid : Guid) (primary : Bool) (partLba otherLba : Nat) :
    (gptHeader diskGuid partGuid primary partLba otherLba).length = 92 := by
  have hsig : signature.length = 8 := rfl
  rw [gptHeader_eq, headerFields]
  simp only [List.flatten_cons, List.flatten_nil, List.length_append, length_packLe,
    diskGuid.length_eq, hsig, List.length_nil]

/-! ## The image -/

/-- `n` zero bytes. -/
abbrev zeros (n : Nat) : List UInt8 := List.replicate n 0

/-- The parts of the image. -/
def imageParts (diskGuid partGuid : Guid) (esp : EspImage) : List (List UInt8) :=
  [zeros 512, gptHeader diskGuid partGuid true 2 262143, zeros 420, entry partGuid, zeros 1047424, esp.bytes,
    zeros 99613696, entry partGuid, gptHeader diskGuid partGuid false 262142 1]

/-- Two headers of 92 bytes and two entries of 128 bytes on a disk of 128 MiB: every assignment in
front of the last sector makes it shorter, so that the second header follows the entry at once. -/
theorem assign_parts {hdr hdr' ent esp : List UInt8} (hhdr : hdr.length = 92) (hent : ent.length = 128)
    (hesp : esp.length = 33554432) :
    sliceAssign (sliceAssign (sliceAssign (sliceAssign (sliceAssign (zeros 134217728) 512 1024 hdr) 1024 1536 ent)
      134216704 134217216 ent) 134217216 134217728 hdr') 1048576 (1048576 + esp.length) esp =
      [zeros 512, hdr, zeros 420, ent, zeros 1047424, esp, zeros 99613696, ent, hdr'].flatten := by
  have hz : ∀ n, (zeros n).length = n := fun n => List.length_replicate
  have hzz : ∀ n k, zeros n ++ zeros k = zeros (n + k) := fun n k => List.replicate_append_replicate
  -- the first header and its entry
  have h₁ : sliceAssign (zeros 134217728) 512 1024 hdr = zeros 512 ++ hdr ++ zeros 134216704 := by
    rw [show zeros 134217728 = zeros 512 ++ zeros 512 ++ zeros 134216704 by rw [hzz, hzz]]
    exact sliceAssign_append (hz _) (by rw [hz]) _
  have h₂ : sliceAssign (zeros 512 ++ hdr ++ zeros 134216704) 1024 1536 ent =
      zeros 512 ++ hdr ++ zeros 420 ++ ent ++ zeros 134215772 := by
    rw [show zeros 134216704 = zeros 420 ++ zeros 512 ++ zeros 134215772 by rw [hzz, hzz],
      ← List.append_assoc, ← List.append_assoc]
    exact sliceAssign_append (by simp only [List.length_append, hz, hhdr])
      (by simp only [List.length_append, hz, hhdr]) _
  -- the second entry cuts the disk off, and the second header is appended to it
  have h₃ : sliceAssign (zeros 512 ++ hdr ++ zeros 420 ++ ent ++ zeros 134215772) 134216704 134217216 ent =
      zeros 512 ++ hdr ++ zeros 420 ++ ent ++ zeros 134215552 ++ ent := by
    rw [show zeros 134215772 = zeros 134215552 ++ zeros 220 by rw [hzz], ← List.append_assoc]
    exact sliceAssign_of_length_le (by simp only [List.length_append, hz, hhdr, hent])
      (by simp only [List.length_append, hz, hhdr, hent]; decide) _
  have h₄ : sliceAssign (zeros 512 ++ hdr ++ zeros 420 ++ ent ++ zeros 134215552 ++ ent) 134217216 134217728 hdr' =
      zeros 512 ++ hdr ++ zeros 420 ++ ent ++ zeros 134215552 ++ ent ++ hdr' :=
    sliceAssign_of_end_le (by simp only [List.length_append, hz, hhdr, hent]; decide) _
  -- the partition replaces zeros
  have h₅ : sliceAssign (zeros 512 ++ hdr ++ zeros 420 ++ ent ++ zeros 134215552 ++ ent ++ hdr') 1048576
      (1048576 + esp.length) esp = zeros 512 ++ hdr ++ zeros 420 ++ ent ++ zeros 1047424 ++ esp ++
        (zeros 99613696 ++ ent ++ hdr') := by
    rw [show zeros 134215552 = zeros 1047424 ++ zeros 33554432 ++ zeros 99613696 by rw [hzz, hzz]]
    rw [show zeros 512 ++ hdr ++ zeros 420 ++ ent ++ (zeros 1047424 ++ zeros 33554432 ++ zeros 99613696) ++ ent ++
      hdr' = zeros 512 ++ hdr ++ zeros 420 ++ ent ++ zeros 1047424 ++ zeros 33554432 ++
        (zeros 99613696 ++ ent ++ hdr') by simp only [List.append_assoc]]
    exact sliceAssign_append (by simp only [List.length_append, hz, hhdr, hent])
      (by simp only [List.length_append, hz, hhdr, hent, hesp]) _
  rw [h₁, h₂, h₃, h₄, h₅]
  simp only [List.flatten_cons, List.flatten_nil, List.append_nil, List.append_assoc]

/-- What is written. -/
theorem makeGptImage_eq (diskGuid partGuid : Guid) (esp : EspImage) :
    makeGptImage diskGuid partGuid esp = (imageParts diskGuid partGuid esp).flatten :=
  assign_parts (length_gptHeader diskGuid partGuid true 2 262143) (length_entry partGuid) esp.length_eq

/-- The image is 804 bytes short. -/
theorem length_makeGptImage (diskGuid partGuid : Guid) (esp : EspImage) :
    (makeGptImage diskGuid partGuid esp).length = 134216924 := by
  have hesp : esp.bytes.length = 33554432 := esp.length_eq
  rw [makeGptImage_eq, imageParts]
  simp only [List.flatten_cons, List.flatten_nil, List.length_append, List.length_nil,
    List.length_replicate, length_gptHeader, length_entry, hesp]

/-! ## What stands where -/

/-- A part of the image, where it begins. -/
theorem window_makeGptImage {k off n : Nat} (hk : k < 9)
    (hoff : ((imageParts diskGuid partGuid esp).take k).flatten.length = off)
    (hn : ((imageParts diskGuid partGuid esp).get ⟨k, hk⟩).length = n) :
    window (makeGptImage diskGuid partGuid esp) off n = (imageParts diskGuid partGuid esp).get ⟨k, hk⟩ := by
  rw [makeGptImage_eq, ← hoff, ← hn]
  exact window_flatten _ hk

/-- A field of a header, where it begins. -/
theorem window_header {image : List UInt8} {primary : Bool} {lba partLba crc : Nat}
    (h : window image lba 92 = (headerFields diskGuid partGuid primary partLba crc).flatten)
    {k off n : Nat}
    (hk : k < 14) (hoff : ((headerFields diskGuid partGuid primary partLba crc).take k).flatten.length = off)
    (hn : ((headerFields diskGuid partGuid primary partLba crc).get ⟨k, hk⟩).length = n)
    (hle : off + n ≤ 92) :
    window image (lba + off) n = (headerFields diskGuid partGuid primary partLba crc).get ⟨k, hk⟩ := by
  rw [← window_window hle, h, ← hoff, ← hn]
  exact window_flatten _ hk

/-- An integer in a header. -/
theorem field_header {image : List UInt8} {primary : Bool} {lba partLba crc : Nat}
    (h : window image lba 92 = (headerFields diskGuid partGuid primary partLba crc).flatten)
    {k off n v : Nat}
    (hk : k < 14) (hfield : (headerFields diskGuid partGuid primary partLba crc).get ⟨k, hk⟩ = packLe n v)
    (hoff : ((headerFields diskGuid partGuid primary partLba crc).take k).flatten.length = off)
    (hle : off + n ≤ 92) (hv : v < 256 ^ n) : field image (lba + off) n = v := by
  have hn : ((headerFields diskGuid partGuid primary partLba crc).get ⟨k, hk⟩).length = n := by
    rw [hfield, length_packLe]
  rw [field, window_header h hk hoff hn hle, hfield, leNat_packLe hv]

/-- A header is what the format asks for, if it is in its sector and the entry in its own. -/
theorem headerAt_of_window (primary : Bool) {image : List UInt8} {lba entries otherLba : Nat}
    (hlba : lba = if primary then 1 else 262143) (hentries : entries < 2 ^ 64)
    (hhdr : window image (lba * 512) 92 = gptHeader diskGuid partGuid primary entries otherLba)
    (hent : window image (entries * 512) 128 = entry partGuid) :
    HeaderAt image diskGuid lba (if primary then 262143 else 1) entries := by
  rw [gptHeader_eq] at hhdr
  have hguid := diskGuid.length_eq
  have hcrc : ∀ c : UInt32, c.toNat < 256 ^ 4 := fun c => c.toNat_lt
  have hsector : ∀ c d : Nat, c < 256 ^ 8 → d < 256 ^ 8 → (if primary then c else d) < 256 ^ 8 := by
    intro c d hc hd
    split_ifs
    · exact hc
    · exact hd
  have hcount : field image (lba * 512 + 80) 4 = 1 :=
    field_header hhdr (k := 11) (by decide) rfl (by simp [headerFields, hguid, signature]) (by decide) (by decide)
  have hsize : field image (lba * 512 + 84) 4 = 128 :=
    field_header hhdr (k := 12) (by decide) rfl (by simp [headerFields, hguid, signature]) (by decide) (by decide)
  refine ⟨?_, ?_, ?_, ?_, ?_, ?_, ?_, ?_⟩
  · have hfirst : window image (lba * 512 + 0) 8 = signature :=
      window_header hhdr (k := 0) (by decide) rfl rfl
      (by decide)
    rwa [Nat.add_zero] at hfirst
  · exact field_header hhdr (k := 2) (by decide) rfl rfl (by decide) (by decide)
  · rw [hhdr]
    change _ = (crc32 (sliceAssign _ 16 20 (packLe 4 0))).toNat
    rw [sliceAssign_headerFields]
    exact field_header hhdr (k := 3) (by decide) rfl rfl (by decide) (hcrc _)
  · have hself : field image (lba * 512 + 24) 8 = if primary then 1 else lastLba :=
      field_header hhdr (k := 5) (by decide) rfl rfl (by decide) (hsector 1 lastLba (by decide) (by decide))
    exact hself.trans hlba.symm
  · exact field_header hhdr (k := 6) (by decide) rfl rfl (by decide) (hsector lastLba 1 (by decide) (by decide))
  · exact window_header hhdr (k := 9) (by decide) rfl hguid (by decide)
  · exact field_header hhdr (k := 10) (by decide) rfl (by simp [headerFields, hguid, signature]) (by decide)
      hentries
  · rw [hcount, hsize, hent]
    exact field_header hhdr (k := 13) (by decide) rfl (by simp [headerFields, hguid, signature]) (by decide)
      (hcrc _)

/-- The first header, both entries and the partition are in place; the second header follows the
second entry at byte 134216832 and not at the beginning of sector 262143, and the sector of that
entry counts as usable. -/
theorem makeGptImage_parts (diskGuid partGuid : Guid) (esp : EspImage) :
    let image := makeGptImage diskGuid partGuid esp
    HeaderAt image diskGuid 1 262143 2 ∧ window image (2 * 512) 128 = entry partGuid ∧
      window image (262142 * 512) 128 = entry partGuid ∧
      window image (2048 * 512) esp.bytes.length = esp.bytes ∧
      window image 134216832 92 = gptHeader diskGuid partGuid false 262142 1 ∧
      field image (1 * 512 + 40) 8 ≤ 262142 ∧ 262142 ≤ field image (1 * 512 + 48) 8 := by
  intro image
  have hhdr := length_gptHeader diskGuid partGuid
  have hent := length_entry partGuid
  have hesp : esp.bytes.length = 33554432 := esp.length_eq
  have hguid := diskGuid.length_eq
  have hprimary : window image (1 * 512) 92 = gptHeader diskGuid partGuid true 2 262143 :=
    window_makeGptImage (k := 1) (by decide) (by simp [imageParts]) (hhdr true 2 262143)
  have hfirst : window image (2 * 512) 128 = entry partGuid :=
    window_makeGptImage (k := 3) (by decide) (by simp [imageParts, hhdr]) hent
  refine ⟨?_, hfirst, ?_, ?_, ?_, ?_, ?_⟩
  · exact headerAt_of_window true rfl (by decide) hprimary hfirst
  · exact window_makeGptImage (k := 7) (by decide) (by simp [imageParts, hhdr, hent, hesp]) hent
  · exact window_makeGptImage (k := 5) (by decide) (by simp [imageParts, hhdr, hent]) rfl
  · exact window_makeGptImage (k := 8) (by decide) (by simp [imageParts, hhdr, hent, hesp]) (hhdr false 262142 1)
  · rw [gptHeader_eq] at hprimary
    have hlow : field image (1 * 512 + 40) 8 = 2048 :=
      field_header hprimary (k := 7) (by decide) rfl (by simp [headerFields, signature]) (by decide) (by decide)
    omega
  · rw [gptHeader_eq] at hprimary
    have hhigh : field image (1 * 512 + 48) 8 = 262142 :=
      field_header hprimary (k := 8) (by decide) rfl (by simp [headerFields, signature]) (by decide) (by decide)
    omega

/-- No image has the layout. -/
theorem gptLayout_never (diskGuid partGuid : Guid) (esp : EspImage) :
    ¬ GptLayout diskGuid partGuid esp (makeGptImage diskGuid partGuid esp) := by
  intro h
  have hsize := h.size
  rw [length_makeGptImage] at hsize
  exact absurd hsize (by decide)

/-- GUIDs and a partition of zeros: the image ends in front of its last sector. -/
theorem zeroImage_not_gptLayout :
    let guid : Guid := ⟨List.replicate 16 0, List.length_replicate⟩
    let esp : EspImage := ⟨List.replicate (espSects * sector) 0, List.length_replicate⟩
    (makeGptImage guid guid esp).length < 262143 * 512 ∧
    ¬ GptLayout guid guid esp (makeGptImage guid guid esp) := by
  intro guid esp
  have hlen := length_makeGptImage guid guid esp
  refine ⟨by omega, fun h => ?_⟩
  have hsize := h.size
  omega

end GptImage

end Aerogel
