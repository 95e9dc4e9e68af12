import Aerogel.Filesystem.FatEncoding
import Aerogel.Filesystem.FatImage

/-! # Loading a directory

The directory entries of a cluster chain, and that `load_dir` scans them as one row, wherever sectors and
clusters end. With `scan_encodes` this gives `loadDir_exact`: the nodes are the logical entries of the
directory. -/

namespace Aerogel

namespace DirScan

/-- Scanning a row in two parts. -/
theorem scan_append (des des' : List Dirent) (sc : DirScan) :
    scan (des ++ des') sc =
      if (scan des sc).1 then scan des sc else scan des' (scan des sc).2 := by
  induction des generalizing sc with
  | nil => rfl
  | cons de des ih =>
      rw [List.cons_append, scan, scan]
      cases sc.step de with
      | none => rfl
      | some sc => exact ih sc

end DirScan

namespace FatImage

/-! ## The entries of a chain -/

/-- The directory entries in a sector. -/
def sectorDirents (s : Sector) : List Dirent :=
  List.ofFn fun i : Fin 16 => fun k : Fin 32 => s ⟨32 * i + k, by omega⟩

/-- The directory entries in a cluster. -/
def clusterDirents (img : FatImage) (c : Nat) : List Dirent :=
  (List.range img.sectorsPerCluster).flatMap fun s => sectorDirents (img.disk (img.clusterLba c + s))

/-- The directory entries in the first `k` clusters of a chain. -/
def dirents (img : FatImage) (start k : Nat) : List Dirent :=
  (List.range k).flatMap fun i => img.clusterDirents (img.chain start i)

/-- The first `k` clusters of the chain hold a directory with these entries. It ends with an entry that
begins with 0, whatever stands behind it, or with the chain. -/
def HoldsDirectory (img : FatImage) (start k : Nat) (es : List Vfat.LogicalEntry) : Prop :=
  ∃ rs, Vfat.Encodes rs es ∧
    ((img.dirents start k = rs ∧ fatEoc ≤ img.chain start k) ∨
      ∃ r rest, img.dirents start k = rs ++ r :: rest ∧ r.mem 0 = 0x00)

/-! ## The loops -/

/-- A sector in the buffer is the row of its entries. -/
theorem sectorEntries_writeSector (m : Mem) (buf : Nat) (s : Sector) :
    sectorEntries (writeSector m buf s) buf = sectorDirents s := by
  apply List.ext_getElem
  · rw [sectorEntries, sectorDirents, List.length_map, List.length_range, List.length_ofFn]
  · intro i h₁ h₂
    rw [sectorDirents, List.length_ofFn] at h₂
    simp only [sectorEntries, sectorDirents, List.getElem_map, List.getElem_range, List.getElem_ofFn]
    funext k
    have hk := k.isLt
    rw [Dirent.read, Nat.add_assoc]
    exact writeSector_apply m s (by omega)

variable {img : FatImage} {vol : FatVol}

/-- The loop over the sectors of a cluster, with sector numbers in 32 bits. -/
theorem scanCluster_eq (disk : Nat → Sector) (vol : FatVol) (lba left s : Nat) (sc : DirScan)
    (st : FatState) :
    ∃ st', scanCluster (Device.ofDisk disk) vol lba left s sc st =
      ((DirScan.scan ((List.range' s left).flatMap fun t =>
          sectorDirents (disk ((lba + t) % 2 ^ 32))) sc).1,
       (DirScan.scan ((List.range' s left).flatMap fun t =>
          sectorDirents (disk ((lba + t) % 2 ^ 32))) sc).2, st') := by
  induction left generalizing s sc st with
  | zero => exact ⟨st, rfl⟩
  | succ left ih =>
      rw [List.range'_succ, List.flatMap_cons, DirScan.scan_append, scanCluster]
      simp only [readSector_mem, sectorEntries_writeSector]
      cases hscan : DirScan.scan (sectorDirents (disk ((lba + s) % 2 ^ 32))) sc with
      | mk done sc₁ =>
          cases done with
          | true => exact ⟨_, rfl⟩
          | false => exact ih (s + 1) sc₁ _

/-- The loop over the sectors of a cluster that 32-bit numbers reach. -/
theorem scanCluster_spec {lba : Nat} (left s : Nat) (hlba : ∀ t < s + left, lba + t < 2 ^ 32)
    (sc : DirScan) (st : FatState) :
    ∃ st', scanCluster (Device.ofDisk img.disk) vol lba left s sc st =
      ((DirScan.scan ((List.range' s left).flatMap fun t => sectorDirents (img.disk (lba + t))) sc).1,
       (DirScan.scan ((List.range' s left).flatMap fun t => sectorDirents (img.disk (lba + t))) sc).2,
       st') := by
  have hmod : ((List.range' s left).flatMap fun t => sectorDirents (img.disk ((lba + t) % 2 ^ 32))) =
      (List.range' s left).flatMap fun t => sectorDirents (img.disk (lba + t)) := by
    apply List.flatMap_congr
    intro t ht
    rw [Nat.mod_eq_of_lt (hlba t (List.mem_range'_1.mp ht).2)]
  have h := scanCluster_eq img.disk vol lba left s sc st
  rwa [hmod] at h

/-- The loop over the sectors of a cluster of a chain. -/
theorem Mounted.scanCluster_spec (h : img.Mounted vol) {c : Nat} (h2 : 2 ≤ c) (hbad : c < fatBad)
    (hsector : ∀ s < img.sectorsPerCluster, img.clusterLba c + s < 2 ^ 32) (sc : DirScan)
    (st : FatState) :
    ∃ st', scanCluster (Device.ofDisk img.disk) vol (clusterToLba vol c) vol.sectorsPerCluster 0 sc st =
      ((DirScan.scan (img.clusterDirents c) sc).1, (DirScan.scan (img.clusterDirents c) sc).2, st') := by
  rw [h.sectorsPerCluster_eq, clusterDirents]
  rcases Nat.eq_zero_or_pos img.sectorsPerCluster with hzero | hpos
  · rw [hzero]
    exact ⟨st, rfl⟩
  · rw [h.clusterToLba_eq h2 hbad (hsector 0 hpos), List.range_eq_range']
    exact FatImage.scanCluster_spec _ 0 (fun t ht => hsector t (by omega)) sc st

/-- The loop over the clusters. -/
theorem Mounted.scanClusters_spec (h : img.Mounted vol) {start k : Nat} (hok : img.ChainOk start k)
    (n i fuel : Nat) (hik : i + n = k) (hfuel : n < fuel) (sc : DirScan) (st : FatState)
    (hend : (DirScan.scan ((List.range' i n).flatMap fun j =>
      img.clusterDirents (img.chain start j)) sc).1 = true ∨ fatEoc ≤ img.chain start k) :
    ∃ st', scanClusters (Device.ofDisk img.disk) vol fuel (img.chain start i) sc st =
      .ok ((DirScan.scan ((List.range' i n).flatMap fun j =>
        img.clusterDirents (img.chain start j)) sc).2, st') := by
  obtain ⟨fuel, rfl⟩ : ∃ f, fuel = f + 1 := ⟨fuel - 1, by omega⟩
  induction n generalizing i fuel sc st with
  | zero =>
      obtain rfl : i = k := hik
      have heoc : ¬ img.chain start i < fatEoc := by
        rcases hend with hend | hend
        · exact absurd hend Bool.false_ne_true
        · omega
      exact ⟨st, if_neg heoc⟩
  | succ n ih =>
      have hi : i < k := by omega
      obtain ⟨h2, hbad⟩ := hok.cluster i hi
      have hlt : img.chain start i < fatEoc := hbad.trans (by decide)
      obtain ⟨st₁, hcluster⟩ := h.scanCluster_spec h2 hbad (hok.sector_lt i hi) sc st
      rw [List.range'_succ, List.flatMap_cons, DirScan.scan_append] at hend ⊢
      rw [scanClusters, if_pos hlt, hcluster]
      cases hscan : DirScan.scan (img.clusterDirents (img.chain start i)) sc with
      | mk done sc₁ =>
          rw [hscan] at hend
          cases done with
          | true => exact ⟨st₁, rfl⟩
          | false =>
              -- the FAT entry of the cluster leads to the next one
              obtain ⟨hnext, -⟩ := h.nextCluster_eq hbad (hok.fatSector_lt i hi) st₁
              rw [← img.chain_succ] at hnext
              obtain ⟨fuel, rfl⟩ : ∃ f, fuel = f + 1 := ⟨fuel - 1, by omega⟩
              obtain ⟨st', hrun⟩ := ih (i + 1) (by omega) sc₁
                (nextCluster (Device.ofDisk img.disk) vol (img.chain start i) st₁).2 hend fuel
                (by omega)
              refine ⟨st', ?_⟩
              rw [← hnext] at hrun
              exact hrun

/-! ## Directories -/

/-- Scanning the row of a directory finds its entries, and ends with it. -/
theorem HoldsDirectory.scan {start k : Nat} {es : List Vfat.LogicalEntry}
    (h : img.HoldsDirectory start k es) {sc : DirScan} (hlfns : sc.lfns = [])
    (hentries : sc.entries = []) :
    ((DirScan.scan (img.dirents start k) sc).1 = true ∨ fatEoc ≤ img.chain start k) ∧
      List.Forall₂ Vfat.Shows es (DirScan.scan (img.dirents start k) sc).2.entries := by
  obtain ⟨rs, henc, hend⟩ := h
  -- what stands behind the encoded entries, if anything, is not looked at
  have hrest : ∃ rest, img.dirents start k = rs ++ rest ∧ ∀ sc' : DirScan,
      (DirScan.scan rest sc').2 = sc' ∧
        ((DirScan.scan rest sc').1 = true ∨ fatEoc ≤ img.chain start k) := by
    rcases hend with ⟨hrow, heoc⟩ | ⟨r, rest, hrow, hr⟩
    · exact ⟨[], by rw [hrow, List.append_nil], fun sc' => ⟨rfl, .inr heoc⟩⟩
    · refine ⟨r :: rest, hrow, fun sc' => ?_⟩
      have hzero : r 0 = 0x00 := hr
      rw [DirScan.scan, DirScan.step, if_pos hzero]
      exact ⟨rfl, .inl rfl⟩
  obtain ⟨rest, hrow, hstop⟩ := hrest
  obtain ⟨sc', nodes, hscan, -, hnodes, hshows⟩ := Vfat.scan_encodes henc sc hlfns rest
  rw [hrow, hscan, (hstop sc').1, hnodes, hentries]
  exact ⟨(hstop sc').2, hshows⟩

end FatImage

/-- Loading a directory is exact: on a volume that `fat32_mount` accepts, from a disk whose sectors can
all be read, `load_dir` makes one node for every logical entry of the directory, in order, with its name,
kind, size and first cluster. -/
theorem loadDir_exact (img : FatImage) (sectorBuf : Nat) (st₀ : FatState) (vol : FatVol)
    (hmount : (fat32Mount (Device.ofDisk img.disk) img.partLba sectorBuf st₀).1 = some vol)
    (dir : FatDir) (k : Nat) (hchain : img.ChainOk dir.cluster k) (es : List Vfat.LogicalEntry)
    (hdir : img.HoldsDirectory dir.cluster k es) (heap : Blocks) (st : FatState) :
    ∃ fuel₀, ∀ fuel, fuel₀ ≤ fuel → ∃ dir' heap' st',
      loadDir (Device.ofDisk img.disk) vol dir heap fuel st = .ok (dir', heap', st') ∧
      dir'.loaded = true ∧ List.Forall₂ Vfat.Shows es dir'.entries := by
  obtain ⟨h, -⟩ := FatImage.mounted_of_fat32Mount hmount
  let sc : DirScan :=
    { lfns := [], entries := [], entriesBlock := none, cap := 0
      heap := (heap.kmalloc .clusterBuf).2 }
  obtain ⟨hend, hshows⟩ := FatImage.HoldsDirectory.scan hdir (show sc.lfns = [] from rfl) rfl
  refine ⟨k + 1, fun fuel hfuel => ?_⟩
  rw [FatImage.dirents, List.range_eq_range'] at hend hshows
  obtain ⟨st', hrun⟩ := h.scanClusters_spec hchain k 0 fuel (Nat.zero_add k) (by omega) sc st hend
  have hload : loadDir (Device.ofDisk img.disk) vol dir heap fuel st =
      (scanClusters (Device.ofDisk img.disk) vol fuel (img.chain dir.cluster 0) sc st).bind
        fun p => .ok ({ dir with entries := p.1.entries, loaded := true },
          p.1.heap.kfree (heap.kmalloc .clusterBuf).1, p.2) := rfl
  rw [hload, hrun]
  exact ⟨_, _, st', rfl, rfl, hshows⟩

/-! ## A small directory -/

/-- A deleted entry, a file with a long name, a directory with a short one. -/
def smallDirectory : List UInt8 :=
  (0xE5 :: List.replicate 31 0) ++
  ([0x41, 0x61, 0, 0x62, 0, 0, 0, 0xFF, 0xFF, 0xFF, 0xFF, 0x0F, 0, 0] ++ List.replicate 12 0xFF ++
    [0, 0] ++ List.replicate 4 0xFF) ++
  ([0x41, 0x42, 0x7E, 0x31] ++ List.replicate 7 0x20 ++ [0x20] ++ List.replicate 14 0 ++
    [5, 0, 7, 0, 0, 0]) ++
  (0x44 :: List.replicate 10 0x20 ++ [0x10] ++ List.replicate 14 0 ++ [6, 0, 0, 0, 0, 0])

/-- A volume at sector 2048 with this directory in cluster 2. -/
def directoryImage : FatImage where
  partLba := 2048
  disk
    | 2048 => fun i => match i.val with
      | 12 => 2
      | 13 => 1
      | 14 => 1
      | 16 => 1
      | 36 => 1
      | 44 => 2
      | _ => 0
    -- FAT: cluster 2 is the last one
    | 2049 => fun i => match i.val with
      | 8 | 9 | 10 => 0xFF
      | 11 => 0x0F
      | _ => 0
    | _ => fun i => smallDirectory.getD i.val 0

/-- The volume that `fat32_mount` makes of it. -/
def directoryVol : FatVol where
  partLba := 2048
  fatLba := 2049
  dataLba := 2050
  rootCluster := 2
  sectorsPerCluster := 1
  bytesPerCluster := 512
  sectorBuf := 4096

/-- Its directory entries. -/
def smallRecord (j : Nat) : Dirent := fun k => smallDirectory.getD (32 * j + k) 0

/-- Two units. -/
theorem smallLongName_ok : ∀ u ∈ ([0x61, 0x62] : List UInt8), u ≠ 0 := by
  intro u hu
  rw [List.mem_cons, List.mem_singleton] at hu
  rcases hu with rfl | rfl <;> decide

/-- A long name of two units. -/
def smallLongName : Vfat.LongName where
  units := [0x61, 0x62]
  units_ok := smallLongName_ok
  units_ne := List.cons_ne_nil _ _
  units_le := by decide

/-- One character. -/
theorem smallShortName_ok : ∀ b ∈ ([0x44] : List UInt8), b ≠ 0 ∧ b ≠ 0x20 := by
  intro b hb
  rw [List.mem_singleton.mp hb]
  decide

/-- The first character. -/
theorem smallShortName_first :
    ∀ b ∈ ([0x44] : List UInt8).head?, b ≠ 0x05 ∧ b ≠ 0xE5 ∧ b ≠ 0x2E := by
  intro b hb
  obtain rfl : 0x44 = b := Option.some.inj hb
  decide

/-- A short name of one character. -/
def smallShortName : Vfat.ShortName where
  base := [0x44]
  ext := []
  base_ne := List.cons_ne_nil _ _
  base_le := by decide
  ext_le := by decide
  base_ok := smallShortName_ok
  ext_ok := fun _ h => absurd h List.not_mem_nil
  first_ok := smallShortName_first

/-- The file. -/
def smallFileEntry : Vfat.LogicalEntry :=
  ⟨.file, 5, 7, .long smallLongName, by decide, by decide, by decide⟩

/-- The directory in the directory. -/
def smallDirEntry : Vfat.LogicalEntry :=
  ⟨.dir, 6, 0, .short smallShortName, by decide, by decide, by decide⟩

/-- The cluster of the directory is in order. -/
theorem directoryImage_chainOk : directoryImage.ChainOk 2 1 where
  cluster := by decide +kernel
  fatSector_lt := by decide +kernel
  sector_lt := by decide +kernel

/-- The file's only fragment. -/
theorem isFragment_smallRecord : Vfat.IsFragment smallLongName 0 (smallRecord 1) :=
  ⟨by decide +kernel, by decide +kernel, by decide +kernel⟩

/-- The directory holds the two entries. -/
theorem directoryImage_holds :
    directoryImage.HoldsDirectory 2 1 [smallFileEntry, smallDirEntry] := by
  refine ⟨smallRecord 0 :: ([smallRecord 1] ++ smallRecord 2 :: [smallRecord 3]), ?_,
    .inr ⟨smallRecord 4, (List.range' 5 11).map smallRecord, ?_, by decide +kernel⟩⟩
  · have hdir : Vfat.Describes (smallRecord 3) smallDirEntry :=
      ⟨by decide +kernel, by decide +kernel, by decide +kernel, by decide +kernel, by decide +kernel⟩
    have hshort : Vfat.HasShortName smallShortName (smallRecord 3) :=
      ⟨by decide +kernel, by decide +kernel⟩
    have hfile : Vfat.Describes (smallRecord 2) smallFileEntry :=
      ⟨by decide +kernel, by decide +kernel, by decide +kernel, by decide +kernel, by decide +kernel⟩
    have halias : Vfat.HasAlias (smallRecord 2) :=
      ⟨by decide +kernel, by decide +kernel, by decide +kernel⟩
    have hfrags : ∀ (i : Nat) (h : i < [smallRecord 1].reverse.length),
        Vfat.IsFragment smallLongName i [smallRecord 1].reverse[i] := by
      intro i hi
      obtain rfl : i = 0 := by
        rw [List.length_reverse, List.length_singleton] at hi
        omega
      exact isFragment_smallRecord
    have hlong := Vfat.Encodes.long (e := smallFileEntry) rfl rfl hfrags halias hfile
      (.short rfl hshort hdir .nil)
    exact .skip (.deleted (by decide +kernel)) hlong
  · rfl

/-- Loading the directory. -/
theorem loadDir_smallDirectory :
    ∃ fuel₀, ∀ fuel, fuel₀ ≤ fuel → ∃ dir' heap' st',
      loadDir (Device.ofDisk directoryImage.disk) directoryVol ⟨2, [], false⟩ ⟨0, []⟩ fuel
        ⟨fun _ => 0, []⟩ = .ok (dir', heap', st') ∧
      dir'.loaded = true ∧ List.Forall₂ Vfat.Shows [smallFileEntry, smallDirEntry] dir'.entries :=
  loadDir_exact directoryImage 4096 ⟨fun _ => 0, []⟩ directoryVol (by decide +kernel) ⟨2, [], false⟩ 1
    directoryImage_chainOk _ directoryImage_holds ⟨0, []⟩ ⟨fun _ => 0, []⟩

end Aerogel
