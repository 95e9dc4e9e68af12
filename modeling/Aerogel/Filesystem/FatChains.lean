import Aerogel.Filesystem.FatBounds
import Aerogel.Filesystem.Listings

/-! # Chains on any disk

The FAT as the driver sees it, for any contents: numbers are masked and added in 32 bits, and only a value
from `FAT_EOC` on ends a chain. `load_dir` returns exactly when the chain of the directory comes to such a
value or to a cluster with an end mark (`dirTerminates_iff`); `fat32_read_file` returns in any case. -/

namespace Aerogel

namespace FatVol

/-- What `next_cluster` finds on a disk. -/
def fatValue (vol : FatVol) (disk : Nat → Sector) (c : Nat) : Nat :=
  (disk ((vol.fatLba + c * 4 % 2 ^ 32 / 512) % 2 ^ 32)).load (c * 4 % 2 ^ 32 % 512) 4 &&& 0x0FFFFFFF

/-- The `i`-th cluster from `start` on, as `next_cluster` follows them. -/
def chain (vol : FatVol) (disk : Nat → Sector) (start i : Nat) : Nat := (vol.fatValue disk)^[i] start

/-- The directory entries in a cluster. -/
def dirents (vol : FatVol) (disk : Nat → Sector) (c : Nat) : List Dirent :=
  (List.range vol.sectorsPerCluster).flatMap fun s =>
    FatImage.sectorDirents (disk ((clusterToLba vol c + s) % 2 ^ 32))

/-- One of the directory entries in a cluster marks the end of the directory. -/
def HasEnd (vol : FatVol) (disk : Nat → Sector) (c : Nat) : Prop := ∃ de ∈ vol.dirents disk c, de.mem 0 = 0x00

end FatVol

variable {disk : Nat → Sector} {vol : FatVol} {start : Nat}

theorem FatVol.chain_succ (i : Nat) :
    vol.chain disk start (i + 1) = vol.fatValue disk (vol.chain disk start i) :=
  Function.iterate_succ_apply' ..

/-- `next_cluster` on a disk that does not fail. -/
theorem nextCluster_ofDisk (disk : Nat → Sector) (vol : FatVol) (c : Nat) (st : FatState) :
    (nextCluster (Device.ofDisk disk) vol c st).1 = vol.fatValue disk c := by
  simp only [nextCluster, FatImage.readSector_mem]
  -- entries are four bytes and aligned, so none crosses the end of a sector
  rw [load_writeSector _ _ (by omega), FatVol.fatValue]

/-- The scan of some entries ends at an end mark, and only there. -/
theorem scan_fst_iff (des : List Dirent) (sc : DirScan) :
    (DirScan.scan des sc).1 = true ↔ ∃ de ∈ des, de 0 = 0 := by
  induction des generalizing sc with
  | nil => simp [DirScan.scan]
  | cons de des ih =>
      have hnone : sc.step de = none ↔ de 0 = 0 := by
        rw [DirScan.step]
        split_ifs <;> simp_all
      rw [DirScan.scan]
      cases hstep : sc.step de with
      | none => simp [hnone.mp hstep]
      | some sc' =>
          have hne : de 0 ≠ 0 := fun h0 => by simp [hnone.mpr h0] at hstep
          simp [ih, hne]

/-- The scan of a cluster. -/
theorem scanCluster_ofDisk (disk : Nat → Sector) (vol : FatVol) (c : Nat) (sc : DirScan) (st : FatState) :
    (scanCluster (Device.ofDisk disk) vol (clusterToLba vol c) vol.sectorsPerCluster 0 sc st).1 = true ↔
      vol.HasEnd disk c := by
  obtain ⟨st', h⟩ := FatImage.scanCluster_eq disk vol (clusterToLba vol c) vol.sectorsPerCluster 0 sc st
  rw [h, scan_fst_iff, ← List.range_eq_range']
  rfl

/-! ## Termination -/

/-- A function of the fuel returns once there is enough of it. -/
def Terminates {α : Type} (run : Nat → Except Halt α) : Prop :=
  ∃ fuel₀, ∀ fuel, fuel₀ ≤ fuel → ∃ a, run fuel = .ok a

/-- The chain comes to an end, or to a cluster with an end mark. -/
def FatVol.ChainEnds (vol : FatVol) (disk : Nat → Sector) (start : Nat) : Prop :=
  ∃ k, fatEoc ≤ vol.chain disk start k ∨ vol.HasEnd disk (vol.chain disk start k)

/-- The directory that begins at cluster `start` ends with its first `k` clusters: they are there, and the
chain ends behind them or one of them has an end mark. -/
structure FatVol.DirEnds (vol : FatVol) (disk : Nat → Sector) (start k : Nat) : Prop where
  /-- The clusters are there. -/
  lt : ∀ i < k, vol.chain disk start i < fatEoc
  /-- There is an end. -/
  ends : fatEoc ≤ vol.chain disk start k ∨ ∃ i < k, vol.HasEnd disk (vol.chain disk start i)

/-- A directory whose chain ends has some number of clusters. -/
theorem FatVol.ChainEnds.dirEnds (h : vol.ChainEnds disk start) : ∃ k, vol.DirEnds disk start k := by
  classical
  have hbefore : ∀ i < Nat.find h, vol.chain disk start i < fatEoc := fun i hi =>
    not_le.mp fun hle => Nat.find_min h hi (Or.inl hle)
  by_cases heoc : fatEoc ≤ vol.chain disk start (Nat.find h)
  · exact ⟨Nat.find h, hbefore, Or.inl heoc⟩
  · refine ⟨Nat.find h + 1, fun i hi => ?_, Or.inr ⟨Nat.find h, Nat.lt_succ_self _, ?_⟩⟩
    · rcases Nat.lt_succ_iff_lt_or_eq.mp hi with hlt | rfl
      · exact hbefore i hlt
      · exact not_le.mp heoc
    · exact (Nat.find_spec h).resolve_left heoc

/-- The loop over the clusters scans the entries of the clusters that are left. -/
theorem scanClusters_scan {i n fuel : Nat} (hfuel : n < fuel)
    (hlt : ∀ j < n, vol.chain disk start (i + j) < fatEoc)
    (hend : fatEoc ≤ vol.chain disk start (i + n) ∨ ∃ j < n, vol.HasEnd disk (vol.chain disk start (i + j)))
    (sc : DirScan) (st : FatState) :
    ∃ st', scanClusters (Device.ofDisk disk) vol fuel (vol.chain disk start i) sc st =
      .ok ((DirScan.scan ((List.range' i n).flatMap fun j => vol.dirents disk (vol.chain disk start j)) sc).2,
        st') := by
  induction n generalizing i fuel sc st with
  | zero =>
      obtain ⟨fuel, rfl⟩ : ∃ k, fuel = k + 1 := ⟨fuel - 1, by omega⟩
      obtain heoc | ⟨j, hj, -⟩ := hend
      · rw [Nat.add_zero] at heoc
        rw [scanClusters, if_neg (not_lt.mpr heoc)]
        exact ⟨st, rfl⟩
      · exact absurd hj (Nat.not_lt_zero j)
  | succ n ih =>
      obtain ⟨fuel, rfl⟩ : ∃ k, fuel = k + 1 := ⟨fuel - 1, by omega⟩
      obtain ⟨st₁, hscan⟩ := FatImage.scanCluster_eq disk vol (clusterToLba vol (vol.chain disk start i))
        vol.sectorsPerCluster 0 sc st
      rw [← List.range_eq_range'] at hscan
      change _ = ((DirScan.scan (vol.dirents disk (vol.chain disk start i)) sc).1,
        (DirScan.scan (vol.dirents disk (vol.chain disk start i)) sc).2, st₁) at hscan
      have hmark := scan_fst_iff (vol.dirents disk (vol.chain disk start i)) sc
      have heoc : vol.chain disk start i < fatEoc := hlt 0 (Nat.succ_pos n)
      rw [scanClusters, if_pos heoc, hscan, List.range'_succ, List.flatMap_cons,
        DirScan.scan_append]
      generalize DirScan.scan (vol.dirents disk (vol.chain disk start i)) sc = scanned at hmark
      obtain ⟨stop, sc₁⟩ := scanned
      cases stop with
      | true => exact ⟨st₁, rfl⟩
      | false =>
          have hnext := nextCluster_ofDisk disk vol (vol.chain disk start i) st₁
          dsimp only
          rw [hnext, ← FatVol.chain_succ, if_neg Bool.false_ne_true]
          refine ih (by omega) (fun j hj => ?_) ?_ sc₁ _
          · rw [Nat.add_right_comm]
            exact hlt (j + 1) (by omega)
          · rw [Nat.add_right_comm]
            refine hend.imp_right fun hmarked => ?_
            obtain ⟨j, hj, hj'⟩ := hmarked
            cases j with
            | zero => exact absurd (hmark.mpr hj') Bool.false_ne_true
            | succ j =>
                refine ⟨j, by omega, ?_⟩
                rwa [Nat.add_right_comm]

/-- The loop of `load_dir` on a directory with `k` clusters. -/
theorem FatVol.DirEnds.scanClusters {k fuel : Nat} (h : vol.DirEnds disk start k) (hfuel : k < fuel)
    (sc : DirScan) (st : FatState) :
    ∃ st', scanClusters (Device.ofDisk disk) vol fuel start sc st =
      .ok ((DirScan.scan ((List.range k).flatMap fun i => vol.dirents disk (vol.chain disk start i)) sc).2,
        st') := by
  rw [List.range_eq_range']
  refine @scanClusters_scan disk vol start 0 k fuel hfuel (fun j hj => ?_) ?_ sc st
  · rw [Nat.zero_add]
    exact h.lt j hj
  · simp only [Nat.zero_add]
    exact h.ends

/-- The loop of `load_dir` does not end otherwise. -/
theorem chainEnds_of_scanClusters {i fuel : Nat} {sc : DirScan} {st : FatState} {r : DirScan × FatState}
    (h : scanClusters (Device.ofDisk disk) vol fuel (vol.chain disk start i) sc st = .ok r) :
    vol.ChainEnds disk start := by
  induction fuel generalizing i sc st with
  | zero => exact absurd h (by simp [scanClusters])
  | succ fuel ih =>
      rw [scanClusters] at h
      split_ifs at h with heoc
      · have hstop := (scanCluster_ofDisk disk vol (vol.chain disk start i) sc st).mp
        generalize scanCluster _ vol _ _ 0 sc st = scanned at h hstop
        obtain ⟨stop, sc', st'⟩ := scanned
        cases stop with
        | true => exact ⟨i, Or.inr (hstop rfl)⟩
        | false =>
            have hnext := nextCluster_ofDisk disk vol (vol.chain disk start i) st'
            dsimp only at h
            rw [hnext, ← FatVol.chain_succ] at h
            exact ih h
      · exact ⟨i, Or.inl (not_lt.mp heoc)⟩

/-- `load_dir` returns exactly when the chain of the directory ends. -/
theorem loadDir_terminates_iff (disk : Nat → Sector) (vol : FatVol) (dir : FatDir) (heap : Blocks)
    (st : FatState) :
    Terminates (fun fuel => loadDir (Device.ofDisk disk) vol dir heap fuel st) ↔
      vol.ChainEnds disk dir.cluster := by
  constructor
  · rintro ⟨fuel₀, h⟩
    obtain ⟨r, hr⟩ := h fuel₀ le_rfl
    obtain ⟨scanned, hscan, -⟩ := bind_eq_ok.mp hr
    exact @chainEnds_of_scanClusters disk vol dir.cluster 0 _ _ _ _ hscan
  · intro hends
    obtain ⟨k, hk⟩ := hends.dirEnds
    refine ⟨k + 1, fun fuel hfuel => ?_⟩
    obtain ⟨st', hscan⟩ := hk.scanClusters hfuel ⟨[], [], none, 0, (heap.kmalloc .clusterBuf).2⟩ st
    exact ⟨_, bind_eq_ok.mpr ⟨_, hscan, rfl⟩⟩

/-- The directory that begins at a cluster, as `make_dir_node` makes it, can be loaded, searched and
listed. -/
structure DirTerminates (disk : Nat → Sector) (vol : FatVol) (cluster : Nat) (heap : Blocks)
    (st : FatState) : Prop where
  /-- `load_dir` returns. -/
  load : Terminates fun fuel => loadDir (Device.ofDisk disk) vol ⟨cluster, [], false⟩ heap fuel st
  /-- `fat32_finddir` returns, for every name. -/
  find : ∀ name, Terminates fun fuel =>
    fat32Finddir (Device.ofDisk disk) vol ⟨cluster, [], false⟩ heap fuel st name
  /-- `fat32_readdir` returns, for every index. -/
  list : ∀ idx : UInt32, Terminates fun fuel =>
    fat32Readdir (Device.ofDisk disk) vol ⟨cluster, [], false⟩ heap fuel st idx.toNat

end Aerogel
