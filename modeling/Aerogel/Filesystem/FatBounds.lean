import Aerogel.Filesystem.FatLog

/-! # Reads of any FAT32 volume are bounded

A disk may hold anything: chains that run in circles, that leave the volume or that end too early. Whatever
it holds, `fat32_read_file` returns, because every round of its loops moves on by at least a byte, and it
writes the bytes it counts and no others (`fat32ReadFile_bounded`). -/

namespace Aerogel

namespace FatEvent

/-- The range of the sector buffer that an event reads: offset and number of bytes. -/
def range : FatEvent → Nat × Nat
  | .lookup _ _ off _ => (off, 4)
  | .copy _ off take => (off, take)
  | .sector .. => (0, 0)
  | .nodes _ => (0, 512)

/-- The event writes the byte at `x`, outside the sector buffer. -/
def Writes (x : Nat) : FatEvent → Prop
  | .copy dst _ take => dst ≤ x ∧ x < dst + take
  | _ => False

end FatEvent

open FatImage (Outside)

variable {dev : Device} {vol : FatVol} {r : FatRun} {lo hi : Nat}

/-- So far the driver has stayed inside the sector buffer, has written the bytes from `lo` to `hi`, and has
left everything else alone. -/
structure Bounded (vol : FatVol) (m : Mem) (lo hi : Nat) (r : FatRun) : Prop where
  /-- Accesses to the sector buffer are inside it. -/
  inside : ∀ e ∈ r.log, e.range.1 + e.range.2 ≤ 512
  /-- These bytes are written. -/
  writes : ∀ x, (∃ e ∈ r.log, e.Writes x) ↔ lo ≤ x ∧ x < hi
  /-- No others change, the sector buffer apart. -/
  frame : ∀ x, ¬ (lo ≤ x ∧ x < hi) → Outside vol x → r.mem x = m x

/-- A call of `read_sector` changes the sector buffer at most. -/
theorem readSector_apply_of_outside (dev : Device) {dst x : Nat} (hx : x < dst ∨ dst + 512 ≤ x)
    (why : ReadFor) (lba : Nat) (st : FatState) :
    (readSector dev dst why lba st).mem x = st.mem x := by
  rw [readSector]
  cases dev st.reads.length lba with
  | none => rfl
  | some s => exact writeSector_apply_of_outside _ _ hx

namespace Bounded

variable {m : Mem}

/-- A FAT entry is inside its sector. -/
theorem lookup (h : Bounded vol m lo hi r) (dev : Device) (cluster : Nat) :
    Bounded vol m lo hi (nextClusterLog dev vol cluster r).2 where
  inside e he := by
    obtain he | he := List.mem_append.mp he
    · exact h.inside e he
    · obtain rfl := List.mem_singleton.mp he
      change cluster * 4 % 2 ^ 32 % 512 + 4 ≤ 512
      omega
  writes x := by
    have hlog : (nextClusterLog dev vol cluster r).2.log = r.log ++ [.lookup r.reads.length cluster
        (cluster * 4 % 2 ^ 32 % 512) (nextClusterLog dev vol cluster r).1] := rfl
    rw [← h.writes x, hlog]
    simp [FatEvent.Writes]
  frame x hx hout := by
    rw [← h.frame x hx hout]
    exact readSector_apply_of_outside dev hout ..

/-- A sector is read and some of its bytes are copied. -/
theorem copy (h : Bounded vol m lo hi r) (dev : Device) (cluster s lba : Nat) {off take : Nat}
    (hin : off + take ≤ 512) (hle : lo ≤ hi) :
    Bounded vol m lo (hi + take) ((r.readContents dev vol cluster s lba).copyOut vol hi off take) where
  inside e he := by
    simp only [FatRun.copyOut, FatRun.readContents, List.mem_append, List.mem_singleton] at he
    obtain (he | rfl) | rfl := he
    · exact h.inside e he
    · exact Nat.zero_le _
    · exact hin
  writes x := by
    simp only [FatRun.copyOut, FatRun.readContents, List.mem_append, List.mem_singleton, or_and_right,
      exists_or, exists_eq_left]
    rw [h.writes x]
    change (lo ≤ x ∧ x < hi ∨ False) ∨ hi ≤ x ∧ x < hi + take ↔ lo ≤ x ∧ x < hi + take
    rw [or_false]
    omega
  frame x hx hout := by
    rw [← h.frame x (by omega) hout]
    change memcpy _ hi (vol.sectorBuf + off) take x = _
    rw [memcpy_apply_of_outside _ (by omega)]
    exact readSector_apply_of_outside dev hout ..

/-- The inner loop continues what was written before. -/
theorem copyChunk (h : Bounded vol m lo hi r) (hle : lo ≤ hi) {cluster chunk fuel inCluster : Nat} {r' : FatRun}
    (hchunk : inCluster + chunk < 2 ^ 31) (hfuel : chunk < fuel)
    (hcopy : copyChunkLog dev vol cluster (clusterToLba vol cluster) chunk hi fuel (inCluster / 512)
      (inCluster % 512) 0 r = .ok r') :
    Bounded vol m lo (hi + chunk) r' := by
  obtain ⟨-, -, r'', hrun, -, hP⟩ := @copyChunkLog_rule dev vol r
    (fun _ _ wrote r => Bounded vol m lo (hi + wrote) r) cluster (clusterToLba vol cluster) chunk hi
    (fun secOff byteOff wrote r hmore hbyte h => by
      rw [← Nat.add_assoc]
      exact h.copy dev cluster secOff _ (by omega) (by omega))
    (by omega) fuel (inCluster / 512) (inCluster % 512) 0 (Nat.mod_lt _ (by decide)) (Nat.zero_le _)
    (by omega) (by omega) h
  obtain rfl : r'' = r' := Except.ok.inj (hrun.symm.trans hcopy)
  exact hP

end Bounded

/-- The clusters of any volume that `fat32_mount` accepts. -/
theorem bytesPerCluster_of_mount {partLba sectorBuf : Nat} {st : FatState}
    (h : (fat32Mount dev partLba sectorBuf st).1 = some vol) :
    vol.bytesPerCluster = vol.sectorsPerCluster * 512 ∧ vol.sectorsPerCluster < 256 := by
  rw [fat32Mount] at h
  dsimp only at h
  split_ifs at h
  obtain rfl := Option.some.inj h
  exact ⟨rfl, bpb.get_lt _ _ .sectorsPerCluster⟩

/-- A read of `sz` bytes from `off` on is bounded: it returns `n`, no more than was asked for and than the
file has, and has done with its buffers what it should. -/
def ReadBounded (dev : Device) (vol : FatVol) (f : FatFile) (off sz buf fuel : Nat) (st : FatState) : Prop :=
  ∃ n r, fat32ReadFile dev vol f off sz buf fuel st = .ok (n, r.toFatState) ∧
    fat32ReadFileLog dev vol f off sz buf fuel ⟨st, []⟩ = .ok (n, r) ∧
    n ≤ sz ∧ n ≤ f.size - off ∧ Bounded vol st.mem buf (buf + n) r

/-- A read with enough fuel is bounded. -/
theorem readBounded_of_fuel (dev : Device) (vol : FatVol)
    (hbpc : vol.bytesPerCluster = vol.sectorsPerCluster * 512) (hspc : 1 ≤ vol.sectorsPerCluster)
    (hspc' : vol.sectorsPerCluster < 256) (f : FatFile) {off sz fuel : Nat} (hsz : sz < 2 ^ 32) (buf : Nat)
    (st : FatState) (hfuel : f.readCount off sz + 1 < fuel) :
    ReadBounded dev vol f off sz buf fuel st := by
  have hstart : Bounded vol st.mem buf (buf + 0) ⟨st, []⟩ :=
    ⟨fun e he => absurd he List.not_mem_nil, fun x => ⟨fun ⟨e, he, _⟩ => absurd he List.not_mem_nil,
      fun hx => absurd hx.1 (by omega)⟩, fun x _ _ => rfl⟩
  by_cases hoff : f.size ≤ off
  · exact ⟨0, ⟨st, []⟩, if_pos hoff, if_pos hoff, Nat.zero_le _, Nat.zero_le _, hstart⟩
  · -- the sectors of a cluster are copied one behind the other, and so are the clusters
    obtain ⟨n, r, hlog, hplain, hend⟩ := @fat32ReadFileLog_rule dev vol ⟨st, []⟩
      (fun _ _ r => Bounded vol st.mem buf (buf + 0) r)
      (fun readTotal _ _ r => Bounded vol st.mem buf (buf + readTotal) r) f off sz buf
      (fun i cluster r _ _ h => h.lookup dev cluster) (fun cluster r h => h)
      (fun readTotal inCluster cluster fuel r r' hmore heoc hin hfuel hcopy h => by
        have hchunk := h.copyChunk (by omega) (by omega) hfuel hcopy
        rw [Nat.add_assoc] at hchunk
        exact hchunk.lookup dev cluster)
      (by omega) (by omega) (not_le.mp hoff) hsz fuel hfuel hstart
    have hcount := f.readCount_le off sz
    have hcount' : f.readCount off sz ≤ sz := by
      rw [FatFile.readCount]
      split <;> omega
    refine ⟨n, r, hplain, hlog, ?_⟩
    obtain ⟨rfl, i, cluster, -, -, -, hbounded⟩ | ⟨inCluster, cluster, hn, -, hbounded⟩ := hend
    · exact ⟨Nat.zero_le _, Nat.zero_le _, hbounded⟩
    · exact ⟨hn.trans hcount', hn.trans hcount, hbounded⟩

/-- On a volume with sectors in a cluster every read of every file is bounded, whatever `read_sector`
delivers. -/
theorem fat32ReadFile_bounded (dev : Device) (partLba sectorBuf : Nat) (st₀ : FatState) (vol : FatVol)
    (hmount : (fat32Mount dev partLba sectorBuf st₀).1 = some vol) (hspc : 1 ≤ vol.sectorsPerCluster)
    (f : FatFile) (off : UInt64) (sz : UInt32) (buf : Nat) (st : FatState) :
    ∃ fuel₀, ∀ fuel, fuel₀ ≤ fuel → ReadBounded dev vol f off.toNat sz.toNat buf fuel st := by
  obtain ⟨hbpc, hspc'⟩ := bytesPerCluster_of_mount hmount
  refine ⟨f.readCount off.toNat sz.toNat + 2, fun fuel hfuel => ?_⟩
  exact readBounded_of_fuel dev vol hbpc hspc hspc' f sz.toNat_lt buf st (by omega)

/-- A disk with the volume of `smallImage` on which cluster 2 is followed by itself, and all of whose
directory entries are deleted ones. -/
def cyclicDisk : Nat → Sector
  | 2048 => smallImage.disk 2048
  | 2049 => fun i => if i.val = 8 then 2 else 0
  | _ => fun _ => 0xE5

/-- A file on it that is longer than its only cluster. -/
def cyclicFile : FatFile := ⟨2, 2000, smallFile.startCluster_lt, by decide⟩

/-- Reading the file goes through its cluster again and again, and ends. -/
theorem fat32ReadFile_cyclic : ∃ fuel₀, ∀ fuel, fuel₀ ≤ fuel →
    ReadBounded (Device.ofDisk cyclicDisk) smallVol cyclicFile 100 3000 8192 fuel zeroState :=
  fat32ReadFile_bounded (Device.ofDisk cyclicDisk) 2048 4096 zeroState smallVol (fat32Mount_smallVol rfl)
    (by decide) cyclicFile 100 3000 8192 zeroState

end Aerogel
