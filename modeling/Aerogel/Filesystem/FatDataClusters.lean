import Aerogel.Filesystem.FatChains

/-! # Which clusters are read as data

Clusters are numbered from 2, and the FAT uses 0 and 1 for free and reserved clusters and `FAT_BAD` for bad
ones. The driver only looks for `FAT_EOC`. `Follows` says what the log of a run has to do with the chain it
follows, for both `fat32_read_file` and `load_dir`; with it a run reads nothing but data clusters exactly when
the chain has none of the other numbers as far as the run goes (`onlyData_iff`). -/

namespace Aerogel

/-- A number that a data cluster may have. -/
def DataCluster (c : Nat) : Prop := 2 ≤ c ∧ c < fatBad

/-- A value in the FAT that names no cluster and is no end of a chain: free, reserved or bad. -/
def NoCluster (c : Nat) : Prop := c = 0 ∨ c = 1 ∨ c = fatBad

/-- Only data clusters are read as contents, at their place on the disk, and a FAT entry that names no
cluster ends the chain: nothing comes after it. -/
structure OnlyData (vol : FatVol) (log : List FatEvent) : Prop where
  /-- What is read. -/
  sector : ∀ call c s lba, .sector call c s lba ∈ log → DataCluster c ∧ s < vol.sectorsPerCluster ∧
    lba = (vol.dataLba + (c - 2) * vol.sectorsPerCluster + s) % 2 ^ 32
  /-- What ends a chain. -/
  lookup : ∀ pre call c off value post, log = pre ++ .lookup call c off value :: post →
    NoCluster value → post = []

/-- The log of a run that has followed the first `k` clusters of a chain and has read the contents of those
from number `first` on. -/
structure Follows (vol : FatVol) (chain : Nat → Nat) (first k : Nat) (log : List FatEvent) : Prop where
  /-- Sectors are read of these clusters. -/
  sector : ∀ call c s lba, .sector call c s lba ∈ log →
    (∃ j, first ≤ j ∧ j < k ∧ c = chain j) ∧ s < vol.sectorsPerCluster ∧
      lba = (clusterToLba vol c + s) % 2 ^ 32
  /-- FAT entries are those of the chain. -/
  lookup : ∀ pre call c off value post, log = pre ++ .lookup call c off value :: post →
    ∃ j, 0 < j ∧ j ≤ k ∧ value = chain j ∧ (post = [] ∨ j < k)
  /-- Something is read of every one of these clusters. -/
  read : ∀ j, first ≤ j → j < k → 0 < vol.sectorsPerCluster →
    ∃ call s lba, .sector call (chain j) s lba ∈ log
  /-- Every cluster behind the first one was found in the FAT, and then something was done with it. -/
  found : ∀ j, 0 < j → j < k → ∃ pre call c off post,
    log = pre ++ .lookup call c off (chain j) :: post ∧ post ≠ []

/-- The log ends with the FAT entry that gave the cluster with number `k`, if that is not the first one. -/
def EndsWith (chain : Nat → Nat) (k : Nat) (log : List FatEvent) : Prop :=
  0 < k → ∃ pre call c off, log = pre ++ [.lookup call c off (chain k)]

variable {vol : FatVol} {chain : Nat → Nat} {first k : Nat} {log mid : List FatEvent}

theorem DataCluster.of_lt {c : Nat} (hlt : c < fatEoc) (h : ¬ NoCluster c) : DataCluster c := by
  unfold NoCluster at h
  unfold DataCluster fatBad
  unfold fatEoc at hlt
  unfold fatBad at h
  omega

theorem DataCluster.not_noCluster {c : Nat} (h : DataCluster c) : ¬ NoCluster c := by
  unfold NoCluster
  obtain ⟨h2, hbad⟩ := h
  omega

/-- Where the sectors of a data cluster are. -/
theorem DataCluster.lba_eq {c : Nat} (h : DataCluster c) (s : Nat) :
    (clusterToLba vol c + s) % 2 ^ 32 =
      (vol.dataLba + (c - 2) * vol.sectorsPerCluster + s) % 2 ^ 32 := by
  have hlt : c < 2 ^ 32 := h.2.trans (by decide)
  rw [clusterToLba, wsub_of_le h.1 hlt, Nat.mod_add_mod]

/-- A log is as it should be exactly when the chain names data clusters as far as it was followed. -/
theorem Follows.onlyData_iff (h : Follows vol chain first k log)
    (hchain : ∀ j < k, 0 < j ∨ first = 0 → chain j < fatEoc) :
    OnlyData vol log ↔
      ∀ j < k, 0 < j ∨ first = 0 ∧ 0 < vol.sectorsPerCluster → DataCluster (chain j) := by
  constructor
  · intro hok j hj hj'
    rcases Nat.eq_zero_or_pos j with rfl | hpos
    · obtain ⟨hfirst, hspc⟩ := hj'.resolve_left (lt_irrefl 0)
      obtain ⟨call, s, lba, hmem⟩ := h.read 0 (by omega) hj hspc
      exact (hok.sector call _ s lba hmem).1
    · obtain ⟨pre, call, c, off, post, hlog, hpost⟩ := h.found j hpos hj
      -- something was done behind the entry that gave it, so the entry has to name a cluster
      refine .of_lt (hchain j hj (Or.inl hpos)) fun hno => hpost ?_
      exact hok.lookup pre call c off _ post hlog hno
  · intro hdata
    refine ⟨fun call c s lba hmem => ?_, fun pre call c off value post hlog hno => ?_⟩
    · obtain ⟨⟨j, hfirst, hj, rfl⟩, hs, rfl⟩ := h.sector call c s lba hmem
      have hc : DataCluster (chain j) := hdata j hj (by omega)
      exact ⟨hc, hs, hc.lba_eq s⟩
    · obtain ⟨j, hpos, -, rfl, hpost | hj⟩ := h.lookup pre call c off value post hlog
      · exact hpost
      · exact absurd hno (hdata j hj (Or.inl hpos)).not_noCluster

/-- What a round may do before it looks for the next cluster: read sectors of the cluster, copy bytes and
make nodes. -/
def RoundOf (vol : FatVol) (c : Nat) : FatEvent → Prop
  | .sector _ c' s lba => c' = c ∧ s < vol.sectorsPerCluster ∧ lba = (clusterToLba vol c' + s) % 2 ^ 32
  | .lookup .. => False
  | _ => True

/-- A round looks for the next cluster at its end, and only there. -/
theorem lookup_of_round {c v : Nat} {new : List FatEvent} (hmid : ∀ e ∈ mid, RoundOf vol c e)
    (hnew : new = mid ∨ ∃ call c' off, new = mid ++ [.lookup call c' off v]) {pre post : List FatEvent}
    {call c' off value : Nat} (h : new = pre ++ .lookup call c' off value :: post) : value = v ∧ post = [] := by
  have hnotmid : .lookup call c' off value ∉ mid := hmid _
  rcases hnew with rfl | ⟨call', c'', off', rfl⟩
  · rw [h] at hnotmid
    exact absurd (List.mem_append_right pre List.mem_cons_self) hnotmid
  · rcases split_log h with ⟨post', hin, -⟩ | ⟨pre', hin, -⟩
    · rw [hin] at hnotmid
      exact absurd (List.mem_append_right pre List.mem_cons_self) hnotmid
    · cases pre' with
      | nil =>
          obtain ⟨he, hpost⟩ := List.cons.inj hin
          obtain ⟨-, -, -, rfl⟩ := FatEvent.lookup.inj he
          exact ⟨rfl, hpost.symm⟩
      | cons e rest => simp at hin

/-- The next round: its events belong to the cluster with number `k`, and it may end with the FAT entry of
that cluster. -/
theorem Follows.round (h : Follows vol chain first k log) (hlast : EndsWith chain k log)
    {new : List FatEvent} (hmid : ∀ e ∈ mid, RoundOf vol (chain k) e)
    (hnew : new = mid ∧ mid ≠ [] ∨ ∃ call c off, new = mid ++ [.lookup call c off (chain (k + 1))])
    (hfirst : first ≤ k ∨ mid = [])
    (hread : first ≤ k → 0 < vol.sectorsPerCluster → ∃ call s lba, .sector call (chain k) s lba ∈ mid) :
    Follows vol chain first (k + 1) (log ++ new) := by
  have hmem : ∀ e ∈ new, e ∈ mid ∨ ∃ call c off, e = .lookup call c off (chain (k + 1)) := by
    intro e he
    rcases hnew with ⟨rfl, -⟩ | ⟨call, c, off, rfl⟩
    · exact Or.inl he
    · rcases List.mem_append.mp he with he | he
      · exact Or.inl he
      · exact Or.inr ⟨call, c, off, List.mem_singleton.mp he⟩
  have hsub : ∀ e ∈ mid, e ∈ new := by
    intro e he
    rcases hnew with ⟨rfl, -⟩ | ⟨call, c, off, rfl⟩
    · exact he
    · exact List.mem_append_left _ he
  have hne : new ≠ [] := by
    rcases hnew with ⟨rfl, hne⟩ | ⟨call, c, off, rfl⟩
    · exact hne
    · exact List.append_ne_nil_of_right_ne_nil _ (List.cons_ne_nil _ _)
  refine ⟨fun call c s lba hs => ?_, fun pre call c off value post hlog => ?_, fun j hj hj' hspc => ?_,
    fun j hpos hj => ?_⟩
  · rcases List.mem_append.mp hs with hs | hs
    · obtain ⟨⟨j, hj, hjk, hc⟩, hrest⟩ := h.sector call c s lba hs
      exact ⟨⟨j, hj, by omega, hc⟩, hrest⟩
    · rcases hmem _ hs with hs | ⟨call', c', off', hs⟩
      · obtain ⟨rfl, hlt, hlba⟩ := hmid _ hs
        refine ⟨⟨k, hfirst.resolve_right fun hnil => ?_, by omega, rfl⟩, hlt, hlba⟩
        rw [hnil] at hs
        exact absurd hs List.not_mem_nil
      · exact absurd hs (by simp)
  · rcases split_log hlog with ⟨post', hold, rfl⟩ | ⟨pre', hsplit, -⟩
    · obtain ⟨j, hpos, hjk, hvalue, -⟩ := h.lookup pre call c off value post' hold
      exact ⟨j, hpos, by omega, hvalue, Or.inr (by omega)⟩
    · obtain ⟨rfl, rfl⟩ := lookup_of_round hmid (hnew.imp_left And.left) hsplit
      exact ⟨k + 1, Nat.succ_pos k, le_rfl, rfl, Or.inl rfl⟩
  · rcases Nat.lt_succ_iff_lt_or_eq.mp hj' with hlt | rfl
    · obtain ⟨call, s, lba, hs⟩ := h.read j hj hlt hspc
      exact ⟨call, s, lba, List.mem_append_left _ hs⟩
    · obtain ⟨call, s, lba, hs⟩ := hread hj hspc
      exact ⟨call, s, lba, List.mem_append_right _ (hsub _ hs)⟩
  · rcases Nat.lt_succ_iff_lt_or_eq.mp hj with hlt | rfl
    · obtain ⟨pre, call, c, off, post, hlog, -⟩ := h.found j hpos hlt
      exact ⟨pre, call, c, off, post ++ new, by rw [hlog]; simp, List.append_ne_nil_of_right_ne_nil _ hne⟩
    · obtain ⟨pre, call, c, off, hlog⟩ := hlast hpos
      exact ⟨pre, call, c, off, new, by rw [hlog]; simp, hne⟩

/-- Nothing is followed yet. -/
theorem Follows.nil (vol : FatVol) (chain : Nat → Nat) (first : Nat) : Follows vol chain first 0 [] where
  sector _ _ _ _ h := absurd h List.not_mem_nil
  lookup _ _ _ _ _ _ h := absurd h (by simp)
  read _ _ h := absurd h (Nat.not_lt_zero _)
  found _ _ h := absurd h (Nat.not_lt_zero _)

theorem endsWith_append_lookup (chain : Nat → Nat) (k : Nat) (log : List FatEvent) (call c off : Nat) :
    EndsWith chain k (log ++ [.lookup call c off (chain k)]) :=
  fun _ => ⟨log, call, c, off, rfl⟩

variable {disk : Nat → Sector} {dev : Device} {r r' : FatRun}

/-- `next_cluster` goes on along the chain, and this is the only event. -/
theorem nextClusterLog_chain (disk : Nat → Sector) (vol : FatVol) (start k : Nat) (r : FatRun) :
    (nextClusterLog (Device.ofDisk disk) vol (vol.chain disk start k) r).1 = vol.chain disk start (k + 1) ∧
    ∃ call c off, (nextClusterLog (Device.ofDisk disk) vol (vol.chain disk start k) r).2.log =
      r.log ++ [.lookup call c off (vol.chain disk start (k + 1))] := by
  have hnext : (nextClusterLog (Device.ofDisk disk) vol (vol.chain disk start k) r).1 =
      vol.chain disk start (k + 1) := by
    rw [FatVol.chain_succ]
    exact nextCluster_ofDisk disk vol _ r.toFatState
  refine ⟨hnext, r.reads.length, vol.chain disk start k, vol.chain disk start k * 4 % 2 ^ 32 % 512, ?_⟩
  rw [← hnext]
  rfl

/-! ## `fat32_read_file` -/

/-- A read of `sz` bytes from `off` on gets to the `i`-th cluster of the file: it skips it, or some of the
bytes are there, and the chain has not ended before. The first cluster is skipped without a look at its
number. -/
def FatFile.Visits (f : FatFile) (disk : Nat → Sector) (vol : FatVol) (off sz i : Nat) : Prop :=
  (i < off / vol.bytesPerCluster ∨
    0 < f.readCount off sz ∧ i * vol.bytesPerCluster < off + f.readCount off sz) ∧
  ∀ j ≤ i, 0 < j ∨ off / vol.bytesPerCluster = 0 → vol.chain disk f.startCluster j < fatEoc

/-- The inner loop reads sectors of its cluster, and at least one. -/
theorem copyChunkLog_roundOf {cluster chunk dst fuel inCluster : Nat} (hpos : 0 < chunk)
    (hin : inCluster + chunk ≤ vol.sectorsPerCluster * 512) (hspc : vol.sectorsPerCluster < 256)
    (hfuel : chunk < fuel)
    (hcopy : copyChunkLog dev vol cluster (clusterToLba vol cluster) chunk dst fuel (inCluster / 512)
      (inCluster % 512) 0 r = .ok r') :
    ∃ mid, r'.log = r.log ++ mid ∧ (∀ e ∈ mid, RoundOf vol cluster e) ∧
      ∃ call s lba, .sector call cluster s lba ∈ mid := by
  -- until the last one, every round reads to the end of its sector
  obtain ⟨-, -, r'', hrun, -, -, mid, hlog, hmid, hread⟩ := @copyChunkLog_rule dev vol r
    (fun secOff byteOff wrote r₁ => (wrote = chunk ∨ secOff * 512 + byteOff = inCluster + wrote) ∧
      ∃ mid, r₁.log = r.log ++ mid ∧ (∀ e ∈ mid, RoundOf vol cluster e) ∧
        (0 < wrote → ∃ call s lba, .sector call cluster s lba ∈ mid))
    cluster (clusterToLba vol cluster) chunk dst
    (fun secOff byteOff wrote r₁ hmore hbyte ⟨hat, mid, hlog, hmid, hread⟩ => by
      refine ⟨by omega, mid ++ [.sector r₁.reads.length cluster secOff
        ((clusterToLba vol cluster + secOff) % 2 ^ 32), .copy (dst + wrote) byteOff
        (min (chunk - wrote) (512 - byteOff))], ?_, fun e he => ?_,
        fun _ => ⟨_, _, _, List.mem_append_right _ List.mem_cons_self⟩⟩
      · simp only [FatRun.copyOut, FatRun.readContents, hlog, List.append_assoc, List.cons_append,
          List.nil_append]
      · rcases List.mem_append.mp he with he | he
        · exact hmid e he
        · simp only [List.mem_cons, List.not_mem_nil, or_false] at he
          obtain rfl | rfl := he
          · exact ⟨rfl, by omega, rfl⟩
          · exact trivial)
    (by omega) fuel (inCluster / 512) (inCluster % 512) 0 (Nat.mod_lt _ (by decide)) (Nat.zero_le _)
    (by omega) (by omega)
    ⟨Or.inr (by omega), [], by rw [List.append_nil], fun e he => absurd he List.not_mem_nil,
      fun h => absurd h (lt_irrefl 0)⟩
  obtain rfl : r'' = r' := Except.ok.inj (hrun.symm.trans hcopy)
  exact ⟨mid, hlog, hmid, hread hpos⟩

section File

variable {f : FatFile} {off sz : Nat}

/-- A read that has got to the `k`-th cluster of its file. -/
structure Reached (disk : Nat → Sector) (vol : FatVol) (f : FatFile) (off sz k : Nat)
    (log : List FatEvent) : Prop where
  /-- What it has read. -/
  follows : Follows vol (vol.chain disk f.startCluster) (off / vol.bytesPerCluster) k log
  /-- How it found the cluster. -/
  endsWith : EndsWith (vol.chain disk f.startCluster) k log
  /-- The clusters before. -/
  visits : ∀ j < k, f.Visits disk vol off sz j

/-- The read goes to the next cluster. -/
theorem Reached.next {k : Nat} (h : Reached disk vol f off sz k log) (hvisit : f.Visits disk vol off sz k)
    (hmid : ∀ e ∈ mid, RoundOf vol (vol.chain disk f.startCluster k) e)
    (hfirst : off / vol.bytesPerCluster ≤ k ∨ mid = [])
    (hread : off / vol.bytesPerCluster ≤ k →
      ∃ call s lba, .sector call (vol.chain disk f.startCluster k) s lba ∈ mid)
    (call c o : Nat) :
    Reached disk vol f off sz (k + 1)
      (log ++ mid ++ [.lookup call c o (vol.chain disk f.startCluster (k + 1))]) where
  follows := by
    rw [List.append_assoc]
    exact h.follows.round h.endsWith hmid (Or.inr ⟨call, c, o, rfl⟩) hfirst fun hk _ => hread hk
  endsWith := endsWith_append_lookup _ _ _ call c o
  visits j hj := by
    rcases Nat.lt_succ_iff_lt_or_eq.mp hj with hlt | rfl
    · exact h.visits j hlt
    · exact hvisit

/-- At the end of a read. -/
theorem Reached.onlyData_iff {k : Nat} (h : Reached disk vol f off sz k log)
    (hspc : 0 < vol.sectorsPerCluster) (hend : ∀ j, f.Visits disk vol off sz j → j < k) :
    OnlyData vol log ↔ ∀ j, f.Visits disk vol off sz j → 0 < j ∨ off / vol.bytesPerCluster = 0 →
      DataCluster (vol.chain disk f.startCluster j) := by
  rw [h.follows.onlyData_iff fun j hj => (h.visits j hj).2 j le_rfl]
  constructor
  · intro hdata j hj hj'
    exact hdata j (hend j hj) (hj'.imp_right fun h0 => ⟨h0, hspc⟩)
  · intro hdata j hj hj'
    exact hdata j (h.visits j hj) (hj'.imp_right And.left)

/-- A visit of a cluster, from the visits of those before. -/
theorem FatFile.Visits.of_before {k : Nat} (hbefore : ∀ j < k, f.Visits disk vol off sz j)
    (hin : k < off / vol.bytesPerCluster ∨
      0 < f.readCount off sz ∧ k * vol.bytesPerCluster < off + f.readCount off sz)
    (hk : 0 < k ∨ off / vol.bytesPerCluster = 0 → vol.chain disk f.startCluster k < fatEoc) :
    f.Visits disk vol off sz k := by
  refine ⟨hin, fun j hj hj' => ?_⟩
  rcases Nat.lt_or_eq_of_le hj with hlt | rfl
  · exact (hbefore j hlt).2 j le_rfl hj'
  · exact hk hj'

/-- Reading a file: the run visits its clusters one after the other. -/
theorem fat32ReadFileLog_reached (disk : Nat → Sector) (vol : FatVol) (f : FatFile)
    (hbpc : vol.bytesPerCluster = vol.sectorsPerCluster * 512) (hspc : vol.sectorsPerCluster < 256)
    (hpos : 0 < vol.sectorsPerCluster) (hoff : off < f.size) (hsz : sz < 2 ^ 32) (buf : Nat)
    (st : FatState) {fuel : Nat} (hfuel : f.readCount off sz + 1 < fuel) :
    ∃ n r k, fat32ReadFileLog (Device.ofDisk disk) vol f off sz buf fuel ⟨st, []⟩ = .ok (n, r) ∧
      Reached disk vol f off sz k r.log ∧ ∀ j, f.Visits disk vol off sz j → j < k := by
  have hpos' : 0 < vol.bytesPerCluster := by omega
  obtain ⟨n, r, hlog, -, hend⟩ := @fat32ReadFileLog_rule (Device.ofDisk disk) vol ⟨st, []⟩
    (fun i cluster r => cluster = vol.chain disk f.startCluster i ∧ Reached disk vol f off sz i r.log)
    (fun readTotal inCluster cluster r => ∃ k, off / vol.bytesPerCluster ≤ k ∧
      cluster = vol.chain disk f.startCluster k ∧ Reached disk vol f off sz k r.log ∧
      (k * vol.bytesPerCluster + inCluster = off + readTotal ∨
        readTotal = f.readCount off sz ∧ off + readTotal ≤ k * vol.bytesPerCluster) ∧
      (0 < readTotal → inCluster = 0))
    f off sz buf
    (fun i cluster r hi hvalid ⟨hcluster, h⟩ => by
      have hvisit : f.Visits disk vol off sz i := .of_before h.visits (Or.inl hi) fun hi' => by
        rw [← hcluster]
        exact hvalid (by omega)
      obtain ⟨hnext, call, c, o, hlookup⟩ := nextClusterLog_chain disk vol f.startCluster i r
      have h' := h.next hvisit (fun e (he : e ∈ []) => absurd he List.not_mem_nil) (Or.inr rfl)
        (fun hle => absurd hi (not_lt.mpr hle)) call c o
      rw [List.append_nil, ← hlookup, ← hcluster] at h'
      exact ⟨by rw [hcluster, hnext], h'⟩)
    (fun cluster r ⟨hcluster, h⟩ => ⟨_, le_rfl, hcluster, h, Or.inl (by
      rw [Nat.mul_comm, Nat.div_add_mod, Nat.add_zero]), fun h0 => absurd h0 (lt_irrefl 0)⟩)
    (fun readTotal inCluster cluster fuel r r' hmore heoc hin hfuel hcopy
        ⟨k, hk, hcluster, h, hat, h0⟩ => by
      -- the request is not complete yet, so the place in the file is known
      have hat' : k * vol.bytesPerCluster + inCluster = off + readTotal := by omega
      have hvisit : f.Visits disk vol off sz k := .of_before h.visits (Or.inr ⟨by omega, by omega⟩)
        fun _ => by rwa [← hcluster]
      obtain ⟨hnext, call, c, o, hlookup⟩ := nextClusterLog_chain disk vol f.startCluster k r'
      obtain ⟨mid, hlog, hmid, hread⟩ :=
        copyChunkLog_roundOf (by omega) (by rw [← hbpc]; omega) hspc hfuel hcopy
      rw [hcluster] at hmid hread
      have h' := h.next hvisit hmid (Or.inl hk) (fun _ => hread) call c o
      rw [← hlog, ← hlookup, ← hcluster] at h'
      rw [← hcluster] at hnext
      refine ⟨k + 1, by omega, hnext, h', ?_, fun _ => rfl⟩
      rw [Nat.add_one_mul]
      omega)
    hpos' (by omega) hoff hsz fuel hfuel
    ⟨rfl, Follows.nil .., fun h => absurd h (lt_irrefl 0), fun j hj => absurd hj (Nat.not_lt_zero j)⟩
  obtain ⟨-, k, cluster, hk₀, -, heoc, rfl, h⟩ | ⟨inCluster, cluster, -, hdone, k, hk, rfl, h, hat, h0⟩ :=
    hend
  · -- the chain ended while clusters were skipped
    refine ⟨n, r, k, hlog, h, fun j hj => lt_of_not_ge fun hge => ?_⟩
    exact absurd (hj.2 k hge (Or.inl hk₀)) (not_lt.mpr heoc)
  · refine ⟨n, r, k, hlog, h, fun j hj => lt_of_not_ge fun hge => ?_⟩
    rcases hdone with rfl | heoc
    · -- the request is complete
      have hmul : k * vol.bytesPerCluster ≤ j * vol.bytesPerCluster := Nat.mul_le_mul_right _ hge
      obtain hlt | ⟨hcount, hlt⟩ := hj.1
      · omega
      · have := h0 hcount
        omega
    · have hk' : 0 < k ∨ off / vol.bytesPerCluster = 0 :=
        (Nat.eq_zero_or_pos k).symm.imp_right fun hk₀ => Nat.le_zero.mp (hk.trans hk₀.le)
      exact absurd (hj.2 k hge hk') (not_lt.mpr heoc)

end File

/-! ## `load_dir` -/

/-- The scan of a directory gets to the `i`-th cluster of its chain: the chain has not ended before, and there
was no end mark. -/
def FatVol.DirVisits (vol : FatVol) (disk : Nat → Sector) (start i : Nat) : Prop :=
  (∀ j ≤ i, vol.chain disk start j < fatEoc) ∧ ∀ j < i, ¬ vol.HasEnd disk (vol.chain disk start j)

/-- The loop over the sectors reads sectors of its cluster. -/
theorem scanClusterLog_roundOf {cluster left s : Nat} (hle : s + left ≤ vol.sectorsPerCluster)
    (sc : DirScan) (r : FatRun) :
    ∃ mid, (scanClusterLog dev vol cluster (clusterToLba vol cluster) left s sc r).2.2.log = r.log ++ mid ∧
      (∀ e ∈ mid, RoundOf vol cluster e) ∧
      (0 < left → ∃ call s lba, .sector call cluster s lba ∈ mid) := by
  induction left generalizing s sc r with
  | zero => exact ⟨[], (List.append_nil _).symm, fun e he => absurd he List.not_mem_nil,
      fun h => absurd h (lt_irrefl 0)⟩
  | succ left ih =>
      rw [scanClusterLog]
      dsimp only
      generalize DirScan.scan _ sc = scanned
      obtain ⟨stop, sc'⟩ := scanned
      dsimp only
      -- this sector, with the nodes made of it
      obtain ⟨r₁, hr₁⟩ : ∃ r₁, r₁ = (r.readContents dev vol cluster s
          ((clusterToLba vol cluster + s) % 2 ^ 32)).note
          (.nodes (sc'.entries.length - sc.entries.length)) := ⟨_, rfl⟩
      obtain ⟨here, hlog, hhere, hsec⟩ : ∃ here, r₁.log = r.log ++ here ∧
          (∀ e ∈ here, RoundOf vol cluster e) ∧ ∃ call s lba, .sector call cluster s lba ∈ here := by
        subst hr₁
        refine ⟨_, List.append_assoc .., fun e he => ?_, _, s, _, List.mem_cons_self⟩
        simp only [List.mem_append, List.mem_singleton] at he
        obtain rfl | rfl := he
        · exact ⟨rfl, by omega, rfl⟩
        · exact trivial
      rw [← hr₁]
      cases stop with
      | true => exact ⟨here, hlog, hhere, fun _ => hsec⟩
      | false =>
          rw [if_neg Bool.false_ne_true]
          obtain ⟨mid, hlog', hmid, -⟩ := ih (show s + 1 + left ≤ _ by omega) sc' r₁
          obtain ⟨call, s', lba, hsec⟩ := hsec
          refine ⟨here ++ mid, by rw [hlog', hlog, List.append_assoc], fun e he => ?_,
            fun _ => ⟨call, s', lba, List.mem_append_left _ hsec⟩⟩
          exact (List.mem_append.mp he).elim (hhere e) (hmid e)

/-- An end mark is in one of the sectors of a cluster. -/
theorem FatVol.HasEnd.sectorsPerCluster_pos {c : Nat} (h : vol.HasEnd disk c) :
    0 < vol.sectorsPerCluster := by
  obtain ⟨de, hde, -⟩ := h
  obtain ⟨s, hs, -⟩ := List.mem_flatMap.mp hde
  exact Nat.zero_lt_of_lt (List.mem_range.mp hs)

/-- The scan has passed the clusters of a chain before the `k`-th one. -/
def FatVol.Passed (vol : FatVol) (disk : Nat → Sector) (start k : Nat) : Prop :=
  ∀ j < k, vol.chain disk start j < fatEoc ∧ ¬ vol.HasEnd disk (vol.chain disk start j)

/-- These clusters were visited. -/
theorem FatVol.Passed.dirVisits {start k i : Nat} (h : vol.Passed disk start k) (hi : i < k) :
    vol.DirVisits disk start i :=
  ⟨fun j hj => (h j (by omega)).1, fun j hj => (h j (by omega)).2⟩

/-- The clusters that a scan visits, when it stops behind cluster `k`. -/
theorem FatVol.Passed.lt_iff {start k n : Nat} (h : vol.Passed disk start k)
    (hk : vol.chain disk start k < fatEoc) (hend : vol.HasEnd disk (vol.chain disk start k)) (hn : k < n)
    (i : Nat) : i < k + 1 ↔ i < n ∧ vol.DirVisits disk start i := by
  constructor
  · intro hi
    refine ⟨by omega, fun j hj => ?_, fun j hj => (h j (by omega)).2⟩
    rcases Nat.lt_or_eq_of_le (show j ≤ k by omega) with hlt | rfl
    · exact (h j hlt).1
    · exact hk
  · intro ⟨_, hi⟩
    exact lt_of_not_ge fun hge => hi.2 k hge hend

/-- The loop over the clusters visits them one after the other, as far as the fuel goes. -/
theorem scanClustersLog_follows {start k fuel : Nat} (hpassed : vol.Passed disk start k)
    (hfollows : Follows vol (vol.chain disk start) 0 k r.log)
    (hlast : EndsWith (vol.chain disk start) k r.log) (sc : DirScan) :
    ∃ k', Follows vol (vol.chain disk start) 0 k'
        (scanClustersLog (Device.ofDisk disk) vol fuel (vol.chain disk start k) sc r).2.log ∧
      ∀ i, i < k' ↔ i < k + fuel ∧ vol.DirVisits disk start i := by
  induction fuel generalizing k r sc with
  | zero => exact ⟨k, hfollows, fun i => ⟨fun hi => ⟨hi, hpassed.dirVisits hi⟩, And.left⟩⟩
  | succ fuel ih =>
      rw [scanClustersLog]
      split_ifs with heoc
      · obtain ⟨mid, hlog, hmid, hread⟩ := @scanClusterLog_roundOf vol (Device.ofDisk disk)
          (vol.chain disk start k) vol.sectorsPerCluster 0 (by omega) sc r
        have hstop := scanCluster_ofDisk disk vol (vol.chain disk start k) sc r.toFatState
        rw [← scanClusterLog_fst (vol.chain disk start k)] at hstop
        generalize scanClusterLog _ vol _ _ _ 0 sc r = scanned at hlog hstop
        obtain ⟨stop, sc', r'⟩ := scanned
        dsimp only at hlog hstop
        cases stop with
        | true =>
            -- an end mark: this cluster is the last one, and its FAT entry is not looked up
            have hend := hstop.mp rfl
            obtain ⟨call, s, lba, hmem⟩ := hread hend.sectorsPerCluster_pos
            refine ⟨k + 1, ?_, hpassed.lt_iff heoc hend (by omega)⟩
            change Follows vol _ 0 (k + 1) r'.log
            rw [hlog]
            exact hfollows.round hlast hmid (Or.inl ⟨rfl, List.ne_nil_of_mem hmem⟩)
              (Or.inl (Nat.zero_le k)) fun _ => hread
        | false =>
            obtain ⟨hnext, call, c, o, hlookup⟩ := nextClusterLog_chain disk vol start k r'
            have hpassed' : vol.Passed disk start (k + 1) := fun j hj => by
              rcases Nat.lt_succ_iff_lt_or_eq.mp hj with hlt | rfl
              · exact hpassed j hlt
              · exact ⟨heoc, fun hend => Bool.false_ne_true (hstop.mpr hend)⟩
            rw [hlog] at hlookup
            have hfollows' : Follows vol (vol.chain disk start) 0 (k + 1)
                (nextClusterLog (Device.ofDisk disk) vol (vol.chain disk start k) r').2.log := by
              rw [hlookup, List.append_assoc]
              exact hfollows.round hlast hmid (Or.inr ⟨_, _, _, rfl⟩) (Or.inl (Nat.zero_le k)) fun _ => hread
            have hlast' : EndsWith (vol.chain disk start) (k + 1)
                (nextClusterLog (Device.ofDisk disk) vol (vol.chain disk start k) r').2.log := by
              rw [hlookup]
              exact endsWith_append_lookup _ _ _ _ _ _
            obtain ⟨k', hk', hiff⟩ := ih hpassed' hfollows' hlast' sc'
            rw [← hnext] at hk'
            refine ⟨k', hk', fun i => ?_⟩
            rw [hiff i, Nat.add_right_comm, Nat.add_assoc]
      · exact ⟨k, hfollows, fun i => ⟨fun hi => ⟨by omega, hpassed.dirVisits hi⟩, fun hi =>
          lt_of_not_ge fun hge => heoc (hi.2.1 k hge)⟩⟩

/-! ## Both -/

/-- A read returns, and only data clusters are read. -/
def FileOnlyData (disk : Nat → Sector) (vol : FatVol) (f : FatFile) (off sz buf : Nat) (st : FatState) : Prop :=
  ∃ fuel₀, ∀ fuel, fuel₀ ≤ fuel → ∃ n r,
    fat32ReadFileLog (Device.ofDisk disk) vol f off sz buf fuel ⟨st, []⟩ = .ok (n, r) ∧ OnlyData vol r.log

/-- Only data clusters are read while a directory is loaded, for as long as that takes. -/
def DirOnlyData (disk : Nat → Sector) (vol : FatVol) (cluster : Nat) (heap : Blocks) (st : FatState) : Prop :=
  ∀ fuel, OnlyData vol
    (loadDirLog (Device.ofDisk disk) vol ⟨cluster, [], false⟩ heap fuel ⟨st, []⟩).2.log

/-- When a read is as it should be. -/
theorem fileOnlyData_iff (hbpc : vol.bytesPerCluster = vol.sectorsPerCluster * 512)
    (hspc : vol.sectorsPerCluster < 256) (f : FatFile) {off sz : Nat} (hsz : sz < 2 ^ 32) (buf : Nat)
    (st : FatState) :
    FileOnlyData disk vol f off sz buf st ↔ f.size ≤ off ∨ 0 < vol.sectorsPerCluster ∧
      ∀ i, f.Visits disk vol off sz i → 0 < i ∨ off / vol.bytesPerCluster = 0 →
        DataCluster (vol.chain disk f.startCluster i) := by
  by_cases hoff : f.size ≤ off
  · refine iff_of_true ⟨0, fun fuel _ => ⟨0, ⟨st, []⟩, if_pos hoff, ?_, ?_⟩⟩ (Or.inl hoff)
    · exact fun _ _ _ _ h => absurd h List.not_mem_nil
    · exact fun _ _ _ _ _ _ h => absurd h (by simp)
  · rw [or_iff_right hoff]
    by_cases hpos : 0 < vol.sectorsPerCluster
    · rw [and_iff_right hpos]
      have hrun := fun (fuel : Nat) (hfuel : f.readCount off sz + 1 < fuel) =>
        fat32ReadFileLog_reached disk vol f hbpc hspc hpos (not_le.mp hoff) hsz buf st hfuel
      constructor
      · rintro ⟨fuel₀, h⟩
        obtain ⟨n, r, k, hok, hreached, hend⟩ := hrun (max fuel₀ (f.readCount off sz + 2)) (by omega)
        obtain ⟨n', r', hok', honly⟩ := h (max fuel₀ (f.readCount off sz + 2)) (by omega)
        obtain ⟨-, rfl⟩ := Prod.mk.inj (Except.ok.inj (hok'.symm.trans hok))
        exact (hreached.onlyData_iff hpos hend).mp honly
      · intro hdata
        refine ⟨f.readCount off sz + 2, fun fuel hfuel => ?_⟩
        obtain ⟨n, r, k, hok, hreached, hend⟩ := hrun fuel (by omega)
        exact ⟨n, r, hok, (hreached.onlyData_iff hpos hend).mpr hdata⟩
    · -- the number of clusters to skip is a division by zero
      have hzero : vol.bytesPerCluster = 0 := by omega
      refine iff_of_false ?_ fun h => hpos h.1
      rintro ⟨fuel₀, h⟩
      obtain ⟨n, r, hok, -⟩ := h fuel₀ le_rfl
      rw [fat32ReadFileLog, if_neg hoff] at hok
      simp [hzero] at hok

/-- When loading a directory is as it should be. -/
theorem dirOnlyData_iff (disk : Nat → Sector) (vol : FatVol) (cluster : Nat) (heap : Blocks)
    (st : FatState) :
    DirOnlyData disk vol cluster heap st ↔
      ∀ i, vol.DirVisits disk cluster i → 0 < i ∨ 0 < vol.sectorsPerCluster →
        DataCluster (vol.chain disk cluster i) := by
  have hlog : ∀ fuel, OnlyData vol
      (loadDirLog (Device.ofDisk disk) vol ⟨cluster, [], false⟩ heap fuel ⟨st, []⟩).2.log ↔
      ∀ i < fuel, vol.DirVisits disk cluster i → 0 < i ∨ 0 < vol.sectorsPerCluster →
        DataCluster (vol.chain disk cluster i) := by
    intro fuel
    obtain ⟨k, hfollows, hk⟩ := @scanClustersLog_follows vol disk ⟨st, []⟩ cluster 0 fuel
      (fun j hj => absurd hj (Nat.not_lt_zero j)) (Follows.nil ..) (fun h => absurd h (lt_irrefl 0))
      ⟨[], [], none, 0, (heap.kmalloc .clusterBuf).2⟩
    refine (hfollows.onlyData_iff fun j hj _ => ((hk j).mp hj).2.1 j le_rfl).trans ?_
    simp only [hk, Nat.zero_add, true_and, and_imp]
  rw [DirOnlyData]
  simp only [hlog]
  exact ⟨fun h i => h (i + 1) i (Nat.lt_succ_self i), fun h _ i _ => h i⟩

/-- Only data clusters are read, without a division by zero, exactly when there is nothing to read or there
are sectors in a cluster, and no cluster that a read or a scan gets to is free, reserved or bad. The first
cluster of a file does not matter when it is skipped. -/
theorem onlyDataClusters_iff (disk : Nat → Sector) (partLba sectorBuf : Nat) (st₀ : FatState) (vol : FatVol)
    (hmount : (fat32Mount (Device.ofDisk disk) partLba sectorBuf st₀).1 = some vol) :
    (∀ (f : FatFile) (off : UInt64) (sz : UInt32) (buf : Nat) (st : FatState),
      FileOnlyData disk vol f off.toNat sz.toNat buf st ↔
        f.size ≤ off.toNat ∨ 0 < vol.sectorsPerCluster ∧
          ∀ i, f.Visits disk vol off.toNat sz.toNat i → 0 < i ∨ off.toNat / vol.bytesPerCluster = 0 →
            DataCluster (vol.chain disk f.startCluster i)) ∧
    (∀ (cluster : UInt32) (heap : Blocks) (st : FatState),
      DirOnlyData disk vol cluster.toNat heap st ↔
        ∀ i, vol.DirVisits disk cluster.toNat i → 0 < i ∨ 0 < vol.sectorsPerCluster →
          DataCluster (vol.chain disk cluster.toNat i)) := by
  obtain ⟨hbpc, hspc⟩ := bytesPerCluster_of_mount hmount
  exact ⟨fun f off sz buf st => fileOnlyData_iff hbpc hspc f sz.toNat_lt buf st,
    fun cluster heap st => dirOnlyData_iff disk vol cluster.toNat heap st⟩

/-- A volume whose file and whose chain of clusters 2 and 3, read as a directory, are in order. -/
theorem onlyDataClusters_smallImage :
    FileOnlyData smallImage.disk smallVol smallFile 0 600 8192 zeroState ∧
    DirOnlyData smallImage.disk smallVol 2 ⟨0, []⟩ zeroState := by
  have hchain : ∀ i < 2, DataCluster (smallVol.chain smallImage.disk 2 i) := by
    unfold DataCluster
    decide +kernel
  obtain ⟨hfile, hdir⟩ := onlyDataClusters_iff smallImage.disk 2048 4096 zeroState smallVol
    (fat32Mount_smallVol rfl)
  refine ⟨(hfile smallFile 0 600 8192 zeroState).mpr (Or.inr ⟨by decide, fun i hi _ => hchain i ?_⟩),
    (hdir 2 ⟨0, []⟩ zeroState).mpr fun i hi _ => hchain i ?_⟩
  · have hlt : i < 0 / 512 ∨ 0 < 600 ∧ i * 512 < 0 + 600 := hi.1
    omega
  · refine lt_of_not_ge fun hge => absurd (hi.1 2 hge) ?_
    decide +kernel

/-- A disk with the volume of `smallImage` on which no cluster is in use. -/
def freeDisk : Nat → Sector
  | 2048 => smallImage.disk 2048
  | _ => fun _ => 0

/-- A file on it that is longer than its first cluster. -/
def freeFile : FatFile := ⟨2, 1024, smallFile.startCluster_lt, by decide⟩

/-- Behind cluster 2 comes the free cluster 0, two clusters before the data: the boot sector is read as
contents of the file. -/
theorem freeDisk_not_onlyData :
    (fat32Mount (Device.ofDisk freeDisk) 2048 4096 zeroState).1 = some smallVol ∧
    ((fat32ReadFileLog (Device.ofDisk freeDisk) smallVol freeFile 0 1024 8192 10 ⟨zeroState, []⟩).map
      fun p => p.2.log) = .ok [.sector 0 2 0 2050, .copy 8192 0 512, .lookup 1 2 8 0,
        .sector 2 0 0 2048, .copy 8704 0 512, .lookup 3 0 0 0] ∧
    (∀ c s, DataCluster c → s < smallVol.sectorsPerCluster →
      2048 ≠ (smallVol.dataLba + (c - 2) * smallVol.sectorsPerCluster + s) % 2 ^ 32) ∧
    ¬ FileOnlyData freeDisk smallVol freeFile 0 1024 8192 zeroState := by
  refine ⟨fat32Mount_smallVol rfl, by decide +kernel, fun c s hc hs => ?_, fun h => ?_⟩
  · obtain ⟨h2, hbad⟩ := hc
    unfold fatBad at hbad
    change s < 1 at hs
    change 2048 ≠ (2050 + (c - 2) * 1 + s) % 2 ^ 32
    omega
  · have hvisit : freeFile.Visits freeDisk smallVol 0 1024 1 :=
      ⟨Or.inr (by decide), by decide +kernel⟩
    have hdata := ((fileOnlyData_iff rfl (by decide) freeFile (by decide) 8192 zeroState).mp h).resolve_left
      (by decide)
    exact absurd (hdata.2 1 hvisit (Or.inr rfl)).1 (by decide +kernel)

end Aerogel
