import Rhino.Fat.Table

/-!
# The contents of a file

`get_contents` looks ahead in the table for clusters that lie behind each other and reads
them as one run; what is left of the last cluster is read on its own.  The result is the
one of reading cluster by cluster along the chain: after every turn of the loop, the bytes
already stored and the run that is still to be read are the clusters of the chain up to the
one that is looked at.
-/

namespace Rhino.Fat

open Rhino.Bytes Rhino.Transition

/-! ## Clusters -/

/-- The first sector of a cluster. -/
def FsData.place (fs : FsData) (clust : UInt32) : ℕ :=
  (fs.sectorOf clust).toNat

/-- The number of bytes of a cluster. -/
def FsData.clusterBytes (fs : FsData) : ℕ :=
  SECTOR_SIZE * fs.clustSize.toNat

/-- What a cluster holds. -/
def FsData.cluster (fs : FsData) (volume : ℕ → List UInt8) (clust : UInt32) : List UInt8 :=
  sectors volume (fs.place clust) fs.clustSize.toNat

/-- A cluster that can be read and from which the table leads on. -/
structure FsData.Usable (fs : FsData) (capacity : ℕ) (clust : UInt32) : Prop where
  valid : ¬ InvalidEntry clust
  has : fs.HasEntry clust.toNat
  inside : fs.place clust + fs.clustSize.toNat ≤ capacity

/-- The partition can be read, and the table lies in it. -/
structure FsData.On (fs : FsData) (disk : Disk) (volume : ℕ → List UInt8) (capacity : ℕ) :
    Prop where
  serves : disk.Serves volume capacity
  room : fs.fatSect.toNat + fs.fatlength.toNat + FATBUFBLOCKS.toNat ≤ capacity

theorem toInt_eq_toNat {value : UInt32} (small : value.toNat < 2 ^ 31) :
    value.toInt32.toInt = value.toNat :=
  BitVec.toInt_eq_toNat_of_lt (by change 2 * value.toNat < _; omega)

theorem InvalidEntry.not_iff {clust : UInt32} :
    ¬ InvalidEntry clust ↔ 2 ≤ clust.toNat ∧ clust.toNat < 0xfffff0 := by
  unfold InvalidEntry
  rw [UInt32.le_iff_toNat_le, UInt32.le_iff_toNat_le]
  change ¬ (_ ≤ 1 ∨ 0xfffff0 ≤ _) ↔ _
  omega

theorem InvalidEntry.pos_of_not {clust : UInt32} (valid : ¬ InvalidEntry clust) : clust > 0 := by
  have bounds := InvalidEntry.not_iff.mp valid
  rw [gt_iff_lt, UInt32.lt_iff_toNat_lt]
  change 0 < _
  omega

section Clusters

variable {disk : Disk} {volume : ℕ → List UInt8} {capacity : ℕ} {fs : FsData}

theorem FsData.cluster_length (full : ∀ n, (volume n).length = SECTOR_SIZE) (clust : UInt32) :
    (fs.cluster volume clust).length = fs.clusterBytes :=
  sectors_length full _ _

theorem FsData.toNat_bytesperclust (fs : FsData) :
    (fs.clustSize.toUInt32 * FS_BLOCK_SIZE).toNat = fs.clusterBytes := by
  have small := fs.clustSize.toNat_lt
  rw [UInt32.toNat_mul, UInt16.toNat_toUInt32, Nat.mul_comm]
  change 512 * _ % 2 ^ 32 = 512 * _
  omega

theorem FsData.entry_lt (fs : FsData) (volume : ℕ → List UInt8) (index : ℕ) :
    fs.entry volume index < 2 ^ 32 := by
  have width : fs.fatsize.width ≤ 32 := by
    cases fs.fatsize <;> decide
  exact (field_lt _ _ _).trans_le (Nat.pow_le_pow_right Nat.two_pos width)

theorem FsData.clusterBytes_lt (fs : FsData) : fs.clusterBytes < 2 ^ 25 := by
  have small := fs.clustSize.toNat_lt
  change 512 * _ < _
  omega

/-- The cluster with the next number lies behind. -/
theorem FsData.place_succ {clust : UInt32} (inside : fs.place clust + fs.clustSize.toNat < 2 ^ 32) :
    fs.place (clust + 1) = fs.place clust + fs.clustSize.toNat := by
  have next : fs.sectorOf (clust + 1) = fs.sectorOf clust + fs.clustSize.toUInt32 := by
    rw [sectorOf, sectorOf, UInt32.add_mul, UInt32.one_mul, UInt32.add_assoc]
  rw [place, next, UInt32.toNat_add, UInt16.toNat_toUInt32]
  exact Nat.mod_eq_of_lt inside

/-- The front of a sector, as it is copied from a buffer of its own. -/
theorem loadAt_storeAt_take (memory : Memory) (bytes : List UInt8) {count : ℕ}
    (short : count ≤ bytes.length) :
    loadAt (storeAt memory 0 bytes) 0 count = bytes.take count := by
  have window := slice_loadAt (storeAt memory 0 bytes) (Nat.zero_add count ▸ short) 0
  rw [loadAt_storeAt, slice, List.drop_zero] at window
  exact window.symm

/-- The front of some sectors ends within one of them. -/
theorem take_sectors (full : ∀ n, (volume n).length = SECTOR_SIZE) {start count whole rest : ℕ}
    (inside : whole < count) (short : rest ≤ SECTOR_SIZE) :
    (sectors volume start count).take (SECTOR_SIZE * whole + rest) =
      sectors volume start whole ++ (sectors volume (start + whole) 1).take rest := by
  have front := sectors_length full start whole
  have back := sectors_length full (start + whole) 1
  obtain ⟨behind, rfl⟩ := Nat.exists_eq_add_of_lt inside
  rw [Nat.add_assoc, Nat.add_comm behind, sectors_add _ whole, sectors_add _ 1, ← front,
    List.take_length_add_append, List.take_append_of_le_length (by omega)]

/-- `get_cluster` reads as many bytes as are asked for, from the cluster on. -/
theorem getCluster_eq (serves : disk.Serves volume capacity) {clust size : UInt32} {count : ℕ}
    (file : clust > 0) (inside : fs.place clust + count ≤ capacity)
    (fits : size.toNat ≤ SECTOR_SIZE * count) (memory : Memory) (buffer : ℕ) :
    getCluster disk fs clust memory buffer size =
      (0, storeAt memory buffer ((sectors volume (fs.place clust) count).take size.toNat)) := by
  have reach := serves.reach
  have idx : (size / FS_BLOCK_SIZE).toNat = size.toNat / 512 := UInt32.toNat_div _ _
  have rest : (size % FS_BLOCK_SIZE).toNat = size.toNat % 512 := UInt32.toNat_mod _ _
  change size.toNat ≤ 512 * count at fits
  have short := size.toNat_lt
  -- The whole sectors.
  have whole := serves.read (fs.sectorOf clust) (size / FS_BLOCK_SIZE) memory buffer
    (by change fs.place clust + _ ≤ _; omega) (by omega)
  change _ = (1, storeAt _ _ (sectors volume (fs.place clust) _)) at whole
  have none : ¬ (1 : ℤ) < 0 := by decide
  rw [getCluster]
  dsimp only
  rw [if_pos file, whole]
  dsimp only
  rw [if_neg none, idx]
  have front := @sectors_length volume serves.full (fs.place clust) (size.toNat / 512)
  change _ = 512 * _ at front
  by_cases exactly : size % FS_BLOCK_SIZE = 0
  · rw [if_neg (not_not.mpr exactly)]
    rw [exactly] at rest
    change 0 = _ at rest
    have split : count = size.toNat / 512 + (count - size.toNat / 512) := by omega
    rw [split, sectors_add, List.take_append_of_le_length (by omega),
      List.take_of_length_le (by omega)]
  · rw [if_pos exactly]
    have some : size.toNat % 512 ≠ 0 := by
      rw [← rest]
      exact fun same => exactly (UInt32.toNat_inj.mp same)
    -- The sector of which only the front is copied.
    have place : (fs.sectorOf clust + size / FS_BLOCK_SIZE).toNat =
        fs.place clust + size.toNat / 512 := by
      rw [UInt32.toNat_add, idx]
      apply Nat.mod_eq_of_lt
      change fs.place clust + _ < _
      omega
    have last := serves.read (fs.sectorOf clust + size / FS_BLOCK_SIZE) 1 disk.stack 0
      (by rw [place]; change _ + 1 ≤ _; omega) (by decide)
    have offset : (size / FS_BLOCK_SIZE * FS_BLOCK_SIZE).toNat = 512 * (size.toNat / 512) := by
      rw [UInt32.toNat_mul, idx]
      change size.toNat / 512 * 512 % 2 ^ 32 = _
      omega
    have back := @sectors_length volume serves.full (fs.place clust + size.toNat / 512) 1
    have parts := @take_sectors volume serves.full (fs.place clust) count (size.toNat / 512)
      (size.toNat % 512) (by omega) (Nat.mod_lt _ (by decide)).le
    change (sectors _ _ _).take (512 * _ + _) = _ at parts
    rw [Nat.div_add_mod] at parts
    change _ = 512 * 1 at back
    change _ = (1, storeAt _ _ (sectors volume _ 1)) at last
    rw [last, place]
    dsimp only
    rw [if_neg none, rest, loadAt_storeAt_take _ _ (by omega), offset, ← front, storeAt_storeAt,
      parts]

@[simp]
theorem getCluster_withCache (fatbuf : Memory) (fatbufnum : UInt32) :
    getCluster disk (fs.withCache fatbuf fatbufnum) = getCluster disk fs :=
  rfl

/-- The front of a cluster. -/
theorem FsData.Usable.getCluster_eq {clust : UInt32} (usable : fs.Usable capacity clust)
    (serves : disk.Serves volume capacity) {size : UInt32} (fits : size.toNat ≤ fs.clusterBytes)
    (memory : Memory) (buffer : ℕ) :
    getCluster disk fs clust memory buffer size =
      (0, storeAt memory buffer ((fs.cluster volume clust).take size.toNat)) :=
  Fat.getCluster_eq serves (InvalidEntry.pos_of_not usable.valid) usable.inside fits memory buffer

end Clusters

/-! ## The loop -/

/-- Where the loop stands: `stored` has been read, and a run of `count` clusters that lie behind
each other is still to be read. -/
structure Reading.Stands (s start : Reading) (volume : ℕ → List UInt8) (capacity : ℕ)
    (stored : List UInt8) (count : ℕ) : Prop where
  layout : ∃ fatbuf fatbufnum, s.fs = start.fs.withCache fatbuf fatbufnum
  coherent : s.fs.Coherent volume
  memory : s.memory = storeAt start.memory start.buffer stored
  buffer : s.buffer = start.buffer + stored.length
  filesize : stored.length + s.filesize.toNat = start.filesize.toNat
  gotsize : s.gotsize.toNat = stored.length
  actsize : s.actsize.toNat = SECTOR_SIZE * (count * start.fs.clustSize.toNat)
  positive : 0 < count
  run : start.fs.place s.endclust + start.fs.clustSize.toNat =
    start.fs.place s.curclust + count * start.fs.clustSize.toNat
  first : ¬ InvalidEntry s.curclust
  last : start.fs.Usable capacity s.endclust

/-- The clusters up to the one that is looked at. -/
def Reading.Seen (s start : Reading) (volume : ℕ → List UInt8) (capacity : ℕ)
    (seen : List UInt8) : Prop :=
  ∃ stored count, s.Stands start volume capacity stored count ∧
    seen = stored ++
      sectors volume (start.fs.place s.curclust) (count * start.fs.clustSize.toNat)

section Loop

variable {disk : Disk} {volume : ℕ → List UInt8} {capacity : ℕ} {start s : Reading}
  {stored seen : List UInt8} {count : ℕ}

namespace Reading.Stands

section Run

variable (stands : s.Stands start volume capacity stored count)
include stands

/-- The bytes of the run. -/
theorem run_length (full : ∀ n, (volume n).length = SECTOR_SIZE) :
    (sectors volume (start.fs.place s.curclust) (count * start.fs.clustSize.toNat)).length =
      s.actsize.toNat := by
  rw [sectors_length full, stands.actsize]

/-- The run has been read, and another one begins. -/
theorem renew (full : ∀ n, (volume n).length = SECTOR_SIZE)
    {fatbuf : Memory} {fatbufnum clust : UInt32}
    (coherent : (start.fs.withCache fatbuf fatbufnum).Coherent volume)
    (usable : start.fs.Usable capacity clust) (short : s.actsize.toNat ≤ s.filesize.toNat) :
    Reading.Stands
      { fs := start.fs.withCache fatbuf fatbufnum
        memory := storeAt start.memory start.buffer (stored ++
          sectors volume (start.fs.place s.curclust) (count * start.fs.clustSize.toNat))
        buffer := s.buffer + s.actsize.toNat
        filesize := s.filesize - s.actsize
        gotsize := s.gotsize + s.actsize
        actsize := start.fs.clustSize.toUInt32 * FS_BLOCK_SIZE
        curclust := clust
        endclust := clust }
      start volume capacity
      (stored ++ sectors volume (start.fs.place s.curclust) (count * start.fs.clustSize.toNat))
      1 where
  layout := ⟨fatbuf, fatbufnum, rfl⟩
  coherent := coherent
  memory := rfl
  buffer := by
    rw [List.length_append, stands.run_length full, ← Nat.add_assoc, ← stands.buffer]
  filesize := by
    have total := stands.filesize
    rw [List.length_append, stands.run_length full,
      UInt32.toNat_sub_of_le _ _ (UInt32.le_iff_toNat_le.mpr short)]
    omega
  gotsize := by
    have total := stands.filesize
    have limit := start.filesize.toNat_lt
    rw [List.length_append, stands.run_length full, UInt32.toNat_add, stands.gotsize]
    omega
  actsize := by
    rw [start.fs.toNat_bytesperclust, FsData.clusterBytes, Nat.one_mul]
  positive := Nat.one_pos
  run := by rw [Nat.one_mul]
  first := usable.valid
  last := usable

theorem recache {fatbuf : Memory} {fatbufnum : UInt32}
    (coherent : (start.fs.withCache fatbuf fatbufnum).Coherent volume) :
    Reading.Stands { s with fs := start.fs.withCache fatbuf fatbufnum } start volume capacity
      stored count :=
  { stands with layout := ⟨fatbuf, fatbufnum, rfl⟩, coherent := coherent }

variable (mounted : start.fs.On disk volume capacity)
include mounted

theorem getFatent_eq :
    ∃ fatbuf fatbufnum, (start.fs.withCache fatbuf fatbufnum).Coherent volume ∧
      getFatent disk s.fs s.endclust =
        (UInt32.ofNat (start.fs.entry volume s.endclust.toNat),
          start.fs.withCache fatbuf fatbufnum) := by
  obtain ⟨fatbuf, fatbufnum, layout⟩ := stands.layout
  have coherent := stands.coherent
  rw [layout] at coherent ⊢
  obtain ⟨fatbuf', fatbufnum', answer, coherent'⟩ :=
    Fat.getFatent_eq mounted.serves coherent mounted.room stands.last.has
  exact ⟨fatbuf', fatbufnum', coherent', answer⟩

/-- The front of the run is stored behind what has been read. -/
theorem getCluster_eq {size : UInt32} (short : size.toNat ≤ s.actsize.toNat) :
    getCluster disk s.fs s.curclust s.memory s.buffer size =
      (0, storeAt start.memory start.buffer (stored ++
        (sectors volume (start.fs.place s.curclust) (count * start.fs.clustSize.toNat)).take
          size.toNat)) := by
  obtain ⟨fatbuf, fatbufnum, layout⟩ := stands.layout
  have inside := stands.last.inside
  have file := InvalidEntry.pos_of_not stands.first
  rw [stands.run] at inside
  rw [stands.actsize] at short
  have read := Fat.getCluster_eq mounted.serves file inside short s.memory s.buffer
  rw [stands.memory, stands.buffer, storeAt_storeAt] at read
  rw [layout, getCluster_withCache, stands.memory, stands.buffer, read]

/-- The run grows by the cluster behind it. -/
theorem extend {fatbuf : Memory} {fatbufnum : UInt32}
    (coherent : (start.fs.withCache fatbuf fatbufnum).Coherent volume)
    (usable : start.fs.Usable capacity (s.endclust + 1))
    (small : s.actsize.toNat + start.fs.clusterBytes < 2 ^ 32) :
    Reading.Stands
      { s with
        fs := start.fs.withCache fatbuf fatbufnum
        endclust := s.endclust + 1
        actsize := s.actsize + start.fs.clustSize.toUInt32 * FS_BLOCK_SIZE }
      start volume capacity stored (count + 1) where
  layout := ⟨fatbuf, fatbufnum, rfl⟩
  coherent := coherent
  memory := stands.memory
  buffer := stands.buffer
  filesize := stands.filesize
  gotsize := stands.gotsize
  actsize := by
    dsimp only
    rw [UInt32.toNat_add, start.fs.toNat_bytesperclust, Nat.mod_eq_of_lt small, stands.actsize,
      FsData.clusterBytes, ← Nat.mul_add, Nat.succ_mul]
  positive := Nat.succ_pos count
  run := by
    have behind := start.fs.place_succ (stands.last.inside.trans_lt mounted.serves.reach)
    have run := stands.run
    dsimp only
    rw [behind, Nat.succ_mul, run, Nat.add_assoc]
  first := stands.first
  last := usable

/-- The whole run is read, and the table is asked once more for what comes behind it. -/
theorem readRun_eq :
    ∃ fatbuf fatbufnum, (start.fs.withCache fatbuf fatbufnum).Coherent volume ∧
      getFatent disk s.fs s.endclust =
        (UInt32.ofNat (start.fs.entry volume s.endclust.toNat),
          start.fs.withCache fatbuf fatbufnum) ∧
      getCluster disk s.fs s.curclust s.memory s.buffer s.actsize =
        (0, storeAt start.memory start.buffer (stored ++
          sectors volume (start.fs.place s.curclust) (count * start.fs.clustSize.toNat))) := by
  obtain ⟨fatbuf, fatbufnum, coherent, answer⟩ := stands.getFatent_eq mounted
  have read := stands.getCluster_eq mounted le_rfl
  rw [List.take_of_length_le (stands.run_length mounted.serves.full).le] at read
  exact ⟨fatbuf, fatbufnum, coherent, answer, read⟩

end Run

/-- The run but for its last cluster is read, and then as much of that cluster as is left. -/
theorem readRest_eq (stands : s.Stands start volume capacity stored (count + 1))
    (mounted : start.fs.On disk volume capacity) (small : start.filesize.toNat < 2 ^ 31)
    (enough : s.filesize.toNat ≤ s.actsize.toNat)
    (needed : s.actsize.toNat < s.filesize.toNat + start.fs.clusterBytes) :
    readRest disk (start.fs.clustSize.toUInt32 * FS_BLOCK_SIZE) s =
      ((start.filesize.toNat : ℤ), s.fs, storeAt start.memory start.buffer (stored ++
        (sectors volume (start.fs.place s.curclust) ((count + 1) * start.fs.clustSize.toNat)).take
          s.filesize.toNat)) := by
  have full := mounted.serves.full
  have total := stands.filesize
  have run := stands.run
  generalize bytes_eq : start.fs.clustSize.toUInt32 * FS_BLOCK_SIZE = bytes
  have bytes_nat : bytes.toNat = start.fs.clusterBytes := by
    rw [← bytes_eq, start.fs.toNat_bytesperclust]
  generalize front_eq : count * start.fs.clustSize.toNat = front at run
  have actsize : s.actsize.toNat = SECTOR_SIZE * front + start.fs.clusterBytes := by
    rw [stands.actsize, Nat.succ_mul, front_eq, Nat.mul_add, FsData.clusterBytes]
  -- The run without its last cluster, and what is left in that cluster.
  have whole : (s.actsize - bytes).toNat = SECTOR_SIZE * front := by
    rw [UInt32.toNat_sub_of_le _ _ (UInt32.le_iff_toNat_le.mpr (by omega))]
    omega
  have rest : (s.filesize - (s.actsize - bytes)).toNat =
      s.filesize.toNat - SECTOR_SIZE * front := by
    rw [UInt32.toNat_sub_of_le _ _ (UInt32.le_iff_toNat_le.mpr (by omega)), whole]
  have length := sectors_length full (start.fs.place s.curclust) front
  have split : sectors volume (start.fs.place s.curclust) ((count + 1) * start.fs.clustSize.toNat) =
      sectors volume (start.fs.place s.curclust) front ++ start.fs.cluster volume s.endclust := by
    have place : start.fs.place s.endclust = start.fs.place s.curclust + front := by
      rw [Nat.succ_mul, front_eq] at run
      omega
    rw [Nat.succ_mul, front_eq, sectors_add, FsData.cluster, place]
  have most := @Reading.Stands.getCluster_eq disk _ _ _ _ _ _ stands mounted (s.actsize - bytes)
    (by omega)
  rw [split, whole, ← length, List.take_left] at most
  have last := @FsData.Usable.getCluster_eq disk _ _ _ _ stands.last mounted.serves
    (s.filesize - (s.actsize - bytes)) (by omega)
  obtain ⟨fatbuf, fatbufnum, layout⟩ := stands.layout
  have gotsize : (s.gotsize + (s.actsize - bytes) +
      (s.filesize - (s.actsize - bytes))).toNat = start.filesize.toNat := by
    rw [UInt32.toNat_add, UInt32.toNat_add, rest, whole, stands.gotsize]
    omega
  rw [readRest]
  dsimp only
  rw [most]
  dsimp only
  rw [if_neg (not_not.mpr rfl), toInt_eq_toNat (by omega), gotsize, layout, getCluster_withCache,
    last]
  dsimp only
  have taken : (sectors volume (start.fs.place s.curclust) front ++
      start.fs.cluster volume s.endclust).take s.filesize.toNat =
      sectors volume (start.fs.place s.curclust) front ++ (start.fs.cluster volume s.endclust).take
        (s.filesize.toNat - SECTOR_SIZE * front) := by
    rw [List.take_append, length, List.take_of_length_le (by omega)]
  have buffer : s.buffer + (s.actsize - bytes).toNat = start.buffer +
      (stored ++ sectors volume (start.fs.place s.curclust) front).length := by
    rw [stands.buffer, whole, List.length_append, length, Nat.add_assoc]
  rw [if_neg (not_not.mpr rfl), buffer, storeAt_storeAt, rest, split, taken, List.append_assoc]

end Reading.Stands

variable (looked : s.Seen start volume capacity seen)
  (mounted : start.fs.On disk volume capacity) (small : start.filesize.toNat < 2 ^ 31)
include looked mounted small

/-- One more cluster is looked at. -/
theorem contentsTurn_next (more : seen.length < start.filesize.toNat) {clust : UInt32}
    (linked : start.fs.entry volume s.endclust.toNat = clust.toNat)
    (usable : start.fs.Usable capacity clust) :
    ∃ next, contentsTurn disk (start.fs.clustSize.toUInt32 * FS_BLOCK_SIZE) s = .ok next ∧
      next.endclust = clust ∧
      next.Seen start volume capacity (seen ++ start.fs.cluster volume clust) := by
  obtain ⟨stored, count, stands, rfl⟩ := looked
  have full := mounted.serves.full
  have total := stands.filesize
  have bytes := start.fs.clusterBytes_lt
  rw [List.length_append, stands.run_length full] at more
  have goes : s.actsize < s.filesize := UInt32.lt_iff_toNat_lt.mpr (by omega)
  obtain ⟨fatbuf, fatbufnum, coherent, answer⟩ := stands.getFatent_eq mounted
  rw [linked, UInt32.ofNat_toNat] at answer
  rw [contentsTurn, if_pos goes, answer]
  dsimp only
  by_cases adjacent : clust - 1 = s.endclust
  · obtain rfl : s.endclust + 1 = clust := by rw [← adjacent, UInt32.sub_add_cancel]
    have extended := stands.extend mounted coherent usable (by omega)
    rw [if_neg (not_not.mpr adjacent), if_neg usable.valid]
    refine ⟨_, rfl, rfl, stored, count + 1, extended, ?_⟩
    have behind := start.fs.place_succ (stands.last.inside.trans_lt mounted.serves.reach)
    rw [List.append_assoc, Nat.succ_mul, sectors_add, FsData.cluster, behind, stands.run]
  · rw [if_pos adjacent, readRun]
    obtain ⟨fatbuf', fatbufnum', coherent', answer', read⟩ :=
      (stands.recache coherent).readRun_eq mounted
    dsimp only at answer' read ⊢
    rw [linked, UInt32.ofNat_toNat] at answer'
    rw [read]
    dsimp only
    rw [if_neg (not_not.mpr rfl), answer']
    dsimp only
    rw [if_neg usable.valid]
    refine ⟨_, rfl, rfl, _, 1, stands.renew full coherent' usable (by omega), ?_⟩
    rw [Nat.one_mul, FsData.cluster]

/-- What is left of the file lies in the clusters that have been looked at. -/
theorem contentsTurn_last (enough : start.filesize.toNat ≤ seen.length)
    (needed : seen.length < start.filesize.toNat + start.fs.clusterBytes) :
    contentsTurn disk (start.fs.clustSize.toUInt32 * FS_BLOCK_SIZE) s =
      .error (start.filesize.toNat, s.fs,
        storeAt start.memory start.buffer (seen.take start.filesize.toNat)) := by
  obtain ⟨stored, count, stands, rfl⟩ := looked
  have total := stands.filesize
  rw [List.length_append, stands.run_length mounted.serves.full] at enough needed
  have ends : ¬ s.actsize < s.filesize := by
    rw [UInt32.lt_iff_toNat_lt]
    omega
  obtain ⟨count, rfl⟩ := Nat.exists_eq_add_one.mpr stands.positive
  rw [contentsTurn, if_neg ends, stands.readRest_eq mounted small (by omega) (by omega), ← total,
    List.take_length_add_append]

/-- The table leads to no further cluster: what has been looked at is read, and the size of it
is returned. -/
theorem contentsTurn_short (more : seen.length < start.filesize.toNat)
    (ends : InvalidEntry (UInt32.ofNat (start.fs.entry volume s.endclust.toNat)))
    (apart : UInt32.ofNat (start.fs.entry volume s.endclust.toNat) - 1 ≠ s.endclust) :
    ∃ fs, contentsTurn disk (start.fs.clustSize.toUInt32 * FS_BLOCK_SIZE) s =
      .error ((seen.length : ℤ), fs, storeAt start.memory start.buffer seen) := by
  obtain ⟨stored, count, stands, rfl⟩ := looked
  have full := mounted.serves.full
  have total := stands.filesize
  have length : (stored ++ sectors volume (start.fs.place s.curclust)
      (count * start.fs.clustSize.toNat)).length = stored.length + s.actsize.toNat := by
    rw [List.length_append, stands.run_length full]
  have goes : s.actsize < s.filesize := UInt32.lt_iff_toNat_lt.mpr (by omega)
  have gotsize : (s.gotsize + s.actsize).toNat = stored.length + s.actsize.toNat := by
    rw [UInt32.toNat_add, stands.gotsize]
    omega
  obtain ⟨fatbuf, fatbufnum, coherent, answer⟩ := stands.getFatent_eq mounted
  obtain ⟨fatbuf', fatbufnum', -, answer', read⟩ :=
    (stands.recache coherent).readRun_eq mounted
  dsimp only at answer' read
  rw [contentsTurn, if_pos goes, answer]
  dsimp only
  rw [if_pos apart, readRun, read]
  dsimp only
  rw [if_neg (not_not.mpr rfl), answer']
  dsimp only
  rw [if_pos ends, toInt_eq_toNat (by omega), gotsize, length]
  exact ⟨_, rfl⟩

end Loop

/-! ## The chain -/

/-- The table leads from a cluster through others. -/
def FsData.Linked (fs : FsData) (volume : ℕ → List UInt8) (capacity : ℕ) :
    UInt32 → List UInt32 → Prop
  | _, [] => True
  | clust, next :: rest =>
      fs.entry volume clust.toNat = next.toNat ∧ fs.Usable capacity next ∧
        fs.Linked volume capacity next rest

/-- What the clusters of a chain hold. -/
def FsData.chainBytes (fs : FsData) (volume : ℕ → List UInt8) (chain : List UInt32) :
    List UInt8 :=
  chain.flatMap (fs.cluster volume)

section Chain

variable {disk : Disk} {volume : ℕ → List UInt8} {capacity : ℕ}

theorem FsData.chainBytes_cons (fs : FsData) (clust : UInt32) (rest : List UInt32) :
    fs.chainBytes volume (clust :: rest) = fs.cluster volume clust ++ fs.chainBytes volume rest :=
  List.flatMap_cons

theorem FsData.chainBytes_length (full : ∀ n, (volume n).length = SECTOR_SIZE) (fs : FsData)
    (chain : List UInt32) :
    (fs.chainBytes volume chain).length = chain.length * fs.clusterBytes := by
  induction chain with
  | nil => simp [chainBytes]
  | cons clust rest ih =>
      rw [chainBytes_cons, List.length_append, cluster_length full, ih, List.length_cons,
        Nat.succ_mul, Nat.add_comm]

/-- Each turn of the loop looks at one more cluster of the chain. -/
theorem contentsTurns_along {start : Reading} (mounted : start.fs.On disk volume capacity)
    (small : start.filesize.toNat < 2 ^ 31) {rest : List UInt32} {s : Reading}
    {seen : List UInt8} (looked : s.Seen start volume capacity seen)
    (linked : start.fs.Linked volume capacity s.endclust rest)
    (needed : (seen ++ start.fs.chainBytes volume rest).length <
      start.filesize.toNat + start.fs.clusterBytes) :
    ∃ final : Reading, final.endclust = rest.getLastD s.endclust ∧
      final.Seen start volume capacity (seen ++ start.fs.chainBytes volume rest) ∧
      ∀ turns, resultWithin (contentsTurn disk (start.fs.clustSize.toUInt32 * FS_BLOCK_SIZE)) s
          (turns + rest.length) =
        resultWithin (contentsTurn disk (start.fs.clustSize.toUInt32 * FS_BLOCK_SIZE)) final
          turns := by
  induction rest generalizing s seen with
  | nil =>
      refine ⟨s, rfl, ?_, fun turns => rfl⟩
      rwa [FsData.chainBytes, List.flatMap_nil, List.append_nil]
  | cons clust rest ih =>
      obtain ⟨entry, usable, linked⟩ := linked
      have length := start.fs.cluster_length mounted.serves.full clust
      rw [FsData.chainBytes_cons, ← List.append_assoc] at needed
      have more : seen.length < start.filesize.toNat := by
        rw [List.length_append, List.length_append, length] at needed
        omega
      obtain ⟨next, taken, arrived, lookedNext⟩ :=
        contentsTurn_next looked mounted small more entry usable
      rw [← arrived] at linked
      obtain ⟨final, last, lookedAll, same⟩ := ih lookedNext linked needed
      refine ⟨final, ?_, ?_, fun turns => ?_⟩
      · rw [last, arrived, List.getLastD_cons]
      · rwa [FsData.chainBytes_cons, ← List.append_assoc]
      · rw [List.length_cons, ← Nat.add_assoc, resultWithin_of_ok taken, same]

section Whole

variable {fs : FsData} {dentptr : DirEntry} {rest : List UInt32} {memory : Memory} {buffer : ℕ}
  {maxsize : UInt32}

theorem contentsStart_seen (coherent : fs.Coherent volume)
    (usable : fs.Usable capacity (fs.startOf dentptr)) :
    (contentsStart fs dentptr memory buffer maxsize).Seen
      (contentsStart fs dentptr memory buffer maxsize) volume capacity
      (fs.cluster volume (fs.startOf dentptr)) := by
  refine ⟨[], 1, ?_, ?_⟩
  · exact
      { layout := ⟨fs.fatbuf, fs.fatbufnum, rfl⟩
        coherent := coherent
        memory := (storeAt_nil _ _).symm
        buffer := rfl
        filesize := Nat.zero_add _
        gotsize := rfl
        actsize := by
          rw [Nat.one_mul]
          exact fs.toNat_bytesperclust
        positive := Nat.one_pos
        run := by rw [Nat.one_mul]; rfl
        first := usable.valid
        last := usable }
  · rw [List.nil_append, Nat.one_mul]
    rfl

variable (mounted : fs.On disk volume capacity) (coherent : fs.Coherent volume)
  (usable : fs.Usable capacity (fs.startOf dentptr))
  (linked : fs.Linked volume capacity (fs.startOf dentptr) rest)
  (small : (readSize dentptr.size maxsize).toNat < 2 ^ 31)
include mounted coherent usable linked small

/-- `get_contents` looks at the clusters of a chain as far as the size asks for them. -/
theorem getContents_along
    (needed : rest.length * fs.clusterBytes < (readSize dentptr.size maxsize).toNat) :
    ∃ final : Reading, final.endclust = rest.getLastD (fs.startOf dentptr) ∧
      final.Seen (contentsStart fs dentptr memory buffer maxsize) volume capacity
        (fs.chainBytes volume (fs.startOf dentptr :: rest)) ∧
      ∀ turns, getContents disk fs dentptr memory buffer maxsize (turns + rest.length) =
        resultWithin (contentsTurn disk (fs.clustSize.toUInt32 * FS_BLOCK_SIZE)) final turns := by
  have length := fs.chainBytes_length mounted.serves.full (fs.startOf dentptr :: rest)
  have looked := @contentsStart_seen _ _ _ _ memory buffer maxsize coherent usable
  have bound : (fs.cluster volume (fs.startOf dentptr) ++ fs.chainBytes volume rest).length <
      (readSize dentptr.size maxsize).toNat + fs.clusterBytes := by
    rw [← FsData.chainBytes_cons, length, List.length_cons, Nat.succ_mul]
    omega
  rw [FsData.chainBytes_cons]
  exact contentsTurns_along mounted small looked linked bound

/-- A file is read along its chain: the runs of clusters that `get_contents` reads at once
make up the same bytes. -/
theorem getContents_eq
    (needed : rest.length * fs.clusterBytes < (readSize dentptr.size maxsize).toNat)
    (enough : (readSize dentptr.size maxsize).toNat ≤ (rest.length + 1) * fs.clusterBytes)
    {turns : ℕ} (time : rest.length < turns) :
    ∃ next, getContents disk fs dentptr memory buffer maxsize turns =
      some (((readSize dentptr.size maxsize).toNat : ℤ), next, storeAt memory buffer
        ((fs.chainBytes volume (fs.startOf dentptr :: rest)).take
          (readSize dentptr.size maxsize).toNat)) := by
  have length := fs.chainBytes_length mounted.serves.full (fs.startOf dentptr :: rest)
  obtain ⟨final, -, looked, same⟩ := @getContents_along _ _ _ _ _ _ memory buffer _ mounted coherent
    usable linked small needed
  rw [List.length_cons] at length
  have ends := contentsTurn_last looked mounted small (by rw [length]; exact enough)
    (by rw [length, Nat.succ_mul]; exact Nat.add_lt_add_right needed _)
  have result := resultWithin_of_error ends 0
  exact ⟨final.fs, resultWithin_mono (by omega) ((same 1).trans result)⟩

/-- A file whose chain ends before its size says so: what the chain holds is read, and nothing
tells this from a file of that size. -/
theorem getContents_short
    (short : (rest.length + 1) * fs.clusterBytes < (readSize dentptr.size maxsize).toNat)
    (ends : fs.entry volume (rest.getLastD (fs.startOf dentptr)).toNat ≤ 1 ∨
      0xfffff0 < fs.entry volume (rest.getLastD (fs.startOf dentptr)).toNat)
    {turns : ℕ} (time : rest.length < turns) :
    ∃ next, getContents disk fs dentptr memory buffer maxsize turns =
      some ((((rest.length + 1) * fs.clusterBytes : ℕ) : ℤ), next, storeAt memory buffer
        (fs.chainBytes volume (fs.startOf dentptr :: rest))) := by
  have length := fs.chainBytes_length mounted.serves.full (fs.startOf dentptr :: rest)
  have less := Nat.mul_le_mul_right fs.clusterBytes (Nat.le_succ rest.length)
  obtain ⟨final, last, looked, same⟩ := @getContents_along _ _ _ _ _ _ memory buffer _ mounted
    coherent usable linked small (less.trans_lt short)
  rw [List.length_cons] at length
  obtain ⟨stored, count, stands, -⟩ := id looked
  have valid := InvalidEntry.not_iff.mp stands.last.valid
  -- The number that the table has for the last cluster.
  obtain ⟨code, code_eq⟩ : ∃ code, code = UInt32.ofNat (fs.entry volume final.endclust.toNat) :=
    ⟨_, rfl⟩
  have code_nat : code.toNat = fs.entry volume final.endclust.toNat := by
    rw [code_eq]
    exact UInt32.toNat_ofNat_of_lt' (fs.entry_lt volume final.endclust.toNat)
  rw [← last, ← code_nat] at ends
  have invalid : InvalidEntry code := by
    by_contra valid
    have bounds := InvalidEntry.not_iff.mp valid
    omega
  have apart : code - 1 ≠ final.endclust := by
    intro same
    have next : code = final.endclust + 1 := by rw [← same, UInt32.sub_add_cancel]
    have next_nat : code.toNat = (final.endclust.toNat + 1) % 2 ^ 32 := by
      rw [next, UInt32.toNat_add]
      rfl
    omega
  rw [code_eq] at invalid apart
  obtain ⟨next, taken⟩ :=
    contentsTurn_short looked mounted small (by rw [length]; exact short) invalid apart
  rw [length] at taken
  exact ⟨next, resultWithin_mono (by omega) ((same 1).trans (resultWithin_of_error taken 0))⟩

end Whole

end Chain

end Rhino.Fat
