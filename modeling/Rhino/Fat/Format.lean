import Rhino.Fat.Directory

/-!
# The volume as FAT lays it out

The places of the table, of the root directory and of the clusters follow from the boot
sector, in whole numbers.  `do_fat_read` adds them up in sixteen bits, `data_begin` with a
sign, and leaves out a part of a sector of the root directory: the clusters are where it
looks for them exactly if the root directory fills its sectors and the data begin low enough.
On such a volume the table, the chains and the root directory are the ones of FAT.
-/

namespace Rhino.Fat

open Rhino.Bytes Rhino.Transition

/-! ## Places -/

section Places

variable (bs : BootSector) (kind : FatSize)

/-- The length of a copy of the table, in sectors. -/
def BootSector.tableLength : ℕ :=
  if kind = .fat32 then bs.fat32Length.toNat else bs.fatLength.toNat

/-- The first sector behind the tables; a fixed root directory begins there. -/
def BootSector.rootStart : ℕ :=
  bs.reserved.toNat + bs.tableLength kind * bs.fats.toNat

/-- The length of the fixed root directory, in sectors. -/
def BootSector.rootLength : ℕ :=
  if kind = .fat32 then 0
  else (bs.dirEntries.toNat * DIRENT_SIZE + SECTOR_SIZE - 1) / SECTOR_SIZE

/-- The first sector behind the tables and the root directory, where cluster 2 lies. -/
def BootSector.dataStart : ℕ :=
  bs.rootStart kind + bs.rootLength kind

/-- The first sector of a cluster. -/
def BootSector.clusterStart (clust : UInt32) : ℕ :=
  bs.dataStart kind + (clust.toNat - 2) * bs.clusterSize.toNat

/-- The fixed root directory ends with a sector. -/
def BootSector.WholeRoot : Prop :=
  kind ≠ .fat32 → bs.dirEntries.toNat % DIRENTSPERBLOCK = 0

instance : Decidable (bs.WholeRoot kind) :=
  inferInstanceAs (Decidable (_ → _))

/-- Where the data begin for `do_fat_read`, before the number is cut. -/
def BootSector.mountedStart : ℕ :=
  bs.rootStart kind +
    if kind = .fat32 then 0 else bs.dirEntries.toNat * DIRENT_SIZE / SECTOR_SIZE

theorem BootSector.dataStart_eq :
    bs.dataStart kind = bs.mountedStart kind + if bs.WholeRoot kind then 0 else 1 := by
  rw [dataStart, mountedStart, rootLength, Nat.add_assoc]
  congr 1
  by_cases long : kind = .fat32
  · have whole : bs.WholeRoot kind := fun other => absurd long other
    rw [if_pos long, if_pos long, if_pos whole]
  · have whole : bs.WholeRoot kind ↔ bs.dirEntries.toNat % 16 = 0 :=
      ⟨fun rule => rule long, fun rule _ => rule⟩
    rw [if_neg long, if_neg long]
    change (_ * 32 + 512 - 1) / 512 = _ * 32 / 512 + _
    by_cases rest : bs.dirEntries.toNat % 16 = 0
    · rw [if_pos (whole.mpr rest)]
      omega
    · rw [if_neg (mt whole.mp rest)]
      omega

end Places

/-! ## Where the loader looks for the clusters -/

/-- A number of sixteen bits with a sign, taken to thirty-two bits. -/
theorem toNat_signExtend (u : UInt16) :
    u.toInt16.toInt32.toUInt32.toNat =
      u.toNat + if u.toNat < 2 ^ 15 then 0 else 2 ^ 32 - 2 ^ 16 := by
  have small := u.toNat_lt
  change (BitVec.signExtend 32 u.toBitVec).toNat = _
  have width : (BitVec.setWidth 32 u.toBitVec).toNat = u.toNat := by
    rw [BitVec.toNat_setWidth]
    exact Nat.mod_eq_of_lt (small.trans (by decide))
  have sign : u.toBitVec.msb = decide (2 ^ 15 ≤ u.toNat) := BitVec.msb_eq_decide _
  rw [BitVec.toNat_signExtend, width, sign]
  by_cases low : u.toNat < 2 ^ 15
  · rw [if_pos low, if_neg (by simpa using low)]
  · rw [if_neg low, if_pos (by simpa using low)]

section Mount

variable (bs : BootSector) (kind : FatSize) (fatbuf : Memory)

/-- The sixteen bits of `data_begin`. -/
def BootSector.dataLow : UInt16 :=
  UInt16.ofNat (bs.mountedStart kind) - bs.clusterSize.toUInt16 * 2

theorem mount_dataBegin :
    (mount bs kind fatbuf).dataBegin = (bs.dataLow kind).toInt16 := by
  have product (length : ℕ) : UInt16.ofNat (bs.reserved.toNat + length * bs.fats.toNat) =
      bs.reserved + UInt16.ofNat length * bs.fats.toUInt16 := by
    rw [UInt16.ofNat_add, UInt16.ofNat_mul, UInt16.ofNat_toNat, UInt16.ofNat_uInt8ToNat]
  rw [mount, BootSector.dataLow, BootSector.mountedStart, BootSector.rootStart,
    BootSector.tableLength]
  dsimp only
  by_cases long : kind = .fat32
  · rw [if_pos long, if_pos long, if_pos long, if_pos long, Nat.add_zero, product]
    rfl
  · rw [if_neg long, if_neg long, if_neg long, if_neg long, UInt16.ofNat_add, product,
      UInt16.ofNat_toNat]
    rfl

theorem toNat_dataLow : (bs.dataLow kind).toNat < 2 ^ 16 ∧
    ((bs.dataLow kind).toNat + 2 * bs.clusterSize.toNat) % 2 ^ 16 =
      bs.mountedStart kind % 2 ^ 16 := by
  refine ⟨(bs.dataLow kind).toNat_lt, ?_⟩
  have sum : bs.dataLow kind + bs.clusterSize.toUInt16 * 2 =
      UInt16.ofNat (bs.mountedStart kind) :=
    UInt16.sub_add_cancel _ _
  have twice : (bs.clusterSize.toUInt16 * 2).toNat = 2 * bs.clusterSize.toNat := by
    have small := bs.clusterSize.toNat_lt
    rw [UInt16.toNat_mul, UInt8.toNat_toUInt16]
    change _ * 2 % 2 ^ 16 = _
    omega
  have values := congrArg UInt16.toNat sum
  rwa [UInt16.toNat_add, twice, UInt16.toNat_ofNat'] at values

/-- The number of a cluster is made from `data_begin`. -/
theorem place_mount {clust : UInt32} (valid : ¬ InvalidEntry clust) :
    (mount bs kind fatbuf).place clust =
      ((bs.dataLow kind).toNat +
        (if (bs.dataLow kind).toNat < 2 ^ 15 then 0 else 2 ^ 32 - 2 ^ 16) +
        (2 * bs.clusterSize.toNat + (clust.toNat - 2) * bs.clusterSize.toNat)) % 2 ^ 32 := by
  have bounds := InvalidEntry.not_iff.mp valid
  have count : (mount bs kind fatbuf).clustSize.toUInt32.toNat = bs.clusterSize.toNat := rfl
  have split : clust.toNat = 2 + (clust.toNat - 2) := by omega
  rw [FsData.place, FsData.sectorOf, mount_dataBegin, UInt32.toNat_add, toNat_signExtend,
    UInt32.toNat_mul, count, ← Nat.add_mul, ← split, Nat.add_mod_mod]

/-- The clusters are where they are looked for if the data begin low enough. -/
theorem place_mount_of_low {clust : UInt32} (valid : ¬ InvalidEntry clust)
    (whole : bs.WholeRoot kind) (low : bs.dataStart kind < 2 ^ 15 + 2 * bs.clusterSize.toNat) :
    (mount bs kind fatbuf).place clust = bs.clusterStart kind clust := by
  have bounds := InvalidEntry.not_iff.mp valid
  obtain ⟨limit, begins⟩ := toNat_dataLow bs kind
  have start := bs.dataStart_eq kind
  have small := bs.clusterSize.toNat_lt
  have far : (clust.toNat - 2) * bs.clusterSize.toNat ≤ 0xfffff0 * 255 :=
    Nat.mul_le_mul (by omega) (by omega)
  rw [if_pos whole, Nat.add_zero] at start
  rw [place_mount bs kind fatbuf valid, BootSector.clusterStart]
  rw [start] at low ⊢
  split_ifs with positive
  · omega
  · omega

end Mount

/-! ## Files and the root directory -/

section Contents

variable (bs : BootSector) (kind : FatSize) (volume : ℕ → List UInt8)

/-- An entry of the allocation table. -/
def BootSector.entry (index : ℕ) : ℕ :=
  field kind.width index (sectors volume bs.reserved.toNat (bs.tableLength kind))

/-- The number of bytes of a cluster. -/
def BootSector.clusterBytes : ℕ :=
  SECTOR_SIZE * bs.clusterSize.toNat

/-- What the clusters of a chain hold. -/
def BootSector.chainBytes (chain : List UInt32) : List UInt8 :=
  chain.flatMap fun clust => sectors volume (bs.clusterStart kind clust) bs.clusterSize.toNat

/-- The first cluster of a file. -/
def DirEntry.firstCluster (dentptr : DirEntry) : ℕ :=
  dentptr.start.toNat + if kind = .fat32 then dentptr.starthi.toNat * 2 ^ 16 else 0

/-- A cluster with an entry in the table and sectors among the first `capacity` ones. -/
structure BootSector.Usable (capacity : ℕ) (clust : UInt32) : Prop where
  valid : ¬ InvalidEntry clust
  has : kind.width * (clust.toNat + 1) ≤ 8 * (SECTOR_SIZE * bs.tableLength kind)
  inside : bs.clusterStart kind clust + bs.clusterSize.toNat ≤ capacity

/-- The table leads from a cluster through others. -/
def BootSector.Linked (capacity : ℕ) : UInt32 → List UInt32 → Prop
  | _, [] => True
  | clust, next :: rest =>
      bs.entry kind volume clust.toNat = next.toNat ∧ bs.Usable kind capacity next ∧
        BootSector.Linked capacity next rest

/-- The clusters of a file: the one in its directory entry and those that the table leads to. -/
structure BootSector.Chain (capacity : ℕ) (dentptr : DirEntry) (clust : UInt32)
    (rest : List UInt32) : Prop where
  first : clust.toNat = dentptr.firstCluster kind
  usable : bs.Usable kind capacity clust
  linked : bs.Linked kind volume capacity clust rest

/-- A file with as many clusters as its size needs. -/
structure BootSector.File (capacity : ℕ) (dentptr : DirEntry) (clust : UInt32)
    (rest : List UInt32) : Prop where
  chain : bs.Chain kind volume capacity dentptr clust rest
  small : dentptr.size.toNat < 2 ^ 31
  needed : rest.length * bs.clusterBytes < dentptr.size.toNat
  enough : dentptr.size.toNat ≤ (rest.length + 1) * bs.clusterBytes

/-- A file whose chain ends too early, with a cluster that is marked as free or, on FAT32, as the
last one. -/
structure BootSector.ShortFile (capacity : ℕ) (dentptr : DirEntry) (clust : UInt32)
    (rest : List UInt32) : Prop where
  chain : bs.Chain kind volume capacity dentptr clust rest
  small : dentptr.size.toNat < 2 ^ 31
  short : (rest.length + 1) * bs.clusterBytes < dentptr.size.toNat
  ends : bs.entry kind volume (rest.getLastD clust).toNat ≤ 1 ∨
    0xfffff0 < bs.entry kind volume (rest.getLastD clust).toNat

/-- What the file holds. -/
def BootSector.fileBytes (dentptr : DirEntry) (clust : UInt32) (rest : List UInt32) :
    List UInt8 :=
  (bs.chainBytes kind volume (clust :: rest)).take dentptr.size.toNat

/-- The sectors of the root directory whose entries are looked at: all of a fixed one, and on
FAT32 the first one of every cluster. -/
def BootSector.rootSectors (rest : List UInt32) : List ℕ :=
  if kind = .fat32 then (bs.rootCluster :: rest).map (bs.clusterStart kind)
  else List.range' (bs.rootStart kind) (bs.rootLength kind)

/-- The entries of these sectors. -/
def BootSector.rootEntries (rest : List UInt32) : List DirEntry :=
  (bs.rootSectors kind rest).flatMap fun sector => entriesOf (volume sector)

/-- On FAT32 the root directory begins with the first cluster and goes on as the table says. -/
def BootSector.RootChain (capacity : ℕ) (rest : List UInt32) : Prop :=
  kind = .fat32 → bs.rootCluster = 2 ∧ bs.Usable kind capacity bs.rootCluster ∧
    bs.Linked kind volume capacity bs.rootCluster rest

/-- A volume that `do_fat_read` takes for what it is. -/
structure BootSector.Formatted (capacity : ℕ) : Prop where
  boot : identify (volume 0) = some (bs, kind)
  clusters : 0 < bs.clusterSize.toNat
  copies : 0 < bs.fats.toNat
  whole : bs.WholeRoot kind
  low : bs.dataStart kind < 2 ^ 15 + 2 * bs.clusterSize.toNat
  table : bs.reserved.toNat + bs.tableLength kind + FATBUFBLOCKS.toNat ≤ capacity
  data : bs.dataStart kind + bs.clusterSize.toNat ≤ capacity

end Contents

theorem BootSector.Linked.usable {bs : BootSector} {kind : FatSize} {volume : ℕ → List UInt8}
    {capacity : ℕ} {clust : UInt32} {rest : List UInt32}
    (linked : bs.Linked kind volume capacity clust rest) (first : bs.Usable kind capacity clust) :
    ∀ other ∈ clust :: rest, bs.Usable kind capacity other := by
  induction rest generalizing clust with
  | nil => simpa using first
  | cons next rest ih =>
      obtain ⟨-, usable, linked⟩ := linked
      exact List.forall_mem_cons.mpr ⟨first, ih linked usable⟩

/-- The first of the entries that has the name, with nothing in front of it that ends the
search. -/
def DirEntry.Visible (dentptr : DirEntry) (fname : List UInt8) (entries : List DirEntry) : Prop :=
  dentptr.Names fname ∧ ∃ front behind, entries = front ++ dentptr :: behind ∧
    ∀ other ∈ front, other.PassedBy fname

theorem DirEntry.Visible.scanEntries_eq {dentptr : DirEntry} {fname : List UInt8}
    {entries : List DirEntry} (visible : dentptr.Visible fname entries) (known : fname ≠ []) :
    scanEntries fname false entries = some (some dentptr) := by
  obtain ⟨names, front, behind, rfl, passed⟩ := visible
  exact scanEntries_first known passed names

theorem DirEntry.visible_of_head {dentptr : DirEntry} {fname : List UInt8}
    {entries : List DirEntry} (first : entries.head? = some dentptr)
    (names : dentptr.Names fname) : dentptr.Visible fname entries := by
  refine ⟨names, [], entries.tail, List.eq_cons_of_mem_head? first, ?_⟩
  intro other mem
  exact absurd mem List.not_mem_nil

/-! ## What the loader takes them for -/

section Mounted

variable {bs : BootSector} {kind : FatSize} {volume : ℕ → List UInt8} {capacity : ℕ}
  (formatted : bs.Formatted kind volume capacity) (fatbuf : Memory)
include formatted

theorem BootSector.Formatted.rootStart_lt : bs.rootStart kind < 2 ^ 16 := by
  have low := formatted.low
  have small := bs.clusterSize.toNat_lt
  have le : bs.rootStart kind ≤ bs.dataStart kind := Nat.le_add_right _ _
  omega

theorem BootSector.Formatted.tableLength_lt : bs.tableLength kind < 2 ^ 16 := by
  have less := formatted.rootStart_lt
  have once := Nat.le_mul_of_pos_right (bs.tableLength kind) formatted.copies
  have le : bs.tableLength kind * bs.fats.toNat ≤ bs.rootStart kind := Nat.le_add_left _ _
  omega

theorem BootSector.Formatted.fatlength_eq :
    (mount bs kind fatbuf).fatlength.toNat = bs.tableLength kind := by
  have small := formatted.tableLength_lt
  unfold BootSector.tableLength at small ⊢
  rw [mount]
  dsimp only
  by_cases long : kind = .fat32
  · rw [if_pos long] at small
    rw [if_pos long, if_pos long, UInt32.toNat_toUInt16]
    exact Nat.mod_eq_of_lt small
  · rw [if_neg long, if_neg long]

theorem BootSector.Formatted.rootdirSect_eq :
    (mount bs kind fatbuf).rootdirSect.toUInt32.toNat = bs.rootStart kind := by
  have small := formatted.rootStart_lt
  have length := formatted.fatlength_eq fatbuf
  have sum : (mount bs kind fatbuf).rootdirSect =
      bs.reserved + (mount bs kind fatbuf).fatlength * bs.fats.toUInt16 := rfl
  rw [UInt16.toNat_toUInt32, sum, UInt16.toNat_add, UInt16.toNat_mul, length,
    UInt8.toNat_toUInt16, Nat.add_mod_mod]
  exact Nat.mod_eq_of_lt small

theorem BootSector.Formatted.entry_eq (index : ℕ) :
    (mount bs kind fatbuf).entry volume index = bs.entry kind volume index := by
  rw [FsData.entry, FsData.table, formatted.fatlength_eq]
  rfl

theorem BootSector.Formatted.place_eq {clust : UInt32} (valid : ¬ InvalidEntry clust) :
    (mount bs kind fatbuf).place clust = bs.clusterStart kind clust :=
  place_mount_of_low bs kind fatbuf valid formatted.whole formatted.low

theorem BootSector.Formatted.usable {clust : UInt32} (usable : bs.Usable kind capacity clust) :
    (mount bs kind fatbuf).Usable capacity clust where
  valid := usable.valid
  has := by
    rw [FsData.HasEntry, formatted.fatlength_eq]
    exact usable.has
  inside := by
    rw [formatted.place_eq fatbuf usable.valid]
    exact usable.inside

theorem BootSector.Formatted.linked {clust : UInt32} {rest : List UInt32}
    (linked : bs.Linked kind volume capacity clust rest) :
    (mount bs kind fatbuf).Linked volume capacity clust rest := by
  induction rest generalizing clust with
  | nil => trivial
  | cons next rest ih =>
      obtain ⟨entry, usable, linked⟩ := linked
      exact ⟨(formatted.entry_eq fatbuf _).trans entry, formatted.usable fatbuf usable, ih linked⟩

theorem BootSector.Formatted.chainBytes_eq {chain : List UInt32}
    (valid : ∀ clust ∈ chain, ¬ InvalidEntry clust) :
    (mount bs kind fatbuf).chainBytes volume chain = bs.chainBytes kind volume chain := by
  apply List.flatMap_congr
  intro clust mem
  rw [FsData.cluster, formatted.place_eq fatbuf (valid clust mem)]
  rfl

end Mounted

end Rhino.Fat
