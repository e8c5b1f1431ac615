import Mathlib.Data.List.Iterate
import Rhino.Fat.Contents

/-!
# The search in the root directory

`do_fat_read` reads a cluster of the root directory at a time, but it looks only at the
sixteen entries of the first sector.  Where there is a fixed root directory, the next
read begins at the next sector, so that no entry is missed; on FAT32 it begins at the next
cluster.  The result is that of a scan over the entries of the sectors that are visited.
-/

namespace Rhino.Fat

open Rhino.Bytes Rhino.Transition

/-! ## The entries of a sector -/

/-- The entries of a sector. -/
def entriesOf (sector : List UInt8) : List DirEntry :=
  (List.range DIRENTSPERBLOCK).map fun i =>
    DirEntry.decode (slice (DIRENT_SIZE * i) DIRENT_SIZE sector)

/-- An entry that the search passes by. -/
def DirEntry.PassedBy (dentptr : DirEntry) (fname : List UInt8) : Prop :=
  dentptr.attr &&& ATTR_VOLUME ≠ 0 ∨ dentptr.name.headD 0 ≠ 0 ∧ fname ≠ getName dentptr

/-- An entry that the search ends with. -/
structure DirEntry.Names (dentptr : DirEntry) (fname : List UInt8) : Prop where
  visible : dentptr.attr &&& ATTR_VOLUME = 0
  used : dentptr.name.headD 0 ≠ 0
  name : getName dentptr = fname

section Scan

variable {fname : List UInt8} {isdir : Bool}

theorem scanEntries_append (front rest : List DirEntry) :
    scanEntries fname isdir (front ++ rest) =
      (scanEntries fname isdir front).or (scanEntries fname isdir rest) := by
  induction front with
  | nil => rfl
  | cons dentptr front ih =>
      rw [List.cons_append, scanEntries, scanEntries, ih]
      split_ifs <;> rfl

theorem scanEntries_passedBy (known : fname ≠ []) {front : List DirEntry}
    (passed : ∀ dentptr ∈ front, dentptr.PassedBy fname) :
    scanEntries fname isdir front = none := by
  induction front with
  | nil => rfl
  | cons dentptr front ih =>
      have behind := ih fun other mem => passed other (List.mem_cons_of_mem _ mem)
      rw [scanEntries, behind]
      rcases passed dentptr List.mem_cons_self with label | ⟨used, other⟩
      · rw [if_pos label]
      · have passes : fname ≠ getName dentptr ∧ fname ≠ [] := ⟨other, known⟩
        rw [if_neg used, if_pos passes, ite_self]

theorem DirEntry.Names.scanEntries_eq {dentptr : DirEntry} (names : dentptr.Names fname)
    (rest : List DirEntry) : scanEntries fname false (dentptr :: rest) = some (some dentptr) := by
  have same : ¬ (fname ≠ getName dentptr ∧ fname ≠ []) := fun other => other.1 names.name.symm
  rw [scanEntries, if_neg (not_not.mpr names.visible), if_neg names.used, if_neg same,
    if_neg (by simp)]

/-- The first entry with the name is found. -/
theorem scanEntries_first (known : fname ≠ []) {front rest : List DirEntry} {dentptr : DirEntry}
    (passed : ∀ dentptr ∈ front, dentptr.PassedBy fname) (names : dentptr.Names fname) :
    scanEntries fname false (front ++ dentptr :: rest) = some (some dentptr) := by
  rw [scanEntries_append, scanEntries_passedBy known passed, names.scanEntries_eq]
  rfl

end Scan

/-- The entries that are looked at are those of the first sector that was read. -/
theorem blockEntries_storeAt {volume : ℕ → List UInt8}
    (full : ∀ n, (volume n).length = SECTOR_SIZE) (block : Memory) (start : ℕ) {count : ℕ}
    (positive : 0 < count) :
    blockEntries (storeAt block 0 (sectors volume start count)) = entriesOf (volume start) := by
  obtain ⟨rest, rfl⟩ := Nat.exists_eq_add_of_lt positive
  rw [blockEntries, entriesOf]
  apply List.map_congr_left
  intro i mem
  have bound : DIRENT_SIZE * i + DIRENT_SIZE ≤ SECTOR_SIZE := by
    have lt := List.mem_range.mp mem
    change i < 16 at lt
    change 32 * i + 32 ≤ 512
    omega
  have first : sectors volume start (0 + rest + 1) =
      volume start ++ sectors volume (start + 1) rest := by
    rw [sectors, Nat.zero_add, List.range'_succ, List.flatMap_cons]
    rfl
  have length := full start
  have window := slice_loadAt (storeAt block 0 (sectors volume start (0 + rest + 1)))
    (Nat.le_add_right_of_le bound : _ ≤ SECTOR_SIZE + (sectors volume (start + 1) rest).length) 0
  rw [← length, ← List.length_append, ← first, loadAt_storeAt, first, Nat.zero_add] at window
  rw [first, ← window, slice_append_left (by rw [length]; exact bound)]

/-! ## The walk -/

/-- The sector and the cluster that the search turns to. -/
def FsData.nextBlock (fs : FsData) (volume : ℕ → List UInt8) (block : UInt32 × UInt32) :
    UInt32 × UInt32 :=
  if fs.fatsize ≠ .fat32 then (block.1 + 1, block.2)
  else
    let curclus := UInt32.ofNat (fs.entry volume block.2.toNat)
    (fs.sectorOf curclus, curclus)

/-- A block that can be read; on FAT32 the table has to lead on. -/
structure FsData.Visitable (fs : FsData) (capacity : ℕ) (block : UInt32 × UInt32) : Prop where
  inside : block.1.toNat + fs.clustSize.toNat ≤ capacity
  has : fs.fatsize = .fat32 → fs.HasEntry block.2.toNat

/-- The state of the search at a block. -/
structure Search.At (s : Search) (fs : FsData) (volume : ℕ → List UInt8)
    (block : UInt32 × UInt32) : Prop where
  layout : ∃ fatbuf fatbufnum, s.fs = fs.withCache fatbuf fatbufnum
  coherent : s.fs.Coherent volume
  cursect : s.cursect = block.1
  curclus : s.curclus = block.2

section Walk

variable {disk : Disk} {volume : ℕ → List UInt8} {capacity : ℕ} {fs : FsData} {s : Search}
  {block : UInt32 × UInt32} {fname : List UInt8} {isdir : Bool}

/-- A turn of the search looks at the entries of one sector. -/
theorem searchTurn_eq (standing : s.At fs volume block) (mounted : fs.On disk volume capacity)
    (visitable : fs.Visitable capacity block) (positive : 0 < fs.clustSize.toNat) :
    (∃ found, scanEntries fname isdir (entriesOf (volume block.1.toNat)) = some found ∧
      searchTurn disk fname isdir s = .error (found, s.fs)) ∨
    scanEntries fname isdir (entriesOf (volume block.1.toNat)) = none ∧
      ∃ next, searchTurn disk fname isdir s = .ok next ∧
        next.At fs volume (fs.nextBlock volume block) := by
  obtain ⟨fatbuf, fatbufnum, layout⟩ := standing.layout
  have coherent := standing.coherent
  have short := fs.clustSize.toNat_lt
  have count : fs.clustSize.toUInt32.toNat = fs.clustSize.toNat := UInt16.toNat_toUInt32 _
  have read : diskRead disk s.cursect s.fs.clustSize.toUInt32 s.block 0 =
      (1, storeAt s.block 0 (sectors volume block.1.toNat fs.clustSize.toNat)) := by
    have whole := mounted.serves.read block.1 fs.clustSize.toUInt32 s.block 0
      (by rw [count]; exact visitable.inside) (by omega)
    rw [count] at whole
    rw [standing.cursect, layout]
    exact whole
  have entries := blockEntries_storeAt mounted.serves.full s.block block.1.toNat positive
  have fine : ¬ (1 : ℤ) < 0 := by decide
  rw [searchTurn, read]
  dsimp only
  rw [if_neg fine, entries]
  cases scanned : scanEntries fname isdir (entriesOf (volume block.1.toNat)) with
  | some found => exact Or.inl ⟨found, rfl, rfl⟩
  | none =>
      have same : s.fs.fatsize = fs.fatsize := by rw [layout]; rfl
      refine Or.inr ⟨rfl, ?_⟩
      dsimp only
      rw [FsData.nextBlock, same]
      by_cases kind : fs.fatsize = .fat32
      · rw [layout] at coherent
        obtain ⟨fatbuf', fatbufnum', answer, coherent'⟩ :=
          getFatent_eq mounted.serves coherent mounted.room (visitable.has kind)
        rw [if_neg (not_not.mpr kind), if_neg (not_not.mpr kind), layout, standing.curclus, answer]
        exact ⟨_, rfl, ⟨fatbuf', fatbufnum', rfl⟩, coherent', UInt32.add_comm _ _, rfl⟩
      · rw [if_pos kind, if_pos kind]
        refine ⟨_, rfl, ⟨fatbuf, fatbufnum, layout⟩, coherent, ?_, standing.curclus⟩
        exact congrArg (· + 1) standing.cursect

/-- The search is a scan over the entries of the sectors that are visited. -/
theorem search_eq (mounted : fs.On disk volume capacity) (positive : 0 < fs.clustSize.toNat)
    {count : ℕ} (standing : s.At fs volume block)
    (visitable : ∀ place ∈ List.iterate (fs.nextBlock volume) block count,
      fs.Visitable capacity place) {found : Option DirEntry}
    (scanned : scanEntries fname isdir ((List.iterate (fs.nextBlock volume) block count).flatMap
      fun place => entriesOf (volume place.1.toNat)) = some found) :
    ∃ fatbuf fatbufnum, (fs.withCache fatbuf fatbufnum).Coherent volume ∧
      resultWithin (searchTurn disk fname isdir) s count =
        some (found, fs.withCache fatbuf fatbufnum) := by
  induction count generalizing s block with
  | zero => exact absurd scanned (by simp [scanEntries])
  | succ count ih =>
      rw [List.iterate, List.flatMap_cons, scanEntries_append] at scanned
      rw [List.iterate] at visitable
      rcases searchTurn_eq standing mounted (visitable block List.mem_cons_self) positive with
        ⟨first, here, taken⟩ | ⟨nothing, next, taken, standing'⟩
      · rw [here, Option.some_or] at scanned
        obtain rfl := Option.some.inj scanned
        obtain ⟨fatbuf, fatbufnum, layout⟩ := standing.layout
        have coherent := standing.coherent
        rw [layout] at coherent taken
        exact ⟨fatbuf, fatbufnum, coherent, resultWithin_of_error taken count⟩
      · rw [nothing, Option.none_or] at scanned
        rw [resultWithin_of_ok taken]
        exact ih standing' (fun place mem => visitable place (List.mem_cons_of_mem _ mem)) scanned

end Walk

end Rhino.Fat
