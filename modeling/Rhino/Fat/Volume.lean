import Rhino.Fat.Format

/-!
# A file of a volume

The whole way of `do_fat_read` from a name to the contents of a file: the boot sector, the
search in the root directory, and the chain of clusters.  On a volume that the loader takes for
what it is, the entry is the one in the root directory of FAT, and the bytes are the ones that
FAT has in the clusters of the file.
-/

namespace Rhino.Fat

open Rhino.Bytes Rhino.Transition

/-! ## From the name to the contents -/

/-- The sectors of the root directory in the order of the search. -/
def FsData.rootBlocks (fs : FsData) (volume : ℕ → List UInt8) (rootCluster : UInt32)
    (count : ℕ) : List (UInt32 × UInt32) :=
  List.iterate (fs.nextBlock volume) (fs.rootdirSect.toUInt32, rootCluster) count

/-- The entries of these sectors. -/
def FsData.rootEntries (fs : FsData) (volume : ℕ → List UInt8) (rootCluster : UInt32)
    (count : ℕ) : List DirEntry :=
  (fs.rootBlocks volume rootCluster count).flatMap fun block => entriesOf (volume block.1.toNat)

/-- A volume with a boot sector, whose root directory can be read as far as it is searched. -/
structure Volume (volume : ℕ → List UInt8) (capacity : ℕ) (bs : BootSector) (kind : FatSize)
    (fs : FsData) (blocks : ℕ) : Prop where
  boot : identify (volume 0) = some (bs, kind)
  mounted : mount bs kind fs.fatbuf = fs
  clusters : 0 < fs.clustSize.toNat
  table : fs.fatSect.toNat + fs.fatlength.toNat + FATBUFBLOCKS.toNat ≤ capacity
  root : ∀ block ∈ fs.rootBlocks volume bs.rootCluster blocks, fs.Visitable capacity block

theorem FsData.Linked.withCache {fs : FsData} {volume : ℕ → List UInt8} {capacity : ℕ}
    (fatbuf : Memory) (fatbufnum : UInt32) {clust : UInt32} {rest : List UInt32}
    (linked : fs.Linked volume capacity clust rest) :
    (fs.withCache fatbuf fatbufnum).Linked volume capacity clust rest := by
  induction rest generalizing clust with
  | nil => trivial
  | cons next rest ih =>
      obtain ⟨entry, usable, linked⟩ := linked
      exact ⟨entry, { usable with }, ih linked⟩

/-! ## The root directory of FAT -/

section Root

variable {volume : ℕ → List UInt8} {capacity : ℕ}

/-- Where the root directory is fixed, its sectors are visited one by one. -/
theorem FsData.iterate_nextBlock_fixed {fs : FsData} (kind : fs.fatsize ≠ .fat32) {count : ℕ}
    {block : UInt32 × UInt32} (inside : block.1.toNat + count < 2 ^ 32) :
    (List.iterate (fs.nextBlock volume) block count).map (fun place => place.1.toNat) =
      List.range' block.1.toNat count := by
  induction count generalizing block with
  | zero => rfl
  | succ count ih =>
      have next : (fs.nextBlock volume block).1.toNat = block.1.toNat + 1 := by
        rw [FsData.nextBlock, if_pos kind, UInt32.toNat_add]
        exact Nat.mod_eq_of_lt (by change _ + 1 < _; omega)
      rw [List.iterate, List.map_cons, ih (by rw [next]; omega), next, List.range'_succ]

/-- On FAT32 the search turns to the clusters that the table leads to. -/
theorem FsData.Linked.iterate_nextBlock {fs : FsData} (kind : fs.fatsize = .fat32)
    {clust : UInt32} {rest : List UInt32} (linked : fs.Linked volume capacity clust rest) :
    List.iterate (fs.nextBlock volume) (fs.sectorOf clust, clust) (rest.length + 1) =
      (clust :: rest).map fun other => (fs.sectorOf other, other) := by
  induction rest generalizing clust with
  | nil => rfl
  | cons next rest ih =>
      obtain ⟨entry, -, linked⟩ := linked
      have turned : fs.nextBlock volume (fs.sectorOf clust, clust) =
          (fs.sectorOf next, next) := by
        rw [FsData.nextBlock, if_neg (not_not.mpr kind)]
        dsimp only
        rw [entry, UInt32.ofNat_toNat]
      rw [List.length_cons, List.iterate, turned, ih linked]
      rfl

section Formatted

variable {bs : BootSector} {kind : FatSize} {rest : List UInt32}
  (formatted : bs.Formatted kind volume capacity) (fatbuf : Memory)
include formatted

theorem BootSector.Formatted.rootBlocks_fixed (short : kind ≠ .fat32) :
    ((mount bs kind fatbuf).rootBlocks volume bs.rootCluster (bs.rootLength kind)).map
        (fun block => block.1.toNat) =
      List.range' (bs.rootStart kind) (bs.rootLength kind) := by
  have low := formatted.low
  have small := bs.clusterSize.toNat_lt
  have start := formatted.rootdirSect_eq fatbuf
  unfold BootSector.dataStart at low
  rw [← start]
  apply FsData.iterate_nextBlock_fixed short
  dsimp only
  omega

theorem BootSector.Formatted.rootBlocks_fat32 (long : kind = .fat32)
    (root : bs.RootChain kind volume capacity rest) :
    (mount bs kind fatbuf).rootBlocks volume bs.rootCluster (rest.length + 1) =
      (bs.rootCluster :: rest).map fun clust => ((mount bs kind fatbuf).sectorOf clust, clust) := by
  obtain ⟨two, usable, linked⟩ := root long
  have start := formatted.rootdirSect_eq fatbuf
  have place := formatted.place_eq fatbuf usable.valid
  have none : bs.rootLength kind = 0 := if_pos long
  have same : (mount bs kind fatbuf).rootdirSect.toUInt32 =
      (mount bs kind fatbuf).sectorOf bs.rootCluster := by
    apply UInt32.toNat_inj.mp
    rw [start]
    change _ = (mount bs kind fatbuf).place bs.rootCluster
    rw [place, BootSector.clusterStart, BootSector.dataStart, none, two]
    change _ = _ + 0 + 0 * _
    rw [Nat.zero_mul, Nat.add_zero]
  rw [FsData.rootBlocks, same]
  exact (formatted.linked fatbuf linked).iterate_nextBlock long

/-- The sectors that are visited are those of the root directory. -/
theorem BootSector.Formatted.rootBlocks_eq (root : bs.RootChain kind volume capacity rest) :
    ((mount bs kind fatbuf).rootBlocks volume bs.rootCluster
        (bs.rootSectors kind rest).length).map (fun block => block.1.toNat) =
      bs.rootSectors kind rest := by
  by_cases long : kind = .fat32
  · obtain ⟨-, first, linked⟩ := root long
    rw [BootSector.rootSectors, if_pos long, List.length_map, List.length_cons,
      formatted.rootBlocks_fat32 fatbuf long root, List.map_map]
    apply List.map_congr_left
    intro clust mem
    exact formatted.place_eq fatbuf (linked.usable first clust mem).valid
  · rw [BootSector.rootSectors, if_neg long, List.length_range']
    exact formatted.rootBlocks_fixed fatbuf long

theorem BootSector.Formatted.visitable (root : bs.RootChain kind volume capacity rest)
    {block : UInt32 × UInt32} (mem : block ∈ (mount bs kind fatbuf).rootBlocks volume
      bs.rootCluster (bs.rootSectors kind rest).length) :
    (mount bs kind fatbuf).Visitable capacity block := by
  by_cases long : kind = .fat32
  · obtain ⟨-, first, linked⟩ := root long
    rw [BootSector.rootSectors, if_pos long, List.length_map, List.length_cons,
      formatted.rootBlocks_fat32 fatbuf long root] at mem
    obtain ⟨clust, listed, rfl⟩ := List.mem_map.mp mem
    have usable := formatted.usable fatbuf (linked.usable first clust listed)
    exact ⟨usable.inside, fun _ => usable.has⟩
  · refine ⟨?_, fun other => absurd other long⟩
    have data := formatted.data
    have place := List.mem_map_of_mem (f := fun block : UInt32 × UInt32 => block.1.toNat) mem
    rw [formatted.rootBlocks_eq fatbuf root, BootSector.rootSectors, if_neg long,
      List.mem_range'_1] at place
    unfold BootSector.dataStart at data
    change block.1.toNat + bs.clusterSize.toNat ≤ capacity
    omega

theorem BootSector.Formatted.readable (root : bs.RootChain kind volume capacity rest) :
    Volume volume capacity bs kind (mount bs kind fatbuf) (bs.rootSectors kind rest).length where
  boot := formatted.boot
  mounted := rfl
  clusters := formatted.clusters
  table := by
    rw [formatted.fatlength_eq]
    exact formatted.table
  root _ mem := formatted.visitable fatbuf root mem

theorem BootSector.Formatted.rootEntries_eq (root : bs.RootChain kind volume capacity rest) :
    (mount bs kind fatbuf).rootEntries volume bs.rootCluster (bs.rootSectors kind rest).length =
      bs.rootEntries kind volume rest := by
  have places := formatted.rootBlocks_eq fatbuf root
  rw [FsData.rootEntries, BootSector.rootEntries, ← places, List.flatMap_map, places]

end Formatted

end Root

section Read

variable {disk : Disk} {volume : ℕ → List UInt8} {capacity : ℕ} {bs : BootSector}
  {kind : FatSize} {fs : FsData} {blocks : ℕ}

theorem readBootsectandvi_eq (serves : disk.Serves volume capacity) (some : 0 < capacity) :
    readBootsectandvi disk = identify (volume 0) := by
  have read := serves.read 0 1 disk.stack 0 some (by decide)
  have first : sectors volume (0 : UInt32).toNat (1 : UInt32).toNat = volume 0 :=
    List.append_nil _
  have held := loadAt_storeAt disk.stack 0 (volume 0)
  have fine : ¬ (1 : ℤ) < 0 := by decide
  rw [serves.full] at held
  rw [first] at read
  rw [readBootsectandvi, read]
  dsimp only
  rw [if_neg fine]
  exact congrArg identify held

/-- The search of `file_fat_read` for a name without a path. -/
theorem fileFatRead_search (serves : disk.Serves volume capacity) {buffers : Buffers}
    (formatted : Volume volume capacity bs kind fs blocks) (fatbuf : fs.fatbuf = buffers.fatbuf)
    {filename fname : List UInt8} (name : downcase (filename.dropWhile isDirDelim) = fname)
    (known : fname ≠ []) (plain : fname.any isDirDelim = false) {found : Option DirEntry}
    (scanned : scanEntries fname false (fs.rootEntries volume bs.rootCluster blocks) = some found)
    (memory : Memory) (buffer : ℕ) (maxsize : UInt32) {turns : ℕ} (time : blocks ≤ turns) :
    ∃ next : FsData, (∃ fatbuf fatbufnum, next = fs.withCache fatbuf fatbufnum) ∧
      next.Coherent volume ∧
      fileFatRead disk buffers filename memory buffer maxsize turns =
        found.elim (some (-1, memory)) fun dentptr =>
          (getContents disk next dentptr memory buffer maxsize turns).map
            fun result => (result.1, result.2.2) := by
  have same : mount bs kind buffers.fatbuf = fs := by rw [← fatbuf, formatted.mounted]
  have room := formatted.table
  have front : fname.takeWhile (fun c => !isDirDelim c) = fname := by
    rw [List.takeWhile_eq_self_iff]
    intro c mem
    rw [List.any_eq_false] at plain
    simpa using plain c mem
  have standing : Search.At ⟨fs, buffers.block, fs.rootdirSect.toUInt32, bs.rootCluster⟩ fs volume
      (fs.rootdirSect.toUInt32, bs.rootCluster) :=
    { layout := ⟨fs.fatbuf, fs.fatbufnum, rfl⟩
      coherent := Or.inl (by rw [← same]; rfl)
      cursect := rfl
      curclus := rfl }
  obtain ⟨fatbuf', fatbufnum', coherent, searched⟩ :=
    search_eq ⟨serves, room⟩ formatted.clusters standing formatted.root scanned
  refine ⟨_, ⟨fatbuf', fatbufnum', rfl⟩, coherent, ?_⟩
  rw [fileFatRead, readBootsectandvi_eq serves (Nat.lt_of_lt_of_le (by decide)
    ((Nat.le_add_left FATBUFBLOCKS.toNat _).trans room)), formatted.boot]
  dsimp only
  rw [same, name, if_neg known, plain, front, resultWithin_mono time searched]
  cases found with
  | none => rfl
  | some dentptr => rfl

section File

variable {dentptr : DirEntry} {clust : UInt32} {rest : List UInt32}

theorem BootSector.Chain.startOf_eq (chain : bs.Chain kind volume capacity dentptr clust rest)
    (fatbuf : Memory) : (mount bs kind fatbuf).startOf dentptr = clust := by
  have low := dentptr.start.toNat_lt
  have high := dentptr.starthi.toNat_lt
  have first := chain.first
  apply UInt32.toNat_inj.mp
  rw [first, DirEntry.firstCluster]
  cases kind with
  | fat12 => exact UInt16.toNat_toUInt32 _
  | fat16 => exact UInt16.toNat_toUInt32 _
  | fat32 =>
      change (dentptr.start.toUInt32 + (dentptr.starthi.toUInt32 <<< 16)).toNat = _
      rw [if_pos rfl, UInt32.toNat_add, UInt32.toNat_shiftLeft, UInt16.toNat_toUInt32,
        UInt16.toNat_toUInt32, Nat.shiftLeft_eq]
      change (_ + _ * 2 ^ 16 % 2 ^ 32) % 2 ^ 32 = _
      omega

/-- What a file with a chain is for `get_contents`, whatever the search has left in the cache. -/
theorem BootSector.Chain.mounted (chain : bs.Chain kind volume capacity dentptr clust rest)
    (formatted : bs.Formatted kind volume capacity) (fatbuf cache : Memory) (number : UInt32) :
    ((mount bs kind fatbuf).withCache cache number).startOf dentptr = clust ∧
      ((mount bs kind fatbuf).withCache cache number).Usable capacity clust ∧
      ((mount bs kind fatbuf).withCache cache number).Linked volume capacity clust rest ∧
      ((mount bs kind fatbuf).withCache cache number).chainBytes volume (clust :: rest) =
        bs.chainBytes kind volume (clust :: rest) := by
  have usable := chain.linked.usable chain.usable
  have first := formatted.usable fatbuf chain.usable
  refine ⟨chain.startOf_eq fatbuf, { first with }, ?_, ?_⟩
  · exact (formatted.linked fatbuf chain.linked).withCache cache number
  · exact formatted.chainBytes_eq fatbuf fun other mem => (usable other mem).valid

theorem readSize_whole (size : UInt32) : readSize size 0 = size :=
  if_neg (by simp)

section Contents

variable (formatted : bs.Formatted kind volume capacity) (serves : disk.Serves volume capacity)
  {fatbuf cache : Memory} {number : UInt32}
  (coherent : ((mount bs kind fatbuf).withCache cache number).Coherent volume)
  (memory : Memory) (buffer : ℕ) {turns : ℕ} (time : rest.length < turns)
include formatted serves coherent time

/-- A file is read as it is. -/
theorem BootSector.File.getContents_eq
    (file : bs.File kind volume capacity dentptr clust rest) :
    ∃ next, getContents disk ((mount bs kind fatbuf).withCache cache number) dentptr memory
        buffer 0 turns =
      some ((dentptr.size.toNat : ℤ), next,
        storeAt memory buffer (bs.fileBytes kind volume dentptr clust rest)) := by
  obtain ⟨start, usable, linked, bytes⟩ := file.chain.mounted formatted fatbuf cache number
  have room := formatted.table
  rw [← formatted.fatlength_eq fatbuf] at room
  have whole := readSize_whole dentptr.size
  rw [BootSector.fileBytes, ← bytes]
  rw [← start] at usable linked ⊢
  obtain ⟨next, read⟩ := @Fat.getContents_eq disk volume capacity
    ((mount bs kind fatbuf).withCache cache number) dentptr rest memory buffer 0 ⟨serves, room⟩
    coherent usable linked (whole.symm ▸ file.small) (whole.symm ▸ file.needed)
    (whole.symm ▸ file.enough) turns time
  rw [whole] at read
  exact ⟨next, read⟩

/-- A file whose chain ends too early is read as far as the chain goes, and the number of these
bytes is returned. -/
theorem BootSector.ShortFile.getContents_eq
    (file : bs.ShortFile kind volume capacity dentptr clust rest) :
    ∃ next, getContents disk ((mount bs kind fatbuf).withCache cache number) dentptr memory
        buffer 0 turns =
      some ((((rest.length + 1) * bs.clusterBytes : ℕ) : ℤ), next,
        storeAt memory buffer (bs.chainBytes kind volume (clust :: rest))) := by
  obtain ⟨start, usable, linked, bytes⟩ := file.chain.mounted formatted fatbuf cache number
  have room := formatted.table
  rw [← formatted.fatlength_eq fatbuf] at room
  have whole := readSize_whole dentptr.size
  have ends := file.ends
  rw [← formatted.entry_eq fatbuf] at ends
  rw [← bytes]
  rw [← start] at usable linked ends ⊢
  exact @getContents_short disk volume capacity
    ((mount bs kind fatbuf).withCache cache number) dentptr rest memory buffer 0 ⟨serves, room⟩
    coherent usable linked (whole.symm ▸ file.small) (whole.symm ▸ file.short) ends turns time

end Contents

/-- A name that is visible in the root directory leads to `get_contents`. -/
theorem fileFatRead_visible (formatted : bs.Formatted kind volume capacity)
    (serves : disk.Serves volume capacity) {directory : List UInt32}
    (root : bs.RootChain kind volume capacity directory) {filename fname : List UInt8}
    (name : downcase (filename.dropWhile isDirDelim) = fname) (known : fname ≠ [])
    (plain : fname.any isDirDelim = false)
    (visible : dentptr.Visible fname (bs.rootEntries kind volume directory))
    (buffers : Buffers) (memory : Memory) (buffer : ℕ) (maxsize : UInt32) {turns : ℕ}
    (time : (bs.rootSectors kind directory).length ≤ turns) :
    ∃ cache number,
      ((mount bs kind buffers.fatbuf).withCache cache number).Coherent volume ∧
      fileFatRead disk buffers filename memory buffer maxsize turns =
        (getContents disk ((mount bs kind buffers.fatbuf).withCache cache number) dentptr memory
          buffer maxsize turns).map fun result => (result.1, result.2.2) := by
  have scanned := visible.scanEntries_eq known
  rw [← formatted.rootEntries_eq buffers.fatbuf root] at scanned
  obtain ⟨next, ⟨cache, number, rfl⟩, coherent, searched⟩ :=
    fileFatRead_search serves (formatted.readable buffers.fatbuf root) rfl name known plain scanned
      memory buffer maxsize time
  exact ⟨cache, number, coherent, searched⟩

end File

end Read

end Rhino.Fat
