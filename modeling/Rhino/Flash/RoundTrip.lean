import Rhino.Flash.SkipBad

/-!
# From one boot loader to the other

The second boot loader writes its own image into the partition that the first one loads it
from.  Both leave out the bad blocks, and both find the pages of the others in the same order,
so that the image comes back although some bits have flipped in the meantime.
-/

namespace Rhino.Flash

open Rhino.Bytes Rhino.Nand Rhino.Bits UBoot XLoader

/-! ## A page that has been programmed -/

theorem words_of_loaded {cells : Cells} {page : ℕ} {words : List UInt16}
    (holds : ∀ k, cells page k = loaded (fun _ => 0xFFFF) 0 words k) {column count : ℕ}
    (inside : column + count ≤ words.length) :
    cells.words page column count = (words.drop column).take count := by
  apply List.ext_getElem
  · rw [Cells.words_length, List.length_take, List.length_drop]
    omega
  · intro k lt _
    rw [Cells.words_length] at lt
    simp only [Cells.words, List.getElem_map, List.getElem_range, List.getElem_take,
      List.getElem_drop, holds, loaded, Nat.zero_le, if_true, Nat.sub_zero]
    rw [List.getElem?_eq_getElem (by omega), Option.getD_some]

theorem spareWith_length {first : ℕ} {codes : List UInt8} (room : first + codes.length ≤ oobsize) :
    (spareWith first codes).length = oobsize := by
  simp only [spareWith, List.length_append, List.length_replicate]
  omega

/-- Its data and its spare area are what was written. -/
theorem pageData_programmed {cells : Cells} {first page : ℕ} {buf : List UInt8}
    (holds : ∀ k, cells page k = pageContent first buf k) (full : buf.length = writesize)
    (room : first + 12 ≤ oobsize) :
    pageData cells page = buf ∧ pageSpare cells page = spareWith first (pageCodes buf) := by
  have spare : (spareWith first (pageCodes buf)).length = 64 :=
    spareWith_length (by rwa [pageCodes_length])
  have size : (pageImage first buf).length = 2 * 1056 := by
    rw [pageImage, List.length_append, full, spare]
    rfl
  have words := wordsOf_length size
  have bytes := bytesOf_wordsOf size
  constructor
  · rw [pageData, words_of_loaded holds (by rw [words]; decide), ← slice_bytesOf, bytes, pageImage,
      slice_append_left (by rw [full, writesize])]
    exact slice_whole full
  · rw [pageSpare, words_of_loaded holds (by rw [words]), ← slice_bytesOf, bytes, pageImage,
      slice_append_right (by rw [full, writesize]), full]
    exact slice_whole spare

/-- The places of the codes in the two boot loaders agree. -/
theorem spareWith_eccPos (byte0 byte1 byte2 : ℕ → UInt8) {i : ℕ} (lt : i < ECC_STEPS) :
    let codes := (List.range ECC_STEPS).flatMap fun i => #v[byte0 i, byte1 i, byte2 i].toList
    #v[(spareWith 2 codes).getD (eccPos (3 * i)) 0, (spareWith 2 codes).getD (eccPos (3 * i + 1)) 0,
      (spareWith 2 codes).getD (eccPos (3 * i + 2)) 0] = #v[byte0 i, byte1 i, byte2 i] := by
  unfold ECC_STEPS at lt
  interval_cases i <;> rfl

/-- The code of each sector is where the first boot loader looks for it. -/
theorem pageCode_programmed {cells : Cells} {page : ℕ} {buf : List UInt8}
    (spare : pageSpare cells page = spareWith 2 (pageCodes buf)) {i : ℕ} (lt : i < ECC_STEPS) :
    pageCode cells page i = packEcc (gpmcResult (sectorAt buf i)) := by
  rw [pageCode, spare]
  exact spareWith_eccPos (fun i => (packEcc (gpmcResult (sectorAt buf i)))[0])
    (fun i => (packEcc (gpmcResult (sectorAt buf i)))[1])
    (fun i => (packEcc (gpmcResult (sectorAt buf i)))[2]) lt

/-! ## What may happen to it -/

/-- A sector and its code after at most one bit of them has flipped. -/
inductive AtMostOneFlip (dat : Sector) (ecc : EccBytes) : Sector → EccBytes → Prop
  | unchanged : AtMostOneFlip dat ecc dat ecc
  | data (addr : Fin 4096) : AtMostOneFlip dat ecc (dat.flip addr) ecc
  | code (place : Fin 24) : AtMostOneFlip dat ecc dat (ecc.flip place)

/-- In some pages at most one bit of each sector and its code has flipped; all other pages and
the markers of the blocks are as they were. -/
structure Aged (before after : Cells) (pages : List ℕ) : Prop where
  sectors : ∀ page ∈ pages, ∀ i < ECC_STEPS,
    AtMostOneFlip (sectorAt (pageData before page) i) (pageCode before page i)
      (sectorAt (pageData after page) i) (pageCode after page i)
  others : ∀ page, page ∉ pages → after page = before page
  markers : ∀ block, marker after block = marker before block

theorem Aged.refl (cells : Cells) (pages : List ℕ) : Aged cells cells pages :=
  ⟨fun _ _ _ _ => .unchanged, fun _ _ => rfl, fun _ => rfl⟩

/-- The sector is restored. -/
theorem sectorBack_of_atMostOneFlip {cells : Cells} {page i : ℕ} {dat : Sector}
    (aged : AtMostOneFlip dat (packEcc (gpmcResult dat)) (sectorAt (pageData cells page) i)
      (pageCode cells page i)) :
    (sectorBack cells page i).1 ≠ -1 ∧ (sectorBack cells page i).2 = dat := by
  unfold sectorBack
  generalize sectorAt (pageData cells page) i = read at aged
  generalize pageCode cells page i = code at aged
  cases aged with
  | unchanged =>
      simp [omapCorrectDataHwEcc]
  | data addr =>
      rw [correct_flip (reports_gpmcResult dat) (reports_gpmcResult _)]
      simp
  | code place =>
      rw [correct_code_flip place (reports_gpmcResult dat) (reports_gpmcResult dat)]
      simp

theorem sectorOf_toList {bytes : List UInt8} (full : bytes.length = 512) :
    (sectorOf bytes).toList = bytes := by
  apply List.ext_getElem
  · rw [Vector.length_toList, full]
  · intro k lt inside
    simp only [sectorOf, Vector.getElem_toList, Vector.getElem_ofFn, List.getD,
      List.getElem?_eq_getElem inside, Option.getD_some]

/-- The sectors of a page make up the page. -/
theorem sectors_flatMap {buf : List UInt8} (full : buf.length = writesize) :
    (List.range ECC_STEPS).flatMap (fun i => (sectorAt buf i).toList) = buf := by
  have whole := flatMap_slice 512 ECC_STEPS buf
  rw [slice_whole (show buf.length = 512 * ECC_STEPS from full)] at whole
  refine Eq.trans (List.flatMap_congr ?_) whole
  intro i mem
  apply sectorOf_toList
  have lt := List.mem_range.mp mem
  rw [slice_length, full]
  simp only [ECC_STEPS, writesize] at lt ⊢
  omega

theorem pageBack_of_sectors {cells : Cells} {page : ℕ} {buf : List UInt8}
    (full : buf.length = writesize)
    (restored : ∀ i < ECC_STEPS, (sectorBack cells page i).1 ≠ -1 ∧
      (sectorBack cells page i).2 = sectorAt buf i) :
    pageBack cells page = some buf := by
  have passed : ¬ ∃ i < ECC_STEPS, (sectorBack cells page i).1 = -1 :=
    fun ⟨i, lt, failed⟩ => (restored i lt).1 failed
  rw [pageBack, if_neg passed]
  refine congrArg some (Eq.trans (List.flatMap_congr ?_) (sectors_flatMap full))
  intro i mem
  rw [(restored i (List.mem_range.mp mem)).2]

/-! ## A page that has only been erased -/

theorem bytesOf_words_blank {cells : Cells} {page column count : ℕ}
    (blank : ∀ k < count, cells page (column + k) = 0xFFFF) :
    bytesOf (cells.words page column count) = List.replicate (2 * count) 0xff := by
  have all : cells.words page column count = List.replicate count 0xFFFF := by
    rw [Cells.words, List.map_congr_left fun k mem => blank k (List.mem_range.mp mem),
      List.map_const', List.length_range]
  rw [all]
  clear all blank
  induction count with
  | zero => rfl
  | succ count ih =>
      rw [List.replicate_succ, bytesOf_cons, ih]
      rfl

theorem blankPage {cells : Cells} {page : ℕ} (blank : ∀ k, cells page k = 0xFFFF) :
    pageData cells page = List.replicate writesize 0xff ∧
      pageSpare cells page = List.replicate oobsize 0xff :=
  ⟨bytesOf_words_blank fun _ _ => blank _, bytesOf_words_blank fun _ _ => blank _⟩

theorem blankSector_bit {i addr : ℕ} (lt : i < ECC_STEPS) (inside : addr < 4096) :
    (sectorAt (List.replicate writesize 0xff) i).bit addr = true := by
  have byte : (sectorAt (List.replicate writesize 0xff) i)[addr / 8]? = some 0xff := by
    rw [Vector.getElem?_eq_getElem (by omega)]
    simp only [sectorAt, sectorOf, Vector.getElem_ofFn, slice, List.drop_replicate,
      List.take_replicate, List.getD, List.getElem?_replicate]
    rw [if_pos, Option.getD_some]
    simp only [ECC_STEPS, writesize] at lt ⊢
    omega
  rw [Sector.bit, byte, Option.getD_some]
  have small : addr % 8 < 8 := Nat.mod_lt _ (by decide)
  generalize addr % 8 = place at small
  interval_cases place <;> rfl

/-- All parities of a blank sector are clear. -/
theorem genTrueEcc_blank {dat : Sector} (blank : ∀ addr < 4096, dat.bit addr = true) :
    genTrueEcc (packEcc (gpmcResult dat)) = 0 := by
  apply ((isPairs_of_reports (reports_gpmcResult dat)).eq_iff isPairs_zero).mpr
  intro k lt
  constructor
  · refine Eq.trans (parity_congr ?_) (evenParity_true 10 lt)
    intro addr mem
    exact blank addr (List.mem_range.mp (List.mem_filter.mp mem).1)
  · refine Eq.trans (parity_congr ?_) (oddParity_true 10 lt)
    intro addr mem
    exact blank addr (List.mem_range.mp (List.mem_filter.mp mem).1)

theorem sectorBack_blank {cells : Cells} {page i : ℕ} (blank : ∀ k, cells page k = 0xFFFF)
    (lt : i < ECC_STEPS) :
    sectorBack cells page i = (0, sectorAt (List.replicate writesize 0xff) i) := by
  obtain ⟨data, spare⟩ := blankPage blank
  have code : pageCode cells page i = #v[0xff, 0xff, 0xff] := by
    rw [pageCode, spare]
    unfold ECC_STEPS at lt
    interval_cases i <;> rfl
  have bits : ∀ addr < 4096, (sectorAt (List.replicate writesize 0xff) i).bit addr = true :=
    fun addr inside => blankSector_bit lt inside
  have stored : genTrueEcc #v[0xff, 0xff, 0xff] = 0x0FFF0FFF := by decide
  rw [sectorBack, data, code, omapCorrectDataHwEcc, genTrueEcc_blank bits, stored]
  rfl

theorem pageBack_blank {cells : Cells} {page : ℕ} (blank : ∀ k, cells page k = 0xFFFF) :
    pageBack cells page = some (List.replicate writesize 0xff) := by
  apply pageBack_of_sectors List.length_replicate
  intro i lt
  rw [sectorBack_blank blank lt]
  simp

/-! ## The pages of the partition -/

/-- The pages of some blocks that are not left out, block by block. -/
theorem filter_range'_blocks (left : ℕ → Prop) [DecidablePred left] (start count : ℕ) :
    (List.range' (BLOCK_PAGES * start) (BLOCK_PAGES * count)).filter
        (fun page => ¬ left (page / BLOCK_PAGES)) =
      (List.range' start count).flatMap fun block =>
        if left block then [] else (List.range MAX_NUM_PAGES).map (BLOCK_PAGES * block + ·) := by
  induction count generalizing start with
  | zero => rfl
  | succ count ih =>
      have pages : List.range' (BLOCK_PAGES * start) (BLOCK_PAGES * (count + 1)) =
          List.range' (BLOCK_PAGES * start) BLOCK_PAGES ++
            List.range' (BLOCK_PAGES * (start + 1)) (BLOCK_PAGES * count) := by
        rw [Nat.mul_succ, Nat.mul_succ, Nat.add_comm (BLOCK_PAGES * count), List.range'_append_1]
      have same (page : ℕ) (mem : page ∈ List.range' (BLOCK_PAGES * start) BLOCK_PAGES) :
          page / BLOCK_PAGES = start := by
        have bounds := List.mem_range'_1.mp mem
        simp only [BLOCK_PAGES] at bounds ⊢
        omega
      rw [pages, List.filter_append, ih, List.range'_succ, List.flatMap_cons]
      congr 1
      split
      · rename_i out
        apply List.filter_eq_nil_iff.mpr
        intro page mem
        simpa [same page mem] using out
      · rename_i kept
        rw [List.filter_eq_self.mpr, List.range'_eq_map_range]
        · rfl
        · intro page mem
          simpa [same page mem] using kept

/-- The pages of the partition in blocks whose marker is blank. -/
def partitionPages (cells : Cells) : List ℕ :=
  (List.range' 256 896).filter fun page => marker cells (page / BLOCK_PAGES) = 0xFFFF

theorem mem_partitionPages {cells : Cells} {page : ℕ} :
    page ∈ partitionPages cells ↔
      (256 ≤ page ∧ page < 1152) ∧ marker cells (page / BLOCK_PAGES) = 0xFFFF := by
  simp [partitionPages, List.mem_range'_1]

theorem mem_partitionBlocks {block : ℕ} : block ∈ partitionBlocks ↔ 4 ≤ block ∧ block < 18 := by
  rw [show partitionBlocks = List.range' 4 14 by decide, List.mem_range'_1]

/-- The pages of the partition in blocks that the first boot loader does not skip. -/
def loadedPages (cells : Cells) : List ℕ :=
  (List.range' 256 896).filter fun page => ¬ Skipped cells (page / BLOCK_PAGES)

/-- The first boot loader reads these pages. -/
theorem partitionBack_eq (cells : Cells) :
    partitionBack cells = gather (pageBack cells) (loadedPages cells) := by
  have blocks : partitionBlocks = List.range' 4 14 := by decide
  have pages := filter_range'_blocks (Skipped cells) 4 14
  have kept : loadedPages cells = (List.range' (BLOCK_PAGES * 4) (BLOCK_PAGES * 14)).filter
      (fun page => ¬ Skipped cells (page / BLOCK_PAGES)) := rfl
  rw [kept, pages, gather_flatMap, partitionBack, ← blocks]
  apply gather_congr
  intro block _
  rw [blockPiece]
  split
  · rfl
  · rw [gather_map]
    rfl

/-- The first boot loader skips every block of the partition that the second one takes for bad.
It may not, since it looks at the low byte of the marker only. -/
def SkipsAlike (cells : Cells) : Prop :=
  ∀ block ∈ partitionBlocks, marker cells block = 0xFFFF ∨ Skipped cells block

instance SkipsAlike.decidable (cells : Cells) : Decidable (SkipsAlike cells) :=
  inferInstanceAs (Decidable (∀ _ ∈ _, _))

theorem not_skipped_of_blank {cells : Cells} {block : ℕ} (blank : marker cells block = 0xFFFF) :
    ¬ Skipped cells block := by
  have word : cells (BLOCK_PAGES * block) 1024 = 0xFFFF := blank
  rw [Skipped, word, not_not]
  rfl

/-- It reads at least the pages of the blocks with a blank marker. -/
theorem partitionPages_sublist (cells : Cells) :
    (partitionPages cells).Sublist (loadedPages cells) := by
  apply List.monotone_filter_right
  intro page blank
  exact decide_eq_true (not_skipped_of_blank (of_decide_eq_true blank))

/-- It reads no others exactly if it skips what the second boot loader leaves out. -/
theorem skipsAlike_iff {cells : Cells} :
    SkipsAlike cells ↔ loadedPages cells = partitionPages cells := by
  constructor
  · intro alike
    apply List.filter_congr
    intro page mem
    have bounds := List.mem_range'_1.mp mem
    have block : page / BLOCK_PAGES ∈ partitionBlocks := by
      rw [mem_partitionBlocks, BLOCK_PAGES]
      omega
    apply decide_eq_decide.mpr
    constructor
    · exact fun kept => (alike _ block).resolve_right kept
    · exact not_skipped_of_blank
  · intro same block mem
    have bounds := mem_partitionBlocks.mp mem
    have number : BLOCK_PAGES * block / BLOCK_PAGES = block :=
      Nat.mul_div_cancel_left block (by decide)
    by_contra neither
    rw [not_or] at neither
    have read : BLOCK_PAGES * block ∈ loadedPages cells := by
      rw [loadedPages, List.mem_filter, List.mem_range'_1, number]
      refine ⟨?_, decide_eq_true neither.2⟩
      rw [BLOCK_PAGES]
      omega
    rw [same, mem_partitionPages, number] at read
    exact neither.1 read.2

theorem skipsAlike_of_length {cells : Cells}
    (same : (loadedPages cells).length = (partitionPages cells).length) : SkipsAlike cells :=
  skipsAlike_iff.mpr ((partitionPages_sublist cells).eq_of_length same.symm).symm

/-! ## The whole way -/

/-- The two commands that put an image into the partition. -/
def reflash (s : Session) (image : List UInt8) : Option (ℤ × Session) :=
  nandWriteSkipBad (nandEraseOpts s NAND_UBOOT_START (NAND_UBOOT_END - NAND_UBOOT_START)).2
    NAND_UBOOT_START image

theorem goodPages_partition {cells : Cells} {bbt : Bbt}
    (bad : ∀ block < 2048, (BadIn bbt block ↔ marker cells block ≠ 0xFFFF)) :
    goodPages bbt 256 = partitionPages cells ++ goodPages bbt 1152 := by
  rw [goodPages_split bbt 256 896 (by decide), partitionPages]
  congr 1
  apply List.filter_congr
  intro page mem
  have bounds := List.mem_range'_1.mp mem
  have inside : page / BLOCK_PAGES < 2048 := by
    simp only [BLOCK_PAGES]
    omega
  simp [bad _ inside]

theorem partitionPages_nodup (cells : Cells) : (partitionPages cells).Nodup :=
  List.Pairwise.filter _ (List.nodup_range' ..)

/-- The marker of a block whose first page holds data is blank. -/
theorem marker_programmed {cells : Cells} {first page : ℕ} {codes : List UInt8} (two : 2 ≤ first)
    (spare : pageSpare cells page = spareWith first codes) : cells page 1024 = 0xFFFF := by
  have front : List.replicate first (0xff : UInt8) =
      u16Bytes 0xFFFF ++ List.replicate (first - 2) 0xff := by
    rw [show u16Bytes 0xFFFF = List.replicate 2 0xff from rfl, List.replicate_append_replicate,
      Nat.add_sub_cancel' two]
  rw [← u16At_pageSpare cells page, spare, spareWith, front, List.append_assoc, List.append_assoc,
    u16At_u16Bytes_append]

/-- The flash after an image of `n` pages has been put into the partition. -/
structure Reflashed (first : ℕ) (before after : Cells) (image : List UInt8) (n : ℕ) : Prop where
  content : ∀ i page, ((partitionPages before).take n)[i]? = some page →
    ∀ k, after page k = pageContent first (slice (writesize * i) writesize image) k
  blank : ∀ page ∈ (partitionPages before).drop n, ∀ k, after page k = 0xFFFF
  kept : ∀ page, marker before (page / BLOCK_PAGES) ≠ 0xFFFF → page < 1152 →
    after page = before page

/-- The table, if there is one, has as bad the blocks whose marker is not blank. -/
def Truthful (s : Session) : Prop :=
  ∀ bbt, s.bbt = some bbt → ∀ block < 2048,
    (BadIn bbt block ↔ marker s.gpmc.chip.cells block ≠ 0xFFFF)

theorem truthful_of_none {s : Session} (fresh : s.bbt = none) : Truthful s := by
  intro bbt known
  rw [fresh] at known
  cases known

/-- The scan makes such a table. -/
theorem Truthful.scanned {s : Session} (truthful : Truthful s) : Truthful s.scanned := by
  obtain ⟨_, known, cells, -, -, bad⟩ := scanned_spec s
  intro bbt found
  obtain rfl := Option.some.inj (known.symm.trans found)
  rw [cells]
  cases before : s.bbt with
  | none => exact bad before
  | some bbt =>
      have kept : s.scanned = s := by
        rw [Session.scanned, before]
        rfl
      rw [kept] at known
      exact truthful _ known

section Reflash

variable {s : Session} {first : ℕ} (truthful : Truthful s)
  (layout : s.eccpos = List.range' first 12) (room : first + 12 ≤ oobsize) {image : List UInt8}
  {n : ℕ} (size : image.length = writesize * n) (nonzero : 0 < n)
  (fits : n ≤ (partitionPages s.gpmc.chip.cells).length)

include truthful

/-- The erasure finds the bad blocks and blanks the others. -/
theorem erased_partition :
    ∃ bbt, (nandEraseOpts s NAND_UBOOT_START (NAND_UBOOT_END - NAND_UBOOT_START)).2.bbt = some bbt ∧
      (∀ block < 2048, (BadIn bbt block ↔ marker s.gpmc.chip.cells block ≠ 0xFFFF)) ∧
      Erases s.scanned (fun block => (4 ≤ block ∧ block < 18) ∧ ¬ BadIn bbt block)
        (nandEraseOpts s NAND_UBOOT_START (NAND_UBOOT_END - NAND_UBOOT_START)).2 := by
  obtain ⟨bbt, known, cells, -, -, -⟩ := scanned_spec s
  obtain ⟨-, erases⟩ := nandEraseOpts_eq known 4 14 (by decide) (by decide)
  have bad := truthful.scanned bbt known
  rw [cells] at bad
  rw [nandEraseOpts_scanned s (by decide)]
  exact ⟨bbt, erases.framed.bbt.trans known, bad, erases⟩

include layout room size nonzero fits

/-- The image goes to the first of the pages, and the others stay blank. -/
theorem reflashed_of_reflash
    (erasable : ∀ block ∈ partitionBlocks, marker s.gpmc.chip.cells block = 0xFFFF →
      s.gpmc.chip.eraseFault block = none)
    {t : Session} (done : reflash s image = some (0, t)) :
    Reflashed first s.gpmc.chip.cells t.gpmc.chip.cells image n := by
  obtain ⟨bbt, known, bad, erases⟩ := erased_partition truthful
  obtain ⟨_, _, cells, -, eccpos, -⟩ := scanned_spec s
  rw [reflash] at done
  generalize (nandEraseOpts s NAND_UBOOT_START (NAND_UBOOT_END - NAND_UBOOT_START)).2 = erased
    at known erases done
  have layout' : erased.eccpos = List.range' first 12 :=
    erases.framed.eccpos.trans (eccpos.trans layout)
  have few : (partitionPages s.gpmc.chip.cells).length ≤ 896 := by
    refine (List.length_filter_le _ _).trans ?_
    rw [List.length_range']
  obtain ⟨written, final, writes, result⟩ :=
    nandWriteSkipBad_eq room 256 known layout' size nonzero (by decide)
  obtain ⟨ok, rfl⟩ := Prod.mk.inj (Option.some.inj (result.symm.trans done))
  obtain rfl := (skipResult_eq_zero_iff.mp ok).1
  rw [writePages, if_neg (by omega), goodPages_partition bad, List.take_append_of_le_length fits]
    at writes
  have writable : s.scanned.gpmc.chip.writable = true :=
    erases.framed.writable.symm.trans (writes.ok_iff.mp rfl).1
  have blank : ∀ page ∈ partitionPages s.gpmc.chip.cells, ∀ k,
      erased.gpmc.chip.cells page k = 0xFFFF := by
    intro page mem
    obtain ⟨bounds, good⟩ := mem_partitionPages.mp mem
    have block : page / BLOCK_PAGES ∈ partitionBlocks := by
      rw [mem_partitionBlocks, BLOCK_PAGES]
      omega
    have number : 4 ≤ page / BLOCK_PAGES ∧ page / BLOCK_PAGES < 18 := by
      simp only [BLOCK_PAGES]
      omega
    refine erases.blank writable page ⟨number, ?_⟩ ?_
    · rw [bad _ (by omega)]
      exact not_not.mpr good
    · rw [scanned_eraseFault]
      exact erasable _ block good
  refine ⟨?_, ?_, ?_⟩
  · intro i page found k
    have ones : ∀ word : UInt16, 0xFFFF &&& word = word := by
      intro word
      exact UInt16.neg_one_and
    rw [writes.content rfl i page found k,
      blank page (List.mem_of_mem_take (List.mem_of_getElem? found)), ones]
  · intro page mem k
    have apart : page ∉ (partitionPages s.gpmc.chip.cells).take n := fun here =>
      List.disjoint_take_drop (partitionPages_nodup _) (le_refl n) here mem
    rw [writes.framed.cells page apart]
    exact blank page (List.mem_of_mem_drop mem) k
  · intro page marked inside
    have outside : page ∉ (partitionPages s.gpmc.chip.cells).take n := fun here =>
      marked (mem_partitionPages.mp (List.mem_of_mem_take here)).2
    have skipped : ¬ ((4 ≤ page / BLOCK_PAGES ∧ page / BLOCK_PAGES < 18) ∧
        ¬ BadIn bbt (page / BLOCK_PAGES)) := by
      rintro ⟨bounds, good⟩
      exact good ((bad _ (by omega)).mpr marked)
    rw [writes.framed.cells page outside, erases.framed.cells page skipped, cells]

/-- Nothing can go wrong where there is no fault. -/
theorem reflash_ok (writable : s.gpmc.chip.writable = true)
    (sound : ∀ page ∈ partitionPages s.gpmc.chip.cells, s.gpmc.chip.programFault page = none) :
    ∃ t, reflash s image = some (0, t) := by
  obtain ⟨bbt, known, bad, erases⟩ := erased_partition truthful
  obtain ⟨_, _, -, -, eccpos, -⟩ := scanned_spec s
  rw [reflash]
  generalize (nandEraseOpts s NAND_UBOOT_START (NAND_UBOOT_END - NAND_UBOOT_START)).2 = erased
    at known erases
  have few : (partitionPages s.gpmc.chip.cells).length ≤ 896 := by
    refine (List.length_filter_le _ _).trans ?_
    rw [List.length_range']
  obtain ⟨written, t, writes, result⟩ := nandWriteSkipBad_eq room 256
    known (erases.framed.eccpos.trans (eccpos.trans layout)) size nonzero (by decide)
  rw [writePages, if_neg (by omega), goodPages_partition bad, List.take_append_of_le_length fits]
    at writes result
  have ok : written = 0 := by
    rw [writes.ok_iff, erases.framed.writable, erases.framed.programFault, scanned_writable,
      scanned_programFault]
    exact ⟨writable, fun page mem => sound page (List.mem_of_mem_take mem)⟩
  have zero : skipResult ((partitionPages s.gpmc.chip.cells).take n) n written = 0 := by
    rw [skipResult_eq_zero_iff, List.length_take]
    exact ⟨ok, by omega⟩
  rw [zero] at result
  exact ⟨t, result⟩

end Reflash

section Padded

variable {image : List UInt8} {pages n i : ℕ} (size : image.length = writesize * n)
include size

/-- A part of an image of whole pages is a page. -/
theorem part_length (lt : i < n) : (slice (writesize * i) writesize image).length = writesize := by
  rw [slice_length, size, ← Nat.mul_sub]
  exact Nat.min_eq_left (Nat.le_mul_of_pos_right _ (by omega))

/-- The image with the blank pages behind it. -/
def padded (image : List UInt8) (pages n : ℕ) : List UInt8 :=
  image ++ List.replicate (writesize * (pages - n)) 0xff

theorem padded_length (fits : n ≤ pages) : (padded image pages n).length = writesize * pages := by
  rw [padded, List.length_append, List.length_replicate, size, ← Nat.mul_add,
    Nat.add_sub_cancel' fits]

theorem slice_padded (lt : i < n) :
    slice (writesize * i) writesize (padded image pages n) =
      slice (writesize * i) writesize image := by
  apply slice_append_left
  rw [size, ← Nat.mul_succ]
  exact Nat.mul_le_mul_left _ lt

theorem slice_padded_blank (ge : n ≤ i) (lt : i < pages) :
    slice (writesize * i) writesize (padded image pages n) = List.replicate writesize 0xff := by
  have past : image.length ≤ writesize * i := by
    rw [size]
    exact Nat.mul_le_mul_left _ ge
  have left : writesize ≤ writesize * (pages - n) - (writesize * i - image.length) := by
    rw [size, ← Nat.mul_sub, ← Nat.mul_sub]
    exact Nat.le_mul_of_pos_right _ (by omega)
  rw [padded, slice_append_right past, slice, List.drop_replicate, List.take_replicate,
    Nat.min_eq_left left]

end Padded

section Boot

variable {first : ℕ} {before flashed after : Cells} {image : List UInt8} {n : ℕ}
  (reflashed : Reflashed first before flashed image n) (size : image.length = writesize * n)
  (aged : Aged flashed after ((partitionPages before).take n))

include reflashed aged

/-- The blank pages are read as blank. -/
theorem pageBack_of_blank {page : ℕ} (behind : page ∈ (partitionPages before).drop n) :
    pageBack after page = some (List.replicate writesize 0xff) := by
  apply pageBack_blank
  intro k
  rw [aged.others page]
  · exact reflashed.blank page behind k
  · exact fun here => List.disjoint_take_drop (partitionPages_nodup _) (le_refl n) here behind

variable (two : 2 ≤ first) (room : first + 12 ≤ oobsize)
include size two room

/-- The first boot loader skips the blocks that it would have skipped before. -/
theorem skipped_iff_of_reflashed {block : ℕ} (mem : block ∈ partitionBlocks) :
    Skipped after block ↔ Skipped before block := by
  have bounds := mem_partitionBlocks.mp mem
  have number : BLOCK_PAGES * block / BLOCK_PAGES = block :=
    Nat.mul_div_cancel_left block (by decide)
  have inside : 256 ≤ BLOCK_PAGES * block ∧ BLOCK_PAGES * block < 1152 := by
    simp only [BLOCK_PAGES]
    omega
  have low : Skipped after block ↔ marker flashed block &&& 0xff ≠ 0xff := by
    rw [← aged.markers block]
    rfl
  rw [low]
  by_cases blank : marker before block = 0xFFFF
  · refine iff_of_false (not_not.mpr ?_) (not_skipped_of_blank blank)
    have there : BLOCK_PAGES * block ∈ partitionPages before :=
      mem_partitionPages.mpr ⟨inside, by rwa [number]⟩
    have ones : marker flashed block = 0xFFFF := by
      rw [← List.take_append_drop n (partitionPages before)] at there
      rcases List.mem_append.mp there with front | back
      · obtain ⟨i, found⟩ := List.mem_iff_getElem?.mp front
        have lt : i < n := by
          have := (List.getElem?_eq_some_iff.mp found).1
          rw [List.length_take] at this
          omega
        exact marker_programmed two (pageData_programmed (reflashed.content i _ found)
          (part_length size lt) room).2
      · exact reflashed.blank _ back 1024
    rw [ones]
    rfl
  · have same : marker flashed block = marker before block := by
      have kept := reflashed.kept (BLOCK_PAGES * block) (by rwa [number]) inside.2
      exact congrFun kept 1024
    rw [same]
    rfl

theorem loadedPages_of_reflashed :
    loadedPages after = loadedPages before := by
  apply List.filter_congr
  intro page mem
  have bounds := List.mem_range'_1.mp mem
  have block : page / BLOCK_PAGES ∈ partitionBlocks := by
    rw [mem_partitionBlocks, BLOCK_PAGES]
    omega
  exact decide_eq_decide.mpr
    (not_congr (skipped_iff_of_reflashed reflashed size aged two room block))

/-- Only with the pages that were written is the image of the right length. -/
theorem skipsAlike_of_partitionBack (fits : n ≤ (partitionPages before).length)
    (read : partitionBack after = some (padded image (partitionPages before).length n)) :
    SkipsAlike before := by
  rw [partitionBack_eq, loadedPages_of_reflashed reflashed size aged two room] at read
  have length := gather_length (fun _ _ => pageBack_length) read
  rw [padded_length size fits] at length
  exact skipsAlike_of_length (Nat.eq_of_mul_eq_mul_left (by decide) length).symm

/-- Then the pages that are read are those that were written or left blank. -/
theorem partitionBack_of_skipsAlike (alike : SkipsAlike before) :
    partitionBack after = gather (pageBack after) (partitionPages before) := by
  rw [partitionBack_eq, loadedPages_of_reflashed reflashed size aged two room,
    skipsAlike_iff.mp alike]

end Boot

section Restored

variable {before flashed after : Cells} {image : List UInt8} {n : ℕ}
  (reflashed : Reflashed 2 before flashed image n) (size : image.length = writesize * n)
  (aged : Aged flashed after ((partitionPages before).take n))

include reflashed size aged

/-- The pages are read as they were written. -/
theorem pageBack_of_reflashed {i page : ℕ} (found : (partitionPages before)[i]? = some page) :
    pageBack after page = some (slice (writesize * i) writesize
      (padded image (partitionPages before).length n)) := by
  have inside : i < (partitionPages before).length := (List.getElem?_eq_some_iff.mp found).1
  by_cases front : i < n
  · have part : ((partitionPages before).take n)[i]? = some page := by
      rwa [List.getElem?_take_of_lt front]
    have full := part_length size front
    obtain ⟨data, spare⟩ :=
      pageData_programmed (reflashed.content i page part) full (by decide)
    rw [slice_padded size front]
    apply pageBack_of_sectors full
    intro j lt
    have flip := aged.sectors page (List.mem_of_getElem? part) j lt
    rw [data, pageCode_programmed spare lt] at flip
    exact sectorBack_of_atMostOneFlip flip
  · rw [slice_padded_blank size (not_lt.mp front) inside]
    apply pageBack_of_blank reflashed aged
    apply List.mem_of_getElem? (i := i - n)
    rwa [List.getElem?_drop, Nat.add_sub_cancel' (not_lt.mp front)]

/-- The image comes back, followed by the blank rest of the partition. -/
theorem partitionBack_iff_skipsAlike (fits : n ≤ (partitionPages before).length) :
    partitionBack after = some (padded image (partitionPages before).length n) ↔
      SkipsAlike before := by
  constructor
  · exact skipsAlike_of_partitionBack reflashed size aged (by decide) (by decide) fits
  · intro alike
    rw [partitionBack_of_skipsAlike reflashed size aged (by decide) (by decide) alike,
      gather_slices _ _ fun i page found => pageBack_of_reflashed reflashed size aged found]
    exact congrArg some (slice_whole (padded_length size fits))

end Restored

/-- What has been loaded can be told from where it ends and from the memory. -/
theorem bootFromNand_eq_some_iff (board : Board) (bytes : List UInt8) :
    (bootFromNand board).map (fun final => (final.1, final.2.ram)) =
        some (CFG_LOADADDR + bytes.length, storeAt board.ram CFG_LOADADDR bytes) ↔
      partitionBack board.gpmc.chip.cells = some bytes := by
  rw [bootFromNand_eq]
  constructor
  · intro loaded
    obtain ⟨other, read, same⟩ := Option.map_eq_some_iff.mp loaded
    obtain ⟨pointer, ram⟩ := Prod.mk.inj same
    rw [read, ← loadAt_storeAt board.ram CFG_LOADADDR other, ram, Nat.add_left_cancel pointer,
      loadAt_storeAt]
  · intro read
    rw [read]
    rfl

/-- An image that has been put into the partition is loaded by the first boot loader at the next
start, if since then at most one bit of each of its sectors has flipped, exactly if it skips the
blocks that were left out. -/
theorem boots_reflashed {s t : Session} {image : List UInt8} {n : ℕ} {board : Board}
    (truthful : Truthful s) (layout : s.eccpos = hwNandOob)
    (size : image.length = writesize * n) (nonzero : 0 < n)
    (fits : n ≤ (partitionPages s.gpmc.chip.cells).length)
    (erasable : ∀ block ∈ partitionBlocks, marker s.gpmc.chip.cells block = 0xFFFF →
      s.gpmc.chip.eraseFault block = none)
    (done : reflash s image = some (0, t))
    (aged : Aged t.gpmc.chip.cells board.gpmc.chip.cells
      ((partitionPages s.gpmc.chip.cells).take n)) :
    (bootFromNand board).map (fun final => (final.1, final.2.ram)) =
        some (CFG_LOADADDR + writesize * (partitionPages s.gpmc.chip.cells).length,
          storeAt board.ram CFG_LOADADDR
            (padded image (partitionPages s.gpmc.chip.cells).length n)) ↔
      SkipsAlike s.gpmc.chip.cells := by
  have reflashed := reflashed_of_reflash truthful layout (by decide) size nonzero fits erasable done
  rw [← padded_length size fits, bootFromNand_eq_some_iff]
  exact partitionBack_iff_skipsAlike reflashed size aged fits

/-! ## A flash with a bad block -/

/-- The lowest bit of a page flips. -/
def flipFirst (cells : Cells) (page : ℕ) : Cells :=
  fun other k => if other = page ∧ k = 0 then cells page 0 ^^^ 1 else cells other k

theorem flipFirst_of_ne (cells : Cells) {page other : ℕ} (ne : other ≠ page) :
    flipFirst cells page other = cells other := by
  funext k
  exact if_neg fun same => ne same.1

theorem flipFirst_words (cells : Cells) (page column count : ℕ) :
    (flipFirst cells page).words page (column + 1) count =
      cells.words page (column + 1) count := by
  apply List.map_congr_left
  intro k _
  exact if_neg fun same => absurd same.2 (by omega)

theorem sectorOf_flipFirst (low high : UInt8) (rest : List UInt8) :
    sectorOf ((low ^^^ 1) :: high :: rest) = (sectorOf (low :: high :: rest)).flip 0 := by
  apply Vector.ext
  intro k lt
  cases k with
  | zero => simp [sectorOf, Sector.flip, toggle]
  | succ k => simp [sectorOf, Sector.flip, toggle]

theorem u16Bytes_xor_one (word : UInt16) :
    u16Bytes word = [UInt8.ofNat word.toNat, UInt8.ofNat (word.toNat / 256)] ∧
      u16Bytes (word ^^^ 1) = [UInt8.ofNat word.toNat ^^^ 1, UInt8.ofNat (word.toNat / 256)] := by
  refine ⟨rfl, ?_⟩
  have low : (word.toNat ^^^ 1) % 256 = word.toNat % 256 ^^^ 1 :=
    Nat.xor_mod_two_pow (a := word.toNat) (b := 1) (n := 8)
  have high : (word.toNat ^^^ 1) / 256 = word.toNat / 256 := by
    have := Nat.xor_div_two_pow (a := word.toNat) (b := 1) (n := 8)
    simpa using this
  have value : (word ^^^ 1).toNat = word.toNat ^^^ 1 := UInt16.toNat_xor word 1
  have first : UInt8.ofNat (word.toNat ^^^ 1) = UInt8.ofNat word.toNat ^^^ 1 := by
    apply UInt8.toNat_inj.mp
    rw [UInt8.toNat_ofNat', UInt8.toNat_xor, UInt8.toNat_ofNat']
    exact low
  rw [u16Bytes, value, leBytes, leBytes, leBytes, high, first]

theorem pageData_flipFirst (cells : Cells) (page : ℕ) :
    ∃ low high rest, pageData cells page = low :: high :: rest ∧
      pageData (flipFirst cells page) page = (low ^^^ 1) :: high :: rest := by
  have words : cells.words page 0 1024 = _ := cells.words_succ page 0 1023
  have flipped : (flipFirst cells page).words page 0 1024 = _ :=
    (flipFirst cells page).words_succ page 0 1023
  have word : flipFirst cells page page 0 = cells page 0 ^^^ 1 := if_pos ⟨rfl, rfl⟩
  rw [flipFirst_words, word] at flipped
  obtain ⟨before, after⟩ := u16Bytes_xor_one (cells page 0)
  refine ⟨UInt8.ofNat (cells page 0).toNat, UInt8.ofNat ((cells page 0).toNat / 256),
    bytesOf (cells.words page (0 + 1) 1023), ?_, ?_⟩
  · rw [pageData, words, bytesOf_cons, before, List.cons_append, List.cons_append,
      List.nil_append]
  · rw [pageData, flipped, bytesOf_cons, after, List.cons_append, List.cons_append,
      List.nil_append]

/-- One flipped bit is within what may happen. -/
theorem aged_flipFirst (cells : Cells) {page : ℕ} {pages : List ℕ} (mem : page ∈ pages) :
    Aged cells (flipFirst cells page) pages where
  sectors other _ i lt := by
    by_cases here : other = page
    · subst here
      have spare : pageSpare (flipFirst cells other) other = pageSpare cells other := by
        rw [pageSpare, flipFirst_words cells other 1023, pageSpare]
      have code : pageCode (flipFirst cells other) other i = pageCode cells other i := by
        rw [pageCode, spare, pageCode]
      obtain ⟨low, high, rest, before, after⟩ := pageData_flipFirst cells other
      rw [code, before, after]
      cases i with
      | zero =>
          have flip : sectorAt ((low ^^^ 1) :: high :: rest) 0 =
              (sectorAt (low :: high :: rest) 0).flip 0 :=
            sectorOf_flipFirst low high (rest.take 510)
          rw [flip]
          exact .data 0
      | succ i =>
          have behind (byte : UInt8) : sectorAt (byte :: high :: rest) (i + 1) =
              sectorOf ((rest.drop (512 * i + 510)).take 512) := rfl
          rw [behind, behind]
          exact .unchanged
    · have same := flipFirst_of_ne cells here
      have data : pageData (flipFirst cells page) other = pageData cells other := by
        simp only [pageData, Cells.words, same]
      have code : pageCode (flipFirst cells page) other i = pageCode cells other i := by
        simp only [pageCode, pageSpare, Cells.words, same]
      rw [data, code]
      exact .unchanged
  others other outside := flipFirst_of_ne cells fun same => outside (same ▸ mem)
  markers block := if_neg fun same => absurd same.2 (by decide)

/-- A session that has scanned a flash with a bad block in the partition. -/
structure Scarred (s : Session) : Prop where
  truthful : Truthful s
  cells : s.gpmc.chip.cells = scarredSession.gpmc.chip.cells
  writable : s.gpmc.chip.writable = true
  programFault : ∀ page, s.gpmc.chip.programFault page = none
  eraseFault : ∀ block, s.gpmc.chip.eraseFault block = none

theorem scarred_scanned (eccpos : List ℕ) :
    Scarred ({ scarredSession with eccpos := eccpos } : Session).scanned := by
  obtain ⟨_, -, cells, -, -, -⟩ := scanned_spec { scarredSession with eccpos := eccpos }
  refine ⟨(truthful_of_none rfl).scanned, cells, ?_, ?_, ?_⟩
  · rw [scanned_writable]
    rfl
  · intro page
    rw [scanned_programFault]
    rfl
  · intro block
    rw [scanned_eraseFault]
    rfl

theorem scarred_partitionPages :
    (partitionPages scarredSession.gpmc.chip.cells).length = 832 ∧
      384 ∈ (partitionPages scarredSession.gpmc.chip.cells).take 65 := by
  decide +kernel

/-- The board at its next start, with one bit of the first page behind the bad block flipped. -/
def agedBoard (s : Session) : Board where
  gpmc :=
    { s.gpmc with
      chip := { s.gpmc.chip with cells := flipFirst s.gpmc.chip.cells 384 } }
  ram := fun _ => 0

/-- An image of 65 pages is written around the bad block and loaded again. -/
theorem scarred_boots_reflashed :
    ∃ t, reflash ({ scarredSession with eccpos := hwNandOob } : Session).scanned
        (List.replicate (writesize * 65) 0) = some (0, t) ∧
      (bootFromNand (agedBoard t)).map (fun final => (final.1, final.2.ram)) =
        some (CFG_LOADADDR + writesize * 832, storeAt (fun _ => 0) CFG_LOADADDR
          (padded (List.replicate (writesize * 65) 0) 832 65)) := by
  obtain ⟨_, -, -, -, layout, -⟩ := scanned_spec { scarredSession with eccpos := hwNandOob }
  have scarred := scarred_scanned hwNandOob
  generalize ({ scarredSession with eccpos := hwNandOob } : Session).scanned = s
    at layout scarred
  obtain ⟨count, mem⟩ := scarred_partitionPages
  rw [← scarred.cells] at count mem
  have size : (List.replicate (writesize * 65) (0 : UInt8)).length = writesize * 65 :=
    List.length_replicate
  have fits : 65 ≤ (partitionPages s.gpmc.chip.cells).length := by
    rw [count]
    decide
  obtain ⟨t, done⟩ := reflash_ok scarred.truthful layout (by decide) size (by decide) fits
    scarred.writable fun page _ => scarred.programFault page
  have boots := @boots_reflashed s t _ _ (agedBoard t) scarred.truthful layout size (by decide)
    fits (fun block _ _ => scarred.eraseFault block) done (aged_flipFirst _ mem)
  rw [count] at boots
  refine ⟨t, done, boots.mpr ?_⟩
  rw [scarred.cells]
  decide +kernel

end Rhino.Flash
