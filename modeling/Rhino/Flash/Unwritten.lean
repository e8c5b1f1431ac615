import Rhino.Flash.RoundTrip

/-!
# Codes that were never written

`board_nand_init` selects the layout of the kernel, which leaves the places blank where the
first boot loader looks for the codes.  A blank code has all parities set; against it the
boot loader corrects a bit that is not wrong, stops for good, or notices nothing.
-/

namespace Rhino.Flash

open Rhino.Bytes Rhino.Nand Rhino.Bits UBoot XLoader

/-- A code that was never written. -/
def unwritten : EccBytes := #v[0xff, 0xff, 0xff]

/-- All 24 parities of a sector are equal. -/
def ParitiesAgree (dat : Sector) : Prop :=
  ∃ value, ∀ k < 12, evenParity 12 dat.bit k = value ∧ oddParity 12 dat.bit k = value

/-- The parities that are clear make up the syndrome. -/
theorem syndrome_unwritten (dat : Sector) :
    IsPairs (genTrueEcc unwritten ^^^ genTrueEcc (packEcc (gpmcResult dat)))
      (fun k => !evenParity 12 dat.bit k) (fun k => !oddParity 12 dat.bit k) := by
  have stored : genTrueEcc unwritten = 0x0FFF0FFF := by decide
  have pairs := isPairs_parityMask.xor (isPairs_of_reports (reports_gpmcResult dat))
  simpa only [stored, Bool.true_xor] using pairs

/-- The bit whose address the clear odd parities spell. -/
def clearAddress (dat : Sector) : Fin 4096 :=
  ⟨Nat.ofBits fun k : Fin 12 => !oddParity 12 dat.bit k, Nat.ofBits_lt_two_pow _⟩

theorem correct_clearAddress {dat : Sector}
    (twelve : weight (fun k => !evenParity 12 dat.bit k) (fun k => !oddParity 12 dat.bit k) = 12) :
    omapCorrectDataHwEcc dat unwritten (packEcc (gpmcResult dat)) =
      (0, dat.flip (clearAddress dat)) := by
  apply correct_of_weight_twelve (syndrome_unwritten dat) twelve
  intro k lt
  have value : (clearAddress dat).val =
      Nat.ofBits fun k : Fin 12 => !oddParity 12 dat.bit k := rfl
  rw [value, Nat.testBit_ofBits_lt _ _ lt]

theorem flip_ne (dat : Sector) (addr : Fin 4096) : dat.flip addr ≠ dat := by
  intro same
  have bit := dat.flip_bit addr addr.isLt
  rw [same] at bit
  simp [flipped] at bit

/-- What the first boot loader makes of a sector without a code. -/
def unwrittenBack (dat : Sector) : ℤ × Sector :=
  omapCorrectDataHwEcc dat unwritten (packEcc (gpmcResult dat))

/-- A sector without a code passes unchanged if its parities agree.  Otherwise a bit of it is
flipped, or the boot loader stops. -/
theorem unwrittenBack_cases (dat : Sector) :
    (ParitiesAgree dat ∧ unwrittenBack dat = (0, dat)) ∨
      (¬ ParitiesAgree dat ∧ (unwrittenBack dat = (0, dat.flip (clearAddress dat)) ∨
        (unwrittenBack dat).1 = -1)) := by
  have pairs := syndrome_unwritten dat
  have block := evenParity_xor_oddParity 12 dat.bit
  cases total : parity (List.range (2 ^ 12)) dat.bit with
  | true =>
      -- one parity of each pair is clear, as after a single error
      have opposite (k : ℕ) : evenParity 12 dat.bit k = !oddParity 12 dat.bit k := by
        have one := block k
        rw [total] at one
        cases even : evenParity 12 dat.bit k <;> cases odd : oddParity 12 dat.bit k <;> simp_all
      have twelve : weight (fun k => !evenParity 12 dat.bit k)
          (fun k => !oddParity 12 dat.bit k) = 12 := by
        have swapped := countP_not_add_countP (oddParity 12 dat.bit) 12
        simp only [opposite, Bool.not_not, weight]
        exact (Nat.add_comm _ _).trans swapped
      refine .inr ⟨?_, .inl (correct_clearAddress twelve)⟩
      rintro ⟨value, agree⟩
      have first := agree 0 (by decide)
      rw [opposite, first.2] at first
      cases value <;> simp at first
  | false =>
      have same (k : ℕ) : evenParity 12 dat.bit k = oddParity 12 dat.bit k := by
        have one := block k
        rw [total] at one
        cases even : evenParity 12 dat.bit k <;> cases odd : oddParity 12 dat.bit k <;> simp_all
      simp only [same] at pairs
      have twice : weight (fun k => !oddParity 12 dat.bit k) (fun k => !oddParity 12 dat.bit k) =
          2 * (List.range 12).countP fun k => !oddParity 12 dat.bit k := by
        rw [weight, Nat.two_mul]
      have agree_iff : ParitiesAgree dat ↔
          (∀ k < 12, oddParity 12 dat.bit k = true) ∨ ∀ k < 12, oddParity 12 dat.bit k = false := by
        simp only [ParitiesAgree, same, and_self, Bool.exists_bool]
        exact or_comm
      have all_iff : (List.range 12).countP (fun k => !oddParity 12 dat.bit k) = 0 ↔
          ∀ k < 12, oddParity 12 dat.bit k = true := by
        simp [List.countP_eq_zero]
      have none_iff : (∀ k < 12, oddParity 12 dat.bit k = false) ↔
          genTrueEcc unwritten = 0x0FFF0FFF ∧ genTrueEcc (packEcc (gpmcResult dat)) = 0 := by
        have stored : genTrueEcc unwritten = 0x0FFF0FFF := by decide
        rw [(isPairs_of_reports (reports_gpmcResult dat)).eq_iff isPairs_zero]
        simp [stored, same]
      rw [agree_iff, ← all_iff, none_iff]
      generalize count_eq : (List.range 12).countP (fun k => !oddParity 12 dat.bit k) = count
        at twice
      by_cases zero : count = 0
      · -- the code that was never written is the right one
        have equal : genTrueEcc unwritten ^^^ genTrueEcc (packEcc (gpmcResult dat)) = 0 := by
          apply (pairs.eq_iff isPairs_zero).mpr
          intro k lt
          simp [all_iff.mp (count_eq.trans zero) k lt]
        refine .inl ⟨.inl zero, ?_⟩
        simp [unwrittenBack, omapCorrectDataHwEcc, equal]
      · by_cases six : count = 6
        · have twelve : weight (fun k => !evenParity 12 dat.bit k)
              (fun k => !oddParity 12 dat.bit k) = 12 := by
            simp only [same]
            omega
          refine .inr ⟨?_, .inl (correct_clearAddress twelve)⟩
          rintro (clear | erased)
          · exact zero clear
          · have all := none_iff.mpr erased
            have full : (List.range 12).countP (fun k => !oddParity 12 dat.bit k) = 12 := by
              rw [List.countP_eq_length.mpr]
              · rfl
              · intro k mem
                simp [all k (List.mem_range.mp mem)]
            omega
        · rw [unwrittenBack, correct_of_weight_other pairs (by omega) (by omega) (by omega)]
          split
          · rename_i erased
            exact .inl ⟨.inr erased, rfl⟩
          · rename_i notErased
            exact .inr ⟨fun agree => agree.elim zero notErased, .inr rfl⟩

theorem unwrittenBack_iff (dat : Sector) :
    ((unwrittenBack dat).1 ≠ -1 ∧ (unwrittenBack dat).2 = dat) ↔ ParitiesAgree dat := by
  rcases unwrittenBack_cases dat with ⟨agree, passes⟩ | ⟨differ, flips | stops⟩
  · rw [passes]
    exact iff_of_true ⟨show (0 : ℤ) ≠ -1 by decide, rfl⟩ agree
  · rw [flips]
    exact iff_of_false (fun unchanged => flip_ne _ _ unchanged.2) differ
  · exact iff_of_false (fun unchanged => unchanged.1 stops) differ

/-! ## A page under the layout of the kernel -/

theorem spareWith_front {first k : ℕ} (codes : List UInt8) (front : k < first) :
    (spareWith first codes).getD k 0 = 0xff := by
  rw [spareWith, List.append_assoc, List.getD_append _ _ _ _ (by rwa [List.length_replicate])]
  simp [List.getD, front]

theorem pageCode_kernel {cells : Cells} {page : ℕ} {buf : List UInt8}
    (spare : pageSpare cells page = spareWith 40 (pageCodes buf)) {i : ℕ} (lt : i < ECC_STEPS) :
    pageCode cells page i = unwritten := by
  have front (j : ℕ) (small : j < 3) :
      (spareWith 40 (pageCodes buf)).getD (eccPos (3 * i + j)) 0 = 0xff := by
    apply spareWith_front
    simp only [eccPos, ECC_STEPS] at lt ⊢
    omega
  rw [pageCode, spare, front 1 (by decide), front 2 (by decide),
    show 3 * i = 3 * i + 0 from rfl, front 0 (by decide), unwritten]

/-- The sectors of a page that is read. -/
theorem sectorAt_of_pageBack {cells : Cells} {page : ℕ} {buf : List UInt8}
    (read : pageBack cells page = some buf) {i : ℕ} (lt : i < ECC_STEPS) :
    (sectorBack cells page i).1 ≠ -1 ∧ (sectorBack cells page i).2 = sectorAt buf i := by
  have full := pageBack_length read
  rw [pageBack] at read
  split at read
  · cases read
  · rename_i passed
    refine ⟨fun failed => passed ⟨i, lt, failed⟩, ?_⟩
    have whole := Option.some.inj read
    have gathered : gather (fun i => some (sectorBack cells page i).2.toList)
        (List.range ECC_STEPS) = some buf := by
      rw [gather_eq_some fun _ _ => rfl, whole]
    have part := slice_of_gather 512
      (fun _ _ found => by rw [← Option.some.inj found, Vector.length_toList]) gathered
      (List.getElem?_range lt)
    apply Vector.toList_inj.mp
    rw [Option.some.inj part, sectorAt, sectorOf_toList]
    rw [slice_length, full]
    simp only [ECC_STEPS, PAGE_SIZE] at lt ⊢
    omega

section KernelPage

variable {cells : Cells} {page : ℕ} {buf : List UInt8}
  (holds : ∀ k, cells page k = pageContent 40 buf k) (full : buf.length = writesize)

include holds full

theorem sectorBack_kernel {i : ℕ} (lt : i < ECC_STEPS) :
    sectorBack cells page i = unwrittenBack (sectorAt buf i) := by
  obtain ⟨data, spare⟩ := pageData_programmed holds full (by decide)
  rw [sectorBack, data, pageCode_kernel spare lt, unwrittenBack]

/-- The page is read as it was written only if the parities of each sector agree. -/
theorem pageBack_kernel_iff :
    pageBack cells page = some buf ↔ ∀ i < ECC_STEPS, ParitiesAgree (sectorAt buf i) := by
  constructor
  · intro read i lt
    rw [← unwrittenBack_iff, ← sectorBack_kernel holds full lt]
    exact sectorAt_of_pageBack read lt
  · intro agree
    apply pageBack_of_sectors full
    intro i lt
    rw [sectorBack_kernel holds full lt]
    exact (unwrittenBack_iff _).mpr (agree i lt)

/-- If it is read at all, a sector whose parities differ comes back with a bit flipped. -/
theorem sectorAt_kernel_flipped {read : List UInt8} (back : pageBack cells page = some read)
    {i : ℕ} (lt : i < ECC_STEPS) (differ : ¬ ParitiesAgree (sectorAt buf i)) :
    sectorAt read i = (sectorAt buf i).flip (clearAddress (sectorAt buf i)) := by
  obtain ⟨passed, sector⟩ := sectorAt_of_pageBack back lt
  rw [sectorBack_kernel holds full lt] at passed sector
  rw [← sector]
  rcases unwrittenBack_cases (sectorAt buf i) with ⟨agree, -⟩ | ⟨-, flips | stops⟩
  · exact absurd agree differ
  · rw [flips]
  · exact absurd stops passed

end KernelPage

/-- The sectors of a part of an image. -/
theorem sectorAt_slice (image : List UInt8) (i : ℕ) {j : ℕ} (inside : j < ECC_STEPS) :
    sectorAt (slice (writesize * i) writesize image) j = sectorAt image (ECC_STEPS * i + j) := by
  have start : writesize * i + 512 * j = 512 * (ECC_STEPS * i + j) := by
    simp only [writesize, ECC_STEPS]
    omega
  have room : 512 ≤ writesize - 512 * j := by
    simp only [writesize, ECC_STEPS] at inside ⊢
    omega
  rw [sectorAt, sectorAt, slice, slice, slice, List.drop_take, List.drop_drop, List.take_take,
    Nat.min_eq_left room, start]

section KernelLayout

variable {before flashed : Cells} {image : List UInt8} {n : ℕ}
  (reflashed : Reflashed 40 before flashed image n) (size : image.length = writesize * n)

include reflashed size

/-- A page of the image. -/
theorem pageBack_kernelLayout {i page : ℕ} (lt : i < n)
    (found : (partitionPages before)[i]? = some page) :
    (pageBack flashed page = some (slice (writesize * i) writesize image) ↔
        ∀ j < ECC_STEPS, ParitiesAgree (sectorAt image (ECC_STEPS * i + j))) ∧
      ∀ read, pageBack flashed page = some read → ∀ j < ECC_STEPS,
        ¬ ParitiesAgree (sectorAt image (ECC_STEPS * i + j)) →
          sectorAt read j = (sectorAt image (ECC_STEPS * i + j)).flip
            (clearAddress (sectorAt image (ECC_STEPS * i + j))) := by
  have part : ((partitionPages before).take n)[i]? = some page := by
    rwa [List.getElem?_take_of_lt lt]
  have holds := reflashed.content i page part
  have full := part_length size lt
  constructor
  · rw [pageBack_kernel_iff holds full]
    exact forall₂_congr fun j inside => by rw [sectorAt_slice image i inside]
  · intro read back j inside differ
    rw [← sectorAt_slice image i inside] at differ ⊢
    exact sectorAt_kernel_flipped holds full back inside differ

theorem gather_kernelLayout_iff (fits : n ≤ (partitionPages before).length) :
    gather (pageBack flashed) (partitionPages before) =
        some (padded image (partitionPages before).length n) ↔
      ∀ k < ECC_STEPS * n, ParitiesAgree (sectorAt image k) := by
  constructor
  · intro gathered k lt
    have number : k / ECC_STEPS < n := Nat.div_lt_of_lt_mul lt
    have found := List.getElem?_eq_getElem (l := partitionPages before) (number.trans_le fits)
    have read := slice_of_gather _ (fun _ _ => pageBack_length) gathered found
    have sectors := (pageBack_kernelLayout reflashed size number found).1.mp
      (read.trans (congrArg some (slice_padded size number)))
    have sector := sectors (k % ECC_STEPS) (Nat.mod_lt k (by decide))
    rwa [Nat.div_add_mod] at sector
  · intro sectors
    rw [gather_slices writesize (padded image (partitionPages before).length n)]
    · exact congrArg some (slice_whole (padded_length size fits))
    · intro i place found
      by_cases front : i < n
      · rw [slice_padded size front, (pageBack_kernelLayout reflashed size front found).1]
        intro j inside
        apply sectors
        calc ECC_STEPS * i + j < ECC_STEPS * (i + 1) := by rw [Nat.mul_succ]; omega
          _ ≤ ECC_STEPS * n := Nat.mul_le_mul_left _ front
      · rw [slice_padded_blank size (not_lt.mp front) (List.getElem?_eq_some_iff.mp found).1]
        apply pageBack_of_blank reflashed (Aged.refl _ _)
        apply List.mem_of_getElem? (i := i - n)
        rwa [List.getElem?_drop, Nat.add_sub_cancel' (not_lt.mp front)]

/-- A sector of what is loaded. -/
theorem sectorAt_kernelLayout (fits : n ≤ (partitionPages before).length) {bytes : List UInt8}
    (gathered : gather (pageBack flashed) (partitionPages before) = some bytes) {k : ℕ}
    (lt : k < ECC_STEPS * n) (differ : ¬ ParitiesAgree (sectorAt image k)) :
    sectorAt bytes k = (sectorAt image k).flip (clearAddress (sectorAt image k)) := by
  have number : k / ECC_STEPS < n := Nat.div_lt_of_lt_mul lt
  have found := List.getElem?_eq_getElem (l := partitionPages before) (number.trans_le fits)
  have read := slice_of_gather _ (fun _ _ => pageBack_length) gathered found
  have inside := Nat.mod_lt k (show 0 < ECC_STEPS by decide)
  have sector := (pageBack_kernelLayout reflashed size number found).2 _ read _ inside
  have whole := sectorAt_slice bytes (k / ECC_STEPS) inside
  rw [Nat.div_add_mod] at sector whole
  rw [← whole]
  exact sector differ

end KernelLayout

/-- An image that was written under the layout of the kernel is loaded as it is exactly if both
boot loaders skip the same blocks and all parities agree in each of its sectors.  In the others a
bit is flipped, if the boot loader does not stop. -/
theorem boots_kernelLayout_iff {s t : Session} {image : List UInt8} {n : ℕ} {board : Board}
    (truthful : Truthful s) (layout : s.eccpos = hwNandOobKernel)
    (size : image.length = writesize * n) (nonzero : 0 < n)
    (fits : n ≤ (partitionPages s.gpmc.chip.cells).length)
    (erasable : ∀ block ∈ partitionBlocks, marker s.gpmc.chip.cells block = 0xFFFF →
      s.gpmc.chip.eraseFault block = none)
    (done : reflash s image = some (0, t)) (kept : board.gpmc.chip.cells = t.gpmc.chip.cells) :
    ((bootFromNand board).map (fun final => (final.1, final.2.ram)) =
          some (CFG_LOADADDR + writesize * (partitionPages s.gpmc.chip.cells).length,
            storeAt board.ram CFG_LOADADDR
              (padded image (partitionPages s.gpmc.chip.cells).length n)) ↔
        SkipsAlike s.gpmc.chip.cells ∧ ∀ k < ECC_STEPS * n, ParitiesAgree (sectorAt image k)) ∧
      (SkipsAlike s.gpmc.chip.cells → ∀ final, bootFromNand board = some final →
        ∀ k < ECC_STEPS * n, ¬ ParitiesAgree (sectorAt image k) →
          sectorAt (loadAt final.2.ram CFG_LOADADDR
              (writesize * (partitionPages s.gpmc.chip.cells).length)) k =
            (sectorAt image k).flip (clearAddress (sectorAt image k))) := by
  have reflashed := reflashed_of_reflash truthful layout (by decide) size nonzero fits erasable done
  rw [← kept] at reflashed
  have aged := Aged.refl board.gpmc.chip.cells ((partitionPages s.gpmc.chip.cells).take n)
  have pages (alike : SkipsAlike s.gpmc.chip.cells) :=
    partitionBack_of_skipsAlike reflashed size aged (by decide) (by decide) alike
  constructor
  · rw [← padded_length size fits, bootFromNand_eq_some_iff]
    constructor
    · intro read
      have alike :=
        skipsAlike_of_partitionBack reflashed size aged (by decide) (by decide) fits read
      rw [pages alike] at read
      exact ⟨alike, (gather_kernelLayout_iff reflashed size fits).mp read⟩
    · rintro ⟨alike, sectors⟩
      rw [pages alike]
      exact (gather_kernelLayout_iff reflashed size fits).mpr sectors
  · intro alike final booted k lt differ
    have boot := bootFromNand_eq board
    rw [booted, pages alike] at boot
    obtain ⟨bytes, gathered, same⟩ := Option.map_eq_some_iff.mp boot.symm
    have length := gather_length (fun _ _ => pageBack_length) gathered
    have ram : storeAt board.ram CFG_LOADADDR bytes = final.2.ram := congrArg Prod.snd same
    rw [← ram, show writesize * (partitionPages s.gpmc.chip.cells).length = bytes.length from
      length.symm, loadAt_storeAt]
    exact sectorAt_kernelLayout reflashed size fits gathered lt differ

/-- Zeros have no parity at all. -/
theorem paritiesAgree_zeros (size k : ℕ) : ParitiesAgree (sectorAt (List.replicate size 0) k) := by
  have bits : (sectorAt (List.replicate size 0) k).bit = fun _ => false := by
    funext addr
    have byte : ((sectorAt (List.replicate size 0) k)[addr / 8]?).getD 0 = 0 := by
      by_cases inside : addr / 8 < 512
      · rw [Vector.getElem?_eq_getElem inside, Option.getD_some, sectorAt, sectorOf,
          Vector.getElem_ofFn, slice, List.drop_replicate, List.take_replicate,
          List.getD_eq_getElem?_getD, List.getElem?_replicate]
        split
        · rfl
        · rfl
      · rw [Vector.getElem?_eq_none (by omega), Option.getD_none]
    rw [Sector.bit, byte]
    exact Nat.zero_testBit _
  rw [ParitiesAgree, bits]
  exact ⟨false, fun k _ => ⟨parity_false _, parity_false _⟩⟩

/-- Sixty-five pages of zeros are written around the bad block and loaded again. -/
theorem scarred_boots_kernelLayout :
    ∃ t, reflash ({ scarredSession with eccpos := hwNandOobKernel } : Session).scanned
        (List.replicate (writesize * 65) 0) = some (0, t) ∧
      (bootFromNand { gpmc := t.gpmc, ram := fun _ => 0 }).map
          (fun final => (final.1, final.2.ram)) =
        some (CFG_LOADADDR + writesize * 832, storeAt (fun _ => 0) CFG_LOADADDR
          (padded (List.replicate (writesize * 65) 0) 832 65)) := by
  obtain ⟨_, -, -, -, layout, -⟩ := scanned_spec { scarredSession with eccpos := hwNandOobKernel }
  have scarred := scarred_scanned hwNandOobKernel
  generalize ({ scarredSession with eccpos := hwNandOobKernel } : Session).scanned = s
    at layout scarred
  have count := scarred_partitionPages.1
  rw [← scarred.cells] at count
  have size : (List.replicate (writesize * 65) (0 : UInt8)).length = writesize * 65 :=
    List.length_replicate
  have fits : 65 ≤ (partitionPages s.gpmc.chip.cells).length := by
    rw [count]
    decide
  obtain ⟨t, done⟩ := reflash_ok scarred.truthful layout (by decide) size (by decide) fits
    scarred.writable fun page _ => scarred.programFault page
  have boots := (@boots_kernelLayout_iff s t _ _ ⟨t.gpmc, fun _ => 0⟩ scarred.truthful layout
    size (by decide) fits (fun block _ _ => scarred.eraseFault block) done rfl).1
  rw [count] at boots
  refine ⟨t, done, boots.mpr ⟨?_, fun k _ => paritiesAgree_zeros _ k⟩⟩
  rw [scarred.cells]
  decide +kernel

/-! ## A flipped bit in a blank page -/

/-- Against the clear parities of a blank sector a code with one bit flipped is neither blank
nor right. -/
theorem correct_blank_code_flip {dat : Sector} (blank : ∀ addr < 4096, dat.bit addr = true)
    (place : Fin 24) :
    omapCorrectDataHwEcc dat (unwritten.flip place) (packEcc (gpmcResult dat)) = (-1, dat) := by
  have values : ∀ place : Fin 24, genTrueEcc (unwritten.flip place) ≠ 0 ∧
      hweight32 (genTrueEcc (unwritten.flip place)) ≠ 12 ∧
      hweight32 (genTrueEcc (unwritten.flip place)) ≠ 1 ∧
      genTrueEcc (unwritten.flip place) ≠ 0x0FFF0FFF := by
    decide
  obtain ⟨nonzero, notTwelve, notOne, notErased⟩ := values place
  simp only [omapCorrectDataHwEcc, genTrueEcc_blank blank, UInt32.xor_zero]
  rw [if_pos nonzero, if_neg notTwelve, if_neg notOne, if_neg fun erased => notErased erased.1]

/-- One flipped bit in the code of a page that was never written keeps the board from starting,
wherever in the partition it is. -/
theorem bootFromNand_blank_code_flip {board : Board} {block i j : ℕ} {place : Fin 24}
    (mem : block ∈ partitionBlocks) (kept : ¬ Skipped board.gpmc.chip.cells block)
    (page : i < MAX_NUM_PAGES) (sector : j < ECC_STEPS)
    (blank : pageData board.gpmc.chip.cells (BLOCK_PAGES * block + i) =
      List.replicate writesize 0xff)
    (code : pageCode board.gpmc.chip.cells (BLOCK_PAGES * block + i) j = unwritten.flip place) :
    bootFromNand board = none := by
  have failed : (sectorBack board.gpmc.chip.cells (BLOCK_PAGES * block + i) j).1 = -1 := by
    rw [sectorBack, blank, code, correct_blank_code_flip fun _ inside =>
      blankSector_bit sector inside]
  have unread : pageBack board.gpmc.chip.cells (BLOCK_PAGES * block + i) = none :=
    if_pos ⟨j, sector, failed⟩
  have unloaded : blockPiece board.gpmc.chip.cells block = none := by
    rw [blockPiece, if_neg kept]
    exact gather_eq_none (List.mem_range.mpr page) unread
  have boot := bootFromNand_eq board
  rw [partitionBack, gather_eq_none mem unloaded, Option.map_none] at boot
  exact Option.map_eq_none_iff.mp boot

/-- A blank flash with one bit flipped in the spare area of the last page of the partition. -/
def flippedBoard : Board where
  gpmc :=
    { blankSession.gpmc with
      chip :=
        { blankSession.gpmc.chip with
          cells := fun page k => if page = 1151 ∧ k = 1025 then 0xFFFE else 0xFFFF } }
  ram := fun _ => 0

theorem flippedBoard_bootFromNand : bootFromNand flippedBoard = none := by
  refine bootFromNand_blank_code_flip (show 17 ∈ partitionBlocks by decide) (by decide)
    (show 63 < MAX_NUM_PAGES by decide) (show 0 < ECC_STEPS by decide) ?_
    (show _ = unwritten.flip 0 from rfl)
  apply bytesOf_words_blank
  intro k lt
  have data : ¬ (BLOCK_PAGES * 17 + 63 = 1151 ∧ 0 + k = 1025) := by omega
  exact if_neg data

end Rhino.Flash
