import Rhino.Flash.UBoot

/-!
# What programming a page leaves in the cells

`nand_write_page` sends the four sectors of a page, each with the error correction on, and
then the spare area with their codes in the places of the layout.  A page that was erased
holds exactly these bytes afterwards.
-/

namespace Rhino.Flash.UBoot

open Rhino.Bytes Rhino.Nand

/-- The layout for the boot loaders. -/
def hwNandOob : List ℕ :=
  [2, 3, 4, 5, 6, 7, 8, 9, 10, 11, 12, 13]

/-- The layout for the kernel, which `board_nand_init` selects. -/
def hwNandOobKernel : List ℕ :=
  [40, 41, 42, 43, 44, 45, 46, 47, 48, 49, 50, 51]

/-- The bytes of the codes of a page. -/
def pageCodes (buf : List UInt8) : List UInt8 :=
  (List.range ECC_STEPS).flatMap fun i => (packEcc (gpmcResult (sectorAt buf i))).toList

theorem pageCodes_length (buf : List UInt8) : (pageCodes buf).length = 12 := by
  simp [pageCodes, List.length_flatMap, ECC_STEPS]

/-- The spare area with codes from one place on. -/
def spareWith (first : ℕ) (codes : List UInt8) : List UInt8 :=
  List.replicate first 0xff ++ codes ++ List.replicate (oobsize - first - codes.length) 0xff

/-- The bytes of a page and its spare area. -/
def pageImage (first : ℕ) (buf : List UInt8) : List UInt8 :=
  buf ++ spareWith first (pageCodes buf)

/-! ## Placing the codes -/

/-- Codes in consecutive places replace what stood there. -/
theorem placeCode_range' (front codes old back : List UInt8) (same : old.length = codes.length) :
    placeCode (List.range' front.length codes.length) codes (front ++ (old ++ back)) =
      front ++ (codes ++ back) := by
  induction codes generalizing front old with
  | nil =>
      rw [List.eq_nil_of_length_eq_zero same]
      rfl
  | cons code codes ih =>
      obtain ⟨stood, old, rfl⟩ := List.exists_cons_of_length_eq_add_one same
      have next := ih (front ++ [code]) old (by simpa using same)
      rw [List.length_append, List.length_singleton, List.append_assoc, List.append_assoc,
        List.singleton_append, List.singleton_append] at next
      rw [List.length_cons, List.range'_succ, placeCode, List.zip_cons_cons, List.foldl_cons,
        ← placeCode, List.set_append_right _ _ (le_refl _), Nat.sub_self, List.cons_append,
        List.set_cons_zero, next, List.cons_append]

/-- The codes of the page before are overwritten. -/
theorem placeCode_spareWith (first : ℕ) {codes old : List UInt8}
    (same : old.length = codes.length) :
    placeCode (List.range' first codes.length) codes (spareWith first old) =
      spareWith first codes := by
  have placed := placeCode_range' (List.replicate first 0xff) codes old
    (List.replicate (oobsize - first - codes.length) 0xff) same
  rw [List.length_replicate] at placed
  rw [spareWith, spareWith, List.append_assoc, List.append_assoc, same, placed]

theorem spareWith_blank {first count : ℕ} (fits : first + count ≤ oobsize) :
    spareWith first (List.replicate count 0xff) = List.replicate oobsize 0xff := by
  rw [spareWith, List.replicate_append_replicate, List.length_replicate,
    List.replicate_append_replicate]
  congr 1
  omega

/-! ## Sending the page -/

theorem nandWriteBuf16_eq (s : Session) (port : s.ioAddrW = .nandDat) (buf : List UInt8) :
    nandWriteBuf16 s buf = s.drive (s.gpmc.writeWords (wordsOf buf)) .nandDat := by
  have sent : ∀ (words : List UInt16) (gpmc : Gpmc),
      words.foldl Session.writew (s.drive gpmc .nandDat) =
        s.drive (gpmc.writeWords words) .nandDat := by
    intro words
    induction words with
    | nil => exact fun gpmc => rfl
    | cons word words ih => exact fun gpmc => ih (gpmc.write word)
  have start : s = s.drive s.gpmc .nandDat := by
    rw [Session.drive, ← port]
  rw [nandWriteBuf16]
  conv_lhs => rw [start]
  exact sent (wordsOf buf) s.gpmc

theorem loaded_loaded (register : ℕ → UInt16) (column : ℕ) (first second : List UInt16) :
    loaded (loaded register column first) (column + first.length) second =
      loaded register column (first ++ second) := by
  funext k
  unfold loaded
  by_cases behind : column + first.length ≤ k
  · have past : column ≤ k := by omega
    have none : first[k - column]? = none := List.getElem?_eq_none (by omega)
    rw [if_pos behind, if_pos past, if_pos past, none, List.getElem?_append_right (by omega),
      Option.getD_none, Nat.sub_sub]
  · rw [if_neg behind]
    by_cases past : column ≤ k
    · rw [if_pos past, if_pos past, List.getElem?_append_left (by omega)]
    · rw [if_neg past, if_neg past]

/-- What the driver itself keeps of the flash. -/
def Session.driver (s : Session) : Option Bbt × List ℕ × List UInt8 :=
  (s.bbt, s.eccpos, s.oobPoi)

/-- A session in which the words have been loaded into the register of a page. -/
structure Loading (s : Session) (page : ℕ) (words : List UInt16) (t : Session) : Prop where
  port : t.ioAddrW = .nandDat
  chip : t.gpmc.chip = s.gpmc.chip.enter
    (.input page words.length (loaded (fun _ => 0xFFFF) 0 words))
  driver : t.driver = s.driver

namespace Loading

variable {s t : Session} {page : ℕ} {words : List UInt16}

theorem start (s : Session) {page : ℕ} (inside : page < 2 ^ 24) :
    Loading s page [] (nandCommandLp s NAND_CMD_SEQIN.toNat (some 0) (some page)) := by
  have empty : loaded (fun _ => 0xFFFF) 0 [] = fun _ => 0xFFFF := by
    funext k
    simp [loaded]
  rw [nandCommandLp_seqin s inside]
  exact ⟨rfl, by rw [empty]; rfl, rfl⟩

/-- More words, with the error correction on or off. -/
theorem writeWords (loading : Loading s page words t) (buf : List UInt8) :
    Loading s page (words ++ wordsOf buf) (nandWriteBuf16 t buf) := by
  have sent := t.gpmc.writeWords_input (by rw [loading.chip]; rfl) (wordsOf buf)
  rw [nandWriteBuf16_eq t loading.port buf, sent]
  refine ⟨rfl, ?_, loading.driver⟩
  have whole := loaded_loaded (fun _ => 0xFFFF) 0 words (wordsOf buf)
  rw [Nat.zero_add] at whole
  rw [Session.drive_gpmc, loading.chip, Chip.enter_enter, whole, List.length_append]

/-- One sector: its words are loaded and its code is computed. -/
theorem writeSector (loading : Loading s page words t) (buf codes : List UInt8) {i : ℕ}
    (inside : 512 * i + 512 ≤ buf.length) :
    Loading s page (words ++ wordsOf (slice (512 * i) 512 buf))
        (UBoot.writeSector buf (codes, t) i).2 ∧
      (UBoot.writeSector buf (codes, t) i).1 =
        codes ++ (packEcc (gpmcResult (sectorAt buf i))).toList := by
  have size : (slice (512 * i) 512 buf).length = 2 * 256 := by
    rw [slice_length]
    omega
  have enabled : Loading s page words (omapEnableHwecc t) :=
    ⟨loading.port, loading.chip, loading.driver⟩
  have sent := enabled.writeWords (slice (512 * i) 512 buf)
  have passed : (nandWriteBuf16 (omapEnableHwecc t) (slice (512 * i) 512 buf)).gpmc.passed =
      wordsOf (slice (512 * i) 512 buf) := by
    rw [nandWriteBuf16_eq _ enabled.port, Session.drive_gpmc,
      Gpmc.writeWords_input _ (by rw [enabled.chip]; rfl)]
    rfl
  constructor
  · exact ⟨sent.port, sent.chip, sent.driver⟩
  · have result : sectorAt (slice (512 * i) 512 buf) 0 = sectorAt buf i := by
      rw [sectorAt, slice_whole size]
      rfl
    simp only [UBoot.writeSector, omapCalculateEcc, Gpmc.rawReadl, passed, bytesOf_wordsOf size]
    rw [← result]
    rfl

/-- The four sectors of a page. -/
theorem writeSectors (loading : Loading s page [] t) {buf : List UInt8}
    (full : buf.length = writesize) :
    Loading s page (wordsOf buf) ((List.range ECC_STEPS).foldl (UBoot.writeSector buf) ([], t)).2 ∧
      ((List.range ECC_STEPS).foldl (UBoot.writeSector buf) ([], t)).1 = pageCodes buf := by
  -- after `n` sectors the first `512 * n` bytes are loaded
  have sectors : ∀ n ≤ ECC_STEPS,
      Loading s page (wordsOf (slice 0 (512 * n) buf))
          ((List.range n).foldl (UBoot.writeSector buf) ([], t)).2 ∧
        ((List.range n).foldl (UBoot.writeSector buf) ([], t)).1 =
          (List.range n).flatMap fun i => (packEcc (gpmcResult (sectorAt buf i))).toList := by
    intro n le
    induction n with
    | zero => exact ⟨loading, rfl⟩
    | succ n ih =>
        have inside : 512 * n + 512 ≤ buf.length := by
          rw [full]
          simp only [ECC_STEPS, writesize] at le ⊢
          omega
        obtain ⟨loaded, codes⟩ := ih (by omega)
        obtain ⟨more, code⟩ := loaded.writeSector buf
          ((List.range n).foldl (UBoot.writeSector buf) ([], t)).1 inside
        have front : (slice 0 (512 * n) buf).length = 2 * (256 * n) := by
          rw [slice_length]
          omega
        rw [← wordsOf_append front, slice_append_slice (Nat.zero_add _).symm] at more
        rw [List.range_succ, List.foldl_append, List.flatMap_append, List.foldl_cons,
          List.foldl_nil, ← codes]
        exact ⟨more, by rw [code]; simp⟩
  have whole := sectors ECC_STEPS (le_refl _)
  rwa [slice_whole (show buf.length = 512 * ECC_STEPS from full)] at whole

end Loading

/-! ## Waiting for the chip -/

theorem nandReadByte16_status (s : Session) (mode : s.gpmc.chip.mode = .status) :
    (nandReadByte16 s).1 = s.gpmc.chip.statusByte ∧
      (nandReadByte16 s).2.gpmc.chip = s.gpmc.chip := by
  have read : s.gpmc.chip.read = (s.gpmc.chip.statusByte.toUInt16, s.gpmc.chip) := by
    simp only [Chip.read, mode]
  simp [nandReadByte16, Session.readw, Gpmc.read, read]

theorem nandWait_eq (s : Session) :
    ((nandWait s).1 &&& 0x01 ≠ 0 ↔ s.gpmc.chip.failed) ∧
      (nandWait s).2.gpmc.chip = s.gpmc.chip.enter .status ∧
      (nandWait s).2.driver = s.driver := by
  have asked : (nandCommandLp s NAND_CMD_STATUS.toNat none none).gpmc.chip =
      s.gpmc.chip.enter .status := by
    rw [nandCommandLp_status]
    rfl
  have driver : (nandCommandLp s NAND_CMD_STATUS.toNat none none).driver = s.driver := by
    rw [nandCommandLp_status]
    rfl
  obtain ⟨polled, same⟩ := nandReadByte16_status
    (nandCommandLp s NAND_CMD_STATUS.toNat none none) (by rw [asked]; rfl)
  obtain ⟨status, again⟩ := nandReadByte16_status
    (nandReadByte16 (nandCommandLp s NAND_CMD_STATUS.toNat none none)).2
    (by rw [same, asked]; rfl)
  have value : (s.gpmc.chip.enter .status).statusByte = s.gpmc.chip.statusByte := rfl
  unfold nandWait Chip.failed
  simp only [polled, asked, value, Chip.statusByte_ready]
  split
  · rename_i ready
    refine ⟨?_, again.trans (same.trans asked), driver⟩
    rw [status, same, asked, value, Chip.statusByte_fail]
    simp [ready]
  · rename_i busy
    refine ⟨?_, same.trans asked, driver⟩
    have stuck : s.gpmc.chip.status &&& 0x40 = 0 := not_not.mp busy
    simp [stuck]

/-! ## Programming a page -/

/-- The session after a page has been sent and programmed. -/
structure Programmed (s : Session) (first page : ℕ) (buf : List UInt8) (t : Session) : Prop where
  chip : t.gpmc.chip = (s.gpmc.chip.programPage page
    (loaded (fun _ => 0xFFFF) 0 (wordsOf (pageImage first buf)))).enter .status
  driver : t.driver = (s.bbt, s.eccpos, spareWith first (pageCodes buf))

section Page

variable {s : Session} {first page : ℕ} {old buf : List UInt8}
  (layout : s.eccpos = List.range' first 12) (spare : s.oobPoi = spareWith first old)
  (before : old.length = 12) (full : buf.length = writesize) (inside : page < 2 ^ 24)

include layout spare before full inside

theorem loading_nandWritePageHwecc :
    Loading { s with oobPoi := spareWith first (pageCodes buf) } page
      (wordsOf (pageImage first buf))
      (nandWritePageHwecc (nandCommandLp s NAND_CMD_SEQIN.toNat (some 0) (some page)) buf) := by
  obtain ⟨sent, codes⟩ := (Loading.start s inside).writeSectors full
  have driver := sent.driver
  simp only [Session.driver, Prod.mk.injEq] at driver
  set t := ((List.range ECC_STEPS).foldl (writeSector buf)
    ([], nandCommandLp s NAND_CMD_SEQIN.toNat (some 0) (some page))).2 with t_eq
  have placed : placeCode t.eccpos (pageCodes buf) t.oobPoi = spareWith first (pageCodes buf) := by
    rw [driver.2.1, driver.2.2, layout, spare, ← pageCodes_length buf]
    exact placeCode_spareWith first (before.trans (pageCodes_length buf).symm)
  have ready : Loading { s with oobPoi := spareWith first (pageCodes buf) } page (wordsOf buf)
      { t with oobPoi := spareWith first (pageCodes buf) } :=
    ⟨sent.port, sent.chip, by simp [Session.driver, driver]⟩
  have whole := ready.writeWords (spareWith first (pageCodes buf))
  rw [← wordsOf_append (show buf.length = 2 * 1024 from full), ← pageImage] at whole
  simp only [nandWritePageHwecc, codes, ← t_eq, placed]
  exact whole

/-- The page is programmed with the data and its codes, and a fault is returned. -/
theorem nandWritePage_eq :
    Programmed s first page buf (nandWritePage s buf page).2 ∧
      (nandWritePage s buf page).1 =
        if s.gpmc.chip.writable = true ∧ (s.gpmc.chip.programFault page).isSome then -eio
        else 0 := by
  have loading := loading_nandWritePageHwecc layout spare before full inside
  set sent := nandWritePageHwecc (nandCommandLp s NAND_CMD_SEQIN.toNat (some 0) (some page)) buf
    with sent_eq
  have programmed := nandCommandLp_pageprog sent (by rw [loading.chip]; rfl)
  obtain ⟨failed, chip, driver⟩ :=
    nandWait_eq (nandCommandLp sent NAND_CMD_PAGEPROG.toNat none none)
  have result : (nandCommandLp sent NAND_CMD_PAGEPROG.toNat none none).gpmc.chip =
      s.gpmc.chip.programPage page
        (loaded (fun _ => 0xFFFF) 0 (wordsOf (pageImage first buf))) := by
    rw [programmed, Session.drive_gpmc, loading.chip, Chip.enter_programPage]
  rw [result, Chip.programPage_failed_iff] at failed
  rw [result] at chip
  have kept : (nandCommandLp sent NAND_CMD_PAGEPROG.toNat none none).driver = sent.driver := by
    rw [programmed]
    rfl
  constructor
  · exact ⟨chip, driver.trans (kept.trans loading.driver)⟩
  · simp only [nandWritePage, ← sent_eq, failed]

end Page

end Rhino.Flash.UBoot
