import Rhino.Flash.BadBlocks

/-!
# Writing whole pages

`nand_write` sends a buffer page by page.  It ends at the first page that cannot be
programmed; otherwise each page holds its part of the buffer with the codes, as far as the
bits that were set before allow.
-/

namespace Rhino.Flash.UBoot

open Rhino.Bytes Rhino.Nand

/-- The words of a page with its codes. -/
def pageContent (first : ℕ) (buf : List UInt8) : ℕ → UInt16 :=
  loaded (fun _ => 0xFFFF) 0 (wordsOf (pageImage first buf))

/-- Nothing but the cells of some pages has changed. -/
structure Framed (s : Session) (pages : ℕ → Prop) (t : Session) : Prop where
  cells : ∀ page, ¬ pages page → t.gpmc.chip.cells page = s.gpmc.chip.cells page
  wiring : t.gpmc.chip.wiring = s.gpmc.chip.wiring
  bbt : t.bbt = s.bbt
  eccpos : t.eccpos = s.eccpos

namespace Framed

variable {s t u : Session} {pages more : ℕ → Prop}

theorem trans (first : Framed s pages t) (second : Framed t pages u) : Framed s pages u :=
  ⟨fun page outside => (second.cells page outside).trans (first.cells page outside),
    second.wiring.trans first.wiring, second.bbt.trans first.bbt,
    second.eccpos.trans first.eccpos⟩

theorem mono (framed : Framed s pages t) (le : ∀ page, pages page → more page) :
    Framed s more t :=
  ⟨fun page outside => framed.cells page fun inside => outside (le page inside), framed.wiring,
    framed.bbt, framed.eccpos⟩

theorem writable (framed : Framed s pages t) :
    t.gpmc.chip.writable = s.gpmc.chip.writable :=
  congrArg Prod.fst framed.wiring

theorem programFault (framed : Framed s pages t) :
    t.gpmc.chip.programFault = s.gpmc.chip.programFault :=
  congrArg (·.2.1) framed.wiring

theorem eraseFault (framed : Framed s pages t) :
    t.gpmc.chip.eraseFault = s.gpmc.chip.eraseFault :=
  congrArg (·.2.2) framed.wiring

end Framed

theorem Unchanged.framed {s t : Session} (unchanged : Unchanged s t) (pages : ℕ → Prop) :
    Framed s pages t :=
  ⟨fun page _ => congrFun unchanged.cells page, unchanged.wiring, unchanged.bbt,
    unchanged.eccpos⟩

/-- A buffer is written to some pages: all of it unless one of them has a fault, and nothing
but these pages is touched. -/
structure WritesTo (s : Session) (first : ℕ) (pages : List ℕ) (buf : List UInt8) (rval : ℤ)
    (t : Session) : Prop where
  framed : Framed s (· ∈ pages) t
  ok_iff : rval = 0 ↔ s.gpmc.chip.writable = true ∧
    ∀ page ∈ pages, s.gpmc.chip.programFault page = none
  content : rval = 0 → ∀ i page, pages[i]? = some page → ∀ k,
    t.gpmc.chip.cells page k =
      s.gpmc.chip.cells page k &&& pageContent first (slice (writesize * i) writesize buf) k

namespace WritesTo

variable {s t u : Session} {first : ℕ} {pages more : List ℕ} {buf : List UInt8} {rval : ℤ}

/-- The pages behind a fault are not written. -/
theorem stop (writes : WritesTo s first pages buf rval t) (fault : rval ≠ 0) (more : List ℕ) :
    WritesTo s first (pages ++ more) buf rval t where
  framed := writes.framed.mono fun _ mem => List.mem_append_left _ mem
  ok_iff := by
    refine iff_of_false fault fun sound => fault (writes.ok_iff.mpr ⟨sound.1, ?_⟩)
    exact fun page mem => sound.2 page (List.mem_append_left _ mem)
  content ok := absurd ok fault

/-- Nothing was written before. -/
theorem after (writes : WritesTo t first pages buf rval u) (unchanged : Unchanged s t) :
    WritesTo s first pages buf rval u where
  framed := (unchanged.framed _).trans writes.framed
  ok_iff := by
    have framed := unchanged.framed fun _ => False
    rw [writes.ok_iff, framed.writable, framed.programFault]
  content ok i page found k := by
    rw [writes.content ok i page found k, unchanged.cells]

/-- Only as much of the buffer counts as there are pages. -/
theorem of_take (writes : WritesTo s first pages (buf.take (writesize * pages.length)) rval t) :
    WritesTo s first pages buf rval t where
  framed := writes.framed
  ok_iff := writes.ok_iff
  content ok i page found k := by
    have lt : i < pages.length := (List.getElem?_eq_some_iff.mp found).1
    have room : writesize ≤ writesize * pages.length - writesize * i := by
      rw [← Nat.mul_sub]
      exact Nat.le_mul_of_pos_right _ (by omega)
    have part : slice (writesize * i) writesize (buf.take (writesize * pages.length)) =
        slice (writesize * i) writesize buf := by
      rw [slice, slice, List.drop_take, List.take_take, Nat.min_eq_left room]
    rw [writes.content ok i page found k, part]

/-- The rest of the buffer goes to other pages. -/
theorem append (writes : WritesTo s first pages buf 0 t)
    (rest : WritesTo t first more (buf.drop (writesize * pages.length)) rval u)
    (apart : ∀ page ∈ pages, page ∉ more) : WritesTo s first (pages ++ more) buf rval u where
  framed := (writes.framed.mono fun _ mem => List.mem_append_left _ mem).trans
    (rest.framed.mono fun _ mem => List.mem_append_right _ mem)
  ok_iff := by
    obtain ⟨writable, sound⟩ := writes.ok_iff.mp rfl
    rw [rest.ok_iff, writes.framed.writable, writes.framed.programFault]
    constructor
    · rintro ⟨_, others⟩
      exact ⟨writable, fun page mem => (List.mem_append.mp mem).elim (sound page) (others page)⟩
    · rintro ⟨_, all⟩
      exact ⟨writable, fun page mem => all page (List.mem_append_right _ mem)⟩
  content ok i page found k := by
    by_cases front : i < pages.length
    · rw [List.getElem?_append_left front] at found
      have mem := List.mem_of_getElem? found
      rw [rest.framed.cells page (apart page mem)]
      exact writes.content rfl i page found k
    · rw [List.getElem?_append_right (by omega)] at found
      have mem := List.mem_of_getElem? found
      have part : slice (writesize * (i - pages.length)) writesize
          (buf.drop (writesize * pages.length)) = slice (writesize * i) writesize buf := by
        rw [slice, slice, List.drop_drop, ← Nat.mul_add, Nat.add_sub_cancel' (by omega)]
      have placed := rest.content ok _ page found k
      rwa [writes.framed.cells page fun here => apart page here mem, part] at placed

end WritesTo

theorem wiring_programPage (chip : Chip) (page : ℕ) (register : ℕ → UInt16) :
    (chip.programPage page register).wiring = chip.wiring := by
  unfold Chip.programPage
  split
  · split <;> rfl
  · rfl

theorem cells_programPage_of_ne (chip : Chip) {page other : ℕ} (ne : other ≠ page)
    (register : ℕ → UInt16) : (chip.programPage page register).cells other = chip.cells other := by
  unfold Chip.programPage
  split
  · split
    · exact Function.update_of_ne ne _ _
    · exact Function.update_of_ne ne _ _
  · rfl

theorem cells_programPage (chip : Chip) (writable : chip.writable = true) {page : ℕ}
    (sound : chip.programFault page = none) (register : ℕ → UInt16) (k : ℕ) :
    (chip.programPage page register).cells page k = chip.cells page k &&& register k := by
  unfold Chip.programPage
  rw [if_pos writable, sound]
  exact congrFun (Function.update_self page _ chip.cells) k

/-- A session whose layout starts at `first` and whose buffer holds the codes of some page. -/
structure Laid (s : Session) (first : ℕ) : Prop where
  layout : s.eccpos = List.range' first 12
  spare : ∃ old, old.length = 12 ∧ s.oobPoi = spareWith first old

/-- One page of data. -/
theorem writesTo_nandWritePage {s : Session} {first page : ℕ} {buf : List UInt8}
    (laid : Laid s first) (writable : s.gpmc.chip.writable = true) (whole : writesize ≤ buf.length)
    (inside : page < 2 ^ 24) :
    WritesTo s first [page] buf (nandWritePage s (buf.take writesize) page).1
        (nandWritePage s (buf.take writesize) page).2 ∧
      Laid (nandWritePage s (buf.take writesize) page).2 first := by
  obtain ⟨old, before, spare⟩ := laid.spare
  obtain ⟨programmed, result⟩ := nandWritePage_eq laid.layout spare before
    (List.length_take_of_le whole) inside
  have driver := programmed.driver
  simp only [Session.driver, Prod.mk.injEq] at driver
  have ok_iff : (nandWritePage s (buf.take writesize) page).1 = 0 ↔
      s.gpmc.chip.programFault page = none := by
    rw [result]
    cases s.gpmc.chip.programFault page with
    | none => simp
    | some fault => simp [writable, eio]
  refine ⟨⟨⟨?_, ?_, driver.1, driver.2.1⟩, ?_, ?_⟩, ?_⟩
  · intro other outside
    rw [programmed.chip, Chip.enter_cells, cells_programPage_of_ne _ (by simpa using outside)]
  · rw [programmed.chip]
    exact wiring_programPage _ _ _
  · simp [ok_iff, writable]
  · intro ok i other found k
    obtain ⟨rfl, rfl⟩ : i = 0 ∧ page = other := by
      simpa [List.getElem?_singleton] using found
    rw [programmed.chip, Chip.enter_cells, cells_programPage _ writable (ok_iff.mp ok)]
    rfl
  · exact ⟨driver.2.1.trans laid.layout, pageCodes _, pageCodes_length _, driver.2.2⟩

theorem pageBytes_whole {writelen : ℕ} (whole : writesize ≤ writelen) :
    pageBytes 0 writelen = writesize := by
  unfold pageBytes
  rw [if_neg]
  simp only [writesize] at whole ⊢
  simp only [ne_eq, not_true_eq_false, false_or]
  omega

theorem pageBuf_whole {buf : List UInt8} (whole : writesize ≤ buf.length) :
    pageBuf 0 buf = buf.take writesize := by
  unfold pageBuf
  rw [if_neg]
  simp only [writesize] at whole ⊢
  simp only [ne_eq, not_true_eq_false, false_or]
  omega

theorem pagemask_of_lt {page : ℕ} (inside : page < 2 ^ 17) : page &&& pagemask = page :=
  (Nat.and_two_pow_sub_one_eq_mod page 17).trans (Nat.mod_eq_of_lt inside)

theorem writeOpsLoop_turn (s : Session) {start : ℕ} {buf : List UInt8}
    (whole : writesize ≤ buf.length) (inside : start < 2 ^ 17) :
    writeOpsLoop s start 0 buf =
      if (nandWritePage s (buf.take writesize) start).1 ≠ 0 then
        ((nandWritePage s (buf.take writesize) start).1, buf.length,
          (nandWritePage s (buf.take writesize) start).2)
      else if buf.length ≤ writesize then (0, 0, (nandWritePage s (buf.take writesize) start).2)
      else writeOpsLoop (nandWritePage s (buf.take writesize) start).2 (start + 1) 0
        (buf.drop writesize) := by
  rw [writeOpsLoop, pageBuf_whole whole, pagemask_of_lt inside, pageBytes_whole whole]

/-- The loop over whole pages; nothing is left if it ends well. -/
theorem writesTo_writeOpsLoop {first n : ℕ} {s : Session} {start : ℕ} {buf : List UInt8}
    (laid : Laid s first) (writable : s.gpmc.chip.writable = true)
    (size : buf.length = writesize * (n + 1)) (inside : start + n < 2 ^ 17) :
    WritesTo s first (List.range' start (n + 1)) buf (writeOpsLoop s start 0 buf).1
        (writeOpsLoop s start 0 buf).2.2 ∧
      ((writeOpsLoop s start 0 buf).1 = 0 → (writeOpsLoop s start 0 buf).2.1 = 0) := by
  have whole : writesize ≤ buf.length := by
    rw [size]
    exact Nat.le_mul_of_pos_right _ (by omega)
  obtain ⟨page, next⟩ :=
    writesTo_nandWritePage laid writable whole (show start < 2 ^ 24 by omega)
  have turn := writeOpsLoop_turn s whole (by omega : start < 2 ^ 17)
  generalize nandWritePage s (buf.take writesize) start = written at page next turn
  rw [List.range'_succ, ← List.singleton_append]
  by_cases fault : written.1 = 0
  · rw [if_neg (not_not.mpr fault)] at turn
    rw [fault] at page
    cases n with
    | zero =>
        rw [if_pos (by rw [size]; exact le_refl _)] at turn
        rw [turn]
        exact ⟨page, fun _ => rfl⟩
    | succ n =>
        have rest : (buf.drop writesize).length = writesize * (n + 1) := by
          rw [List.length_drop, size, Nat.mul_succ, Nat.add_sub_cancel]
        rw [if_neg (by rw [size, writesize]; omega)] at turn
        obtain ⟨others, left⟩ := writesTo_writeOpsLoop next
          (page.framed.writable.trans writable) rest (by omega : start + 1 + n < 2 ^ 17)
        rw [turn]
        refine ⟨page.append others ?_, left⟩
        intro other mem behind
        have := (List.mem_range'_1.mp behind).1
        have := List.mem_singleton.mp mem
        omega
  · -- the first fault ends the loop
    rw [if_pos fault] at turn
    rw [turn]
    exact ⟨page.stop fault _, fun ok => absurd ok fault⟩

/-- The driver sees the write-protect pin. -/
theorem nandCheckWp_eq (s : Session) :
    (nandCheckWp s).1 = !s.gpmc.chip.writable ∧ Unchanged s (nandCheckWp s).2 := by
  have asked : (nandCommandLp s NAND_CMD_STATUS.toNat none none).gpmc.chip =
      s.gpmc.chip.enter .status := by
    rw [nandCommandLp_status]
    rfl
  have driver : (nandCommandLp s NAND_CMD_STATUS.toNat none none).driver = s.driver := by
    rw [nandCommandLp_status]
    rfl
  simp only [Session.driver, Prod.mk.injEq] at driver
  obtain ⟨status, same⟩ := nandReadByte16_status
    (nandCommandLp s NAND_CMD_STATUS.toNat none none) (by rw [asked]; rfl)
  have pin : (s.gpmc.chip.enter .status).statusByte = s.gpmc.chip.statusByte := rfl
  have chip : (nandCheckWp s).2.gpmc.chip = s.gpmc.chip.enter .status := same.trans asked
  constructor
  · simp only [nandCheckWp, status, asked, pin, Chip.statusByte_protect]
    cases s.gpmc.chip.writable <;> rfl
  · exact ⟨by rw [chip]; rfl, by rw [chip]; rfl, driver.1, driver.2.1⟩

/-- Whole pages are written one after another. -/
theorem writesTo_nandWrite {s : Session} {first n : ℕ} (start : ℕ) {buf : List UInt8}
    (layout : s.eccpos = List.range' first 12) (room : first + 12 ≤ oobsize)
    (size : buf.length = writesize * (n + 1)) (inside : start + n < 2 ^ 17) :
    WritesTo s first (List.range' start (n + 1)) buf (nandWrite s (writesize * start) buf).1
        (nandWrite s (writesize * start) buf).2.2 ∧
      ((nandWrite s (writesize * start) buf).1 = 0 →
        (nandWrite s (writesize * start) buf).2.1 = buf.length) := by
  have fits : ¬ writesize * start + buf.length > mtdSize := by
    rw [size]
    simp only [writesize, mtdSize]
    omega
  have some : ¬ buf.length = 0 := by
    rw [size, writesize]
    omega
  have aligned : ¬ ((writesize * start) % subpagesize ≠ 0 ∨ buf.length % subpagesize ≠ 0) := by
    rw [size]
    simp only [writesize, subpagesize]
    omega
  have page : (writesize * start) >>> pageShift = start := by
    rw [Nat.shiftRight_eq_div_pow]
    exact Nat.mul_div_cancel_left start (by decide)
  have column : Fin.ofNat 2048 (writesize * start) = 0 := by
    apply Fin.ext
    exact Nat.mul_mod_right writesize start
  obtain ⟨protect, unchanged⟩ := nandCheckWp_eq s
  simp only [nandWrite, fits, some, nandDoWriteOps, aligned, if_false, protect, page, column]
  generalize (nandCheckWp s).2 = t at unchanged
  cases writable : s.gpmc.chip.writable with
  | false =>
      refine ⟨⟨unchanged.framed _, ?_, ?_⟩, ?_⟩
      · simp [writable, eio]
      · simp [eio]
      · simp [eio]
  | true =>
      have laid : Laid { t with oobPoi := List.replicate oobsize 0xff } first :=
        ⟨unchanged.eccpos.trans layout, List.replicate 12 0xff, List.length_replicate,
          (spareWith_blank room).symm⟩
      have still : t.gpmc.chip.writable = true :=
        (congrArg Prod.fst unchanged.wiring).trans writable
      obtain ⟨writes, left⟩ := writesTo_writeOpsLoop laid still size inside
      generalize writeOpsLoop { t with oobPoi := List.replicate oobsize 0xff } start 0 buf =
        written at writes left
      refine ⟨writes.after ⟨unchanged.cells, unchanged.wiring, unchanged.bbt, unchanged.eccpos⟩, ?_⟩
      intro ok
      simp [left ok]

end Rhino.Flash.UBoot
