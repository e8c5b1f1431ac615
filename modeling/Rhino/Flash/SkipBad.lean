import Rhino.Flash.Writing

/-!
# Erasing and writing past bad blocks

`nand_erase_opts` and `nand_write_skip_bad` in `drivers/mtd/nand/nand_util.c` leave the bad
blocks out.  A write that reaches exactly to the end of the flash is the exception: its
length then agrees with the length including bad blocks, and it is carried out in one piece.
-/

namespace Rhino.Flash.UBoot

open Rhino.Bytes Rhino.Nand

/-- `nand_erase_nand` for one block. -/
def nandErase (s : Session) (addr : ℕ) : ℤ × Session :=
  if addr % erasesize ≠ 0 then (-einval, s)
  else if erasesize + addr > mtdSize then (-einval, s)
  else
    let wp := nandCheckWp s
    if wp.1 then (-eio, wp.2)
    else
      let bad := nandBlockCheckbad wp.2 ((addr >>> pageShift) <<< pageShift)
      if bad.1 ≠ 0 then (-eio, bad.2)
      else
        let s := nandCommandLp bad.2 NAND_CMD_ERASE1.toNat none
          (some ((addr >>> pageShift) &&& pagemask))
        let s := nandCommandLp s NAND_CMD_ERASE2.toNat none none
        let status := nandWait s
        (if status.1 &&& 0x01 ≠ 0 then -eio else 0, status.2)

/-- The loop of `nand_erase_opts`; a block that cannot be erased is passed over in silence. -/
def eraseLoop : List ℕ → Session → ℤ × Session
  | [], s => (0, s)
  | addr :: rest, s =>
      let bad := nandBlockIsbad s addr
      if bad.1 > 0 then eraseLoop rest bad.2
      else if bad.1 < 0 then (-1, bad.2)
      else eraseLoop rest (nandErase bad.2 addr).2

/-- `nand_erase_opts`, without its options. -/
def nandEraseOpts (s : Session) (offset length : ℕ) : ℤ × Session :=
  let eraseLength := if length < erasesize then erasesize else length
  eraseLoop ((List.range ((eraseLength + erasesize - 1) / erasesize)).map
    (offset + erasesize * ·)) s

/-- `get_len_incl_bad`, with what has been counted so far. -/
def getLenInclBad (s : Session) (offset length lenInclBad lenExclBad : ℕ) : ℕ × Session :=
  if lenExclBad < length then
    let blockLen := erasesize - offset % erasesize
    let bad := nandBlockIsbad s (offset - offset % erasesize)
    let lenExclBad := if bad.1 = 0 then lenExclBad + blockLen else lenExclBad
    if offset + blockLen ≥ mtdSize then (lenInclBad + blockLen, bad.2)
    else getLenInclBad bad.2 (offset + blockLen) length (lenInclBad + blockLen) lenExclBad
  else (lenInclBad, s)
termination_by mtdSize - offset
decreasing_by
  rename_i inside
  have pos : offset % erasesize < erasesize := Nat.mod_lt _ (by decide)
  omega

/-- The loop of `nand_write_skip_bad`; `none` if it would go on for ever: beyond the end of the
flash, where no block counts as good, or after a write that gets nowhere. -/
def writeSkipLoop (s : Session) (offset : ℕ) (buf : List UInt8) : Option (ℤ × Session) :=
  if buf.length = 0 then some (0, s)
  else if mtdSize < offset then none
  else
    let blockOffset := offset % erasesize
    let bad := nandBlockIsbad s (offset - blockOffset)
    if bad.1 ≠ 0 then writeSkipLoop bad.2 (offset + (erasesize - blockOffset)) buf
    else
      let writeSize := if buf.length < erasesize - blockOffset then buf.length
        else erasesize - blockOffset
      let written := nandWrite bad.2 offset (buf.take writeSize)
      if written.1 ≠ 0 then some (written.1, written.2.2)
      else if written.2.1 = 0 then none
      else writeSkipLoop written.2.2 (offset + written.2.1) (buf.drop written.2.1)
termination_by mtdSize + 1 - offset
decreasing_by
  · have pos : offset % erasesize < erasesize := Nat.mod_lt _ (by decide)
    omega
  · rename_i moved
    have ahead : offset < offset + written.2.1 := by omega
    exact Nat.sub_lt_sub_left (by omega) ahead

/-- `nand_write_skip_bad`. -/
def nandWriteSkipBad (s : Session) (offset : ℕ) (buffer : List UInt8) : Option (ℤ × Session) :=
  if offset % writesize ≠ 0 ∨ buffer.length % writesize ≠ 0 then some (-einval, s)
  else
    let lenInclBad := getLenInclBad s offset buffer.length 0 0
    if offset + lenInclBad.1 > mtdSize then some (-einval, lenInclBad.2)
    else if lenInclBad.1 = buffer.length then
      let written := nandWrite lenInclBad.2 offset buffer
      some (written.1, written.2.2)
    else writeSkipLoop lenInclBad.2 offset buffer

/-! ## The table as it is used -/

/-- A block that the table has as bad. -/
def BadIn (bbt : Bbt) (block : ℕ) : Prop :=
  nandIsbadBbt bbt (erasesize * block) ≠ 0

instance BadIn.decidable (bbt : Bbt) (block : ℕ) : Decidable (BadIn bbt block) :=
  inferInstanceAs (Decidable (_ ≠ _))

/-- The session after the first question about a block. -/
def Session.scanned (s : Session) : Session :=
  if s.bbt.isNone then nandScanBbt s else s

theorem nandBlockIsbad_scanned (s : Session) {offs : ℕ} (inside : offs ≤ mtdSize) :
    nandBlockIsbad s offs = nandBlockIsbad s.scanned offs := by
  rw [nandBlockIsbad, nandBlockIsbad, if_neg (by omega), if_neg (by omega)]
  unfold nandBlockCheckbad Session.scanned
  cases none : s.bbt.isNone with
  | false => simp [none]
  | true =>
      obtain ⟨bbt, known, -⟩ := nandScanBbt_eq s
      simp [known]

section Known

variable {s : Session} {bbt : Bbt} (known : s.bbt = some bbt)

include known

theorem nandBlockCheckbad_known (ofs : ℕ) :
    nandBlockCheckbad s ofs = (nandIsbadBbt bbt ofs, s) := by
  simp [nandBlockCheckbad, known]

theorem nandBlockIsbad_known {block : ℕ} (inside : block ≤ 2048) :
    nandBlockIsbad s (erasesize * block) = (if BadIn bbt block then 1 else 0, s) := by
  have le : ¬ erasesize * block > mtdSize := by
    simp only [erasesize, mtdSize]
    omega
  rw [nandBlockIsbad, if_neg le, nandBlockCheckbad_known known]
  have result := nandIsbadBbt_eq bbt block
  split at result
  · have good : ¬ BadIn bbt block := not_not.mpr result
    rw [result, if_neg good]
  · have bad : BadIn bbt block := by
      rw [BadIn, result]
      decide
    rw [result, if_pos bad]

end Known

/-- The block behind the flash is not bad. -/
theorem not_badIn_end (bbt : Bbt) : ¬ BadIn bbt 2048 := by
  have outside : bbt.bytes.getD (2048 / 4) 0 = 0 := by
    rw [List.getD_eq_default]
    rw [bbt.size]
    decide
  rw [BadIn, not_not, nandIsbadBbt_eq, entry, outside]
  rfl

/-! ## Erasing -/

theorem wiring_eraseBlock (chip : Chip) (block : ℕ) :
    (chip.eraseBlock block).wiring = chip.wiring := by
  unfold Chip.eraseBlock
  split
  · split <;> rfl
  · rfl

theorem cells_eraseBlock_of_ne (chip : Chip) {block page : ℕ} (ne : page / BLOCK_PAGES ≠ block) :
    (chip.eraseBlock block).cells page = chip.cells page := by
  unfold Chip.eraseBlock
  split
  · split
    · funext k
      exact if_neg ne
    · funext k
      exact if_neg ne
  · rfl

theorem cells_eraseBlock (chip : Chip) (writable : chip.writable = true) {block page : ℕ}
    (sound : chip.eraseFault block = none) (eq : page / BLOCK_PAGES = block) (k : ℕ) :
    (chip.eraseBlock block).cells page k = 0xFFFF := by
  unfold Chip.eraseBlock
  rw [if_pos writable, sound]
  exact if_pos eq

/-- Some blocks are erased as far as the chip allows, and nothing else is touched. -/
structure Erases (s : Session) (blocks : ℕ → Prop) (t : Session) : Prop where
  framed : Framed s (fun page => blocks (page / BLOCK_PAGES)) t
  blank : s.gpmc.chip.writable = true → ∀ page, blocks (page / BLOCK_PAGES) →
    s.gpmc.chip.eraseFault (page / BLOCK_PAGES) = none → ∀ k, t.gpmc.chip.cells page k = 0xFFFF

namespace Erases

variable {s t u : Session} {blocks more : ℕ → Prop}

/-- What has been erased stays blank if more is erased. -/
theorem trans (first : Erases s blocks t) (second : Erases t more u) :
    Erases s (fun block => blocks block ∨ more block) u where
  framed := (first.framed.mono fun _ inside => .inl inside).trans
    (second.framed.mono fun _ inside => .inr inside)
  blank writable page inside sound k := by
    have writable' := first.framed.writable.trans writable
    have sound' : t.gpmc.chip.eraseFault (page / BLOCK_PAGES) = none := by
      rw [first.framed.eraseFault, sound]
    by_cases again : more (page / BLOCK_PAGES)
    · exact second.blank writable' page again sound' k
    · rw [second.framed.cells page again]
      exact first.blank writable page (inside.resolve_right again) sound k

theorem congr (erases : Erases s blocks t) (same : ∀ block, blocks block ↔ more block) :
    Erases s more t := by
  obtain rfl : blocks = more := funext fun block => propext (same block)
  exact erases

end Erases

theorem erases_none (s : Session) : Erases s (fun _ => False) s :=
  ⟨(Unchanged.refl s).framed _, fun _ _ none => none.elim⟩

/-- One block that is not bad. -/
theorem erases_nandErase {s : Session} {bbt : Bbt} (known : s.bbt = some bbt) {block : ℕ}
    (inside : block < 2048) (good : ¬ BadIn bbt block) :
    Erases s (· = block) (nandErase s (erasesize * block)).2 := by
  have aligned : ¬ (erasesize * block) % erasesize ≠ 0 := by
    rw [Nat.mul_mod_right]
    exact not_not.mpr rfl
  have fits : ¬ erasesize + erasesize * block > mtdSize := by
    simp only [erasesize, mtdSize]
    omega
  have first : ((erasesize * block) >>> pageShift) <<< pageShift = erasesize * block := by
    rw [Nat.shiftRight_eq_div_pow, Nat.shiftLeft_eq]
    simp only [erasesize, pageShift]
    omega
  obtain ⟨protect, unchanged⟩ := nandCheckWp_eq s
  simp only [nandErase, aligned, fits, first, if_false, protect]
  generalize (nandCheckWp s).2 = t at unchanged
  have known' : t.bbt = some bbt := unchanged.bbt.trans known
  have framed := unchanged.framed fun page => page / BLOCK_PAGES = block
  cases writable : s.gpmc.chip.writable with
  | false =>
      refine ⟨framed, ?_⟩
      intro writable'
      rw [writable] at writable'
      cases writable'
  | true =>
      have page : BLOCK_PAGES * block < 2 ^ 24 := by
        simp only [BLOCK_PAGES]
        omega
      have number : BLOCK_PAGES * block / BLOCK_PAGES = block :=
        Nat.mul_div_cancel_left block (by decide)
      simp only [nandBlockCheckbad_known known', not_not.mp good, erasesize_page inside,
        nandCommandLp_erase t page, number, Bool.not_true, Bool.false_eq_true, ne_eq,
        not_true_eq_false, if_false]
      obtain ⟨-, chip, driver⟩ := nandWait_eq
        (t.drive { t.gpmc with chip := t.gpmc.chip.eraseBlock block } .nandDat)
      simp only [Session.driver, Prod.mk.injEq] at driver
      have erased : Erases t (· = block) (nandWait
          (t.drive { t.gpmc with chip := t.gpmc.chip.eraseBlock block } .nandDat)).2 := by
        refine ⟨⟨?_, ?_, driver.1, driver.2.1⟩, ?_⟩
        · intro other outside
          rw [chip]
          exact cells_eraseBlock_of_ne _ outside
        · rw [chip]
          exact wiring_eraseBlock _ _
        · intro writable' other here sound k
          rw [chip]
          exact cells_eraseBlock _ writable' (here ▸ sound) here k
      refine ⟨framed.trans erased.framed, ?_⟩
      intro writable' other here sound k
      refine erased.blank (framed.writable.trans writable') other here ?_ k
      rw [framed.eraseFault, sound]

/-- The loop passes over the bad blocks and always ends well. -/
theorem eraseLoop_eq {s : Session} {bbt : Bbt} (known : s.bbt = some bbt)
    (blocks : List ℕ) (inside : ∀ block ∈ blocks, block < 2048) :
    (eraseLoop (blocks.map (erasesize * ·)) s).1 = 0 ∧
      Erases s (fun block => block ∈ blocks ∧ ¬ BadIn bbt block)
        (eraseLoop (blocks.map (erasesize * ·)) s).2 := by
  induction blocks generalizing s with
  | nil => exact ⟨rfl, (erases_none s).congr fun block => by simp⟩
  | cons block rest ih =>
      have lt := inside block List.mem_cons_self
      have others : ∀ block ∈ rest, block < 2048 := fun other mem =>
        inside other (List.mem_cons_of_mem _ mem)
      rw [List.map_cons, eraseLoop]
      simp only [nandBlockIsbad_known known lt.le]
      by_cases bad : BadIn bbt block
      · obtain ⟨ok, erases⟩ := ih known others
        rw [if_pos bad, if_pos (by decide)]
        refine ⟨ok, erases.congr fun other => ?_⟩
        grind
      · have erased := erases_nandErase known lt bad
        obtain ⟨ok, erases⟩ := ih (erased.framed.bbt.trans known) others
        rw [if_neg bad, if_neg (by decide), if_neg (by decide)]
        refine ⟨ok, (erased.trans erases).congr fun other => ?_⟩
        grind

theorem nandEraseOpts_eq {s : Session} {bbt : Bbt} (known : s.bbt = some bbt)
    (start count : ℕ) (some : 0 < count) (inside : start + count ≤ 2048) :
    (nandEraseOpts s (erasesize * start) (erasesize * count)).1 = 0 ∧
      Erases s (fun block => (start ≤ block ∧ block < start + count) ∧ ¬ BadIn bbt block)
        (nandEraseOpts s (erasesize * start) (erasesize * count)).2 := by
  have long : ¬ erasesize * count < erasesize := by
    have := Nat.le_mul_of_pos_right erasesize some
    omega
  have turns : (erasesize * count + erasesize - 1) / erasesize = count := by
    simp only [erasesize]
    omega
  have addresses : (List.range count).map (fun k => erasesize * start + erasesize * k) =
      (List.range' start count).map (erasesize * ·) := by
    rw [List.range'_eq_map_range, List.map_map]
    apply List.map_congr_left
    intro k _
    exact (Nat.mul_add _ _ _).symm
  obtain ⟨ok, erases⟩ := eraseLoop_eq known (List.range' start count) (by
    intro block mem
    have := List.mem_range'_1.mp mem
    omega)
  simp only [nandEraseOpts, long, if_false, turns, addresses]
  exact ⟨ok, erases.congr fun block => by rw [List.mem_range'_1]⟩

/-! ## The length including bad blocks -/

theorem block_start (offset : ℕ) :
    offset - offset % erasesize = erasesize * (offset / erasesize) := by
  have := Nat.div_add_mod offset erasesize
  omega

/-- The length never passes the end of the flash.  It is the given one only if there is no bad
block in between or the end has been reached. -/
theorem getLenInclBad_eq {s : Session} {bbt : Bbt} (known : s.bbt = some bbt)
    (offset length incl excl : ℕ) (inside : offset < mtdSize) (le : excl ≤ incl)
    (turn : excl < length ∨ offset % erasesize = 0) :
    ∃ more, getLenInclBad s offset length incl excl = (incl + more, s) ∧
      offset + more ≤ mtdSize ∧
      (length ≤ incl + more ∨ offset + more = mtdSize) ∧
      (incl + more = length → offset + more = mtdSize ∨
        excl = incl ∧ ∀ block, offset / erasesize ≤ block → erasesize * block < offset + more →
          ¬ BadIn bbt block) := by
  have pos : offset % erasesize < erasesize := Nat.mod_lt _ (by decide)
  have split := Nat.div_add_mod offset erasesize
  have number : offset / erasesize < 2048 := by
    simp only [mtdSize] at inside
    simp only [erasesize]
    omega
  have size : mtdSize = erasesize * 2048 := rfl
  have next : offset + (erasesize - offset % erasesize) = erasesize * (offset / erasesize + 1) := by
    rw [Nat.mul_succ]
    omega
  have reach : offset + (erasesize - offset % erasesize) ≤ mtdSize := by
    rw [next, size]
    exact Nat.mul_le_mul_left _ (by omega)
  rw [getLenInclBad, block_start]
  simp only [nandBlockIsbad_known known number.le]
  by_cases enough : excl < length
  · rw [if_pos enough]
    set len := erasesize - offset % erasesize with len_eq
    have some : 0 < len := by omega
    by_cases last : offset + len ≥ mtdSize
    · rw [if_pos last]
      exact ⟨len, rfl, reach, .inr (by omega), fun _ => .inl (by omega)⟩
    · rw [if_neg last]
      have aligned : (offset + len) % erasesize = 0 := by
        rw [next]
        exact Nat.mul_mod_right _ _
      have following : (offset + len) / erasesize = offset / erasesize + 1 := by
        rw [next]
        exact Nat.mul_div_cancel_left _ (by decide)
      by_cases bad : BadIn bbt (offset / erasesize)
      · obtain ⟨more, found, reach', reason, exact⟩ := getLenInclBad_eq known (offset + len)
          length (incl + len) excl (by omega) (by omega)
          (.inr aligned)
        rw [if_pos bad, if_neg (by decide), found]
        refine ⟨len + more, by rw [Nat.add_assoc], by omega, by omega, ?_⟩
        intro same
        rcases exact (by omega) with ended | ⟨equal, -⟩
        · exact .inl (by omega)
        · omega
      · obtain ⟨more, found, reach', reason, exact⟩ := getLenInclBad_eq known (offset + len)
          length (incl + len) (excl + len) (by omega) (by omega)
          (.inr aligned)
        rw [if_neg bad, if_pos rfl, found]
        refine ⟨len + more, by rw [Nat.add_assoc], by omega, by omega, ?_⟩
        intro same
        rcases exact (by omega) with ended | ⟨equal, good⟩
        · exact .inl (by omega)
        · refine .inr ⟨by omega, ?_⟩
          intro block ge lt
          by_cases here : block = offset / erasesize
          · rw [here]
            exact bad
          · exact good block (by omega) (by omega)
  · rw [if_neg enough]
    have aligned := turn.resolve_left enough
    refine ⟨0, rfl, by omega, .inl (by omega), ?_⟩
    intro same
    refine .inr ⟨by omega, ?_⟩
    intro block ge lt
    have := Nat.mul_le_mul_left erasesize ge
    omega
termination_by mtdSize - offset

/-! ## The pages that are not bad -/

/-- The pages of good blocks from one page on. -/
def goodPages (bbt : Bbt) (start : ℕ) : List ℕ :=
  (List.range' start (2 ^ 17 - start)).filter fun page => ¬ BadIn bbt (page / BLOCK_PAGES)

/-- The first page of the next block. -/
def nextBlock (page : ℕ) : ℕ :=
  BLOCK_PAGES * (page / BLOCK_PAGES + 1)

theorem nextBlock_bounds {page : ℕ} (inside : page < 2 ^ 17) :
    page < nextBlock page ∧ nextBlock page ≤ page + BLOCK_PAGES ∧ nextBlock page ≤ 2 ^ 17 := by
  simp only [nextBlock, BLOCK_PAGES]
  omega

theorem goodPages_split (bbt : Bbt) (start count : ℕ) (inside : start + count ≤ 2 ^ 17) :
    goodPages bbt start =
      (List.range' start count).filter (fun page => ¬ BadIn bbt (page / BLOCK_PAGES)) ++
        goodPages bbt (start + count) := by
  have parts : 2 ^ 17 - start = count + (2 ^ 17 - (start + count)) := by omega
  rw [goodPages, parts, ← List.range'_append_1, List.filter_append, goodPages]

/-- A bad block has none. -/
theorem goodPages_bad {bbt : Bbt} {start : ℕ} (inside : start < 2 ^ 17)
    (bad : BadIn bbt (start / BLOCK_PAGES)) :
    goodPages bbt start = goodPages bbt (nextBlock start) := by
  obtain ⟨gt, -, le⟩ := nextBlock_bounds inside
  have none : (List.range' start (nextBlock start - start)).filter
      (fun page => ¬ BadIn bbt (page / BLOCK_PAGES)) = [] := by
    apply List.filter_eq_nil_iff.mpr
    intro page mem
    have bounds := List.mem_range'_1.mp mem
    have same : page / BLOCK_PAGES = start / BLOCK_PAGES := by
      simp only [nextBlock, BLOCK_PAGES] at bounds ⊢
      omega
    simpa [same] using bad
  rw [goodPages_split bbt start (nextBlock start - start) (by omega), none, List.nil_append]
  congr 1
  omega

/-- In a good block the next pages are the ones that follow. -/
theorem goodPages_good {bbt : Bbt} {start : ℕ} (count : ℕ) (inside : start < 2 ^ 17)
    (good : ¬ BadIn bbt (start / BLOCK_PAGES)) (le : start + count ≤ nextBlock start) :
    goodPages bbt start = List.range' start count ++ goodPages bbt (start + count) := by
  obtain ⟨-, -, bound⟩ := nextBlock_bounds inside
  have all : (List.range' start count).filter
      (fun page => ¬ BadIn bbt (page / BLOCK_PAGES)) = List.range' start count := by
    apply List.filter_eq_self.mpr
    intro page mem
    have bounds := List.mem_range'_1.mp mem
    have same : page / BLOCK_PAGES = start / BLOCK_PAGES := by
      simp only [nextBlock, BLOCK_PAGES] at le ⊢
      omega
    simpa [same] using good
  rw [goodPages_split bbt start count (by omega), all]

theorem mem_goodPages {bbt : Bbt} {start page : ℕ} :
    page ∈ goodPages bbt start ↔
      (start ≤ page ∧ page < 2 ^ 17) ∧ ¬ BadIn bbt (page / BLOCK_PAGES) := by
  simp only [goodPages, List.mem_filter, List.mem_range'_1, decide_eq_true_eq]
  grind

/-! ## Writing past the bad blocks -/

/-- The value that a write ends with once it has gone to the pages there are: behind the last
one it is refused. -/
def skipResult (pages : List ℕ) (n : ℕ) (written : ℤ) : ℤ :=
  if written = 0 ∧ pages.length < n then -einval else written

theorem skipResult_eq_zero_iff {pages : List ℕ} {n : ℕ} {written : ℤ} :
    skipResult pages n written = 0 ↔ written = 0 ∧ n ≤ pages.length := by
  unfold skipResult
  split
  · rename_i short
    exact iff_of_false (by decide) fun enough => absurd short.2 (by omega)
  · rename_i enough
    constructor
    · intro ok
      exact ⟨ok, not_lt.mp fun short => enough ⟨ok, short⟩⟩
    · exact And.left

section Skip

variable {bbt : Bbt} {first : ℕ} (room : first + 12 ≤ oobsize)

/-- At the end of the flash the write is refused. -/
theorem writeSkipLoop_end {s : Session} {n : ℕ} {buf : List UInt8} (known : s.bbt = some bbt)
    (size : buf.length = writesize * (n + 1)) :
    writeSkipLoop s mtdSize buf = some (-einval, s) := by
  have some : ¬ buf.length = 0 := by
    rw [size, writesize]
    omega
  have aligned : mtdSize % erasesize = 0 := by decide
  have answer : nandBlockIsbad s mtdSize = (0, s) :=
    (nandBlockIsbad_known known (le_refl 2048)).trans (by rw [if_neg (not_badIn_end bbt)])
  have refused {count : ℕ} (pos : 0 < count) :
      nandWrite s mtdSize (buf.take count) = (-einval, (buf.take count).length, s) := by
    rw [nandWrite, if_pos]
    rw [List.length_take]
    omega
  have pos : 0 < if buf.length < erasesize then buf.length else erasesize := by
    have block : 0 < erasesize := by decide
    split <;> omega
  rw [writeSkipLoop, if_neg some, if_neg (lt_irrefl _)]
  simp only [aligned, Nat.sub_zero, answer, refused pos]
  rfl

include room

/-- The loop writes to the good pages in order.  It stops for a fault, or when there are none
left. -/
theorem writeSkipLoop_eq {s : Session} (start : ℕ) {n : ℕ} {buf : List UInt8}
    (known : s.bbt = some bbt) (layout : s.eccpos = List.range' first 12)
    (size : buf.length = writesize * n) (inside : start ≤ 2 ^ 17)
    (ready : n = 0 → s.gpmc.chip.writable = true) :
    ∃ written t, WritesTo s first ((goodPages bbt start).take n) buf written t ∧
      writeSkipLoop s (writesize * start) buf =
        some (skipResult ((goodPages bbt start).take n) n written, t) := by
  have flash : mtdSize = writesize * 2 ^ 17 := rfl
  by_cases done : n = 0
  · have empty : buf.length = 0 := by
      rw [size, done]
      rfl
    rw [writeSkipLoop, if_pos empty, done, List.take_zero]
    exact ⟨0, s, ⟨(Unchanged.refl s).framed _, by simp [ready done], by simp⟩, rfl⟩
  by_cases ended : start = 2 ^ 17
  · obtain ⟨m, rfl⟩ : ∃ m, n = m + 1 := ⟨n - 1, by omega⟩
    have none : goodPages bbt start = [] := by
      rw [ended]
      rfl
    rw [ended, ← flash, writeSkipLoop_end known size, ← ended, none, List.take_nil]
    cases writable : s.gpmc.chip.writable with
    | true => exact ⟨0, s, ⟨(Unchanged.refl s).framed _, by simp [writable], by simp⟩, rfl⟩
    | false =>
        exact ⟨-einval, s, ⟨(Unchanged.refl s).framed _, by simp [writable, einval], by simp⟩, rfl⟩
  · have some : ¬ buf.length = 0 := by
      rw [size, writesize]
      omega
    have lt : start < 2 ^ 17 := by omega
    obtain ⟨gt, near, bound⟩ := nextBlock_bounds lt
    have before : ¬ mtdSize < writesize * start := by
      rw [flash]
      simp only [writesize]
      omega
    have number : writesize * start / erasesize = start / BLOCK_PAGES := by
      simp only [writesize, erasesize, BLOCK_PAGES]
      omega
    have rest : erasesize - writesize * start % erasesize =
        writesize * (nextBlock start - start) := by
      simp only [writesize, erasesize, BLOCK_PAGES, nextBlock]
      omega
    have block : start / BLOCK_PAGES ≤ 2048 := by
      simp only [BLOCK_PAGES]
      omega
    rw [writeSkipLoop, if_neg some, if_neg before]
    simp only [block_start, number, nandBlockIsbad_known known block, rest, ← Nat.mul_add]
    by_cases bad : BadIn bbt (start / BLOCK_PAGES)
    · have next := writeSkipLoop_eq (nextBlock start) known layout size bound ready
      rw [if_pos bad, if_pos one_ne_zero, Nat.add_sub_cancel' gt.le, goodPages_bad lt bad]
      exact next
    · rw [if_neg bad, if_neg (not_not.mpr rfl)]
      -- as many pages as are needed, or as the block has left
      obtain ⟨count, count_eq⟩ : ∃ count, min n (nextBlock start - start) = count + 1 :=
        ⟨min n (nextBlock start - start) - 1, by omega⟩
      have writeSize : (if buf.length < writesize * (nextBlock start - start) then buf.length
          else writesize * (nextBlock start - start)) = writesize * (count + 1) := by
        rw [size, ← count_eq]
        split
        · rename_i less
          have := Nat.lt_of_mul_lt_mul_left less
          rw [Nat.min_eq_left this.le]
        · rename_i more
          have := Nat.le_of_mul_le_mul_left (not_lt.mp more) (by decide : 0 < writesize)
          rw [Nat.min_eq_right this]
      have taken : (buf.take (writesize * (count + 1))).length = writesize * (count + 1) := by
        apply List.length_take_of_le
        rw [size]
        exact Nat.mul_le_mul_left _ (by omega)
      obtain ⟨writes, length⟩ := writesTo_nandWrite start layout room taken (by omega)
      rw [writeSize]
      generalize nandWrite s (writesize * start) (buf.take (writesize * (count + 1))) = written
        at writes length
      have pages : (goodPages bbt start).take n = List.range' start (count + 1) ++
          (goodPages bbt (start + (count + 1))).take (n - (count + 1)) := by
        rw [goodPages_good (count + 1) lt bad (by omega), List.take_append,
          List.length_range', List.take_of_length_le (by rw [List.length_range']; omega)]
      have here : WritesTo s first (List.range' start (count + 1)) buf written.1 written.2.2 := by
        apply WritesTo.of_take
        rwa [List.length_range']
      rw [pages]
      by_cases fault : written.1 = 0
      · have moved : ¬ writesize * (count + 1) = 0 := by
          rw [writesize]
          omega
        simp only [fault, ne_eq, not_true_eq_false, if_false, length fault, taken, moved]
        rw [← Nat.mul_add]
        rw [fault] at here
        have left : (buf.drop (writesize * (count + 1))).length =
            writesize * (n - (count + 1)) := by
          rw [List.length_drop, size, Nat.mul_sub]
        obtain ⟨result, t, writes', goes⟩ := writeSkipLoop_eq (s := written.2.2)
          (start + (count + 1)) (here.framed.bbt.trans known)
          (here.framed.eccpos.trans layout) left (by omega)
          (fun _ => here.framed.writable.trans (here.ok_iff.mp rfl).1)
        refine ⟨result, t, here.append ?_ ?_, ?_⟩
        · rw [List.length_range']
          exact writes'
        · intro page mem behind
          have := (List.mem_range'_1.mp mem).2
          have := (mem_goodPages.mp (List.mem_of_mem_take behind)).1.1
          omega
        · have few (more : List ℕ) : (List.range' start (count + 1) ++ more).length < n ↔
              more.length < n - (count + 1) := by
            rw [List.length_append, List.length_range']
            omega
          rw [goes]
          simp only [skipResult, few]
      · rw [if_pos fault]
        refine ⟨written.1, written.2.2, here.stop fault _, ?_⟩
        rw [skipResult, if_neg fun short => fault short.1]
termination_by 2 ^ 17 - start

/-- The pages that a write goes to.  One that reaches exactly to the end of the flash takes the
bad blocks for good ones. -/
def writePages (bbt : Bbt) (start n : ℕ) : List ℕ :=
  if start + n = 2 ^ 17 then List.range' start n else (goodPages bbt start).take n

omit room in
theorem range'_eq_goodPages {start n : ℕ} (inside : start + n ≤ 2 ^ 17)
    (good : ∀ page, start ≤ page → page < start + n → ¬ BadIn bbt (page / BLOCK_PAGES)) :
    List.range' start n = (goodPages bbt start).take n ∧ n ≤ (goodPages bbt start).length := by
  have all : (List.range' start n).filter
      (fun page => ¬ BadIn bbt (page / BLOCK_PAGES)) = List.range' start n := by
    apply List.filter_eq_self.mpr
    intro page mem
    have bounds := List.mem_range'_1.mp mem
    simpa using good page bounds.1 bounds.2
  rw [goodPages_split bbt start n inside, all]
  refine ⟨(List.take_left' List.length_range').symm, ?_⟩
  rw [List.length_append, List.length_range']
  omega

/-- The whole write. -/
theorem nandWriteSkipBad_eq {s : Session} (start : ℕ) {n : ℕ} {buf : List UInt8}
    (known : s.bbt = some bbt) (layout : s.eccpos = List.range' first 12)
    (size : buf.length = writesize * n) (nonzero : 0 < n) (inside : start < 2 ^ 17) :
    ∃ written t, WritesTo s first (writePages bbt start n) buf written t ∧
      nandWriteSkipBad s (writesize * start) buf =
        some (skipResult (writePages bbt start n) n written, t) := by
  have flash : mtdSize = writesize * 2 ^ 17 := rfl
  have aligned : ¬ ((writesize * start) % writesize ≠ 0 ∨ buf.length % writesize ≠ 0) := by
    rw [size, Nat.mul_mod_right, Nat.mul_mod_right]
    simp
  have before : writesize * start < mtdSize := by
    rw [flash]
    exact Nat.mul_lt_mul_of_pos_left inside (by decide)
  have nonempty : 0 < buf.length := by
    rw [size]
    exact Nat.mul_pos (by decide) nonzero
  obtain ⟨more, found, reach, reason, equal⟩ :=
    getLenInclBad_eq known _ buf.length 0 0 before (le_refl 0) (.inl nonempty)
  rw [Nat.zero_add] at found reason equal
  simp only [nandWriteSkipBad, aligned, if_false, found, not_lt.mpr reach]
  by_cases fast : more = buf.length
  · -- the length is taken for one without bad blocks
    rw [if_pos fast]
    rw [fast, size, flash, ← Nat.mul_add] at reach
    have fits : start + n ≤ 2 ^ 17 := Nat.le_of_mul_le_mul_left reach (by decide)
    have pages : writePages bbt start n = List.range' start n := by
      unfold writePages
      split
      · rfl
      · rename_i notEnd
        refine ((range'_eq_goodPages fits ?_).1).symm
        intro page ge lt
        rcases equal fast with ended | ⟨-, good⟩
        · rw [fast, size, flash, ← Nat.mul_add] at ended
          exact absurd (Nat.eq_of_mul_eq_mul_left (by decide) ended) notEnd
        · have number : writesize * start / erasesize = start / BLOCK_PAGES := by
            simp only [writesize, erasesize, BLOCK_PAGES]
            omega
          refine good _ ?_ ?_
          · rw [number]
            exact Nat.div_le_div_right ge
          · rw [fast, size]
            simp only [writesize, erasesize, BLOCK_PAGES]
            omega
    obtain ⟨m, rfl⟩ : ∃ m, n = m + 1 := ⟨n - 1, by omega⟩
    obtain ⟨writes, -⟩ := writesTo_nandWrite start layout room size (by omega)
    rw [pages]
    refine ⟨_, _, writes, ?_⟩
    rw [skipResult, if_neg]
    rintro ⟨-, short⟩
    rw [List.length_range'] at short
    exact lt_irrefl _ short
  · -- at the end of the flash the lengths agree
    rw [if_neg fast]
    have notEnd : start + n ≠ 2 ^ 17 := by
      intro ended
      have whole : writesize * start + buf.length = mtdSize := by
        rw [size, flash, ← ended, Nat.mul_add]
      omega
    rw [writePages, if_neg notEnd]
    exact writeSkipLoop_eq room start known layout size inside.le (by omega)

end Skip

/-! ## Sessions that have not been scanned -/

theorem scanned_spec (s : Session) :
    ∃ bbt, s.scanned.bbt = some bbt ∧ s.scanned.gpmc.chip.cells = s.gpmc.chip.cells ∧
      s.scanned.gpmc.chip.wiring = s.gpmc.chip.wiring ∧ s.scanned.eccpos = s.eccpos ∧
      (s.bbt = none → ∀ block < 2048,
        (BadIn bbt block ↔ marker s.gpmc.chip.cells block ≠ 0xFFFF)) := by
  unfold Session.scanned
  cases known : s.bbt with
  | some bbt =>
      simp only [Option.isNone_some, Bool.false_eq_true, if_false]
      exact ⟨bbt, known, trivial, trivial, trivial, fun none => by cases none⟩
  | none =>
      obtain ⟨bbt, found, bad, cells, wiring, eccpos⟩ := nandScanBbt_eq s
      simp only [Option.isNone_none, if_true]
      refine ⟨bbt, found, cells, wiring, eccpos, ?_⟩
      intro _ block inside
      rw [BadIn, bad block inside]
      simp

section Wiring

variable (s : Session)

theorem scanned_writable : s.scanned.gpmc.chip.writable = s.gpmc.chip.writable := by
  obtain ⟨_, -, -, wiring, -, -⟩ := scanned_spec s
  exact congrArg Prod.fst wiring

theorem scanned_programFault :
    s.scanned.gpmc.chip.programFault = s.gpmc.chip.programFault := by
  obtain ⟨_, -, -, wiring, -, -⟩ := scanned_spec s
  exact congrArg (·.2.1) wiring

theorem scanned_eraseFault : s.scanned.gpmc.chip.eraseFault = s.gpmc.chip.eraseFault := by
  obtain ⟨_, -, -, wiring, -, -⟩ := scanned_spec s
  exact congrArg (·.2.2) wiring

end Wiring

theorem getLenInclBad_scanned (s : Session) {offset length : ℕ} (inside : offset ≤ mtdSize)
    (nonempty : 0 < length) :
    getLenInclBad s offset length 0 0 = getLenInclBad s.scanned offset length 0 0 := by
  rw [getLenInclBad, getLenInclBad, nandBlockIsbad_scanned s (by omega)]
  simp only [if_pos nonempty]

/-- The first question about a block comes before anything is written. -/
theorem nandWriteSkipBad_scanned (s : Session) {offset : ℕ} {buf : List UInt8}
    (inside : offset ≤ mtdSize) (aligned : offset % writesize = 0 ∧ buf.length % writesize = 0)
    (nonempty : 0 < buf.length) :
    nandWriteSkipBad s offset buf = nandWriteSkipBad s.scanned offset buf := by
  have plain : ¬ (offset % writesize ≠ 0 ∨ buf.length % writesize ≠ 0) := by
    simp [aligned]
  simp only [nandWriteSkipBad, plain, if_false, getLenInclBad_scanned s inside nonempty]

theorem nandEraseOpts_scanned (s : Session) {offset length : ℕ} (inside : offset ≤ mtdSize) :
    nandEraseOpts s offset length = nandEraseOpts s.scanned offset length := by
  obtain ⟨count, turns⟩ : ∃ count, ((if length < erasesize then erasesize else length) +
      erasesize - 1) / erasesize = count + 1 := by
    refine ⟨((if length < erasesize then erasesize else length) - 1) / erasesize, ?_⟩
    have pos : 0 < if length < erasesize then erasesize else length := by
      have some : 0 < erasesize := by decide
      split
      · exact some
      · omega
    generalize (if length < erasesize then erasesize else length) = size at pos
    simp only [erasesize]
    omega
  rw [nandEraseOpts, nandEraseOpts, turns, List.range_succ_eq_map, List.map_cons, eraseLoop,
    eraseLoop, Nat.mul_zero, Nat.add_zero, nandBlockIsbad_scanned s inside]

section Whole

variable {s : Session} {first start n : ℕ} {buf : List UInt8}
  (layout : s.eccpos = List.range' first 12) (room : first + 12 ≤ oobsize)
  (size : buf.length = writesize * n) (nonzero : 0 < n)

include layout room size nonzero

theorem nandWriteSkipBad_whole (start : ℕ) (inside : start < 2 ^ 17) :
    ∃ bbt written t, s.scanned.bbt = some bbt ∧
      WritesTo s.scanned first (writePages bbt start n) buf written t ∧
      nandWriteSkipBad s (writesize * start) buf =
        some (skipResult (writePages bbt start n) n written, t) := by
  obtain ⟨bbt, known, -, -, eccpos, -⟩ := scanned_spec s
  have before : writesize * start ≤ mtdSize := by
    simp only [writesize, mtdSize]
    omega
  have aligned : (writesize * start) % writesize = 0 ∧ buf.length % writesize = 0 := by
    rw [size]
    exact ⟨Nat.mul_mod_right _ _, Nat.mul_mod_right _ _⟩
  have nonempty : 0 < buf.length := by
    rw [size]
    exact Nat.mul_pos (by decide) nonzero
  obtain ⟨written, t, writes, result⟩ :=
    nandWriteSkipBad_eq room start known (eccpos.trans layout) size nonzero inside
  rw [nandWriteSkipBad_scanned s before aligned nonempty]
  exact ⟨bbt, written, t, known, writes, result⟩

/-- A write that does not reach exactly to the end of the flash goes to the good pages in order
and leaves the bad blocks alone.  It always returns: with an error of its own if all of them can
be written and are too few. -/
theorem nandWriteSkipBad_skips (inside : start < 2 ^ 17) (notEnd : start + n ≠ 2 ^ 17) :
    ∃ bbt written t, s.scanned.bbt = some bbt ∧
      nandWriteSkipBad s (writesize * start) buf =
        some (if written = 0 ∧ (goodPages bbt start).length < n then -einval else written, t) ∧
      WritesTo s.scanned first ((goodPages bbt start).take n) buf written t ∧
      ∀ page, BadIn bbt (page / BLOCK_PAGES) →
        t.gpmc.chip.cells page = s.gpmc.chip.cells page := by
  obtain ⟨bbt, written, t, known, writes, result⟩ :=
    nandWriteSkipBad_whole layout room size nonzero start inside
  obtain ⟨_, _, cells, -⟩ := scanned_spec s
  rw [writePages, if_neg notEnd] at writes result
  refine ⟨bbt, written, t, known, ?_, writes, ?_⟩
  · have few : min n (goodPages bbt start).length < n ↔ (goodPages bbt start).length < n := by
      omega
    simpa only [skipResult, List.length_take, few] using result
  · intro page bad
    rw [writes.framed.cells page, cells]
    exact fun mem => (mem_goodPages.mp (List.mem_of_mem_take mem)).2 bad

/-- A write that reaches exactly to the end of the flash is carried out as if there were no bad
blocks. -/
theorem nandWriteSkipBad_end (ended : start + n = 2 ^ 17) :
    ∃ rval t, nandWriteSkipBad s (writesize * start) buf = some (rval, t) ∧
      WritesTo s.scanned first (List.range' start n) buf rval t := by
  obtain ⟨bbt, written, t, -, writes, result⟩ :=
    nandWriteSkipBad_whole layout room size nonzero start (by omega)
  rw [writePages, if_pos ended] at writes result
  refine ⟨written, t, ?_, writes⟩
  rw [result, skipResult, List.length_range', if_neg fun short => lt_irrefl _ short.2]

end Whole

/-- A board with a flash that was never written, under the layout of the kernel. -/
def blankSession : Session where
  gpmc :=
    { chip :=
        { cells := fun _ _ => 0xFFFF
          mode := .idle
          status := Chip.ready
          writable := true
          programFault := fun _ => none
          eraseFault := fun _ => none }
      eccOn := false
      passed := [] }
  ioAddrW := .nandDat
  bbt := none
  eccpos := hwNandOobKernel
  oobPoi := []

/-- The same flash with two bad blocks, one of them the last. -/
def scarredSession : Session :=
  { blankSession with
    gpmc :=
      { blankSession.gpmc with
        chip :=
          { blankSession.gpmc.chip with
            cells := fun page k =>
              if k = 1024 ∧ (page = BLOCK_PAGES * 5 ∨ page = BLOCK_PAGES * 2047) then 0
              else 0xFFFF } } }

theorem scarredSession_bad {bbt : Bbt} (known : scarredSession.scanned.bbt = some bbt) {block : ℕ}
    (inside : block < 2048) : BadIn bbt block ↔ block = 5 ∨ block = 2047 := by
  obtain ⟨_, known', -, -, -, bad⟩ := scanned_spec scarredSession
  obtain rfl := Option.some.inj (known.symm.trans known')
  have same : marker scarredSession.gpmc.chip.cells block =
      if block = 5 ∨ block = 2047 then 0 else 0xFFFF := by
    have place (other : ℕ) : BLOCK_PAGES * block = BLOCK_PAGES * other ↔ block = other :=
      Nat.mul_right_inj (by decide)
    simp only [marker, scarredSession, place, true_and]
  rw [bad rfl block inside, same]
  split <;> simp [*]

/-- Three pages from the last one in front of a bad block on: two of them go behind it. -/
theorem scarred_nandWriteSkipBad_skips :
    ∃ t, nandWriteSkipBad scarredSession (writesize * 319) (List.replicate (writesize * 3) 0) =
        some (0, t) ∧
      WritesTo scarredSession.scanned 40 [319, 384, 385] (List.replicate (writesize * 3) 0) 0 t ∧
      ∀ page, page / BLOCK_PAGES = 5 →
        t.gpmc.chip.cells page = scarredSession.gpmc.chip.cells page := by
  obtain ⟨bbt, written, t, known, result, writes, kept⟩ := nandWriteSkipBad_skips
    (show scarredSession.eccpos = List.range' 40 12 from rfl) (by decide)
    (List.length_replicate (n := writesize * 3) (a := (0 : UInt8))) (by decide)
    (show 319 < 2 ^ 17 by decide) (by decide)
  have bad {block : ℕ} (inside : block < 2048) := scarredSession_bad known inside
  have good {block : ℕ} (inside : block < 2048) (other : ¬ (block = 5 ∨ block = 2047)) :
      ¬ BadIn bbt block := fun there => other ((bad inside).mp there)
  have pages : goodPages bbt 319 = [319, 384, 385] ++ goodPages bbt 386 := by
    rw [goodPages_good 1 (by decide) (good (by decide) (by decide)) (by decide),
      @goodPages_bad bbt (319 + 1) (by decide) ((bad (by decide)).mpr (by decide)),
      @goodPages_good bbt (nextBlock (319 + 1)) 2 (by decide)
        (good (by decide) (by decide)) (by decide)]
    rfl
  have enough : ¬ (goodPages bbt 319).length < 3 := by
    rw [pages, List.length_append]
    simp
  have there : (goodPages bbt 319).take 3 = [319, 384, 385] := by
    rw [pages]
    exact List.take_left' rfl
  rw [there] at writes
  obtain rfl : written = 0 := by
    rw [writes.ok_iff, scanned_writable, scanned_programFault]
    exact ⟨rfl, fun _ _ => rfl⟩
  refine ⟨t, ?_, writes, ?_⟩
  · rw [result, if_neg fun short => enough short.2]
  · intro page here
    apply kept
    rw [here]
    exact (bad (by decide)).mpr (.inl rfl)

/-- The last page in front of the last block and the whole of that block, which is bad. -/
theorem scarred_nandWriteSkipBad_end :
    marker scarredSession.gpmc.chip.cells 2047 ≠ 0xFFFF ∧
    ∃ rval t, nandWriteSkipBad scarredSession (writesize * 131007)
        (List.replicate (writesize * 65) 0) = some (rval, t) ∧
      WritesTo scarredSession.scanned 40 (List.range' 131007 65)
        (List.replicate (writesize * 65) 0) rval t :=
  ⟨by decide, nandWriteSkipBad_end rfl (by decide) List.length_replicate (by decide) (by decide)⟩

end Rhino.Flash.UBoot
