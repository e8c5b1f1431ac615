import Rhino.Flash.Programming
import Rhino.Flash.XLoader

/-!
# Bad blocks

The second boot loader scans the flash once, at the first question about a block, and keeps
two bits for each block in a table (`nand_bbt.c`).  It takes a block for bad if the first
two bytes of its first spare area are not both `0xff`; the first boot loader looks at the
first of them only.
-/

namespace Rhino.Flash.UBoot

open Rhino.Bytes Rhino.Nand

/-- `nand_read_oob_std`. -/
def nandReadOobStd (s : Session) (page : ℕ) : Session :=
  let s := nandCommandLp s NAND_CMD_READOOB (some 0) (some page)
  let read := nandReadBuf16 s oobsize
  { read.2 with oobPoi := read.1 }

/-- `scan_block_fast` with `check_short_pattern`, for the pattern of a large page. -/
def scanBlockFast (s : Session) (offs : ℕ) : ℤ × Session :=
  let s := nandReadOobStd s ((offs >>> pageShift) &&& pagemask)
  (if s.oobPoi.getD 0 0 ≠ 0xff ∨ s.oobPoi.getD 1 0 ≠ 0xff then 1 else 0, s)

/-- The table as `kzalloc` gives it. -/
def Bbt.clear : Bbt where
  bytes := List.replicate (mtdSize >>> (bbtEraseShift + 2)) 0
  size := List.length_replicate

/-- Two bits of the table are set. -/
def Bbt.mark (bbt : Bbt) (i : ℕ) : Bbt where
  bytes := bbt.bytes.modify (i >>> 3) (· ||| ((0x03 : UInt8) <<< UInt8.ofNat (i &&& 0x6)))
  size := (List.length_modify ..).trans bbt.size

/-- One turn of the loop of `create_bbt`; `i` is twice the number of the block. -/
def scanTurn (state : Bbt × Session) (k : ℕ) : Bbt × Session :=
  let scanned := scanBlockFast state.2 (erasesize * k)
  (if scanned.1 ≠ 0 then state.1.mark (2 * k) else state.1, scanned.2)

/-- `nand_scan_bbt` through `create_bbt`, for a table in memory. -/
def nandScanBbt (s : Session) : Session :=
  let scanned := (List.range (mtdSize >>> bbtEraseShift)).foldl scanTurn (Bbt.clear, s)
  { scanned.2 with bbt := some scanned.1 }

/-- `nand_isbad_bbt`, for a caller that has no business in the table's own blocks.  For the
block behind the flash it reads the byte behind the table, which belongs to the rest of its
allocation and has been cleared with it. -/
def nandIsbadBbt (bbt : Bbt) (offs : ℕ) : ℤ :=
  let block := offs >>> (bbtEraseShift - 1)
  let res := (bbt.bytes.getD (block >>> 3) 0 >>> UInt8.ofNat (block &&& 0x06)) &&& (0x03 : UInt8)
  if res = 0x00 then 0 else 1

/-- `nand_block_checkbad`: the flash is scanned if it has not been yet. -/
def nandBlockCheckbad (s : Session) (ofs : ℕ) : ℤ × Session :=
  let s := if s.bbt.isNone then nandScanBbt s else s
  (nandIsbadBbt (s.bbt.getD Bbt.clear) ofs, s)

/-- `nand_block_isbad`. -/
def nandBlockIsbad (s : Session) (offs : ℕ) : ℤ × Session :=
  if offs > mtdSize then (-einval, s) else nandBlockCheckbad s offs

/-! ## The table -/

/-- The two bits of a block. -/
def entry (bbt : Bbt) (block : ℕ) : UInt8 :=
  (bbt.bytes.getD (block / 4) 0 >>> UInt8.ofNat (2 * (block % 4))) &&& (0x03 : UInt8)

theorem doubled_and (block : ℕ) : (2 * block) &&& 0x6 = 2 * (block % 4) := by
  have low := Nat.and_two_pow_sub_one_eq_mod block 2
  have both := Nat.shiftLeft_and_distrib (a := block) (b := 2 ^ 2 - 1) (i := 1)
  rw [low, Nat.shiftLeft_eq, Nat.shiftLeft_eq, Nat.shiftLeft_eq] at both
  rw [Nat.mul_comm 2 block, Nat.mul_comm 2]
  exact both.symm

theorem doubled_shift (block : ℕ) : (2 * block) >>> 3 = block / 4 := by
  rw [Nat.shiftRight_eq_div_pow]
  omega

/-- The two bits of one of the four blocks of a byte. -/
theorem testBit_pair {place : ℕ} (small : place < 4) (i : ℕ) :
    ((0x03 : UInt8) <<< UInt8.ofNat (2 * place)).toNat.testBit i =
      decide (2 * place ≤ i ∧ i < 2 * place + 2) := by
  have value : ((0x03 : UInt8) <<< UInt8.ofNat (2 * place)).toNat =
      2 ^ (2 * place) * (2 ^ 2 - 1) := by
    interval_cases place <;> rfl
  rw [value, Nat.testBit_two_pow_mul, Nat.testBit_two_pow_sub_one]
  grind

theorem entry_testBit (bbt : Bbt) (block i : ℕ) :
    (entry bbt block).toNat.testBit i =
      (decide (i < 2) && (bbt.bytes.getD (block / 4) 0).toNat.testBit (2 * (block % 4) + i)) := by
  have shift : (UInt8.ofNat (2 * (block % 4))).toNat % 8 = 2 * (block % 4) := by
    rw [UInt8.toNat_ofNat']
    omega
  have mask : Nat.testBit 0x03 i = decide (i < 2) := Nat.testBit_two_pow_sub_one 2 i
  rw [entry, UInt8.toNat_and, Nat.testBit_and, UInt8.toNat_shiftRight, Nat.testBit_shiftRight,
    shift, Bool.and_comm]
  exact congrArg (· && _) mask

/-- Marking a block changes its own two bits and no others. -/
theorem entry_mark (bbt : Bbt) {block : ℕ} (small : block < 2048) (other : ℕ) :
    entry (bbt.mark (2 * block)) other =
      if other = block then 0x03 else entry bbt other := by
  have mask (i : ℕ) : Nat.testBit 0x03 i = decide (i < 2) := Nat.testBit_two_pow_sub_one 2 i
  have inside : block / 4 < bbt.bytes.length := by
    rw [bbt.size, show mtdSize >>> (bbtEraseShift + 2) = 512 from rfl]
    omega
  apply UInt8.toNat_inj.mp
  apply Nat.eq_of_testBit_eq
  intro i
  simp only [entry_testBit, Bbt.mark, doubled_shift, doubled_and]
  by_cases here : other / 4 = block / 4
  · have byte : (bbt.bytes.modify (block / 4)
        (· ||| ((0x03 : UInt8) <<< UInt8.ofNat (2 * (block % 4))))).getD (other / 4) 0 =
        bbt.bytes.getD (other / 4) 0 ||| ((0x03 : UInt8) <<< UInt8.ofNat (2 * (block % 4))) := by
      rw [here]
      simp [List.getD, inside]
    rw [byte, UInt8.toNat_or, Nat.testBit_or, testBit_pair (Nat.mod_lt _ (by decide))]
    split
    · rename_i same
      change _ = Nat.testBit 0x03 i
      rw [mask, same]
      grind
    · rename_i apart
      rw [entry_testBit]
      have : other % 4 ≠ block % 4 := by omega
      grind
  · have byte : (bbt.bytes.modify (block / 4)
        (· ||| ((0x03 : UInt8) <<< UInt8.ofNat (2 * (block % 4))))).getD (other / 4) 0 =
        bbt.bytes.getD (other / 4) 0 := by
      simp [List.getD, Ne.symm here]
    rw [byte, if_neg (by omega), entry_testBit]

theorem nandIsbadBbt_eq (bbt : Bbt) (block : ℕ) :
    nandIsbadBbt bbt (erasesize * block) = if entry bbt block = 0 then 0 else 1 := by
  have twice : (erasesize * block) >>> (bbtEraseShift - 1) = 2 * block := by
    rw [Nat.shiftRight_eq_div_pow]
    simp only [bbtEraseShift, erasesize]
    omega
  simp only [nandIsbadBbt, twice, doubled_shift, doubled_and]
  rfl

/-! ## Scanning -/

/-- The marker of a block, the first word of its first spare area. -/
def marker (cells : Cells) (block : ℕ) : UInt16 :=
  cells (BLOCK_PAGES * block) 1024

/-- A session that looks the same to the driver but for the buffer of the spare area, with
nothing changed on the flash. -/
structure Unchanged (s t : Session) : Prop where
  cells : t.gpmc.chip.cells = s.gpmc.chip.cells
  wiring : t.gpmc.chip.wiring = s.gpmc.chip.wiring
  bbt : t.bbt = s.bbt
  eccpos : t.eccpos = s.eccpos

theorem Unchanged.refl (s : Session) : Unchanged s s :=
  ⟨rfl, rfl, rfl, rfl⟩

theorem Unchanged.trans {s t u : Session} (first : Unchanged s t) (second : Unchanged t u) :
    Unchanged s u :=
  ⟨second.cells.trans first.cells, second.wiring.trans first.wiring, second.bbt.trans first.bbt,
    second.eccpos.trans first.eccpos⟩

theorem nandReadOobStd_eq (s : Session) {page : ℕ} (inside : page < 2 ^ 24) :
    (nandReadOobStd s page).oobPoi = XLoader.pageSpare s.gpmc.chip.cells page ∧
      Unchanged s (nandReadOobStd s page) := by
  have read := Gpmc.readWords_output
    { s.gpmc with chip := s.gpmc.chip.enter (.output page 1024) } rfl (oobsize >>> 1)
  simp only [nandReadOobStd, nandCommandLp_readoob s inside, nandReadBuf16, Session.drive_gpmc,
    read]
  exact ⟨rfl, rfl, rfl, rfl, rfl⟩

theorem u16Bytes_eq_ff_iff (word : UInt16) :
    ((u16Bytes word).getD 0 0 ≠ 0xff ∨ (u16Bytes word).getD 1 0 ≠ 0xff) ↔ word ≠ 0xFFFF := by
  have low : (u16Bytes word).getD 0 0 = UInt8.ofNat word.toNat := rfl
  have high : (u16Bytes word).getD 1 0 = UInt8.ofNat (word.toNat / 256) := rfl
  have bound := word.toNat_lt
  rw [low, high, ne_eq, ne_eq, ne_eq, ← UInt8.toNat_inj, ← UInt8.toNat_inj, ← UInt16.toNat_inj,
    UInt8.toNat_ofNat', UInt8.toNat_ofNat']
  change (¬ _ = 255 ∨ ¬ _ = 255) ↔ ¬ _ = 65535
  omega

theorem pageSpare_eq_cons (cells : Cells) (page : ℕ) :
    XLoader.pageSpare cells page =
      u16Bytes (cells page 1024) ++ bytesOf (cells.words page 1025 31) := by
  rw [XLoader.pageSpare, Cells.words_succ, bytesOf_cons]

theorem erasesize_page {block : ℕ} (inside : block < 2048) :
    ((erasesize * block) >>> pageShift) &&& pagemask = BLOCK_PAGES * block := by
  have pages : (erasesize * block) >>> pageShift = BLOCK_PAGES * block := by
    rw [Nat.shiftRight_eq_div_pow]
    simp only [erasesize, pageShift, BLOCK_PAGES]
    omega
  rw [pages]
  have mask := Nat.and_two_pow_sub_one_eq_mod (BLOCK_PAGES * block) 17
  have small : BLOCK_PAGES * block < 2 ^ 17 := by
    simp only [BLOCK_PAGES]
    omega
  exact mask.trans (Nat.mod_eq_of_lt small)

/-- A block is scanned by its marker. -/
theorem scanBlockFast_eq (s : Session) {block : ℕ} (inside : block < 2048) :
    (scanBlockFast s (erasesize * block)).1 =
        (if marker s.gpmc.chip.cells block ≠ 0xFFFF then 1 else 0) ∧
      Unchanged s (scanBlockFast s (erasesize * block)).2 := by
  have page : BLOCK_PAGES * block < 2 ^ 24 := by
    simp only [BLOCK_PAGES]
    omega
  obtain ⟨spare, unchanged⟩ := nandReadOobStd_eq s page
  have first (k : ℕ) (lt : k < 2) :
      (XLoader.pageSpare s.gpmc.chip.cells (BLOCK_PAGES * block)).getD k 0 =
        (u16Bytes (marker s.gpmc.chip.cells block)).getD k 0 := by
    rw [pageSpare_eq_cons, List.getD_append _ _ _ _ (by rwa [u16Bytes_length])]
    rfl
  simp only [scanBlockFast, erasesize_page inside, spare, first 0 (by decide),
    first 1 (by decide), u16Bytes_eq_ff_iff]
  exact ⟨trivial, unchanged⟩

/-- The table after a part of the flash has been scanned. -/
structure Scanned (s : Session) (count : ℕ) (state : Bbt × Session) : Prop where
  unchanged : Unchanged s state.2
  entry : ∀ block, entry state.1 block =
    if block < count ∧ marker s.gpmc.chip.cells block ≠ 0xFFFF then 0x03 else 0

theorem scanned_start (s : Session) : Scanned s 0 (Bbt.clear, s) where
  unchanged := .refl s
  entry block := by
    have zero : Bbt.clear.bytes.getD (block / 4) 0 = 0 := by
      rw [Bbt.clear, List.getD_eq_getElem?_getD, List.getElem?_replicate]
      split
      · rfl
      · rfl
    rw [if_neg (by omega), entry, zero, UInt8.zero_shiftRight, UInt8.zero_and]

theorem Scanned.turn {s : Session} {count : ℕ} {state : Bbt × Session}
    (scanned : Scanned s count state) (inside : count < 2048) :
    Scanned s (count + 1) (scanTurn state count) := by
  obtain ⟨result, unchanged⟩ := scanBlockFast_eq state.2 inside
  rw [scanned.unchanged.cells] at result
  have next (block : ℕ) : block < count + 1 ∧ marker s.gpmc.chip.cells block ≠ 0xFFFF ↔
      (block = count ∧ marker s.gpmc.chip.cells count ≠ 0xFFFF) ∨
        (block < count ∧ marker s.gpmc.chip.cells block ≠ 0xFFFF) := by
    grind
  refine ⟨scanned.unchanged.trans unchanged, ?_⟩
  intro block
  simp only [scanTurn, result, next]
  by_cases bad : marker s.gpmc.chip.cells count ≠ 0xFFFF
  · rw [if_pos bad, if_pos one_ne_zero, entry_mark state.1 inside, scanned.entry]
    grind
  · rw [if_neg bad, if_neg (by simp), scanned.entry]
    grind

theorem scanned_range (s : Session) {count : ℕ} (le : count ≤ 2048) :
    Scanned s count ((List.range count).foldl scanTurn (Bbt.clear, s)) := by
  induction count with
  | zero => exact scanned_start s
  | succ count ih =>
      rw [List.range_succ, List.foldl_append]
      exact (ih (by omega)).turn (by omega)

/-- After the scan a block is bad in the table if its marker is not blank. -/
theorem nandScanBbt_eq (s : Session) :
    ∃ bbt, (nandScanBbt s).bbt = some bbt ∧
      (∀ block < 2048, nandIsbadBbt bbt (erasesize * block) =
        if marker s.gpmc.chip.cells block ≠ 0xFFFF then 1 else 0) ∧
      (nandScanBbt s).gpmc.chip.cells = s.gpmc.chip.cells ∧
      (nandScanBbt s).gpmc.chip.wiring = s.gpmc.chip.wiring ∧
      (nandScanBbt s).eccpos = s.eccpos := by
  have blocks : mtdSize >>> bbtEraseShift = 2048 := rfl
  have scanned := scanned_range s (le_refl 2048)
  rw [nandScanBbt, blocks]
  generalize (List.range 2048).foldl scanTurn (Bbt.clear, s) = state at scanned
  refine ⟨state.1, rfl, ?_, scanned.unchanged.cells, scanned.unchanged.wiring,
    scanned.unchanged.eccpos⟩
  intro block lt
  rw [nandIsbadBbt_eq, scanned.entry]
  by_cases bad : marker s.gpmc.chip.cells block ≠ 0xFFFF
  · simp [lt, bad]
  · simp [not_not.mp bad]

end Rhino.Flash.UBoot
