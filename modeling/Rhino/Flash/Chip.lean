import Rhino.Bytes.Words
import Rhino.Nand.Page

/-!
# The flash chip behind the GPMC

The flash of the board has pages of 1024 words and 32 words of spare area, 64 pages to a
block.  A command, the address cycles that follow it and the words read or written after
them reach it through the GPMC, which keeps the parities of the words that pass while its
error correction is on.  Programming a page can only clear bits; erasing a block sets all
of them.
-/

namespace Rhino.Flash

open Rhino.Bytes Rhino.Nand

def NAND_CMD_READ0 : UInt8 := 0x00
def NAND_CMD_READSTART : UInt8 := 0x30
def NAND_CMD_SEQIN : UInt8 := 0x80
def NAND_CMD_PAGEPROG : UInt8 := 0x10
def NAND_CMD_ERASE1 : UInt8 := 0x60
def NAND_CMD_ERASE2 : UInt8 := 0xd0
def NAND_CMD_STATUS : UInt8 := 0x70

/-- The words of the pages; the spare area of a page follows its data. -/
abbrev Cells := ℕ → ℕ → UInt16

/-- The pages of a block. -/
def BLOCK_PAGES : ℕ := 64

/-- An operation that goes wrong: what it leaves in the cells and the status that tells,
either failed or not ready in time. -/
structure Fault where
  left : Cells
  status : UInt8
  reported : status &&& 0x40 = 0 ∨ status &&& 0x01 ≠ 0

inductive Mode where
  | idle
  | address (command : UInt8) (cycles : List UInt8)
  | output (page column : ℕ)
  | input (page column : ℕ) (register : ℕ → UInt16)
  | status

structure Chip where
  cells : Cells
  mode : Mode
  status : UInt8
  /-- The level of the write-protect pin. -/
  writable : Bool
  /-- The pages that cannot be programmed and the blocks that cannot be erased. -/
  programFault : ℕ → Option Fault
  eraseFault : ℕ → Option Fault

/-- The three cycles of a page. -/
theorem leValue_page {page : ℕ} (inside : page < 2 ^ 24) : leValue (leBytes 3 page) = page := by
  rw [leValue_leBytes]
  exact Nat.mod_eq_of_lt inside

namespace Chip

def enter (chip : Chip) (mode : Mode) : Chip :=
  { chip with mode := mode }

/-- What no operation changes. -/
def wiring (chip : Chip) : Bool × (ℕ → Option Fault) × (ℕ → Option Fault) :=
  (chip.writable, chip.programFault, chip.eraseFault)

/-- The status register, with the level of the write-protect pin in its highest bit. -/
def statusByte (chip : Chip) : UInt8 :=
  (chip.status &&& 0x7F) ||| if chip.writable then 0x80 else 0x00

/-- The status of a chip that has done what it was told. -/
def ready : UInt8 :=
  0x40

def programPage (chip : Chip) (page : ℕ) (register : ℕ → UInt16) : Chip :=
  if chip.writable then
    match chip.programFault page with
    | none =>
        { chip with
          cells := Function.update chip.cells page fun k => chip.cells page k &&& register k
          mode := .idle
          status := ready }
    | some fault =>
        { chip with
          cells := Function.update chip.cells page (fault.left page)
          mode := .idle
          status := fault.status }
  else { chip with mode := .idle, status := ready }

def eraseBlock (chip : Chip) (block : ℕ) : Chip :=
  if chip.writable then
    match chip.eraseFault block with
    | none =>
        { chip with
          cells := fun page k => if page / BLOCK_PAGES = block then 0xFFFF else chip.cells page k
          mode := .idle
          status := ready }
    | some fault =>
        { chip with
          cells := fun page k =>
            if page / BLOCK_PAGES = block then fault.left page k else chip.cells page k
          mode := .idle
          status := fault.status }
  else { chip with mode := .idle, status := ready }

/-- The status tells of a failure, or of an operation that does not end. -/
def failed (chip : Chip) : Prop :=
  chip.status &&& 0x40 = 0 ∨ chip.status &&& 0x01 ≠ 0

instance failed.decidable (chip : Chip) : Decidable chip.failed :=
  inferInstanceAs (Decidable (_ ∨ _))

/-- A command that starts a new operation. -/
def start (chip : Chip) (command : UInt8) : Chip :=
  chip.enter (if command = NAND_CMD_STATUS then .status else .address command [])

/-- A command cycle. -/
def command (chip : Chip) (code : UInt8) : Chip :=
  match chip.mode with
  | .address first cycles =>
      if code = NAND_CMD_READSTART ∧ first = NAND_CMD_READ0 ∧ cycles.length = 5 then
        chip.enter (.output (leValue (cycles.drop 2)) (leValue (cycles.take 2)))
      else if code = NAND_CMD_ERASE2 ∧ first = NAND_CMD_ERASE1 ∧ cycles.length = 3 then
        chip.eraseBlock (leValue cycles / BLOCK_PAGES)
      else chip.start code
  | .input page _ register =>
      if code = NAND_CMD_PAGEPROG then chip.programPage page register else chip.start code
  | _ => chip.start code

/-- An address cycle; two cycles for the column and three for the page, but for an erasure
only the latter. -/
def address (chip : Chip) (cycle : UInt8) : Chip :=
  match chip.mode with
  | .address first cycles =>
      if first = NAND_CMD_SEQIN ∧ cycles.length = 4 then
        let all := cycles ++ [cycle]
        chip.enter (.input (leValue (all.drop 2)) (leValue (all.take 2)) fun _ => 0xFFFF)
      else chip.enter (.address first (cycles ++ [cycle]))
  | _ => chip

def write (chip : Chip) (word : UInt16) : Chip :=
  match chip.mode with
  | .input page column register =>
      chip.enter (.input page (column + 1) (Function.update register column word))
  | _ => chip

def read (chip : Chip) : UInt16 × Chip :=
  match chip.mode with
  | .output page column =>
      (chip.cells page column, chip.enter (.output page (column + 1)))
  | .status => (chip.statusByte.toUInt16, chip)
  | _ => (0xFFFF, chip)

@[simp]
theorem enter_mode (chip : Chip) (mode : Mode) : (chip.enter mode).mode = mode :=
  rfl

@[simp]
theorem enter_cells (chip : Chip) (mode : Mode) : (chip.enter mode).cells = chip.cells :=
  rfl

@[simp]
theorem enter_enter (chip : Chip) (first second : Mode) :
    (chip.enter first).enter second = chip.enter second :=
  rfl

@[simp]
theorem enter_self (chip : Chip) : chip.enter chip.mode = chip :=
  rfl

theorem enter_programPage (chip : Chip) (mode : Mode) (page : ℕ) (register : ℕ → UInt16) :
    (chip.enter mode).programPage page register = chip.programPage page register :=
  rfl

theorem enter_eraseBlock (chip : Chip) (mode : Mode) (block : ℕ) :
    (chip.enter mode).eraseBlock block = chip.eraseBlock block :=
  rfl

theorem statusByte_and (chip : Chip) (mask : UInt8) :
    chip.statusByte &&& mask =
      (chip.status &&& (0x7F &&& mask)) ||| ((if chip.writable then 0x80 else 0x00) &&& mask) := by
  unfold statusByte
  rw [← UInt8.toBitVec_inj]
  simp only [UInt8.toBitVec_and, UInt8.toBitVec_or]
  rw [BitVec.and_comm, BitVec.and_or_distrib_left, BitVec.and_comm, BitVec.and_assoc,
    BitVec.and_comm mask.toBitVec]

theorem statusByte_ready (chip : Chip) : chip.statusByte &&& 0x40 = chip.status &&& 0x40 := by
  rw [statusByte_and]
  cases chip.writable <;> exact UInt8.or_zero

theorem statusByte_fail (chip : Chip) : chip.statusByte &&& 0x01 = chip.status &&& 0x01 := by
  rw [statusByte_and]
  cases chip.writable <;> exact UInt8.or_zero

theorem statusByte_protect (chip : Chip) :
    chip.statusByte &&& 0x80 = if chip.writable then 0x80 else 0 := by
  have masked : chip.status &&& ((0x7F : UInt8) &&& 0x80) = 0 := UInt8.and_zero
  rw [statusByte_and, masked, UInt8.zero_or]
  cases chip.writable <;> rfl

theorem ready_ok : ¬ (ready &&& 0x40 = 0 ∨ ready &&& 0x01 ≠ 0) := by
  decide

/-- A fault is always reported. -/
theorem programPage_failed_iff (chip : Chip) (page : ℕ) (register : ℕ → UInt16) :
    (chip.programPage page register).failed ↔
      chip.writable = true ∧ (chip.programFault page).isSome := by
  unfold programPage failed
  split
  · cases found : chip.programFault page with
    | none => simpa using ready_ok
    | some fault => simpa [‹chip.writable = true›] using fault.reported
  · simpa [‹¬ chip.writable = true›] using ready_ok

/-! Whatever the chip was doing, a command that does not continue it starts anew. -/

theorem command_eq_start (chip : Chip) {code : UInt8} (notRead : code ≠ NAND_CMD_READSTART)
    (notErase : code ≠ NAND_CMD_ERASE2) (notProgram : code ≠ NAND_CMD_PAGEPROG) :
    chip.command code = chip.start code := by
  unfold command
  split
  · rw [if_neg (by simp [notRead]), if_neg (by simp [notErase])]
  · rw [if_neg notProgram]
  · rfl

/-- The cycles of an address are collected, up to the last one of a page to be programmed. -/
theorem foldl_address (chip : Chip) {first : UInt8} {cycles : List UInt8}
    (mode : chip.mode = .address first cycles) (more : List UInt8)
    (collects : first = NAND_CMD_SEQIN → cycles.length + more.length ≤ 4) :
    more.foldl address chip = chip.enter (.address first (cycles ++ more)) := by
  induction more generalizing chip cycles with
  | nil => rw [List.foldl_nil, List.append_nil, ← mode, enter_self]
  | cons cycle more ih =>
      have going : ¬ (first = NAND_CMD_SEQIN ∧ cycles.length = 4) := by
        rintro ⟨seqin, four⟩
        have few := collects seqin
        simp [four] at few
      have one : chip.address cycle = chip.enter (.address first (cycles ++ [cycle])) := by
        simp only [address, mode, going, if_false]
      rw [List.foldl_cons, one, ih _ rfl _, List.append_assoc, List.singleton_append, enter_enter]
      intro seqin
      have few := collects seqin
      simp only [List.length_cons, List.length_append, List.length_nil] at few ⊢
      omega

/-- A page is opened for reading. -/
theorem openPage (chip : Chip) (columnCycles pageCycles : List UInt8)
    (two : columnCycles.length = 2) (three : pageCycles.length = 3) :
    ((columnCycles ++ pageCycles).foldl address (chip.command NAND_CMD_READ0)).command
        NAND_CMD_READSTART =
      chip.enter (.output (leValue pageCycles) (leValue columnCycles)) := by
  have opened : chip.command NAND_CMD_READ0 = chip.enter (.address NAND_CMD_READ0 []) :=
    chip.command_eq_start (by decide) (by decide) (by decide)
  have five : (columnCycles ++ pageCycles).length = 5 := by
    rw [List.length_append, two, three]
  rw [opened, foldl_address _ rfl _ fun seqin => absurd seqin (by decide), List.nil_append,
    enter_enter, command]
  simp only [enter_mode, five, and_self, if_true, enter_enter, List.drop_left' two,
    List.take_left' two]

/-- A page is opened for programming; its register starts with all bits set. -/
theorem openInput (chip : Chip) (columnCycles pageCycles : List UInt8)
    (two : columnCycles.length = 2) (three : pageCycles.length = 3) :
    (columnCycles ++ pageCycles).foldl address (chip.command NAND_CMD_SEQIN) =
      chip.enter (.input (leValue pageCycles) (leValue columnCycles) fun _ => 0xFFFF) := by
  have opened : chip.command NAND_CMD_SEQIN = chip.enter (.address NAND_CMD_SEQIN []) :=
    chip.command_eq_start (by decide) (by decide) (by decide)
  obtain ⟨front, last, rfl⟩ : ∃ front last, pageCycles = front ++ [last] :=
    ⟨pageCycles.dropLast, pageCycles.getLast (List.ne_nil_of_length_pos (by omega)),
      (List.dropLast_append_getLast _).symm⟩
  have four : (columnCycles ++ front).length = 4 := by
    simp only [List.length_append, List.length_singleton] at three ⊢
    omega
  have collected := (chip.enter (.address NAND_CMD_SEQIN [])).foldl_address rfl
    (columnCycles ++ front) fun _ => by rw [four]; exact le_refl 4
  rw [opened, ← List.append_assoc, List.foldl_append, collected, List.nil_append, enter_enter,
    List.foldl_cons, List.foldl_nil, address]
  simp only [enter_mode, four, and_self, if_true, enter_enter, List.append_assoc,
    List.drop_left' two, List.take_left' two]

/-- A block is named by the address of one of its pages and erased. -/
theorem eraseNamed (chip : Chip) {pageCycles : List UInt8} (three : pageCycles.length = 3) :
    (pageCycles.foldl address (chip.command NAND_CMD_ERASE1)).command NAND_CMD_ERASE2 =
      chip.eraseBlock (leValue pageCycles / BLOCK_PAGES) := by
  have opened : chip.command NAND_CMD_ERASE1 = chip.enter (.address NAND_CMD_ERASE1 []) :=
    chip.command_eq_start (by decide) (by decide) (by decide)
  have other : ¬ NAND_CMD_ERASE2 = NAND_CMD_READSTART := by decide
  rw [opened, foldl_address _ rfl _ fun seqin => absurd seqin (by decide), List.nil_append,
    enter_enter, command]
  simp only [enter_mode, other, false_and, if_false, three, and_self, if_true, enter_eraseBlock]

end Chip

/-- The chip and the error correction of the GPMC. -/
structure Gpmc where
  chip : Chip
  eccOn : Bool
  /-- The data words that have passed since the result registers were cleared. -/
  passed : List UInt16

namespace Gpmc

def command (gpmc : Gpmc) (code : UInt8) : Gpmc :=
  { gpmc with chip := gpmc.chip.command code }

def address (gpmc : Gpmc) (cycle : UInt8) : Gpmc :=
  { gpmc with chip := gpmc.chip.address cycle }

def pass (gpmc : Gpmc) (words : List UInt16) : List UInt16 :=
  if gpmc.eccOn then gpmc.passed ++ words else gpmc.passed

def write (gpmc : Gpmc) (word : UInt16) : Gpmc :=
  { gpmc with chip := gpmc.chip.write word, passed := gpmc.pass [word] }

def read (gpmc : Gpmc) : UInt16 × Gpmc :=
  (gpmc.chip.read.1, { gpmc with chip := gpmc.chip.read.2, passed := gpmc.pass [gpmc.chip.read.1] })

def readWords : ℕ → Gpmc → List UInt16 × Gpmc
  | 0, gpmc => ([], gpmc)
  | count + 1, gpmc =>
      let rest := readWords count gpmc.read.2
      (gpmc.read.1 :: rest.1, rest.2)

def writeWords (gpmc : Gpmc) (words : List UInt16) : Gpmc :=
  words.foldl write gpmc

/-- Clear the result registers and turn the error correction on. -/
def enableEcc (gpmc : Gpmc) : Gpmc :=
  { gpmc with eccOn := true, passed := [] }

def disableEcc (gpmc : Gpmc) : Gpmc :=
  { gpmc with eccOn := false }

end Gpmc

/-! ## Transfers -/

/-- Some of the words of a page. -/
def Cells.words (cells : Cells) (page column count : ℕ) : List UInt16 :=
  (List.range count).map fun k => cells page (column + k)

@[simp]
theorem Cells.words_length (cells : Cells) (page column count : ℕ) :
    (cells.words page column count).length = count := by
  simp [Cells.words]

theorem Cells.words_succ (cells : Cells) (page column count : ℕ) :
    cells.words page column (count + 1) =
      cells page column :: cells.words page (column + 1) count := by
  simp only [Cells.words, List.range_succ_eq_map, List.map_cons, List.map_map, Nat.add_zero]
  congr 1
  apply List.map_congr_left
  intro k _
  rw [Function.comp_apply, Nat.succ_eq_add_one, Nat.add_right_comm, Nat.add_assoc]

/-- The register of a page once words have been loaded into it. -/
def loaded (register : ℕ → UInt16) (column : ℕ) (words : List UInt16) : ℕ → UInt16 :=
  fun k => if column ≤ k then (words[k - column]?).getD (register k) else register k

namespace Gpmc

theorem foldl_address (gpmc : Gpmc) (cycles : List UInt8) :
    cycles.foldl address gpmc = { gpmc with chip := cycles.foldl Chip.address gpmc.chip } := by
  induction cycles generalizing gpmc with
  | nil => rfl
  | cons cycle cycles ih => exact ih (gpmc.address cycle)

theorem openPage (gpmc : Gpmc) (columnCycles pageCycles : List UInt8)
    (two : columnCycles.length = 2) (three : pageCycles.length = 3) :
    ((columnCycles ++ pageCycles).foldl address (gpmc.command NAND_CMD_READ0)).command
        NAND_CMD_READSTART =
      { gpmc with chip :=
          gpmc.chip.enter (.output (leValue pageCycles) (leValue columnCycles)) } := by
  rw [foldl_address, command, command, Chip.openPage gpmc.chip _ _ two three]

theorem pass_pass (gpmc : Gpmc) (first second : List UInt16) (chip : Chip) :
    pass { gpmc with chip := chip, passed := gpmc.pass first } second =
      gpmc.pass (first ++ second) := by
  unfold pass
  cases gpmc.eccOn
  · rfl
  · simp

theorem pass_nil (gpmc : Gpmc) : gpmc.pass [] = gpmc.passed := by
  unfold pass
  split
  · exact List.append_nil _
  · rfl

/-- The words of a page come out one after another. -/
theorem readWords_output (gpmc : Gpmc) {page column : ℕ}
    (mode : gpmc.chip.mode = .output page column) (count : ℕ) :
    gpmc.readWords count =
      (gpmc.chip.cells.words page column count,
        { gpmc with
          chip := gpmc.chip.enter (.output page (column + count))
          passed := gpmc.pass (gpmc.chip.cells.words page column count) }) := by
  induction count generalizing gpmc column with
  | zero =>
      rw [readWords, Nat.add_zero, ← mode]
      simp [Cells.words, pass_nil]
  | succ count ih =>
      have one : gpmc.read = (gpmc.chip.cells page column,
          { gpmc with
            chip := gpmc.chip.enter (.output page (column + 1))
            passed := gpmc.pass [gpmc.chip.cells page column] }) := by
        simp only [read, Chip.read, mode]
      rw [readWords, one, ih _ rfl]
      simp only [pass_pass, Cells.words_succ, List.singleton_append, Nat.add_right_comm,
        Nat.add_assoc, Chip.enter_cells, Chip.enter_enter]

/-- Two transfers from one page. -/
theorem readWords_readWords (gpmc : Gpmc) {page column : ℕ}
    (mode : gpmc.chip.mode = .output page column) (first second : ℕ) :
    (gpmc.readWords first).2.readWords second =
      (gpmc.chip.cells.words page (column + first) second,
        { gpmc with
          chip := gpmc.chip.enter (.output page (column + first + second))
          passed := gpmc.pass (gpmc.chip.cells.words page column first ++
            gpmc.chip.cells.words page (column + first) second) }) := by
  rw [readWords_output gpmc mode, readWords_output _ rfl, pass_pass, Chip.enter_enter,
    Chip.enter_cells]

/-- The words that are written fill the register of the page. -/
theorem writeWords_input (gpmc : Gpmc) {page column : ℕ} {register : ℕ → UInt16}
    (mode : gpmc.chip.mode = .input page column register) (words : List UInt16) :
    gpmc.writeWords words =
      { gpmc with
        chip := gpmc.chip.enter
          (.input page (column + words.length) (loaded register column words))
        passed := gpmc.pass words } := by
  induction words generalizing gpmc column register with
  | nil =>
      have same : loaded register column [] = register := by
        funext k
        simp [loaded]
      rw [writeWords, List.foldl_nil, same, List.length_nil, Nat.add_zero, ← mode, pass_nil,
        Chip.enter_self]
  | cons word words ih =>
      have one : gpmc.write word =
          { gpmc with
            chip := gpmc.chip.enter
              (.input page (column + 1) (Function.update register column word))
            passed := gpmc.pass [word] } := by
        simp only [write, Chip.write, mode]
      have rest : loaded (Function.update register column word) (column + 1) words =
          loaded register column (word :: words) := by
        funext k
        unfold loaded
        rcases Nat.lt_trichotomy k column with before | rfl | behind
        · rw [if_neg (by omega), if_neg (by omega), Function.update_of_ne (by omega)]
        · rw [if_neg (by omega), if_pos (le_refl k), Function.update_self]
          simp
        · rw [if_pos (by omega), if_pos (by omega), Function.update_of_ne (by omega),
            show k - column = k - (column + 1) + 1 by omega, List.getElem?_cons_succ]
      rw [writeWords, List.foldl_cons, one]
      refine (ih _ rfl).trans ?_
      rw [rest, pass_pass, List.singleton_append, List.length_cons, Nat.add_assoc,
        Nat.add_comm 1, Chip.enter_enter]

end Gpmc

/-- The first 512 bytes of a buffer. -/
def sectorOf (bytes : List UInt8) : Sector :=
  Vector.ofFn fun i => bytes.getD i 0

/-- One of the sectors of a buffer. -/
def sectorAt (bytes : List UInt8) (k : ℕ) : Sector :=
  sectorOf (slice (512 * k) 512 bytes)

def GPMC_ECC1_RESULT : UInt32 := 0x6E000200

/-- A result register has the parities of the 512 bytes it is for. -/
def Gpmc.rawReadl (gpmc : Gpmc) (addr : UInt32) : UInt32 :=
  gpmcResult (sectorAt (bytesOf gpmc.passed) ((addr - GPMC_ECC1_RESULT).toNat / 4))

end Rhino.Flash
