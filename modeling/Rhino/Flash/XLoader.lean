import Rhino.Flash.Chip
import Rhino.Bytes.Loading

/-!
# Reading the flash at boot

The driver of the first boot loader in `drivers/k9f1g08r0a.c`, down to the cycles on the
bus, and the loop of `start_armboot` in `lib/board.c` that loads the second boot loader.
What a page, a block and the whole partition give depends on the cells alone.
-/

namespace Rhino.Flash.XLoader

open Rhino.Bytes Rhino.Nand Rhino.Transition

def PAGE_SIZE : ℕ := 2048
def OOB_SIZE : ℕ := 64
def MAX_NUM_PAGES : ℕ := 64
def NAND_UBOOT_START : ℕ := 0x80000
def NAND_UBOOT_END : ℕ := 0x240000
def NAND_BLOCK_SIZE : ℕ := 0x20000
def CFG_LOADADDR : ℕ := 0x80008000
def chipsize : ℕ := 256 <<< 20

/-- The parts of an address that `NanD_Address` can send. -/
inductive Addr where
  | column
  | page
  | columnPage
  | oob
  deriving DecidableEq

/-- The cycles of `NanD_Address`, on a bus of sixteen bits. -/
def addressCycles (numbytes : Addr) (ofs : ℕ) : List UInt8 :=
  let col := UInt16.ofNat ofs
  let upper : UInt8 := ((col >>> 8) &&& (0x07 : UInt16)).toUInt8
  let columnCycles := [(col &&& (0xff : UInt16)).toUInt8,
    if numbytes = .oob then upper ||| ((1 : UInt8) <<< 2) else upper]
  let pageCycles := [UInt8.ofNat (ofs >>> 11), UInt8.ofNat (ofs >>> 19)] ++
    if chipsize > 128 <<< 20 then [UInt8.ofNat (ofs >>> 27)] else []
  (if numbytes = .page then [] else columnCycles) ++
    if numbytes = .column then [] else pageCycles

def nanDAddress (gpmc : Gpmc) (numbytes : Addr) (ofs : ℕ) : Gpmc :=
  (addressCycles numbytes ofs).foldl Gpmc.address gpmc

/-- `nand_read_oob`. -/
def nandReadOob (gpmc : Gpmc) (pageAddr : ℕ) : List UInt8 × Gpmc :=
  let gpmc := gpmc.command NAND_CMD_READ0
  let gpmc := nanDAddress gpmc .oob pageAddr
  let gpmc := gpmc.command NAND_CMD_READSTART
  let read := gpmc.readWords (OOB_SIZE >>> 1)
  (bytesOf read.1, read.2)

/-- `nand_read_page`: the page as it stands in memory afterwards; `none` is the endless loop
after an error that cannot be corrected. -/
def nandReadPage (gpmc : Gpmc) (pageAddr : ℕ) : Option (List UInt8 × Gpmc) :=
  let gpmc := gpmc.enableEcc
  let gpmc := gpmc.command NAND_CMD_READ0
  let gpmc := nanDAddress gpmc .columnPage pageAddr
  let gpmc := gpmc.command NAND_CMD_READSTART
  let data := gpmc.readWords (PAGE_SIZE >>> 1)
  let oob := data.2.readWords (OOB_SIZE >>> 1)
  let buf := (List.range ECC_STEPS).map (sectorAt (bytesOf data.1))
  let oobBuf := fun i => (bytesOf oob.1).getD i 0
  (Nand.nandReadPage oob.2.rawReadl GPMC_ECC1_RESULT buf oobBuf).map fun sectors =>
    ((sectors.map Vector.toList).flatten, oob.2.disableEcc)

structure Board where
  gpmc : Gpmc
  ram : ℕ → UInt8

/-- One turn of the loop of `nand_read_block`. -/
def readTurn (buf blockAddr : ℕ) (board : Board) (i : ℕ) : Option Board :=
  (nandReadPage board.gpmc (blockAddr + PAGE_SIZE * i)).map fun read =>
    { gpmc := read.2, ram := storeAt board.ram (buf + PAGE_SIZE * i) read.1 }

/-- `nand_read_block`. -/
def nandReadBlock (board : Board) (buf blockAddr : ℕ) : Option (ℤ × Board) :=
  let oob := nandReadOob board.gpmc blockAddr
  if u16At oob.1 0 &&& 0xff ≠ 0xff then some (1, { board with gpmc := oob.2 })
  else
    (run (readTurn buf blockAddr) { board with gpmc := oob.2 } (List.range MAX_NUM_PAGES)).map
      fun board => (0, board)

/-- One turn of the loop of `start_armboot` over the blocks of the partition. -/
def bootTurn (state : ℕ × Board) (i : ℕ) : Option (ℕ × Board) :=
  (nandReadBlock state.2 state.1 i).map fun read =>
    (if read.1 = 0 then state.1 + NAND_BLOCK_SIZE else state.1, read.2)

/-- The addresses of the blocks of the partition. -/
def partition : List ℕ :=
  (List.range ((NAND_UBOOT_END - NAND_UBOOT_START) / NAND_BLOCK_SIZE)).map fun k =>
    NAND_UBOOT_START + NAND_BLOCK_SIZE * k

/-- `start_armboot`, from the flash: where the image ends and the board, unless it hangs at a
page. -/
def bootFromNand (board : Board) : Option (ℕ × Board) :=
  run bootTurn (CFG_LOADADDR, board) partition

/-! ## The address cycles -/

section Address

variable (page : ℕ)

theorem pageCycles_eq :
    [UInt8.ofNat ((PAGE_SIZE * page) >>> 11), UInt8.ofNat ((PAGE_SIZE * page) >>> 19),
      UInt8.ofNat ((PAGE_SIZE * page) >>> 27)] = leBytes 3 page := by
  have first : (PAGE_SIZE * page) >>> 11 = page := by
    rw [Nat.shiftRight_eq_div_pow]
    exact Nat.mul_div_cancel_left page (by decide)
  have second : (PAGE_SIZE * page) >>> 19 = page / 256 := by
    rw [show 19 = 11 + 8 from rfl, Nat.shiftRight_add, first, Nat.shiftRight_eq_div_pow]
  have third : (PAGE_SIZE * page) >>> 27 = page / 256 / 256 := by
    rw [show 27 = 19 + 8 from rfl, Nat.shiftRight_add, second, Nat.shiftRight_eq_div_pow]
  rw [first, second, third]
  rfl

/-- The column cycles of an address at the start of a page. -/
theorem column_eq_zero :
    UInt16.ofNat (PAGE_SIZE * page) &&& (0xff : UInt16) = 0 ∧
      (UInt16.ofNat (PAGE_SIZE * page) >>> 8) &&& (0x07 : UInt16) = 0 := by
  have low := Nat.and_two_pow_sub_one_eq_mod (UInt16.ofNat (PAGE_SIZE * page)).toNat 8
  have high := Nat.and_two_pow_sub_one_eq_mod ((UInt16.ofNat (PAGE_SIZE * page)).toNat / 2 ^ 8) 3
  have value : (UInt16.ofNat (PAGE_SIZE * page)).toNat = 2048 * page % 65536 := rfl
  constructor
  · apply UInt16.toNat_inj.mp
    rw [UInt16.toNat_and]
    change _ &&& 2 ^ 8 - 1 = 0
    omega
  · apply UInt16.toNat_inj.mp
    rw [UInt16.toNat_and, UInt16.toNat_shiftRight, Nat.shiftRight_eq_div_pow]
    change (UInt16.ofNat (PAGE_SIZE * page)).toNat / 2 ^ 8 &&& 2 ^ 3 - 1 = 0
    omega

theorem addressCycles_columnPage :
    addressCycles .columnPage (PAGE_SIZE * page) = [0, 0] ++ leBytes 3 page := by
  obtain ⟨low, high⟩ := column_eq_zero page
  rw [← pageCycles_eq, addressCycles, low, high]
  rfl

theorem addressCycles_oob :
    addressCycles .oob (PAGE_SIZE * page) = [0, 4] ++ leBytes 3 page := by
  obtain ⟨low, high⟩ := column_eq_zero page
  rw [← pageCycles_eq, addressCycles, low, high]
  rfl

end Address

/-! ## What a page gives -/

/-- The data of a page. -/
def pageData (cells : Cells) (page : ℕ) : List UInt8 :=
  bytesOf (cells.words page 0 1024)

/-- The spare area of a page. -/
def pageSpare (cells : Cells) (page : ℕ) : List UInt8 :=
  bytesOf (cells.words page 1024 32)

/-- The code of a sector in the spare area. -/
def pageCode (cells : Cells) (page i : ℕ) : EccBytes :=
  #v[(pageSpare cells page).getD (eccPos (3 * i)) 0,
    (pageSpare cells page).getD (eccPos (3 * i + 1)) 0,
    (pageSpare cells page).getD (eccPos (3 * i + 2)) 0]

/-- What becomes of a sector. -/
def sectorBack (cells : Cells) (page i : ℕ) : ℤ × Sector :=
  omapCorrectDataHwEcc (sectorAt (pageData cells page) i) (pageCode cells page i)
    (packEcc (gpmcResult (sectorAt (pageData cells page) i)))

/-- The page as it is read. -/
def pageBack (cells : Cells) (page : ℕ) : Option (List UInt8) :=
  if ∃ i < ECC_STEPS, (sectorBack cells page i).1 = -1 then none
  else some ((List.range ECC_STEPS).flatMap fun i => (sectorBack cells page i).2.toList)

theorem pageBack_length {cells : Cells} {page : ℕ} {bytes : List UInt8}
    (read : pageBack cells page = some bytes) : bytes.length = PAGE_SIZE := by
  unfold pageBack at read
  split at read
  · cases read
  · rcases Option.some.inj read with rfl
    simp [List.length_flatMap, ECC_STEPS, PAGE_SIZE]

theorem sectorAt_append (data more : List UInt8) {k : ℕ} (inside : 512 * k + 512 ≤ data.length) :
    sectorAt (data ++ more) k = sectorAt data k := by
  rw [sectorAt, sectorAt, slice_append_left inside]

theorem resultRegister_index {i : ℕ} (lt : i < ECC_STEPS) :
    (resultRegister GPMC_ECC1_RESULT i - GPMC_ECC1_RESULT).toNat / 4 = i := by
  unfold ECC_STEPS at lt
  interval_cases i <;> rfl

/-- The result registers are those of the sectors once the page has passed. -/
theorem correctPage_eq {gpmc : Gpmc} (cells : Cells) (page : ℕ)
    (passed : gpmc.passed = cells.words page 0 1024 ++ cells.words page 1024 32) :
    Nand.nandReadPage gpmc.rawReadl GPMC_ECC1_RESULT
        ((List.range ECC_STEPS).map (sectorAt (pageData cells page)))
        (fun i => (pageSpare cells page).getD i 0) =
      if ∃ i < ECC_STEPS, (sectorBack cells page i).1 = -1 then none
      else some ((List.range ECC_STEPS).map fun i => (sectorBack cells page i).2) := by
  have computed : omapCalculateHwEcc gpmc.rawReadl GPMC_ECC1_RESULT ECC_STEPS =
      (List.range ECC_STEPS).map fun i =>
        packEcc (gpmcResult (sectorAt (pageData cells page) i)) := by
    apply List.map_congr_left
    intro i mem
    have lt := List.mem_range.mp mem
    have inside : 512 * i + 512 ≤ (pageData cells page).length := by
      rw [pageData, bytesOf_length, Cells.words_length]
      unfold ECC_STEPS at lt
      omega
    rw [Gpmc.rawReadl, resultRegister_index lt, passed, bytesOf_append,
      ← pageData, sectorAt_append _ _ inside]
  have codes : eccCode (fun i => (pageSpare cells page).getD i 0) =
      (List.range ECC_STEPS).map (pageCode cells page) := rfl
  rw [Nand.nandReadPage, computed, codes, correctSectors_places]
  simp only [List.mem_range]
  rfl

section Page

variable (gpmc : Gpmc) {page : ℕ} (inside : page < 2 ^ 24)

include inside

/-- The spare area of a page is read as it stands in the cells. -/
theorem nandReadOob_eq :
    (nandReadOob gpmc (PAGE_SIZE * page)).1 = pageSpare gpmc.chip.cells page ∧
      (nandReadOob gpmc (PAGE_SIZE * page)).2.chip.cells = gpmc.chip.cells := by
  have opened := gpmc.openPage [0, 4] (leBytes 3 page) rfl (leBytes_length 3 page)
  simp only [nandReadOob, nanDAddress, addressCycles_oob, opened, leValue_page inside]
  rw [Gpmc.readWords_output _ rfl]
  exact ⟨rfl, rfl⟩

/-- A page is read as its sectors are corrected. -/
theorem nandReadPage_eq :
    (nandReadPage gpmc (PAGE_SIZE * page)).map (fun read => (read.1, read.2.chip.cells)) =
      (pageBack gpmc.chip.cells page).map fun bytes => (bytes, gpmc.chip.cells) := by
  have opened := gpmc.enableEcc.openPage [0, 0] (leBytes 3 page) rfl (leBytes_length 3 page)
  simp only [nandReadPage, nanDAddress, addressCycles_columnPage, opened, leValue_page inside]
  generalize size : PAGE_SIZE >>> 1 = words
  generalize spare : OOB_SIZE >>> 1 = more
  rw [Gpmc.readWords_readWords _ rfl, Gpmc.readWords_output _ rfl]
  obtain rfl : words = 1024 := size.symm
  obtain rfl : more = 32 := spare.symm
  have start : leValue [0, 0] = 0 := rfl
  simp only [start, Nat.zero_add, Gpmc.enableEcc, Gpmc.pass, if_true, List.nil_append,
    Chip.enter_cells]
  rw [← pageData, ← pageSpare, correctPage_eq gpmc.chip.cells page, pageBack]
  · split
    · rfl
    · simp only [Option.map_some, List.flatMap, List.map_map]
      rfl
  · rfl

end Page

/-! ## What a block and the partition give -/

/-- A block is skipped for the low byte of the first word of its first spare area. -/
def Skipped (cells : Cells) (block : ℕ) : Prop :=
  cells (BLOCK_PAGES * block) 1024 &&& 0xff ≠ 0xff

instance Skipped.decidable (cells : Cells) (block : ℕ) : Decidable (Skipped cells block) :=
  inferInstanceAs (Decidable (_ ≠ _))

/-- The pages of a block. -/
def blockBack (cells : Cells) (block : ℕ) : Option (List UInt8) :=
  gather (fun i => pageBack cells (BLOCK_PAGES * block + i)) (List.range MAX_NUM_PAGES)

theorem blockBack_length {cells : Cells} {block : ℕ} {bytes : List UInt8}
    (read : blockBack cells block = some bytes) : bytes.length = NAND_BLOCK_SIZE := by
  rw [gather_length (fun _ _ => pageBack_length) read, List.length_range]
  rfl

theorem u16At_pageSpare (cells : Cells) (page : ℕ) :
    u16At (pageSpare cells page) 0 = cells page 1024 := by
  rw [pageSpare, Cells.words_succ, bytesOf_cons, u16At_u16Bytes_append]

section Block

variable (board : Board) (buf : ℕ) {block : ℕ} (inside : block < 2 ^ 18)

include inside

theorem readTurn_eq {i : ℕ} (lt : i < MAX_NUM_PAGES) :
    (readTurn buf (NAND_BLOCK_SIZE * block) board i).map
        (fun board => (board.ram, board.gpmc.chip.cells)) =
      (pageBack board.gpmc.chip.cells (BLOCK_PAGES * block + i)).map fun bytes =>
        (storeAt board.ram (buf + PAGE_SIZE * i) bytes, board.gpmc.chip.cells) := by
  have address :
      NAND_BLOCK_SIZE * block + PAGE_SIZE * i = PAGE_SIZE * (BLOCK_PAGES * block + i) := by
    simp only [NAND_BLOCK_SIZE, PAGE_SIZE, BLOCK_PAGES]
    omega
  have page : BLOCK_PAGES * block + i < 2 ^ 24 := by
    simp only [BLOCK_PAGES, MAX_NUM_PAGES] at lt ⊢
    omega
  have read := congrArg (Option.map fun read : List UInt8 × Cells =>
    (storeAt board.ram (buf + PAGE_SIZE * i) read.1, read.2)) (nandReadPage_eq board.gpmc page)
  rw [Option.map_map, Option.map_map] at read
  rw [readTurn, address, Option.map_map]
  exact read

theorem readTurn_cells {i : ℕ} (lt : i < MAX_NUM_PAGES) {next : Board}
    (read : readTurn buf (NAND_BLOCK_SIZE * block) board i = some next) :
    next.gpmc.chip.cells = board.gpmc.chip.cells := by
  have seen := readTurn_eq board buf inside lt
  rw [read, Option.map_some] at seen
  obtain ⟨_, _, same⟩ := Option.map_eq_some_iff.mp seen.symm
  exact (congrArg Prod.snd same).symm

/-- The pages of a block are stored one behind the other. -/
theorem run_readTurn :
    (run (readTurn buf (NAND_BLOCK_SIZE * block)) board (List.range MAX_NUM_PAGES)).map
        (fun final => (final.ram, final.gpmc.chip.cells)) =
      (blockBack board.gpmc.chip.cells block).map fun bytes =>
        (storeAt board.ram buf bytes, board.gpmc.chip.cells) := by
  set cells := board.gpmc.chip.cells with cells_eq
  have kept : ∀ state : Board, ∀ i ∈ List.range MAX_NUM_PAGES, ∀ next,
      state.gpmc.chip.cells = cells → readTurn buf (NAND_BLOCK_SIZE * block) state i = some next →
      next.gpmc.chip.cells = cells := by
    intro state i mem next same read
    exact (readTurn_cells state buf inside (List.mem_range.mp mem) read).trans same
  have stored : (run (readTurn buf (NAND_BLOCK_SIZE * block)) board
      (List.range MAX_NUM_PAGES)).map Board.ram =
      (blockBack cells block).map (storeAt board.ram buf) := by
    rw [blockBack, ← run_store_range _ (fun _ _ => pageBack_length)]
    refine run_map Board.ram (fun state => state.gpmc.chip.cells = cells) kept ?_ cells_eq.symm
    intro state i mem same
    have seen := congrArg (Option.map Prod.fst)
      (readTurn_eq state buf inside (List.mem_range.mp mem))
    rw [Option.map_map, Option.map_map, same] at seen
    exact seen
  have whole := congrArg (Option.map fun ram => (ram, cells)) stored
  rw [Option.map_map, Option.map_map] at whole
  refine Eq.trans (Option.map_congr ?_) whole
  intro final finished
  rw [run_kept _ kept cells_eq.symm finished]
  rfl

/-- A block that is not skipped is loaded page by page. -/
theorem nandReadBlock_eq :
    (nandReadBlock board buf (NAND_BLOCK_SIZE * block)).map
        (fun read => (read.1, read.2.ram, read.2.gpmc.chip.cells)) =
      if Skipped board.gpmc.chip.cells block then
        some (1, board.ram, board.gpmc.chip.cells)
      else (blockBack board.gpmc.chip.cells block).map fun bytes =>
        (0, storeAt board.ram buf bytes, board.gpmc.chip.cells) := by
  have address : NAND_BLOCK_SIZE * block = PAGE_SIZE * (BLOCK_PAGES * block) := by
    simp only [NAND_BLOCK_SIZE, PAGE_SIZE, BLOCK_PAGES]
    omega
  have page : BLOCK_PAGES * block < 2 ^ 24 := by
    simp only [BLOCK_PAGES]
    omega
  obtain ⟨spare, kept⟩ := nandReadOob_eq board.gpmc page
  rw [← address] at spare kept
  simp only [nandReadBlock, spare, u16At_pageSpare]
  by_cases skipped : Skipped board.gpmc.chip.cells block
  · rw [if_pos skipped, if_pos (show _ ≠ _ from skipped), Option.map_some, kept]
  · have read := congrArg (Option.map fun seen : (ℕ → UInt8) × Cells => ((0 : ℤ), seen))
      (run_readTurn { board with gpmc := (nandReadOob board.gpmc (NAND_BLOCK_SIZE * block)).2 }
        buf inside)
    rw [Option.map_map, Option.map_map, kept] at read
    rw [if_neg skipped, if_neg (show ¬ _ ≠ _ from skipped), Option.map_map]
    exact read

end Block

/-- What a block adds to the image. -/
def blockPiece (cells : Cells) (block : ℕ) : Option (List UInt8) :=
  if Skipped cells block then some [] else blockBack cells block

/-- The numbers of the blocks of the partition. -/
def partitionBlocks : List ℕ :=
  (List.range 14).map (4 + ·)

/-- The image that the partition gives. -/
def partitionBack (cells : Cells) : Option (List UInt8) :=
  gather (blockPiece cells) partitionBlocks

theorem partition_eq : partition = partitionBlocks.map (NAND_BLOCK_SIZE * ·) := by
  decide

theorem bootTurn_eq (state : ℕ × Board) {block : ℕ} (inside : block < 2 ^ 18) :
    (bootTurn state (NAND_BLOCK_SIZE * block)).map
        (fun next => ((next.1, next.2.ram), next.2.gpmc.chip.cells)) =
      (blockPiece state.2.gpmc.chip.cells block).map fun bytes =>
        ((state.1 + bytes.length, storeAt state.2.ram state.1 bytes),
          state.2.gpmc.chip.cells) := by
  have read := congrArg (Option.map fun seen : ℤ × (ℕ → UInt8) × Cells =>
    ((if seen.1 = 0 then state.1 + NAND_BLOCK_SIZE else state.1, seen.2.1), seen.2.2))
    (nandReadBlock_eq state.2 state.1 inside)
  rw [Option.map_map] at read
  rw [bootTurn, Option.map_map]
  refine Eq.trans read ?_
  rw [blockPiece]
  split
  · simp
  · rw [Option.map_map]
    apply Option.map_congr
    intro bytes found
    rw [blockBack_length found]
    rfl

theorem mem_partition {i : ℕ} (mem : i ∈ partition) :
    i = NAND_BLOCK_SIZE * (i / NAND_BLOCK_SIZE) ∧ i / NAND_BLOCK_SIZE < 2 ^ 18 := by
  simp only [partition_eq, partitionBlocks, List.mem_map, List.mem_range] at mem
  obtain ⟨_, ⟨k, lt, rfl⟩, rfl⟩ := mem
  rw [Nat.mul_div_cancel_left _ (by decide)]
  exact ⟨rfl, by omega⟩

/-- The boot loader hangs at a page that cannot be corrected; otherwise it has loaded the blocks
that it does not skip, one behind the other. -/
theorem bootFromNand_eq (board : Board) :
    (bootFromNand board).map (fun final => (final.1, final.2.ram)) =
      (partitionBack board.gpmc.chip.cells).map fun bytes =>
        (CFG_LOADADDR + bytes.length, storeAt board.ram CFG_LOADADDR bytes) := by
  set cells := board.gpmc.chip.cells with cells_eq
  have turn : ∀ state : ℕ × Board, ∀ i ∈ partition, state.2.gpmc.chip.cells = cells →
      (bootTurn state i).map (fun next => ((next.1, next.2.ram), next.2.gpmc.chip.cells)) =
        (blockPiece cells (i / NAND_BLOCK_SIZE)).map fun bytes =>
          ((state.1 + bytes.length, storeAt state.2.ram state.1 bytes), cells) := by
    intro state i mem same
    obtain ⟨whole, inside⟩ := mem_partition mem
    have seen := bootTurn_eq state inside
    rwa [← whole, same] at seen
  have pieces : partitionBack cells =
      gather (fun i => blockPiece cells (i / NAND_BLOCK_SIZE)) partition := by
    rw [partition_eq, gather_map, partitionBack]
    apply gather_congr
    intro block _
    rw [Function.comp_apply, Nat.mul_div_cancel_left _ (by decide)]
  rw [pieces, ← run_store]
  refine run_map (fun state : ℕ × Board => (state.1, state.2.ram))
    (fun state => state.2.gpmc.chip.cells = cells) ?_ ?_ cells_eq.symm
  · intro state i mem next same taken
    have seen := turn state i mem same
    rw [taken, Option.map_some] at seen
    obtain ⟨_, _, kept⟩ := Option.map_eq_some_iff.mp seen.symm
    exact (congrArg Prod.snd kept).symm
  · intro state i mem same
    have seen := congrArg (Option.map Prod.fst) (turn state i mem same)
    rwa [Option.map_map, Option.map_map] at seen

end Rhino.Flash.XLoader
