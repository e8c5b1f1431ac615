import Rhino.Flash.XLoader
import Rhino.Fat.Volume

/-!
# Booting from a card

`start_armboot` of `lib/board.c` with `mmc_boot` and `get_mem_type` of the board: the pins
choose the card or the flash.  From the card, the loader starts what the file holds, for every
card whose first partition has the file; there is no way back from the card to the flash.
-/

namespace Rhino.Fat

open Rhino.Bytes Rhino.Flash.XLoader

/-! ## The loader -/

def SYSBOOT_MASK : UInt32 := 0x1f

inductive MemType where
  | gpmcNand
  | mmcNand
  deriving DecidableEq, Repr

/-- `get_mem_type`, from the value of `CONTROL_STATUS`. -/
def getMemType (controlStatus : UInt32) : MemType :=
  let memType := controlStatus &&& SYSBOOT_MASK
  if memType = 1 then .gpmcNand
  else if memType = 9 then .mmcNand
  else .gpmcNand

/-- What the loader finds: the pins, what `configure_mmc` returns and the card it selects, the
state of the card code, and the board. -/
structure Machine where
  controlStatus : UInt32
  configureMmc : UInt8 × Card
  disk : Disk
  buffers : Buffers
  board : Board

/-- `mmc_init`. -/
def mmcInit (m : Machine) : ℤ × Disk :=
  if m.configureMmc.1 = 0 then (0, m.disk)
  else (1, (fatRegisterDevice m.configureMmc.2 m.disk).2)

/-- The string `u-boot.bin`. -/
def UBOOT_BIN : List UInt8 := [117, 45, 98, 111, 111, 116, 46, 98, 105, 110]

/-- `mmc_boot`. -/
def mmcBoot (m : Machine) (buf turns : ℕ) : Option (ℤ × Memory) :=
  let (ret, disk) := mmcInit m
  if ret = 0 then some (0, m.board.ram)
  else
    let disk := (fatRegisterDevice m.configureMmc.2 disk).2
    (fileFatRead disk m.buffers UBOOT_BIN m.board.ram buf 0 turns).map fun read =>
      (if read.1 = -1 then 0 else read.1, read.2)

/-- How the loader ends: it hangs or calls what it has loaded. -/
inductive Outcome where
  | hangs
  | starts (ram : Memory)

/-- `start_armboot`, behind the test of the memory. -/
def startArmboot (m : Machine) (turns : ℕ) : Option Outcome :=
  let memType := getMemType m.controlStatus
  let loaded :=
    if memType = .mmcNand then mmcBoot m CFG_LOADADDR turns else some (0, m.board.ram)
  loaded.map fun read =>
    let buf : ℤ := CFG_LOADADDR + read.1
    if buf = CFG_LOADADDR then
      if memType = .gpmcNand then
        match bootFromNand { m.board with ram := read.2 } with
        | none => .hangs
        | some (buf, board) => if buf = CFG_LOADADDR then .hangs else .starts board.ram
      else .hangs
    else .starts read.2

/-! ## The partition -/

/-- The beginning of the first partition, or of the card if it has none. -/
def partStart (sector : List UInt8) : UInt32 :=
  if slice DOS_FS_TYPE_OFFSET 3 sector = [70, 65, 84] then 0
  else u32At sector (DOS_PART_TBL_OFFSET + 8)

/-- A sector that ends with the mark of a partition table. -/
def Marked (sector : List UInt8) : Prop :=
  slice DOS_PART_MAGIC_OFFSET 2 sector = [0x55, 0xaa]

section Card

variable {card : Card} {image : ℕ → List UInt8} {total : ℕ}

theorem fatRegisterDevice_eq (holds : card.Holds image total) (positive : 0 < total)
    (marked : Marked (image 0)) (disk : Disk) :
    fatRegisterDevice card disk =
      (0, { disk with curDev := some card, partOffset := partStart (image 0) }) := by
  have read := @Card.Holds.mmcBread_eq card image total holds 0 1 positive (by decide) disk.stack 0
  have first : sectors image (0 : UInt32).toNat (1 : UInt32).toNat = image 0 := List.append_nil _
  -- What the buffer holds is a window of the sector.
  have window {offset count : ℕ} (inside : offset + count ≤ SECTOR_SIZE) :
      loadAt (storeAt disk.stack 0 (image 0)) offset count = slice offset count (image 0) := by
    have held := loadAt_storeAt disk.stack 0 (image 0)
    rw [holds.full] at held
    rw [← held, slice_loadAt _ inside, held, Nat.zero_add]
  have mark := @window DOS_PART_MAGIC_OFFSET 2 (by decide)
  rw [marked] at mark
  have bytes : storeAt disk.stack 0 (image 0) DOS_PART_MAGIC_OFFSET = 0x55 ∧
      storeAt disk.stack 0 (image 0) (DOS_PART_MAGIC_OFFSET + 1) = 0xaa := by
    simpa [loadAt, List.range_succ] using mark
  have start : u32At (loadAt (storeAt disk.stack 0 (image 0)) (DOS_PART_TBL_OFFSET + 8) 4) 0 =
      u32At (image 0) (DOS_PART_TBL_OFFSET + 8) := by
    rw [window (by decide), u32At, u32At, slice_slice le_rfl, Nat.add_zero]
  rw [first] at read
  rw [fatRegisterDevice]
  dsimp only
  rw [read]
  dsimp only
  rw [if_neg (not_not.mpr rfl), if_neg (by simp [bytes]), window (by decide), start, partStart]
  split_ifs <;> rfl

/-- The first partition. -/
def partitionOf (image : ℕ → List UInt8) (n : ℕ) : List UInt8 :=
  image ((partStart (image 0)).toNat + n)

/-- The pins are set to the card, and there is a card with a partition table that can be read as
far as the first `capacity` sectors of the first partition. -/
structure Machine.Inserted (m : Machine) (image : ℕ → List UInt8) (total capacity : ℕ) :
    Prop where
  pins : getMemType m.controlStatus = .mmcNand
  configured : m.configureMmc.1 ≠ 0
  holds : m.configureMmc.2.Holds image total
  marked : Marked (image 0)
  inside : (partStart (image 0)).toNat + capacity ≤ total

/-- The card code before it reads the file. -/
def Machine.registered (m : Machine) (start : UInt32) : Disk :=
  { m.disk with curDev := some m.configureMmc.2, partOffset := start }

variable {m : Machine} {capacity : ℕ}

theorem Machine.Inserted.serves (inserted : m.Inserted image total capacity) :
    (m.registered (partStart (image 0))).Serves (partitionOf image) capacity :=
  inserted.holds.serves rfl inserted.inside

/-- With the pins set to the card, the loader starts what it has read, or it hangs. -/
theorem Machine.Inserted.startArmboot_eq (inserted : m.Inserted image total capacity)
    (positive : 0 < capacity) (turns : ℕ) :
    startArmboot m turns =
      (fileFatRead (m.registered (partStart (image 0))) m.buffers UBOOT_BIN m.board.ram
        CFG_LOADADDR 0 turns).map fun read =>
          if read.1 = -1 ∨ read.1 = 0 then .hangs else .starts read.2 := by
  have inside := inserted.inside
  have registered := fatRegisterDevice_eq inserted.holds (by omega) inserted.marked
  have loaded : mmcBoot m CFG_LOADADDR turns =
      (fileFatRead (m.registered (partStart (image 0))) m.buffers UBOOT_BIN m.board.ram
        CFG_LOADADDR 0 turns).map fun read => (if read.1 = -1 then 0 else read.1, read.2) := by
    rw [mmcBoot, mmcInit, if_neg inserted.configured]
    dsimp only
    rw [if_neg one_ne_zero, registered, registered]
    rfl
  have other : MemType.mmcNand ≠ .gpmcNand := by decide
  rw [startArmboot]
  dsimp only
  rw [inserted.pins, if_pos rfl, loaded, Option.map_map]
  congr 1
  funext read
  rw [Function.comp_apply]
  dsimp only
  by_cases failed : read.1 = -1
  · rw [if_pos failed, if_pos (by omega), if_neg other, if_pos (Or.inl failed)]
  · by_cases empty : read.1 = 0
    · rw [if_neg failed, if_pos (by omega), if_neg other, if_pos (Or.inr empty)]
    · rw [if_neg failed, if_neg (by omega), if_neg (by omega)]

theorem UBOOT_BIN_name : downcase (UBOOT_BIN.dropWhile isDirDelim) = UBOOT_BIN := by
  decide

variable {bs : BootSector} {kind : FatSize} {fs : FsData} {blocks : ℕ}

theorem Volume.capacity_pos (formatted : Volume (partitionOf image) capacity bs kind fs blocks) :
    0 < capacity := by
  have room := formatted.table
  change _ + _ + 6 ≤ _ at room
  omega

theorem BootSector.Formatted.capacity_pos
    (formatted : bs.Formatted kind (partitionOf image) capacity) : 0 < capacity := by
  have room := formatted.data
  have positive := formatted.clusters
  omega

/-- A sector from its first bytes and from some bytes further on. -/
def sectorWith (front : List UInt8) (offset : ℕ) (bytes : List UInt8) : List UInt8 :=
  (front ++ List.replicate (offset - front.length) 0 ++ bytes ++
    List.replicate SECTOR_SIZE 0).take SECTOR_SIZE

/-- A card with one small partition: a boot sector, a table in which cluster 2 leads to cluster 4,
and a root directory. -/
def smallCard (directory : List UInt8) : ℕ → List UInt8
  | 0 => sectorWith [] (DOS_PART_TBL_OFFSET + 8)
      ([1, 0, 0, 0] ++ List.replicate 52 0 ++ [0x55, 0xaa])
  | 1 => sectorWith [0, 0, 0, 0, 0, 0, 0, 0, 0, 0, 0, 0, 2, 1, 1, 0, 1, 16, 0, 0, 0, 0, 1] 54
      FatSize.fat12.sign
  | 2 => sectorWith [0xf8, 0xff, 0xff, 0x04, 0x00, 0x00, 0xff, 0x0f] 8 []
  | 3 => sectorWith directory 512 []
  | n + 4 => List.replicate SECTOR_SIZE (UInt8.ofNat n)

/-- The entry of a file of 600 bytes from cluster 2 on. -/
def smallFile : List UInt8 :=
  [85, 45, 66, 79, 79, 84, 32, 32, 66, 73, 78, 0x20, 0, 0, 0, 0, 0, 0, 0, 0, 0, 0, 0, 0, 0, 0,
    2, 0, 0x58, 0x02, 0, 0]

def smallMachine (directory : List UInt8) : Machine where
  controlStatus := 0x29
  configureMmc := (1, ⟨.sector, fun argument => (1, smallCard directory argument.toNat)⟩)
  disk := ⟨none, 0, fun _ => 0⟩
  buffers := ⟨fun _ => 0, fun _ => 0⟩
  board :=
    { gpmc :=
        { chip :=
            { cells := fun _ _ => 0xffff
              mode := .idle
              status := Flash.Chip.ready
              writable := false
              programFault := fun _ => none
              eraseFault := fun _ => none }
          eccOn := false
          passed := [] }
      ram := fun _ => 0 }

theorem smallMachine_holds (directory : List UInt8) :
    (smallMachine directory).configureMmc.2.Holds (smallCard directory) 9 where
  full n := by
    have filled (front : List UInt8) (offset : ℕ) (bytes : List UInt8) :
        (sectorWith front offset bytes).length = SECTOR_SIZE := by
      rw [sectorWith, List.length_take, List.length_append, List.length_replicate]
      omega
    match n with
    | 0 => exact filled _ _ _
    | 1 => exact filled _ _ _
    | 2 => exact filled _ _ _
    | 3 => exact filled _ _ _
    | n + 4 => exact List.length_replicate
  reach := show 9 < 2 ^ 32 by decide
  read n lt := by
    have same : (UInt32.ofNat n).toNat = n := UInt32.toNat_ofNat_of_lt' (lt.trans (by decide))
    exact congrArg (fun k => (1, smallCard directory k)) same

theorem smallCard_marked (directory : List UInt8) : Marked (smallCard directory 0) := by
  have mark : slice DOS_PART_MAGIC_OFFSET 2 (smallCard [] 0) = [0x55, 0xaa] := by decide +kernel
  exact mark

theorem smallMachine_inserted (directory : List UInt8) :
    (smallMachine directory).Inserted (smallCard directory) 9 8 where
  pins := show getMemType 0x29 = .mmcNand by decide
  configured := show (1 : UInt8) ≠ 0 by decide
  holds := smallMachine_holds directory
  marked := smallCard_marked directory
  inside := by
    have start : partStart (smallCard [] 0) = 1 := by decide +kernel
    change (partStart (smallCard [] 0)).toNat + 8 ≤ 9
    rw [start]
    decide

def smallBoot : BootSector := ⟨1, 1, 1, 16, 1, 0, 0⟩

def smallFs : FsData := mount smallBoot .fat12 fun _ => 0

theorem smallCard_formatted (directory : List UInt8) :
    Volume (partitionOf (smallCard directory)) 8 smallBoot .fat12 smallFs 1 where
  boot := by
    have start : partStart (smallCard [] 0) = 1 := by decide +kernel
    have sector : identify (smallCard [] 1) = some (smallBoot, .fat12) := by decide +kernel
    rw [partitionOf]
    change identify (smallCard directory ((partStart (smallCard [] 0)).toNat + 0)) = _
    rw [start]
    exact sector
  mounted := rfl
  clusters := by decide
  table := by decide
  root block mem := by
    obtain rfl := List.mem_singleton.mp mem
    exact ⟨by decide, fun other => absurd other (by decide)⟩

theorem smallBoot_formatted (directory : List UInt8) :
    smallBoot.Formatted .fat12 (partitionOf (smallCard directory)) 8 where
  boot := (smallCard_formatted directory).boot
  clusters := by decide
  copies := by decide
  whole := by decide
  low := by decide
  table := by decide
  data := by decide

theorem smallFile_file :
    smallBoot.File .fat12 (partitionOf (smallCard smallFile)) 8 (DirEntry.decode smallFile) 2
      [4] where
  chain :=
    { first := by decide
      usable := ⟨by decide, by decide, by decide⟩
      linked := ⟨by decide +kernel, ⟨by decide, by decide, by decide⟩, trivial⟩ }
  small := by decide
  needed := by decide
  enough := by decide

/-- If the card has no such file, the loader hangs, whatever is in the flash. -/
theorem startArmboot_card_missing (inserted : m.Inserted image total capacity)
    (formatted : Volume (partitionOf image) capacity bs kind fs blocks)
    (fatbuf : fs.fatbuf = m.buffers.fatbuf)
    (missing : scanEntries UBOOT_BIN false
      (fs.rootEntries (partitionOf image) bs.rootCluster blocks) = some none) {turns : ℕ}
    (time : blocks ≤ turns) :
    startArmboot m turns = some .hangs := by
  obtain ⟨next, -, -, read⟩ := fileFatRead_search inserted.serves formatted fatbuf UBOOT_BIN_name
    (by decide) (by decide) missing m.board.ram CFG_LOADADDR 0 time
  rw [inserted.startArmboot_eq formatted.capacity_pos, read]
  rfl

theorem smallMachine_hangs : startArmboot (smallMachine []) 1 = some .hangs :=
  @startArmboot_card_missing (smallCard []) 9 (smallMachine []) 8 smallBoot .fat12 smallFs 1
    (smallMachine_inserted []) (smallCard_formatted []) rfl (by decide +kernel) 1 le_rfl

/-- A file of the small card that is said to have six hundred bytes but whose only cluster is
marked as free. -/
def shortFile : List UInt8 :=
  [85, 45, 66, 79, 79, 84, 32, 32, 66, 73, 78, 0x20, 0, 0, 0, 0, 0, 0, 0, 0, 0, 0, 0, 0, 0, 0,
    3, 0, 0x58, 0x02, 0, 0]

end Card

end Rhino.Fat
