import Rhino.Flash.Chip

/-!
# Writing the flash

The second boot loader writes the flash through the generic driver in
`drivers/mtd/nand/nand_base.c` and its part for the board in `omap_gpmc.c`.  `IO_ADDR_W`
points to the command, the address or the data register of the GPMC and is moved only
by a control word with `NAND_CTRL_CHANGE`; whatever is written goes where it points.
-/

namespace Rhino.Flash.UBoot

open Rhino.Bytes Rhino.Nand

def eio : ℤ := 5
def einval : ℤ := 22

/-- The geometry that `nand_get_flash_type` finds. -/
def mtdSize : ℕ := 0x10000000
def erasesize : ℕ := 0x20000
def writesize : ℕ := 2048
def oobsize : ℕ := 64
def pageShift : ℕ := 11
def pagemask : ℕ := 0x1FFFF
def subpagesize : ℕ := 512
def bbtEraseShift : ℕ := 17

def NAND_CMD_READOOB : ℕ := 0x50
def NAND_NCE : ℕ := 0x01
def NAND_CLE : ℕ := 0x02
def NAND_ALE : ℕ := 0x04
def NAND_CTRL_CHANGE : ℕ := 0x80
def NAND_CTRL_CLE : ℕ := NAND_NCE ||| NAND_CLE
def NAND_CTRL_ALE : ℕ := NAND_NCE ||| NAND_ALE

/-- The registers that `IO_ADDR_W` points to. -/
inductive Port where
  | nandCmd
  | nandAdr
  | nandDat

/-- The bad block table: two bits for each block. -/
structure Bbt where
  bytes : List UInt8
  size : bytes.length = mtdSize >>> (bbtEraseShift + 2)

structure Session where
  gpmc : Gpmc
  ioAddrW : Port
  /-- The bad block table, once the flash has been scanned. -/
  bbt : Option Bbt
  /-- Where the bytes of the code go in the spare area. -/
  eccpos : List ℕ
  oobPoi : List UInt8

namespace Session

def writew (s : Session) (word : UInt16) : Session :=
  match s.ioAddrW with
  | .nandCmd => { s with gpmc := s.gpmc.command word.toUInt8 }
  | .nandAdr => { s with gpmc := s.gpmc.address word.toUInt8 }
  | .nandDat => { s with gpmc := s.gpmc.write word }

def writeb (s : Session) (byte : UInt8) : Session :=
  s.writew byte.toUInt16

def readw (s : Session) : UInt16 × Session :=
  (s.gpmc.read.1, { s with gpmc := s.gpmc.read.2 })

end Session

/-- `omap_nand_hwcontrol`; the command is `none` for `NAND_CMD_NONE`. -/
def omapNandHwcontrol (s : Session) (control : Option ℕ × ℕ) : Session :=
  let s :=
    if control.2 = NAND_CTRL_CHANGE ||| NAND_CTRL_CLE then { s with ioAddrW := .nandCmd }
    else if control.2 = NAND_CTRL_CHANGE ||| NAND_CTRL_ALE then { s with ioAddrW := .nandAdr }
    else if control.2 = NAND_CTRL_CHANGE ||| NAND_NCE then { s with ioAddrW := .nandDat }
    else s
  match control.1 with
  | some cmd => s.writeb (UInt8.ofNat cmd)
  | none => s

/-- The control words of a column, halved for the bus of sixteen bits. -/
def columnControls (column : Option ℕ) : List (Option ℕ × ℕ) :=
  match column with
  | some column =>
      [(some (column >>> 1), NAND_CTRL_CHANGE ||| NAND_NCE ||| NAND_ALE),
        (some ((column >>> 1) >>> 8), NAND_NCE ||| NAND_ALE)]
  | none => []

/-- The control words of a page; the first one moves `IO_ADDR_W` if no column did. -/
def pageControls (column pageAddr : Option ℕ) : List (Option ℕ × ℕ) :=
  match pageAddr with
  | some page =>
      let ctrl := if column.isSome then NAND_NCE ||| NAND_ALE
        else NAND_CTRL_CHANGE ||| NAND_NCE ||| NAND_ALE
      [(some page, ctrl), (some (page >>> 8), NAND_NCE ||| NAND_ALE),
        (some (page >>> 16), NAND_NCE ||| NAND_ALE)]
  | none => []

/-- A command with its address, after which `IO_ADDR_W` points to the data again. -/
def commandControls (command : ℕ) (column pageAddr : Option ℕ) : List (Option ℕ × ℕ) :=
  (some (command &&& 0xff), NAND_NCE ||| NAND_CLE ||| NAND_CTRL_CHANGE) ::
    (columnControls column ++ pageControls column pageAddr ++
      [(none, NAND_NCE ||| NAND_CTRL_CHANGE)])

/-- The control words of `nand_command_lp`; `none` stands for a column or page of `-1`. -/
def controls (command : ℕ) (column pageAddr : Option ℕ) : List (Option ℕ × ℕ) :=
  let oob := command = NAND_CMD_READOOB
  let column := if oob then column.map (· + writesize) else column
  let command := if oob then NAND_CMD_READ0.toNat else command
  commandControls command column pageAddr ++
    if command = NAND_CMD_READ0.toNat then
      commandControls NAND_CMD_READSTART.toNat none none
    else []

/-- `nand_command_lp`. -/
def nandCommandLp (s : Session) (command : ℕ) (column pageAddr : Option ℕ) : Session :=
  (controls command column pageAddr).foldl omapNandHwcontrol s

/-- `nand_write_buf16`. -/
def nandWriteBuf16 (s : Session) (buf : List UInt8) : Session :=
  (wordsOf buf).foldl Session.writew s

/-- `nand_read_buf16`. -/
def nandReadBuf16 (s : Session) (len : ℕ) : List UInt8 × Session :=
  let read := s.gpmc.readWords (len >>> 1)
  (bytesOf read.1, { s with gpmc := read.2 })

/-- `nand_read_byte16`. -/
def nandReadByte16 (s : Session) : UInt8 × Session :=
  (s.readw.1.toUInt8, s.readw.2)

/-- `omap_enable_hwecc`. -/
def omapEnableHwecc (s : Session) : Session :=
  { s with gpmc := s.gpmc.enableEcc }

/-- `omap_calculate_ecc`. -/
def omapCalculateEcc (s : Session) : EccBytes × Session :=
  (packEcc (s.gpmc.rawReadl GPMC_ECC1_RESULT), { s with gpmc := s.gpmc.disableEcc })

/-- One turn of the first loop of `nand_write_page_hwecc`. -/
def writeSector (buf : List UInt8) (state : List UInt8 × Session) (i : ℕ) :
    List UInt8 × Session :=
  let s := omapEnableHwecc state.2
  let s := nandWriteBuf16 s (slice (512 * i) 512 buf)
  let code := omapCalculateEcc s
  (state.1 ++ code.1.toList, code.2)

/-- The second loop: the bytes of the code are put in their places. -/
def placeCode (eccpos : List ℕ) (eccCalc oobPoi : List UInt8) : List UInt8 :=
  (eccpos.zip eccCalc).foldl (fun oob place => oob.set place.1 place.2) oobPoi

/-- `nand_write_page_hwecc`. -/
def nandWritePageHwecc (s : Session) (buf : List UInt8) : Session :=
  let sectors := (List.range ECC_STEPS).foldl (writeSector buf) ([], s)
  let s := sectors.2
  let s := { s with oobPoi := placeCode s.eccpos sectors.1 s.oobPoi }
  nandWriteBuf16 s s.oobPoi

/-- `nand_wait`: the chip is ready at once or not before the time is over. -/
def nandWait (s : Session) : UInt8 × Session :=
  let s := nandCommandLp s NAND_CMD_STATUS.toNat none none
  let polled := nandReadByte16 s
  if polled.1 &&& 0x40 ≠ 0 then nandReadByte16 polled.2 else (0x01, polled.2)

/-- `nand_write_page`. -/
def nandWritePage (s : Session) (buf : List UInt8) (page : ℕ) : ℤ × Session :=
  let s := nandCommandLp s NAND_CMD_SEQIN.toNat (some 0) (some page)
  let s := nandWritePageHwecc s buf
  let s := nandCommandLp s NAND_CMD_PAGEPROG.toNat none none
  let status := nandWait s
  (if status.1 &&& 0x01 ≠ 0 then -eio else 0, status.2)

/-- `nand_check_wp`. -/
def nandCheckWp (s : Session) : Bool × Session :=
  let s := nandCommandLp s NAND_CMD_STATUS.toNat none none
  let status := nandReadByte16 s
  (status.1 &&& 0x80 = 0, status.2)

/-- How many bytes the next page takes. -/
def pageBytes (column : Fin 2048) (writelen : ℕ) : ℕ :=
  if column ≠ 0 ∨ writelen < writesize - 1 then min (writesize - column) writelen else writesize

/-- The data of the next page, filled up if it is a part of one. -/
def pageBuf (column : Fin 2048) (buf : List UInt8) : List UInt8 :=
  if column ≠ 0 ∨ buf.length < writesize - 1 then
    let bytes := min (writesize - column) buf.length
    List.replicate column 0xff ++ buf.take bytes ++
      List.replicate (writesize - column - bytes) 0xff
  else buf.take writesize

theorem pageBytes_pos (column : Fin 2048) {writelen : ℕ} (some : 0 < writelen) :
    0 < pageBytes column writelen := by
  have inside := column.isLt
  unfold pageBytes writesize
  split
  · omega
  · omega

/-- The loop of `nand_do_write_ops`: the value it ends with and the bytes that are left. -/
def writeOpsLoop (s : Session) (realpage : ℕ) (column : Fin 2048) (buf : List UInt8) :
    ℤ × ℕ × Session :=
  let written := nandWritePage s (pageBuf column buf) (realpage &&& pagemask)
  if written.1 ≠ 0 then (written.1, buf.length, written.2)
  else if buf.length ≤ pageBytes column buf.length then (0, 0, written.2)
  else writeOpsLoop written.2 (realpage + 1) 0 (buf.drop (pageBytes column buf.length))
termination_by buf.length
decreasing_by
  rename_i more
  have some : 0 < buf.length := by omega
  have pos := pageBytes_pos column some
  rw [List.length_drop]
  omega

/-- `nand_do_write_ops`, without data for the spare area. -/
def nandDoWriteOps (s : Session) (ofs : ℕ) (buf : List UInt8) : ℤ × ℕ × Session :=
  if buf.length = 0 then (0, 0, s)
  else if ofs % subpagesize ≠ 0 ∨ buf.length % subpagesize ≠ 0 then (-einval, 0, s)
  else
    let wp := nandCheckWp s
    if wp.1 then (-eio, 0, wp.2)
    else
      let s := { wp.2 with oobPoi := List.replicate oobsize 0xff }
      let written := writeOpsLoop s (ofs >>> pageShift) (Fin.ofNat 2048 ofs) buf
      (written.1, buf.length - written.2.1, written.2.2)

/-- `nand_write`: the result and the length that was written. -/
def nandWrite (s : Session) (ofs : ℕ) (buf : List UInt8) : ℤ × ℕ × Session :=
  if ofs + buf.length > mtdSize then (-einval, buf.length, s)
  else if buf.length = 0 then (0, 0, s)
  else nandDoWriteOps s ofs buf

/-! ## Commands on the bus -/

section Commands

variable (s : Session)

/-- The session once the registers have been written. -/
def Session.drive (s : Session) (gpmc : Gpmc) (ioAddrW : Port) : Session :=
  { s with gpmc := gpmc, ioAddrW := ioAddrW }

@[simp]
theorem Session.drive_gpmc (gpmc : Gpmc) (port : Port) : (s.drive gpmc port).gpmc = gpmc :=
  rfl

@[simp]
theorem Session.drive_drive (first second : Gpmc) (port port' : Port) :
    (s.drive first port).drive second port' = s.drive second port' :=
  rfl

theorem hwcontrol_cle (cmd : ℕ) :
    omapNandHwcontrol s (some cmd, NAND_NCE ||| NAND_CLE ||| NAND_CTRL_CHANGE) =
      s.drive (s.gpmc.command (UInt8.ofNat cmd)) .nandCmd := by
  simp [omapNandHwcontrol, NAND_NCE, NAND_CLE, NAND_CTRL_CHANGE, NAND_CTRL_CLE, Session.writeb,
    Session.writew, Session.drive]

theorem hwcontrol_ale (cycle : ℕ) :
    omapNandHwcontrol s (some cycle, NAND_CTRL_CHANGE ||| NAND_NCE ||| NAND_ALE) =
      s.drive (s.gpmc.address (UInt8.ofNat cycle)) .nandAdr := by
  simp [omapNandHwcontrol, NAND_NCE, NAND_CLE, NAND_ALE, NAND_CTRL_CHANGE, NAND_CTRL_CLE,
    NAND_CTRL_ALE, Session.writeb, Session.writew, Session.drive]

theorem hwcontrol_more (gpmc : Gpmc) (cycle : ℕ) :
    omapNandHwcontrol (s.drive gpmc .nandAdr) (some cycle, NAND_NCE ||| NAND_ALE) =
      s.drive (gpmc.address (UInt8.ofNat cycle)) .nandAdr := by
  simp [omapNandHwcontrol, NAND_NCE, NAND_CLE, NAND_ALE, NAND_CTRL_CHANGE, NAND_CTRL_CLE,
    NAND_CTRL_ALE, Session.writeb, Session.writew, Session.drive]

theorem hwcontrol_none :
    omapNandHwcontrol s (none, NAND_NCE ||| NAND_CTRL_CHANGE) = s.drive s.gpmc .nandDat := by
  simp [omapNandHwcontrol, NAND_NCE, NAND_CLE, NAND_ALE, NAND_CTRL_CHANGE, NAND_CTRL_CLE,
    NAND_CTRL_ALE, Session.drive]

/-- The address cycles of a command. -/
def addressCycles (column pageAddr : Option ℕ) : List UInt8 :=
  column.elim [] (fun column => leBytes 2 (column >>> 1)) ++ pageAddr.elim [] (leBytes 3)

theorem leBytes_two (value : ℕ) :
    leBytes 2 value = [UInt8.ofNat value, UInt8.ofNat (value >>> 8)] := by
  simp [leBytes, Nat.shiftRight_eq_div_pow]

theorem leBytes_three (value : ℕ) :
    leBytes 3 value =
      [UInt8.ofNat value, UInt8.ofNat (value >>> 8), UInt8.ofNat (value >>> 16)] := by
  simp [leBytes, Nat.shiftRight_eq_div_pow, Nat.div_div_eq_div_mul]

/-- The cycles go out in order, whether or not there is a column. -/
theorem foldl_addressControls (gpmc : Gpmc) (column pageAddr : Option ℕ) :
    omapNandHwcontrol ((columnControls column ++ pageControls column pageAddr).foldl
        omapNandHwcontrol (s.drive gpmc .nandCmd)) (none, NAND_NCE ||| NAND_CTRL_CHANGE) =
      s.drive ((addressCycles column pageAddr).foldl Gpmc.address gpmc) .nandDat := by
  cases column with
  | none =>
      cases pageAddr with
      | none => exact hwcontrol_none (s.drive gpmc .nandCmd)
      | some page =>
          simp [columnControls, pageControls, addressCycles, leBytes_three, hwcontrol_ale,
            hwcontrol_more, hwcontrol_none]
  | some column =>
      cases pageAddr with
      | none =>
          simp [columnControls, pageControls, addressCycles, leBytes_two, hwcontrol_ale,
            hwcontrol_more, hwcontrol_none]
      | some page =>
          simp [columnControls, pageControls, addressCycles, leBytes_two, leBytes_three,
            hwcontrol_ale, hwcontrol_more, hwcontrol_none]

theorem foldl_commandControls {command : ℕ} (byte : command < 256) (column pageAddr : Option ℕ) :
    (commandControls command column pageAddr).foldl omapNandHwcontrol s =
      s.drive ((addressCycles column pageAddr).foldl Gpmc.address
        (s.gpmc.command (UInt8.ofNat command))) .nandDat := by
  have code : command &&& 0xff = command :=
    (Nat.and_two_pow_sub_one_eq_mod command 8).trans (Nat.mod_eq_of_lt byte)
  rw [commandControls, code, List.foldl_cons, hwcontrol_cle, List.foldl_append, List.foldl_cons,
    List.foldl_nil, foldl_addressControls]

theorem nandCommandLp_eq {command : ℕ} (byte : command < 256)
    (notOob : command ≠ NAND_CMD_READOOB) (notRead : command ≠ NAND_CMD_READ0.toNat)
    (column pageAddr : Option ℕ) :
    nandCommandLp s command column pageAddr =
      s.drive ((addressCycles column pageAddr).foldl Gpmc.address
        (s.gpmc.command (UInt8.ofNat command))) .nandDat := by
  simp only [nandCommandLp, controls, if_neg notOob, if_neg notRead, List.append_nil]
  exact foldl_commandControls s byte column pageAddr

/-- The spare area of a page is opened. -/
theorem nandCommandLp_readoob {page : ℕ} (inside : page < 2 ^ 24) :
    nandCommandLp s NAND_CMD_READOOB (some 0) (some page) =
      s.drive { s.gpmc with chip := s.gpmc.chip.enter (.output page 1024) } .nandDat := by
  have opened := s.gpmc.openPage (leBytes 2 1024) (leBytes 3 page) rfl (leBytes_length 3 page)
  rw [leValue_page inside] at opened
  simp only [nandCommandLp, controls, if_true, List.foldl_append]
  rw [foldl_commandControls s (by decide), foldl_commandControls _ (by decide)]
  exact congrArg (fun gpmc => s.drive gpmc .nandDat) opened

/-- A page is opened for programming. -/
theorem nandCommandLp_seqin {page : ℕ} (inside : page < 2 ^ 24) :
    nandCommandLp s NAND_CMD_SEQIN.toNat (some 0) (some page) =
      s.drive { s.gpmc with chip := s.gpmc.chip.enter (.input page 0 fun _ => 0xFFFF) }
        .nandDat := by
  have opened := s.gpmc.chip.openInput (leBytes 2 0) (leBytes 3 page) rfl (leBytes_length 3 page)
  rw [leValue_page inside] at opened
  rw [nandCommandLp_eq s (by decide) (by decide) (by decide), Gpmc.foldl_address]
  exact congrArg (fun chip => s.drive { s.gpmc with chip := chip } .nandDat) opened

/-- The register of the page is programmed. -/
theorem nandCommandLp_pageprog {page column : ℕ} {register : ℕ → UInt16}
    (mode : s.gpmc.chip.mode = .input page column register) :
    nandCommandLp s NAND_CMD_PAGEPROG.toNat none none =
      s.drive { s.gpmc with chip := s.gpmc.chip.programPage page register } .nandDat := by
  have programmed : s.gpmc.chip.command NAND_CMD_PAGEPROG =
      s.gpmc.chip.programPage page register := by
    rw [Chip.command, mode]
    exact if_pos rfl
  rw [nandCommandLp_eq s (by decide) (by decide) (by decide)]
  exact congrArg (fun chip => s.drive { s.gpmc with chip := chip } .nandDat) programmed

theorem nandCommandLp_status :
    nandCommandLp s NAND_CMD_STATUS.toNat none none =
      s.drive { s.gpmc with chip := s.gpmc.chip.enter .status } .nandDat := by
  have asked : s.gpmc.chip.command NAND_CMD_STATUS = s.gpmc.chip.enter .status :=
    s.gpmc.chip.command_eq_start (by decide) (by decide) (by decide)
  rw [nandCommandLp_eq s (by decide) (by decide) (by decide)]
  exact congrArg (fun chip => s.drive { s.gpmc with chip := chip } .nandDat) asked

/-- The two commands of `single_erase_cmd`. -/
theorem nandCommandLp_erase {page : ℕ} (inside : page < 2 ^ 24) :
    nandCommandLp (nandCommandLp s NAND_CMD_ERASE1.toNat none (some page))
        NAND_CMD_ERASE2.toNat none none =
      s.drive { s.gpmc with chip := s.gpmc.chip.eraseBlock (page / BLOCK_PAGES) } .nandDat := by
  have erased := s.gpmc.chip.eraseNamed (leBytes_length 3 page)
  rw [leValue_page inside] at erased
  rw [nandCommandLp_eq _ (by decide) (by decide) (by decide),
    nandCommandLp_eq s (by decide) (by decide) (by decide), Gpmc.foldl_address]
  exact congrArg (fun chip => s.drive { s.gpmc with chip := chip } .nandDat) erased

end Commands

end Rhino.Flash.UBoot
