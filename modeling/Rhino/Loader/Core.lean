import Rhino.Hwr.Registry
import Rhino.Transition.Fallible

/-!
# Loading and unloading hardware processes

`borph_load_hw` of `kernel/bkexecd.c` and `borph_exit_fpga` of
`kernel/borph.c`.  The loader runs over the chips of a BOF file: for each it
reads the region header, reserves the region, loads the string table and the
register entries and configures the FPGA.  Almost every step has an exit to
`out_delregion`, where the regions that are already linked into the new
`borph_info` are torn down again.

What the rest of the kernel answers is a parameter: the outcome of every
`kernel_read` and `kmalloc`, the contents of memory that is read before it is
written, and what happens during a configuration.  A loop turn makes each of
its calls once, so the answers are indexed by the turn.
-/

namespace Rhino.Loader

open Rhino.Bof Rhino.Bytes Rhino.Hwr Rhino.Kernel Rhino.Transition

variable {δ ε : Type}

/-! ## Hardware processes -/

/-- `struct borph_hw_region`. -/
structure HwRegion where
  addr : HwrAddr
  strtab : List UInt8
  deriving DecidableEq, Repr

/-- `struct borph_ioreg`.  Its name pointer is the offset `name` into the
string table of its region. -/
structure Ioreg where
  strtab : List UInt8
  name : ℕ
  mode : UInt32
  loc : UInt32
  len : UInt32
  hwraddr : HwrAddr
  deriving DecidableEq, Repr

/-- `struct borph_info`. -/
structure BorphInfo where
  hwRegion : List HwRegion
  ioreg : List Ioreg
  ioregMode : ℤ
  status : UInt32
  deriving DecidableEq, Repr

/-- The hardware, the `borph_info` pointer of every task, the records that they
point to, the next address that `kmalloc` hands out for one, and the records
that have been torn down and freed, in order.  Freed memory keeps what was last
written to it. -/
structure KernelState (δ : Type) where
  hw : HwState δ
  borphInfo : Task → Option ℕ
  infos : ℕ → BorphInfo
  nextInfo : ℕ
  freed : List ℕ

/-- Write through a `borph_info` pointer. -/
def KernelState.modifyInfo (kernel : KernelState δ) (bi : ℕ) (change : BorphInfo → BorphInfo) :
    KernelState δ :=
  { kernel with infos := Function.update kernel.infos bi (change (kernel.infos bi)) }

/-- The part of `struct linux_binprm` that is used: the header at the front of
`buf`, and the file. -/
structure LinuxBinprm where
  buf : BofHdr
  file : File

/-- `struct execq_item`. -/
structure ExecqItem where
  bprm : LinuxBinprm
  task : Task

/-! ## Unloading -/

section Exit

variable (drivers : UInt16 → HwrDriver δ ε)

/-- The call of `unconfigure`, if the driver has one. -/
def unconfigureRegion (addr : HwrAddr) (ops : Option (HwrOperations δ ε)) (hw : HwState δ) :
    HwState δ :=
  match ops.bind (·.unconfigure) with
  | none => hw
  | some run =>
      { hw with
        board := run addr hw.board
        calls := hw.calls ++ [.unconfigure addr] }

/-- One turn of the loop over `hw_region` in `borph_exit_fpga`. -/
def exitRegion (hw : HwState δ) (region : HwRegion) : HwState δ :=
  let hw := hwrDeactivate drivers region.addr hw
  let (ops, hw) := getHwrops drivers region.addr hw
  let hw := unconfigureRegion region.addr ops hw
  let hw := putHwrops region.addr hw
  releaseHwr drivers region.addr hw

/-- `borph_exit_fpga`. -/
def borphExitFpga (task : Task) (kernel : KernelState δ) : KernelState δ :=
  match kernel.borphInfo task with
  | none => kernel
  | some bi =>
      { kernel.modifyInfo bi fun info => { info with hwRegion := [], ioreg := [] } with
        hw := (kernel.infos bi).hwRegion.foldl (exitRegion drivers) kernel.hw
        freed := kernel.freed ++ [bi]
        borphInfo := Function.update kernel.borphInfo task none }

end Exit

/-! ## Loading -/

/-- What the kernel answers during one turn of the region loop. -/
structure RegionEnv (ε : Type) where
  hdrIo : ReadIo
  strtabMem : Option (ℕ → UInt8)
  strtabIo : ReadIo
  regionMem : Bool
  ioregMem : ℕ → Bool
  ioregIo : ℕ → ReadIo
  ioregStack : ℕ → ℕ → UInt8
  configure : ε

/-- What the kernel answers during a load. -/
structure LoadEnv (ε : Type) where
  infoMem : Bool
  stack : ℕ → UInt8
  region : ℕ → RegionEnv ε

/-- The variables of `borph_load_hw` that live across the turns of its loop. -/
structure LoadState (δ : Type) where
  kernel : KernelState δ
  curFoff : UInt32
  hwrhdr : HwrHdr
  retval : ℤ

/-- The places that jump to `out_delregion`. -/
inductive LoadExit where
  | badOffset
  | readHwrhdr
  | busy
  | emptyStrtab
  | nomemStrtab
  | readStrtab
  | readIoreg
  | noHwrops
  | configure
  deriving DecidableEq, Repr

/-- Why the region loop is left: for `out_delregion`, at the use of a pointer
that `kmalloc` did not return, or never, in a configuration. -/
inductive Stop where
  | delregion (exit : LoadExit)
  | oops
  | stuck
  deriving DecidableEq, Repr

/-- The end of the region loop before its time. -/
structure Halt (δ : Type) where
  stop : Stop
  state : LoadState δ

section Load

variable (drivers : UInt16 → HwrDriver δ ε)

/-- The loop of `bpr_nextfree` over the addresses that are left. -/
def tryAddrs (addr : HwrAddr) (hw : HwState δ) :
    List UInt16 → Option HwrAddr × HwrAddr × HwState δ
  | [] => (none, addr, hw)
  | i :: rest =>
      let addr := { addr with addr := i }
      match reserveHwr drivers addr hw with
      | (some hwr, hw) => (some hwr, addr, hw)
      | (none, hw) => tryAddrs addr hw rest

/-- `bpr_nextfree`: the record that was reserved, the address as it was left,
and the new state. -/
def bprNextfree (addr : HwrAddr) (hw : HwState δ) : Option HwrAddr × HwrAddr × HwState δ :=
  if addr.cls ≠ HAC_RHINO then (none, addr, hw)
  else tryAddrs drivers addr hw [0, 1, 2, 3]

/-- Read the region header at `cur_foff` over the previous one. -/
def readHwrhdr (file : File) (env : RegionEnv ε) (s : LoadState δ) :
    Except (Halt δ) (LoadState δ) :=
  if s.curFoff = 0 then
    .error ⟨.delregion .badOffset, s⟩
  else
    let (retval, bytes) := kernelRead file env.hdrIo s.curFoff.toNat HwrHdr.size
    let s := { s with
      retval := retval
      hwrhdr := HwrHdr.decode (overlay bytes s.hwrhdr.encode) }
    if retval < 0 then .error ⟨.delregion .readHwrhdr, s⟩
    else .ok { s with curFoff := s.curFoff + UInt32.ofNat HwrHdr.size }

/-- Reserve the region that the header asks for, or the next free one, and
record the task in it. -/
def reserveRegion (task : Task) (s : LoadState δ) : Except (Halt δ) (LoadState δ) :=
  let (hwr, addr, hw) :=
    if s.hwrhdr.flag &&& HFG_PLACED ≠ 0 then
      let (hwr, hw) := reserveHwr drivers s.hwrhdr.addr s.kernel.hw
      (hwr, s.hwrhdr.addr, hw)
    else
      bprNextfree drivers s.hwrhdr.addr s.kernel.hw
  let s := { s with
    retval := -ebusy
    hwrhdr := { s.hwrhdr with addr := addr }
    kernel := { s.kernel with hw := hw } }
  match hwr with
  | none => .error ⟨.delregion .busy, s⟩
  | some hwr =>
      let record := { hw.board.phyhwrs hwr with task := some task }
      .ok { s with kernel := { s.kernel with hw := hw.setHwr hwr record } }

/-- Length of the string table, as the loader computes it. -/
def strtabLen (hdr : HwrHdr) : UInt32 :=
  hdr.plOff - hdr.strtabOff

/-- The `kernel_read` of the string table. -/
def strtabRead (file : File) (env : RegionEnv ε) (s : LoadState δ) : ℤ × List UInt8 :=
  let strtabFoff := s.curFoff + s.hwrhdr.nrSymbol * UInt32.ofNat BofIoreg.size
  kernelRead file env.strtabIo strtabFoff.toNat (strtabLen s.hwrhdr).toNat

/-- Allocate and read the string table. -/
def loadStrtab (file : File) (env : RegionEnv ε) (s : LoadState δ) :
    Except (Halt δ) (LoadState δ × List UInt8) :=
  if strtabLen s.hwrhdr = 0 ∧ s.hwrhdr.nrSymbol ≠ 0 then
    .error ⟨.delregion .emptyStrtab, { s with retval := -enoexec }⟩
  else
    match env.strtabMem with
    | none => .error ⟨.delregion .nomemStrtab, { s with retval := -enoexec }⟩
    | some junk =>
        let (retval, bytes) := strtabRead file env s
        if retval < 0 then .error ⟨.delregion .readStrtab, { s with retval := retval }⟩
        else
          .ok ({ s with retval := retval },
            overlay bytes (uninit junk (strtabLen s.hwrhdr).toNat))

/-- Allocate the region and link it.  A failed `kmalloc` is noticed but not
acted upon. -/
def linkRegion (env : RegionEnv ε) (bi : ℕ) (strtab : List UInt8) (s : LoadState δ) :
    Except (Halt δ) (LoadState δ) :=
  if env.regionMem then
    .ok { s with kernel := s.kernel.modifyInfo bi fun info =>
      { info with hwRegion := ⟨s.hwrhdr.addr, strtab⟩ :: info.hwRegion } }
  else
    .error ⟨.oops, s⟩

/-- The register that an entry of the file describes. -/
def ioregOf (strtab : List UInt8) (addr : HwrAddr) (entry : BofIoreg) : Ioreg where
  strtab := strtab
  name := entry.name.toNat
  mode := entry.mode.toUInt32
  loc := entry.loc
  len := entry.len
  hwraddr := addr

/-- One turn of the loop over the register entries.  A failed `kmalloc` shows
only once the entry has been read. -/
def loadIoreg (file : File) (env : RegionEnv ε) (bi : ℕ) (strtab : List UInt8) (i : ℕ)
    (s : LoadState δ) : Except (Halt δ) (LoadState δ) :=
  let (retval, bytes) := kernelRead file (env.ioregIo i) s.curFoff.toNat BofIoreg.size
  let s := { s with retval := retval }
  if retval < 0 then
    .error ⟨.delregion .readIoreg, s⟩
  else if env.ioregMem i then
    let entry := BofIoreg.decode (overlay bytes (uninit (env.ioregStack i) BofIoreg.size))
    let reg := ioregOf strtab s.hwrhdr.addr entry
    .ok { s with
      curFoff := s.curFoff + UInt32.ofNat BofIoreg.size
      kernel := s.kernel.modifyInfo bi fun info => { info with ioreg := reg :: info.ioreg } }
  else
    .error ⟨.oops, s⟩

/-- The loop over the register entries, which counts `nr_symbol` down past
zero. -/
def loadIoregs (file : File) (env : RegionEnv ε) (bi : ℕ) (strtab : List UInt8)
    (s : LoadState δ) : Except (Halt δ) (LoadState δ) := do
  let s ← repeatTurns (loadIoreg file env bi strtab) s s.hwrhdr.nrSymbol.toNat
  .ok { s with hwrhdr := { s.hwrhdr with nrSymbol := 0xffffffff } }

/-- Configure the region and activate it. -/
def configureRegion (file : File) (env : RegionEnv ε) (s : LoadState δ) :
    Except (Halt δ) (LoadState δ) :=
  let addr := s.hwrhdr.addr
  let (ops, hw) := getHwrops drivers addr s.kernel.hw
  match ops.bind (·.configure) with
  | none =>
      .error ⟨.delregion .noHwrops,
        { s with retval := -enoexec, kernel := { s.kernel with hw := hw } }⟩
  | some run =>
      let (result, board) := run addr file s.hwrhdr.plOff s.hwrhdr.plLen env.configure hw.board
      let hw := { hw with board := board, calls := hw.calls ++ [.configure addr] }
      match result with
      | none => .error ⟨.stuck, { s with kernel := { s.kernel with hw := hw } }⟩
      | some retval =>
          let hw := putHwrops addr hw
          if retval < 0 then
            .error ⟨.delregion .configure,
              { s with retval := retval, kernel := { s.kernel with hw := hw } }⟩
          else
            .ok { s with
              retval := retval
              kernel := { s.kernel with hw := hwrActivate drivers addr hw }
              curFoff := s.hwrhdr.nextHwr }

/-- The first part of a turn of the region loop, up to the reservation. -/
def prepareRegion (item : ExecqItem) (env : RegionEnv ε) (s : LoadState δ) :
    Except (Halt δ) (LoadState δ) := do
  let s ← readHwrhdr item.bprm.file env s
  reserveRegion drivers item.task s

/-- The second part, which enters the region and its registers. -/
def declareRegion (item : ExecqItem) (env : RegionEnv ε) (bi : ℕ) (s : LoadState δ) :
    Except (Halt δ) (LoadState δ) := do
  let (s, strtab) ← loadStrtab item.bprm.file env s
  let s ← linkRegion env bi strtab s
  loadIoregs item.bprm.file env bi strtab s

/-- One turn of the region loop. -/
def loadRegion (item : ExecqItem) (env : LoadEnv ε) (bi : ℕ) (turn : ℕ)
    (s : LoadState δ) : Except (Halt δ) (LoadState δ) := do
  let s ← prepareRegion drivers item (env.region turn) s
  let s ← declareRegion item (env.region turn) bi s
  configureRegion drivers item.bprm.file (env.region turn) s

/-- A fresh `borph_info`, in raw mode. -/
def BorphInfo.fresh : BorphInfo where
  hwRegion := []
  ioreg := []
  ioregMode := 1
  status := 0

/-- The state in which the region loop is entered. -/
def loadStart (item : ExecqItem) (env : LoadEnv ε) (kernel : KernelState δ) : LoadState δ where
  kernel := { kernel with
    borphInfo := Function.update kernel.borphInfo item.task (some kernel.nextInfo)
    infos := Function.update kernel.infos kernel.nextInfo BorphInfo.fresh
    nextInfo := kernel.nextInfo + 1 }
  curFoff := item.bprm.buf.bHwoff
  hwrhdr := HwrHdr.decode (uninit env.stack HwrHdr.size)
  retval := -eio

/-- The region loop, after `count` turns. -/
def loadRegions (item : ExecqItem) (env : LoadEnv ε) (kernel : KernelState δ) (count : ℕ) :
    Except (Halt δ) (LoadState δ) :=
  repeatTurns (loadRegion drivers item env kernel.nextInfo) (loadStart item env kernel) count

/-- How `borph_load_hw` ends. -/
inductive LoadOutcome where
  | loaded
  | delregion (exit : LoadExit) (retval : ℤ)
  | oops
  | stuck
  deriving DecidableEq, Repr

/-- The value that the caller sees, if there is one. -/
def LoadOutcome.result : LoadOutcome → Option ℤ
  | .loaded => some 0
  | .delregion _ retval => some retval
  | .oops => none
  | .stuck => none

/-- `borph_load_hw`. -/
def borphLoadHw (item : ExecqItem) (env : LoadEnv ε) (kernel : KernelState δ) :
    LoadOutcome × KernelState δ :=
  if env.infoMem then
    match loadRegions drivers item env kernel item.bprm.buf.bNumchip.toNat with
    | .ok s =>
        (.loaded, s.kernel.modifyInfo kernel.nextInfo fun info =>
          { info with status := info.status ||| 1 })
    | .error ⟨.delregion exit, s⟩ =>
        (.delregion exit s.retval, borphExitFpga drivers item.task s.kernel)
    | .error ⟨.oops, s⟩ => (.oops, s.kernel)
    | .error ⟨.stuck, s⟩ => (.stuck, s.kernel)
  else
    (.oops, kernel)

end Load

end Rhino.Loader
