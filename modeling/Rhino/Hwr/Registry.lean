import Rhino.Bof.Format
import Rhino.Kernel.File
import Mathlib.Logic.Function.Basic

/-!
# The registry of hardware regions

`kernel/hwr/common.c`.  A driver registers a `hwrtype` for a class of hardware
regions; `phyhwrs` has one record for every physical region.  Use counts are
`atomic_t`: a region is free at `-1`, and `0` is a value that only a reservation
or a release in progress passes through.

The tables are the state.  The constant part of a `hwrtype`, its number of
devices and its operations, is the `HwrDriver` of a class; which operations a
driver implements is not fixed here.
-/

namespace Rhino.Hwr

open Rhino.Bof Rhino.Kernel

/-- A `task_struct`, by identity. -/
abbrev Task := ℕ

/-- `struct phyhwr`. -/
structure PhyHwr where
  count : ℤ
  active : ℤ
  task : Option Task
  deriving DecidableEq, Repr

/-- The part of `struct hwrtype` that changes. -/
structure HwrType where
  count : ℤ
  deriving DecidableEq, Repr

/-- What a driver can see and change: the records of the physical regions and
the state of its device. -/
structure Board (δ : Type) where
  phyhwrs : HwrAddr → PhyHwr
  dev : δ

/-- `struct hwr_operations`, less the register I/O.  A `NULL` operation is
`none`; `reserveHwr` returns the address of the record it hands out.  `ε` is
what the environment does during one configuration; a configuration that never
returns has no result. -/
structure HwrOperations (δ ε : Type) where
  configure : Option (HwrAddr → File → UInt32 → UInt32 → ε → Board δ → Option ℤ × Board δ)
  unconfigure : Option (HwrAddr → Board δ → Board δ)
  reserveHwr : HwrAddr → Board δ → Option HwrAddr × Board δ
  releaseHwr : HwrAddr → Board δ → Board δ

/-- The constant part of `struct hwrtype`. -/
structure HwrDriver (δ ε : Type) where
  numDevs : ℕ
  ops : HwrOperations δ ε

/-- A call of a driver's `configure` or `unconfigure`. -/
inductive DriverCall where
  | configure (addr : HwrAddr)
  | unconfigure (addr : HwrAddr)
  deriving DecidableEq, Repr

/-- `hwrtypes`, the board, and the driver calls made so far. -/
structure HwState (δ : Type) where
  hwrtypes : UInt16 → Option HwrType
  board : Board δ
  calls : List DriverCall

def MAX_HWRTYPES : UInt16 := 16

/-! ## The record of one physical region -/

/-- `atomic_dec_and_test` of the use count, freeing the record at zero. -/
def PhyHwr.put (hwr : PhyHwr) : PhyHwr :=
  if hwr.count - 1 = 0 then { hwr with task := none, count := -1 }
  else { hwr with count := hwr.count - 1 }

namespace Board

variable {δ : Type}

/-- Replace the record of one physical region. -/
def setHwr (board : Board δ) (addr : HwrAddr) (hwr : PhyHwr) : Board δ :=
  { board with phyhwrs := Function.update board.phyhwrs addr hwr }

@[simp]
theorem setHwr_same (board : Board δ) (addr : HwrAddr) (hwr : PhyHwr) :
    (board.setHwr addr hwr).phyhwrs addr = hwr := by
  simp [setHwr]

@[simp]
theorem setHwr_other (board : Board δ) {addr other : HwrAddr} (hwr : PhyHwr)
    (ne : other ≠ addr) : (board.setHwr addr hwr).phyhwrs other = board.phyhwrs other := by
  simp [setHwr, ne]

@[simp]
theorem setHwr_setHwr (board : Board δ) (addr : HwrAddr) (first second : PhyHwr) :
    (board.setHwr addr first).setHwr addr second = board.setHwr addr second := by
  simp [setHwr]

@[simp]
theorem setHwr_self (board : Board δ) (addr : HwrAddr) :
    board.setHwr addr (board.phyhwrs addr) = board := by
  simp [setHwr]

/-- `atomic_inc` of a use count. -/
def incCount (board : Board δ) (addr : HwrAddr) : Board δ :=
  board.setHwr addr { board.phyhwrs addr with count := (board.phyhwrs addr).count + 1 }

/-- Drop one use of a region. -/
def decCount (board : Board δ) (addr : HwrAddr) : Board δ :=
  board.setHwr addr (board.phyhwrs addr).put

end Board

namespace HwState

variable {δ ε : Type}

/-- The state after a driver has worked on the board. -/
def withBoard (hw : HwState δ) (board : Board δ) : HwState δ :=
  { hw with board := board }

/-- Replace the record of one physical region. -/
def setHwr (hw : HwState δ) (addr : HwrAddr) (hwr : PhyHwr) : HwState δ :=
  hw.withBoard (hw.board.setHwr addr hwr)

/-- Replace the count of a registered hwrtype. -/
def setCount (hw : HwState δ) (cls : UInt16) (count : ℤ) : HwState δ :=
  { hw with hwrtypes := Function.update hw.hwrtypes cls (some ⟨count⟩) }

/-- The hwrtype that an address selects, after the bounds check. -/
def lookup (hw : HwState δ) (addr : HwrAddr) : Option HwrType :=
  if MAX_HWRTYPES ≤ addr.cls then none else hw.hwrtypes addr.cls

theorem hwrtypes_of_lookup {hw : HwState δ} {addr : HwrAddr} {ht : HwrType}
    (found : hw.lookup addr = some ht) : hw.hwrtypes addr.cls = some ht := by
  unfold lookup at found
  split at found
  · contradiction
  · exact found

end HwState

/-! ## Operations of the registry -/

variable {δ ε : Type} (drivers : UInt16 → HwrDriver δ ε)

/-- `get_hwrops`. -/
def getHwrops (addr : HwrAddr) (hw : HwState δ) :
    Option (HwrOperations δ ε) × HwState δ :=
  match hw.lookup addr with
  | none => (none, hw)
  | some ht => (some (drivers addr.cls).ops, hw.setCount addr.cls (ht.count + 1))

/-- `put_hwrops`. -/
def putHwrops (addr : HwrAddr) (hw : HwState δ) : HwState δ :=
  match hw.lookup addr with
  | none => hw
  | some ht => hw.setCount addr.cls (ht.count - 1)

/-- `reserve_hwr`. -/
def reserveHwr (addr : HwrAddr) (hw : HwState δ) : Option HwrAddr × HwState δ :=
  match getHwrops drivers addr hw with
  | (none, hw) => (none, hw)
  | (some ops, hw) =>
      let (ret, board) := ops.reserveHwr addr hw.board
      (ret, putHwrops addr (hw.withBoard board))

/-- `release_hwr`. -/
def releaseHwr (addr : HwrAddr) (hw : HwState δ) : HwState δ :=
  match getHwrops drivers addr hw with
  | (none, hw) => hw
  | (some ops, hw) =>
      putHwrops addr (hw.withBoard (ops.releaseHwr addr hw.board))

/-- `get_hwr`. -/
def getHwr (addr : HwrAddr) (hw : HwState δ) : Option HwrAddr × HwState δ :=
  match hw.lookup addr with
  | none => (none, hw)
  | some _ =>
      if (drivers addr.cls).numDevs ≤ addr.addr.toNat then (none, hw)
      else (some addr, hw.withBoard (hw.board.incCount addr))

/-- `put_hwr`. -/
def putHwr (addr : HwrAddr) (hw : HwState δ) : HwState δ :=
  match hw.lookup addr with
  | none => hw
  | some _ =>
      if (drivers addr.cls).numDevs ≤ addr.addr.toNat then hw
      else hw.withBoard (hw.board.decCount addr)

/-- The common body of `hwr_activate` and `hwr_deactivate`. -/
def setActive (active : ℤ) (addr : HwrAddr) (hw : HwState δ) : HwState δ :=
  match getHwr drivers addr hw with
  | (none, hw) => hw
  | (some hwr, hw) =>
      putHwr drivers addr (hw.setHwr hwr { hw.board.phyhwrs hwr with active := active })

/-- `hwr_activate`. -/
def hwrActivate (addr : HwrAddr) (hw : HwState δ) : HwState δ :=
  setActive drivers 1 addr hw

/-- `hwr_deactivate`. -/
def hwrDeactivate (addr : HwrAddr) (hw : HwState δ) : HwState δ :=
  setActive drivers 0 addr hw

end Rhino.Hwr
