import Rhino.Hwr.Configure.Core
import Rhino.Hwr.Contract

/-!
# The driver of the RHINO board

The operations of `kernel/hwr/hwrtype_rhino.c` that the loader calls, on a
device that consists of the GPIO lines the driver sets and the bytes that the
FPGA has taken in since its configuration memory was last cleared.

The board has a single FPGA, and this kernel has no other driver.
-/

namespace Rhino.Hwr

open Rhino.Bof Rhino.Kernel Configure

/-- The levels of the GPIO outputs and the configuration of the FPGA. -/
structure RhinoDev where
  gpio : ℕ → Bool
  config : List UInt8

/-- What one configuration meets, the schedule of its callbacks, and the messages
of earlier configurations that are still in flight. -/
structure ConfigRun where
  env : ConfigEnv
  schedule : List Move
  backlog : List (Part × ℤ)

def PROG_B : ℕ := 126

def FPGA_VCCINT : ℕ := 99

def FPGA_VCCO_AUX : ℕ := 100

def FPGA_VCCMGT : ℕ := 101

namespace RhinoDev

/-- `gpio_direction_output`. -/
def gpioDirectionOutput (dev : RhinoDev) (pin : ℕ) (level : Bool) : RhinoDev :=
  { dev with gpio := Function.update dev.gpio pin level }

/-- `rhino_set_fpga_psu`. -/
def setFpgaPsu (dev : RhinoDev) (enable : Bool) : RhinoDev :=
  ((dev.gpioDirectionOutput FPGA_VCCINT enable).gpioDirectionOutput
    FPGA_VCCO_AUX enable).gpioDirectionOutput FPGA_VCCMGT enable

/-- All three supplies of the FPGA are on. -/
def Powered (dev : RhinoDev) : Prop :=
  dev.gpio FPGA_VCCINT = true ∧ dev.gpio FPGA_VCCO_AUX = true ∧ dev.gpio FPGA_VCCMGT = true

instance (dev : RhinoDev) : Decidable dev.Powered :=
  inferInstanceAs (Decidable (_ ∧ _ ∧ _))

/-- All three supplies of the FPGA are off. -/
def Unpowered (dev : RhinoDev) : Prop :=
  dev.gpio FPGA_VCCINT = false ∧ dev.gpio FPGA_VCCO_AUX = false ∧ dev.gpio FPGA_VCCMGT = false

instance (dev : RhinoDev) : Decidable dev.Unpowered :=
  inferInstanceAs (Decidable (_ ∧ _ ∧ _))

end RhinoDev

/-! ## Operations -/

/-- `rhino_configure` on the board.  Once it holds the mutex it powers the FPGA
and pulses PROG_B, which clears the configuration memory.  What messages of earlier
calls send after that is not counted. -/
def rhinoConfigureOp (addr : HwrAddr) (file : File) (offset len : UInt32)
    (env : ConfigRun) (board : Board RhinoDev) : Option ℤ × Board RhinoDev :=
  let (result, t) := rhinoConfigureBehind env.backlog addr file offset len env.env env.schedule
  if entered addr env.env then
    let dev := (board.dev.setFpgaPsu true).gpioDirectionOutput PROG_B true
    (result, { board with dev := { dev with config := t.received } })
  else
    (result, board)

/-- `rhino_unconfigure`: without power the FPGA loses its configuration. -/
def rhinoUnconfigure (_addr : HwrAddr) (board : Board RhinoDev) : Board RhinoDev :=
  { board with dev := { board.dev.setFpgaPsu false with config := [] } }

/-- `rhino_reserve_hwr`. -/
def rhinoReserveHwr {δ : Type} (addr : HwrAddr) (board : Board δ) :
    Option HwrAddr × Board δ :=
  if addr.cls ≠ HAC_RHINO then (none, board)
  else if 1 ≤ addr.addr.toNat then (none, board)
  else
    let hwr := board.phyhwrs addr
    -- `atomic_inc_and_test`, undone by `atomic_dec` if the region is in use
    let count := hwr.count + 1
    if count ≠ 0 then
      (none, board.setHwr addr { hwr with count := count - 1 })
    else
      (some addr, board.setHwr addr { hwr with count := count + 1 })

/-- `rhino_release_hwr`. -/
def rhinoReleaseHwr {δ : Type} (addr : HwrAddr) (board : Board δ) : Board δ :=
  if addr.cls ≠ HAC_RHINO then board
  else if 1 ≤ addr.addr.toNat then board
  else board.decCount addr

/-- `hwrtype_rhino` with `rhino_hwr_operations`. -/
def rhinoDriver : HwrDriver RhinoDev ConfigRun where
  numDevs := 1
  ops :=
    { configure := some rhinoConfigureOp
      unconfigure := some rhinoUnconfigure
      reserveHwr := rhinoReserveHwr
      releaseHwr := rhinoReleaseHwr }

/-- The driver of a class that has no devices. -/
def noDriver (δ ε : Type) : HwrDriver δ ε where
  numDevs := 0
  ops :=
    { configure := none
      unconfigure := none
      reserveHwr := fun _ board => (none, board)
      releaseHwr := fun _ board => board }

/-! ## The contract -/

theorem rhinoConfigureOp_fst (addr : HwrAddr) (file : File) (offset len : UInt32)
    (env : ConfigRun) (board : Board RhinoDev) :
    (rhinoConfigureOp addr file offset len env board).1 =
      (rhinoConfigureBehind env.backlog addr file offset len env.env env.schedule).1 := by
  simp only [rhinoConfigureOp]
  split <;> rfl

theorem rhinoConfigureOp_phyhwrs (addr : HwrAddr) (file : File) (offset len : UInt32)
    (env : ConfigRun) (board : Board RhinoDev) :
    (rhinoConfigureOp addr file offset len env board).2.phyhwrs = board.phyhwrs := by
  simp only [rhinoConfigureOp]
  split <;> rfl

theorem rhinoDriver_lawful : rhinoDriver.Lawful HAC_RHINO where
  reserve addr board cls := by
    obtain ⟨_, number⟩ := addr
    subst cls
    simp only [rhinoDriver, rhinoReserveHwr]
    by_cases inside : number.toNat < 1
    · have single : ¬ 1 ≤ number.toNat := not_le.mpr inside
      by_cases free : (board.phyhwrs ⟨HAC_RHINO, number⟩).count = -1
      · simp [inside, single, free]
      · have used : (board.phyhwrs ⟨HAC_RHINO, number⟩).count + 1 ≠ 0 := by omega
        simp only [inside, single, free, used, ne_eq, not_true, not_false_iff, if_true,
          if_false, and_false, add_sub_cancel_right]
        exact congrArg (Prod.mk none) (board.setHwr_self _)
    · simp [inside, not_lt.mp inside]
  release addr board cls inside := by
    change rhinoReleaseHwr addr board = _
    have single : ¬ 1 ≤ addr.addr.toNat := not_le.mpr inside
    simp [rhinoReleaseHwr, cls, single]
  configure run isRun addr file offset len env board := by
    obtain rfl : rhinoConfigureOp = run := Option.some.inj isRun
    exact rhinoConfigureOp_phyhwrs addr file offset len env board
  unconfigure run isRun addr board := by
    obtain rfl : rhinoUnconfigure = run := Option.some.inj isRun
    rfl

theorem noDriver_lawful (δ ε : Type) (cls : UInt16) : (noDriver δ ε).Lawful cls where
  reserve addr board _ := by simp [noDriver]
  release addr board _ inside := absurd inside (Nat.not_lt_zero _)
  configure run isRun := by cases isRun
  unconfigure run isRun := by cases isRun

/-- The drivers of this kernel. -/
def rhinoPlatform : Platform RhinoDev ConfigRun where
  drivers cls := if cls = HAC_RHINO then rhinoDriver else noDriver _ _
  lawful cls := by
    by_cases same : cls = HAC_RHINO
    · subst same
      rw [if_pos rfl]
      exact rhinoDriver_lawful
    · rw [if_neg same]
      exact noDriver_lawful _ _ cls

/-- The configuration of a bitstream of one page in which nothing goes wrong. -/
def smoothConfig : ConfigRun where
  env :=
    { spiDevice := true
      interrupted := false
      readyInitB := fun _ => true
      readIo := fun _ => .upTo PAGE_SIZE
      status := fun _ => 0
      crcInitB := true
      done := fun _ => true
      staleDone := 0 }
  schedule := [.sender, .callback, .sender, .sender, .sender, .sender]
  backlog := []

/-- HAC_RHINO is the only registered hwrtype. -/
def RhinoOnly (hw : HwState RhinoDev) : Prop :=
  (hw.hwrtypes HAC_RHINO).isSome ∧ ∀ cls, cls ≠ HAC_RHINO → hw.hwrtypes cls = none

theorem RhinoOnly.setCount {hw : HwState RhinoDev} (only : RhinoOnly hw) (count : ℤ) :
    RhinoOnly (hw.setCount HAC_RHINO count) := by
  constructor
  · simp [HwState.setCount]
  · intro cls other
    simpa [HwState.setCount, other] using only.2 cls other

/-- The address of the FPGA. -/
def rhinoAddr : HwrAddr := ⟨HAC_RHINO, 0⟩

/-- No device but the FPGA has a driver. -/
theorem eq_rhinoAddr_of_present {hw : HwState RhinoDev} {addr : HwrAddr}
    (present : rhinoPlatform.Present hw addr) : addr = rhinoAddr := by
  obtain ⟨cls, number⟩ := addr
  have inside := present.2
  by_cases same : cls = HAC_RHINO
  · subst same
    have zero : number.toNat < 1 := inside
    have : number = 0 := UInt16.toNat_inj.mp (by simpa using zero)
    rw [this]
    rfl
  · simp [rhinoPlatform, same, noDriver] at inside

/-- The only device that the registry of this kernel can hand out. -/
theorem present_iff_rhinoAddr {hw : HwState RhinoDev} (only : RhinoOnly hw)
    {addr : HwrAddr} : rhinoPlatform.Present hw addr ↔ addr = rhinoAddr := by
  constructor
  · exact eq_rhinoAddr_of_present
  · intro same
    cases same
    constructor
    · exact only.1
    · decide

end Rhino.Hwr
