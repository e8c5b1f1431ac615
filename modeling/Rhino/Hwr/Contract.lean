import Rhino.Hwr.Registry

/-!
# What the registry expects of a driver

`kernel/hwr/common.c` calls `reserve_hwr` "an atomic version of test and
get_hwr".  `HwrDriver.Lawful` says this in full: a reservation succeeds exactly
on a free region of the driver and then leaves its use count at one, a release
drops one use, and neither configuration touches a use count.

A `Platform` is a table of drivers that keep to it.  On a platform every
registry operation has a closed form, and the loader is verified from these
forms alone.
-/

namespace Rhino.Hwr

open Rhino.Bof Rhino.Kernel

variable {δ ε : Type}

/-- The contract of the driver of class `cls`. -/
structure HwrDriver.Lawful (driver : HwrDriver δ ε) (cls : UInt16) : Prop where
  reserve : ∀ (addr : HwrAddr) (board : Board δ), addr.cls = cls →
    driver.ops.reserveHwr addr board =
      if addr.addr.toNat < driver.numDevs ∧ (board.phyhwrs addr).count = -1 then
        (some addr, board.setHwr addr { board.phyhwrs addr with count := 1 })
      else (none, board)
  release : ∀ (addr : HwrAddr) (board : Board δ), addr.cls = cls →
    addr.addr.toNat < driver.numDevs → driver.ops.releaseHwr addr board = board.decCount addr
  configure : ∀ run, driver.ops.configure = some run →
    ∀ addr file offset len env board,
      (run addr file offset len env board).2.phyhwrs = board.phyhwrs
  unconfigure : ∀ run, driver.ops.unconfigure = some run →
    ∀ addr board, (run addr board).phyhwrs = board.phyhwrs

/-- A table of drivers, one for every class, that keep to the contract. -/
structure Platform (δ ε : Type) where
  drivers : UInt16 → HwrDriver δ ε
  lawful : ∀ cls, (drivers cls).Lawful cls

namespace Platform

variable (platform : Platform δ ε)

/-- The address names a device of a registered hwrtype. -/
def Present (hw : HwState δ) (addr : HwrAddr) : Prop :=
  (hw.lookup addr).isSome ∧ addr.addr.toNat < (platform.drivers addr.cls).numDevs

instance (hw : HwState δ) (addr : HwrAddr) : Decidable (platform.Present hw addr) :=
  inferInstanceAs (Decidable (_ ∧ _))

/-- A free device of a registered hwrtype. -/
def Free (hw : HwState δ) (addr : HwrAddr) : Prop :=
  platform.Present hw addr ∧ (hw.board.phyhwrs addr).count = -1

instance (hw : HwState δ) (addr : HwrAddr) : Decidable (platform.Free hw addr) :=
  inferInstanceAs (Decidable (_ ∧ _))

end Platform

/-! ## Closed forms of the registry operations -/

section ClosedForms

variable (platform : Platform δ ε)

/-- A `get_hwrops` is undone by its `put_hwrops`, whatever happens to the board
in between. -/
theorem putHwrops_setCount {hw : HwState δ} {addr : HwrAddr} {ht : HwrType}
    (found : hw.lookup addr = some ht) (board : Board δ) :
    putHwrops addr ((hw.setCount addr.cls (ht.count + 1)).withBoard board) =
      hw.withBoard board := by
  have small : ¬ MAX_HWRTYPES ≤ addr.cls := by
    intro large
    simp [HwState.lookup, large] at found
  have stored := HwState.hwrtypes_of_lookup found
  simp [putHwrops, HwState.lookup, HwState.setCount, HwState.withBoard, small, ← stored]

theorem reserveHwr_eq (addr : HwrAddr) (hw : HwState δ) :
    reserveHwr platform.drivers addr hw =
      if platform.Free hw addr then
        (some addr, hw.setHwr addr { hw.board.phyhwrs addr with count := 1 })
      else (none, hw) := by
  unfold reserveHwr getHwrops
  cases found : hw.lookup addr with
  | none => simp [Platform.Free, Platform.Present, found]
  | some ht =>
      simp only [(platform.lawful addr.cls).reserve addr _ rfl, Platform.Free,
        Platform.Present, found, Option.isSome_some, true_and]
      by_cases free : addr.addr.toNat < (platform.drivers addr.cls).numDevs ∧
          (hw.board.phyhwrs addr).count = -1
      · rw [if_pos free, if_pos (by exact free), putHwrops_setCount found]
        rfl
      · rw [if_neg free, if_neg (by exact free), putHwrops_setCount found]
        rfl

theorem releaseHwr_eq {addr : HwrAddr} {hw : HwState δ}
    (present : platform.Present hw addr) :
    releaseHwr platform.drivers addr hw =
      hw.setHwr addr (hw.board.phyhwrs addr).put := by
  obtain ⟨registered, inside⟩ := present
  obtain ⟨ht, found⟩ := Option.isSome_iff_exists.mp registered
  simp only [releaseHwr, getHwrops, found, putHwrops_setCount found,
    (platform.lawful addr.cls).release addr _ rfl inside]
  rfl

/-- Switching a region that is in use changes nothing but its `active` flag. -/
theorem setActive_eq {addr : HwrAddr} {hw : HwState δ}
    (present : platform.Present hw addr) (used : (hw.board.phyhwrs addr).count ≠ 0)
    (active : ℤ) :
    setActive platform.drivers active addr hw =
      hw.setHwr addr { hw.board.phyhwrs addr with active := active } := by
  obtain ⟨registered, inside⟩ := present
  obtain ⟨ht, found⟩ := Option.isSome_iff_exists.mp registered
  have bound : ¬ (platform.drivers addr.cls).numDevs ≤ addr.addr.toNat := by omega
  have reached : getHwr platform.drivers addr hw =
      (some addr, hw.withBoard (hw.board.incCount addr)) := by
    simp [getHwr, found, bound]
  have dropped (board : Board δ) : putHwr platform.drivers addr (hw.withBoard board) =
      hw.withBoard (board.decCount addr) := by
    have still : (hw.withBoard board).lookup addr = some ht := found
    simp only [putHwr, still, bound, if_false]
    rfl
  -- The use that `get_hwr` takes is the one that `put_hwr` drops, so only a
  -- count of zero would be mistaken for the last use.
  have balanced : ((hw.board.incCount addr).setHwr addr
      { (hw.board.incCount addr).phyhwrs addr with active := active }).decCount addr =
        hw.board.setHwr addr { hw.board.phyhwrs addr with active := active } := by
    simp [Board.decCount, Board.incCount, PhyHwr.put, used]
  simp only [setActive, reached]
  exact (dropped _).trans (congrArg hw.withBoard balanced)

end ClosedForms

end Rhino.Hwr
