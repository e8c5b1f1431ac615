import Rhino.Ioreg.Events
import Rhino.Ioreg.Window
import Rhino.Loader.Users

/-!
# Users of a hwrtype in every call

The register file operations count a user of the hwrtype while they work.  Their
events are played back on the registry, beside what the loader and the unloader do to
it.
-/

namespace Rhino.Ioreg

open Rhino.Bof Rhino.Bytes Rhino.Hwr Rhino.Kernel Rhino.Loader

variable {δ ε : Type} (drivers : UInt16 → HwrDriver δ ε)

/-- Which of the operations for register I/O are not `NULL`. -/
structure IobufOps where
  getIobuf : Bool
  putIobuf : Bool
  sendIobuf : Bool
  recvIobuf : Bool

/-- The test of `ioreg_reg_read`. -/
def IobufOps.canRead (ops : IobufOps) : Bool :=
  ops.getIobuf && ops.recvIobuf && ops.putIobuf

/-- The test of `ioreg_reg_write`. -/
def IobufOps.canWrite (ops : IobufOps) : Bool :=
  ops.getIobuf && ops.sendIobuf && ops.putIobuf

/-- What `get_hwrops` finds in the registry. -/
def hwropsOf (usable : Bool) (addr : HwrAddr) (hw : HwState δ) : Hwrops :=
  match hw.lookup addr with
  | none => .absent
  | some _ => if usable then .complete else .incomplete

/-- What an event does to the registry. -/
def replay (addr : HwrAddr) (hw : HwState δ) : IoEvent → HwState δ
  | .getHwrops => (getHwrops drivers addr hw).2
  | .putHwrops => putHwrops addr hw
  | _ => hw

/-- The registry after a call with these events. -/
def IoState.registry {β : Type} (s : IoState β) (addr : HwrAddr) (hw : HwState δ) : HwState δ :=
  s.trace.foldl (replay drivers addr) hw

/-- What an event adds to the count. -/
def IoEvent.users : IoEvent → ℤ
  | .getHwrops => 1
  | .putHwrops => -1
  | _ => 0

theorem paired_users : Paired IoEvent.users where
  task := rfl
  hwrops := rfl
  buffer := rfl
  readw _ := rfl
  writew _ _ := rfl

section Replay

variable {addr : HwrAddr} {hw : HwState δ} {ht : HwrType}

/-- The registry with the count of a class changed. -/
def counted (hw : HwState δ) (addr : HwrAddr) (count : ℤ) : UInt16 → Option HwrType :=
  Function.update hw.hwrtypes addr.cls (some ⟨count⟩)

theorem counted_same (found : hw.lookup addr = some ht) :
    counted hw addr ht.count = hw.hwrtypes := by
  rw [counted, ← HwState.hwrtypes_of_lookup found]
  exact Function.update_eq_self addr.cls hw.hwrtypes

theorem lookup_of_counted {later : HwState δ} {count : ℤ} (found : hw.lookup addr = some ht)
    (same : later.hwrtypes = counted hw addr count) : later.lookup addr = some ⟨count⟩ := by
  have small : ¬ MAX_HWRTYPES ≤ addr.cls := by
    intro large
    simp [HwState.lookup, large] at found
  rw [HwState.lookup, if_neg small, same, counted, Function.update_self]

theorem replay_counted (found : hw.lookup addr = some ht) (event : IoEvent) :
    (replay drivers addr hw event).hwrtypes = counted hw addr (ht.count + event.users) := by
  cases event with
  | getHwrops =>
      rw [replay, getHwrops, found]
      rfl
  | putHwrops =>
      rw [replay, putHwrops, found]
      rfl
  | getTask | putTask | down | up | readw addr | writew value addr =>
      change hw.hwrtypes = counted hw _ (ht.count + 0)
      rw [add_zero, counted_same found]

/-- The count changes by what the events add to it. -/
theorem replay_hwrtypes (found : hw.lookup addr = some ht) (events : List IoEvent) :
    (events.foldl (replay drivers addr) hw).hwrtypes =
      counted hw addr (ht.count + (events.map IoEvent.users).sum) := by
  induction events generalizing hw ht with
  | nil =>
      rw [List.map_nil, List.sum_nil, add_zero, counted_same found]
      rfl
  | cons event rest ih =>
      have stepped := replay_counted drivers found event
      rw [List.foldl_cons, ih (lookup_of_counted found stepped), counted, stepped, counted, counted,
        Function.update_idem, List.map_cons, List.sum_cons, add_assoc]

/-- Without a hwrtype there is nothing to count. -/
theorem replay_absent (missing : hw.lookup addr = none) (events : List IoEvent) :
    (events.foldl (replay drivers addr) hw).hwrtypes = hw.hwrtypes := by
  apply congrArg HwState.hwrtypes
  induction events with
  | nil => rfl
  | cons event rest ih =>
      have stepped : replay drivers addr hw event = hw := by
        cases event with
        | getHwrops => rw [replay, getHwrops, missing]
        | putHwrops => rw [replay, putHwrops, missing]
        | getTask | putTask | down | up | readw addr | writew value addr => rfl
      rw [List.foldl_cons, stepped]
      exact ih

/-- Events that balance leave the registry as it was. -/
theorem registry_hwrtypes {β : Type} {s : IoState β} (balanced : s.weight IoEvent.users = 0) :
    (s.registry drivers addr hw).hwrtypes = hw.hwrtypes := by
  rw [IoState.registry]
  cases found : hw.lookup addr with
  | none => exact replay_absent drivers found s.trace
  | some ht =>
      rw [IoState.weight] at balanced
      rw [replay_hwrtypes drivers found, balanced, add_zero, counted_same found]

end Replay

/-! ## Every call -/

section Calls

variable (ops : UInt16 → IobufOps) {β : Type} (bus : Bus β) (map : FpgaMap)

/-- `ioreg_reg_read` with the operations that it finds in the registry. -/
def readWith (hw : HwState δ) (reg : Ioreg) (mode : ℤ) (env : IoEnv) (own : Bool) (fcount : ℕ)
    (fpos : ℤ) (device : β) : Call β :=
  ioregRegRead bus map reg mode
    { env with hwrops := hwropsOf (ops reg.hwraddr.cls).canRead reg.hwraddr hw }
    own fcount fpos ⟨device, []⟩

/-- `ioreg_reg_write` with the operations that it finds in the registry. -/
def writeWith (hw : HwState δ) (reg : Ioreg) (mode : ℤ) (env : IoEnv) (own : Bool) (fcount : ℕ)
    (fpos : ℤ) (device : β) : Call β :=
  ioregRegWrite bus map reg mode
    { env with hwrops := hwropsOf (ops reg.hwraddr.cls).canWrite reg.hwraddr hw }
    own fcount fpos ⟨device, []⟩

/-- The counts of all hwrtypes after a call are those before it, but for a load that
comes to a region whose hwrtype has no `configure`. -/
theorem users_balanced_iff :
    (∀ item env kernel, (borphLoadHw drivers item env kernel).1.result.isSome →
      ((borphLoadHw drivers item env kernel).2.hw.hwrtypes = kernel.hw.hwrtypes ↔
        ¬ MeetsUnconfigurable drivers item env kernel)) ∧
    (∀ task kernel, (borphExitFpga drivers task kernel).hw.hwrtypes = kernel.hw.hwrtypes) ∧
    (∀ hw reg mode env own fcount fpos device,
      ((readWith ops bus map hw reg mode env own fcount fpos device).io.registry drivers
          reg.hwraddr hw).hwrtypes = hw.hwrtypes ∧
        ((writeWith ops bus map hw reg mode env own fcount fpos device).io.registry drivers
          reg.hwraddr hw).hwrtypes = hw.hwrtypes) := by
  refine ⟨?_, ?_, ?_⟩
  · intro item env kernel returned
    exact borphLoadHw_users_iff drivers returned
  · intro task kernel
    exact borphExitFpga_hwrtypes drivers task kernel
  · intro hw reg mode env own fcount fpos device
    constructor
    · apply registry_hwrtypes
      exact paired_users.ioregRegRead bus map reg mode _ own fcount fpos ⟨device, []⟩
    · apply registry_hwrtypes
      -- A fault in the buffer costs the buffer, but no user.
      rcases paired_users.ioregRegWrite bus map reg mode
          { env with hwrops := hwropsOf (ops reg.hwraddr.cls).canWrite reg.hwraddr hw }
          own fcount fpos ⟨device, []⟩ with ⟨-, same⟩ | ⟨-, same⟩
      · exact same
      · exact same

end Calls

/-- Loading the file `led` on the RHINO leaves the counts as they were. -/
theorem users_balanced_led :
    (ledKernel 0x08800000).hw.hwrtypes = bootKernel.hw.hwrtypes := by
  have loaded := (ledFile_loaded (Or.inl rfl)).1
  have returned : (borphLoadHw rhinoPlatform.drivers (ledFile 0x08800000) (calmLoad smoothConfig)
      bootKernel).1.result.isSome := by
    rw [loaded]
    rfl
  apply ((users_balanced_iff rhinoPlatform.drivers (fun _ => ⟨true, true, true, true⟩) idleBus
    sampleMap).1 _ _ _ returned).mpr
  intro meets
  rcases loadRegions_of_meets rhinoPlatform.drivers meets with ⟨cls, ht, next, -, ended, -⟩
  have memory : (calmLoad smoothConfig).infoMem = true := rfl
  rw [borphLoadHw, ended, if_pos memory] at loaded
  cases loaded

/-- The driver of the RHINO without its `configure`. -/
def unconfigurableDrivers : UInt16 → HwrDriver RhinoDev ConfigRun := fun cls =>
  { numDevs := (rhinoPlatform.drivers cls).numDevs
    ops := { (rhinoPlatform.drivers cls).ops with configure := none } }

/-- The load is refused, and a user of the hwrtype stays behind. -/
theorem user_left_behind :
    let loaded := borphLoadHw unconfigurableDrivers (ledFile 0x08800000) (calmLoad smoothConfig)
      bootKernel
    loaded.1.result = some (-enoexec) ∧
      bootKernel.hw.hwrtypes HAC_RHINO = some ⟨1⟩ ∧
      loaded.2.hw.hwrtypes HAC_RHINO = some ⟨2⟩ := by
  decide +kernel

end Rhino.Ioreg
