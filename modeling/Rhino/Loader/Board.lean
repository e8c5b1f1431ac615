import Rhino.Loader.Result

/-!
# Loading onto the RHINO board

On this board the registry can hand out one FPGA.  Two things follow for the
loader.  A load that succeeds found the FPGA free and leaves it reserved,
active, powered and listed in the record of the task.  A load that finds it
taken never gets past the reservation, and its teardown has nothing to tear
down.
-/

namespace Rhino.Loader

open Rhino.Bof Rhino.Bytes Rhino.Hwr Rhino.Kernel Rhino.Transition

/-! ## A load that succeeds -/

/-- A configuration that returns a value that is not negative has powered the
FPGA. -/
theorem powered_of_rhinoConfigureOp {addr : HwrAddr} {file : File} {offset len : UInt32}
    {config : ConfigRun} {board next : Board RhinoDev}
    {retval : ℤ} (nonnegative : 0 ≤ retval)
    (ran : rhinoConfigureOp addr file offset len config board = (some retval, next)) :
    next.dev.Powered := by
  cases enters : Configure.entered addr config.env with
  | true =>
      simp only [rhinoConfigureOp, enters, if_true, Prod.mk.injEq] at ran
      rcases ran with ⟨-, rfl⟩
      exact ⟨rfl, rfl, rfl⟩
  | false =>
      -- The call gives up before it touches a pin, with `-EIO`.
      have failed : (rhinoConfigureOp addr file offset len config board).1 = some (-eio) := by
        simp [rhinoConfigureOp, Configure.rhinoConfigureBehind, Configure.started, enters]
      rw [ran] at failed
      rcases Option.some.inj failed with rfl
      exact absurd nonnegative (by decide)

variable {item : ExecqItem} {env : LoadEnv ConfigRun}
  {kernel after : KernelState RhinoDev}

/-- Every turn that succeeds leaves the FPGA powered. -/
theorem powered_of_turn {regionEnv : RegionEnv ConfigRun}
    {held : List HwrAddr} {s next : LoadState RhinoDev}
    (ends : TurnEnds rhinoPlatform item kernel regionEnv held s (.ok next)) :
    next.kernel.hw.board.dev.Powered := by
  cases ends with
  | done _ _ _ driven loading nonnegative =>
      rcases driven with ⟨run, board, op, ran, dev_eq⟩
      have present := (loading.tracks.free _ List.mem_cons_self).1
      rcases eq_rhinoAddr_of_present present with rfl
      rcases Option.some.inj op with rfl
      rw [dev_eq]
      exact powered_of_rhinoConfigureOp nonnegative ran

/-- What a load that succeeds has done: it found the FPGA free and has started
a hardware process on it. -/
structure Started (item : ExecqItem) (kernel after : KernelState RhinoDev) : Prop where
  free : (kernel.hw.board.phyhwrs rhinoAddr).count = -1
  hwrtypes : after.hw.hwrtypes = kernel.hw.hwrtypes
  reserved : (after.hw.board.phyhwrs rhinoAddr).count = 1
  active : (after.hw.board.phyhwrs rhinoAddr).active = 1
  powered : after.hw.board.dev.Powered
  regions : (after.infos kernel.nextInfo).hwRegion.map HwRegion.addr = [rhinoAddr]
  borphInfo : after.borphInfo =
    Function.update kernel.borphInfo item.task (some kernel.nextInfo)
  nextInfo : after.nextInfo = kernel.nextInfo + 1
  freed : after.freed = kernel.freed

theorem borphLoadHw_eq_loaded_iff {δ ε : Type} {drivers : UInt16 → HwrDriver δ ε}
    {env : LoadEnv ε} {kernel after : KernelState δ} :
    borphLoadHw drivers item env kernel = (.loaded, after) ↔
      env.infoMem = true ∧ ∃ s, loadRegions drivers item env kernel
          item.bprm.buf.bNumchip.toNat = .ok s ∧
        (s.kernel.modifyInfo kernel.nextInfo fun info =>
          { info with status := info.status ||| 1 }) = after := by
  unfold borphLoadHw
  cases mem : env.infoMem with
  | false => simp
  | true =>
      rcases loadRegions drivers item env kernel item.bprm.buf.bNumchip.toNat with
        ⟨⟨stop, s⟩⟩ | s
      · cases stop <;> simp
      · simp

/-- The regions that a load holds on this board: the FPGA, if any. -/
theorem held_eq_rhinoAddr {held : List HwrAddr} {now : KernelState RhinoDev}
    (loading : Loading rhinoPlatform item kernel held held held now)
    (nonempty : 0 < held.length) : held = [rhinoAddr] := by
  have all (addr : HwrAddr) (mem : addr ∈ held) : addr = rhinoAddr :=
    eq_rhinoAddr_of_present (loading.tracks.free addr mem).1
  have nodup := loading.tracks.nodup
  cases held with
  | nil => contradiction
  | cons first rest =>
      rcases all first List.mem_cons_self with rfl
      cases rest with
      | nil => rfl
      | cons second rest =>
          rcases all second (List.mem_cons_of_mem _ List.mem_cons_self) with rfl
          simp at nodup

/-- A load of at least one chip that succeeds has started a hardware process. -/
theorem started_of_loaded (chips : 0 < item.bprm.buf.bNumchip)
    (loaded : borphLoadHw rhinoPlatform.drivers item env kernel = (.loaded, after)) :
    Started item kernel after := by
  rcases borphLoadHw_eq_loaded_iff.mp loaded with ⟨-, s, finished, rfl⟩
  have positive : 0 < item.bprm.buf.bNumchip.toNat := UInt32.lt_iff_toNat_lt.mp chips
  rcases loading_of_reached finished with ⟨⟨held, length_eq, loading⟩, -⟩
  rcases held_eq_rhinoAddr loading (by rw [length_eq]; exact positive) with rfl
  have mem : rhinoAddr ∈ [rhinoAddr] := List.mem_singleton_self rhinoAddr
  have powered : s.kernel.hw.board.dev.Powered := by
    rcases Nat.exists_eq_add_of_lt positive with ⟨turn, count_eq⟩
    rw [count_eq, Nat.zero_add] at finished
    rcases repeatTurns_succ_eq_ok_iff.mp finished with ⟨previous, reached, taken⟩
    rcases turnEnds_of_reached reached with ⟨held, ends⟩
    rw [taken] at ends
    exact powered_of_turn ends
  exact
    { free := (loading.tracks.free rhinoAddr mem).2
      hwrtypes := loading.tracks.hwrtypes
      reserved := loading.tracks.reserved rhinoAddr mem
      active := loading.running rhinoAddr mem
      powered := powered
      regions := by simpa [KernelState.modifyInfo] using loading.linked
      borphInfo := loading.borphInfo
      nextInfo := loading.nextInfo
      freed := loading.freed }

/-! ## A load that finds the FPGA taken -/

section Full

variable {δ ε : Type} {platform : Platform δ ε} {kernel : KernelState δ}

/-- With nothing free, the region loop ends in its first turn and has changed
nothing but the books of the new record. -/
theorem loadRegions_of_full (item : ExecqItem) (env : LoadEnv ε)
    (full : ∀ addr, ¬ platform.Free kernel.hw addr) (count : ℕ) :
    (∃ s, loadRegions platform.drivers item env kernel count = .ok s ∧
      s.kernel = (loadStart item env kernel).kernel) ∨
    (∃ exit s, loadRegions platform.drivers item env kernel count =
      .error ⟨.delregion exit, s⟩ ∧ s.kernel = (loadStart item env kernel).kernel) := by
  cases count with
  | zero => exact Or.inl ⟨_, rfl, rfl⟩
  | succ count =>
      right
      have first : ∃ exit s, loadRegion platform.drivers item env kernel.nextInfo 0
          (loadStart item env kernel) = .error ⟨.delregion exit, s⟩ ∧
            s.kernel = (loadStart item env kernel).kernel := by
        rcases prepareRegion_cases platform item (env.region 0) (loadStart item env kernel) with
          ⟨-, failed⟩ | ⟨-, exit, next, failed, same, -⟩ | ⟨-, next, -, free, -⟩
        · exact ⟨.badOffset, _, by rw [loadRegion, failed]; rfl, rfl⟩
        · exact ⟨exit, next, by rw [loadRegion, failed]; rfl, same⟩
        · exact absurd free (full _)
      rcases first with ⟨exit, s, failed, same⟩
      refine ⟨exit, s, ?_, same⟩
      exact repeatTurns_eq_error_iff.mpr ⟨0, Nat.succ_pos count, _, rfl, failed⟩

/-- With nothing free, a load leaves the hardware, the pointers of other tasks
and the records in use alone. -/
theorem borphLoadHw_of_full (item : ExecqItem) (env : LoadEnv ε)
    (full : ∀ addr, ¬ platform.Free kernel.hw addr) :
    let after := (borphLoadHw platform.drivers item env kernel).2
    after.hw = kernel.hw ∧
      (∀ task, task ≠ item.task → after.borphInfo task = kernel.borphInfo task) ∧
      ∀ bi < kernel.nextInfo, after.infos bi = kernel.infos bi := by
  intro after
  by_cases mem : env.infoMem = true
  · rcases loadRegions_of_full item env full item.bprm.buf.bNumchip.toNat with
      ⟨s, finished, same⟩ | ⟨exit, s, left, same⟩
    · have after_eq : after = s.kernel.modifyInfo kernel.nextInfo fun info =>
          { info with status := info.status ||| 1 } := by
        simp only [after, borphLoadHw, mem, if_true, finished]
      rw [after_eq, same]
      refine ⟨rfl, ?_, ?_⟩
      · intro task other
        simp [KernelState.modifyInfo, loadStart, other]
      · intro bi old
        simp [KernelState.modifyInfo, loadStart, old.ne]
    · have after_eq : after = borphExitFpga platform.drivers item.task s.kernel := by
        simp only [after, borphLoadHw, mem, if_true, left]
      have pointer : s.kernel.borphInfo item.task = some kernel.nextInfo := by
        simp [same, loadStart]
      have empty : (s.kernel.infos kernel.nextInfo).hwRegion = [] := by
        simp [same, loadStart, BorphInfo.fresh]
      simp only [after_eq, borphExitFpga, pointer, empty, List.foldl_nil]
      refine ⟨by rw [same]; rfl, ?_, ?_⟩
      · intro task other
        simp [same, loadStart, other]
      · intro bi old
        simp [KernelState.modifyInfo, same, loadStart, old.ne]
  · have after_eq : after = kernel := by
      simp [after, borphLoadHw, mem]
    rw [after_eq]
    exact ⟨rfl, fun _ _ => rfl, fun _ _ => rfl⟩

end Full

/-- Task `owner` owns the FPGA: it is reserved, active and powered, and listed
in a record of the task that is in use. -/
structure OwnsRhino (kernel : KernelState RhinoDev) (owner : Task) (bi : ℕ) : Prop where
  pointer : kernel.borphInfo owner = some bi
  allocated : bi < kernel.nextInfo
  listed : ∃ region ∈ (kernel.infos bi).hwRegion, region.addr = rhinoAddr
  reserved : 1 ≤ (kernel.hw.board.phyhwrs rhinoAddr).count
  active : (kernel.hw.board.phyhwrs rhinoAddr).active = 1
  powered : kernel.hw.board.dev.Powered

/-- Whatever file another task loads while the FPGA is owned, however the load
ends, the record of the FPGA, the device with its supplies and configuration,
the log of driver calls and the hardware process of the owner stay as they
are. -/
theorem borphLoadHw_isolates_owner (item : ExecqItem) (env : LoadEnv ConfigRun)
    (only : RhinoOnly kernel.hw) {owner : Task} {bi : ℕ}
    (owns : OwnsRhino kernel owner bi) (other : item.task ≠ owner) :
    let after := (borphLoadHw rhinoPlatform.drivers item env kernel).2
    after.hw.board.phyhwrs rhinoAddr = kernel.hw.board.phyhwrs rhinoAddr ∧
      after.hw.board.dev = kernel.hw.board.dev ∧
      after.hw.calls = kernel.hw.calls ∧
      after.borphInfo owner = some bi ∧
      after.infos bi = kernel.infos bi := by
  have full (addr : HwrAddr) : ¬ rhinoPlatform.Free kernel.hw addr := by
    rintro ⟨present, free⟩
    rcases (present_iff_rhinoAddr only).mp present with rfl
    have reserved := owns.reserved
    rw [free] at reserved
    contradiction
  intro after
  rcases borphLoadHw_of_full item env full with ⟨hw_eq, pointers, infos⟩
  refine ⟨by rw [hw_eq], by rw [hw_eq], by rw [hw_eq], ?_, infos bi owns.allocated⟩
  rw [pointers owner other.symm]
  exact owns.pointer

/-- The kernel after task 1 has loaded a file of one region. -/
def ownedKernel : KernelState RhinoDev :=
  (borphLoadHw rhinoPlatform.drivers (sampleItem 1 1 loneRegion [0xaa])
    (calmLoad smoothConfig) bootKernel).2

theorem bootKernel_rhinoOnly : RhinoOnly bootKernel.hw := by
  refine ⟨rfl, ?_⟩
  intro cls other
  simp [bootKernel, other]

theorem ownedKernel_started :
    Started (sampleItem 1 1 loneRegion [0xaa]) bootKernel ownedKernel := by
  have loaded : (borphLoadHw rhinoPlatform.drivers (sampleItem 1 1 loneRegion [0xaa])
      (calmLoad smoothConfig) bootKernel).1 = .loaded := by
    decide +kernel
  exact started_of_loaded (by decide) (Prod.ext loaded rfl)

theorem ownedKernel_rhinoOnly : RhinoOnly ownedKernel.hw := by
  unfold RhinoOnly
  rw [ownedKernel_started.hwrtypes]
  exact bootKernel_rhinoOnly

theorem ownedKernel_ownsRhino : OwnsRhino ownedKernel 1 0 where
  pointer := by rw [ownedKernel_started.borphInfo]; rfl
  allocated := by rw [ownedKernel_started.nextInfo]; exact Nat.succ_pos _
  listed := by
    have mem : rhinoAddr ∈
        (ownedKernel.infos bootKernel.nextInfo).hwRegion.map HwRegion.addr := by
      rw [ownedKernel_started.regions]
      exact List.mem_singleton_self rhinoAddr
    exact List.mem_map.mp mem
  reserved := ownedKernel_started.reserved.ge
  active := ownedKernel_started.active
  powered := ownedKernel_started.powered

/-- Task 2 loads the same file while task 1 runs it. -/
theorem borphLoadHw_isolates_first_of_two :
    RhinoOnly ownedKernel.hw ∧ OwnsRhino ownedKernel 1 0 ∧
      let after := (borphLoadHw rhinoPlatform.drivers (sampleItem 2 1 loneRegion [0xaa])
        (calmLoad smoothConfig) ownedKernel).2
      after.hw.board.phyhwrs rhinoAddr = ⟨1, 1, some 1⟩ ∧ after.borphInfo 1 = some 0 := by
  refine ⟨ownedKernel_rhinoOnly, ownedKernel_ownsRhino, ?_⟩
  rcases borphLoadHw_isolates_owner (sampleItem 2 1 loneRegion [0xaa]) (calmLoad smoothConfig)
    ownedKernel_rhinoOnly ownedKernel_ownsRhino (by decide) with ⟨record_eq, -, -, pointer, -⟩
  refine ⟨?_, pointer⟩
  rw [record_eq]
  decide +kernel

end Rhino.Loader
