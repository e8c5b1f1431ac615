import Rhino.Hwr.RhinoDriver
import Rhino.Loader.Turn

/-!
# What a failed load leaves behind

All exits of `borph_load_hw` go through `borph_exit_fpga`, which returns the
regions that are linked into the `borph_info`.  A region is reserved before its
string table is loaded and linked after, so the exits in between lose it; and
the exit for a driver without `configure` skips the `put_hwrops`.  A failed load
undoes itself exactly if it takes none of these exits.
-/

namespace Rhino.Loader

open Rhino.Bof Rhino.Bytes Rhino.Hwr Rhino.Kernel Rhino.Transition

variable {δ ε : Type}

/-- The task has no hardware process, and every use count is as it was. -/
structure Restored (task : Task) (before after : KernelState δ) : Prop where
  borphInfo : after.borphInfo task = none
  phyhwrs : ∀ addr,
    (after.hw.board.phyhwrs addr).count = (before.hw.board.phyhwrs addr).count
  hwrtypes : ∀ cls, after.hw.hwrtypes cls = before.hw.hwrtypes cls

section Cleanup

variable (platform : Platform δ ε) (item : ExecqItem) (kernel : KernelState δ)

/-- A turn that starts in `s` stays clear of the exits that lose something: if
it reserves a region then the string table loads, and if it gets to the
configuration then the driver has one. -/
def LeakFree (env : RegionEnv ε) (s : LoadState δ) : Prop :=
  ∀ r, prepareRegion platform.drivers item env s = .ok r →
    StrtabLoads env r ∧
      ∀ d, declareRegion item env kernel.nextInfo r = .ok d →
        (platform.drivers d.hwrhdr.addr.cls).ops.configure ≠ none

variable {platform item kernel}

theorem Tracks.restored {before after : KernelState δ} {task : Task}
    (tracks : Tracks platform before.hw after.hw []) (pointer : after.borphInfo task = none) :
    Restored task before after :=
  ⟨pointer, fun addr => tracks.others addr List.not_mem_nil, congrFun tracks.hwrtypes⟩

/-- Tearing down a load that holds nothing but linked regions undoes it. -/
theorem Loading.restored {held running : List HwrAddr} {now : KernelState δ}
    (loading : Loading platform item kernel held held running now) :
    Restored item.task kernel (borphExitFpga platform.drivers item.task now) := by
  obtain ⟨tracks, borphInfo_eq⟩ := loading.exitFpga (List.Perm.of_eq (List.append_nil held).symm)
  apply tracks.restored
  rw [borphInfo_eq, Function.update_self]

/-- A region that is held but not linked is still reserved after the teardown. -/
theorem Loading.not_restored {held running : List HwrAddr} {addr : HwrAddr}
    {now : KernelState δ}
    (loading : Loading platform item kernel (addr :: held) held running now) :
    ¬ Restored item.task kernel (borphExitFpga platform.drivers item.task now) := by
  obtain ⟨tracks, -⟩ := loading.exitFpga (List.perm_append_singleton addr held).symm
  intro restored
  have lost := tracks.reserved addr List.mem_cons_self
  rw [restored.phyhwrs addr, (loading.tracks.free addr List.mem_cons_self).2] at lost
  contradiction

/-- The teardown does not lower a use count that was left raised. -/
theorem Loading.not_restored_of_raised {held running : List HwrAddr} {now : KernelState δ}
    {cls : UInt16} {ht : HwrType}
    (loading : Loading platform item kernel held held running now)
    (registered : kernel.hw.hwrtypes cls = some ht) :
    ¬ Restored item.task kernel (borphExitFpga platform.drivers item.task
      { now with hw := now.hw.setCount cls (ht.count + 1) }) := by
  have raised := loading.setCount cls (ht.count + 1)
  obtain ⟨tracks, -⟩ := raised.exitFpga (List.Perm.of_eq (List.append_nil held).symm)
  intro restored
  have kept := restored.hwrtypes cls
  rw [tracks.hwrtypes, registered] at kept
  have same : ht.count + 1 = ht.count := by
    simpa [HwState.setCount] using congrArg (Option.map HwrType.count) kept
  omega

theorem LeakFree.of_undeclared {env : RegionEnv ε} {s r : LoadState δ}
    (prepared : prepareRegion platform.drivers item env s = .ok r) (loads : StrtabLoads env r)
    (undeclared : ∀ d, declareRegion item env kernel.nextInfo r ≠ .ok d) :
    LeakFree platform item kernel env s := by
  intro other prepared'
  obtain rfl := Except.ok.inj (prepared.symm.trans prepared')
  exact ⟨loads, fun d declared => absurd declared (undeclared d)⟩

theorem LeakFree.of_reaches {env : RegionEnv ε} {s r d : LoadState δ}
    (reaches : Reaches platform item kernel env s r d)
    (present : (platform.drivers d.hwrhdr.addr.cls).ops.configure ≠ none) :
    LeakFree platform item kernel env s := by
  intro other prepared'
  obtain rfl := Except.ok.inj (reaches.prepared.symm.trans prepared')
  refine ⟨reaches.loads, fun last declared' => ?_⟩
  obtain rfl := Except.ok.inj (reaches.declared.symm.trans declared')
  exact present

/-- At an exit to `out_delregion` the teardown restores everything exactly if
the last turn was free of leaks. -/
theorem restored_iff_leakFree {env : RegionEnv ε} {held : List HwrAddr} {s next : LoadState δ}
    {exit : LoadExit} (start : Loading platform item kernel held held held s.kernel)
    (ends : TurnEnds platform item kernel env held s (.error ⟨.delregion exit, next⟩)) :
    Restored item.task kernel (borphExitFpga platform.drivers item.task next.kernel) ↔
      LeakFree platform item kernel env s := by
  cases ends with
  | badOffset _ unprepared =>
      exact iff_of_true start.restored fun r prepared => absurd prepared (unprepared r)
  | unreserved _ unprepared loading _ =>
      exact iff_of_true loading.restored fun r prepared => absurd prepared (unprepared r)
  | unlinked _ prepared unloaded _ loading _ =>
      apply iff_of_false loading.not_restored
      intro leakFree
      exact unloaded (leakFree _ prepared).1
  | undeclared _ prepared loads _ undeclared loading _ =>
      exact iff_of_true loading.restored (.of_undeclared prepared loads undeclared)
  | noHwrops reaches absent loading registered raised _ =>
      rw [raised]
      apply iff_of_false (loading.not_restored_of_raised registered)
      intro leakFree
      exact (leakFree _ reaches.prepared).2 _ reaches.declared absent
  | unconfigured reaches present _ loading _ =>
      exact iff_of_true loading.restored (.of_reaches reaches present)

/-- A turn that does not end in `out_delregion` has lost nothing. -/
theorem leakFree_of_not_delregion {env : RegionEnv ε} {held : List HwrAddr} {s : LoadState δ}
    {result : Except (Halt δ) (LoadState δ)}
    (ends : TurnEnds platform item kernel env held s result)
    (other : ∀ exit next, result ≠ .error ⟨.delregion exit, next⟩) :
    LeakFree platform item kernel env s := by
  cases ends with
  | badOffset | unreserved | unlinked | undeclared | noHwrops | unconfigured =>
      exact absurd rfl (other _ _)
  | oops _ prepared loads _ undeclared => exact .of_undeclared prepared loads undeclared
  | stuck reaches present _ => exact .of_reaches reaches present
  | done reaches present _ _ _ _ => exact .of_reaches reaches present

theorem borphLoadHw_eq_delregion_iff {env : LoadEnv ε} {exit : LoadExit} {retval : ℤ}
    {after : KernelState δ} :
    borphLoadHw platform.drivers item env kernel = (.delregion exit retval, after) ↔
      env.infoMem = true ∧ ∃ s, loadRegions platform.drivers item env kernel
          item.bprm.buf.bNumchip.toNat = .error ⟨.delregion exit, s⟩ ∧
        s.retval = retval ∧ borphExitFpga platform.drivers item.task s.kernel = after := by
  unfold borphLoadHw
  cases mem : env.infoMem with
  | false => simp
  | true =>
      rcases loadRegions platform.drivers item env kernel item.bprm.buf.bNumchip.toNat with
        ⟨⟨stop, s⟩⟩ | s
      · cases stop <;> simp [and_assoc]
      · simp

end Cleanup

/-- A load that leaves through `out_delregion` undoes itself exactly if no turn
of its loop loses a region or the use of a driver. -/
theorem borphLoadHw_restores_iff (platform : Platform δ ε) (item : ExecqItem)
    (env : LoadEnv ε) (kernel : KernelState δ) :
    (∀ exit retval after,
      borphLoadHw platform.drivers item env kernel = (.delregion exit retval, after) →
        Restored item.task kernel after) ↔
    (env.infoMem = true → ∀ turn < item.bprm.buf.bNumchip.toNat, ∀ s,
      loadRegions platform.drivers item env kernel turn = .ok s →
        LeakFree platform item kernel (env.region turn) s) := by
  constructor
  · intro restores mem turn lt s reached
    obtain ⟨⟨held, -, loading⟩, -⟩ := loading_of_reached reached
    have ends := turnEnds env turn loading
    rcases turn_ok_or_last lt reached with ⟨next, ok⟩ | ⟨⟨stop, next⟩, left, last⟩
    · rw [ok] at ends
      exact leakFree_of_not_delregion ends (by simp)
    · rw [left] at ends
      cases stop with
      | delregion exit =>
          refine (restored_iff_leakFree loading ends).mp (restores exit next.retval _ ?_)
          exact borphLoadHw_eq_delregion_iff.mpr ⟨mem, next, last, rfl, rfl⟩
      | oops => exact leakFree_of_not_delregion ends (by simp)
      | stuck => exact leakFree_of_not_delregion ends (by simp)
  · intro leakFree exit retval after left
    obtain ⟨mem, next, last, -, rfl⟩ := borphLoadHw_eq_delregion_iff.mp left
    obtain ⟨turn, lt, s, reached, ended⟩ := repeatTurns_eq_error_iff.mp last
    obtain ⟨⟨held, -, loading⟩, -⟩ := loading_of_reached reached
    have ends := turnEnds env turn loading
    rw [ended] at ends
    exact (restored_iff_leakFree loading ends).mpr (leakFree mem turn lt s reached)

/-! ## A load that loses the FPGA -/

/-- The kernel once the RHINO driver is up: the FPGA is free and off. -/
def bootKernel : KernelState RhinoDev where
  hw :=
    { hwrtypes := fun cls => if cls = HAC_RHINO then some ⟨1⟩ else none
      board :=
        { phyhwrs := fun _ => ⟨-1, 0, none⟩
          dev := ⟨fun _ => false, []⟩ }
      calls := [] }
  borphInfo := fun _ => none
  infos := fun _ => .fresh
  nextInfo := 0
  freed := []

/-- A file header that announces regions from offset 52 on. -/
def sampleHdr (numchip : UInt32) : BofHdr where
  ident := []
  bVersion := 0
  bMachine := 0
  bElfmachine := 0
  bNumchip := numchip
  bElfoff := 0
  bHwoff := 52
  loadErr := 0
  bEkver := 0
  pad0 := 0
  pad1 := 0

/-- A header for the FPGA with one symbol and a string table of length zero. -/
def symbolsWithoutStrtab : HwrHdr where
  flag := 0
  addr := rhinoAddr
  plOff := 92
  plLen := 0
  nrSymbol := 1
  strtabOff := 92
  nextHwr := 0

/-- Every `kmalloc` succeeds, every read is served in full and every
configuration meets `config`. -/
def calmLoad (config : ε) : LoadEnv ε where
  infoMem := true
  stack := fun _ => 0
  region := fun _ =>
    { hdrIo := .upTo MAX_RW_COUNT
      strtabMem := some fun _ => 0
      strtabIo := .upTo MAX_RW_COUNT
      regionMem := true
      ioregMem := fun _ => true
      ioregIo := fun _ => .upTo MAX_RW_COUNT
      ioregStack := fun _ _ => 0
      configure := config }

/-- The file of one header at offset 52. -/
def sampleItem (task : Task) (numchip : UInt32) (hdr : HwrHdr) (rest : List UInt8) : ExecqItem where
  bprm := ⟨sampleHdr numchip, List.replicate 52 0 ++ hdr.encode ++ rest⟩
  task := task

/-- The load fails for want of a string table and the FPGA stays reserved. -/
theorem borphLoadHw_loses_fpga_without_strtab :
    bootKernel.borphInfo 1 = none ∧
      ¬ ∀ exit retval after,
        borphLoadHw rhinoPlatform.drivers (sampleItem 1 1 symbolsWithoutStrtab [])
          (calmLoad smoothConfig) bootKernel = (.delregion exit retval, after) →
        Restored 1 bootKernel after := by
  refine ⟨rfl, ?_⟩
  intro restores
  have restored := restores .emptyStrtab (-enoexec) _ (Prod.ext (by decide +kernel) rfl)
  have freed : _ = (-1 : ℤ) := restored.phyhwrs rhinoAddr
  exact absurd freed (by decide +kernel)

end Rhino.Loader
