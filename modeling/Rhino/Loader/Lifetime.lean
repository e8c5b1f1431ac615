import Rhino.Loader.Board

/-!
# The life of a hardware process

A load that returns zero and leaves a record has loaded every region of its
file.  The exit of the task then takes down exactly these, with one call of
`unconfigure` each, and the registry is as it was before the load.

A second load by the same task breaks this life in two: it puts a new record in
the place of the old one, and nothing lists the old regions any more.
-/

namespace Rhino.Loader

open Rhino.Bof Rhino.Bytes Rhino.Hwr Rhino.Kernel Rhino.Transition

/-! ## The teardown of a list of regions -/

section Teardown

variable {δ ε : Type} {drivers : UInt16 → HwrDriver δ ε}

theorem borphExitFpga_borphInfo (task : Task) (kernel : KernelState δ) :
    (borphExitFpga drivers task kernel).borphInfo task = none := by
  unfold borphExitFpga
  cases pointer : kernel.borphInfo task with
  | none => exact pointer
  | some bi => simp

theorem borphExitFpga_of_none {task : Task} {kernel : KernelState δ}
    (pointer : kernel.borphInfo task = none) : borphExitFpga drivers task kernel = kernel := by
  simp only [borphExitFpga, pointer]

/-- Only a load that ran to its end returns zero and leaves a record: every
exit through `out_delregion` clears the pointer. -/
theorem loaded_of_result_eq_zero {item : ExecqItem} {env : LoadEnv ε} {kernel : KernelState δ}
    {bi : ℕ} (returned : (borphLoadHw drivers item env kernel).1.result = some 0)
    (running : (borphLoadHw drivers item env kernel).2.borphInfo item.task = some bi) :
    (borphLoadHw drivers item env kernel).1 = .loaded := by
  unfold borphLoadHw at returned running ⊢
  cases mem : env.infoMem with
  | false => simp [mem, LoadOutcome.result] at returned
  | true =>
      cases ended : loadRegions drivers item env kernel item.bprm.buf.bNumchip.toNat with
      | ok s => simp
      | error halt =>
          obtain ⟨stop, s⟩ := halt
          simp only [mem, if_true, ended] at returned running
          cases stop with
          | delregion exit =>
              rw [borphExitFpga_borphInfo] at running
              contradiction
          | oops => cases returned
          | stuck => cases returned

variable {platform : Platform δ ε} {before now : HwState δ} {taken : List HwrAddr}

theorem Tracks.exitRegion_eq {region : HwRegion}
    (tracks : Tracks platform before now (region.addr :: taken)) :
    Loader.exitRegion platform.drivers now region =
      (cleared platform (now.setHwr region.addr
        { now.board.phyhwrs region.addr with active := 0 }) region.addr).setHwr
          region.addr ⟨-1, 0, none⟩ :=
  Loader.exitRegion_eq platform (tracks.present List.mem_cons_self)
    (tracks.reserved _ List.mem_cons_self)

/-- The records of other regions stay as they are. -/
theorem Tracks.exitRegions_other {regions : List HwRegion}
    (tracks : Tracks platform before now (regions.map HwRegion.addr ++ taken))
    {addr : HwrAddr} (other : addr ∉ regions.map HwRegion.addr) :
    (regions.foldl (Loader.exitRegion platform.drivers) now).board.phyhwrs addr =
      now.board.phyhwrs addr := by
  induction regions generalizing now with
  | nil => rfl
  | cons region rest ih =>
      rw [List.map_cons, List.mem_cons, not_or] at other
      rw [List.foldl_cons, ih tracks.exitRegion other.2, tracks.exitRegion_eq]
      simp only [HwState.setHwr, HwState.withBoard, Board.setHwr_other _ _ other.1,
        cleared_phyhwrs]

/-- Every region of the list ends free, inactive and without a task. -/
theorem Tracks.exitRegions_phyhwrs {regions : List HwRegion}
    (tracks : Tracks platform before now (regions.map HwRegion.addr ++ taken))
    {region : HwRegion} (mem : region ∈ regions) :
    (regions.foldl (Loader.exitRegion platform.drivers) now).board.phyhwrs region.addr =
      ⟨-1, 0, none⟩ := by
  induction regions generalizing now with
  | nil => contradiction
  | cons first rest ih =>
      rw [List.foldl_cons]
      by_cases again : region.addr ∈ rest.map HwRegion.addr
      · rcases List.mem_map.mp again with ⟨twin, twinMem, same⟩
        rcases List.mem_cons.mp mem with rfl | mem
        · -- An address is listed once.
          have fresh := (List.nodup_cons.mp tracks.nodup).1
          exact absurd (List.mem_append_left taken again) fresh
        · exact ih tracks.exitRegion mem
      · rw [tracks.exitRegion.exitRegions_other again]
        rcases List.mem_cons.mp mem with rfl | mem
        · rw [tracks.exitRegion_eq]
          simp [HwState.setHwr, HwState.withBoard]
        · exact absurd (List.mem_map_of_mem mem) again

/-- Where every driver can unconfigure, it is asked to once for each region, in
the order of the list. -/
theorem Tracks.exitRegions_calls {regions : List HwRegion}
    (tracks : Tracks platform before now (regions.map HwRegion.addr ++ taken))
    (able : ∀ region ∈ regions, (platform.drivers region.addr.cls).ops.unconfigure ≠ none) :
    (regions.foldl (Loader.exitRegion platform.drivers) now).calls =
      now.calls ++ regions.map fun region => .unconfigure region.addr := by
  induction regions generalizing now with
  | nil => simp
  | cons region rest ih =>
      have rest_able := fun other mem => able other (List.mem_cons_of_mem region mem)
      obtain ⟨run, op⟩ := Option.ne_none_iff_exists'.mp (able region List.mem_cons_self)
      rw [List.foldl_cons, ih tracks.exitRegion rest_able, tracks.exitRegion_eq]
      simp [cleared, unconfigureRegion, op, HwState.setHwr, HwState.withBoard]

/-- The books of a load that ran to its end. -/
theorem loading_of_loaded {item : ExecqItem} {env : LoadEnv ε} {kernel after : KernelState δ}
    (loaded : borphLoadHw platform.drivers item env kernel = (.loaded, after)) :
    ∃ held, held.length = item.bprm.buf.bNumchip.toNat ∧
      Loading platform item kernel held held held after := by
  rcases borphLoadHw_eq_loaded_iff.mp loaded with ⟨-, s, finished, rfl⟩
  rcases loading_of_reached finished with ⟨⟨held, length_eq, loading⟩, -⟩
  refine ⟨held, length_eq, { loading with linked := ?_, others := ?_ }⟩
  · simpa [KernelState.modifyInfo] using loading.linked
  · intro bi ne
    simpa [KernelState.modifyInfo, ne] using loading.others bi ne

end Teardown

/-! ## Load and exit -/

theorem unpowered_cleared (hw : HwState RhinoDev) :
    (cleared rhinoPlatform hw rhinoAddr).board.dev.Unpowered :=
  ⟨rfl, rfl, rfl⟩

section Undo

variable {item : ExecqItem} {env : LoadEnv ConfigRun} {kernel after : KernelState RhinoDev}
  (loaded : borphLoadHw rhinoPlatform.drivers item env kernel = (.loaded, after))
include loaded

/-- A load without chips leaves the hardware alone and lists nothing. -/
theorem unchanged_of_loaded (none : item.bprm.buf.bNumchip = 0) :
    after.hw = kernel.hw ∧ (after.infos kernel.nextInfo).hwRegion = [] := by
  rcases borphLoadHw_eq_loaded_iff.mp loaded with ⟨-, s, finished, rfl⟩
  rw [none] at finished
  obtain rfl : loadStart item env kernel = s := Except.ok.inj finished
  constructor
  · rfl
  · simp [loadStart, KernelState.modifyInfo, BorphInfo.fresh]

/-- The exit after a load with chips clears the FPGA and gives it back. -/
theorem exitRegions_of_loaded (chips : item.bprm.buf.bNumchip ≠ 0) :
    let regions := (after.infos kernel.nextInfo).hwRegion
    let hw := regions.foldl (exitRegion rhinoPlatform.drivers) after.hw
    hw.calls = after.hw.calls ++ regions.map (fun region => .unconfigure region.addr) ∧
      hw.board.phyhwrs rhinoAddr = ⟨-1, 0, none⟩ ∧ hw.hwrtypes = kernel.hw.hwrtypes ∧
      hw.board.dev.Unpowered := by
  intro regions hw
  rcases loading_of_loaded loaded with ⟨held, length_eq, loading⟩
  have positive : 0 < held.length := by
    rw [length_eq]
    exact UInt32.lt_iff_toNat_lt.mp (UInt32.pos_iff_ne_zero.mpr chips)
  rcases held_eq_rhinoAddr loading positive with rfl
  obtain ⟨region, regions_eq, addr_eq⟩ := List.map_eq_singleton_iff.mp loading.linked
  have tracks : Tracks rhinoPlatform kernel.hw after.hw ([region].map HwRegion.addr ++ []) := by
    rw [← regions_eq, loading.linked]
    exact loading.tracks
  simp only [hw, regions, regions_eq]
  refine ⟨?_, ?_, tracks.exitRegions.hwrtypes, ?_⟩
  · apply tracks.exitRegions_calls
    intro other mem
    rcases List.mem_singleton.mp mem with rfl
    rw [addr_eq]
    exact Option.some_ne_none _
  · rw [← addr_eq]
    exact tracks.exitRegions_phyhwrs (List.mem_singleton_self region)
  · rw [List.foldl_cons, List.foldl_nil, tracks.exitRegion_eq, addr_eq]
    exact unpowered_cleared _

end Undo

/-- The exit of a task whose load succeeded.  A load without chips, for which
nobody asks, does not touch the FPGA, which is then idle if it was before. -/
theorem borphExitFpga_undoes_load (item : ExecqItem) (env : LoadEnv ConfigRun)
    (kernel : KernelState RhinoDev) (bi : ℕ)
    (idle : item.bprm.buf.bNumchip = 0 →
      kernel.hw.board.phyhwrs rhinoAddr = ⟨-1, 0, none⟩ ∧ kernel.hw.board.dev.Unpowered)
    (returned : (borphLoadHw rhinoPlatform.drivers item env kernel).1.result = some 0)
    (running : (borphLoadHw rhinoPlatform.drivers item env kernel).2.borphInfo item.task =
      some bi) :
    let after := (borphLoadHw rhinoPlatform.drivers item env kernel).2
    let ended := borphExitFpga rhinoPlatform.drivers item.task after
    ended.hw.calls = after.hw.calls ++
        (after.infos bi).hwRegion.map (fun region => .unconfigure region.addr) ∧
      ended.hw.board.phyhwrs rhinoAddr = ⟨-1, 0, none⟩ ∧
      ended.hw.hwrtypes = kernel.hw.hwrtypes ∧
      ended.hw.board.dev.Unpowered ∧
      ended.borphInfo item.task = none ∧
      borphExitFpga rhinoPlatform.drivers item.task ended = ended := by
  intro after ended
  have loaded : borphLoadHw rhinoPlatform.drivers item env kernel = (.loaded, after) :=
    Prod.ext (loaded_of_result_eq_zero returned running) rfl
  have gone : ended.borphInfo item.task = none := borphExitFpga_borphInfo item.task after
  rcases loading_of_loaded loaded with ⟨held, -, loading⟩
  have pointer : after.borphInfo item.task = some kernel.nextInfo := by
    rw [loading.borphInfo, Function.update_self]
  obtain rfl : kernel.nextInfo = bi := Option.some.inj (pointer.symm.trans running)
  have ended_hw : ended.hw = (after.infos kernel.nextInfo).hwRegion.foldl
      (exitRegion rhinoPlatform.drivers) after.hw := by
    simp only [ended, borphExitFpga, pointer]
  rw [ended_hw]
  by_cases chips : item.bprm.buf.bNumchip = 0
  · obtain ⟨same, empty⟩ := unchanged_of_loaded loaded chips
    obtain ⟨free, off⟩ := idle chips
    rw [empty, List.foldl_nil, same, List.map_nil, List.append_nil]
    exact ⟨rfl, free, rfl, off, gone, borphExitFpga_of_none gone⟩
  · obtain ⟨calls, free, types, off⟩ := exitRegions_of_loaded loaded chips
    exact ⟨calls, free, types, off, gone, borphExitFpga_of_none gone⟩

/-- The first load and exit after boot. -/
theorem borphExitFpga_undoes_first_load :
    let ended := borphExitFpga rhinoPlatform.drivers 1 ownedKernel
    ended.hw.calls = ownedKernel.hw.calls ++ [.unconfigure rhinoAddr] ∧
      ended.hw.board.phyhwrs rhinoAddr = ⟨-1, 0, none⟩ := by
  have undone := borphExitFpga_undoes_load (sampleItem 1 1 loneRegion [0xaa])
    (calmLoad smoothConfig) bootKernel 0 (fun none => absurd none (by decide))
    (by decide +kernel) (by decide +kernel)
  refine ⟨?_, undone.2.1⟩
  have regions : (ownedKernel.infos 0).hwRegion.map HwRegion.addr = [rhinoAddr] :=
    ownedKernel_started.regions
  rw [show [DriverCall.unconfigure rhinoAddr] =
    ((ownedKernel.infos 0).hwRegion.map HwRegion.addr).map .unconfigure by rw [regions]; rfl,
    List.map_map]
  exact undone.1

/-- After boot as `register_hwrtype` leaves it, with the use count set and nothing else:
`kmalloc` does not clear a `struct phyhwr`. -/
def unclearedKernel : KernelState RhinoDev :=
  { bootKernel with hw := bootKernel.hw.setHwr rhinoAddr ⟨-1, 1, some 7⟩ }

/-- A load without chips does not touch the free FPGA, and so the exit leaves it as it
was. -/
theorem borphExitFpga_leaves_uncleared_hwr :
    let loaded := borphLoadHw rhinoPlatform.drivers (sampleItem 1 0 loneRegion [0xaa])
      (calmLoad smoothConfig) unclearedKernel
    (unclearedKernel.hw.board.phyhwrs rhinoAddr).count = -1 ∧ loaded.1.result = some 0 ∧
      loaded.2.borphInfo 1 = some 0 ∧
      (borphExitFpga rhinoPlatform.drivers 1 loaded.2).hw.board.phyhwrs rhinoAddr ≠
        ⟨-1, 0, none⟩ := by
  decide +kernel

/-! ## Loading again -/

section Reload

variable {δ ε : Type}

/-- Between `before` and `after` the regions `taken` have gone from free to
reserved, and the use counts of no other regions have changed. -/
structure Takes (platform : Platform δ ε) (before after : HwState δ) (taken : List HwrAddr) :
    Prop where
  free : ∀ addr ∈ taken, platform.Free before addr
  reserved : ∀ addr ∈ taken, (after.board.phyhwrs addr).count = 1
  others : ∀ addr, addr ∉ taken →
    (after.board.phyhwrs addr).count = (before.board.phyhwrs addr).count

variable {platform : Platform δ ε} {item : ExecqItem} {kernel : KernelState δ}

theorem Tracks.takes {before now : HwState δ} {taken : List HwrAddr}
    (tracks : Tracks platform before now taken) : Takes platform before now taken :=
  ⟨tracks.free, tracks.reserved, tracks.others⟩

/-- At an exit to `out_delregion` the load has lost at most the region of the
turn in which it was left, and this one exactly if its string table did not
load, which it reports as an error. -/
theorem takes_of_delregion {env : RegionEnv ε} {held : List HwrAddr} {s next : LoadState δ}
    {exit : LoadExit} (start : Loading platform item kernel held held held s.kernel)
    (ends : TurnEnds platform item kernel env held s (.error ⟨.delregion exit, next⟩)) :
    ∃ lost, Takes platform kernel.hw
        (borphExitFpga platform.drivers item.task next.kernel).hw lost ∧
      (lost = [] ↔ ∀ r, prepareRegion platform.drivers item env s = .ok r →
        StrtabLoads env r) ∧ (lost ≠ [] → next.retval < 0) := by
  have nothing_lost {held running : List HwrAddr} {now : KernelState δ}
      (loading : Loading platform item kernel held held running now) :
      Takes platform kernel.hw (borphExitFpga platform.drivers item.task now).hw [] :=
    (loading.exitFpga (List.Perm.of_eq (List.append_nil held).symm)).1.takes
  have loads_of {r : LoadState δ} (prepared : prepareRegion platform.drivers item env s = .ok r)
      (loads : StrtabLoads env r) (other : LoadState δ)
      (prepared' : prepareRegion platform.drivers item env s = .ok other) :
      StrtabLoads env other := by
    obtain rfl := Except.ok.inj (prepared.symm.trans prepared')
    exact loads
  cases ends with
  | badOffset _ unprepared =>
      refine ⟨[], nothing_lost start, iff_of_true rfl ?_, absurd rfl⟩
      exact fun r prepared => absurd prepared (unprepared r)
  | unreserved _ unprepared loading _ =>
      refine ⟨[], nothing_lost loading, iff_of_true rfl ?_, absurd rfl⟩
      exact fun r prepared => absurd prepared (unprepared r)
  | @unlinked _ _ _ addr _ prepared unloaded _ loading negative =>
      have tracks := (loading.exitFpga (List.perm_append_singleton addr held).symm).1
      refine ⟨[addr], tracks.takes, iff_of_false (List.cons_ne_nil _ _) ?_, fun _ => negative⟩
      exact fun loads => unloaded (loads _ prepared)
  | undeclared _ prepared loads _ _ loading _ =>
      exact ⟨[], nothing_lost loading, iff_of_true rfl (loads_of prepared loads), absurd rfl⟩
  | @noHwrops _ _ _ _ cls ht reaches _ loading _ raised _ =>
      refine ⟨[], ?_, iff_of_true rfl (loads_of reaches.prepared reaches.loads), absurd rfl⟩
      rw [raised]
      have tracks := ((loading.setCount cls (ht.count + 1)).exitFpga
        (List.Perm.of_eq (List.append_nil _).symm)).1
      exact ⟨by simp, by simp, tracks.others⟩
  | unconfigured reaches _ _ loading _ =>
      exact ⟨[], nothing_lost loading,
        iff_of_true rfl (loads_of reaches.prepared reaches.loads), absurd rfl⟩

/-- What a load that returns has taken, and what it lists of this. -/
theorem borphLoadHw_takes {env : LoadEnv ε} {retval : ℤ}
    (returned : (borphLoadHw platform.drivers item env kernel).1.result = some retval) :
    let after := (borphLoadHw platform.drivers item env kernel).2
    ∃ taken, Takes platform kernel.hw after.hw taken ∧
      ∀ bi, after.borphInfo item.task = some bi →
        (after.infos bi).hwRegion.map HwRegion.addr = taken := by
  cases ended : borphLoadHw platform.drivers item env kernel with
  | mk outcome after =>
      rw [ended] at returned
      cases outcome with
      | loaded =>
          rcases loading_of_loaded ended with ⟨held, -, loading⟩
          refine ⟨held, loading.tracks.takes, ?_⟩
          intro bi pointer
          rw [loading.borphInfo, Function.update_self] at pointer
          rw [← Option.some.inj pointer]
          exact loading.linked
      | delregion exit =>
          obtain ⟨-, next, last, -, rfl⟩ := borphLoadHw_eq_delregion_iff.mp ended
          obtain ⟨turn, -, s, reached, left⟩ := repeatTurns_eq_error_iff.mp last
          obtain ⟨⟨held, -, loading⟩, -⟩ := loading_of_reached reached
          have ends := turnEnds env turn loading
          rw [left] at ends
          obtain ⟨lost, takes, -⟩ := takes_of_delregion loading ends
          refine ⟨lost, takes, ?_⟩
          intro bi pointer
          rw [borphExitFpga_borphInfo] at pointer
          contradiction
      | oops => cases returned
      | stuck => cases returned

/-- Region `addr` is reserved for the task. -/
def ReservedFor (kernel : KernelState δ) (task : Task) (addr : HwrAddr) : Prop :=
  1 ≤ (kernel.hw.board.phyhwrs addr).count ∧ (kernel.hw.board.phyhwrs addr).task = some task

instance (kernel : KernelState δ) (task : Task) (addr : HwrAddr) :
    Decidable (ReservedFor kernel task addr) :=
  inferInstanceAs (Decidable (_ ∧ _))

/-- The regions that the task has a record of. -/
def listedRegions (kernel : KernelState δ) (task : Task) : List HwrAddr :=
  match kernel.borphInfo task with
  | none => []
  | some bi => (kernel.infos bi).hwRegion.map HwRegion.addr

/-- Every region that was reserved for the task is free again, or a later exit
of the task will free it. -/
def Accounted (task : Task) (before after : KernelState δ) : Prop :=
  ∀ addr, ReservedFor before task addr →
    (after.hw.board.phyhwrs addr).count = -1 ∨ addr ∈ listedRegions after task

end Reload

/-- The task has a record that lists region `addr`, which is reserved for it. -/
structure OwnsRegion {δ : Type} (kernel : KernelState δ) (task : Task) (addr : HwrAddr) :
    Prop where
  listed : addr ∈ listedRegions kernel task
  reserved : ReservedFor kernel task addr

/-- Whatever the file, a load that returns to a task that already owns a region
leaves this region reserved and listed nowhere. -/
theorem borphLoadHw_orphans {δ ε : Type} (platform : Platform δ ε) (item : ExecqItem)
    (env : LoadEnv ε) (kernel : KernelState δ) (addr : HwrAddr)
    (owns : OwnsRegion kernel item.task addr) (retval : ℤ)
    (returned : (borphLoadHw platform.drivers item env kernel).1.result = some retval) :
    ¬ Accounted item.task kernel (borphLoadHw platform.drivers item env kernel).2 := by
  intro accounted
  obtain ⟨taken, takes, lists⟩ := borphLoadHw_takes returned
  have used := owns.reserved.1
  -- The load takes regions that were free, so this one is not among them.
  have fresh : addr ∉ taken := by
    intro mem
    rw [(takes.free addr mem).2] at used
    contradiction
  rcases accounted addr owns.reserved with free | listed
  · rw [← takes.others addr fresh, free] at used
    contradiction
  · unfold listedRegions at listed
    split at listed
    · contradiction
    · next pointer =>
      rw [lists _ pointer] at listed
      exact fresh listed

theorem ownedKernel_ownsRegion : OwnsRegion ownedKernel 1 rhinoAddr :=
  ⟨by decide +kernel, by decide +kernel⟩

/-- Task 1 runs a file of one region and loads it again. -/
theorem borphLoadHw_orphans_own_fpga :
    OwnsRegion ownedKernel 1 rhinoAddr ∧
      ¬ Accounted 1 ownedKernel (borphLoadHw rhinoPlatform.drivers
        (sampleItem 1 1 loneRegion [0xaa]) (calmLoad smoothConfig) ownedKernel).2 :=
  ⟨ownedKernel_ownsRegion, borphLoadHw_orphans rhinoPlatform (sampleItem 1 1 loneRegion [0xaa])
    (calmLoad smoothConfig) ownedKernel rhinoAddr ownedKernel_ownsRegion (-ebusy)
    (by decide +kernel)⟩

/-- The second load finds the FPGA taken by the first, and its teardown clears
the pointer that led to it. -/
theorem fpga_lost_by_second_load :
    let again := borphLoadHw rhinoPlatform.drivers (sampleItem 1 1 loneRegion [0xaa])
      (calmLoad smoothConfig) ownedKernel
    OwnsRegion ownedKernel 1 rhinoAddr ∧ again.1.result = some (-ebusy) ∧
      again.2.borphInfo 1 = none ∧ (again.2.hw.board.phyhwrs rhinoAddr).count = 1 ∧
      ¬ Accounted 1 ownedKernel again.2 := by
  refine ⟨ownedKernel_ownsRegion, by decide +kernel, by decide +kernel, by decide +kernel, ?_⟩
  intro accounted
  have fate := accounted rhinoAddr ownedKernel_ownsRegion.reserved
  revert fate
  decide +kernel

end Rhino.Loader
