import Rhino.Loader.Stages

/-!
# The invariant of the region loop

`Tracks` compares the registry with what it was before the load: which regions
have been taken since, and that no other use count has moved.  `Loading` adds
the books of the loader, that is, which of the taken regions are linked into
the new `borph_info` and which are active.  The teardown returns the regions
that are linked and no others.

`TurnEnds` sums up one turn of the loop in these terms.
-/

namespace Rhino.Loader

open Rhino.Bof Rhino.Bytes Rhino.Hwr Rhino.Kernel Rhino.Transition

variable {δ ε : Type}

section Tracks

variable (platform : Platform δ ε)

/-- Since `before` the regions `taken` have gone from free to reserved, and no
other use count has changed. -/
structure Tracks (before now : HwState δ) (taken : List HwrAddr) : Prop where
  hwrtypes : now.hwrtypes = before.hwrtypes
  nodup : taken.Nodup
  free : ∀ addr ∈ taken, platform.Free before addr
  reserved : ∀ addr ∈ taken, (now.board.phyhwrs addr).count = 1
  others : ∀ addr, addr ∉ taken →
    (now.board.phyhwrs addr).count = (before.board.phyhwrs addr).count

theorem lookup_eq_of_hwrtypes_eq {before now : HwState δ}
    (same : now.hwrtypes = before.hwrtypes) (addr : HwrAddr) :
    now.lookup addr = before.lookup addr := by
  simp only [HwState.lookup, same]

theorem present_iff_of_hwrtypes_eq {before now : HwState δ}
    (same : now.hwrtypes = before.hwrtypes) (addr : HwrAddr) :
    platform.Present now addr ↔ platform.Present before addr := by
  simp only [Platform.Present, lookup_eq_of_hwrtypes_eq same]

namespace Tracks

variable {platform} {before now : HwState δ} {taken : List HwrAddr}

theorem nil (hw : HwState δ) : Tracks platform hw hw [] :=
  ⟨rfl, List.nodup_nil, by simp, by simp, by simp⟩

theorem present (tracks : Tracks platform before now taken) {addr : HwrAddr}
    (mem : addr ∈ taken) : platform.Present now addr :=
  (present_iff_of_hwrtypes_eq platform tracks.hwrtypes addr).mpr (tracks.free addr mem).1

/-- Only use counts matter. -/
theorem congr (tracks : Tracks platform before now taken) {next : HwState δ}
    (hwrtypes : next.hwrtypes = now.hwrtypes)
    (counts : ∀ addr, (next.board.phyhwrs addr).count = (now.board.phyhwrs addr).count) :
    Tracks platform before next taken where
  hwrtypes := hwrtypes.trans tracks.hwrtypes
  nodup := tracks.nodup
  free := tracks.free
  reserved addr mem := (counts addr).trans (tracks.reserved addr mem)
  others addr notMem := (counts addr).trans (tracks.others addr notMem)

theorem perm (tracks : Tracks platform before now taken) {other : List HwrAddr}
    (perm : taken.Perm other) : Tracks platform before now other where
  hwrtypes := tracks.hwrtypes
  nodup := perm.nodup_iff.mp tracks.nodup
  free addr mem := tracks.free addr (perm.mem_iff.mpr mem)
  reserved addr mem := tracks.reserved addr (perm.mem_iff.mpr mem)
  others addr notMem := tracks.others addr (mt perm.mem_iff.mp notMem)

/-- A region that is free now has not been taken. -/
theorem not_mem_of_free (tracks : Tracks platform before now taken) {addr : HwrAddr}
    (free : platform.Free now addr) : addr ∉ taken := by
  intro mem
  have one := tracks.reserved addr mem
  rw [free.2] at one
  contradiction

theorem claim (tracks : Tracks platform before now taken) {addr : HwrAddr}
    (free : platform.Free now addr) (task : Task) :
    Tracks platform before (claimed now addr task) (addr :: taken) := by
  have fresh := tracks.not_mem_of_free free
  refine ⟨tracks.hwrtypes, List.nodup_cons.mpr ⟨fresh, tracks.nodup⟩, ?_, ?_, ?_⟩
  · intro other mem
    rcases List.mem_cons.mp mem with rfl | mem
    · refine ⟨(present_iff_of_hwrtypes_eq platform tracks.hwrtypes other).mp free.1, ?_⟩
      exact (tracks.others other fresh).symm.trans free.2
    · exact tracks.free other mem
  · intro other mem
    rcases List.mem_cons.mp mem with rfl | mem
    · simp [claimed, HwState.setHwr, HwState.withBoard]
    · have ne : other ≠ addr := ne_of_mem_of_not_mem mem fresh
      simp only [claimed, HwState.setHwr, HwState.withBoard, Board.setHwr_other _ _ ne]
      exact tracks.reserved other mem
  · intro other notMem
    rw [List.mem_cons, not_or] at notMem
    simp only [claimed, HwState.setHwr, HwState.withBoard, Board.setHwr_other _ _ notMem.1]
    exact tracks.others other notMem.2

/-- Raising the use count of a hwrtype on both sides. -/
theorem setCount (tracks : Tracks platform before now taken) (cls : UInt16) (count : ℤ) :
    Tracks platform (before.setCount cls count) (now.setCount cls count) taken where
  hwrtypes := by simp only [HwState.setCount, tracks.hwrtypes]
  nodup := tracks.nodup
  free other mem := by
    obtain ⟨⟨registered, inside⟩, free⟩ := tracks.free other mem
    refine ⟨⟨?_, inside⟩, free⟩
    by_cases same : other.cls = cls
    · have small : ¬ MAX_HWRTYPES ≤ other.cls := by
        intro large
        simp [HwState.lookup, large] at registered
      simp [HwState.lookup, HwState.setCount, same ▸ small, same]
    · simpa [HwState.lookup, HwState.setCount, Function.update_of_ne same] using registered
  reserved := tracks.reserved
  others := tracks.others

end Tracks

/-! ## The teardown -/

/-- The call of `unconfigure` on a platform. -/
def cleared (hw : HwState δ) (addr : HwrAddr) : HwState δ :=
  unconfigureRegion addr (some (platform.drivers addr.cls).ops) hw

theorem cleared_hwrtypes (hw : HwState δ) (addr : HwrAddr) :
    (cleared platform hw addr).hwrtypes = hw.hwrtypes := by
  simp only [cleared, unconfigureRegion]
  split <;> rfl

theorem cleared_phyhwrs (hw : HwState δ) (addr : HwrAddr) :
    (cleared platform hw addr).board.phyhwrs = hw.board.phyhwrs := by
  simp only [cleared, unconfigureRegion, Option.bind_some]
  cases op : (platform.drivers addr.cls).ops.unconfigure with
  | none => rfl
  | some run => exact (platform.lawful addr.cls).unconfigure run op addr hw.board

theorem cleared_setCount (hw : HwState δ) (addr : HwrAddr) (cls : UInt16) (count : ℤ) :
    cleared platform (hw.setCount cls count) addr =
      (cleared platform hw addr).setCount cls count := by
  simp only [cleared, unconfigureRegion]
  split <;> rfl

/-- The use count that `get_hwrops` raises for the call is dropped again. -/
theorem putHwrops_unconfigureRegion {hw : HwState δ} {addr : HwrAddr}
    (present : platform.Present hw addr) :
    putHwrops addr (unconfigureRegion addr (getHwrops platform.drivers addr hw).1
      (getHwrops platform.drivers addr hw).2) = cleared platform hw addr := by
  obtain ⟨ht, found⟩ := Option.isSome_iff_exists.mp present.1
  have still_found : (cleared platform hw addr).lookup addr = some ht := by
    rw [lookup_eq_of_hwrtypes_eq (cleared_hwrtypes platform hw addr), found]
  have got : getHwrops platform.drivers addr hw =
      (some (platform.drivers addr.cls).ops, hw.setCount addr.cls (ht.count + 1)) := by
    simp only [getHwrops, found]
  rw [got]
  change putHwrops addr (cleared platform (hw.setCount addr.cls (ht.count + 1)) addr) = _
  rw [cleared_setCount]
  exact putHwrops_setCount still_found _

/-- The teardown of a reserved region switches it off, lets the driver clear it
and frees its record. -/
theorem exitRegion_eq {hw : HwState δ} {region : HwRegion}
    (present : platform.Present hw region.addr)
    (reserved : (hw.board.phyhwrs region.addr).count = 1) :
    exitRegion platform.drivers hw region =
      (cleared platform (hw.setHwr region.addr
        { hw.board.phyhwrs region.addr with active := 0 }) region.addr).setHwr
          region.addr ⟨-1, 0, none⟩ := by
  have used : (hw.board.phyhwrs region.addr).count ≠ 0 := by
    rw [reserved]
    decide
  have off : hwrDeactivate platform.drivers region.addr hw = _ :=
    setActive_eq platform present used 0
  have idle_record : ((hw.setHwr region.addr
      { hw.board.phyhwrs region.addr with active := 0 }).board.phyhwrs region.addr).put =
        ⟨-1, 0, none⟩ := by
    simp [HwState.setHwr, HwState.withBoard, PhyHwr.put, reserved]
  have idle_present : platform.Present (hw.setHwr region.addr
      { hw.board.phyhwrs region.addr with active := 0 }) region.addr := present
  generalize hw.setHwr region.addr
    { hw.board.phyhwrs region.addr with active := 0 } = idle at *
  have still_present := (present_iff_of_hwrtypes_eq platform
    (cleared_hwrtypes platform idle region.addr) region.addr).mpr idle_present
  calc exitRegion platform.drivers hw region
    _ = releaseHwr platform.drivers region.addr (putHwrops region.addr
          (unconfigureRegion region.addr (getHwrops platform.drivers region.addr idle).1
            (getHwrops platform.drivers region.addr idle).2)) := by
        simp only [exitRegion, off]
    _ = releaseHwr platform.drivers region.addr (cleared platform idle region.addr) := by
        rw [putHwrops_unconfigureRegion platform idle_present]
    _ = (cleared platform idle region.addr).setHwr region.addr ⟨-1, 0, none⟩ := by
        rw [releaseHwr_eq platform still_present, cleared_phyhwrs, idle_record]

namespace Tracks

variable {platform} {before now : HwState δ} {taken : List HwrAddr}

theorem exitRegion {region : HwRegion}
    (tracks : Tracks platform before now (region.addr :: taken)) :
    Tracks platform before (exitRegion platform.drivers now region) taken := by
  have head : region.addr ∈ region.addr :: taken := List.mem_cons_self
  have fresh := (List.nodup_cons.mp tracks.nodup).1
  rw [exitRegion_eq platform (tracks.present head) (tracks.reserved _ head)]
  have same (addr : HwrAddr) (ne : addr ≠ region.addr) :
      (((cleared platform (now.setHwr region.addr
        { now.board.phyhwrs region.addr with active := 0 }) region.addr).setHwr
          region.addr ⟨-1, 0, none⟩).board.phyhwrs addr) = now.board.phyhwrs addr := by
    simp only [HwState.setHwr, HwState.withBoard, Board.setHwr_other _ _ ne, cleared_phyhwrs]
  refine ⟨?_, (List.nodup_cons.mp tracks.nodup).2, ?_, ?_, ?_⟩
  · exact (cleared_hwrtypes platform _ region.addr).trans tracks.hwrtypes
  · intro addr mem
    exact tracks.free addr (List.mem_cons_of_mem _ mem)
  · intro addr mem
    rw [same addr (ne_of_mem_of_not_mem mem fresh)]
    exact tracks.reserved addr (List.mem_cons_of_mem _ mem)
  · intro addr notMem
    by_cases this : addr = region.addr
    · subst this
      simpa [HwState.setHwr, HwState.withBoard] using (tracks.free _ head).2.symm
    · rw [same addr this]
      apply tracks.others addr
      rw [List.mem_cons, not_or]
      exact ⟨this, notMem⟩

/-- The teardown returns the regions it is given. -/
theorem exitRegions {regions : List HwRegion}
    (tracks : Tracks platform before now (regions.map HwRegion.addr ++ taken)) :
    Tracks platform before (regions.foldl (Loader.exitRegion platform.drivers) now) taken := by
  induction regions generalizing now with
  | nil => exact tracks
  | cons region rest ih => exact ih tracks.exitRegion

end Tracks

end Tracks

/-! ## The books of the loader -/

section Loading

variable (platform : Platform δ ε) (item : ExecqItem) (kernel : KernelState δ)

/-- Of the regions `held` since the start of the load, those in `linked` are in
the new `borph_info` and those in `running` are active. -/
structure Loading (held linked running : List HwrAddr) (now : KernelState δ) : Prop where
  tracks : Tracks platform kernel.hw now.hw held
  linked : (now.infos kernel.nextInfo).hwRegion.map HwRegion.addr = linked
  running : ∀ addr ∈ running, (now.hw.board.phyhwrs addr).active = 1
  borphInfo : now.borphInfo =
    Function.update kernel.borphInfo item.task (some kernel.nextInfo)
  others : ∀ bi, bi ≠ kernel.nextInfo → now.infos bi = kernel.infos bi
  nextInfo : now.nextInfo = kernel.nextInfo + 1
  freed : now.freed = kernel.freed

variable {platform item kernel} {held : List HwrAddr}

theorem Loading.start (env : LoadEnv ε) :
    Loading platform item kernel [] [] [] (loadStart item env kernel).kernel where
  tracks := Tracks.nil kernel.hw
  linked := by simp [loadStart, BorphInfo.fresh]
  running := by simp
  borphInfo := rfl
  others bi ne := by simp [loadStart, ne]
  nextInfo := rfl
  freed := rfl

/-- A region has been reserved and is not linked yet. -/
theorem Loading.claim {now : KernelState δ}
    (loading : Loading platform item kernel held held held now)
    {addr : HwrAddr} (free : platform.Free now.hw addr) :
    Loading platform item kernel (addr :: held) held held
      { now with hw := claimed now.hw addr item.task } where
  tracks := loading.tracks.claim free item.task
  linked := loading.linked
  running other mem := by
    have ne : other ≠ addr :=
      ne_of_mem_of_not_mem mem (loading.tracks.not_mem_of_free free)
    simpa [claimed, HwState.setHwr, HwState.withBoard, ne] using loading.running other mem
  borphInfo := loading.borphInfo
  others := loading.others
  nextInfo := loading.nextInfo
  freed := loading.freed

theorem Loading.declare {s next : LoadState δ}
    (loading : Loading platform item kernel (s.hwrhdr.addr :: held) held held s.kernel)
    (declared : Declared kernel.nextInfo s next) :
    Loading platform item kernel (s.hwrhdr.addr :: held) (s.hwrhdr.addr :: held) held
      next.kernel := by
  obtain ⟨strtab, regs, kernel_eq⟩ := declared.kernel
  rw [kernel_eq]
  exact
    { tracks := loading.tracks
      linked := by simp [KernelState.modifyInfo, loading.linked]
      running := loading.running
      borphInfo := loading.borphInfo
      others := by
        intro bi ne
        simpa [KernelState.modifyInfo, ne] using loading.others bi ne
      nextInfo := loading.nextInfo
      freed := loading.freed }

/-- A driver has worked on the board. -/
theorem Loading.configure {linked running : List HwrAddr} {now : KernelState δ}
    (loading : Loading platform item kernel held linked running now) (addr : HwrAddr)
    {board : Board δ} (records : board.phyhwrs = now.hw.board.phyhwrs) :
    Loading platform item kernel held linked running
      { now with hw := configured now.hw addr board } where
  tracks := loading.tracks.congr rfl fun other => by rw [configured, records]
  linked := loading.linked
  running other mem := by
    simpa only [configured, records] using loading.running other mem
  borphInfo := loading.borphInfo
  others := loading.others
  nextInfo := loading.nextInfo
  freed := loading.freed

/-- The region at the head has been activated. -/
theorem Loading.activate {addr : HwrAddr} {linked : List HwrAddr} {now : KernelState δ}
    (loading : Loading platform item kernel (addr :: held) linked held now) :
    Loading platform item kernel (addr :: held) linked (addr :: held)
      { now with hw := activated now.hw addr } where
  tracks := by
    refine loading.tracks.congr rfl ?_
    intro other
    by_cases this : other = addr
    · subst this
      simp [activated, HwState.setHwr, HwState.withBoard]
    · simp [activated, HwState.setHwr, HwState.withBoard, this]
  linked := loading.linked
  running other mem := by
    by_cases this : other = addr
    · subst this
      simp [activated, HwState.setHwr, HwState.withBoard]
    · have mem : other ∈ held := (List.mem_cons.mp mem).resolve_left this
      simpa [activated, HwState.setHwr, HwState.withBoard, this] using loading.running other mem
  borphInfo := loading.borphInfo
  others := loading.others
  nextInfo := loading.nextInfo
  freed := loading.freed

/-- Raising the use count of a hwrtype on both sides. -/
theorem Loading.setCount {linked running : List HwrAddr} {now : KernelState δ}
    (loading : Loading platform item kernel held linked running now) (cls : UInt16) (count : ℤ) :
    Loading platform item { kernel with hw := kernel.hw.setCount cls count } held linked running
      { now with hw := now.hw.setCount cls count } :=
  { loading with tracks := loading.tracks.setCount cls count }

/-- What the teardown makes of a load: the task has no record any more, the
linked regions are free, and what was held besides is still taken. -/
theorem Loading.exitFpga {linked running rest : List HwrAddr} {now : KernelState δ}
    (loading : Loading platform item kernel held linked running now)
    (split : held.Perm (linked ++ rest)) :
    Tracks platform kernel.hw (borphExitFpga platform.drivers item.task now).hw rest ∧
      (borphExitFpga platform.drivers item.task now).borphInfo =
        Function.update kernel.borphInfo item.task none := by
  have pointer : now.borphInfo item.task = some kernel.nextInfo := by
    rw [loading.borphInfo, Function.update_self]
  have tracks := loading.tracks.perm split
  rw [← loading.linked] at tracks
  simp only [borphExitFpga, pointer]
  refine ⟨tracks.exitRegions, ?_⟩
  rw [loading.borphInfo, Function.update_idem]

end Loading

end Rhino.Loader
