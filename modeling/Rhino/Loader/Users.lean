import Rhino.Loader.Invariant
import Rhino.Transition.Run

/-!
# Users of a hwrtype

`get_hwrops` counts a user of the hwrtype and `put_hwrops` takes it off again.  The
loader and the unloader do both for every region, whatever the driver does; the loader
leaves one user behind when the hwrtype has no `configure`.
-/

namespace Rhino.Loader

open Rhino.Bof Rhino.Bytes Rhino.Hwr Rhino.Kernel Rhino.Transition

variable {δ ε : Type} (drivers : UInt16 → HwrDriver δ ε)

/-! ## The registry -/

theorem putHwrops_hwrtypes_congr {addr : HwrAddr} {first second : HwState δ}
    (same : first.hwrtypes = second.hwrtypes) :
    (putHwrops addr first).hwrtypes = (putHwrops addr second).hwrtypes := by
  rw [putHwrops, putHwrops, lookup_eq_of_hwrtypes_eq same]
  cases second.lookup addr with
  | none => exact same
  | some ht => simp only [HwState.setCount, same]

/-- A `put_hwrops` undoes a `get_hwrops` if the table has not changed since. -/
theorem putHwrops_undoes {addr : HwrAddr} {hw later : HwState δ}
    (same : later.hwrtypes = (getHwrops drivers addr hw).2.hwrtypes) :
    (putHwrops addr later).hwrtypes = hw.hwrtypes := by
  rw [putHwrops_hwrtypes_congr same, getHwrops]
  cases found : hw.lookup addr with
  | none =>
      dsimp only
      rw [putHwrops, found]
  | some ht => exact congrArg HwState.hwrtypes (putHwrops_setCount found hw.board)

theorem reserveHwr_hwrtypes (addr : HwrAddr) (hw : HwState δ) :
    (reserveHwr drivers addr hw).2.hwrtypes = hw.hwrtypes := by
  have undone := fun board => @putHwrops_undoes _ _ drivers addr hw
    ((getHwrops drivers addr hw).2.withBoard board) rfl
  unfold reserveHwr getHwrops at *
  cases found : hw.lookup addr with
  | none => rfl
  | some ht =>
      simp only [found] at undone
      exact undone _

theorem releaseHwr_hwrtypes (addr : HwrAddr) (hw : HwState δ) :
    (releaseHwr drivers addr hw).hwrtypes = hw.hwrtypes := by
  have undone := fun board => @putHwrops_undoes _ _ drivers addr hw
    ((getHwrops drivers addr hw).2.withBoard board) rfl
  unfold releaseHwr getHwrops at *
  cases found : hw.lookup addr with
  | none => rfl
  | some ht =>
      simp only [found] at undone
      exact undone _

/-- What is reserved belongs to a registered hwrtype. -/
theorem registered_of_reserveHwr {addr hwr : HwrAddr} {hw : HwState δ}
    (reserved : (reserveHwr drivers addr hw).1 = some hwr) : (hw.lookup addr).isSome := by
  unfold reserveHwr getHwrops at reserved
  cases found : hw.lookup addr with
  | none => simp [found] at reserved
  | some ht => rfl

theorem putHwr_hwrtypes (addr : HwrAddr) (hw : HwState δ) :
    (putHwr drivers addr hw).hwrtypes = hw.hwrtypes := by
  unfold putHwr
  split
  · rfl
  · split
    · rfl
    · rfl

theorem setActive_hwrtypes (active : ℤ) (addr : HwrAddr) (hw : HwState δ) :
    (setActive drivers active addr hw).hwrtypes = hw.hwrtypes := by
  unfold setActive getHwr
  cases hw.lookup addr with
  | none => rfl
  | some ht =>
      by_cases outside : (drivers addr.cls).numDevs ≤ addr.addr.toNat
      · simp only [if_pos outside]
      · simp only [if_neg outside]
        exact putHwr_hwrtypes drivers addr _

/-! ## Unloading -/

theorem unconfigureRegion_hwrtypes (addr : HwrAddr) (ops : Option (HwrOperations δ ε))
    (hw : HwState δ) : (unconfigureRegion addr ops hw).hwrtypes = hw.hwrtypes := by
  unfold unconfigureRegion
  split
  · rfl
  · rfl

theorem exitRegion_hwrtypes (hw : HwState δ) (region : HwRegion) :
    (exitRegion drivers hw region).hwrtypes = hw.hwrtypes := by
  simp only [exitRegion]
  rw [releaseHwr_hwrtypes, putHwrops_undoes drivers (unconfigureRegion_hwrtypes _ _ _)]
  exact setActive_hwrtypes drivers 0 region.addr hw

theorem borphExitFpga_hwrtypes (task : Task) (kernel : KernelState δ) :
    (borphExitFpga drivers task kernel).hw.hwrtypes = kernel.hw.hwrtypes := by
  unfold borphExitFpga
  cases kernel.borphInfo task with
  | none => rfl
  | some bi =>
      apply foldl_invariant (exitRegion drivers) (fun hw => hw.hwrtypes = kernel.hw.hwrtypes)
      · intro hw region same
        rw [exitRegion_hwrtypes, same]
      · rfl

/-! ## Loading -/

/-- The state in which a stage of the loader ends, be it left or not. -/
def endOf : Except (Halt δ) (LoadState δ) → LoadState δ
  | .ok s => s
  | .error halt => halt.state

theorem tryAddrs_users (addr : HwrAddr) (hw : HwState δ) (candidates : List UInt16) :
    (tryAddrs drivers addr hw candidates).2.2.hwrtypes = hw.hwrtypes ∧
      ((tryAddrs drivers addr hw candidates).1.isSome →
        (hw.lookup (tryAddrs drivers addr hw candidates).2.1).isSome) := by
  induction candidates generalizing addr hw with
  | nil => exact ⟨rfl, fun found => nomatch found⟩
  | cons i rest ih =>
      have kept := reserveHwr_hwrtypes drivers { addr with addr := i } hw
      simp only [tryAddrs]
      split
      next hwr after reserved =>
        rw [reserved] at kept
        have registered := registered_of_reserveHwr drivers (congrArg Prod.fst reserved)
        exact ⟨kept, fun _ => registered⟩
      next after busy =>
        rw [busy] at kept
        rcases ih { addr with addr := i } after with ⟨same, registered⟩
        refine ⟨same.trans kept, fun found => ?_⟩
        rw [← lookup_eq_of_hwrtypes_eq kept]
        exact registered found

theorem bprNextfree_users (addr : HwrAddr) (hw : HwState δ) :
    (bprNextfree drivers addr hw).2.2.hwrtypes = hw.hwrtypes ∧
      ((bprNextfree drivers addr hw).1.isSome →
        (hw.lookup (bprNextfree drivers addr hw).2.1).isSome) := by
  unfold bprNextfree
  split
  · exact ⟨rfl, fun found => nomatch found⟩
  · exact tryAddrs_users drivers addr hw _

/-- A reservation leaves the counts alone, and finds a registered hwrtype if it
succeeds. -/
theorem reserveRegion_users (task : Task) (s : LoadState δ) :
    (endOf (reserveRegion drivers task s)).kernel.hw.hwrtypes = s.kernel.hw.hwrtypes ∧
      ∀ next, reserveRegion drivers task s = .ok next →
        (s.kernel.hw.lookup next.hwrhdr.addr).isSome := by
  unfold reserveRegion
  by_cases placed : s.hwrhdr.flag &&& HFG_PLACED ≠ 0
  · have kept := reserveHwr_hwrtypes drivers s.hwrhdr.addr s.kernel.hw
    simp only [if_pos placed]
    cases reserved : (reserveHwr drivers s.hwrhdr.addr s.kernel.hw).1 with
    | none => exact ⟨kept, fun next ok => nomatch ok⟩
    | some hwr =>
        refine ⟨kept, fun next ok => ?_⟩
        cases ok
        exact registered_of_reserveHwr drivers reserved
  · have found := bprNextfree_users drivers s.hwrhdr.addr s.kernel.hw
    simp only [if_neg placed]
    cases reserved : (bprNextfree drivers s.hwrhdr.addr s.kernel.hw).1 with
    | none => exact ⟨found.1, fun next ok => nomatch ok⟩
    | some hwr =>
        refine ⟨found.1, fun next ok => ?_⟩
        cases ok
        exact found.2 (Option.isSome_iff_exists.mpr ⟨hwr, reserved⟩)

/-- The first part of a turn leaves the counts alone. -/
theorem prepareRegion_users (item : ExecqItem) (env : RegionEnv ε) (s : LoadState δ) :
    (endOf (prepareRegion drivers item env s)).kernel.hw.hwrtypes = s.kernel.hw.hwrtypes ∧
      ∀ next, prepareRegion drivers item env s = .ok next →
        (s.kernel.hw.lookup next.hwrhdr.addr).isSome := by
  rcases readHwrhdr_cases item.bprm.file env s with
    ⟨-, failed⟩ | ⟨-, next, failed, kernel_eq, -⟩ | ⟨-, next, ok, kernel_eq⟩
  · have ended : prepareRegion drivers item env s = .error ⟨.delregion .badOffset, s⟩ := by
      rw [prepareRegion, failed]
      rfl
    rw [ended]
    refine ⟨rfl, ?_⟩
    intro next ok
    cases ok
  · have ended : prepareRegion drivers item env s = .error ⟨.delregion .readHwrhdr, next⟩ := by
      rw [prepareRegion, failed]
      rfl
    rw [ended]
    refine ⟨congrArg (·.hw.hwrtypes) kernel_eq, ?_⟩
    intro next ok
    cases ok
  · have rest : prepareRegion drivers item env s = reserveRegion drivers item.task next := by
      rw [prepareRegion, ok]
      rfl
    rw [rest, ← kernel_eq]
    exact reserveRegion_users drivers item.task next

theorem Declared.hw {bi : ℕ} {s next : LoadState δ} (declared : Declared bi s next) :
    next.kernel.hw = s.kernel.hw := by
  rcases declared.kernel with ⟨strtab, regs, kernel_eq⟩
  rw [kernel_eq]
  rfl

/-- The second part does not touch the hardware. -/
theorem declareRegion_users (item : ExecqItem) (env : RegionEnv ε) (bi : ℕ) (s : LoadState δ) :
    (endOf (declareRegion item env bi s)).kernel.hw = s.kernel.hw := by
  rcases declareRegion_cases item env bi s with
    ⟨-, _, next, ended, kernel_eq, -⟩ | ⟨-, -, next, ended, kernel_eq | declared⟩ |
    ⟨-, -, _, next, ended, declared, -⟩ | ⟨-, -, next, ended, declared⟩
  · rw [ended]
    exact congrArg (·.hw) kernel_eq
  · rw [ended]
    exact congrArg (·.hw) kernel_eq
  · rw [ended]
    exact declared.hw
  · rw [ended]
    exact declared.hw
  · rw [ended]
    exact declared.hw

/-- A configuration that returns leaves the counts alone, but for a hwrtype without
`configure`, whose count is raised. -/
theorem configureRegion_users {file : File} {env : RegionEnv ε} {s : LoadState δ} {ht : HwrType}
    (registered : s.kernel.hw.lookup s.hwrhdr.addr = some ht) :
    ((drivers s.hwrhdr.addr.cls).ops.configure = none ∧ ∃ next,
      configureRegion drivers file env s = .error ⟨.delregion .noHwrops, next⟩ ∧
      next.kernel.hw = s.kernel.hw.setCount s.hwrhdr.addr.cls (ht.count + 1)) ∨
    ((drivers s.hwrhdr.addr.cls).ops.configure ≠ none ∧
      ((∃ next, configureRegion drivers file env s = .error ⟨.stuck, next⟩) ∨
        (endOf (configureRegion drivers file env s)).kernel.hw.hwrtypes =
          s.kernel.hw.hwrtypes)) := by
  have got : getHwrops drivers s.hwrhdr.addr s.kernel.hw =
      (some (drivers s.hwrhdr.addr.cls).ops,
        s.kernel.hw.setCount s.hwrhdr.addr.cls (ht.count + 1)) := by
    rw [getHwrops, registered]
  cases configure : (drivers s.hwrhdr.addr.cls).ops.configure with
  | none =>
      refine Or.inl ⟨rfl, { s with
        retval := -enoexec
        kernel := { s.kernel with
          hw := s.kernel.hw.setCount s.hwrhdr.addr.cls (ht.count + 1) } }, ?_, rfl⟩
      simp only [configureRegion, got, Option.bind_some, configure]
  | some run =>
      refine Or.inr ⟨Option.some_ne_none run, ?_⟩
      simp only [configureRegion, got, Option.bind_some, configure]
      split
      · exact Or.inl ⟨_, rfl⟩
      next retval returned =>
        right
        have undone (later : HwState δ)
            (same : later.hwrtypes =
              (s.kernel.hw.setCount s.hwrhdr.addr.cls (ht.count + 1)).hwrtypes) :
            (putHwrops s.hwrhdr.addr later).hwrtypes = s.kernel.hw.hwrtypes := by
          apply putHwrops_undoes drivers
          rw [same, got]
        split
        · exact undone _ rfl
        · exact (setActive_hwrtypes drivers 1 _ _).trans (undone _ rfl)

/-! ## One turn -/

/-- The turn comes to the configuration of a region whose hwrtype has no `configure`. -/
def Unconfigurable (item : ExecqItem) (env : LoadEnv ε) (bi turn : ℕ) (s : LoadState δ) : Prop :=
  ∃ r d, prepareRegion drivers item (env.region turn) s = .ok r ∧
    declareRegion item (env.region turn) bi r = .ok d ∧
    (drivers d.hwrhdr.addr.cls).ops.configure = none

/-- A turn that is not stuck leaves the counts alone, or it comes to such a region and
raises the count of its hwrtype. -/
theorem loadRegion_users (item : ExecqItem) (env : LoadEnv ε) (bi turn : ℕ) (s : LoadState δ) :
    (Unconfigurable drivers item env bi turn s ∧ ∃ cls ht next,
      s.kernel.hw.hwrtypes cls = some ht ∧
      loadRegion drivers item env bi turn s = .error ⟨.delregion .noHwrops, next⟩ ∧
      next.kernel.hw.hwrtypes =
        Function.update s.kernel.hw.hwrtypes cls (some ⟨ht.count + 1⟩)) ∨
    (¬ Unconfigurable drivers item env bi turn s ∧
      ((∃ next, loadRegion drivers item env bi turn s = .error ⟨.stuck, next⟩) ∨
        (endOf (loadRegion drivers item env bi turn s)).kernel.hw.hwrtypes =
          s.kernel.hw.hwrtypes)) := by
  rcases prepareRegion_users drivers item (env.region turn) s with ⟨kept, registers⟩
  cases prepared : prepareRegion drivers item (env.region turn) s with
  | error halt =>
      have ended : loadRegion drivers item env bi turn s = .error halt := by
        rw [loadRegion, prepared]
        rfl
      rw [prepared] at kept
      refine Or.inr ⟨?_, Or.inr ?_⟩
      · rintro ⟨r, d, ok, -⟩
        cases prepared.symm.trans ok
      · rw [ended]
        exact kept
  | ok r =>
      have registered := registers r prepared
      rw [prepared] at kept
      have untouched := declareRegion_users item (env.region turn) bi r
      cases declares : declareRegion item (env.region turn) bi r with
      | error halt =>
          have ended : loadRegion drivers item env bi turn s = .error halt := by
            rw [loadRegion, prepared]
            simp only [bind, Except.bind, declares]
          rw [declares] at untouched
          refine Or.inr ⟨?_, Or.inr ?_⟩
          · rintro ⟨_, d, ok, declared, -⟩
            cases prepared.symm.trans ok
            cases declares.symm.trans declared
          · rw [ended]
            exact (congrArg HwState.hwrtypes untouched).trans kept
      | ok d =>
          have rest : loadRegion drivers item env bi turn s =
              configureRegion drivers item.bprm.file (env.region turn) d := by
            rw [loadRegion, prepared]
            simp only [bind, Except.bind, declares]
          rw [declares] at untouched
          have users : d.kernel.hw.hwrtypes = s.kernel.hw.hwrtypes :=
            (congrArg HwState.hwrtypes untouched).trans kept
          rcases (declared_of_ok declares).hwrhdr with ⟨left, hwrhdr_eq⟩
          have same : d.hwrhdr.addr = r.hwrhdr.addr := by rw [hwrhdr_eq]
          rw [← same, ← lookup_eq_of_hwrtypes_eq users] at registered
          rcases Option.isSome_iff_exists.mp registered with ⟨ht, found⟩
          rw [rest]
          rcases @configureRegion_users _ _ drivers item.bprm.file (env.region turn) d ht found with
            ⟨missing, next, failed, raised⟩ | ⟨present, stuck | balanced⟩
          · refine Or.inl ⟨⟨r, d, prepared, declares, missing⟩, d.hwrhdr.addr.cls, ht, next, ?_,
              failed, ?_⟩
            · rw [← users]
              exact HwState.hwrtypes_of_lookup found
            · rw [raised, ← users]
              rfl
          · refine Or.inr ⟨?_, Or.inl stuck⟩
            rintro ⟨_, _, ok, declared, missing⟩
            cases prepared.symm.trans ok
            cases declares.symm.trans declared
            exact present missing
          · refine Or.inr ⟨?_, Or.inr (balanced.trans users)⟩
            rintro ⟨_, _, ok, declared, missing⟩
            cases prepared.symm.trans ok
            cases declares.symm.trans declared
            exact present missing

/-! ## The whole load -/

/-- A load comes to a region whose hwrtype has no `configure`. -/
def MeetsUnconfigurable (item : ExecqItem) (env : LoadEnv ε) (kernel : KernelState δ) : Prop :=
  ∃ turn < item.bprm.buf.bNumchip.toNat, ∃ s,
    loadRegions drivers item env kernel turn = .ok s ∧
      Unconfigurable drivers item env kernel.nextInfo turn s

theorem loadRegions_users {item : ExecqItem} {env : LoadEnv ε} {kernel : KernelState δ} {turn : ℕ}
    {s : LoadState δ} (reached : loadRegions drivers item env kernel turn = .ok s) :
    s.kernel.hw.hwrtypes = kernel.hw.hwrtypes := by
  apply repeatTurns_invariant (fun _ (s : LoadState δ) => s.kernel.hw.hwrtypes = kernel.hw.hwrtypes)
    rfl _ reached
  intro turn s next same taken
  rcases loadRegion_users drivers item env kernel.nextInfo turn s with
    ⟨-, _, _, _, -, failed, -⟩ | ⟨-, ⟨_, failed⟩ | balanced⟩
  · cases failed.symm.trans taken
  · cases failed.symm.trans taken
  · rw [taken] at balanced
    exact balanced.trans same

/-- Such a load is given up with one user more. -/
theorem loadRegions_of_meets {item : ExecqItem} {env : LoadEnv ε} {kernel : KernelState δ}
    (meets : MeetsUnconfigurable drivers item env kernel) :
    ∃ cls ht next, kernel.hw.hwrtypes cls = some ht ∧
      loadRegions drivers item env kernel item.bprm.buf.bNumchip.toNat =
        .error ⟨.delregion .noHwrops, next⟩ ∧
      next.kernel.hw.hwrtypes =
        Function.update kernel.hw.hwrtypes cls (some ⟨ht.count + 1⟩) := by
  rcases meets with ⟨turn, lt, s, reached, unconfigurable⟩
  have same := loadRegions_users drivers reached
  rcases loadRegion_users drivers item env kernel.nextInfo turn s with
    ⟨-, cls, ht, next, registered, failed, raised⟩ | ⟨configurable, -⟩
  · rw [same] at registered raised
    refine ⟨cls, ht, next, registered, ?_, raised⟩
    rcases turn_ok_or_last lt reached with ⟨other, ok⟩ | ⟨stop, ended, last⟩
    · cases failed.symm.trans ok
    · cases failed.symm.trans ended
      exact last
  · exact absurd unconfigurable configurable

/-- A load that returns leaves every count as it was, unless it comes to such a region. -/
theorem borphLoadHw_users_iff {item : ExecqItem} {env : LoadEnv ε} {kernel : KernelState δ}
    (returned : (borphLoadHw drivers item env kernel).1.result.isSome) :
    (borphLoadHw drivers item env kernel).2.hw.hwrtypes = kernel.hw.hwrtypes ↔
      ¬ MeetsUnconfigurable drivers item env kernel := by
  unfold borphLoadHw at returned ⊢
  cases infoMem : env.infoMem with
  | false => simp [infoMem, LoadOutcome.result] at returned
  | true =>
      simp only [infoMem, if_true] at returned ⊢
      constructor
      · intro same meets
        rcases loadRegions_of_meets drivers meets with ⟨cls, ht, next, registered, ended, raised⟩
        rw [ended] at same
        have unloaded := borphExitFpga_hwrtypes drivers item.task next.kernel
        have entry := congrFun (unloaded.symm.trans same) cls
        rw [raised, Function.update_self, registered] at entry
        have count : ht.count + 1 = ht.count := congrArg HwrType.count (Option.some.inj entry)
        omega
      · intro configurable
        cases ended : loadRegions drivers item env kernel item.bprm.buf.bNumchip.toNat with
        | ok s => exact loadRegions_users drivers ended
        | error halt =>
            rcases repeatTurns_eq_error_iff.mp ended with ⟨turn, lt, s, reached, left⟩
            have same := loadRegions_users drivers reached
            rcases loadRegion_users drivers item env kernel.nextInfo turn s with
              ⟨unconfigurable, -⟩ | ⟨-, ⟨next, stuck⟩ | balanced⟩
            · exact absurd ⟨turn, lt, s, reached, unconfigurable⟩ configurable
            · cases stuck.symm.trans left
              simp [ended, LoadOutcome.result] at returned
            · rw [left] at balanced
              rcases halt with ⟨stop, state⟩
              cases stop with
              | delregion exit =>
                  exact (borphExitFpga_hwrtypes drivers item.task state.kernel).trans
                    (balanced.trans same)
              | oops => simp [ended, LoadOutcome.result] at returned
              | stuck => simp [ended, LoadOutcome.result] at returned

end Rhino.Loader
