import Rhino.Loader.Invariant

/-!
# The turns of the region loop

`TurnEnds` lists the ways in which one turn of the loop of `borph_load_hw` can
end, with the state of the books in each of them, and `turnEnds` proves the
list complete.  `loading_of_reached` carries the invariant from turn to turn.
-/

namespace Rhino.Loader

open Rhino.Bof Rhino.Bytes Rhino.Hwr Rhino.Kernel Rhino.Transition

variable {δ ε : Type}

section Turn

variable (platform : Platform δ ε) (item : ExecqItem) (kernel : KernelState δ)

/-- The driver's `configure`, if it has one, returns. -/
def ConfigureReturns (file : File) (env : RegionEnv ε) (s : LoadState δ) : Prop :=
  ∀ run, (platform.drivers s.hwrhdr.addr.cls).ops.configure = some run →
    (run s.hwrhdr.addr file s.hwrhdr.plOff s.hwrhdr.plLen env.configure
      s.kernel.hw.board).1 ≠ none

/-- A turn gets as far as the configuration: the region is reserved and linked. -/
structure Reaches (env : RegionEnv ε) (s r d : LoadState δ) : Prop where
  offset : s.curFoff ≠ 0
  prepared : prepareRegion platform.drivers item env s = .ok r
  loads : StrtabLoads env r
  serves : MemoryServes env r
  declared : declareRegion item env kernel.nextInfo r = .ok d

/-- The ends of a turn that starts with the regions `held`, all of them linked
and active. -/
inductive TurnEnds (env : RegionEnv ε) (held : List HwrAddr) (s : LoadState δ) :
    Except (Halt δ) (LoadState δ) → Prop where
  /-- The previous header gave no further one, or the file gave none at all. -/
  | badOffset (offset : s.curFoff = 0)
      (unprepared : ∀ r, prepareRegion platform.drivers item env s ≠ .ok r) :
      TurnEnds env held s (.error ⟨.delregion .badOffset, s⟩)
  /-- The header could not be read, or no region was free for it. -/
  | unreserved {exit : LoadExit} {next : LoadState δ} (offset : s.curFoff ≠ 0)
      (unprepared : ∀ r, prepareRegion platform.drivers item env s ≠ .ok r)
      (loading : Loading platform item kernel held held held next.kernel)
      (negative : next.retval < 0) :
      TurnEnds env held s (.error ⟨.delregion exit, next⟩)
  /-- The string table could not be loaded. -/
  | unlinked {exit : LoadExit} {r next : LoadState δ} {addr : HwrAddr}
      (offset : s.curFoff ≠ 0)
      (prepared : prepareRegion platform.drivers item env s = .ok r)
      (unloaded : ¬ StrtabLoads env r)
      (undeclared : ∀ d, declareRegion item env kernel.nextInfo r ≠ .ok d)
      (loading : Loading platform item kernel (addr :: held) held held next.kernel)
      (negative : next.retval < 0) :
      TurnEnds env held s (.error ⟨.delregion exit, next⟩)
  /-- A pointer that `kmalloc` did not return was used. -/
  | oops {r next : LoadState δ} (offset : s.curFoff ≠ 0)
      (prepared : prepareRegion platform.drivers item env s = .ok r)
      (loads : StrtabLoads env r) (fails : ¬ MemoryServes env r)
      (undeclared : ∀ d, declareRegion item env kernel.nextInfo r ≠ .ok d) :
      TurnEnds env held s (.error ⟨.oops, next⟩)
  /-- A register entry could not be read. -/
  | undeclared {exit : LoadExit} {r next : LoadState δ} {addr : HwrAddr}
      (offset : s.curFoff ≠ 0)
      (prepared : prepareRegion platform.drivers item env s = .ok r)
      (loads : StrtabLoads env r) (serves : MemoryServes env r)
      (undeclared : ∀ d, declareRegion item env kernel.nextInfo r ≠ .ok d)
      (loading : Loading platform item kernel (addr :: held) (addr :: held) held next.kernel)
      (negative : next.retval < 0) :
      TurnEnds env held s (.error ⟨.delregion exit, next⟩)
  /-- The driver has no `configure`; its use count stays raised. -/
  | noHwrops {r d next : LoadState δ} {addr : HwrAddr} {cls : UInt16} {ht : HwrType}
      (reaches : Reaches platform item kernel env s r d)
      (absent : (platform.drivers d.hwrhdr.addr.cls).ops.configure = none)
      (loading : Loading platform item kernel (addr :: held) (addr :: held) held d.kernel)
      (registered : kernel.hw.hwrtypes cls = some ht)
      (raised : next.kernel = { d.kernel with hw := d.kernel.hw.setCount cls (ht.count + 1) })
      (negative : next.retval < 0) :
      TurnEnds env held s (.error ⟨.delregion .noHwrops, next⟩)
  /-- The configuration did not return. -/
  | stuck {r d next : LoadState δ} (reaches : Reaches platform item kernel env s r d)
      (present : (platform.drivers d.hwrhdr.addr.cls).ops.configure ≠ none)
      (lost : ¬ ConfigureReturns platform item.bprm.file env d) :
      TurnEnds env held s (.error ⟨.stuck, next⟩)
  /-- The configuration failed. -/
  | unconfigured {r d next : LoadState δ} {addr : HwrAddr}
      (reaches : Reaches platform item kernel env s r d)
      (present : (platform.drivers d.hwrhdr.addr.cls).ops.configure ≠ none)
      (returns : ConfigureReturns platform item.bprm.file env d)
      (loading : Loading platform item kernel (addr :: held) (addr :: held) held next.kernel)
      (negative : next.retval < 0) :
      TurnEnds env held s (.error ⟨.delregion .configure, next⟩)
  /-- The region is configured and active. -/
  | done {r d next : LoadState δ} {addr : HwrAddr}
      (reaches : Reaches platform item kernel env s r d)
      (present : (platform.drivers d.hwrhdr.addr.cls).ops.configure ≠ none)
      (returns : ConfigureReturns platform item.bprm.file env d)
      (driven : ∃ run board, (platform.drivers addr.cls).ops.configure = some run ∧
        run addr item.bprm.file d.hwrhdr.plOff d.hwrhdr.plLen env.configure
          d.kernel.hw.board = (some next.retval, board) ∧
        next.kernel.hw.board.dev = board.dev)
      (loading : Loading platform item kernel (addr :: held) (addr :: held) (addr :: held)
        next.kernel)
      (nonnegative : 0 ≤ next.retval) :
      TurnEnds env held s (.ok next)

variable {platform item kernel}

/-- The last stage of a turn, from a region that is linked. -/
theorem configureEnds {env : RegionEnv ε} {held : List HwrAddr} {s r d : LoadState δ}
    (reaches : Reaches platform item kernel env s r d)
    (loading : Loading platform item kernel (d.hwrhdr.addr :: held) (d.hwrhdr.addr :: held)
      held d.kernel) :
    TurnEnds platform item kernel env held s
      (configureRegion platform.drivers item.bprm.file env d) := by
  have head : d.hwrhdr.addr ∈ d.hwrhdr.addr :: held := List.mem_cons_self
  have present := loading.tracks.present head
  have used : (d.kernel.hw.board.phyhwrs d.hwrhdr.addr).count ≠ 0 := by
    rw [loading.tracks.reserved _ head]
    decide
  rcases configureRegion_cases platform item.bprm.file env present used with
    ⟨absent, next, ht, ended, found, negative, raised⟩ |
    ⟨run, op, result, board, ran, records, ended⟩
  · rw [ended]
    refine .noHwrops reaches absent loading ?_ raised negative
    rw [← loading.tracks.hwrtypes]
    exact HwState.hwrtypes_of_lookup found
  · have some_op : (platform.drivers d.hwrhdr.addr.cls).ops.configure ≠ none := by
      rw [op]
      exact Option.some_ne_none run
    have returns_iff : ConfigureReturns platform item.bprm.file env d ↔ result ≠ none := by
      constructor
      · intro returns
        have := returns run op
        rwa [ran] at this
      · intro returned other isOp
        obtain rfl : run = other := Option.some.inj (op.symm.trans isOp)
        rwa [ran]
    rcases ended with ⟨rfl, next, -, ended, -⟩ | ⟨retval, rfl, negative, ended⟩ |
      ⟨retval, rfl, nonnegative, ended⟩
    · rw [ended]
      refine .stuck reaches some_op ?_
      rw [returns_iff]
      exact not_not_intro rfl
    · rw [ended]
      exact .unconfigured reaches some_op (returns_iff.mpr (Option.some_ne_none _))
        (loading.configure _ records) negative
    · rw [ended]
      exact .done reaches some_op (returns_iff.mpr (Option.some_ne_none _))
        ⟨run, board, op, ran, rfl⟩ (loading.configure _ records).activate nonnegative

/-- Every turn ends in one of the ways above. -/
theorem turnEnds (env : LoadEnv ε) (turn : ℕ) {held : List HwrAddr} {s : LoadState δ}
    (loading : Loading platform item kernel held held held s.kernel) :
    TurnEnds platform item kernel (env.region turn) held s
      (loadRegion platform.drivers item env kernel.nextInfo turn s) := by
  rcases prepareRegion_cases platform item (env.region turn) s with
    ⟨offset, failed⟩ | ⟨offset, exit, next, failed, same, negative⟩ |
    ⟨offset, r, prepared, free, taken⟩
  · have ended : loadRegion platform.drivers item env kernel.nextInfo turn s =
        .error ⟨.delregion .badOffset, s⟩ := by
      rw [loadRegion, failed]
      rfl
    rw [ended]
    exact .badOffset offset (by simp [failed])
  · have ended : loadRegion platform.drivers item env kernel.nextInfo turn s =
        .error ⟨.delregion exit, next⟩ := by
      rw [loadRegion, failed]
      rfl
    rw [ended]
    exact .unreserved offset (by simp [failed]) (same ▸ loading) negative
  · have claim : Loading platform item kernel (r.hwrhdr.addr :: held) held held r.kernel := by
      rw [taken]
      exact loading.claim free
    have rest : loadRegion platform.drivers item env kernel.nextInfo turn s =
        (declareRegion item (env.region turn) kernel.nextInfo r).bind
          (configureRegion platform.drivers item.bprm.file (env.region turn)) := by
      rw [loadRegion, prepared]
      rfl
    rcases declareRegion_cases item (env.region turn) kernel.nextInfo r with
      ⟨unloaded, exit, next, failed, same, negative⟩ | ⟨loads, full, next, failed, -⟩ |
      ⟨loads, serves, exit, next, failed, partly, negative⟩ |
      ⟨loads, serves, d, declared, wholly⟩
    · rw [rest, failed]
      exact .unlinked offset prepared unloaded (by simp [failed]) (same ▸ claim) negative
    · rw [rest, failed]
      exact .oops offset prepared loads full (by simp [failed])
    · rw [rest, failed]
      exact .undeclared offset prepared loads serves (by simp [failed]) (claim.declare partly)
        negative
    · rw [rest, declared]
      apply configureEnds ⟨offset, prepared, loads, serves, declared⟩
      obtain ⟨left, hwrhdr_eq⟩ := wholly.hwrhdr
      have addr_eq : d.hwrhdr.addr = r.hwrhdr.addr := by rw [hwrhdr_eq]
      rw [addr_eq]
      exact claim.declare wholly

/-- The loop enters its turns with one linked and active region for every turn
before, and with the result of the last configuration. -/
theorem loading_of_reached {env : LoadEnv ε} {turn : ℕ} {s : LoadState δ}
    (reached : loadRegions platform.drivers item env kernel turn = .ok s) :
    (∃ held, held.length = turn ∧ Loading platform item kernel held held held s.kernel) ∧
      if turn = 0 then s.retval = -eio else 0 ≤ s.retval := by
  refine repeatTurns_invariant
    (fun turn s =>
      (∃ held, held.length = turn ∧ Loading platform item kernel held held held s.kernel) ∧
        if turn = 0 then s.retval = -eio else 0 ≤ s.retval) ?_ ?_ reached
  · exact ⟨⟨[], rfl, Loading.start env⟩, rfl⟩
  · rintro turn s next ⟨⟨held, length_eq, loading⟩, -⟩ taken
    have ends := turnEnds env turn loading
    rw [taken] at ends
    cases ends with
    | done _ _ _ _ loading nonnegative =>
        refine ⟨⟨_, ?_, loading⟩, nonnegative⟩
        rw [List.length_cons, length_eq]

/-- How a turn that is reached ends. -/
theorem turnEnds_of_reached {env : LoadEnv ε} {turn : ℕ} {s : LoadState δ}
    (reached : loadRegions platform.drivers item env kernel turn = .ok s) :
    ∃ held, TurnEnds platform item kernel (env.region turn) held s
      (loadRegion platform.drivers item env kernel.nextInfo turn s) := by
  obtain ⟨⟨held, -, loading⟩, -⟩ := loading_of_reached reached
  exact ⟨held, turnEnds env turn loading⟩

end Turn

end Rhino.Loader
