import Rhino.Loader.Cleanup

/-!
# What the result of a load tells

`run_execq` stores the result of `borph_load_hw` for the task, which takes zero
for a running hardware process.  The variable `retval` also carries byte counts
and the results of earlier configurations, so an exit that does not set it
reports whatever it held.  There is one such exit, for a file whose chain of
headers is shorter than its number of chips.
-/

namespace Rhino.Loader

open Rhino.Bof Rhino.Bytes Rhino.Hwr Rhino.Kernel Rhino.Transition

variable {δ ε : Type}

/-- The task has a complete hardware process of `numchip` regions, all of them
reserved and active. -/
def HwRunning (task : Task) (numchip : ℕ) (kernel : KernelState δ) : Prop :=
  ∃ bi, kernel.borphInfo task = some bi ∧ (kernel.infos bi).status &&& 1 ≠ 0 ∧
    (kernel.infos bi).hwRegion.length = numchip ∧
    ∀ region ∈ (kernel.infos bi).hwRegion,
      1 ≤ (kernel.hw.board.phyhwrs region.addr).count ∧
      (kernel.hw.board.phyhwrs region.addr).active = 1

/-- The load returns zero if the process runs and a negative error if not. -/
def ResultAgrees (item : ExecqItem) (ended : LoadOutcome × KernelState δ) : Prop :=
  ∃ retval, ended.1.result = some retval ∧
    (retval = 0 ↔ HwRunning item.task item.bprm.buf.bNumchip.toNat ended.2) ∧
    (¬ HwRunning item.task item.bprm.buf.bNumchip.toNat ended.2 → retval < 0)

section Result

variable (platform : Platform δ ε) (item : ExecqItem) (kernel : KernelState δ)

/-- A turn comes to an end that is reported: after the first turn there is a
next header, the unchecked allocations succeed as far as they are reached, and
so do the calls of `configure` return. -/
structure Reports (env : RegionEnv ε) (turn : ℕ) (s : LoadState δ) : Prop where
  offset : 0 < turn → s.curFoff ≠ 0
  memory : ∀ r, prepareRegion platform.drivers item env s = .ok r →
    StrtabLoads env r → MemoryServes env r
  returns : ∀ r, prepareRegion platform.drivers item env s = .ok r →
    ∀ d, declareRegion item env kernel.nextInfo r = .ok d →
      ConfigureReturns platform item.bprm.file env d

variable {platform item kernel}

theorem Reports.of_unprepared {env : RegionEnv ε} {turn : ℕ} {s : LoadState δ}
    (offset : 0 < turn → s.curFoff ≠ 0)
    (unprepared : ∀ r, prepareRegion platform.drivers item env s ≠ .ok r) :
    Reports platform item kernel env turn s where
  offset := offset
  memory r prepared := absurd prepared (unprepared r)
  returns r prepared := absurd prepared (unprepared r)

theorem Reports.of_prepared {env : RegionEnv ε} {turn : ℕ} {s r : LoadState δ}
    (offset : s.curFoff ≠ 0)
    (prepared : prepareRegion platform.drivers item env s = .ok r)
    (memory : StrtabLoads env r → MemoryServes env r)
    (returns : ∀ d, declareRegion item env kernel.nextInfo r = .ok d →
      ConfigureReturns platform item.bprm.file env d) :
    Reports platform item kernel env turn s where
  offset _ := offset
  memory other prepared' := by
    obtain rfl := Except.ok.inj (prepared.symm.trans prepared')
    exact memory
  returns other prepared' := by
    obtain rfl := Except.ok.inj (prepared.symm.trans prepared')
    exact returns

theorem Reports.of_reaches {env : RegionEnv ε} {turn : ℕ} {s r d : LoadState δ}
    (reaches : Reaches platform item kernel env s r d)
    (returns : ConfigureReturns platform item.bprm.file env d) :
    Reports platform item kernel env turn s := by
  refine .of_prepared reaches.offset reaches.prepared (fun _ => reaches.serves) ?_
  intro other declared'
  obtain rfl := Except.ok.inj (reaches.declared.symm.trans declared')
  exact returns

/-- At an exit to `out_delregion` the value in `retval` is an error exactly if
the turn reports its end. -/
theorem negative_iff_reports {env : RegionEnv ε} {held : List HwrAddr} {turn : ℕ}
    {s next : LoadState δ} {exit : LoadExit}
    (carried : if turn = 0 then s.retval = -eio else 0 ≤ s.retval)
    (ends : TurnEnds platform item kernel env held s (.error ⟨.delregion exit, next⟩)) :
    next.retval < 0 ↔ Reports platform item kernel env turn s := by
  cases ends with
  | badOffset offset unprepared =>
      -- The only exit that leaves `retval` alone.
      by_cases first : turn = 0
      · subst first
        have initial : s.retval = -eio := carried
        apply iff_of_true (by rw [initial]; exact neg_eio_lt_zero)
        exact .of_unprepared (fun positive => absurd positive (lt_irrefl 0)) unprepared
      · rw [if_neg first] at carried
        apply iff_of_false (not_lt.mpr carried)
        intro reports
        exact reports.offset (Nat.pos_of_ne_zero first) offset
  | unreserved offset unprepared _ negative =>
      exact iff_of_true negative (.of_unprepared (fun _ => offset) unprepared)
  | unlinked offset prepared unloaded undeclared _ negative =>
      refine iff_of_true negative (.of_prepared offset prepared ?_ ?_)
      · intro loads
        exact absurd loads unloaded
      · intro d declared
        exact absurd declared (undeclared d)
  | undeclared offset prepared _ serves undeclared _ negative =>
      refine iff_of_true negative (.of_prepared offset prepared (fun _ => serves) ?_)
      intro d declared
      exact absurd declared (undeclared d)
  | noHwrops reaches absent _ _ _ negative =>
      refine iff_of_true negative (.of_reaches reaches ?_)
      intro run op
      rw [absent] at op
      contradiction
  | unconfigured reaches _ returns _ negative =>
      exact iff_of_true negative (.of_reaches reaches returns)

theorem reports_of_ok {env : RegionEnv ε} {held : List HwrAddr} {turn : ℕ}
    {s next : LoadState δ}
    (ends : TurnEnds platform item kernel env held s (.ok next)) :
    Reports platform item kernel env turn s := by
  cases ends with
  | done reaches _ returns _ _ _ => exact .of_reaches reaches returns

theorem not_reports_of_oops {env : RegionEnv ε} {held : List HwrAddr} {turn : ℕ}
    {s next : LoadState δ}
    (ends : TurnEnds platform item kernel env held s (.error ⟨.oops, next⟩)) :
    ¬ Reports platform item kernel env turn s := by
  cases ends with
  | oops _ prepared loads fails _ =>
      intro reports
      exact fails (reports.memory _ prepared loads)

theorem not_reports_of_stuck {env : RegionEnv ε} {held : List HwrAddr} {turn : ℕ}
    {s next : LoadState δ}
    (ends : TurnEnds platform item kernel env held s (.error ⟨.stuck, next⟩)) :
    ¬ Reports platform item kernel env turn s := by
  cases ends with
  | stuck reaches _ lost =>
      intro reports
      exact lost (reports.returns _ reaches.prepared _ reaches.declared)

/-! ## The state that goes with a result -/

/-- The teardown leaves the task without a hardware process. -/
theorem not_hwRunning_borphExitFpga (drivers : UInt16 → HwrDriver δ ε) (task : Task)
    (numchip : ℕ) (now : KernelState δ) :
    ¬ HwRunning task numchip (borphExitFpga drivers task now) := by
  rintro ⟨bi, pointer, -⟩
  unfold borphExitFpga at pointer
  cases owned : now.borphInfo task with
  | none => simp [owned] at pointer
  | some other => simp [owned] at pointer

theorem status_bit_set (status : UInt32) : (status ||| 1) &&& 1 ≠ 0 := by
  intro clear
  have bit := congrArg (fun word : UInt32 => word.toBitVec.getLsbD 0) clear
  simp at bit

theorem Loading.hwRunning {held : List HwrAddr} {now : KernelState δ}
    (loading : Loading platform item kernel held held held now) :
    HwRunning item.task held.length (now.modifyInfo kernel.nextInfo fun info =>
      { info with status := info.status ||| 1 }) := by
  refine ⟨kernel.nextInfo, ?_, ?_, ?_, ?_⟩
  · change now.borphInfo item.task = _
    rw [loading.borphInfo, Function.update_self]
  · simp only [KernelState.modifyInfo, Function.update_self]
    exact status_bit_set _
  · simp only [KernelState.modifyInfo, Function.update_self, ← loading.linked, List.length_map]
  · intro region mem
    simp only [KernelState.modifyInfo, Function.update_self] at mem
    have held_addr : region.addr ∈ held := by
      rw [← loading.linked]
      exact List.mem_map_of_mem mem
    exact ⟨(loading.tracks.reserved _ held_addr).ge, loading.running _ held_addr⟩

theorem resultAgrees_loaded {env : LoadEnv ε} {s : LoadState δ} (mem : env.infoMem = true)
    (finished : loadRegions platform.drivers item env kernel
      item.bprm.buf.bNumchip.toNat = .ok s) :
    ResultAgrees item (borphLoadHw platform.drivers item env kernel) := by
  obtain ⟨⟨held, length_eq, loading⟩, -⟩ := loading_of_reached finished
  have running := loading.hwRunning
  rw [length_eq] at running
  simp only [borphLoadHw, mem, if_true, finished]
  exact ⟨0, rfl, iff_of_true rfl running, fun idle => absurd running idle⟩

theorem resultAgrees_delregion_iff {env : LoadEnv ε} {s : LoadState δ} {exit : LoadExit}
    (mem : env.infoMem = true)
    (left : loadRegions platform.drivers item env kernel
      item.bprm.buf.bNumchip.toNat = .error ⟨.delregion exit, s⟩) :
    ResultAgrees item (borphLoadHw platform.drivers item env kernel) ↔ s.retval < 0 := by
  have idle := not_hwRunning_borphExitFpga platform.drivers item.task
    item.bprm.buf.bNumchip.toNat s.kernel
  simp only [borphLoadHw, mem, if_true, left]
  constructor
  · rintro ⟨retval, result_eq, -, negative⟩
    obtain rfl : s.retval = retval := Option.some.inj result_eq
    exact negative idle
  · intro negative
    exact ⟨s.retval, rfl, iff_of_false negative.ne idle, fun _ => negative⟩

theorem not_resultAgrees_of_lost {env : LoadEnv ε} {s : LoadState δ} {stop : Stop}
    (lost : stop = .oops ∨ stop = .stuck)
    (left : loadRegions platform.drivers item env kernel
      item.bprm.buf.bNumchip.toNat = .error ⟨stop, s⟩) :
    ¬ ResultAgrees item (borphLoadHw platform.drivers item env kernel) := by
  rintro ⟨retval, result_eq, -⟩
  simp only [borphLoadHw, left] at result_eq
  rcases lost with rfl | rfl
  · split at result_eq <;> contradiction
  · split at result_eq <;> contradiction

end Result

/-- The result of a load agrees with the state it leaves exactly if the
`borph_info` could be allocated and every turn of the loop reports its end. -/
theorem borphLoadHw_resultAgrees_iff (platform : Platform δ ε) (item : ExecqItem)
    (env : LoadEnv ε) (kernel : KernelState δ) :
    ResultAgrees item (borphLoadHw platform.drivers item env kernel) ↔
      env.infoMem = true ∧ ∀ turn < item.bprm.buf.bNumchip.toNat, ∀ s,
        loadRegions platform.drivers item env kernel turn = .ok s →
          Reports platform item kernel (env.region turn) turn s := by
  constructor
  · intro agrees
    have mem : env.infoMem = true := by
      by_contra nomem
      obtain ⟨retval, result_eq, -⟩ := agrees
      simp [borphLoadHw, nomem, LoadOutcome.result] at result_eq
    refine ⟨mem, ?_⟩
    intro turn lt s reached
    obtain ⟨⟨held, -, loading⟩, carried⟩ := loading_of_reached reached
    have ends := turnEnds env turn loading
    rcases turn_ok_or_last lt reached with ⟨next, ok⟩ | ⟨⟨stop, next⟩, left, last⟩
    · rw [ok] at ends
      exact reports_of_ok ends
    · rw [left] at ends
      cases stop with
      | delregion exit =>
          exact (negative_iff_reports carried ends).mp
            ((resultAgrees_delregion_iff mem last).mp agrees)
      | oops => exact absurd agrees (not_resultAgrees_of_lost (Or.inl rfl) last)
      | stuck => exact absurd agrees (not_resultAgrees_of_lost (Or.inr rfl) last)
  · rintro ⟨mem, reports⟩
    cases finished : loadRegions platform.drivers item env kernel
        item.bprm.buf.bNumchip.toNat with
    | ok s => exact resultAgrees_loaded mem finished
    | error halt =>
        obtain ⟨stop, next⟩ := halt
        obtain ⟨turn, lt, s, reached, left⟩ := repeatTurns_eq_error_iff.mp finished
        obtain ⟨⟨held, -, loading⟩, carried⟩ := loading_of_reached reached
        have ends := turnEnds env turn loading
        rw [left] at ends
        have reported := reports turn lt s reached
        cases stop with
        | delregion exit =>
            exact (resultAgrees_delregion_iff mem finished).mpr
              ((negative_iff_reports carried ends).mpr reported)
        | oops => exact absurd reported (not_reports_of_oops ends)
        | stuck => exact absurd reported (not_reports_of_stuck ends)

/-! ## Results that are neither zero nor an error -/

section Positive

variable {platform : Platform δ ε} {item : ExecqItem} {env : LoadEnv ε} {kernel : KernelState δ}

/-- Every exit to `out_delregion` sets `retval` to an error, except the one for want
of a next header. -/
theorem badOffset_of_nonneg {regionEnv : RegionEnv ε} {held : List HwrAddr}
    {s next : LoadState δ} {exit : LoadExit} (nonnegative : 0 ≤ next.retval)
    (ends : TurnEnds platform item kernel regionEnv held s (.error ⟨.delregion exit, next⟩)) :
    s.curFoff = 0 ∧ next = s := by
  cases ends with
  | badOffset offset => exact ⟨offset, rfl⟩
  | unreserved _ _ _ negative => exact absurd nonnegative (not_le.mpr negative)
  | unlinked _ _ _ _ _ negative => exact absurd nonnegative (not_le.mpr negative)
  | undeclared _ _ _ _ _ _ negative => exact absurd nonnegative (not_le.mpr negative)
  | noHwrops _ _ _ _ _ negative => exact absurd nonnegative (not_le.mpr negative)
  | unconfigured _ _ _ _ negative => exact absurd nonnegative (not_le.mpr negative)

theorem loadRegion_of_no_header {turn : ℕ} {s : LoadState δ} (offset : s.curFoff = 0) :
    loadRegion platform.drivers item env kernel.nextInfo turn s =
      .error ⟨.delregion .badOffset, s⟩ := by
  have unread : readHwrhdr item.bprm.file (env.region turn) s =
      .error ⟨.delregion .badOffset, s⟩ := if_pos offset
  rw [loadRegion, prepareRegion, unread]
  rfl

/-- A load returns a positive value exactly if it comes to a turn without a next
header while `retval` still holds what the last configuration has returned. -/
theorem result_pos_iff :
    (∃ retval, (borphLoadHw platform.drivers item env kernel).1.result = some retval ∧
        0 < retval) ↔
      env.infoMem = true ∧ ∃ turn < item.bprm.buf.bNumchip.toNat, ∃ s,
        loadRegions platform.drivers item env kernel turn = .ok s ∧ s.curFoff = 0 ∧
          0 < s.retval := by
  unfold borphLoadHw
  cases mem : env.infoMem with
  | false => simp [LoadOutcome.result]
  | true =>
      constructor
      · rintro ⟨retval, returned, positive⟩
        refine ⟨rfl, ?_⟩
        cases ended : loadRegions platform.drivers item env kernel
            item.bprm.buf.bNumchip.toNat with
        | ok s =>
            simp only [ended, if_true, LoadOutcome.result, Option.some.injEq] at returned
            omega
        | error halt =>
            obtain ⟨stop, next⟩ := halt
            rcases repeatTurns_eq_error_iff.mp ended with ⟨turn, lt, s, reached, left⟩
            rcases turnEnds_of_reached reached with ⟨held, ends⟩
            rw [left] at ends
            simp only [ended, if_true] at returned
            cases stop with
            | delregion exit =>
                rcases Option.some.inj returned with rfl
                rcases badOffset_of_nonneg positive.le ends with ⟨offset, rfl⟩
                exact ⟨turn, lt, next, reached, offset, positive⟩
            | oops => contradiction
            | stuck => contradiction
      · rintro ⟨-, turn, lt, s, reached, offset, positive⟩
        have left : loadRegions platform.drivers item env kernel
            item.bprm.buf.bNumchip.toNat = .error ⟨.delregion .badOffset, s⟩ :=
          repeatTurns_eq_error_iff.mpr ⟨turn, lt, s, reached, loadRegion_of_no_header offset⟩
        simp only [left, if_true, LoadOutcome.result]
        exact ⟨s.retval, rfl, positive⟩

end Positive

/-! ## A file with too few headers -/

/-- A header for the FPGA with a bitstream of one byte and no successor. -/
def loneRegion : HwrHdr where
  flag := 0
  addr := rhinoAddr
  plOff := 80
  plLen := 1
  nrSymbol := 0
  strtabOff := 80
  nextHwr := 0

/-- The second chip has no header: the load tears down the process it has
started and returns the zero of the first configuration. -/
theorem borphLoadHw_returns_zero_without_process :
    0 < (sampleItem 1 2 loneRegion [0xaa]).bprm.buf.bNumchip ∧
      ¬ ResultAgrees (sampleItem 1 2 loneRegion [0xaa])
        (borphLoadHw rhinoPlatform.drivers (sampleItem 1 2 loneRegion [0xaa])
          (calmLoad smoothConfig) bootKernel) := by
  refine ⟨by decide, ?_⟩
  rintro ⟨retval, result_eq, -, negative⟩
  have zero : (borphLoadHw rhinoPlatform.drivers (sampleItem 1 2 loneRegion [0xaa])
      (calmLoad smoothConfig) bootKernel).1 = .delregion .badOffset 0 := by
    decide +kernel
  have gone : (borphLoadHw rhinoPlatform.drivers (sampleItem 1 2 loneRegion [0xaa])
      (calmLoad smoothConfig) bootKernel).2.borphInfo 1 = none := by
    decide +kernel
  rw [zero] at result_eq
  obtain rfl : 0 = retval := Option.some.inj result_eq
  refine absurd (negative ?_) (lt_irrefl 0)
  rintro ⟨bi, pointer, -⟩
  exact Option.some_ne_none bi (pointer.symm.trans gone)

end Rhino.Loader
