import Rhino.Binfmt.Search
import Rhino.Loader.Lifetime

/-!
# An exec that fails after its hardware half

The hardware half of an exec is over before the software half starts.  If the
software half fails, the exec fails, but nothing takes down the hardware process
that the daemon has started; and the software half may be a BOF file again, with a
load of its own.  A load that fails gives back what it took unless it loses a region
for want of its string table.
-/

namespace Rhino.Binfmt

open Rhino.Bof Rhino.Bytes Rhino.Hwr Rhino.Kernel Rhino.Loader Rhino.Transition

/-! ## Loads that give everything back -/

section Loads

variable {δ ε : Type} {platform : Platform δ ε}

/-- The task has no hardware process, and the use count of every region is as it
was. -/
def GivenBack (task : Task) (before after : KernelState δ) : Prop :=
  after.borphInfo task = none ∧ ∀ addr,
    (after.hw.board.phyhwrs addr).count = (before.hw.board.phyhwrs addr).count

/-- A turn that starts in `s` does not lose the region it reserves. -/
def RegionKept (platform : Platform δ ε) (item : ExecqItem) (env : RegionEnv ε)
    (s : LoadState δ) : Prop :=
  ∀ r, prepareRegion platform.drivers item env s = .ok r → StrtabLoads env r

/-- No turn of the load that is reached loses a region. -/
def RegionsKept (platform : Platform δ ε) (item : ExecqItem) (env : LoadEnv ε)
    (kernel : KernelState δ) : Prop :=
  ∀ turn < item.bprm.buf.bNumchip.toNat, ∀ s,
    loadRegions platform.drivers item env kernel turn = .ok s →
      RegionKept platform item (env.region turn) s

variable {item : ExecqItem} {load : LoadEnv ε} {kernel : KernelState δ}

/-- A turn that does not leave for `out_delregion` loses no region. -/
theorem regionKept_of_not_delregion {turn : ℕ} {s : LoadState δ}
    (reached : loadRegions platform.drivers item load kernel turn = .ok s)
    (other : ∀ exit next, loadRegion platform.drivers item load kernel.nextInfo turn s ≠
      .error ⟨.delregion exit, next⟩) : RegionKept platform item (load.region turn) s := by
  rcases turnEnds_of_reached reached with ⟨held, ends⟩
  intro r prepared
  exact (leakFree_of_not_delregion ends other r prepared).1

/-- A turn that leaves for `out_delregion` loses a region exactly if a use count
stays raised behind the teardown, and reports an error if so. -/
theorem regionKept_iff_givenBack {turn : ℕ} {s next : LoadState δ} {exit : LoadExit}
    (reached : loadRegions platform.drivers item load kernel turn = .ok s)
    (left : loadRegion platform.drivers item load kernel.nextInfo turn s =
      .error ⟨.delregion exit, next⟩) :
    (RegionKept platform item (load.region turn) s ↔ GivenBack item.task kernel
        (borphExitFpga platform.drivers item.task next.kernel)) ∧
      (¬ RegionKept platform item (load.region turn) s → next.retval < 0) := by
  rcases loading_of_reached reached with ⟨⟨held, -, loading⟩, -⟩
  have ends := turnEnds load turn loading
  rw [left] at ends
  rcases takes_of_delregion loading ends with ⟨lost, takes, kept_iff, reported⟩
  rw [RegionKept, ← kept_iff]
  refine ⟨?_, reported⟩
  constructor
  · rintro rfl
    exact ⟨borphExitFpga_borphInfo item.task next.kernel,
      fun addr => takes.others addr List.not_mem_nil⟩
  · rintro ⟨-, counts⟩
    cases lost with
    | nil => rfl
    | cons addr rest =>
        have used := takes.reserved addr List.mem_cons_self
        rw [counts addr, (takes.free addr List.mem_cons_self).2] at used
        contradiction

/-- The same for the whole load. -/
theorem regionsKept_iff_givenBack {exit : LoadExit} {next : LoadState δ}
    (left : loadRegions platform.drivers item load kernel item.bprm.buf.bNumchip.toNat =
      .error ⟨.delregion exit, next⟩) :
    (RegionsKept platform item load kernel ↔ GivenBack item.task kernel
        (borphExitFpga platform.drivers item.task next.kernel)) ∧
      (¬ RegionsKept platform item load kernel → next.retval < 0) := by
  rcases repeatTurns_eq_error_iff.mp left with ⟨last, lt, s, reached, ended⟩
  have kept_iff : RegionsKept platform item load kernel ↔
      RegionKept platform item (load.region last) s := by
    constructor
    · exact fun kept => kept last lt s reached
    · intro kept turn before state reachedTurn
      rcases turn_ok_or_last before reachedTurn with ⟨through, ok⟩ | ⟨halt, leftTurn, final⟩
      · apply regionKept_of_not_delregion reachedTurn
        simp [ok]
      · cases left.symm.trans final
        exact (regionKept_iff_givenBack reachedTurn leftTurn).1.mpr
          ((regionKept_iff_givenBack reached ended).1.mp kept)
  rw [kept_iff]
  exact regionKept_iff_givenBack reached ended

/-- The load leaves for `out_delregion` and loses no region. -/
def LoadCall.Undone (platform : Platform δ ε) (call : LoadCall δ ε) : Prop :=
  RegionsKept platform call.item call.env call.kernel ∧
    ∃ exit retval, (call.ended platform.drivers).1 = .delregion exit retval

variable {call : LoadCall δ ε} {retval : ℤ}

/-- A load that returns is undone exactly if it has given everything back. -/
theorem undone_iff_givenBack
    (returned : (call.ended platform.drivers).1.result = some retval) :
    call.Undone platform ↔
      GivenBack call.item.task call.kernel (call.ended platform.drivers).2 := by
  rw [LoadCall.Undone]
  cases ended : call.ended platform.drivers with
  | mk outcome after =>
      cases outcome with
      | loaded =>
          rcases loading_of_loaded ended with ⟨held, -, loading⟩
          refine iff_of_false ?_ ?_
          · rintro ⟨-, exit, value, left⟩
            contradiction
          · rintro ⟨none, -⟩
            rw [loading.borphInfo, Function.update_self] at none
            contradiction
      | delregion exit value =>
          rcases borphLoadHw_eq_delregion_iff.mp ended with ⟨-, next, left, -, rfl⟩
          rw [← (regionsKept_iff_givenBack left).1]
          exact and_iff_left ⟨exit, value, rfl⟩
      | oops | stuck =>
          rw [ended] at returned
          contradiction

/-- A region that was free is no longer. -/
def Taken (before after : KernelState δ) : Prop :=
  ∃ addr, (before.hw.board.phyhwrs addr).count = -1 ∧
    (after.hw.board.phyhwrs addr).count ≠ -1

theorem Taken.not_givenBack {before after : KernelState δ} (taken : Taken before after)
    (task : Task) : ¬ GivenBack task before after := by
  rintro ⟨-, counts⟩
  rcases taken with ⟨addr, free, used⟩
  rw [counts addr] at used
  exact used free

/-- A load of chips that is not undone has taken a region. -/
theorem taken_of_not_undone (chips : 0 < call.item.bprm.buf.bNumchip)
    (returned : (call.ended platform.drivers).1.result = some retval)
    (kept : ¬ call.Undone platform) : Taken call.kernel (call.ended platform.drivers).2 := by
  rcases borphLoadHw_takes returned with ⟨taken, takes, listed⟩
  cases taken with
  | cons addr rest =>
      have reserved := takes.reserved addr List.mem_cons_self
      refine ⟨addr, (takes.free addr List.mem_cons_self).2, fun free => ?_⟩
      rw [LoadCall.ended, reserved] at free
      contradiction
  | nil =>
      rw [undone_iff_givenBack returned] at kept
      refine absurd ⟨?_, fun addr => takes.others addr List.not_mem_nil⟩ kept
      -- a load with no region taken has not got to its end
      cases ended : call.ended platform.drivers with
      | mk outcome after =>
          cases outcome with
          | loaded =>
              rcases loading_of_loaded ended with ⟨held, length_eq, loading⟩
              have pointer : after.borphInfo call.item.task = some call.kernel.nextInfo := by
                rw [loading.borphInfo, Function.update_self]
              have records : (after.infos call.kernel.nextInfo).hwRegion.map HwRegion.addr =
                  [] := by
                have := listed call.kernel.nextInfo
                rw [← LoadCall.ended, ended] at this
                exact this pointer
              rw [loading.linked.symm.trans records] at length_eq
              have positive : 0 < call.item.bprm.buf.bNumchip.toNat :=
                UInt32.lt_iff_toNat_lt.mp chips
              exact absurd length_eq positive.ne
          | delregion exit value =>
              rcases borphLoadHw_eq_delregion_iff.mp ended with ⟨-, next, -, -, rfl⟩
              exact borphExitFpga_borphInfo call.item.task next.kernel
          | oops | stuck =>
              rw [ended] at returned
              contradiction

/-- A load that returns frees no region that was taken before. -/
theorem Taken.loadCall {before : KernelState δ} (taken : Taken before call.kernel)
    (returned : (call.ended platform.drivers).1.result = some retval) :
    Taken before (call.ended platform.drivers).2 := by
  rcases taken with ⟨addr, free, used⟩
  rcases borphLoadHw_takes returned with ⟨taken, takes, -⟩
  refine ⟨addr, free, ?_⟩
  have other : addr ∉ taken := fun mem => used (takes.free addr mem).2
  rw [LoadCall.ended, takes.others addr other]
  exact used

end Loads

/-! ## Searches -/

section Search

variable {δ ε : Type}

/-- If the call has returned an error, the hardware has been given back. -/
def FailureGivesBack (task : Task) (before : KernelState δ) (ended : ExecEnd δ ε) : Prop :=
  ∀ retval s, ended = .returned retval s → retval < 0 → GivenBack task before s.kernel

/-- If the call has returned an error, every load that the daemon has made for it is
undone. -/
def FailureUndone (platform : Platform δ ε) (ended : ExecEnd δ ε) : Prop :=
  ∀ retval s, ended = .returned retval s → retval < 0 →
    ∀ call ∈ s.loads, call.Undone platform

variable {platform : Platform δ ε} {task : Task} {before : KernelState δ} {env : BofEnv ε}
  {s next : ExecState δ ε} {event : DaemonEvent ε}

/-- With all loads undone, everything has been given back. -/
def UndoneGivesBack (platform : Platform δ ε) (task : Task) (before : KernelState δ)
    (s : ExecState δ ε) : Prop :=
  (∀ call ∈ s.loads, call.Undone platform) → GivenBack task before s.kernel

theorem UndoneGivesBack.performs (holds : UndoneGivesBack platform task before s)
    (performs : Performs platform.drivers task s event next) :
    UndoneGivesBack platform task before next := by
  cases performs with
  | nothing | store | wake => exact holds
  | load load =>
      intro undone
      simp only [List.forall_mem_append, List.forall_mem_singleton] at undone
      rcases undone with ⟨old, kept, exit, retval, left⟩
      have returned : ((s.loadCall task load).ended platform.drivers).1.result = some retval := by
        rw [left]
        rfl
      rcases (undone_iff_givenBack returned).mp ⟨kept, exit, retval, left⟩ with ⟨none, counts⟩
      exact ⟨none, fun addr => (counts addr).trans ((holds old).2 addr)⟩

theorem UndoneGivesBack.half {half : ExecState δ ε} (holds : UndoneGivesBack platform task before s)
    (returned : hardwareHalf platform.drivers task env s = some half) :
    UndoneGivesBack platform task before half := by
  rcases hardwareHalf_eq_some_iff.mp returned with ⟨-, rfl⟩ | ⟨-, -, -, rfl⟩
  · exact holds
  · have performed (s : ExecState δ ε) (initial : UndoneGivesBack platform task before s)
        (events : List (DaemonEvent ε)) :
        UndoneGivesBack platform task before (s.perform platform.drivers task events) :=
      perform_invariant _ (fun _ _ _ holds => holds.performs) initial events
    have appended := performed s.append holds env.appended
    exact performed (ExecState.setInterruptible _ true) appended env.asleep

/-! ## Searches without signals -/

/-- The loads of the exec are all undone and everything has been given back, or one is
not and a region is taken. -/
def Accounts (platform : Platform δ ε) (task : Task) (before : KernelState δ)
    (s : ExecState δ ε) : Prop :=
  ((∀ call ∈ s.loads, call.Undone platform) ∧ GivenBack task before s.kernel) ∨
    (∃ call ∈ s.loads, ¬ call.Undone platform) ∧ Taken before s.kernel

theorem Accounts.loadCall {ledger : Exec.Ledger} {load : LoadEnv ε}
    {retval : ℤ} (accounts : Accounts platform task before s)
    (chips : 0 < s.bprm.buf.bNumchip)
    (returned : ((s.loadCall task load).ended platform.drivers).1.result = some retval) :
    Accounts platform task before { s with
      ledger := ledger
      kernel := ((s.loadCall task load).ended platform.drivers).2
      loads := s.loads ++ [s.loadCall task load] } := by
  have last : s.loadCall task load ∈ s.loads ++ [s.loadCall task load] :=
    List.mem_append_right _ (List.mem_singleton_self _)
  rcases accounts with ⟨undone, back⟩ | ⟨⟨call, mem, kept⟩, taken⟩
  · by_cases fails : (s.loadCall task load).Undone platform
    · rcases (undone_iff_givenBack returned).mp fails with ⟨none, counts⟩
      refine Or.inl ⟨?_, none, fun addr => (counts addr).trans (back.2 addr)⟩
      rw [List.forall_mem_append, List.forall_mem_singleton]
      exact ⟨undone, fails⟩
    · rcases taken_of_not_undone chips returned fails with ⟨addr, free, used⟩
      refine Or.inr ⟨⟨_, last, fails⟩, addr, ?_, used⟩
      rw [← back.2 addr]
      exact free
  · exact Or.inr ⟨⟨call, List.mem_append_left _ mem, kept⟩, taken.loadCall returned⟩

/-- At most one item of the exec is under way, and what has been loaded accounts for
the hardware unless the daemon is gone. -/
structure Awaits (platform : Platform δ ε) (task : Task) (before : KernelState δ)
    (s : ExecState δ ε) : Prop where
  chips : 0 < s.bprm.buf.bNumchip
  single : s.ledger.outstanding ≤ 1
  told : s.ledger.daemon = .gone ∨ Accounts platform task before s

theorem Awaits.performs (awaits : Awaits platform task before s)
    (performs : Performs platform.drivers task s event next) :
    Awaits platform task before next := by
  have single := awaits.single
  have accounts (idle : s.ledger.daemon ≠ .gone) : Accounts platform task before s :=
    awaits.told.resolve_left idle
  cases performs with
  | nothing => exact awaits
  | load load queued idle =>
      simp only [Exec.Ledger.outstanding, idle, true_or, if_true] at single
      cases result : ((s.loadCall task load).ended platform.drivers).1.result with
      | none =>
          refine ⟨awaits.chips, ?_, Or.inl rfl⟩
          simp only [Exec.Ledger.outstanding, Option.elim_none, or_true, if_true]
          omega
      | some retval =>
          refine ⟨awaits.chips, ?_, Or.inr ?_⟩
          · simp only [Exec.Ledger.outstanding, Option.elim_some, reduceCtorEq, or_self,
              if_false]
            omega
          · exact (accounts (by simp [idle])).loadCall awaits.chips result
  | store storing =>
      refine ⟨awaits.chips, ?_, Or.inr (accounts (by simp [storing]))⟩
      simp only [Exec.Ledger.outstanding, storing, reduceCtorEq, or_self, if_false] at single ⊢
      exact single
  | wake waking =>
      refine ⟨awaits.chips, ?_, Or.inr (accounts (by simp [waking]))⟩
      simp only [Exec.Ledger.outstanding, waking, reduceCtorEq, or_self, if_false] at single
      simp only [Exec.Ledger.outstanding, true_or, if_true]
      omega

theorem Awaits.mark (awaits : Awaits platform task before s)
    (interruptible : Bool) : Awaits platform task before (s.setInterruptible interruptible) :=
  ⟨awaits.chips, awaits.single, awaits.told⟩

/-- The task sleeps, or its item has come back. -/
def Sleeps (s : ExecState δ ε) : Prop :=
  s.ledger.interruptible = true ∨ s.ledger = Exec.Ledger.settled

theorem sleeps_mark (s : ExecState δ ε) : Sleeps (s.setInterruptible true) := Or.inl rfl

theorem Sleeps.performs (sleeps : Sleeps s)
    (single : s.ledger.outstanding ≤ 1) (performs : Performs platform.drivers task s event next) :
    Sleeps next := by
  cases performs with
  | nothing => exact sleeps
  | load load queued idle =>
      rcases sleeps with interruptible | settled
      · exact Or.inl interruptible
      · rw [settled] at queued
        contradiction
  | store storing =>
      rcases sleeps with interruptible | settled
      · exact Or.inl interruptible
      · rw [settled] at storing
        contradiction
  | wake waking =>
      simp only [Exec.Ledger.outstanding, waking, reduceCtorEq, or_self, if_false] at single
      have empty : s.ledger.queued = 0 := by omega
      exact Or.inr (by simp only [empty, Exec.Ledger.settled])

/-- Nothing of the exec is under way. -/
def Settled (platform : Platform δ ε) (task : Task) (before : KernelState δ)
    (s : ExecState δ ε) : Prop :=
  s.ledger = Exec.Ledger.settled ∧ Accounts platform task before s

theorem Settled.performs (settled : Settled platform task before s)
    (performs : Performs platform.drivers task s event next) :
    Settled platform task before next := by
  cases performs with
  | nothing => exact settled
  | load load queued idle =>
      rw [settled.1] at queued
      contradiction
  | store storing =>
      rw [settled.1] at storing
      contradiction
  | wake waking =>
      rw [settled.1] at waking
      contradiction

/-- A sleep that no signal ends is over when the item has come back. -/
theorem Settled.half {half : ExecState δ ε}
    (settled : Settled platform task before s) (undisturbed : env.signalled = false)
    (returned : hardwareHalf platform.drivers task env s = some half) :
    Settled platform task before half := by
  rcases hardwareHalf_eq_some_iff.mp returned with ⟨-, rfl⟩ | ⟨chips, -, woken, rfl⟩
  · exact settled
  · have appended : Awaits platform task before s.append := by
      refine ⟨chips, ?_, Or.inr settled.2⟩
      simp [ExecState.append, settled.1, Exec.Ledger.outstanding, Exec.Ledger.settled]
    have waits := perform_invariant _ (fun _ _ _ awaits => Awaits.performs awaits) appended
      env.appended
    have slept : Awaits platform task before (s.sleep platform.drivers task env) ∧
        Sleeps (s.sleep platform.drivers task env) := by
      refine perform_invariant (fun s => Awaits platform task before s ∧ Sleeps s) ?_
        ⟨waits.mark true, sleeps_mark _⟩ env.asleep
      intro state event next holds performs
      exact ⟨holds.1.performs performs, holds.2.performs holds.1.single performs⟩
    rw [undisturbed, or_iff_right Bool.false_ne_true] at woken
    rcases slept.2 with asleep | back
    · rw [asleep] at woken
      contradiction
    · refine ⟨?_, slept.1.told.resolve_left ?_⟩
      · rw [ExecState.setInterruptible, back]
        rfl
      · rw [back]
        exact Exec.Serving.noConfusion

theorem Settled.stage
    (settled : Settled platform task before s) (undisturbed : env.signalled = false) :
    StageKeeps (Settled platform task before) (bofStage platform.drivers task env s) :=
  stageKeeps_of_half (fun _ _ _ settled => settled.performs)
    (fun _ _ settled => settled.half undisturbed) (fun _ _ settled => settled) settled

end Search

/-- No signal ends a sleep in the search. -/
def Undisturbed {ε : Type} (envs : ℕ → SearchEnv ε) : Prop :=
  ∀ n env, (envs n).Calls env → env.signalled = false

/-- A header that the handler accepts, with its first region right behind it. -/
def bofHdr (numchip elfoff : UInt32) : BofHdr where
  ident := [0x19, 0x42, 0x4f, 0x46, 1, 1, 0, 0, 0, 0, 0, 0, 0, 0, 0, 0]
  bVersion := 6
  bMachine := BM_RHINO
  bElfmachine := EM_ARM
  bNumchip := numchip
  bElfoff := elfoff
  bHwoff := 52
  loadErr := 0
  bEkver := 0
  pad0 := 0
  pad1 := 0

/-- The exec of a file with one region, in which 128 bytes that no format accepts stand
at `b_elfoff`. -/
def loneExec : ExecState RhinoDev ConfigRun :=
  .start ⟨bofHdr 1 81, (bofHdr 1 81).encode ++ loneRegion.encode ++ [0xaa] ++
    List.replicate BINPRM_BUF_SIZE 0xff⟩ bootKernel

/-- Besides the BOF handler there is one that accepts nothing. -/
def noOther (env : BofEnv ConfigRun) : SearchEnv ConfigRun where
  check := 0
  first := [.bof env, .other ⟨-enoexec, true, true⟩]
  second := [.bof env, .other ⟨-enoexec, true, true⟩]

theorem undisturbed_noOther {env : BofEnv ConfigRun} (quiet : env.signalled = false) :
    Undisturbed fun _ => noOther env := by
  intro n other called
  simp only [SearchEnv.Calls, noOther, List.mem_cons, Handler.bof.injEq, reduceCtorEq,
    List.not_mem_nil, or_false, or_self] at called
  rw [called]
  exact quiet

/-- What a call returns, if it does. -/
def ExecEnd.result {δ ε : Type} : ExecEnd δ ε → Option (ℤ × ExecState δ ε)
  | .returned retval s => some (retval, s)
  | _ => none

theorem ExecEnd.result_eq_some_iff {δ ε : Type} {ended : ExecEnd δ ε} {retval : ℤ}
    {s : ExecState δ ε} : ended.result = some (retval, s) ↔ ended = .returned retval s := by
  cases ended <;> simp [ExecEnd.result]

/-- A configuration that finds no SPI device. -/
def deafConfig : ConfigRun :=
  { smoothConfig with env := { smoothConfig.env with spiDevice := false } }

theorem loneExec_undone : (loneExec.loadCall 1 (calmLoad deafConfig)).Undone rhinoPlatform := by
  constructor
  · intro turn lt s reached r prepared
    obtain rfl : turn = 0 := Nat.lt_one_iff.mp lt
    cases reached
    change prepareRegion rhinoPlatform.drivers ⟨loneExec.bprm, 1⟩
      ((calmLoad deafConfig).region 0) (loadStart ⟨loneExec.bprm, 1⟩ (calmLoad deafConfig)
        bootKernel) = .ok r at prepared
    have empty : (prepareRegion rhinoPlatform.drivers ⟨loneExec.bprm, 1⟩
        ((calmLoad deafConfig).region 0) (loadStart ⟨loneExec.bprm, 1⟩ (calmLoad deafConfig)
          bootKernel)).toOption.map (fun r => (r.hwrhdr.nrSymbol, strtabLen r.hwrhdr)) =
        some (0, 0) := by
      decide +kernel
    rw [prepared] at empty
    simp only [Except.toOption, Option.map_some, Option.some.injEq, Prod.mk.injEq] at empty
    refine ⟨fun some => absurd empty.1 some, rfl, ?_, rfl⟩
    rw [empty.2]
    decide
  · exact ⟨.configure, -eio, by decide +kernel⟩

end Rhino.Binfmt
