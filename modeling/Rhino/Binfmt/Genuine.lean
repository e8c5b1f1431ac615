import Rhino.Binfmt.Failure

/-!
# An exec that only seems to succeed

`search_binary_handler` takes every value of a handler that is not negative for a
completed exec.  `load_bof_binary` returns whatever it finds in `load_err`, if that
is not zero: a field of the file, as long as the daemon has not written to it, and
then the result of a load, which may be the byte count of a configuration.  The daemon
has not written to it if there are no chips, or if a signal ends the sleep.  Nor does
the handler look at how much of the ELF header it has read.  `exec_genuine_iff` says
when a value that is not negative does come from the search for the handler of the ELF
header.
-/

namespace Rhino.Binfmt

open Rhino.Bof Rhino.Bytes Rhino.Hwr Rhino.Kernel Rhino.Loader Rhino.Transition

section Genuine

variable {δ ε : Type}

/-- The exec that is searched for has the ELF header of the file in its buffer, and a
read has delivered all of it. -/
structure HasElf (env : BofEnv ε) (s searched : ExecState δ ε) : Prop where
  read : BofHdr.size ≤ (readElf env.elfIo s.bprm).2.length
  buf : searched.bprm.buf =
    BofHdr.decode (slice s.bprm.buf.bElfoff.toNat BofHdr.size s.bprm.file)
  file : searched.bprm.file = s.bprm.file

variable (platform : Platform δ ε) (task : Task) (env : BofEnv ε)

/-- Whatever the search for a handler does, a value that is not negative is what it
has returned for the ELF header. -/
def Genuine (s : ExecState δ ε) : Prop :=
  ∀ search retval after,
    loadBofBinary platform.drivers task env search s = .returned retval after → 0 ≤ retval →
      ∃ searched, HasElf env s searched ∧ search searched = .returned retval after

/-- A load that the daemon starts does not run out of headers behind a configuration
that has returned a positive value. -/
def Harmless (s : ExecState δ ε) : DaemonEvent ε → Prop
  | .take load => 0 < s.ledger.queued → s.ledger.daemon = .idle → load.infoMem = true →
      ∀ turn < s.bprm.buf.bNumchip.toNat, ∀ state,
        loadRegions platform.drivers ⟨s.bprm, task⟩ load s.kernel turn = .ok state →
          state.curFoff = 0 → state.retval ≤ 0
  | _ => True

/-- So do the loads of some steps of the daemon. -/
def HarmlessAlong (s : ExecState δ ε) (events : List (DaemonEvent ε)) : Prop :=
  Along (fun s event => some (s.event platform.drivers task event)) (Harmless platform task) s
    events

/-- No result that has been stored or is about to be is positive. -/
structure NonPositive (s : ExecState δ ε) : Prop where
  stored : ∀ retval, s.stored = some retval → retval ≤ 0
  storing : ∀ retval, s.ledger.daemon = .storing retval → retval ≤ 0

/-- The handler with its item in the queue. -/
def queuedExec (s : ExecState δ ε) : ExecState δ ε :=
  (s.perform platform.drivers task env.entry).append

/-- The handler gets through its hardware half. -/
abbrev Through (s half : ExecState δ ε) : Prop :=
  hardwareHalf platform.drivers task env (s.perform platform.drivers task env.entry) = some half

/-- What the handler takes for an error is one, and it finds an ELF header. -/
structure Trustworthy (s : ExecState δ ε) : Prop where
  /-- Earlier loads of the exec have left no positive value. -/
  earlier : NonPositive s
  /-- The loads that the daemon makes before the test of `load_err` leave none. -/
  entry : HarmlessAlong platform task s env.entry
  appended : 0 < s.bprm.buf.bNumchip → env.itemMem = true →
    HarmlessAlong platform task (queuedExec platform task env s) env.appended
  asleep : 0 < s.bprm.buf.bNumchip → env.itemMem = true →
    HarmlessAlong platform task (((queuedExec platform task env s).perform platform.drivers task
      env.appended).setInterruptible true) env.asleep
  /-- Where the daemon has not written to it, the value of the file is not positive. -/
  own : ∀ half, Through platform task env s half → half.stored = none →
    s.bprm.buf.loadErr.toInt32.toInt ≤ 0
  /-- Where no error is found, the file has an ELF header at `b_elfoff`, and a read that
  does not fail delivers it. -/
  elf : ∀ half, Through platform task env s half → half.loadErr = 0 → ∀ limit,
    env.elfIo = .upTo limit →
      BofHdr.size ≤ limit ∧ s.bprm.buf.bElfoff.toNat + BofHdr.size ≤ s.bprm.file.length

variable {platform task env} {s half : ExecState δ ε}

/-! ## What the handler finds -/

theorem NonPositive.performs {next : ExecState δ ε} {event : DaemonEvent ε}
    (nonPositive : NonPositive s) (harmless : Harmless platform task s event)
    (performs : Performs platform.drivers task s event next) : NonPositive next := by
  cases performs with
  | nothing => exact nonPositive
  | load load queued idle =>
      refine ⟨nonPositive.stored, ?_⟩
      intro retval storing
      cases result : ((s.loadCall task load).ended platform.drivers).1.result with
      | none =>
          simp only [result] at storing
          contradiction
      | some value =>
          simp only [result, Option.elim_some, Exec.Serving.storing.injEq] at storing
          subst storing
          by_contra positive
          rcases result_pos_iff.mp ⟨value, result, not_le.mp positive⟩ with
            ⟨infoMem, turn, lt, state, reached, offset, stale⟩
          exact absurd (harmless queued idle infoMem turn lt state reached offset)
            (not_le.mpr stale)
  | store storing =>
      refine ⟨?_, fun _ contra => absurd contra Exec.Serving.noConfusion⟩
      intro value stored
      rw [← Option.some.inj stored]
      exact nonPositive.storing _ storing
  | wake waking =>
      exact ⟨nonPositive.stored, fun _ contra => absurd contra Exec.Serving.noConfusion⟩

theorem NonPositive.perform {events : List (DaemonEvent ε)} (nonPositive : NonPositive s)
    (harmless : HarmlessAlong platform task s events) :
    NonPositive (s.perform platform.drivers task events) :=
  perform_of_along NonPositive (fun _ _ _ holds guarded => holds.performs guarded) nonPositive
    harmless

theorem nonPositive_of_half (trustworthy : Trustworthy platform task env s)
    (returned : Through platform task env s half) : NonPositive half := by
  have entered := trustworthy.earlier.perform trustworthy.entry
  rcases hardwareHalf_eq_some_iff.mp returned with ⟨-, rfl⟩ | ⟨chips, mem, -, rfl⟩
  · exact entered
  · rw [perform_bprm] at chips
    have queued : NonPositive (queuedExec platform task env s) :=
      ⟨entered.stored, entered.storing⟩
    have appended := queued.perform (trustworthy.appended chips mem)
    have marked : NonPositive (((queuedExec platform task env s).perform platform.drivers task
        env.appended).setInterruptible true) := ⟨appended.stored, appended.storing⟩
    have slept := marked.perform (trustworthy.asleep chips mem)
    exact ⟨slept.stored, slept.storing⟩

/-- A positive error is one of the file or of a load. -/
theorem loadErr_not_pos (trustworthy : Trustworthy platform task env s)
    (returned : Through platform task env s half) : half.loadErr ≤ 0 := by
  have bprm_eq := (sameExec_of_half returned).bprm.trans (perform_bprm s env.entry)
  cases stored : half.stored with
  | none =>
      rw [ExecState.loadErr, stored, Option.getD_none, bprm_eq]
      exact trustworthy.own half returned stored
  | some retval =>
      rw [ExecState.loadErr, stored, Option.getD_some]
      exact (nonPositive_of_half trustworthy returned).stored retval stored

/-- A read delivers the ELF header exactly if the file has one there and the layers
below go that far. -/
theorem size_le_readElf_iff (limit : ℕ) (bprm : LinuxBinprm) :
    BofHdr.size ≤ (readElf (.upTo limit) bprm).2.length ↔
      BofHdr.size ≤ limit ∧ bprm.buf.bElfoff.toNat + BofHdr.size ≤ bprm.file.length := by
  have bytes : (readElf (.upTo limit) bprm).2 =
      (slice bprm.buf.bElfoff.toNat BINPRM_BUF_SIZE bprm.file).take limit := rfl
  rw [bytes, List.length_take, slice_length, BINPRM_BUF_SIZE, BofHdr.size]
  omega

/-- The search starts with the ELF header if the handler has read it. -/
theorem hasElf_overwrite {found : ExecState δ ε} (bprm_eq : found.bprm = s.bprm)
    (full : BofHdr.size ≤ (readElf env.elfIo s.bprm).2.length) :
    HasElf env s (found.overwrite (readElf env.elfIo s.bprm).2) := by
  constructor
  · exact full
  · have front := slice_zero_kernelRead full
    exact (BofHdr.decode_overlay full _).trans (congrArg BofHdr.decode front)
  · change found.bprm.file = s.bprm.file
    rw [bprm_eq]

theorem genuine_of_trustworthy (trustworthy : Trustworthy platform task env s) :
    Genuine platform task env s := by
  intro search retval after returned nonnegative
  have ends : StageEnds platform.drivers task env s (bofStage platform.drivers task env s) :=
    stageEnds s
  rw [loadBofBinary] at returned
  cases stage : bofStage platform.drivers task env s with
  | lost =>
      rw [stage] at returned
      contradiction
  | ends value next =>
      rw [stage] at returned ends
      cases returned
      cases ends with
      | foreign => exact absurd nonnegative (by decide)
      | error _ half failed =>
          exact absurd (le_antisymm (loadErr_not_pos trustworthy half) nonnegative) failed
      | unread => exact absurd nonnegative (by decide)
  | goesOn next =>
      rw [stage] at returned ends
      cases ends with
      | @search half _ through fine served =>
          have bprm_eq := (sameExec_of_half through).bprm.trans (perform_bprm s env.entry)
          refine ⟨_, hasElf_overwrite ((perform_bprm half env.reading).trans bprm_eq) ?_, returned⟩
          cases io : env.elfIo with
          | error errno =>
              rw [io] at served
              contradiction
          | upTo limit =>
              exact (size_le_readElf_iff limit s.bprm).mpr
                (trustworthy.elf half through fine limit io)

/-! ## A daemon that serves nothing late -/

/-- An error of a genuine exec is negative: the search that does not return shows any
other. -/
theorem genuine_not_pos (genuine : Genuine platform task env s) (accepted : Accepts s.bprm.buf)
    (returned : Through platform task env s half) : half.loadErr ≤ 0 := by
  by_contra positive
  have nonzero : half.loadErr ≠ 0 := fun zero => positive zero.le
  have stage := bofStage_of_half accepted returned
  rw [if_pos nonzero] at stage
  have ended : loadBofBinary platform.drivers task env (fun _ => .lost) s =
      .returned half.loadErr half := by
    rw [loadBofBinary, stage]
  rcases genuine _ _ half ended (not_le.mp positive).le with ⟨searched, -, lost⟩
  contradiction

/-- A genuine exec that comes to the search has read the ELF header. -/
theorem genuine_read (genuine : Genuine platform task env s) (accepted : Accepts s.bprm.buf)
    (returned : Through platform task env s half) (fine : half.loadErr = 0)
    (readable : env.elfIo.fails = false) :
    BofHdr.size ≤ (readElf env.elfIo s.bprm).2.length := by
  have stage := bofStage_of_half accepted returned
  rw [if_neg (not_not.mpr fine), readable, if_neg Bool.false_ne_true] at stage
  have ended : loadBofBinary platform.drivers task env (.returned 0) s = .returned 0
      ((half.perform platform.drivers task env.reading).overwrite
        (readElf env.elfIo s.bprm).2) := by
    rw [loadBofBinary, stage]
  rcases genuine _ 0 _ ended le_rfl with ⟨searched, elf, -⟩
  exact elf.read

theorem trustworthy_of_genuine (prompt : env.Prompt) (unstored : s.stored = none)
    (settled : s.ledger = Exec.Ledger.settled) (genuine : Genuine platform task env s)
    (accepted : Accepts s.bprm.buf) : Trustworthy platform task env s := by
  have entered : s.perform platform.drivers task env.entry = s := by
    rw [prompt.entry]
    rfl
  constructor
  · constructor
    · simp [unstored]
    · simp [settled, Exec.Ledger.settled]
  · rw [prompt.entry]
    trivial
  · intro _ _
    rw [prompt.appended]
    trivial
  · intro chips mem
    rw [queuedExec, prompt.appended, entered]
    rcases prompt.asleep with none | ⟨load, served⟩
    · rw [none]
      trivial
    · rw [served]
      refine ⟨?_, fun _ _ => ⟨trivial, fun _ _ => ⟨trivial, fun _ _ => trivial⟩⟩⟩
      intro _ _ infoMem turn lt state reached offset
      by_contra stale
      rcases result_pos_iff.mpr ⟨infoMem, turn, lt, state, reached, offset, not_le.mp stale⟩ with
        ⟨retval, returned, positive⟩
      have idle : s.ledger.daemon = .idle := by rw [settled]; rfl
      have half := hardwareHalf_served mem prompt.appended served chips idle returned
      rw [← entered] at half
      exact absurd (genuine_not_pos genuine accepted half) (not_le.mpr positive)
  · intro half returned none
    have found := genuine_not_pos genuine accepted returned
    rw [ExecState.loadErr, none, (sameExec_of_half returned).bprm, entered] at found
    exact found
  · intro half returned fine limit io
    have full := genuine_read genuine accepted returned fine (by rw [io]; rfl)
    rw [io] at full
    exact (size_le_readElf_iff limit s.bprm).mp full

end Genuine

/-- Every value of an exec that is not negative comes from the search for the handler of
its ELF header if, where the handler takes the file on, what it finds in `load_err` is
not positive and the ELF header can be read.  The condition is exact where the daemon
serves no item late. -/
theorem exec_genuine_iff {δ ε : Type} (platform : Platform δ ε) (task : Task) (env : BofEnv ε)
    (s : ExecState δ ε) :
    ((Accepts s.bprm.buf → Trustworthy platform task env s) → Genuine platform task env s) ∧
      (env.Prompt → s.stored = none → s.ledger = Exec.Ledger.settled →
        (Genuine platform task env s ↔
          (Accepts s.bprm.buf → Trustworthy platform task env s))) := by
  have genuine : (Accepts s.bprm.buf → Trustworthy platform task env s) →
      Genuine platform task env s := by
    intro trustworthy
    by_cases accepted : Accepts s.bprm.buf
    · exact genuine_of_trustworthy (trustworthy accepted)
    · intro search retval after returned nonnegative
      simp only [loadBofBinary, bofStage, perform_bprm, if_neg accepted] at returned
      cases returned
      exact absurd nonnegative (by decide)
  exact ⟨genuine, fun prompt unstored settled =>
    ⟨trustworthy_of_genuine prompt unstored settled, genuine⟩⟩

/-! ## A file that is its own result -/

/-- The exec of a file that is a header only: it has so many chips, and a one in
`load_err`. -/
def selfMadeExec (numchip : UInt32) : ExecState RhinoDev ConfigRun :=
  .start ⟨{ bofHdr numchip 0 with loadErr := 1 },
    BofHdr.encode { bofHdr numchip 0 with loadErr := 1 }⟩ bootKernel

/-- The handler returns the one, before any search: there are no chips, or a signal has
ended the sleep. -/
theorem self_made_success :
    (Accepts (selfMadeExec 0).bprm.buf ∧
      loadBofBinary rhinoPlatform.drivers 1 (servedBof (calmLoad smoothConfig)) (fun _ => .lost)
        (selfMadeExec 0) = .returned 1 (selfMadeExec 0) ∧
      ¬ Genuine rhinoPlatform 1 (servedBof (calmLoad smoothConfig)) (selfMadeExec 0)) ∧
    Accepts (selfMadeExec 1).bprm.buf ∧
      (∃ s, loadBofBinary rhinoPlatform.drivers 1 signalledBof (fun _ => .lost)
        (selfMadeExec 1) = .returned 1 s) ∧
      ¬ Genuine rhinoPlatform 1 signalledBof (selfMadeExec 1) := by
  have unloaded : loadBofBinary rhinoPlatform.drivers 1 (servedBof (calmLoad smoothConfig))
      (fun _ => .lost) (selfMadeExec 0) = .returned 1 (selfMadeExec 0) := rfl
  have signalled : loadBofBinary rhinoPlatform.drivers 1 signalledBof (fun _ => .lost)
      (selfMadeExec 1) = .returned 1 { selfMadeExec 1 with ledger := ⟨1, .idle, false⟩ } := rfl
  refine ⟨⟨by decide, unloaded, ?_⟩, by decide, ⟨_, signalled⟩, ?_⟩
  · intro genuine
    rcases genuine _ 1 _ unloaded (by decide) with ⟨searched, -, ended⟩
    contradiction
  · intro genuine
    rcases genuine _ 1 _ signalled (by decide) with ⟨searched, -, ended⟩
    contradiction

end Rhino.Binfmt
