import Rhino.Binfmt.Failure

/-!
# The recursion of an exec

Nothing counts the levels of the recursion from `load_bof_binary` to itself.
Each level goes on at the header that `b_elfoff` of the one before points to, so
the recursion is no deeper than the chain of these headers is long: `Leads` is its
step.

A level goes on if it finds zero in `load_err`.  A header brings its own `load_err`,
which is what the handler finds if there are no chips or if a signal ends the sleep
before the daemon has served the item, so that a chain of headers with zero there, of
which `LeadsItself` is the step, can be followed to its end.
-/

namespace Rhino.Binfmt

open Rhino.Bof Rhino.Bytes Rhino.Hwr Rhino.Kernel Rhino.Loader Rhino.Transition

/-! ## Chains of headers -/

/-- The chain of a relation from a place has at most `n` steps. -/
def ChainEnds {α : Type*} (leads : α → α → Prop) : ℕ → α → Prop
  | 0, place => ∀ next, ¬ leads place next
  | n + 1, place => ∀ next, leads place next → ChainEnds leads n next

theorem ChainEnds.succ {α : Type*} {leads : α → α → Prop} {n : ℕ} {place : α}
    (ends : ChainEnds leads n place) : ChainEnds leads (n + 1) place := by
  induction n generalizing place with
  | zero => exact fun next follows => absurd follows (ends next)
  | succ n ih => exact fun next follows => ih (ends next follows)

section Chain

variable (file : File)

/-- The header that follows in the buffer. -/
def nextHdr (hdr : BofHdr) : BofHdr :=
  BofHdr.decode (overlay (slice hdr.bElfoff.toNat BINPRM_BUF_SIZE file) hdr.encode)

/-- The header is followed by the other, whatever has been stored in its `load_err`. -/
def Leads (hdr next : BofHdr) : Prop :=
  Accepts hdr ∧ ∃ stored : Option ℤ, next = nextHdr file (stored.elim hdr (storeErr hdr))

/-- The header is followed by the other as it stands in the file, without an error. -/
def LeadsItself (hdr next : BofHdr) : Prop :=
  Accepts hdr ∧ hdr.loadErr = 0 ∧ next = nextHdr file hdr

end Chain

/-! ## Execs over file systems that deliver what a file has -/

/-- The search is given only such answers. -/
def Answers {ε : Type} (allowed : BofEnv ε → Prop) (envs : ℕ → SearchEnv ε) : Prop :=
  ∀ n env, (envs n).Calls env → allowed env

/-- Some number of levels is enough for every exec of the file with such answers. -/
def Bounded {δ ε : Type} (drivers : UInt16 → HwrDriver δ ε) (allowed : BofEnv ε → Prop)
    (file : File) : Prop :=
  ∃ levels, ∀ (task : Task) (envs : ℕ → SearchEnv ε) (kernel : KernelState δ),
    Answers allowed envs →
      searchBinaryHandler drivers task envs levels (.start (prepareBinprm file) kernel) ≠ .deep

/-! ## A chain of accepted headers that ends -/

section Accepted

variable {δ ε : Type} {drivers : UInt16 → HwrDriver δ ε} {task : Task} {file : File}

/-- The exec stands at a header from which the chain has at most `n` steps. -/
def HeadersLeft (file : File) (n : ℕ) (s : ExecState δ ε) : Prop :=
  s.bprm.file = file ∧ ChainEnds (Leads file) n s.bprm.buf

theorem headersLeft_overwrite {io : ReadIo} {n : ℕ} {s found : ExecState δ ε}
    (whole : io.Whole) (served : io.fails = false) (accepted : Accepts s.bprm.buf)
    (left : HeadersLeft file n s) (bprm_eq : found.bprm = s.bprm) :
    ∃ m, n = m + 1 ∧ HeadersLeft file m (found.overwrite (readElf io s.bprm).2) := by
  have leads : Leads file s.bprm.buf (found.overwrite (readElf io s.bprm).2).bprm.buf := by
    refine ⟨accepted, found.stored, ?_⟩
    rw [readElf_whole whole served, left.1]
    simp only [ExecState.overwrite, ExecState.header, bprm_eq, nextHdr]
    cases found.stored <;> rfl
  cases n with
  | zero => exact absurd leads (left.2 _)
  | succ m =>
      refine ⟨m, rfl, ?_, left.2 _ leads⟩
      exact (congrArg LinuxBinprm.file bprm_eq).trans left.1

theorem HeadersLeft.congr {n : ℕ} {s next : ExecState δ ε} (left : HeadersLeft file n s)
    (bprm_eq : next.bprm = s.bprm) : HeadersLeft file n next := by
  rw [HeadersLeft, bprm_eq]
  exact left

/-- Whatever signals come and whatever the daemon does, an exec does not get further
than the chain of accepted headers. -/
def acceptedDescent (drivers : UInt16 → HwrDriver δ ε) (task : Task) (file : File) :
    Descent drivers task (fun env => env.elfIo.Whole) where
  within := HeadersLeft file
  framed _ _ _ _ _ left := left
  succ left := ⟨left.1, left.2.succ⟩
  stage := by
    intro env n s whole left
    have ends : StageEnds drivers task env s (bofStage drivers task env s) := stageEnds s
    have through {half : ExecState δ ε} (returned : hardwareHalf drivers task env
        (s.perform drivers task env.entry) = some half) : half.bprm = s.bprm :=
      (sameExec_of_half returned).bprm.trans (perform_bprm s env.entry)
    cases stage : bofStage drivers task env s with
    | lost => trivial
    | ends retval next =>
        rw [stage] at ends
        cases ends with
        | foreign => exact left.congr (perform_bprm s env.entry)
        | error _ returned => exact left.congr (through returned)
        | unread _ returned =>
            exact left.congr ((perform_bprm _ env.reading).trans (through returned))
    | goesOn next =>
        rw [stage] at ends
        cases ends with
        | search accepted returned _ served =>
            exact headersLeft_overwrite whole served accepted left
              ((perform_bprm _ env.reading).trans (through returned))

theorem bounded_of_accepted {n : ℕ} (ends : ChainEnds (Leads file) n (prepareBinprm file).buf) :
    Bounded drivers (fun env => env.elfIo.Whole) file :=
  ⟨n + 1, fun task _ _ answers =>
    (acceptedDescent drivers task file).not_deep answers ⟨rfl, ends⟩⟩

end Accepted

/-! ## A chain that does not end -/

section Endless

variable {δ ε : Type} {drivers : UInt16 → HwrDriver δ ε} {task : Task} {file : File}

/-- The exec stands at a header over which nothing has been stored. -/
structure Ready (file : File) (hdr : BofHdr) (s : ExecState δ ε) : Prop where
  bprm : s.bprm = ⟨hdr, file⟩
  stored : s.stored = none

/-- Without chips, or with a signal, the hardware half leaves the header alone. -/
theorem Ready.half {hdr : BofHdr} {s : ExecState δ ε} (ready : Ready file hdr s) :
    ∃ half, hardwareHalf drivers task signalledBof s = some half ∧ Ready file hdr half := by
  by_cases chips : 0 < s.bprm.buf.bNumchip
  · exact ⟨_, hardwareHalf_signalledBof chips, ready.bprm, ready.stored⟩
  · have none : s.bprm.buf.bNumchip = 0 := by simpa using chips
    exact ⟨s, hardwareHalf_eq_some_iff.mpr (Or.inl ⟨none, rfl⟩), ready⟩

/-- The handler then goes on with what it reads. -/
theorem Ready.goesOn {hdr next : BofHdr} {s : ExecState δ ε} (ready : Ready file hdr s)
    (leads : LeadsItself file hdr next) :
    ∃ after, Ready file next after ∧ bofStage drivers task signalledBof s = .goesOn after := by
  obtain ⟨accepted, zero, rfl⟩ := leads
  have buf_eq : s.bprm.buf = hdr := congrArg LinuxBinprm.buf ready.bprm
  obtain ⟨half, returned, left⟩ := @Ready.half _ _ drivers task file hdr s ready
  have fine : half.loadErr = 0 := by
    rw [ExecState.loadErr, left.stored, left.bprm, Option.getD_none, zero]
    rfl
  have served : (signalledBof : BofEnv ε).elfIo.fails = false := rfl
  refine ⟨half.overwrite (slice hdr.bElfoff.toNat BINPRM_BUF_SIZE file), ⟨?_, rfl⟩, ?_⟩
  · simp only [ExecState.overwrite, ExecState.header, left.bprm, left.stored, nextHdr]
    rfl
  · rw [bofStage_of_half (buf_eq ▸ accepted) returned, if_neg (not_not.mpr fine), served,
      if_neg Bool.false_ne_true, readElf_whole le_rfl served, ready.bprm]
    rfl

/-- The formats with the BOF handler alone. -/
def bofOnly (env : BofEnv ε) : SearchEnv ε where
  check := 0
  first := [.bof env]
  second := []

theorem calls_bofOnly {env other : BofEnv ε} (called : (bofOnly env).Calls other) :
    other = env := by
  simpa [SearchEnv.Calls, bofOnly] using called

/-- A search that is out of levels below is out of levels. -/
theorem searchBinaryHandler_deep {envs : ℕ → SearchEnv ε} {env : BofEnv ε}
    {s after : ExecState δ ε} {levels : ℕ} (answers : envs s.searches = bofOnly env)
    (goesOn : bofStage drivers task env { s with searches := s.searches + 1 } = .goesOn after)
    (deep : searchBinaryHandler drivers task envs levels after = .deep) :
    searchBinaryHandler drivers task envs (levels + 1) s = .deep := by
  simp [searchBinaryHandler, answers, bofOnly, tryFormats, loadBinary, loadBofBinary, goesOn, deep]

/-- A chain of more than `n` steps takes an exec through more than `n` levels. -/
theorem deep_of_longer {n : ℕ} {hdr : BofHdr} {s : ExecState δ ε}
    (longer : ¬ ChainEnds (LeadsItself file) n hdr) (ready : Ready file hdr s) :
    searchBinaryHandler drivers task (fun _ => bofOnly signalledBof) (n + 1) s = .deep := by
  have begun : Ready file hdr { s with searches := s.searches + 1 } := ⟨ready.bprm, ready.stored⟩
  induction n generalizing hdr s with
  | zero =>
      simp only [ChainEnds, not_forall, not_not] at longer
      obtain ⟨next, leads⟩ := longer
      obtain ⟨after, -, goesOn⟩ := begun.goesOn leads
      exact searchBinaryHandler_deep rfl goesOn rfl
  | succ n ih =>
      simp only [ChainEnds, not_forall] at longer
      obtain ⟨next, leads, longer⟩ := longer
      obtain ⟨after, arrives, goesOn⟩ := begun.goesOn leads
      exact searchBinaryHandler_deep rfl goesOn (ih longer arrives ⟨arrives.bprm, arrives.stored⟩)

theorem chainEnds_of_bounded (kernel : KernelState δ)
    (bounded : Bounded drivers (fun env => env.elfIo.Whole) file) :
    ∃ n, ChainEnds (LeadsItself file) n (prepareBinprm file).buf := by
  by_contra endless
  obtain ⟨levels, enough⟩ := bounded
  have whole : Answers (fun env : BofEnv ε => env.elfIo.Whole) fun _ => bofOnly signalledBof := by
    intro n env called
    rw [calls_bofOnly called]
    exact le_rfl
  cases levels with
  | zero => exact enough 1 _ kernel whole rfl
  | succ n => exact enough 1 _ kernel whole (deep_of_longer (not_exists.mp endless n) ⟨rfl, rfl⟩)

end Endless

/-- A file that consists of a header whose ELF part is the file itself. -/
def selfFile (numchip : UInt32) : File :=
  (bofHdr numchip 0).encode

end Rhino.Binfmt
