import Rhino.Exec.Ledger
import Rhino.Loader.Core

/-!
# Executing a BOF file

`load_bof_binary` of `fs/binfmt_bof.c` is the handler of the BOF format.  It
checks the header, has the daemon load the hardware, overwrites the buffer of
the exec with the ELF header that `b_elfoff` points to, and calls
`search_binary_handler` of `fs/exec.c` again, which runs through the list of
formats from the start.

The two call each other.  The model of `load_bof_binary` is given the function
that it calls at its end, and the model of `search_binary_handler` is given the
number of levels that the recursion may use.

The daemon works beside the exec.  What it does in the meantime is given to each
call of the handler as lists of events, and `Exec.Ledger` says which of them can
happen.  A task that a signal has woken goes on while its item is still in the
queue or in hand: the daemon then loads what stands in the buffer when it comes
to it, and stores its result there.

The handlers of other formats are known only by what they return and by whether
they give up `mm` and `file` of the exec; the script and misc formats, which
start over with another file, are not among them.
-/

namespace Rhino.Binfmt

open Rhino.Bof Rhino.Bytes Rhino.Hwr Rhino.Kernel Rhino.Loader

variable {δ ε : Type}

def BINPRM_BUF_SIZE : ℕ := 128

def BM_RHINO : UInt16 := 5

def EM_ARM : UInt16 := 40

/-- A call of `borph_load_hw` and the kernel that it finds. -/
structure LoadCall (δ ε : Type) where
  item : ExecqItem
  env : LoadEnv ε
  kernel : KernelState δ

/-- An exec on its way through the handlers: the buffer as it was read and the
contents of the file, what `run_execq` has stored in `load_err` since, whether
`mm` and `file` of `struct linux_binprm` are set, the kernel, and the hand-over to
the daemon.  How many searches have been started and which loads have been made is
kept for the record. -/
structure ExecState (δ ε : Type) where
  bprm : LinuxBinprm
  stored : Option ℤ
  mm : Bool
  file : Bool
  kernel : KernelState δ
  ledger : Exec.Ledger
  searches : ℕ
  loads : List (LoadCall δ ε)

/-- How a call ends: it returns, the task never gets back from the hardware
half, or the recursion needs more levels than it was given. -/
inductive ExecEnd (δ ε : Type) where
  | returned (retval : ℤ) (s : ExecState δ ε)
  | lost
  | deep

/-- An exec of the file, before the first search. -/
def ExecState.start (bprm : LinuxBinprm) (kernel : KernelState δ) : ExecState δ ε where
  bprm := bprm
  stored := none
  mm := true
  file := true
  kernel := kernel
  ledger := Exec.Ledger.settled
  searches := 0
  loads := []

/-! ## The daemon -/

/-- The header once `run_execq` has stored the result of a load in it. -/
def storeErr (hdr : BofHdr) (retval : ℤ) : BofHdr :=
  { hdr with loadErr := UInt32.ofInt retval }

/-- The value of `load_err`. -/
def ExecState.loadErr (s : ExecState δ ε) : ℤ :=
  s.stored.getD s.bprm.buf.loadErr.toInt32.toInt

/-- What the buffer holds. -/
def ExecState.header (s : ExecState δ ε) : BofHdr :=
  s.stored.elim s.bprm.buf (storeErr s.bprm.buf)

/-- A step of the daemon for an item of the exec: `borph_load_hw`, the store of its
result, and the `wake_up_process`. -/
inductive DaemonEvent (ε : Type) where
  | take (load : LoadEnv ε)
  | store
  | wake

section Daemon

variable (drivers : UInt16 → HwrDriver δ ε) (task : Task)

/-- The load that the daemon makes for an item of the exec.  All items of an exec have
one `bprm`, and the header is read from it when the load starts. -/
def ExecState.loadCall (s : ExecState δ ε) (load : LoadEnv ε) : LoadCall δ ε where
  item := ⟨s.bprm, task⟩
  env := load
  kernel := s.kernel

/-- What a call of `borph_load_hw` comes to. -/
def LoadCall.ended (call : LoadCall δ ε) : LoadOutcome × KernelState δ :=
  borphLoadHw drivers call.item call.env call.kernel

/-- The exec after a step of the daemon; one that the hand-over does not allow does
not happen. -/
def ExecState.event (s : ExecState δ ε) : DaemonEvent ε → ExecState δ ε
  | .take load =>
      let call := s.loadCall task load
      (s.ledger.move (.take (call.ended drivers).1.result)).elim s fun ledger =>
        { s with
          ledger := ledger
          kernel := (call.ended drivers).2
          loads := s.loads ++ [call] }
  | .store =>
      (s.ledger.move .store).elim s fun ledger =>
        { s with ledger := ledger, stored := s.ledger.daemon.result }
  | .wake => (s.ledger.move .wake).elim s fun ledger => { s with ledger := ledger }

/-- The exec after some steps of the daemon. -/
def ExecState.perform (s : ExecState δ ε) (events : List (DaemonEvent ε)) : ExecState δ ε :=
  events.foldl (fun s event => s.event drivers task event) s

end Daemon

/-! ## The BOF handler -/

/-- What the kernel answers to one call of `load_bof_binary`, and what the daemon does
in the meantime: before the handler looks at the header, from the `list_add_tail` to
the `set_current_state`, from there to the test of `load_err`, and from the test to the
read of the ELF header.  A signal ends the sleep if it is `signalled`. -/
structure BofEnv (ε : Type) where
  itemMem : Bool
  entry : List (DaemonEvent ε)
  appended : List (DaemonEvent ε)
  asleep : List (DaemonEvent ε)
  signalled : Bool
  reading : List (DaemonEvent ε)
  elfIo : ReadIo

/-- The header is one that the handler is responsible for. -/
def Accepts (hdr : BofHdr) : Prop :=
  hdr.ident.take 4 = [0x19, 0x42, 0x4f, 0x46] ∧ hdr.bMachine = BM_RHINO ∧
    hdr.bElfmachine = EM_ARM ∧ hdr.bVersion = 6

instance (hdr : BofHdr) : Decidable (Accepts hdr) :=
  inferInstanceAs (Decidable (_ ∧ _ ∧ _ ∧ _))

/-- `bof_has_fpga`. -/
def bofHasFpga (hdr : BofHdr) : Bool :=
  0 < hdr.bNumchip

section Handlers

variable (drivers : UInt16 → HwrDriver δ ε) (task : Task)

/-- The exec with another item in the queue. -/
def ExecState.append (s : ExecState δ ε) : ExecState δ ε :=
  { s with ledger := { s.ledger with queued := s.ledger.queued + 1 } }

/-- The task marked as a sleeper or as running. -/
def ExecState.setInterruptible (s : ExecState δ ε) (interruptible : Bool) : ExecState δ ε :=
  { s with ledger := { s.ledger with interruptible := interruptible } }

/-- The exec from the `list_add_tail` to the end of its sleep. -/
def ExecState.sleep (s : ExecState δ ε) (env : BofEnv ε) : ExecState δ ε :=
  ((s.append.perform drivers task env.appended).setInterruptible true).perform drivers task
    env.asleep

/-- The hardware half up to the return of `schedule()`, unless it uses an item that
`kmalloc` did not return or nothing ends the sleep. -/
def hardwareHalf (env : BofEnv ε) (s : ExecState δ ε) : Option (ExecState δ ε) :=
  if bofHasFpga s.bprm.buf then
    if env.itemMem then
      let s := s.sleep drivers task env
      if env.signalled ∨ s.ledger.interruptible = false then some (s.setInterruptible false)
      else none
    else
      none
  else
    some s

/-- The `kernel_read` of the ELF header. -/
def readElf (io : ReadIo) (bprm : LinuxBinprm) : ℤ × List UInt8 :=
  kernelRead bprm.file io bprm.buf.bElfoff.toNat BINPRM_BUF_SIZE

/-- The exec once these bytes stand at the front of its buffer. -/
def ExecState.overwrite (s : ExecState δ ε) (bytes : List UInt8) : ExecState δ ε :=
  { s with
    bprm := { s.bprm with buf := BofHdr.decode (overlay bytes s.header.encode) }
    stored := none }

/-- How far `load_bof_binary` gets before the search: the task is lost, it returns, or
it goes on. -/
inductive Stage (δ ε : Type) where
  | lost
  | ends (retval : ℤ) (s : ExecState δ ε)
  | goesOn (s : ExecState δ ε)

/-- `load_bof_binary` up to its last call. -/
def bofStage (env : BofEnv ε) (s : ExecState δ ε) : Stage δ ε :=
  let s := s.perform drivers task env.entry
  if Accepts s.bprm.buf then
    match hardwareHalf drivers task env s with
    | none => .lost
    | some s =>
        if s.loadErr ≠ 0 then .ends s.loadErr s
        else
          let s := s.perform drivers task env.reading
          let read := readElf env.elfIo s.bprm
          if read.1 < 0 then .ends (-enoexec) s else .goesOn (s.overwrite read.2)
  else
    .ends (-enoexec) s

/-- `load_bof_binary`, where `search` is `search_binary_handler`. -/
def loadBofBinary (env : BofEnv ε) (search : ExecState δ ε → ExecEnd δ ε) (s : ExecState δ ε) :
    ExecEnd δ ε :=
  match bofStage drivers task env s with
  | .lost => .lost
  | .ends retval s => .returned retval s
  | .goesOn s => search s

/-! ## The search for a handler -/

/-- What the handler of another format does with an exec. -/
structure OtherEnd where
  retval : ℤ
  mm : Bool
  file : Bool

/-- One call of a handler, with what the kernel answers to it. -/
inductive Handler (ε : Type) where
  | bof (env : BofEnv ε)
  | other (ends : OtherEnd)

/-- What one call of `search_binary_handler` meets: the result of the security
and audit checks, and the formats that are registered at its first and at its
second try. -/
structure SearchEnv (ε : Type) where
  check : ℤ
  first : List (Handler ε)
  second : List (Handler ε)

/-- Another handler leaves the buffer and the hardware alone. -/
def otherHandler (ends : OtherEnd) (s : ExecState δ ε) : ExecEnd δ ε :=
  .returned ends.retval { s with mm := ends.mm, file := ends.file }

/-- The call of `load_binary`. -/
def loadBinary (search : ExecState δ ε → ExecEnd δ ε) : Handler ε → ExecState δ ε → ExecEnd δ ε
  | .bof env, s => loadBofBinary drivers task env search s
  | .other ends, s => otherHandler ends s

/-- The loop over the formats, with `retval` from before.  An error leaves
`search_binary_handler`; the loop itself is left with the last `retval`. -/
def tryFormats (search : ExecState δ ε → ExecEnd δ ε) :
    List (Handler ε) → ℤ → ExecState δ ε → Except (ExecEnd δ ε) (ℤ × ExecState δ ε)
  | [], retval, s => .ok (retval, s)
  | handler :: rest, _, s =>
      match loadBinary drivers task search handler s with
      | .returned retval s =>
          if 0 ≤ retval then .error (.returned retval { s with file := false })
          else if retval ≠ -enoexec ∨ s.mm = false then .ok (retval, s)
          else if s.file = false then .error (.returned retval s)
          else tryFormats search rest retval s
      | .lost => .error .lost
      | .deep => .error .deep

/-- `printable` of `fs/exec.c`. -/
def printable (c : UInt8) : Bool :=
  c = 9 || c = 10 || (0x20 ≤ c && c ≤ 0x7e)

/-- `search_binary_handler` on the given number of levels, in a kernel with
loadable modules.  The second try follows a `request_module`, which may have
registered new formats. -/
def searchBinaryHandler (env : ℕ → SearchEnv ε) : ℕ → ExecState δ ε → ExecEnd δ ε
  | 0, _ => .deep
  | levels + 1, s =>
      let answers := env s.searches
      let s := { s with searches := s.searches + 1 }
      if answers.check ≠ 0 then .returned answers.check s
      else
        match tryFormats drivers task (searchBinaryHandler env levels) answers.first
          (-enoent) s with
        | .error ended => ended
        | .ok (retval, s) =>
            if retval ≠ -enoexec ∨ s.mm = false then .returned retval s
            else if (s.bprm.buf.ident.take 4).all printable then .returned retval s
            else
              match tryFormats drivers task (searchBinaryHandler env levels) answers.second
                retval s with
              | .error ended => ended
              | .ok (retval, s) => .returned retval s

end Handlers

/-- The buffer and the file as `prepare_binprm` leaves them. -/
def prepareBinprm (file : File) : LinuxBinprm where
  buf := BofHdr.decode (overlay (slice 0 BINPRM_BUF_SIZE file)
    (List.replicate BINPRM_BUF_SIZE 0))
  file := file

/-- The header of a file that has one is what the handlers find in the buffer. -/
theorem prepareBinprm_buf {file : File} (sized : BofHdr.size ≤ file.length) :
    (prepareBinprm file).buf = BofHdr.decode (slice 0 BofHdr.size file) := by
  have enough : BofHdr.size ≤ (slice 0 BINPRM_BUF_SIZE file).length := by
    rw [slice_length]
    exact le_min (by decide) sized
  have front : slice 0 BofHdr.size (slice 0 BINPRM_BUF_SIZE file) = slice 0 BofHdr.size file :=
    slice_slice_zero (by decide) file
  rw [prepareBinprm, BofHdr.decode_overlay enough, front]

/-! ## The ELF header -/

theorem readElf_neg_iff (io : ReadIo) (bprm : LinuxBinprm) :
    (readElf io bprm).1 < 0 ↔ io.fails = true := by
  have short : ¬ 2 ^ 31 ≤ BINPRM_BUF_SIZE := by decide
  have general := kernelRead_neg_iff bprm.file io bprm.buf.bElfoff.toNat BINPRM_BUF_SIZE
  rwa [or_iff_right short] at general

/-- A read that does not fail delivers what the file has at `b_elfoff`. -/
theorem readElf_whole {io : ReadIo} (whole : io.Whole) (served : io.fails = false)
    (bprm : LinuxBinprm) :
    (readElf io bprm).2 = slice bprm.buf.bElfoff.toNat BINPRM_BUF_SIZE bprm.file := by
  have nonnegative : 0 ≤ (readElf io bprm).1 := by
    rw [← not_lt, readElf_neg_iff, served]
    exact Bool.false_ne_true
  exact congrArg Prod.snd (kernelRead_whole whole (by decide) nonnegative)

/-! ## What the daemon does -/

section Daemon

variable (drivers : UInt16 → HwrDriver δ ε) (task : Task)

/-- What a step of the daemon does, if it happens. -/
inductive Performs (s : ExecState δ ε) : DaemonEvent ε → ExecState δ ε → Prop where
  | nothing (event : DaemonEvent ε) : Performs s event s
  | load (load : LoadEnv ε) (queued : 0 < s.ledger.queued) (idle : s.ledger.daemon = .idle) :
      Performs s (.take load) { s with
        ledger := { s.ledger with
          queued := s.ledger.queued - 1
          daemon := ((s.loadCall task load).ended drivers).1.result.elim .gone .storing }
        kernel := ((s.loadCall task load).ended drivers).2
        loads := s.loads ++ [s.loadCall task load] }
  | store {retval : ℤ} (storing : s.ledger.daemon = .storing retval) :
      Performs s .store
        { s with ledger := { s.ledger with daemon := .waking }, stored := some retval }
  | wake (waking : s.ledger.daemon = .waking) :
      Performs s .wake
        { s with ledger := { s.ledger with daemon := .idle, interruptible := false } }

variable {drivers task}

theorem event_take {s : ExecState δ ε} (queued : 0 < s.ledger.queued)
    (idle : s.ledger.daemon = .idle) (load : LoadEnv ε) :
    s.event drivers task (.take load) = { s with
      ledger := { s.ledger with
        queued := s.ledger.queued - 1
        daemon := ((s.loadCall task load).ended drivers).1.result.elim .gone .storing }
      kernel := ((s.loadCall task load).ended drivers).2
      loads := s.loads ++ [s.loadCall task load] } := by
  simp only [ExecState.event, Exec.Ledger.move, queued, idle, and_self, if_true,
    Option.elim_some]

theorem event_store {s : ExecState δ ε} {retval : ℤ} (storing : s.ledger.daemon = .storing retval) :
    s.event drivers task .store =
      { s with ledger := { s.ledger with daemon := .waking }, stored := some retval } := by
  simp only [ExecState.event, Exec.Ledger.move, storing, Option.elim_some,
    Exec.Serving.result]

theorem event_wake {s : ExecState δ ε} (waking : s.ledger.daemon = .waking) :
    s.event drivers task .wake =
      { s with ledger := { s.ledger with daemon := .idle, interruptible := false } } := by
  simp only [ExecState.event, Exec.Ledger.move, waking, if_true, Option.elim_some]

theorem performs_event (s : ExecState δ ε) (event : DaemonEvent ε) :
    Performs drivers task s event (s.event drivers task event) := by
  cases event with
  | take load =>
      by_cases ready : 0 < s.ledger.queued ∧ s.ledger.daemon = .idle
      · rw [event_take ready.1 ready.2]
        exact .load load ready.1 ready.2
      · simp only [ExecState.event, Exec.Ledger.move, if_neg ready, Option.elim_none]
        exact .nothing _
  | store =>
      cases daemon : s.ledger.daemon with
      | storing retval =>
          rw [event_store daemon]
          exact .store daemon
      | idle | waking | gone =>
          simp only [ExecState.event, Exec.Ledger.move, daemon, Option.elim_none]
          exact .nothing _
  | wake =>
      by_cases waking : s.ledger.daemon = .waking
      · rw [event_wake waking]
        exact .wake waking
      · simp only [ExecState.event, Exec.Ledger.move, if_neg waking, Option.elim_none]
        exact .nothing _

/-- What every step of the daemon keeps holds after some of them. -/
theorem perform_invariant (invariant : ExecState δ ε → Prop)
    (kept : ∀ s event next, invariant s → Performs drivers task s event next → invariant next)
    {s : ExecState δ ε} (initial : invariant s) (events : List (DaemonEvent ε)) :
    invariant (s.perform drivers task events) :=
  Transition.foldl_invariant _ invariant
    (fun s event holds => kept s event _ holds (performs_event s event)) initial events

/-- The same for what steps keep that meet a guard. -/
theorem perform_of_along {guard : ExecState δ ε → DaemonEvent ε → Prop}
    (invariant : ExecState δ ε → Prop)
    (kept : ∀ s event next, invariant s → guard s event → Performs drivers task s event next →
      invariant next)
    {s : ExecState δ ε} (initial : invariant s) {events : List (DaemonEvent ε)}
    (along : Transition.Along (fun s event => some (s.event drivers task event)) guard s events) :
    invariant (s.perform drivers task events) := by
  refine (Transition.always_of_along invariant (fun _ holds => holds) ?_ initial along).last _
    (Transition.run_total _ s events)
  intro state event next holds guarded taken
  cases taken
  exact kept state event _ holds guarded (performs_event state event)

/-- The daemon leaves the buffer as it was read, and the rest of the exec. -/
structure SameExec (s next : ExecState δ ε) : Prop where
  bprm : next.bprm = s.bprm
  mm : next.mm = s.mm
  file : next.file = s.file
  searches : next.searches = s.searches

theorem SameExec.trans {s middle next : ExecState δ ε} (first : SameExec s middle)
    (second : SameExec middle next) : SameExec s next where
  bprm := second.bprm.trans first.bprm
  mm := second.mm.trans first.mm
  file := second.file.trans first.file
  searches := second.searches.trans first.searches

theorem sameExec_perform (s : ExecState δ ε) (events : List (DaemonEvent ε)) :
    SameExec s (s.perform drivers task events) := by
  refine perform_invariant (SameExec s) ?_ ⟨rfl, rfl, rfl, rfl⟩ events
  intro middle event next same performs
  refine same.trans ?_
  cases performs <;> exact ⟨rfl, rfl, rfl, rfl⟩

@[simp]
theorem perform_bprm (s : ExecState δ ε) (events : List (DaemonEvent ε)) :
    (s.perform drivers task events).bprm = s.bprm :=
  (sameExec_perform s events).bprm

end Daemon

/-! ## The ways through the handler -/

section Ways

variable {drivers : UInt16 → HwrDriver δ ε} {task : Task} {env : BofEnv ε}

theorem sameExec_ledger (s : ExecState δ ε) (ledger : Exec.Ledger) :
    SameExec s { s with ledger := ledger } :=
  ⟨rfl, rfl, rfl, rfl⟩

theorem sameExec_sleep (s : ExecState δ ε) : SameExec s (s.sleep drivers task env) := by
  have appended : SameExec s (s.append.perform drivers task env.appended) :=
    (sameExec_ledger s _).trans (sameExec_perform _ env.appended)
  exact (appended.trans (sameExec_ledger _ _)).trans (sameExec_perform _ env.asleep)

/-- The ways through the hardware half. -/
theorem hardwareHalf_eq_some_iff {s next : ExecState δ ε} :
    hardwareHalf drivers task env s = some next ↔
      (s.bprm.buf.bNumchip = 0 ∧ s = next) ∨
      (0 < s.bprm.buf.bNumchip ∧ env.itemMem = true ∧
        (env.signalled = true ∨ (s.sleep drivers task env).ledger.interruptible = false) ∧
        (s.sleep drivers task env).setInterruptible false = next) := by
  by_cases chips : 0 < s.bprm.buf.bNumchip
  · have some : s.bprm.buf.bNumchip ≠ 0 := by simpa [UInt32.pos_iff_ne_zero] using chips
    cases itemMem : env.itemMem with
    | false => simp [hardwareHalf, bofHasFpga, chips, itemMem, some]
    | true => simp [hardwareHalf, bofHasFpga, chips, itemMem, some]
  · have none : s.bprm.buf.bNumchip = 0 := by simpa using chips
    simp [hardwareHalf, bofHasFpga, none]

theorem sameExec_of_half {s half : ExecState δ ε}
    (returned : hardwareHalf drivers task env s = some half) : SameExec s half := by
  rcases hardwareHalf_eq_some_iff.mp returned with ⟨-, rfl⟩ | ⟨-, -, -, rfl⟩
  · exact ⟨rfl, rfl, rfl, rfl⟩
  · exact (sameExec_sleep s).trans (sameExec_ledger _ _)

/-- The daemon serves the item while its task sleeps, and the ELF header can be read. -/
def servedBof (load : LoadEnv ε) : BofEnv ε where
  itemMem := true
  entry := []
  appended := []
  asleep := [.take load, .store, .wake]
  signalled := false
  reading := []
  elfIo := .upTo MAX_RW_COUNT

/-- A signal ends the sleep before the daemon comes to the item. -/
def signalledBof : BofEnv ε where
  itemMem := true
  entry := []
  appended := []
  asleep := []
  signalled := true
  reading := []
  elfIo := .upTo MAX_RW_COUNT

/-- The daemon serves an item of the exec, if at all, while its task sleeps for it. -/
structure BofEnv.Prompt (env : BofEnv ε) : Prop where
  entry : env.entry = []
  appended : env.appended = []
  asleep : env.asleep = [] ∨ ∃ load, env.asleep = [.take load, .store, .wake]
  reading : env.reading = []

variable (drivers task) in
/-- The exec after the daemon has served one of its items. -/
def ExecState.served (s : ExecState δ ε) (load : LoadEnv ε) (retval : ℤ) (queued : ℕ) :
    ExecState δ ε :=
  { s with
    stored := some retval
    ledger := ⟨queued, .idle, false⟩
    kernel := ((s.loadCall task load).ended drivers).2
    loads := s.loads ++ [s.loadCall task load] }

variable {load : LoadEnv ε} {s half : ExecState δ ε} {retval : ℤ}

/-- A daemon that has nothing else in hand serves the sleeper. -/
theorem perform_served (queued : 0 < s.ledger.queued) (idle : s.ledger.daemon = .idle)
    (returned : ((s.loadCall task load).ended drivers).1.result = some retval) :
    s.perform drivers task [.take load, .store, .wake] =
      s.served drivers task load retval (s.ledger.queued - 1) := by
  simp only [ExecState.perform, List.foldl_cons, List.foldl_nil]
  rw [event_take queued idle, returned, Option.elim_some, event_store rfl, event_wake rfl]
  rfl

theorem hardwareHalf_served (mem : env.itemMem = true) (appended : env.appended = [])
    (served : env.asleep = [.take load, .store, .wake]) (chips : 0 < s.bprm.buf.bNumchip)
    (idle : s.ledger.daemon = .idle)
    (returned : ((s.loadCall task load).ended drivers).1.result = some retval) :
    hardwareHalf drivers task env s =
      some (s.served drivers task load retval s.ledger.queued) := by
  have slept : s.sleep drivers task env =
      s.served drivers task load retval s.ledger.queued := by
    rw [ExecState.sleep, appended, served]
    exact perform_served (s := s.append.setInterruptible true) (Nat.succ_pos _) idle returned
  refine hardwareHalf_eq_some_iff.mpr (Or.inr ⟨chips, mem, ?_⟩)
  rw [slept]
  exact ⟨Or.inr rfl, rfl⟩

theorem hardwareHalf_signalledBof (chips : 0 < s.bprm.buf.bNumchip) :
    hardwareHalf drivers task signalledBof s =
      some { s with ledger := ⟨s.ledger.queued + 1, s.ledger.daemon, false⟩ } :=
  hardwareHalf_eq_some_iff.mpr (Or.inr ⟨chips, rfl, Or.inl rfl, rfl⟩)

/-- The ways of the handler up to the search. -/
inductive StageEnds (drivers : UInt16 → HwrDriver δ ε) (task : Task) (env : BofEnv ε)
    (s : ExecState δ ε) : Stage δ ε → Prop where
  | foreign (refused : ¬ Accepts s.bprm.buf) :
      StageEnds drivers task env s (.ends (-enoexec) (s.perform drivers task env.entry))
  | lost (accepted : Accepts s.bprm.buf)
      (half : hardwareHalf drivers task env (s.perform drivers task env.entry) = none) :
      StageEnds drivers task env s .lost
  | error {half : ExecState δ ε} (accepted : Accepts s.bprm.buf)
      (returned : hardwareHalf drivers task env (s.perform drivers task env.entry) = some half)
      (failed : half.loadErr ≠ 0) : StageEnds drivers task env s (.ends half.loadErr half)
  | unread {half : ExecState δ ε} (accepted : Accepts s.bprm.buf)
      (returned : hardwareHalf drivers task env (s.perform drivers task env.entry) = some half)
      (fine : half.loadErr = 0) (fails : env.elfIo.fails = true) :
      StageEnds drivers task env s (.ends (-enoexec) (half.perform drivers task env.reading))
  | search {half : ExecState δ ε} (accepted : Accepts s.bprm.buf)
      (returned : hardwareHalf drivers task env (s.perform drivers task env.entry) = some half)
      (fine : half.loadErr = 0) (served : env.elfIo.fails = false) :
      StageEnds drivers task env s (.goesOn
        ((half.perform drivers task env.reading).overwrite (readElf env.elfIo s.bprm).2))

/-- How the handler goes on behind its hardware half. -/
theorem bofStage_of_half (accepted : Accepts s.bprm.buf)
    (returned : hardwareHalf drivers task env (s.perform drivers task env.entry) = some half) :
    bofStage drivers task env s =
      if half.loadErr ≠ 0 then .ends half.loadErr half
      else if env.elfIo.fails = true then
        .ends (-enoexec) (half.perform drivers task env.reading)
      else .goesOn ((half.perform drivers task env.reading).overwrite
        (readElf env.elfIo s.bprm).2) := by
  have bprm_eq : half.bprm = s.bprm :=
    (sameExec_of_half returned).bprm.trans (perform_bprm s env.entry)
  simp only [bofStage, perform_bprm, if_pos accepted, returned, readElf_neg_iff, bprm_eq]

theorem stageEnds (s : ExecState δ ε) :
    StageEnds drivers task env s (bofStage drivers task env s) := by
  by_cases accepted : Accepts s.bprm.buf
  · cases half : hardwareHalf drivers task env (s.perform drivers task env.entry) with
    | none =>
        simp only [bofStage, perform_bprm, if_pos accepted, half]
        exact .lost accepted half
    | some next =>
        rw [bofStage_of_half accepted half]
        split
        · exact .error accepted half ‹_›
        · split
          · exact .unread accepted half (not_not.mp ‹_›) ‹_›
          · exact .search accepted half (not_not.mp ‹_›) (Bool.not_eq_true _ ▸ ‹_›)
  · simp only [bofStage, perform_bprm, if_neg accepted]
    exact .foreign accepted

end Ways

end Rhino.Binfmt
