import Mathlib.Data.Fintype.Defs
import Rhino.Ioreg.Shared
import Rhino.Loader.Lifetime

/-!
# Register I/O beside loads and exits

Register calls look up the `borph_info` of a process once, and may then sleep on
`rhino_mutex` before they use the bus.  Meanwhile the daemon loads other
processes and processes exit.  `borph_load_hw` and `borph_exit_fpga` run in the
steps below; neither takes the mutex but for a configuration, which holds it
throughout and is one step here.

The board is the RHINO board, and the drivers are its own.
-/

namespace Rhino.Access

open Rhino.Bof Rhino.Hwr Rhino.Ioreg Rhino.Kernel Rhino.Loader Rhino.Transition

/-! ## Exits -/

/-- What `borph_exit_fpga` does next with a region. -/
inductive ExitStage where
  | deactivate
  | unconfigure
  | release
  deriving DecidableEq, Repr

/-- An exit in progress: the record, the regions that are left, and the place in
the loop over them. -/
structure Exit where
  bi : ℕ
  regions : List HwRegion
  stage : ExitStage
  deriving DecidableEq

/-- `borph_exit_fpga` up to the loop over the regions. -/
def exitBegin (kernel : KernelState RhinoDev) (bi : ℕ) : KernelState RhinoDev × Exit :=
  (kernel.modifyInfo bi fun info => { info with ioreg := [] },
    ⟨bi, (kernel.infos bi).hwRegion, .deactivate⟩)

/-- One step of `borph_exit_fpga` for a task; the last one clears its pointer. -/
def exitStep (task : Task) (kernel : KernelState RhinoDev) (exit : Exit) :
    KernelState RhinoDev × Option Exit :=
  match exit.regions with
  | [] =>
      ({ kernel with
        freed := kernel.freed ++ [exit.bi]
        borphInfo := Function.update kernel.borphInfo task none }, none)
  | region :: rest =>
      match exit.stage with
      | .deactivate =>
          ({ kernel with hw := hwrDeactivate rhinoPlatform.drivers region.addr kernel.hw },
            some { exit with stage := .unconfigure })
      | .unconfigure =>
          let (ops, hw) := getHwrops rhinoPlatform.drivers region.addr kernel.hw
          ({ kernel with hw := putHwrops region.addr (unconfigureRegion region.addr ops hw) },
            some { exit with stage := .release })
      | .release =>
          let kernel := kernel.modifyInfo exit.bi fun info => { info with hwRegion := rest }
          ({ kernel with hw := releaseHwr rhinoPlatform.drivers region.addr kernel.hw },
            some { exit with regions := rest, stage := .deactivate })

/-! ## Loads -/

/-- What `borph_load_hw` does next in the loop over the regions. -/
inductive LoadStage where
  | prepare
  | declare
  | configure
  deriving DecidableEq, Repr

/-- A load in progress: its arguments, what it meets, the record, and the
variables of the loop. -/
structure Load where
  item : ExecqItem
  env : LoadEnv ConfigRun
  bi : ℕ
  turn : ℕ
  stage : LoadStage
  curFoff : UInt32
  hwrhdr : HwrHdr
  retval : ℤ

/-- The variables of the loop with the kernel as it is now. -/
def Load.state (load : Load) (kernel : KernelState RhinoDev) : LoadState RhinoDev where
  kernel := kernel
  curFoff := load.curFoff
  hwrhdr := load.hwrhdr
  retval := load.retval

/-- The load with new values of the variables. -/
def Load.resume (load : Load) (s : LoadState RhinoDev) (turn : ℕ) (stage : LoadStage) : Load :=
  { load with
    turn := turn
    stage := stage
    curFoff := s.curFoff
    hwrhdr := s.hwrhdr
    retval := s.retval }

/-- The load in its next stage. -/
def Load.run (load : Load) (kernel : KernelState RhinoDev) :
    Except (Halt RhinoDev) (LoadState RhinoDev) :=
  match load.stage with
  | .prepare =>
      prepareRegion rhinoPlatform.drivers load.item (load.env.region load.turn)
        (load.state kernel)
  | .declare =>
      declareRegion load.item (load.env.region load.turn) load.bi (load.state kernel)
  | .configure =>
      configureRegion rhinoPlatform.drivers load.item.bprm.file (load.env.region load.turn)
        (load.state kernel)

/-- Where the load is once a stage has succeeded. -/
def Load.advance (load : Load) (s : LoadState RhinoDev) : Load :=
  match load.stage with
  | .prepare => load.resume s load.turn .declare
  | .declare => load.resume s load.turn .configure
  | .configure => load.resume s (load.turn + 1) .prepare

/-- All regions have been loaded. -/
def Load.Complete (load : Load) : Prop :=
  load.stage = .prepare ∧ load.turn = load.item.bprm.buf.bNumchip.toNat

instance (load : Load) : Decidable load.Complete :=
  inferInstanceAs (Decidable (_ ∧ _))

/-- The next stage sleeps until the mutex is free. -/
def Load.NeedsMutex (load : Load) : Prop :=
  load.stage = .configure ∧
    Configure.entered load.hwrhdr.addr (load.env.region load.turn).configure.env = true

instance (load : Load) : Decidable load.NeedsMutex :=
  inferInstanceAs (Decidable (_ ∧ _))

/-! ## The system -/

/-- The daemon: it has nothing to do, is loading, or has died or hangs for good. -/
inductive Daemon where
  | idle
  | busy (load : Load)
  | dead

/-- The kernel, the calls with the semaphore, the buffer and the bus, the daemon,
and the exits in progress. -/
structure World (ι β : Type) where
  kernel : KernelState RhinoDev
  calls : Program.State ι Stage (Shared β)
  daemon : Daemon
  exits : Task → Option Exit

/-- A call makes its next step, or gives up waiting for the semaphore; the daemon
takes an item or goes on with it; a task enters `borph_exit_fpga`; an exit goes
on. -/
inductive Label (ι : Type) where
  | call (i : ι) (gaveUp : Bool)
  | load (item : ExecqItem) (env : LoadEnv ConfigRun)
  | daemon
  | exit (task : Task)
  | teardown (task : Task)

namespace World

variable {ι β : Type}

/-- Enter `borph_exit_fpga`. -/
def beginExit (w : World ι β) (task : Task) : World ι β :=
  match w.kernel.borphInfo task with
  | none => w
  | some bi =>
      let (kernel, exit) := exitBegin w.kernel bi
      { w with kernel := kernel, exits := Function.update w.exits task (some exit) }

/-- The daemon takes an item.  Without memory for the record it dies. -/
def beginLoad (w : World ι β) (item : ExecqItem) (env : LoadEnv ConfigRun) : World ι β :=
  if env.infoMem then
    let s := loadStart item env w.kernel
    { w with
      kernel := s.kernel
      daemon := .busy ⟨item, env, w.kernel.nextInfo, 0, .prepare, s.curFoff, s.hwrhdr, s.retval⟩ }
  else { w with daemon := .dead }

/-- The daemon after a stage of a load.  A configuration that never returns keeps
the mutex. -/
def afterStage (w : World ι β) (load : Load) :
    Except (Halt RhinoDev) (LoadState RhinoDev) → World ι β
  | .ok s => { w with kernel := s.kernel, daemon := .busy (load.advance s) }
  | .error ⟨.delregion _, s⟩ =>
      beginExit { w with kernel := s.kernel, daemon := .idle } load.item.task
  | .error ⟨.oops, s⟩ => { w with kernel := s.kernel, daemon := .dead }
  | .error ⟨.stuck, s⟩ => { w with kernel := s.kernel, daemon := .dead, calls.held := true }

/-- The daemon goes on with a load. -/
def stepLoad (w : World ι β) (load : Load) : Option (World ι β) :=
  if load.Complete then
    some { w with
      kernel := w.kernel.modifyInfo load.bi fun info => { info with status := info.status ||| 1 }
      daemon := .idle }
  else if load.NeedsMutex ∧ w.calls.held = true then none
  else some (w.afterStage load (load.run w.kernel))

/-- An exit goes on. -/
def stepExit (w : World ι β) (task : Task) : Option (World ι β) :=
  (w.exits task).map fun exit =>
    let (kernel, next) := exitStep task w.kernel exit
    { w with kernel := kernel, exits := Function.update w.exits task next }

end World

section Step

variable {ι β : Type} [DecidableEq ι] (bus : Bus β) (map : FpgaMap) (requests : ι → Request)
  (owner : ι → Task)

/-- What the call has found when it looked up the process is what is there. -/
def Finds (kernel : KernelState RhinoDev) (i : ι) : Prop :=
  (requests i).env.task = true →
    (requests i).env.info = (kernel.borphInfo (owner i)).isSome

instance (kernel : KernelState RhinoDev) (i : ι) : Decidable (Finds requests owner kernel i) :=
  inferInstanceAs (Decidable (_ → _))

/-- One step of the system.  Call `i` is on a register of process `owner i`. -/
def step (w : World ι β) : Label ι → Option (World ι β)
  | .call i gaveUp =>
      if w.calls.threads i = .enter ∧ ¬ Finds requests owner w.kernel i then none
      else ((ioregProgram bus map requests).step w.calls (i, gaveUp)).map fun calls =>
        { w with calls := calls }
  | .load item env =>
      match w.daemon with
      | .idle => some (w.beginLoad item env)
      | _ => none
  | .daemon =>
      match w.daemon with
      | .busy load => w.stepLoad load
      | _ => none
  | .exit task => if (w.exits task).isSome then none else some (w.beginExit task)
  | .teardown task => w.stepExit task

/-- The board after boot, before any call. -/
def boot (page : RhinoPage) (device : β) : World ι β where
  kernel := bootKernel
  calls := (ioregProgram bus map requests).start ⟨page, device⟩
  daemon := .idle
  exits := fun _ => none

/-! ## Ownership -/

/-- The process owns the configured, powered FPGA: it is reserved for the
process, active, under power, and was last configured and not cleared. -/
structure OwnsFpga (kernel : KernelState RhinoDev) (task : Task) : Prop where
  reserved : ReservedFor kernel task rhinoAddr
  active : (kernel.hw.board.phyhwrs rhinoAddr).active = 1
  powered : kernel.hw.board.dev.Powered
  configured : kernel.hw.calls.getLast? = some (.configure rhinoAddr)

instance (kernel : KernelState RhinoDev) (task : Task) : Decidable (OwnsFpga kernel task) :=
  decidable_of_iff
    (ReservedFor kernel task rhinoAddr ∧ (kernel.hw.board.phyhwrs rhinoAddr).active = 1 ∧
      kernel.hw.board.dev.Powered ∧ kernel.hw.calls.getLast? = some (.configure rhinoAddr))
    ⟨fun ⟨reserved, active, powered, configured⟩ => ⟨reserved, active, powered, configured⟩,
      fun owns => ⟨owns.reserved, owns.active, owns.powered, owns.configured⟩⟩

/-- The next step of the call is an access to the bus. -/
def accesses : Stage → Bool
  | .recvWord i count _ => i < count
  | .sendWord i count _ => i < count
  | _ => false

/-- The call has looked up the process and has not returned yet. -/
def InFlight (stage : Stage) : Prop :=
  stage ≠ .enter ∧ stage.ended = none

instance (stage : Stage) : Decidable (InFlight stage) :=
  inferInstanceAs (Decidable (_ ∧ _))

/-- The load of the process that is in progress. -/
def World.loadOf (w : World ι β) (task : Task) : Option Load :=
  match w.daemon with
  | .busy load => if load.item.task = task then some load else none
  | _ => none

/-- The process has a record, its load has set the status, and it is not in
`borph_exit_fpga`. -/
def World.ready (w : World ι β) (task : Task) : Bool :=
  (w.exits task).isNone &&
    (w.kernel.borphInfo task).any fun bi => (w.kernel.infos bi).status ≠ 0

/-- A bus access is made while the process of the register owns the FPGA. -/
def AccessOwned (w : World ι β) : Label ι → Prop
  | .call i _ => accesses (w.calls.threads i) = true → OwnsFpga w.kernel (owner i)
  | _ => True

/-- The order of steps that the code relies on.  A call that finds a `borph_info`
finds it after the load and before the exit of the process; a process is loaded
if it has no record, and for at least one chip; it does not exit while it is
being loaded; and `borph_exit_fpga` waits for the calls in flight on the
registers of the process. -/
def Orderly (w : World ι β) : Label ι → Prop
  | .call i _ => w.calls.threads i = .enter → (requests i).env.task = true →
      (requests i).env.info = true → w.ready (owner i) = true
  | .load item _ => w.kernel.borphInfo item.task = none ∧ 0 < item.bprm.buf.bNumchip.toNat
  | .daemon => True
  | .exit task => (w.loadOf task).isNone = true
  | .teardown task => ∀ i, owner i = task → ¬ InFlight (w.calls.threads i)

instance (w : World ι β) : (label : Label ι) → Decidable (AccessOwned owner w label)
  | .call _ _ => inferInstanceAs (Decidable (_ → _))
  | .load _ _ => isTrue trivial
  | .daemon => isTrue trivial
  | .exit _ => isTrue trivial
  | .teardown _ => isTrue trivial

instance [Fintype ι] (w : World ι β) :
    (label : Label ι) → Decidable (Orderly requests owner w label)
  | .call _ _ => inferInstanceAs (Decidable (_ → _ → _ → _))
  | .load _ _ => inferInstanceAs (Decidable (_ ∧ _))
  | .daemon => isTrue trivial
  | .exit _ => inferInstanceAs (Decidable (_ = _))
  | .teardown _ => inferInstanceAs (Decidable (∀ _, _))

end Step

end Rhino.Access
