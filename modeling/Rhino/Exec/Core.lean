import Rhino.Hwr.Registry

/-!
# Handing an exec to the daemon

`load_bof_binary` of `fs/binfmt_bof.c` does not load the hardware itself.  It
appends an item to the queue of `bkexecd`, wakes the daemon and goes to sleep;
`run_execq` of `kernel/bkexecd.c` takes the items one by one, loads the hardware,
stores the result in `load_err` of the header that the task holds, and wakes the
task.

Tasks and daemon take their steps in any order.  A step is one access to what
they share: the queue, which is only touched under its lock or by a test for
emptiness, the wait queue, `load_err`, and the scheduling state of a task.
Waking and signalling follow `try_to_wake_up` and `signal_wake_up`: a task that
has marked itself `TASK_INTERRUPTIBLE` becomes runnable again, also if it has
not called `schedule()` yet, and a task that is running is left alone.
-/

namespace Rhino.Exec

open Rhino.Hwr

/-- `struct execq_item`, with the value that `load_err` has in the file. -/
structure Item where
  number : ℕ
  task : Task
  fileErr : ℤ
  deriving DecidableEq, Repr

/-- Where a task is in `load_bof_binary`. -/
inductive TaskPc where
  | outside
  | appended (item : Item)
  | notified (item : Item)
  | marked (item : Item)
  | asleep (item : Item)
  | testing (item : Item)
  deriving DecidableEq, Repr

/-- A task: where it is, whether its state is `TASK_INTERRUPTIBLE`, whether it
has a signal pending, and what its last test of `load_err` found. -/
structure TaskState where
  pc : TaskPc
  interruptible : Bool
  pending : Bool
  found : Option ℤ
  deriving DecidableEq, Repr

/-- Where the daemon is in `bkexecd` and `run_execq`. -/
inductive DaemonPc where
  | top
  | marked
  | listed
  | blocking
  | asleep
  | resumed
  | leaving
  | dispatch
  | checking
  | execq
  | loading (item : Item)
  | storing (item : Item) (retval : ℤ)
  | waking (item : Item)
  | stopped
  deriving DecidableEq, Repr

/-- The daemon: where it is, its state, whether it is on the wait queue
`more_exec`, and whether it has a signal pending. -/
structure Daemon where
  pc : DaemonPc
  interruptible : Bool
  waitQueued : Bool
  pending : Bool
  deriving DecidableEq, Repr

/-- The tasks, the daemon, `execq_list`, the number of the next item, and what
`run_execq` has stored in `load_err` of every item. -/
structure State where
  tasks : Task → TaskState
  daemon : Daemon
  queue : List Item
  nextItem : ℕ
  stored : ℕ → Option ℤ

/-- A step of one of the parties. -/
inductive Label where
  | exec (task : Task) (fileErr : ℤ)
  | task (task : Task)
  | daemon (retval : ℤ)
  | signal (task : Task)
  | deliver (task : Task)
  | signalDaemon

/-! ## Scheduling -/

/-- A sleeper goes on behind its `schedule()`. -/
def TaskPc.wake : TaskPc → TaskPc
  | .asleep item => .testing item
  | pc => pc

/-- What a wake-up does to a task. -/
def TaskState.wake (t : TaskState) : TaskState :=
  if t.interruptible then { t with interruptible := false, pc := t.pc.wake } else t

/-- The daemon goes on behind its `schedule()`. -/
def DaemonPc.wake : DaemonPc → DaemonPc
  | .asleep => .resumed
  | pc => pc

/-- What a wake-up does to the daemon. -/
def Daemon.wake (d : Daemon) : Daemon :=
  if d.interruptible then { d with interruptible := false, pc := d.pc.wake } else d

/-- Replace the state of one task. -/
def State.setTask (s : State) (task : Task) (t : TaskState) : State :=
  { s with tasks := Function.update s.tasks task t }

/-! ## The parties -/

/-- The value that a task finds in `load_err`. -/
def State.loadErr (s : State) (item : Item) : ℤ :=
  (s.stored item.number).getD item.fileErr

/-- The first step of a task: it appends its item to the queue. -/
def enqueue (task : Task) (fileErr : ℤ) (s : State) : State :=
  let item : Item := ⟨s.nextItem, task, fileErr⟩
  { s.setTask task { s.tasks task with pc := .appended item } with
    queue := s.queue ++ [item]
    nextItem := s.nextItem + 1 }

/-- The further steps of a task: `wake_up`, `set_current_state`, `schedule` and
the test of `load_err`. -/
def taskStep (task : Task) (s : State) : Option State :=
  let t := s.tasks task
  match t.pc with
  | .outside => none
  | .appended item =>
      let s := s.setTask task { t with pc := .notified item }
      some { s with daemon := if s.daemon.waitQueued then s.daemon.wake else s.daemon }
  | .notified item => some (s.setTask task { t with pc := .marked item, interruptible := true })
  | .marked item =>
      if !t.interruptible || t.pending then
        some (s.setTask task { t with pc := .testing item, interruptible := false })
      else
        some (s.setTask task { t with pc := .asleep item })
  | .asleep _ => none
  | .testing item =>
      some (s.setTask task { t with pc := .outside, found := some (s.loadErr item) })

/-- The steps of the daemon; `retval` is what `borph_load_hw` returns in the
step that calls it. -/
def daemonStep (retval : ℤ) (s : State) : Option State :=
  let d := s.daemon
  match d.pc with
  | .top => some { s with daemon := { d with pc := .marked, interruptible := true } }
  | .marked => some { s with daemon := { d with pc := .listed, waitQueued := true } }
  | .listed =>
      some { s with daemon := { d with pc := if s.queue.isEmpty then .blocking else .resumed } }
  | .blocking =>
      if !d.interruptible || d.pending then
        some { s with daemon := { d with pc := .resumed, interruptible := false } }
      else
        some { s with daemon := { d with pc := .asleep } }
  | .asleep => none
  | .resumed => some { s with daemon := { d with pc := .leaving, interruptible := false } }
  | .leaving => some { s with daemon := { d with pc := .dispatch, waitQueued := false } }
  | .dispatch =>
      some { s with daemon := { d with pc := if d.pending then .stopped else .checking } }
  | .checking =>
      some { s with daemon := { d with pc := if s.queue.isEmpty then .top else .execq } }
  | .execq =>
      match s.queue with
      | [] => some { s with daemon := { d with pc := .top } }
      | item :: rest =>
          some { s with queue := rest, daemon := { d with pc := .loading item } }
  | .loading item => some { s with daemon := { d with pc := .storing item retval } }
  | .storing item retval =>
      some { s with
        stored := Function.update s.stored item.number (some retval)
        daemon := { d with pc := .waking item } }
  | .waking item =>
      some { s.setTask item.task (s.tasks item.task).wake with
        daemon := { d with pc := .execq } }
  | .stopped => none

/-- A signal: it is pending from now on and wakes an interruptible sleeper. -/
def signalTask (task : Task) (s : State) : State :=
  s.setTask task ({ s.tasks task with pending := true } : TaskState).wake

/-- One step of the whole.  Signals are delivered to a task on its way back to
user mode. -/
def step (s : State) : Label → Option State
  | .exec task fileErr =>
      if (s.tasks task).pc = .outside then some (enqueue task fileErr s) else none
  | .task task => taskStep task s
  | .daemon retval => daemonStep retval s
  | .signal task => some (signalTask task s)
  | .deliver task =>
      if (s.tasks task).pc = .outside then
        some (s.setTask task { s.tasks task with pending := false })
      else none
  | .signalDaemon =>
      some { s with daemon := ({ s.daemon with pending := true } : Daemon).wake }

end Rhino.Exec
