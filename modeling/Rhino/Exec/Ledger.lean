import Rhino.Exec.Queue

/-!
# The hand-over of one task

To a task in an exec, the queue, the daemon and the wake-ups come down to this: how
many of its items have not been loaded, what the daemon is about to do with one that
has been, and whether the task is marked as a sleeper.  `Ledger` is this abstract
hand-over.  Each step of the tasks and of the daemon is a move of the ledger of a
task, or none of its business, and a task gets out of `schedule()` by nothing but a
wake-up or a signal.
-/

namespace Rhino.Exec

open Rhino.Hwr Rhino.Transition

/-- What the daemon is about to do with an item that it has loaded. -/
inductive Serving where
  | idle
  | storing (retval : ℤ)
  | waking
  | gone
  deriving DecidableEq, Repr

/-- The result that the daemon is about to store. -/
def Serving.result : Serving → Option ℤ
  | .storing retval => some retval
  | _ => none

/-- The hand-over of a task: its items that have not been loaded, the daemon, and
whether the task is `TASK_INTERRUPTIBLE`. -/
structure Ledger where
  queued : ℕ
  daemon : Serving
  interruptible : Bool
  deriving DecidableEq, Repr

namespace Ledger

/-- What happens to the hand-over.  A load that does not come back is the end of the
daemon. -/
inductive Move where
  | append
  | mark
  | take (retval : Option ℤ)
  | store
  | wake
  | signal
  deriving DecidableEq, Repr

def move (l : Ledger) : Move → Option Ledger
  | .append => some { l with queued := l.queued + 1 }
  | .mark => some { l with interruptible := true }
  | .take retval =>
      if 0 < l.queued ∧ l.daemon = .idle then
        some { l with queued := l.queued - 1, daemon := retval.elim .gone .storing }
      else none
  | .store =>
      match l.daemon with
      | .storing _ => some { l with daemon := .waking }
      | _ => none
  | .wake =>
      if l.daemon = .waking then some { l with daemon := .idle, interruptible := false }
      else none
  | .signal => some { l with interruptible := false }

/-- Nothing has been handed over, or everything has come back. -/
def settled : Ledger where
  queued := 0
  daemon := .idle
  interruptible := false

/-- The items that have been handed over and not come back. -/
def outstanding (l : Ledger) : ℕ :=
  l.queued + if l.daemon = .idle ∨ l.daemon = .gone then 0 else 1

theorem move_store_eq_some_iff {l next : Ledger} :
    l.move .store = some next ↔
      ∃ retval, l.daemon = .storing retval ∧ { l with daemon := .waking } = next := by
  rcases l with ⟨queued, daemon, interruptible⟩
  cases daemon <;> simp [move]

/-- A sleeper stays one but for a wake-up or a signal. -/
theorem interruptible_of_move {l next : Ledger} {m : Move} (sleeps : l.interruptible = true)
    (other : m ≠ .wake ∧ m ≠ .signal) (taken : l.move m = some next) :
    next.interruptible = true := by
  cases m with
  | append =>
      rcases Option.some.inj taken with rfl
      exact sleeps
  | mark =>
      rcases Option.some.inj taken with rfl
      rfl
  | take retval =>
      simp only [move, Option.ite_none_right_eq_some, Option.some.injEq] at taken
      rcases taken with ⟨-, rfl⟩
      exact sleeps
  | store =>
      rcases move_store_eq_some_iff.mp taken with ⟨_, -, rfl⟩
      exact sleeps
  | wake => exact absurd rfl other.1
  | signal => exact absurd rfl other.2

theorem interruptible_of_run {l final : Ledger} {moves : List Move}
    (sleeps : l.interruptible = true) (undisturbed : ∀ m ∈ moves, m ≠ .wake ∧ m ≠ .signal)
    (finished : run move l moves = some final) : final.interruptible = true := by
  induction moves generalizing l with
  | nil =>
      cases finished
      exact sleeps
  | cons m rest ih =>
      obtain ⟨next, taken, finished⟩ := (run_cons_eq_some_iff move).mp finished
      rw [List.forall_mem_cons] at undisturbed
      exact ih (interruptible_of_move sleeps undisturbed.1 taken) undisturbed.2 finished

end Ledger

/-! ## The ledger of a task -/

/-- What the daemon is about to do with an item of the task. -/
def DaemonPc.serving (task : Task) : DaemonPc → Serving
  | .storing item retval => if item.task = task then .storing retval else .idle
  | .waking item => if item.task = task then .waking else .idle
  | _ => .idle

def State.ledger (s : State) (task : Task) : Ledger where
  queued := s.unloaded.countP (·.task = task)
  daemon := s.daemon.pc.serving task
  interruptible := (s.tasks task).interruptible

/-- What a task does to its own hand-over: with a signal pending, `schedule()` returns
at once. -/
def TaskState.moves (t : TaskState) : List Ledger.Move :=
  match t.pc with
  | .notified _ => [.mark]
  | .marked _ => if t.pending then [.signal] else []
  | _ => []

/-- What the daemon does to the hand-over of a task. -/
def DaemonPc.moves (task : Task) (retval : ℤ) : DaemonPc → List Ledger.Move
  | .loading item => if item.task = task then [.take (some retval)] else []
  | .storing item _ => if item.task = task then [.store] else []
  | .waking item => if item.task = task then [.wake] else []
  | _ => []

/-- What a step does to the hand-over of a task. -/
def movesOf (task : Task) (s : State) : Label → List Ledger.Move
  | .exec other _ => if other = task then [.append] else []
  | .task other => if other = task then (s.tasks task).moves else []
  | .daemon retval => s.daemon.pc.moves task retval
  | .signal other => if other = task then [.signal] else []
  | _ => []

theorem DaemonPc.serving_of_inHand {pc : DaemonPc} (free : pc.inHand = []) (task : Task) :
    pc.serving task = .idle := by
  cases pc <;> first | rfl | simp [DaemonPc.inHand] at free

theorem DaemonPc.moves_of_inHand {pc : DaemonPc} (free : pc.inHand = []) (task : Task)
    (retval : ℤ) : pc.moves task retval = [] := by
  cases pc <;> first | rfl | simp [DaemonPc.inHand] at free

theorem Daemon.wake_serving (d : Daemon) (task : Task) :
    d.wake.pc.serving task = d.pc.serving task := by
  unfold Daemon.wake
  split
  · cases d.pc <;> rfl
  · rfl

theorem TaskState.wake_interruptible (t : TaskState) : t.wake.interruptible = false := by
  unfold TaskState.wake
  split
  · rfl
  · simpa using ‹¬ t.interruptible = true›

/-- Ledgers are equal if the daemon, the items and the task are. -/
theorem ledger_congr {s next : State} {task : Task} (unloaded_eq : next.unloaded = s.unloaded)
    (serving_eq : next.daemon.pc.serving task = s.daemon.pc.serving task)
    (task_eq : (next.tasks task).interruptible = (s.tasks task).interruptible) :
    s.ledger task = next.ledger task := by
  simp only [State.ledger, unloaded_eq, serving_eq, task_eq]

theorem ledger_daemonStep {s next : State} {retval : ℤ} (task : Task)
    (taken : daemonStep retval s = some next) :
    run Ledger.move (s.ledger task) (s.daemon.pc.moves task retval) = some (next.ledger task) := by
  cases daemonMove_of_step taken with
  | walk walks =>
      obtain ⟨before, after⟩ := walks.inHand_eq
      rw [DaemonPc.moves_of_inHand before]
      refine congrArg some ?_
      apply ledger_congr
      · simp [State.unloaded, DaemonPc.toLoad_eq_of_inHand before,
          DaemonPc.toLoad_eq_of_inHand after]
      · rw [DaemonPc.serving_of_inHand before, DaemonPc.serving_of_inHand after]
      · rfl
  | take pc queue_eq =>
      rw [pc]
      refine congrArg some ?_
      apply ledger_congr
      · simp [State.unloaded, pc, queue_eq, DaemonPc.toLoad]
      · simp [pc, DaemonPc.serving]
      · rfl
  | @load item pc | @store item _ pc =>
      by_cases own : item.task = task
      · simp [pc, DaemonPc.moves, own, run, Ledger.move, State.ledger, State.unloaded,
          DaemonPc.toLoad, DaemonPc.serving]
      · simp [pc, DaemonPc.moves, own, run, State.ledger, State.unloaded,
          DaemonPc.toLoad, DaemonPc.serving]
  | @wake item pc =>
      by_cases own : item.task = task
      · subst own
        simp [pc, DaemonPc.moves, run, Ledger.move, State.ledger, State.unloaded,
          DaemonPc.toLoad, DaemonPc.serving, State.setTask, TaskState.wake_interruptible]
      · simp [pc, DaemonPc.moves, own, run, State.ledger, State.unloaded,
          DaemonPc.toLoad, DaemonPc.serving, State.setTask, Ne.symm own]

theorem ledger_taskStep {s next : State} {other : Task} (task : Task)
    (taken : taskStep other s = some next) :
    run Ledger.move (s.ledger task) (movesOf task s (.task other)) = some (next.ledger task) := by
  have unloaded_eq : s.unloaded ++ [] = [] ++ next.unloaded :=
    @step_unloaded s next (.task other) taken
  have serving_eq : next.daemon.pc.serving task = s.daemon.pc.serving task := by
    rcases (taskStep_daemon taken).2 with ⟨_, -, daemon_eq⟩ | ⟨-, daemon_eq⟩
    · rw [daemon_eq]
      split
      · exact s.daemon.wake_serving task
      · rfl
    · rw [daemon_eq]
  rw [List.append_nil, List.nil_append] at unloaded_eq
  rcases taskStep_cases taken with ⟨t, moved, tasks_eq, -⟩
  by_cases own : other = task
  · subst own
    rw [movesOf, if_pos rfl]
    simp only [State.ledger, ← unloaded_eq, serving_eq, tasks_eq, Function.update_self]
    cases moved with
    | notify pc | sleep pc | test pc => simp_all [TaskState.moves, run]
    | mark pc => simp [TaskState.moves, pc, run, Ledger.move]
    | resume pc runnable =>
        cases pending : (s.tasks other).pending with
        | true => simp [TaskState.moves, pc, pending, run, Ledger.move]
        | false => simp_all [TaskState.moves, run]
  · rw [movesOf, if_neg own]
    refine congrArg some (ledger_congr unloaded_eq.symm serving_eq ?_)
    rw [tasks_eq, Function.update_of_ne (Ne.symm own)]

/-- Every step is a move of the ledger of a task, or leaves it alone. -/
theorem ledger_step {s next : State} {label : Label} (task : Task)
    (taken : step s label = some next) :
    run Ledger.move (s.ledger task) (movesOf task s label) = some (next.ledger task) := by
  cases label with
  | exec other fileErr =>
      simp only [step, Option.ite_none_right_eq_some, Option.some.injEq] at taken
      rcases taken with ⟨-, rfl⟩
      by_cases own : other = task
      · simp [movesOf, own, run, Ledger.move, State.ledger, State.unloaded, enqueue,
          State.setTask, Nat.add_assoc]
      · simp [movesOf, own, run, State.ledger, State.unloaded, enqueue, State.setTask,
          Ne.symm own]
  | task other => exact ledger_taskStep task taken
  | daemon retval => exact ledger_daemonStep task taken
  | signal other =>
      rcases Option.some.inj taken with rfl
      by_cases own : other = task
      · subst own
        simp [movesOf, run, Ledger.move, State.ledger, State.unloaded, signalTask,
          State.setTask, TaskState.wake_interruptible]
      · simp [movesOf, own, run, State.ledger, State.unloaded, signalTask, State.setTask,
          Ne.symm own]
  | deliver other =>
      simp only [step, Option.ite_none_right_eq_some, Option.some.injEq] at taken
      rcases taken with ⟨-, rfl⟩
      refine congrArg some ?_
      apply ledger_congr
      · rfl
      · rfl
      · by_cases own : task = other
        · simp [own, State.setTask]
        · simp [State.setTask, own]
  | signalDaemon =>
      rcases Option.some.inj taken with rfl
      refine congrArg some ?_
      apply ledger_congr
      · exact congrArg (· ++ s.queue) (Daemon.wake_toLoad _)
      · exact Daemon.wake_serving _ task
      · rfl

/-- A run of tasks and daemon is a run of the ledger of each task. -/
theorem ledger_run {s final : State} {labels : List Label} (task : Task)
    (finished : run step s labels = some final) :
    run Ledger.move (s.ledger task) (history step (movesOf task) s labels) =
      some (final.ledger task) :=
  run_history (State.ledger · task) (fun _ _ _ taken => ledger_step task taken) finished

/-! ## Out of `schedule()` -/

/-- A task that goes on behind its `schedule()` is running again. -/
def State.Awake (s : State) : Prop :=
  ∀ task item, (s.tasks task).pc = .testing item → (s.tasks task).interruptible = false

theorem State.Awake.setTask {s next : State} {task : Task} {t : TaskState} (awake : s.Awake)
    (tasks_eq : next.tasks = Function.update s.tasks task t)
    (own : ∀ item, t.pc = .testing item → t.interruptible = false) : next.Awake := by
  intro other item place
  rw [tasks_eq] at place ⊢
  by_cases same : other = task
  · rw [same, Function.update_self] at place ⊢
    exact own item place
  · rw [Function.update_of_ne same] at place ⊢
    exact awake other item place

theorem State.Awake.step {s next : State} {label : Label} (awake : s.Awake)
    (taken : Exec.step s label = some next) : next.Awake := by
  cases label with
  | exec task fileErr =>
      simp only [Exec.step, Option.ite_none_right_eq_some, Option.some.injEq] at taken
      rcases taken with ⟨-, rfl⟩
      exact awake.setTask rfl (by simp)
  | task task =>
      rcases taskStep_cases taken with ⟨t, moved, tasks_eq, -⟩
      apply awake.setTask tasks_eq
      cases moved <;> simp
  | daemon retval =>
      rcases daemonStep_cases taken with
        ⟨tasks_eq, -⟩ | ⟨_, _, -, -, tasks_eq, -⟩ | ⟨item, -, -, tasks_eq, -⟩
      · intro task item place
        rw [tasks_eq] at place ⊢
        exact awake task item place
      · intro task item place
        rw [tasks_eq] at place ⊢
        exact awake task item place
      · exact awake.setTask tasks_eq fun _ _ => TaskState.wake_interruptible _
  | signal task =>
      rcases Option.some.inj taken with rfl
      exact awake.setTask rfl fun _ _ => TaskState.wake_interruptible _
  | deliver task =>
      simp only [Exec.step, Option.ite_none_right_eq_some, Option.some.injEq] at taken
      rcases taken with ⟨-, rfl⟩
      exact awake.setTask rfl fun item place => awake task item place
  | signalDaemon =>
      rcases Option.some.inj taken with rfl
      exact awake

theorem Initial.awake {s : State} (initial : Initial s) : s.Awake := by
  intro task item place
  rw [initial.tasks task] at place
  contradiction

/-- A task that was marked as a sleeper goes on behind its `schedule()` only if it has
been woken or has got a signal. -/
theorem wake_or_signal {start s final : State} {before labels : List Label} {task : Task}
    {item : Item} (initial : Initial start) (reached : run step start before = some s)
    (marked : (s.tasks task).interruptible = true) (finished : run step s labels = some final)
    (tests : (final.tasks task).pc = .testing item) :
    .wake ∈ history step (movesOf task) s labels ∨
      .signal ∈ history step (movesOf task) s labels := by
  have awake : final.Awake :=
    run_invariant State.Awake (fun _ _ _ awake taken => awake.step taken) initial.awake
      (run_append step reached finished)
  by_contra neither
  rw [not_or] at neither
  have sleeps := Ledger.interruptible_of_run (l := s.ledger task) marked
    (fun m mem => ⟨fun same => neither.1 (same ▸ mem), fun same => neither.2 (same ▸ mem)⟩)
    (ledger_run task finished)
  exact Bool.false_ne_true ((awake task item tests).symm.trans sleeps)

end Rhino.Exec
