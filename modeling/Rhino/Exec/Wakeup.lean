import Rhino.Exec.Handoff

/-!
# The wake-up of a waiting task

`load_bof_binary` appends its item and wakes the daemon first and marks itself
as a sleeper after.  The daemon may do the whole of its work in between, and its
`wake_up_process` then finds a running task and is gone.  The task goes to sleep
on an item that is done with.

`wakePending_always_iff` says which steps do this, and that none does if the
daemon's `wake_up_process` for an item always comes after the
`set_current_state` of its task.
-/

namespace Rhino.Exec

open Rhino.Hwr Rhino.Transition

/-- A wake-up for the task is still to come. -/
def Awaited (s : State) (task : Task) : Prop :=
  ∃ item ∈ s.outstanding, item.task = task

/-- A task that sleeps on an item whose result has been stored has a wake-up
still to come. -/
def WakePending (s : State) : Prop :=
  ∀ task item, (s.tasks task).pc = .asleep item → (s.stored item.number).isSome = true →
    Awaited s task

/-- A task that calls `schedule()` as a sleeper has a wake-up still to come. -/
def SleepsAwaited (s : State) : Label → Prop
  | .task task => ∀ item, (s.tasks task).pc = .marked item →
      (s.tasks task).interruptible = true → (s.tasks task).pending = false → Awaited s task
  | _ => True

/-- The daemon does its `wake_up_process` for an item when the task has done its
`set_current_state`. -/
def WakesMarked (s : State) : Label → Prop
  | .daemon _ => ∀ item, s.daemon.pc = .waking item →
      (s.tasks item.task).pc ≠ .appended item ∧ (s.tasks item.task).pc ≠ .notified item
  | _ => True

/-! ## The exact condition -/

/-- A sleeper can be woken and will be, and a task waits for an item of its own,
which is outstanding or done with. -/
structure TaskWatched (outstanding : List Item) (stored : ℕ → Option ℤ) (task : Task)
    (t : TaskState) : Prop where
  sleeps : ∀ item, t.pc = .asleep item → t.interruptible = true
  awaited : ∀ item, t.pc = .asleep item → ∃ other ∈ outstanding, other.task = task
  own : ∀ item, t.pc.waitsFor = some item → item.task = task
  served : ∀ item, t.pc.waitsFor = some item →
    item ∈ outstanding ∨ (stored item.number).isSome = true

/-- All tasks are watched, and the daemon wakes a task after it has stored its
result. -/
structure Watched (s : State) : Prop where
  tasks : ∀ task, TaskWatched s.outstanding s.stored task (s.tasks task)
  waking : ∀ item, s.daemon.pc = .waking item → (s.stored item.number).isSome = true

theorem Watched.wakePending {s : State} (watched : Watched s) : WakePending s :=
  fun task item asleep _ => (watched.tasks task).awaited item asleep

namespace TaskWatched

variable {outstanding later : List Item} {stored stored' : ℕ → Option ℤ} {task : Task}
  {t next : TaskState}

/-- A task does not mind what happens to the items of others. -/
theorem mono (watched : TaskWatched outstanding stored task t)
    (kept : ∀ item ∈ outstanding, item.task = task → item ∈ later)
    (grows : ∀ number, (stored number).isSome = true → (stored' number).isSome = true) :
    TaskWatched later stored' task t where
  sleeps := watched.sleeps
  awaited item asleep := by
    rcases watched.awaited item asleep with ⟨other, mem, same⟩
    exact ⟨other, kept other mem same, same⟩
  own := watched.own
  served item waits := by
    rcases watched.served item waits with mem | present
    · exact Or.inl (kept item mem (watched.own item waits))
    · exact Or.inr (grows _ present)

theorem wake_pc (watched : TaskWatched outstanding stored task t) : t.wake.pc = t.pc.wake :=
  TaskState.wake_pc watched.sleeps

/-- After a wake-up the task needs no other, and its item may be done with. -/
theorem wake (watched : TaskWatched outstanding stored task t)
    (served : ∀ item ∈ outstanding, item ∈ later ∨ (stored item.number).isSome = true) :
    TaskWatched later stored task t.wake where
  sleeps item asleep := by
    rw [watched.wake_pc] at asleep
    exact absurd asleep (t.pc.wake_ne_asleep item)
  awaited item asleep := by
    rw [watched.wake_pc] at asleep
    exact absurd asleep (t.pc.wake_ne_asleep item)
  own item waits := by
    rw [watched.wake_pc] at waits
    exact watched.own item (TaskPc.wake_waitsFor waits)
  served item waits := by
    rw [watched.wake_pc] at waits
    rcases watched.served item (TaskPc.wake_waitsFor waits) with mem | present
    · exact served item mem
    · exact Or.inr present

theorem signal (watched : TaskWatched outstanding stored task t) (pending : Bool) :
    TaskWatched outstanding stored task { t with pending := pending } :=
  ⟨watched.sleeps, watched.awaited, watched.own, watched.served⟩

theorem move (watched : TaskWatched outstanding stored task t) (moved : TaskMove t next)
    (guarded : ∀ item, t.pc = .marked item → t.interruptible = true → t.pending = false →
      ∃ other ∈ outstanding, other.task = task) :
    TaskWatched outstanding stored task next := by
  cases moved with
  | notify pc | mark pc =>
      refine ⟨by simp, by simp, ?_, ?_⟩
      · intro item waits
        exact watched.own item (by rw [pc]; exact waits)
      · intro item waits
        exact watched.served item (by rw [pc]; exact waits)
  | resume pc _ | test pc => constructor <;> simp [TaskPc.waitsFor]
  | sleep pc interruptible quiet =>
      refine ⟨fun _ _ => interruptible, fun _ _ => guarded _ pc interruptible quiet, ?_, ?_⟩
      · intro item waits
        exact watched.own item (by rw [pc]; exact waits)
      · intro item waits
        exact watched.served item (by rw [pc]; exact waits)

end TaskWatched

/-- Replacing one task. -/
theorem Watched.update {s next : State} (watched : Watched s) {task : Task} {t : TaskState}
    (tasks_eq : next.tasks = Function.update s.tasks task t) (stored_eq : next.stored = s.stored)
    (outstanding_eq : next.outstanding = s.outstanding)
    (waking_of : ∀ item, next.daemon.pc = .waking item → s.daemon.pc = .waking item)
    (ok : TaskWatched s.outstanding s.stored task t) : Watched next := by
  constructor
  · intro other
    rw [tasks_eq, stored_eq, outstanding_eq]
    by_cases same : other = task
    · rw [same, Function.update_self]
      exact ok
    · rw [Function.update_of_ne same]
      exact watched.tasks other
  · intro item place
    rw [stored_eq]
    exact watched.waking item (waking_of item place)

theorem Watched.setTask {s : State} (watched : Watched s) {task : Task} {t : TaskState}
    (ok : TaskWatched s.outstanding s.stored task t) : Watched (s.setTask task t) :=
  watched.update rfl rfl rfl (fun _ place => place) ok

theorem Watched.exec {s : State} (watched : Watched s) (task : Task) (fileErr : ℤ) :
    Watched (enqueue task fileErr s) := by
  have outstanding_eq : (enqueue task fileErr s).outstanding =
      s.outstanding ++ [⟨s.nextItem, task, fileErr⟩] := by
    simp [State.outstanding, enqueue, State.setTask]
  constructor
  · intro other
    rw [outstanding_eq]
    by_cases same : other = task
    · rw [same]
      constructor <;> simp [enqueue, TaskPc.waitsFor]
    · simp only [enqueue, setTask_other _ _ same]
      apply (watched.tasks other).mono
      · intro item mem _
        exact List.mem_append_left _ mem
      · exact fun _ present => present
  · exact watched.waking

theorem Watched.daemon {s next : State} (watched : Watched s) {retval : ℤ}
    (taken : daemonStep retval s = some next) : Watched next := by
  rcases daemonStep_cases taken with
    ⟨tasks_eq, stored_eq, -, outstanding_eq, -, notWaking⟩ |
    ⟨item, result, -, place, tasks_eq, stored_eq, -, outstanding_eq⟩ |
    ⟨done, place, next_place, tasks_eq, stored_eq, -, outstanding_eq⟩
  · constructor
    · rw [tasks_eq, stored_eq, outstanding_eq]
      exact watched.tasks
    · intro item place
      exact absurd place (notWaking item)
  · constructor
    · intro task
      rw [tasks_eq, stored_eq, outstanding_eq]
      apply (watched.tasks task).mono
      · exact fun _ mem _ => mem
      · exact fun _ present => isSome_update_of_isSome _ _ present
    · intro other same
      rw [place] at same
      rcases DaemonPc.waking.inj same with rfl
      rw [stored_eq, Function.update_self]
      rfl
  · constructor
    · intro task
      rw [tasks_eq, stored_eq]
      by_cases same : task = done.task
      · rw [same, Function.update_self]
        apply (watched.tasks done.task).wake
        intro item mem
        rw [outstanding_eq] at mem
        rcases List.mem_cons.mp mem with rfl | mem
        · exact Or.inr (watched.waking item place)
        · exact Or.inl mem
      · rw [Function.update_of_ne same]
        apply (watched.tasks task).mono
        · intro item mem own
          rw [outstanding_eq] at mem
          rcases List.mem_cons.mp mem with rfl | mem
          · exact absurd own.symm same
          · exact mem
        · exact fun _ present => present
    · intro item waking
      rw [next_place] at waking
      contradiction

theorem Watched.step {s next : State} {label : Label} (watched : Watched s)
    (guarded : SleepsAwaited s label) (taken : Exec.step s label = some next) :
    Watched next := by
  cases label with
  | exec task fileErr =>
      simp only [Exec.step, Option.ite_none_right_eq_some, Option.some.injEq] at taken
      rcases taken with ⟨-, rfl⟩
      exact watched.exec task fileErr
  | task task =>
      rcases taskStep_cases taken with
        ⟨t, moved, tasks_eq, stored_eq, -, outstanding_eq, waking_iff⟩
      exact watched.update tasks_eq stored_eq outstanding_eq
        (fun item => (waking_iff item).mp) ((watched.tasks task).move moved guarded)
  | daemon retval => exact watched.daemon taken
  | signal task =>
      rcases Option.some.inj taken with rfl
      apply watched.setTask
      exact ((watched.tasks task).signal true).wake fun _ mem => Or.inl mem
  | deliver task =>
      simp only [Exec.step, Option.ite_none_right_eq_some, Option.some.injEq] at taken
      rcases taken with ⟨-, rfl⟩
      apply watched.setTask
      exact (watched.tasks task).signal false
  | signalDaemon =>
      rcases Option.some.inj taken with rfl
      constructor
      · intro task
        have outstanding_eq : State.outstanding { s with
            daemon := ({ s.daemon with pending := true } : Daemon).wake } = s.outstanding := by
          simp [State.outstanding, Daemon.wake_inHand]
        rw [outstanding_eq]
        exact watched.tasks task
      · intro item place
        exact watched.waking item
          ((Daemon.wake_eq_waking_iff { s.daemon with pending := true } item).mp place)

/-- A task that goes to sleep with no wake-up to come sleeps on an item that is
done with. -/
theorem Watched.not_wakePending {s next : State} {label : Label} (watched : Watched s)
    (unguarded : ¬ SleepsAwaited s label) (taken : Exec.step s label = some next) :
    ¬ WakePending next := by
  intro pending
  apply unguarded
  cases label with
  | exec => trivial
  | daemon => trivial
  | signal => trivial
  | deliver => trivial
  | signalDaemon => trivial
  | task task =>
      intro item place interruptible quiet
      rcases taskStep_cases taken with ⟨t, moved, tasks_eq, stored_eq, -, outstanding_eq, -⟩
      have waits : (s.tasks task).pc.waitsFor = some item := by
        rw [place]
        rfl
      rcases (watched.tasks task).served item waits with mem | present
      · exact ⟨item, mem, (watched.tasks task).own item waits⟩
      · have lost := pending task item
        simp only [Awaited, tasks_eq, Function.update_self, stored_eq, outstanding_eq] at lost
        cases moved with
        | notify pc | mark pc | test pc =>
            rw [place] at pc
            contradiction
        | resume pc runnable => simp [interruptible, quiet] at runnable
        | sleep pc _ _ =>
            rw [place] at pc
            rcases TaskPc.marked.inj pc with rfl
            exact lost rfl present

theorem Initial.watched {s : State} (initial : Initial s) : Watched s := by
  constructor
  · intro task
    constructor <;> simp [initial.tasks task, TaskPc.waitsFor]
  · simp [initial.daemon]

/-! ## Marking before waking -/

/-- The item for which a task on its way to sleep expects a wake-up. -/
def TaskState.expects (t : TaskState) : Option Item :=
  match t.pc with
  | .appended item => some item
  | .notified item => some item
  | .marked item => if t.interruptible then some item else none
  | _ => none

theorem TaskState.waitsFor_of_expects {t : TaskState} {item : Item}
    (expects : t.expects = some item) : t.pc.waitsFor = some item := by
  unfold TaskState.expects at expects
  cases place : t.pc <;> simp_all [TaskPc.waitsFor]

/-- A wake-up meets no expectation of a task that has not marked itself yet. -/
theorem TaskState.expects_of_wake {t : TaskState} {item : Item}
    (expects : t.wake.expects = some item) :
    t.expects = some item ∧ (t.pc = .appended item ∨ t.pc = .notified item) := by
  unfold TaskState.wake TaskState.expects at expects
  unfold TaskState.expects
  cases awake : t.interruptible <;> cases place : t.pc <;>
    simp_all [TaskPc.wake]

theorem TaskMove.expects {t next : TaskState} {item : Item} (moved : TaskMove t next)
    (expects : next.expects = some item) : t.expects = some item := by
  cases moved with
  | notify pc | mark pc => simpa [TaskState.expects, pc] using expects
  | resume | sleep | test => simp [TaskState.expects] at expects

/-- Every wake-up that a task expects is still to come. -/
structure Ready (s : State) : Prop where
  watched : Watched s
  expected : ∀ task item, (s.tasks task).expects = some item → item ∈ s.outstanding

theorem Ready.sleepsAwaited {s : State} (ready : Ready s) (label : Label) :
    SleepsAwaited s label := by
  cases label with
  | exec | daemon | signal | deliver | signalDaemon => trivial
  | task task =>
      intro item place interruptible _
      have expects : (s.tasks task).expects = some item := by
        simp [TaskState.expects, place, interruptible]
      refine ⟨item, ready.expected task item expects, ?_⟩
      exact (ready.watched.tasks task).own item (TaskState.waitsFor_of_expects expects)

theorem Ready.step {s next : State} {label : Label} (ready : Ready s)
    (guarded : WakesMarked s label) (taken : Exec.step s label = some next) : Ready next := by
  refine ⟨ready.watched.step (ready.sleepsAwaited label) taken, ?_⟩
  intro task item expects
  cases label with
  | exec execer fileErr =>
      simp only [Exec.step, Option.ite_none_right_eq_some, Option.some.injEq] at taken
      rcases taken with ⟨-, rfl⟩
      have outstanding_eq : (enqueue execer fileErr s).outstanding =
          s.outstanding ++ [⟨s.nextItem, execer, fileErr⟩] := by
        simp [State.outstanding, enqueue, State.setTask]
      rw [outstanding_eq]
      by_cases same : task = execer
      · rw [same] at expects
        simp only [enqueue, setTask_same, TaskState.expects, Option.some.injEq] at expects
        rw [← expects]
        exact List.mem_append_right _ (List.mem_singleton_self _)
      · simp only [enqueue, setTask_other _ _ same] at expects
        exact List.mem_append_left _ (ready.expected task item expects)
  | task mover =>
      rcases taskStep_cases taken with ⟨t, moved, tasks_eq, -, -, outstanding_eq, -⟩
      rw [tasks_eq] at expects
      rw [outstanding_eq]
      by_cases same : task = mover
      · rw [same, Function.update_self] at expects
        exact ready.expected mover item (moved.expects expects)
      · rw [Function.update_of_ne same] at expects
        exact ready.expected task item expects
  | daemon retval =>
      rcases daemonStep_cases taken with ⟨tasks_eq, -, -, outstanding_eq, -, -⟩ |
        ⟨_, _, -, -, tasks_eq, -, -, outstanding_eq⟩ |
        ⟨done, place, -, tasks_eq, -, -, outstanding_eq⟩
      · rw [tasks_eq] at expects
        rw [outstanding_eq]
        exact ready.expected task item expects
      · rw [tasks_eq] at expects
        rw [outstanding_eq]
        exact ready.expected task item expects
      · -- The item in hand is the only one that goes; its task has marked itself.
        have still (before : (s.tasks task).expects = some item) (other : item ≠ done) :
            item ∈ next.outstanding := by
          have mem := ready.expected task item before
          rw [outstanding_eq] at mem
          exact (List.mem_cons.mp mem).resolve_left other
        rw [tasks_eq] at expects
        by_cases same : task = done.task
        · rw [same, Function.update_self] at expects
          rcases TaskState.expects_of_wake expects with ⟨before, unmarked⟩
          rw [← same] at before unmarked
          apply still before
          rintro rfl
          rw [same] at unmarked
          rcases unmarked with appended | notified
          · exact (guarded item place).1 appended
          · exact (guarded item place).2 notified
        · rw [Function.update_of_ne same] at expects
          apply still expects
          rintro rfl
          exact same ((ready.watched.tasks task).own item
            (TaskState.waitsFor_of_expects expects)).symm
  | signal signalled =>
      rcases Option.some.inj taken with rfl
      by_cases same : task = signalled
      · rw [same, signalTask, setTask_same] at expects
        exact ready.expected signalled item (TaskState.expects_of_wake expects).1
      · rw [signalTask, setTask_other _ _ same] at expects
        exact ready.expected task item expects
  | deliver user =>
      simp only [Exec.step, Option.ite_none_right_eq_some, Option.some.injEq] at taken
      rcases taken with ⟨-, rfl⟩
      by_cases same : task = user
      · rw [same, setTask_same] at expects
        exact ready.expected user item expects
      · rw [setTask_other _ _ same] at expects
        exact ready.expected task item expects
  | signalDaemon =>
      rcases Option.some.inj taken with rfl
      have mem := ready.expected task item expects
      simpa [State.outstanding, Daemon.wake_inHand] using mem

theorem Initial.ready {s : State} (initial : Initial s) : Ready s := by
  refine ⟨initial.watched, ?_⟩
  intro task item expects
  simp [TaskState.expects, initial.tasks task] at expects

/-- In every run, no task sleeps on an item that is done with and has no wake-up
to come exactly if every task that calls `schedule()` as a sleeper has one to
come.  That is so whenever the daemon's `wake_up_process` for an item comes
after its task has marked itself. -/
theorem wakePending_always_iff {s final : State} {labels : List Label} (initial : Initial s)
    (finished : run step s labels = some final) :
    (Always step WakePending s labels ↔ Along step SleepsAwaited s labels) ∧
      (Along step WakesMarked s labels → Always step WakePending s labels) := by
  constructor
  · apply always_iff_along Watched _ _ _ initial.watched finished
    · intro state watched
      exact watched.wakePending
    · intro state label next watched guarded taken
      exact watched.step guarded taken
    · intro state label next watched unguarded taken
      exact watched.not_wakePending unguarded taken
  · apply always_of_along Ready _ _ initial.ready
    · intro state ready
      exact ready.watched.wakePending
    · intro state label next ready guarded taken
      exact ready.step guarded taken

/-- Task 1 hands its item over and sleeps, and the daemon has not begun. -/
def handOver : List Label :=
  [.exec 1 0, .task 1, .task 1, .task 1]

theorem handOver_finishes : (run step quiet handOver).isSome = true := by
  decide +kernel

theorem wakePending_always_handOver :
    Initial quiet ∧ (∃ final, run step quiet handOver = some final) ∧
      Always step WakePending quiet handOver := by
  rcases Option.isSome_iff_exists.mp handOver_finishes with ⟨final, finished⟩
  refine ⟨quiet_initial, ⟨final, finished⟩, ?_⟩
  apply (wakePending_always_iff quiet_initial finished).2
  simp [handOver, Along, WakesMarked]

/-- Task 1 hands its item over; the daemon does all of its work for the item,
and after that the task marks itself and calls `schedule()`. -/
def overtaken : List Label :=
  [.exec 1 0, .task 1] ++ List.replicate 11 (.daemon 0) ++ [.task 1, .task 1]

theorem overtaken_finishes : (run step quiet overtaken).isSome = true := by
  decide +kernel

/-- No signal is sent, and the task sleeps on an item that is done with. -/
theorem wake_up_overtakes_sleep :
    (∀ label ∈ overtaken, ∀ task, label ≠ .signal task) ∧
      ∃ final, run step quiet overtaken = some final ∧ ¬ WakePending final := by
  refine ⟨by simp [overtaken], _, (Option.some_get overtaken_finishes).symm, ?_⟩
  intro pending
  rcases pending 1 ⟨0, 1, 0⟩ (by decide +kernel) (by decide +kernel) with ⟨item, mem, -⟩
  have empty : ((run step quiet overtaken).get overtaken_finishes).outstanding = [] := by
    decide +kernel
  rw [empty] at mem
  contradiction

end Rhino.Exec
