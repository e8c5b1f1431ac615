import Rhino.Exec.Core
import Rhino.Transition.Run
import Mathlib.Data.List.Nodup

/-!
# A task waits for the daemon

The sleep of `load_bof_binary` is a bare `schedule()`.  Nothing is tested again
when it returns, so everything depends on who may wake the task.
`handed_always_iff` says exactly which wake-ups do harm: a signal, or the
`wake_up_process` for an earlier item of the task that a signal had made it give
up waiting for.  `handed_of_undisturbed` draws the practical conclusion: a task
that no signal reaches during the exec always finds the result of its own load.
-/

namespace Rhino.Exec

open Rhino.Hwr Rhino.Transition

/-- A task that is about to test `load_err` finds the result of its own item
there. -/
def Handed (s : State) : Prop :=
  ∀ task item, (s.tasks task).pc = .testing item → (s.stored item.number).isSome = true

/-- A step by which a task leaves `schedule()` comes after the result for its
item has been stored: the call itself, when the task is already runnable or has
a signal pending, a signal, and a `wake_up_process` for another item. -/
def LeavesStored (s : State) : Label → Prop
  | .task task => ∀ item, (s.tasks task).pc = .marked item →
      ((s.tasks task).interruptible = false ∨ (s.tasks task).pending = true) →
        (s.stored item.number).isSome = true
  | .signal task => ∀ item, (s.tasks task).pc = .asleep item →
      (s.stored item.number).isSome = true
  | .daemon _ => ∀ done item, s.daemon.pc = .waking done →
      (s.tasks done.task).pc = .asleep item → item ≠ done →
        (s.stored item.number).isSome = true
  | _ => True

/-! ## Changing one task -/

@[simp]
theorem setTask_same (s : State) (task : Task) (t : TaskState) :
    (s.setTask task t).tasks task = t := by
  simp [State.setTask]

@[simp]
theorem setTask_other (s : State) {task other : Task} (t : TaskState) (ne : other ≠ task) :
    (s.setTask task t).tasks other = s.tasks other := by
  simp [State.setTask, ne]

/-! ## What the steps do -/

/-- The item that the daemon has taken and not done with. -/
def DaemonPc.inHand : DaemonPc → List Item
  | .loading item => [item]
  | .storing item _ => [item]
  | .waking item => [item]
  | _ => []

/-- The items that have been appended and whose task has not been woken. -/
def State.outstanding (s : State) : List Item :=
  s.daemon.pc.inHand ++ s.queue

theorem DaemonPc.wake_inHand (pc : DaemonPc) : pc.wake.inHand = pc.inHand := by
  cases pc <;> rfl

theorem DaemonPc.wake_eq_waking_iff (pc : DaemonPc) (item : Item) :
    pc.wake = .waking item ↔ pc = .waking item := by
  cases pc <;> simp [DaemonPc.wake]

theorem Daemon.wake_inHand (d : Daemon) : d.wake.pc.inHand = d.pc.inHand := by
  unfold Daemon.wake
  split
  · exact d.pc.wake_inHand
  · rfl

theorem Daemon.wake_eq_waking_iff (d : Daemon) (item : Item) :
    d.wake.pc = .waking item ↔ d.pc = .waking item := by
  unfold Daemon.wake
  split
  · exact d.pc.wake_eq_waking_iff item
  · rfl

/-- The further steps of a task, without what they do to the daemon. -/
inductive TaskMove : TaskState → TaskState → Prop where
  | notify {t : TaskState} {item : Item} (pc : t.pc = .appended item) :
      TaskMove t { t with pc := .notified item }
  | mark {t : TaskState} {item : Item} (pc : t.pc = .notified item) :
      TaskMove t { t with pc := .marked item, interruptible := true }
  | resume {t : TaskState} {item : Item} (pc : t.pc = .marked item)
      (runnable : t.interruptible = false ∨ t.pending = true) :
      TaskMove t { t with pc := .testing item, interruptible := false }
  | sleep {t : TaskState} {item : Item} (pc : t.pc = .marked item)
      (interruptible : t.interruptible = true) (quiet : t.pending = false) :
      TaskMove t { t with pc := .asleep item }
  | test {t : TaskState} {item : Item} {found : ℤ} (pc : t.pc = .testing item) :
      TaskMove t { t with pc := .outside, found := some found }

/-- A step of a task moves the task and leaves the items alone; at most it wakes
the daemon. -/
theorem taskStep_cases {s next : State} {task : Task} (taken : taskStep task s = some next) :
    ∃ t, TaskMove (s.tasks task) t ∧ next.tasks = Function.update s.tasks task t ∧
      next.stored = s.stored ∧ next.nextItem = s.nextItem ∧
      next.outstanding = s.outstanding ∧
      ∀ item, next.daemon.pc = .waking item ↔ s.daemon.pc = .waking item := by
  cases place : (s.tasks task).pc with
  | outside => simp [taskStep, place] at taken
  | asleep item => simp [taskStep, place] at taken
  | appended item =>
      simp only [taskStep, place, Option.some.injEq] at taken
      subst taken
      refine ⟨_, .notify place, rfl, rfl, rfl, ?_⟩
      cases waits : s.daemon.waitQueued with
      | false => simp [State.outstanding, State.setTask, waits]
      | true =>
          simp [State.outstanding, State.setTask, waits, Daemon.wake_inHand,
            Daemon.wake_eq_waking_iff]
  | notified item =>
      simp only [taskStep, place, Option.some.injEq] at taken
      subst taken
      exact ⟨_, .mark place, rfl, rfl, rfl, rfl, fun _ => Iff.rfl⟩
  | marked item =>
      simp only [taskStep, place] at taken
      split at taken
      · rename_i runnable
        rcases Option.some.inj taken with rfl
        simp only [Bool.or_eq_true, Bool.not_eq_true'] at runnable
        exact ⟨_, .resume place runnable, rfl, rfl, rfl, rfl, fun _ => Iff.rfl⟩
      · rename_i blocks
        rcases Option.some.inj taken with rfl
        simp only [Bool.or_eq_true, Bool.not_eq_true', not_or, Bool.not_eq_false,
          Bool.not_eq_true] at blocks
        exact ⟨_, .sleep place blocks.1 blocks.2, rfl, rfl, rfl, rfl, fun _ => Iff.rfl⟩
  | testing item =>
      simp only [taskStep, place, Option.some.injEq] at taken
      subst taken
      exact ⟨_, .test place, rfl, rfl, rfl, rfl, fun _ => Iff.rfl⟩

/-- The steps of the daemon between two items; `queue` is what it finds there. -/
inductive DaemonWalk (queue : List Item) (d : Daemon) : Daemon → Prop where
  | mark (pc : d.pc = .top) : DaemonWalk queue d { d with pc := .marked, interruptible := true }
  | enlist (pc : d.pc = .marked) : DaemonWalk queue d { d with pc := .listed, waitQueued := true }
  | block (pc : d.pc = .listed) (empty : queue = []) :
      DaemonWalk queue d { d with pc := .blocking }
  | pass (pc : d.pc = .listed) : DaemonWalk queue d { d with pc := .resumed }
  | resume (pc : d.pc = .blocking) :
      DaemonWalk queue d { d with pc := .resumed, interruptible := false }
  | sleep (pc : d.pc = .blocking) (interruptible : d.interruptible = true) :
      DaemonWalk queue d { d with pc := .asleep }
  | unmark (pc : d.pc = .resumed) :
      DaemonWalk queue d { d with pc := .leaving, interruptible := false }
  | delist (pc : d.pc = .leaving) :
      DaemonWalk queue d { d with pc := .dispatch, waitQueued := false }
  | stop (pc : d.pc = .dispatch) : DaemonWalk queue d { d with pc := .stopped }
  | check (pc : d.pc = .dispatch) : DaemonWalk queue d { d with pc := .checking }
  | serve (pc : d.pc = .checking) : DaemonWalk queue d { d with pc := .execq }
  | again (pc : d.pc = .checking ∨ d.pc = .execq) : DaemonWalk queue d { d with pc := .top }

/-- All steps of the daemon: besides those between two items, the four that it
makes for each item. -/
inductive DaemonMove (retval : ℤ) (s : State) : State → Prop where
  | walk {d : Daemon} (walks : DaemonWalk s.queue s.daemon d) :
      DaemonMove retval s { s with daemon := d }
  | take {item : Item} {rest : List Item} (pc : s.daemon.pc = .execq)
      (queue_eq : s.queue = item :: rest) :
      DaemonMove retval s
        { s with queue := rest, daemon := { s.daemon with pc := .loading item } }
  | load {item : Item} (pc : s.daemon.pc = .loading item) :
      DaemonMove retval s { s with daemon := { s.daemon with pc := .storing item retval } }
  | store {item : Item} {result : ℤ} (pc : s.daemon.pc = .storing item result) :
      DaemonMove retval s
        { s with
          stored := Function.update s.stored item.number (some result)
          daemon := { s.daemon with pc := .waking item } }
  | wake {item : Item} (pc : s.daemon.pc = .waking item) :
      DaemonMove retval s
        { s.setTask item.task (s.tasks item.task).wake with
          daemon := { s.daemon with pc := .execq } }

theorem daemonMove_of_step {s next : State} {retval : ℤ}
    (taken : daemonStep retval s = some next) : DaemonMove retval s next := by
  cases place : s.daemon.pc with
  | asleep | stopped => simp [daemonStep, place] at taken
  | top =>
      simp only [daemonStep, place, Option.some.injEq] at taken
      subst taken
      exact .walk (.mark place)
  | marked =>
      simp only [daemonStep, place, Option.some.injEq] at taken
      subst taken
      exact .walk (.enlist place)
  | listed =>
      simp only [daemonStep, place, Option.some.injEq] at taken
      subst taken
      split
      · rename_i empty
        exact .walk (.block place (List.isEmpty_iff.mp empty))
      · exact .walk (.pass place)
  | blocking =>
      simp only [daemonStep, place] at taken
      split at taken
      · rcases Option.some.inj taken with rfl
        exact .walk (.resume place)
      · rename_i blocks
        rcases Option.some.inj taken with rfl
        simp only [Bool.or_eq_true, Bool.not_eq_true', not_or, Bool.not_eq_false] at blocks
        exact .walk (.sleep place blocks.1)
  | resumed =>
      simp only [daemonStep, place, Option.some.injEq] at taken
      subst taken
      exact .walk (.unmark place)
  | leaving =>
      simp only [daemonStep, place, Option.some.injEq] at taken
      subst taken
      exact .walk (.delist place)
  | dispatch =>
      simp only [daemonStep, place, Option.some.injEq] at taken
      subst taken
      split
      · exact .walk (.stop place)
      · exact .walk (.check place)
  | checking =>
      simp only [daemonStep, place, Option.some.injEq] at taken
      subst taken
      split
      · exact .walk (.again (Or.inl place))
      · exact .walk (.serve place)
  | execq =>
      cases queue_eq : s.queue with
      | nil =>
          simp only [daemonStep, place, queue_eq, Option.some.injEq] at taken
          subst taken
          rw [← queue_eq]
          exact .walk (.again (Or.inr place))
      | cons item rest =>
          simp only [daemonStep, place, queue_eq, Option.some.injEq] at taken
          subst taken
          exact .take place queue_eq
  | loading item =>
      simp only [daemonStep, place, Option.some.injEq] at taken
      subst taken
      exact .load place
  | storing item result =>
      simp only [daemonStep, place, Option.some.injEq] at taken
      subst taken
      exact .store place
  | waking item =>
      simp only [daemonStep, place, Option.some.injEq] at taken
      subst taken
      exact .wake place

/-- Between two items the daemon has none in hand. -/
theorem DaemonWalk.inHand_eq {queue : List Item} {d d' : Daemon} (walks : DaemonWalk queue d d') :
    d.pc.inHand = [] ∧ d'.pc.inHand = [] := by
  cases walks with
  | again pc => rcases pc with pc | pc <;> simp [pc, DaemonPc.inHand]
  | mark pc | enlist pc | block pc | pass pc | resume pc | sleep pc | unmark pc | delist pc
  | stop pc | check pc | serve pc => simp [pc, DaemonPc.inHand]

theorem DaemonPc.ne_waking_of_inHand {pc : DaemonPc} (free : pc.inHand = []) (item : Item) :
    pc ≠ .waking item := by
  rintro rfl
  simp [DaemonPc.inHand] at free

/-- Of the steps of the daemon, one stores a result and one wakes a task; the
others touch neither, and none loses or adds an item. -/
theorem daemonStep_cases {s next : State} {retval : ℤ}
    (taken : daemonStep retval s = some next) :
    (next.tasks = s.tasks ∧ next.stored = s.stored ∧ next.nextItem = s.nextItem ∧
      next.outstanding = s.outstanding ∧ (∀ item, s.daemon.pc ≠ .waking item) ∧
      ∀ item, next.daemon.pc ≠ .waking item) ∨
    (∃ item result, s.daemon.pc = .storing item result ∧ next.daemon.pc = .waking item ∧
      next.tasks = s.tasks ∧
      next.stored = Function.update s.stored item.number (some result) ∧
      next.nextItem = s.nextItem ∧ next.outstanding = s.outstanding) ∨
    (∃ item, s.daemon.pc = .waking item ∧ next.daemon.pc = .execq ∧
      next.tasks = Function.update s.tasks item.task (s.tasks item.task).wake ∧
      next.stored = s.stored ∧ next.nextItem = s.nextItem ∧
      s.outstanding = item :: next.outstanding) := by
  cases daemonMove_of_step taken with
  | walk walks =>
      obtain ⟨before, after⟩ := walks.inHand_eq
      left
      exact ⟨rfl, rfl, rfl, by simp [State.outstanding, before, after],
        DaemonPc.ne_waking_of_inHand before, DaemonPc.ne_waking_of_inHand after⟩
  | take pc queue_eq =>
      left
      simp [State.outstanding, pc, DaemonPc.inHand, queue_eq]
  | load pc =>
      left
      simp [State.outstanding, pc, DaemonPc.inHand]
  | @store item result pc =>
      right; left
      exact ⟨item, result, pc, rfl, rfl, rfl, rfl, by
        simp [State.outstanding, pc, DaemonPc.inHand]⟩
  | @wake item pc =>
      right; right
      exact ⟨item, pc, rfl, rfl, rfl, rfl, by
        simp [State.outstanding, pc, DaemonPc.inHand, State.setTask]⟩

/-! ## The exact condition -/

/-- A task that tests has its result, and a sleeper can be woken. -/
structure TaskOk (stored : ℕ → Option ℤ) (t : TaskState) : Prop where
  tested : ∀ item, t.pc = .testing item → (stored item.number).isSome = true
  sleeps : ∀ item, t.pc = .asleep item → t.interruptible = true

/-- Every task is in order, and the daemon wakes a task after it has stored its
result. -/
structure Inv (s : State) : Prop where
  tasks : ∀ task, TaskOk s.stored (s.tasks task)
  waking : ∀ item, s.daemon.pc = .waking item → (s.stored item.number).isSome = true

theorem Inv.handed {s : State} (inv : Inv s) : Handed s := by
  intro task item place
  exact (inv.tasks task).tested item place

/-- A wake-up takes a task that can be woken out of `schedule()`. -/
theorem TaskState.wake_pc {t : TaskState}
    (sleeps : ∀ item, t.pc = .asleep item → t.interruptible = true) :
    t.wake.pc = t.pc.wake := by
  unfold TaskState.wake
  cases awake : t.interruptible with
  | true => rfl
  | false =>
      cases place : t.pc with
      | asleep item =>
          rw [sleeps item place] at awake
          contradiction
      | outside | appended | notified | marked | testing => simp [place, TaskPc.wake]

theorem TaskOk.wake_pc {stored : ℕ → Option ℤ} {t : TaskState} (ok : TaskOk stored t) :
    t.wake.pc = t.pc.wake :=
  TaskState.wake_pc ok.sleeps

theorem TaskPc.wake_eq_testing_iff {pc : TaskPc} {item : Item} :
    pc.wake = .testing item ↔ pc = .testing item ∨ pc = .asleep item := by
  cases pc <;> simp [TaskPc.wake]

theorem TaskPc.wake_ne_asleep (pc : TaskPc) (item : Item) : pc.wake ≠ .asleep item := by
  cases pc <;> simp [TaskPc.wake]

theorem TaskOk.wake {stored : ℕ → Option ℤ} {t : TaskState} (ok : TaskOk stored t)
    (done : ∀ item, t.pc = .asleep item → (stored item.number).isSome = true) :
    TaskOk stored t.wake := by
  constructor
  · intro item place
    rw [ok.wake_pc, TaskPc.wake_eq_testing_iff] at place
    rcases place with tests | sleeps
    · exact ok.tested item tests
    · exact done item sleeps
  · intro item place
    rw [ok.wake_pc] at place
    exact absurd place (t.pc.wake_ne_asleep item)

theorem TaskOk.signal {stored : ℕ → Option ℤ} {t : TaskState} (ok : TaskOk stored t)
    (pending : Bool) : TaskOk stored { t with pending := pending } :=
  ⟨ok.tested, ok.sleeps⟩

theorem TaskOk.move {stored : ℕ → Option ℤ} {t next : TaskState} (moved : TaskMove t next)
    (done : ∀ item, t.pc = .marked item →
      (t.interruptible = false ∨ t.pending = true) → (stored item.number).isSome = true) :
    TaskOk stored next := by
  cases moved with
  | notify pc => constructor <;> simp
  | mark pc => constructor <;> simp
  | resume pc runnable =>
      constructor
      · intro item place
        rcases TaskPc.testing.inj place with rfl
        exact done _ pc runnable
      · simp
  | sleep pc interruptible _ =>
      constructor
      · simp
      · intro _ _
        exact interruptible
  | test pc => constructor <;> simp

/-- Replacing a task by one that is in order. -/
theorem Inv.update {s next : State} (inv : Inv s) {task : Task} {t : TaskState}
    (tasks_eq : next.tasks = Function.update s.tasks task t) (stored_eq : next.stored = s.stored)
    (waking_of : ∀ item, next.daemon.pc = .waking item → s.daemon.pc = .waking item)
    (ok : TaskOk s.stored t) : Inv next := by
  constructor
  · intro other
    rw [tasks_eq, stored_eq]
    by_cases same : other = task
    · rw [same, Function.update_self]
      exact ok
    · rw [Function.update_of_ne same]
      exact inv.tasks other
  · intro item place
    rw [stored_eq]
    exact inv.waking item (waking_of item place)

theorem Inv.setTask {s : State} (inv : Inv s) (task : Task) {t : TaskState}
    (ok : TaskOk s.stored t) : Inv (s.setTask task t) :=
  inv.update rfl rfl (fun _ place => place) ok

theorem isSome_update_of_isSome {stored : ℕ → Option ℤ} {number : ℕ} (other : ℕ) (result : ℤ)
    (present : (stored number).isSome = true) :
    (Function.update stored other (some result) number).isSome = true := by
  by_cases same : number = other
  · simp [same]
  · rwa [Function.update_of_ne same]

/-- Storing one more result. -/
theorem Inv.store {s next : State} (inv : Inv s) {item : Item} {result : ℤ}
    (tasks_eq : next.tasks = s.tasks)
    (stored_eq : next.stored = Function.update s.stored item.number (some result))
    (place : next.daemon.pc = .waking item) : Inv next := by
  constructor
  · intro task
    rw [tasks_eq, stored_eq]
    constructor
    · intro other tests
      exact isSome_update_of_isSome _ _ ((inv.tasks task).tested other tests)
    · exact (inv.tasks task).sleeps
  · intro other same
    rw [place] at same
    rcases DaemonPc.waking.inj same with rfl
    rw [stored_eq, Function.update_self]
    rfl

theorem Inv.step {s next : State} {label : Label} (inv : Inv s) (guarded : LeavesStored s label)
    (taken : step s label = some next) : Inv next := by
  cases label with
  | exec task fileErr =>
      simp only [Exec.step, Option.ite_none_right_eq_some, Option.some.injEq] at taken
      rcases taken with ⟨-, rfl⟩
      have appended := inv.setTask task (t := { s.tasks task with
        pc := .appended ⟨s.nextItem, task, fileErr⟩ }) (by constructor <;> simp)
      exact ⟨appended.tasks, appended.waking⟩
  | task task =>
      rcases taskStep_cases taken with ⟨t, moved, tasks_eq, stored_eq, -, -, waking_iff⟩
      exact inv.update tasks_eq stored_eq (fun item => (waking_iff item).mp)
        (.move moved guarded)
  | daemon retval =>
      rcases daemonStep_cases taken with ⟨tasks_eq, stored_eq, -, -, -, notWaking⟩ |
        ⟨item, result, -, place, tasks_eq, stored_eq, -⟩ |
        ⟨item, place, next_place, tasks_eq, stored_eq, -⟩
      · constructor
        · rw [tasks_eq, stored_eq]
          exact inv.tasks
        · intro item place
          exact absurd place (notWaking item)
      · exact inv.store tasks_eq stored_eq place
      · apply inv.update tasks_eq stored_eq
        · intro other same
          rw [next_place] at same
          contradiction
        · apply (inv.tasks item.task).wake
          intro other sleeps
          by_cases own : other = item
          · rw [own]
            exact inv.waking item place
          · exact guarded item other place sleeps own
  | signal task =>
      rcases Option.some.inj taken with rfl
      apply inv.setTask
      exact ((inv.tasks task).signal true).wake guarded
  | deliver task =>
      simp only [Exec.step, Option.ite_none_right_eq_some, Option.some.injEq] at taken
      rcases taken with ⟨-, rfl⟩
      apply inv.setTask
      exact (inv.tasks task).signal false
  | signalDaemon =>
      rcases Option.some.inj taken with rfl
      constructor
      · exact inv.tasks
      · intro item place
        exact inv.waking item
          ((Daemon.wake_eq_waking_iff { s.daemon with pending := true } item).mp place)

/-- A step against the condition brings a task to its test too early. -/
theorem Inv.not_handed {s next : State} {label : Label} (inv : Inv s)
    (unguarded : ¬ LeavesStored s label) (taken : Exec.step s label = some next) :
    ¬ Handed next := by
  intro handed
  apply unguarded
  cases label with
  | exec => trivial
  | deliver => trivial
  | signalDaemon => trivial
  | task task =>
      intro item place runnable
      rcases taskStep_cases taken with ⟨t, moved, tasks_eq, stored_eq, -⟩
      have early := handed task item
      rw [tasks_eq, Function.update_self, stored_eq] at early
      cases moved with
      | notify pc | mark pc | test pc =>
          rw [place] at pc
          contradiction
      | resume pc _ =>
          rw [place] at pc
          rcases TaskPc.marked.inj pc with rfl
          exact early rfl
      | sleep pc interruptible quiet =>
          rcases runnable with running | pending
          · rw [running] at interruptible
            contradiction
          · rw [pending] at quiet
            contradiction
  | signal task =>
      rcases Option.some.inj taken with rfl
      intro item sleeps
      apply handed task item
      simp only [signalTask, setTask_same]
      rw [((inv.tasks task).signal true).wake_pc, sleeps]
      rfl
  | daemon retval =>
      intro item other place sleeps _
      rcases daemonStep_cases taken with ⟨_, _, _, _, notWaking, _⟩ |
        ⟨_, _, storing, _⟩ | ⟨woken, waking, _, tasks_eq, stored_eq, _⟩
      · exact absurd place (notWaking item)
      · rw [place] at storing
        contradiction
      · rw [place] at waking
        rcases DaemonPc.waking.inj waking with rfl
        have early := handed item.task other
        rw [tasks_eq, Function.update_self, stored_eq] at early
        apply early
        rw [(inv.tasks item.task).wake_pc, sleeps]
        rfl

/-- Nothing has been handed to the daemon yet. -/
structure Initial (s : State) : Prop where
  tasks : ∀ task, (s.tasks task).pc = .outside
  daemon : s.daemon.pc = .top
  queue : s.queue = []

theorem Initial.inv {s : State} (initial : Initial s) : Inv s := by
  constructor
  · intro task
    constructor <;> simp [initial.tasks task]
  · simp [initial.daemon]

/-! ## Runs without signals during an exec -/

/-- No signal reaches a task inside `load_bof_binary`, and a task that enters it
has none pending. -/
def Undisturbed (s : State) : Label → Prop
  | .signal task => (s.tasks task).pc = .outside
  | .exec task _ => (s.tasks task).pending = false
  | _ => True

/-- The item that a task waits for. -/
def TaskPc.waitsFor : TaskPc → Option Item
  | .appended item => some item
  | .notified item => some item
  | .marked item => some item
  | .asleep item => some item
  | _ => none

/-- The task of every outstanding item waits for that item, and a task that has
been woken before it sleeps has been woken for its item. -/
structure Paired (s : State) : Prop where
  inv : Inv s
  nodup : s.outstanding.Nodup
  old : ∀ item ∈ s.outstanding, item.number < s.nextItem
  waits : ∀ item ∈ s.outstanding, (s.tasks item.task).pc.waitsFor = some item
  current : ∀ task item, (s.tasks task).pc.waitsFor = some item → item.number < s.nextItem
  quiet : ∀ task, (s.tasks task).pc ≠ .outside → (s.tasks task).pending = false
  woken : ∀ task item, (s.tasks task).pc = .marked item →
    (s.tasks task).interruptible = false →
      (s.stored item.number).isSome = true ∧ item ∉ s.outstanding

theorem TaskPc.wake_waitsFor {pc : TaskPc} {item : Item} (waits : pc.wake.waitsFor = some item) :
    pc.waitsFor = some item := by
  cases pc with
  | asleep other => cases waits
  | outside | appended | notified | marked | testing => exact waits

theorem TaskPc.wake_eq_marked_iff {pc : TaskPc} {item : Item} :
    pc.wake = .marked item ↔ pc = .marked item := by
  cases pc <;> simp [TaskPc.wake]

/-- A step that replaces one task and keeps the items. -/
theorem Paired.update {s next : State} (paired : Paired s) (inv : Inv next) {task : Task}
    {t : TaskState} (tasks_eq : next.tasks = Function.update s.tasks task t)
    (stored_eq : next.stored = s.stored) (nextItem_eq : next.nextItem = s.nextItem)
    (outstanding_eq : next.outstanding = s.outstanding)
    (waits : ∀ item ∈ s.outstanding, (s.tasks task).pc.waitsFor = some item →
      t.pc.waitsFor = some item)
    (current : ∀ item, t.pc.waitsFor = some item → (s.tasks task).pc.waitsFor = some item)
    (quiet : t.pc ≠ .outside → t.pending = false)
    (woken : ∀ item, t.pc = .marked item → t.interruptible = false →
      (s.stored item.number).isSome = true ∧ item ∉ s.outstanding) :
    Paired next where
  inv := inv
  nodup := by
    rw [outstanding_eq]
    exact paired.nodup
  old := by
    rw [outstanding_eq, nextItem_eq]
    exact paired.old
  waits item mem := by
    rw [outstanding_eq] at mem
    have before := paired.waits item mem
    rw [tasks_eq]
    by_cases same : item.task = task
    · rw [same] at before ⊢
      rw [Function.update_self]
      exact waits item mem before
    · rwa [Function.update_of_ne same]
  current other item place := by
    rw [tasks_eq] at place
    rw [nextItem_eq]
    by_cases same : other = task
    · rw [same, Function.update_self] at place
      exact paired.current task item (current item place)
    · rw [Function.update_of_ne same] at place
      exact paired.current other item place
  quiet other place := by
    rw [tasks_eq] at place ⊢
    by_cases same : other = task
    · rw [same, Function.update_self] at place ⊢
      exact quiet place
    · rw [Function.update_of_ne same] at place ⊢
      exact paired.quiet other place
  woken other item place running := by
    rw [tasks_eq] at place running
    rw [stored_eq, outstanding_eq]
    by_cases same : other = task
    · rw [same, Function.update_self] at place running
      exact woken item place running
    · rw [Function.update_of_ne same] at place running
      exact paired.woken other item place running

theorem Paired.leavesStored {s : State} {label : Label} (paired : Paired s)
    (undisturbed : Undisturbed s label) : LeavesStored s label := by
  cases label with
  | exec => trivial
  | deliver => trivial
  | signalDaemon => trivial
  | task task =>
      intro item place runnable
      rcases runnable with running | pending
      · exact (paired.woken task item place running).1
      · have quiet := paired.quiet task (by simp [place])
        rw [pending] at quiet
        contradiction
  | signal task =>
      intro item sleeps
      have outside : (s.tasks task).pc = .outside := undisturbed
      rw [outside] at sleeps
      contradiction
  | daemon retval =>
      intro done item place sleeps other
      have waits := paired.waits done (by simp [State.outstanding, place, DaemonPc.inHand])
      rw [sleeps] at waits
      exact absurd (Option.some.inj waits) other

theorem Paired.exec {s : State} (paired : Paired s) {task : Task} (fileErr : ℤ)
    (outside : (s.tasks task).pc = .outside) (calm : (s.tasks task).pending = false)
    (inv : Inv (enqueue task fileErr s)) : Paired (enqueue task fileErr s) := by
  have outstanding_eq : (enqueue task fileErr s).outstanding =
      s.outstanding ++ [⟨s.nextItem, task, fileErr⟩] := by
    simp [State.outstanding, enqueue, State.setTask]
  have fresh (item : Item) (older : item.number < s.nextItem) :
      item ≠ ⟨s.nextItem, task, fileErr⟩ := by
    rintro rfl
    exact lt_irrefl _ older
  have elsewhere (item : Item) (mem : item ∈ s.outstanding) : item.task ≠ task := by
    intro same
    have waits := paired.waits item mem
    rw [same, outside] at waits
    contradiction
  constructor
  case inv => exact inv
  case nodup =>
    rw [outstanding_eq]
    refine List.nodup_append.mpr ⟨paired.nodup, List.nodup_singleton _, ?_⟩
    intro item mem new memNew
    rw [List.mem_singleton.mp memNew]
    exact fresh item (paired.old item mem)
  case old =>
    intro item mem
    rw [outstanding_eq] at mem
    rcases List.mem_append.mp mem with mem | new
    · exact Nat.lt_succ_of_lt (paired.old item mem)
    · rw [List.mem_singleton.mp new]
      exact Nat.lt_succ_self _
  case waits =>
    intro item mem
    rw [outstanding_eq] at mem
    rcases List.mem_append.mp mem with mem | new
    · simp only [enqueue, setTask_other _ _ (elsewhere item mem)]
      exact paired.waits item mem
    · rw [List.mem_singleton.mp new]
      simp [enqueue, TaskPc.waitsFor]
  case current =>
    intro other item place
    by_cases same : other = task
    · rw [same] at place
      simp only [enqueue, setTask_same, TaskPc.waitsFor, Option.some.injEq] at place
      rw [← place]
      exact Nat.lt_succ_self _
    · simp only [enqueue, setTask_other _ _ same] at place
      exact Nat.lt_succ_of_lt (paired.current other item place)
  case quiet =>
    intro other place
    by_cases same : other = task
    · rw [same]
      simpa [enqueue] using calm
    · simp only [enqueue, setTask_other _ _ same] at place ⊢
      exact paired.quiet other place
  case woken =>
    intro other item place running
    by_cases same : other = task
    · rw [same] at place
      simp [enqueue] at place
    · simp only [enqueue, setTask_other _ _ same] at place running
      have before := paired.woken other item place running
      refine ⟨before.1, ?_⟩
      rw [outstanding_eq, List.mem_append, List.mem_singleton, not_or]
      refine ⟨before.2, fresh item (paired.current other item ?_)⟩
      rw [place]
      rfl

theorem Paired.task {s next : State} (paired : Paired s) {task : Task} (inv : Inv next)
    (taken : taskStep task s = some next) : Paired next := by
  rcases taskStep_cases taken with
    ⟨t, moved, tasks_eq, stored_eq, nextItem_eq, outstanding_eq, -⟩
  have calm (inside : (s.tasks task).pc ≠ .outside) : (s.tasks task).pending = false :=
    paired.quiet task inside
  apply paired.update inv tasks_eq stored_eq nextItem_eq outstanding_eq
  case waits =>
    intro item mem waits
    cases moved with
    | notify pc | mark pc | sleep pc _ _ =>
        rw [pc] at waits
        exact waits
    | resume pc runnable =>
        -- The task has been woken, so its item is not outstanding any more.
        rw [pc] at waits
        rcases Option.some.inj waits with rfl
        rcases runnable with running | pending
        · exact absurd mem (paired.woken task _ pc running).2
        · rw [calm (by simp [pc])] at pending
          contradiction
    | test pc =>
        rw [pc] at waits
        contradiction
  case current =>
    intro item waits
    cases moved with
    | notify pc | mark pc | sleep pc _ _ =>
        rw [pc]
        exact waits
    | resume pc _ => cases waits
    | test pc => cases waits
  case quiet =>
    intro inside
    cases moved with
    | notify pc | mark pc | sleep pc _ _ | resume pc _ => exact calm (by simp [pc])
    | test pc => exact absurd rfl inside
  case woken =>
    intro item place running
    cases moved with
    | mark pc => cases running
    | notify pc | sleep pc _ _ | resume pc _ | test pc => cases place

/-- A step that keeps tasks and items and at most stores a result. -/
theorem Paired.grow {s next : State} (paired : Paired s) (inv : Inv next)
    (tasks_eq : next.tasks = s.tasks)
    (grows : ∀ number, (s.stored number).isSome = true → (next.stored number).isSome = true)
    (nextItem_eq : next.nextItem = s.nextItem)
    (outstanding_eq : next.outstanding = s.outstanding) : Paired next where
  inv := inv
  nodup := by
    rw [outstanding_eq]
    exact paired.nodup
  old := by
    rw [outstanding_eq, nextItem_eq]
    exact paired.old
  waits := by
    rw [outstanding_eq, tasks_eq]
    exact paired.waits
  current := by
    rw [tasks_eq, nextItem_eq]
    exact paired.current
  quiet := by
    rw [tasks_eq]
    exact paired.quiet
  woken task item place running := by
    rw [tasks_eq] at place running
    rw [outstanding_eq]
    have before := paired.woken task item place running
    exact ⟨grows _ before.1, before.2⟩

/-- The daemon wakes the task of the item in its hand. -/
theorem Paired.wake {s next : State} (paired : Paired s) (inv : Inv next) {done : Item}
    (place : s.daemon.pc = .waking done)
    (tasks_eq : next.tasks = Function.update s.tasks done.task (s.tasks done.task).wake)
    (stored_eq : next.stored = s.stored) (nextItem_eq : next.nextItem = s.nextItem)
    (outstanding_eq : s.outstanding = done :: next.outstanding) : Paired next := by
  have pc_eq := (paired.inv.tasks done.task).wake_pc
  have waits := paired.waits done (by rw [outstanding_eq]; exact List.mem_cons_self)
  have nodup := paired.nodup
  rw [outstanding_eq, List.nodup_cons] at nodup
  have still (item : Item) (mem : item ∈ next.outstanding) : item ∈ s.outstanding := by
    rw [outstanding_eq]
    exact List.mem_cons_of_mem _ mem
  -- No second item of the task is outstanding: the task waits for one only.
  have elsewhere (item : Item) (mem : item ∈ next.outstanding) : item.task ≠ done.task := by
    intro same
    have waitsToo := paired.waits item (still item mem)
    rw [same, waits] at waitsToo
    rcases Option.some.inj waitsToo with rfl
    exact nodup.1 mem
  constructor
  case inv => exact inv
  case nodup => exact nodup.2
  case old =>
    intro item mem
    rw [nextItem_eq]
    exact paired.old item (still item mem)
  case waits =>
    intro item mem
    rw [tasks_eq, Function.update_of_ne (elsewhere item mem)]
    exact paired.waits item (still item mem)
  case current =>
    intro task item waitsFor
    rw [tasks_eq] at waitsFor
    rw [nextItem_eq]
    by_cases same : task = done.task
    · rw [same, Function.update_self, pc_eq] at waitsFor
      exact paired.current done.task item (TaskPc.wake_waitsFor waitsFor)
    · rw [Function.update_of_ne same] at waitsFor
      exact paired.current task item waitsFor
  case quiet =>
    intro task inside
    rw [tasks_eq] at inside ⊢
    by_cases same : task = done.task
    · rw [same, Function.update_self] at inside ⊢
      have calm := paired.quiet done.task (by
        intro outside
        rw [outside] at waits
        contradiction)
      unfold TaskState.wake
      split
      · exact calm
      · exact calm
    · rw [Function.update_of_ne same] at inside ⊢
      exact paired.quiet task inside
  case woken =>
    intro task item marked running
    rw [tasks_eq] at marked running
    rw [stored_eq]
    by_cases same : task = done.task
    · rw [same, Function.update_self, pc_eq, TaskPc.wake_eq_marked_iff] at marked
      rw [marked] at waits
      rcases Option.some.inj waits with rfl
      exact ⟨paired.inv.waking _ place, nodup.1⟩
    · rw [Function.update_of_ne same] at marked running
      have before := paired.woken task item marked running
      exact ⟨before.1, fun mem => before.2 (still item mem)⟩

theorem Paired.step {s next : State} {label : Label} (paired : Paired s)
    (undisturbed : Undisturbed s label) (taken : Exec.step s label = some next) :
    Paired next := by
  have inv := paired.inv.step (paired.leavesStored undisturbed) taken
  cases label with
  | exec task fileErr =>
      simp only [Exec.step, Option.ite_none_right_eq_some, Option.some.injEq] at taken
      rcases taken with ⟨outside, rfl⟩
      exact paired.exec fileErr outside undisturbed inv
  | task task => exact paired.task inv taken
  | daemon retval =>
      rcases daemonStep_cases taken with
        ⟨tasks_eq, stored_eq, nextItem_eq, outstanding_eq, -, -⟩ |
        ⟨item, result, -, -, tasks_eq, stored_eq, nextItem_eq, outstanding_eq⟩ |
        ⟨item, place, -, tasks_eq, stored_eq, nextItem_eq, outstanding_eq⟩
      · apply paired.grow inv tasks_eq _ nextItem_eq outstanding_eq
        intro number present
        rwa [stored_eq]
      · apply paired.grow inv tasks_eq _ nextItem_eq outstanding_eq
        intro number present
        rw [stored_eq]
        exact isSome_update_of_isSome _ _ present
      · exact paired.wake inv place tasks_eq stored_eq nextItem_eq outstanding_eq
  | signal task =>
      rcases Option.some.inj taken with rfl
      have outside : (s.tasks task).pc = .outside := undisturbed
      have pc_eq : ({ s.tasks task with pending := true } : TaskState).wake.pc = .outside := by
        rw [((paired.inv.tasks task).signal true).wake_pc, outside]
        rfl
      apply paired.update inv rfl rfl rfl rfl
      · intro item _ waits
        rw [outside] at waits
        contradiction
      · intro item waits
        rw [pc_eq] at waits
        contradiction
      · intro inside
        exact absurd pc_eq inside
      · intro item marked
        rw [pc_eq] at marked
        contradiction
  | deliver task =>
      simp only [Exec.step, Option.ite_none_right_eq_some, Option.some.injEq] at taken
      rcases taken with ⟨outside, rfl⟩
      apply paired.update inv rfl rfl rfl rfl
      · intro item _ waits
        exact waits
      · intro item waits
        exact waits
      · intro _
        rfl
      · intro item marked
        rw [outside] at marked
        contradiction
  | signalDaemon =>
      rcases Option.some.inj taken with rfl
      apply paired.grow inv rfl (fun _ present => present) rfl
      simp [State.outstanding, Daemon.wake_inHand]

theorem Initial.paired {s : State} (initial : Initial s) : Paired s := by
  have empty : s.outstanding = [] := by
    simp [State.outstanding, initial.daemon, initial.queue, DaemonPc.inHand]
  constructor
  case inv => exact initial.inv
  case current =>
    intro task item waits
    rw [initial.tasks task] at waits
    contradiction
  case quiet =>
    intro task inside
    exact absurd (initial.tasks task) inside
  case woken =>
    intro task item place
    rw [initial.tasks task] at place
    contradiction
  all_goals simp [empty]

/-- Without signals during an exec, every wake-up that reaches a waiting task is
the one for its own item. -/
theorem leavesStored_of_undisturbed {s : State} {labels : List Label} (initial : Initial s)
    (undisturbed : Along step Undisturbed s labels) : Along step LeavesStored s labels := by
  apply Along.imp Paired _ _ initial.paired undisturbed
  · intro state label paired undisturbed
    exact paired.leavesStored undisturbed
  · intro state label next paired undisturbed taken
    exact paired.step undisturbed taken

/-- A task that no signal reaches during its exec finds the result of its own
load in `load_err`. -/
theorem handed_of_undisturbed {s : State} {labels : List Label} (initial : Initial s)
    (undisturbed : Along step Undisturbed s labels) : Always step Handed s labels := by
  apply always_of_along Inv _ _ initial.inv (leavesStored_of_undisturbed initial undisturbed)
  · intro state inv
    exact inv.handed
  · intro state label next inv guarded taken
    exact inv.step guarded taken

/-- In every run, every task tests `load_err` after the result for its own item
has been stored exactly if every step by which a task leaves its `schedule()`
for another reason than the daemon's wake-up for that item comes after the
store.  That is so whenever no signal reaches a task during its exec. -/
theorem handed_always_iff {s final : State} {labels : List Label} (initial : Initial s)
    (finished : run step s labels = some final) :
    (Always step Handed s labels ↔ Along step LeavesStored s labels) ∧
      (Along step Undisturbed s labels → Always step Handed s labels) := by
  constructor
  · apply always_iff_along Inv _ _ _ initial.inv finished
    · intro state inv
      exact inv.handed
    · intro state label next inv guarded taken
      exact inv.step guarded taken
    · intro state label next inv unguarded taken
      exact inv.not_handed unguarded taken
  · exact handed_of_undisturbed initial

/-! ## Two runs -/

/-- All tasks are in user mode and the daemon is about to look at its queue. -/
def quiet : State where
  tasks := fun _ => ⟨.outside, false, false, none⟩
  daemon := ⟨.top, false, false, false⟩
  queue := []
  nextItem := 0
  stored := fun _ => none

theorem quiet_initial : Initial quiet :=
  ⟨fun _ => rfl, rfl, rfl⟩

/-- Task 1 hands its item over and sleeps, the daemon loads and wakes it. -/
def exchange : List Label :=
  [.exec 1 0, .task 1, .task 1, .task 1] ++ List.replicate 11 (.daemon 0) ++ [.task 1]

theorem exchange_finishes : (run step quiet exchange).isSome = true := by
  decide +kernel

theorem handed_always_exchange :
    Initial quiet ∧ (∃ final, run step quiet exchange = some final) ∧
      Always step Handed quiet exchange := by
  rcases Option.isSome_iff_exists.mp exchange_finishes with ⟨final, finished⟩
  refine ⟨quiet_initial, ⟨final, finished⟩, ?_⟩
  apply (handed_always_iff quiet_initial finished).2
  simp [exchange, Along, Undisturbed, List.replicate, quiet]

/-- Task 1 hands its item over and sleeps, and a signal arrives. -/
def interrupted : List Label :=
  [.exec 1 0, .task 1, .task 1, .task 1, .signal 1]

theorem interrupted_finishes : (run step quiet interrupted).isSome = true := by
  decide +kernel

/-- The signal sends the task to its test before the daemon has looked at the
item. -/
theorem signal_ends_wait_early :
    ¬ ∀ (labels : List Label) (final : State),
      run step quiet labels = some final → Handed final := by
  intro handed
  have early := handed interrupted _ (Option.some_get interrupted_finishes).symm 1 ⟨0, 1, 0⟩
    (by decide +kernel)
  exact absurd early (by decide +kernel)

end Rhino.Exec
